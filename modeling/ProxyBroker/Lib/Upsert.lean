import Mathlib.Data.List.Induction
import Mathlib.Data.List.Nodup

/-!
# Keyed tables

A table is a list of rows with their keys. `upsert` updates the row of a key, or adds one at the end.
`rowOf_tableOf` says what a sequence of upserts leaves under a key: the fold of the items with that key.
`Matches` relates the tables of two implementations whose keys correspond, row by row; an upsert on both
sides keeps it.
-/

namespace ProxyBroker.Lib

variable {κ μ ρ σ α : Type} [DecidableEq κ] [DecidableEq μ]

/-- The row of a key. -/
def rowOf (k : κ) : List (κ × ρ) → Option ρ
  | [] => none
  | (j, r) :: rest => if j = k then some r else rowOf k rest

def upsert (key : κ) (f : Option ρ → ρ) : List (κ × ρ) → List (κ × ρ)
  | [] => [(key, f none)]
  | (k, r) :: rest => if k = key then (k, f (some r)) :: rest else (k, r) :: upsert key f rest

theorem rowOf_upsert (key k : κ) (f : Option ρ → ρ) (t : List (κ × ρ)) :
    rowOf k (upsert key f t) = if key = k then some (f (rowOf key t)) else rowOf k t := by
  induction t with
  | nil => simp [upsert, rowOf]
  | cons row t ih =>
    obtain ⟨j, r⟩ := row
    by_cases here : j = key
    · subst here
      by_cases same : j = k <;> simp [upsert, rowOf, same]
    · simp only [upsert, if_neg here, rowOf, ih]
      by_cases same : j = k
      · subst same
        simp [Ne.symm here]
      · simp [same]

theorem keys_upsert (key : κ) (f : Option ρ → ρ) (t : List (κ × ρ)) :
    (upsert key f t).map Prod.fst = if key ∈ t.map Prod.fst then t.map Prod.fst else t.map Prod.fst ++ [key] := by
  induction t with
  | nil => simp [upsert]
  | cons row t ih =>
    obtain ⟨j, r⟩ := row
    by_cases here : j = key
    · simp [upsert, here]
    · simp only [upsert, if_neg here, List.map_cons, ih, List.mem_cons, Ne.symm here, false_or]
      split <;> simp

theorem nodup_upsert {key : κ} {f : Option ρ → ρ} {t : List (κ × ρ)} (nodup : (t.map Prod.fst).Nodup) :
    ((upsert key f t).map Prod.fst).Nodup := by
  rw [keys_upsert]
  split
  · exact nodup
  · rename_i new
    exact List.nodup_append.2 ⟨nodup, List.nodup_singleton key, by simpa using fun a ha (same : a = key) => new (same ▸ ha)⟩

/-! ## A sequence of upserts -/

/-- The table after the items `xs`, where `fold x` makes the row of `x` out of the row before it. -/
def tableOf (key : α → κ) (fold : α → Option ρ → ρ) (xs : List α) : List (κ × ρ) :=
  xs.foldl (fun t x => upsert (key x) (fold x) t) []

/-- The row that the items leave. -/
def foldRow (fold : α → Option ρ → ρ) (xs : List α) : Option ρ := xs.foldl (fun o x => some (fold x o)) none

variable {key : α → κ} {fold : α → Option ρ → ρ}

theorem tableOf_concat (xs : List α) (x : α) :
    tableOf key fold (xs ++ [x]) = upsert (key x) (fold x) (tableOf key fold xs) := by
  simp [tableOf]

theorem foldRow_concat (xs : List α) (x : α) : foldRow fold (xs ++ [x]) = some (fold x (foldRow fold xs)) := by
  simp [foldRow]

theorem nodup_tableOf (xs : List α) : ((tableOf key fold xs).map Prod.fst).Nodup := by
  induction xs using List.reverseRecOn with
  | nil => exact List.nodup_nil
  | append_singleton xs x ih =>
    rw [tableOf_concat]
    exact nodup_upsert ih

/-- **What is under a key** is the fold of the items with that key. -/
theorem rowOf_tableOf (xs : List α) (k : κ) : rowOf k (tableOf key fold xs) = foldRow fold (xs.filter fun x => key x = k) := by
  induction xs using List.reverseRecOn with
  | nil => rfl
  | append_singleton xs x ih =>
    rw [tableOf_concat, rowOf_upsert, List.filter_append]
    by_cases same : key x = k
    · subst same
      simp [foldRow_concat, ih]
    · simp [same, ih]

/-- The same where the keys are those of another table. -/
theorem rowOf_tableOf_comp {g : κ → μ} (inj : Function.Injective g) (xs : List α) (k : κ) :
    rowOf (g k) (tableOf (g ∘ key) fold xs) = foldRow fold (xs.filter fun x => key x = k) := by
  rw [rowOf_tableOf]
  apply congrArg (foldRow fold)
  apply List.filter_congr
  intro x _
  exact decide_eq_decide.2 inj.eq_iff

/-- A field that each item keeps where it is there comes from the first item. -/
theorem foldRow_first {β : Type} (f : ρ → Option β) {v : α → β} (keeps : ∀ x o, f (fold x o) = some ((o.bind f).getD (v x)))
    (xs : List α) : (foldRow fold xs).bind f = (xs.map v).head? := by
  induction xs using List.reverseRecOn with
  | nil => rfl
  | append_singleton xs x ih =>
    rw [foldRow_concat, Option.bind_some, keeps, ih, List.map_append, List.head?_append]
    cases (xs.map v).head? <;> rfl

/-- A field that each item writes comes from the last item. -/
theorem foldRow_last {β : Type} (f : ρ → Option β) {v : α → β} (writes : ∀ x o, f (fold x o) = some (v x)) (xs : List α) :
    (foldRow fold xs).bind f = (xs.map v).getLast? := by
  induction xs using List.reverseRecOn with
  | nil => rfl
  | append_singleton xs x ih => rw [foldRow_concat, Option.bind_some, writes, List.map_append, List.map_singleton, List.getLast?_concat]

/-- A row of a table is the row of its key. -/
theorem rowOf_of_mem {t : List (κ × ρ)} (nodup : (t.map Prod.fst).Nodup) {k : κ} {r : ρ} (mem : (k, r) ∈ t) : rowOf k t = some r := by
  induction t with
  | nil => cases mem
  | cons row t ih =>
    obtain ⟨j, q⟩ := row
    rw [List.map_cons, List.nodup_cons] at nodup
    rcases List.mem_cons.1 mem with same | later
    · cases same
      exact if_pos rfl
    · have apart : j ≠ k := by
        rintro rfl
        exact nodup.1 (List.mem_map.2 ⟨(j, r), later, rfl⟩)
      rw [rowOf, if_neg apart]
      exact ih nodup.2 later

/-! ## Two implementations of one table -/

/-- The tables agree row by row: the keys correspond by `g`, the rows by `R`. -/
def Matches (g : κ → μ) (R : κ → ρ → σ → Prop) (t : List (κ × ρ)) (u : List (μ × σ)) : Prop :=
  List.Forall₂ (fun a b => b.1 = g a.1 ∧ R a.1 a.2 b.2) t u

/-! What is related to a row is a row. -/

theorem eq_none_of_rel {S : ρ → σ → Prop} {o : Option ρ} (rel : Option.Rel S o none) : o = none := by
  cases rel
  rfl

theorem exists_left_of_rel {S : ρ → σ → Prop} {o : Option ρ} {y : σ} (rel : Option.Rel S o (some y)) : ∃ x, o = some x ∧ S x y := by
  cases rel with
  | some related => exact ⟨_, rfl, related⟩

theorem exists_right_of_rel {S : ρ → σ → Prop} {x : ρ} {o : Option σ} (rel : Option.Rel S (some x) o) : ∃ y, o = some y ∧ S x y := by
  cases rel with
  | some related => exact ⟨_, rfl, related⟩

variable {g : κ → μ} {R : κ → ρ → σ → Prop} {t : List (κ × ρ)} {u : List (μ × σ)}

theorem Matches.rowOf (hit : Matches g R t u) (inj : Function.Injective g) (k : κ) :
    Option.Rel (R k) (rowOf k t) (rowOf (g k) u) := by
  induction hit with
  | nil => exact .none
  | cons row rest ih =>
    rename_i a b t u
    obtain ⟨keys, rows⟩ := row
    by_cases here : a.1 = k
    · subst here
      rw [Lib.rowOf, Lib.rowOf, if_pos rfl, if_pos keys]
      exact .some rows
    · have there : b.1 ≠ g k := fun same => here (inj (keys.symm.trans same))
      rw [Lib.rowOf, Lib.rowOf, if_neg here, if_neg there]
      exact ih

/-- An upsert on both sides. -/
theorem Matches.upsert (hit : Matches g R t u) (inj : Function.Injective g) {key : κ} {f : Option ρ → ρ} {f' : Option σ → σ}
    (step : ∀ o o', Option.Rel (R key) o o' → R key (f o) (f' o')) : Matches g R (upsert key f t) (upsert (g key) f' u) := by
  induction hit with
  | nil => exact .cons ⟨rfl, step none none .none⟩ .nil
  | cons row rest ih =>
    rename_i a b t u
    obtain ⟨keys, rows⟩ := row
    by_cases here : a.1 = key
    · have there : b.1 = g key := by rw [keys, here]
      rw [Lib.upsert, Lib.upsert, if_pos here, if_pos there]
      refine .cons ⟨keys, ?_⟩ rest
      rw [here] at rows ⊢
      exact step _ _ (.some rows)
    · have there : b.1 ≠ g key := fun same => here (inj (keys.symm.trans same))
      rw [Lib.upsert, Lib.upsert, if_neg here, if_neg there]
      exact .cons ⟨keys, rows⟩ ih

/-- **Simulation of tables.** Rows that correspond before an item correspond after it. -/
theorem matches_tableOf {fold' : α → Option σ → σ} (inj : Function.Injective g)
    (step : ∀ x o o', Option.Rel (R (key x)) o o' → R (key x) (fold x o) (fold' x o')) (xs : List α) :
    Matches g R (tableOf key fold xs) (tableOf (g ∘ key) fold' xs) := by
  induction xs using List.reverseRecOn with
  | nil => exact .nil
  | append_singleton xs x ih =>
    rw [tableOf_concat, tableOf_concat]
    exact ih.upsert inj (step x)

end ProxyBroker.Lib
