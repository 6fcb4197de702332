import Mathlib.Data.List.Basic

/-!
# First occurrences, by key

`firsts key seen l` keeps of `l` the elements whose key is not in `seen` and is not the key of an earlier
one. An element without a key is dropped. `mem_firsts` says which elements stay: for each new key, the one
that `find?` finds.
-/

namespace ProxyBroker.Lib

variable {α κ : Type} [DecidableEq κ] {key : α → Option κ} {seen : List κ} {l : List α} {a : α}

/-- The elements with a new key. -/
def firsts (key : α → Option κ) : List κ → List α → List α
  | _, [] => []
  | seen, a :: l =>
    match key a with
    | none => firsts key seen l
    | some k => if k ∈ seen then firsts key seen l else a :: firsts key (k :: seen) l

/-- **What stays**: for each new key, its first element. -/
theorem mem_firsts : a ∈ firsts key seen l ↔ ∃ k, k ∉ seen ∧ l.find? (fun b => key b = some k) = some a := by
  induction l generalizing seen with
  | nil => simp [firsts]
  | cons b l ih =>
    rw [firsts]
    split
    · rename_i keyless
      simp only [ih, List.find?_cons, keyless, reduceCtorEq, decide_false]
    · rename_i k keyed
      have other {k' : κ} (ne : k' ≠ k) : (b :: l).find? (fun b => key b = some k') = l.find? fun b => key b = some k' := by
        simp [keyed, Ne.symm ne]
      split
      · rename_i old
        rw [ih]
        have new_ne {k' : κ} (new : k' ∉ seen) : k' ≠ k := by
          rintro rfl
          exact new old
        constructor
        · rintro ⟨k', new, found⟩
          exact ⟨k', new, by rw [other (new_ne new), found]⟩
        · rintro ⟨k', new, found⟩
          exact ⟨k', new, by rwa [other (new_ne new)] at found⟩
      · rename_i new
        rw [List.mem_cons, ih]
        constructor
        · rintro (rfl | ⟨k', new', found⟩)
          · exact ⟨k, new, by simp [keyed]⟩
          · rw [List.mem_cons, not_or] at new'
            exact ⟨k', new'.2, by rw [other new'.1, found]⟩
        · rintro ⟨k', new', found⟩
          by_cases same : k' = k
          · subst same
            rw [List.find?_cons, keyed, decide_eq_true rfl] at found
            exact Or.inl (Option.some.inj found).symm
          · rw [other same] at found
            exact Or.inr ⟨k', by simp [same, new'], found⟩

/-- The keys of the elements that stay are new. -/
theorem key_of_mem_firsts (mem : a ∈ firsts key seen l) : ∃ k, key a = some k ∧ k ∉ seen := by
  obtain ⟨k, new, found⟩ := mem_firsts.1 mem
  have keyed := List.find?_some found
  exact ⟨k, by simpa using keyed, new⟩

/-- No two elements that stay have one key. -/
theorem firsts_pairwise : (firsts key seen l).Pairwise fun a b => key a ≠ key b := by
  induction l generalizing seen with
  | nil => exact List.Pairwise.nil
  | cons b l ih =>
    rw [firsts]
    split
    · exact ih
    · rename_i k keyed
      split
      · exact ih
      · refine List.Pairwise.cons ?_ ih
        intro a mem
        obtain ⟨k', keyed', new⟩ := key_of_mem_firsts mem
        rw [keyed, keyed']
        intro same
        cases same
        exact new List.mem_cons_self

/-- **The keys that stay** are the new ones, each at its first place. -/
theorem map_firsts (f : α → κ) : (firsts (fun a => some (f a)) seen l).map f = ((l.map f).filter (· ∉ seen)).eraseDups := by
  induction l generalizing seen with
  | nil => simp [firsts]
  | cons b l ih =>
    rw [firsts, List.map_cons]
    dsimp only
    split
    · rename_i old
      rw [ih, List.filter_cons_of_neg (by simpa using old)]
    · rename_i new
      rw [List.map_cons, ih, List.filter_cons_of_pos (by simpa using new), List.eraseDups_cons, List.filter_filter]
      congr 3
      funext k
      by_cases same : k = f b <;> simp [same]

theorem mem_map_firsts {f : α → κ} {k : κ} : k ∈ (firsts (fun a => some (f a)) seen l).map f ↔ k ∈ l.map f ∧ k ∉ seen := by
  rw [map_firsts, List.mem_eraseDups, List.mem_filter, decide_eq_true_eq]

theorem firsts_cons (f : α → κ) : firsts (fun a => some (f a)) seen (a :: l) =
    if f a ∈ seen then firsts (fun a => some (f a)) seen l else a :: firsts (fun a => some (f a)) (f a :: seen) l := rfl

/-- What has been seen before may be left out before. -/
theorem firsts_filter (f : α → κ) (others : List κ) :
    firsts (fun a => some (f a)) (seen ++ others) l = firsts (fun a => some (f a)) seen (l.filter fun a => f a ∉ others) := by
  induction l generalizing seen with
  | nil => rfl
  | cons b l ih =>
    by_cases old : f b ∈ others
    · rw [List.filter_cons_of_neg (by simpa using old), ← ih, firsts_cons, if_pos (List.mem_append_right seen old)]
    · rw [List.filter_cons_of_pos (by simpa using old), firsts_cons, firsts_cons]
      by_cases before : f b ∈ seen
      · rw [if_pos before, if_pos (List.mem_append_left others before)]
        exact ih
      · have new : f b ∉ seen ++ others := by
          rw [List.mem_append]
          rintro (here | there)
          · exact before here
          · exact old there
        rw [if_neg before, if_neg new, ← List.cons_append, ih]

/-- Elements with keys of their own all stay. -/
theorem firsts_distinct {m : List α} {f : α → κ} (new : ∀ a ∈ l, f a ∉ seen) (distinct : (l.map f).Nodup) :
    firsts (fun a => some (f a)) seen (l ++ m) = l ++ firsts (fun a => some (f a)) ((l.map f).reverse ++ seen) m := by
  induction l generalizing seen with
  | nil => rfl
  | cons b l ih =>
    obtain ⟨alone, rest⟩ := List.nodup_cons.1 distinct
    have later : ∀ a ∈ l, f a ∉ f b :: seen := by
      intro a mem
      rw [List.mem_cons, not_or]
      refine ⟨?_, new a (List.mem_cons_of_mem b mem)⟩
      intro same
      apply alone
      rw [← same]
      exact List.mem_map_of_mem mem
    rw [List.cons_append, firsts_cons, if_neg (new b List.mem_cons_self), ih later rest, List.map_cons, List.reverse_cons,
      List.append_assoc]
    rfl

end ProxyBroker.Lib
