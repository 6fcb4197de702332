import Mathlib.Data.Set.Card

/-!
# Counting the entries of a vector

How `countP` moves with an update, and that it is the number of the positions it counts.
-/

namespace ProxyBroker.Lib

variable {α : Type}

/-- Counting over an update: what leaves and what comes. -/
theorem countP_set_add {l : List α} {i : Nat} {a : α} (h : l[i]? = some a) (f : α → Bool) (b : α) :
    (l.set i b).countP f + (f a).toNat = l.countP f + (f b).toNat := by
  induction l generalizing i with
  | nil => cases h
  | cons c l ih =>
    cases i with
    | zero =>
      cases h
      simp only [List.set_cons_zero, List.countP_cons]
      cases f a <;> cases f b <;> simp
    | succ i =>
      have rest := ih (i := i) h
      simp only [List.set_cons_succ, List.countP_cons]
      omega

/-- The positions of the entries that meet `f`. -/
def positions (l : List α) (f : α → Bool) : Set Nat := {k | ∃ a, l[k]? = some a ∧ f a = true}

theorem positions_concat (l : List α) (a : α) (f : α → Bool) :
    positions (l ++ [a]) f = if f a then insert l.length (positions l f) else positions l f := by
  ext k
  rcases Nat.lt_trichotomy k l.length with before | rfl | beyond
  · split
    · simp [positions, List.getElem?_append_left before, before.ne]
    · simp [positions, List.getElem?_append_left before]
  · cases meets : f a with
    | true => simp [positions, meets]
    | false => simp [positions, meets]
  · have none_there : (l ++ [a])[k]? = none := List.getElem?_eq_none (by simpa using beyond)
    split
    · simp [positions, none_there, List.getElem?_eq_none beyond.le, beyond.ne']
    · simp [positions, none_there, List.getElem?_eq_none beyond.le]

/-- A count is a number of positions. -/
theorem encard_positions (l : List α) (f : α → Bool) : (positions l f).encard = l.countP f := by
  induction l using List.reverseRecOn with
  | nil => simp [positions]
  | append_singleton l a ih =>
    have new : l.length ∉ positions l f := by
      rintro ⟨b, there, -⟩
      simp at there
    rw [positions_concat, List.countP_append]
    cases meets : f a with
    | true => simp [Set.encard_insert_of_notMem new, ih, meets]
    | false => simp [ih, meets]

end ProxyBroker.Lib
