import ProxyBroker.Lib.Vec

/-!
# Visiting a vector by a running cursor while it is reordered

`requeue l i` takes the element at `i` out with `swap_remove` and pushes it back: the element at `i`
and the last one change places. `visits l c m` is what a cursor that starts at `c` and advances by
one sees in `m` turns when every visited element is requeued.

A sweep that stays below the last position sees the elements in order (`visits_sweep`). The step
from the last but one position to the last sees one element twice (`visits_repeat`), because the
first of the two visits has just moved it to the end. `visits_windows_iff` puts the two together.
-/

namespace ProxyBroker.Lib

variable {α β : Type}

/-- Take the element at `i` out and push it back. -/
def requeue (l : List α) (i : Nat) : List α :=
  match l[i]? with
  | some a => swapRemove l i ++ [a]
  | none => l

/-- The elements seen in `m` turns from cursor `c`. -/
def visits (l : List α) (c : Nat) : Nat → List α
  | 0 => []
  | m + 1 =>
    match l[c % l.length]? with
    | some a => a :: visits (requeue l (c % l.length)) (c + 1) m
    | none => []

theorem swapRemove_map (f : α → β) (l : List α) (i : Nat) : (swapRemove l i).map f = swapRemove (l.map f) i := by
  unfold swapRemove
  rw [List.length_map, List.getLast?_map]
  split
  · cases l.getLast? with
    | none => rfl
    | some x => simp [List.map_dropLast]
  · rfl

theorem requeue_perm (l : List α) (i : Nat) : (requeue l i).Perm l := by
  unfold requeue
  split
  · rename_i a at_i
    exact (List.perm_append_singleton a _).trans (swapRemove_perm at_i)
  · exact List.Perm.refl l

@[simp] theorem requeue_length (l : List α) (i : Nat) : (requeue l i).length = l.length := (requeue_perm l i).length_eq

/-- The element at `i` and the last one have changed places. -/
theorem requeue_getElem? {l : List α} {i : Nat} (hi : i < l.length) (j : Nat) :
    (requeue l i)[j]? = if j = l.length - 1 then l[i]? else if j = i then l[l.length - 1]? else l[j]? := by
  obtain ⟨last, hlast⟩ : ∃ x, l.getLast? = some x := ⟨l.getLast (by rintro rfl; simp at hi), List.getLast?_eq_some_getLast _⟩
  have last_eq : l[l.length - 1]? = some last := by rw [← hlast, List.getLast?_eq_getElem?]
  have shape : requeue l i = (l.set i last).dropLast ++ [l[i]] := by
    simp [requeue, swapRemove, hi, hlast]
  have len : (l.set i last).dropLast.length = l.length - 1 := by simp
  rw [shape]
  by_cases atEnd : j = l.length - 1
  · rw [if_pos atEnd, List.getElem?_append_right (by omega), len, atEnd, Nat.sub_self, List.getElem?_eq_getElem hi]
    rfl
  · rw [if_neg atEnd]
    rcases Nat.lt_or_ge j (l.length - 1) with below | above
    · rw [List.getElem?_append_left (by omega), List.getElem?_dropLast, List.length_set, if_pos below, List.getElem?_set]
      by_cases same : j = i
      · rw [if_pos same, if_pos same.symm, if_pos hi, last_eq]
      · rw [if_neg same, if_neg (fun h => same h.symm)]
    · have out : l.length ≤ j := by omega
      rw [if_neg (by omega), List.getElem?_eq_none out, List.getElem?_eq_none]
      simp only [List.length_append, len, List.length_cons, List.length_nil]
      omega

theorem visits_length {l : List α} (nonempty : l ≠ []) (c m : Nat) : (visits l c m).length = m := by
  induction m generalizing l c with
  | zero => rfl
  | succ m ih =>
    have pos : c % l.length < l.length := Nat.mod_lt _ (List.length_pos_iff.2 nonempty)
    have kept : requeue l (c % l.length) ≠ [] := by
      rw [← List.length_pos_iff, requeue_length]; exact List.length_pos_iff.2 nonempty
    simp only [visits, List.getElem?_eq_getElem pos, List.length_cons, ih kept]

theorem visits_succ {l : List α} (nonempty : l ≠ []) (c m : Nat) :
    ∃ a, l[c % l.length]? = some a ∧ visits l c (m + 1) = a :: visits (requeue l (c % l.length)) (c + 1) m := by
  have pos : c % l.length < l.length := Nat.mod_lt _ (List.length_pos_iff.2 nonempty)
  exact ⟨_, List.getElem?_eq_getElem pos, by simp only [visits, List.getElem?_eq_getElem pos]⟩

/-- The turn after the last but one position sees the same element again. -/
theorem visits_repeat {l : List α} (two : 2 ≤ l.length) {c j m : Nat} (at_j : (c + j) % l.length = l.length - 2)
    (hj : j + 1 < m) : (visits l c m)[j + 1]? = (visits l c m)[j]? := by
  induction j generalizing l c m with
  | zero =>
    obtain ⟨m, rfl⟩ : ∃ k, m = k + 2 := ⟨m - 2, by omega⟩
    have nonempty : l ≠ [] := by rintro rfl; simp at two
    obtain ⟨a, first, eq⟩ := visits_succ nonempty c (m + 1)
    have kept : requeue l (c % l.length) ≠ [] := by rw [← List.length_pos_iff, requeue_length]; omega
    obtain ⟨b, second, eq'⟩ := visits_succ kept (c + 1) m
    have next : (c + 1) % l.length = l.length - 1 := by
      rw [Nat.add_mod, show c % l.length = l.length - 2 from at_j, Nat.mod_eq_of_lt (by omega : 1 < l.length),
        Nat.mod_eq_of_lt (by omega)]
      omega
    rw [requeue_length, next, requeue_getElem? (Nat.mod_lt _ (by omega)), if_pos rfl, first] at second
    rw [eq, eq']
    simpa using second.symm
  | succ j ih =>
    obtain ⟨m, rfl⟩ : ∃ k, m = k + 1 := ⟨m - 1, by omega⟩
    have nonempty : l ≠ [] := by rintro rfl; simp at two
    obtain ⟨a, -, eq⟩ := visits_succ nonempty c m
    rw [eq, List.getElem?_cons_succ, List.getElem?_cons_succ]
    apply ih
    · rw [requeue_length]; exact two
    · rw [requeue_length, ← at_j]; congr 1; omega
    · omega

/-- Below the last position the elements come in vector order. -/
theorem visits_sweep {l : List α} (nonempty : l ≠ []) {c k : Nat} (below : c % l.length + k ≤ l.length - 1) :
    visits l c k = (l.drop (c % l.length)).take k := by
  induction k generalizing l c with
  | zero => simp [visits]
  | succ k ih =>
    have pos : c % l.length < l.length := by omega
    obtain ⟨a, first, eq⟩ := visits_succ nonempty c k
    have kept : requeue l (c % l.length) ≠ [] := by rw [← List.length_pos_iff, requeue_length]; omega
    have next : (c + 1) % l.length = c % l.length + 1 := by
      have room : c % l.length + 1 < l.length := by omega
      rw [Nat.add_mod, Nat.mod_eq_of_lt (by omega : 1 < l.length), Nat.mod_eq_of_lt room]
    rw [eq, ih kept (by rw [requeue_length, next]; omega), requeue_length, next]
    obtain ⟨-, rfl⟩ := List.getElem?_eq_some_iff.1 first
    rw [List.drop_eq_getElem_cons pos, List.take_succ_cons]
    congr 1
    -- the positions still to be swept are neither the requeued one nor the last
    apply List.ext_getElem?
    intro i
    simp only [List.getElem?_take, List.getElem?_drop]
    split
    · rw [requeue_getElem? pos, if_neg (by omega), if_neg (by omega)]
    · rfl

/-- A round that starts at the last position sees every element once. -/
theorem visits_round {l : List α} (nonempty : l ≠ []) {c : Nat} (last : c % l.length = l.length - 1) :
    (visits l c l.length).Perm l := by
  obtain ⟨l', x, rfl⟩ : ∃ l' x, l = l' ++ [x] := by
    rcases List.eq_nil_or_concat l with rfl | ⟨l', x, rfl⟩
    · exact absurd rfl nonempty
    · exact ⟨l', x, List.concat_eq_append⟩
  have len : (l' ++ [x]).length = l'.length + 1 := by simp
  have atLast : c % (l'.length + 1) = l'.length := by simpa using last
  obtain ⟨a, first, eq⟩ := visits_succ nonempty c l'.length
  rw [len, atLast] at first eq
  have here : a = x := by simpa using first.symm
  have still : requeue (l' ++ [x]) l'.length = l' ++ [x] := by simp [requeue, swapRemove_last]
  have wraps : (c + 1) % (l' ++ [x]).length = 0 := by
    rw [len, Nat.add_mod, atLast]
    rcases Nat.eq_zero_or_pos l'.length with zero | pos
    · rw [zero]
    · rw [Nat.mod_eq_of_lt (by omega : 1 < l'.length + 1), Nat.mod_self]
  have sweep := visits_sweep nonempty (show (c + 1) % (l' ++ [x]).length + l'.length ≤ (l' ++ [x]).length - 1 by
    rw [wraps, len]; omega)
  rw [len, eq, still, sweep, wraps, here]
  simpa using (List.perm_append_singleton x l').symm

theorem visits_singleton (x : α) (c m : Nat) : visits [x] c m = List.replicate m x := by
  induction m generalizing c with
  | zero => rfl
  | succ m ih =>
    have still : requeue [x] 0 = [x] := rfl
    simp only [visits, List.length_singleton, Nat.mod_one, List.getElem?_cons_zero, still, ih, List.replicate_succ]

/-- A window that holds both visits of a repeated element is no permutation of distinct elements. -/
theorem window_repeat {l : List α} (distinct : l.Nodup) (two : 2 ≤ l.length) {c m k j : Nat} (window : k + l.length ≤ m)
    (low : k ≤ j) (high : j + 1 < k + l.length) (at_j : (c + j) % l.length = l.length - 2) :
    ¬ (((visits l c m).drop k).take l.length).Perm l := by
  intro perm
  have same := visits_repeat two at_j (by omega : j + 1 < m)
  have nodup := perm.nodup_iff.2 distinct
  have len : (((visits l c m).drop k).take l.length).length = l.length := perm.length_eq
  have eq : (((visits l c m).drop k).take l.length)[j + 1 - k]? = (((visits l c m).drop k).take l.length)[j - k]? := by
    rw [List.getElem?_take_of_lt (by omega), List.getElem?_take_of_lt (by omega), List.getElem?_drop, List.getElem?_drop,
      show k + (j + 1 - k) = j + 1 by omega, show k + (j - k) = j by omega, same]
  have := (List.getElem?_inj (by omega) nodup).1 eq
  omega

/-- **Fairness of the cursor.** Every window of one round length sees each element once exactly when
there is one element, or no window at all, or a single window that starts at the last position. -/
theorem visits_windows_iff {l : List α} (nonempty : l ≠ []) (distinct : l.Nodup) (c m : Nat) :
    (∀ k, k + l.length ≤ m → (((visits l c m).drop k).take l.length).Perm l) ↔
      l.length = 1 ∨ m < l.length ∨ (m = l.length ∧ c % l.length = l.length - 1) := by
  have pos : 0 < l.length := List.length_pos_iff.2 nonempty
  constructor
  · intro fair
    by_cases one : l.length = 1
    · exact Or.inl one
    right
    rcases Nat.lt_or_ge m l.length with short | enough
    · exact Or.inl short
    right
    have two : 2 ≤ l.length := by omega
    have lt := Nat.mod_lt c pos
    by_cases start : c % l.length = l.length - 1
    · -- one turn more and the window from turn 1 holds the repeated pair
      refine ⟨?_, start⟩
      by_contra longer
      refine window_repeat distinct two (k := 1) (j := l.length - 1) (by omega) (by omega) (by omega) ?_ (fair 1 (by omega))
      rw [Nat.add_mod, start, Nat.mod_eq_of_lt (by omega : l.length - 1 < l.length),
        show l.length - 1 + (l.length - 1) = l.length - 2 + l.length by omega, Nat.add_mod_right, Nat.mod_eq_of_lt (by omega)]
    · -- the first window already holds it
      exfalso
      refine window_repeat distinct two (k := 0) (j := l.length - 2 - c % l.length) (by omega) (by omega) (by omega) ?_
        (fair 0 (by omega))
      rw [Nat.add_mod, Nat.mod_eq_of_lt (by omega : l.length - 2 - c % l.length < l.length),
        show c % l.length + (l.length - 2 - c % l.length) = l.length - 2 by omega, Nat.mod_eq_of_lt (by omega)]
  · rintro (one | short | ⟨rfl, start⟩) k window
    · obtain ⟨x, rfl⟩ := List.length_eq_one_iff.1 one
      rw [List.length_singleton] at window ⊢
      rw [visits_singleton, List.drop_replicate, List.take_replicate, Nat.min_eq_left (by omega)]
      exact List.Perm.refl [x]
    · omega
    · have first : k = 0 := by omega
      rw [first, List.drop_zero, List.take_of_length_le (Nat.le_of_eq (visits_length nonempty _ _))]
      exact visits_round nonempty start

end ProxyBroker.Lib
