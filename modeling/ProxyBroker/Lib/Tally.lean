import Mathlib.Algebra.Order.BigOperators.Group.List
import Mathlib.Algebra.Order.Group.Nat
import Mathlib.Data.List.Sort
import Mathlib.Data.UInt

/-!
# Counters in an ordered map

A `Tally` is a `BTreeMap` from keys to counts: its entries are in the order of their keys, and no key comes
twice. `add` is `*map.entry(k).or_default() += n`. Two tallies with the same counts are equal
(`Tally.ext_get?`), so that `add` commutes with itself, and a sum over the entries grows by what was added.
-/

namespace ProxyBroker.Lib

variable {κ ν : Type} [LinearOrder κ]

/-- A map from keys to counts, in the order of the keys. -/
structure Tally (κ ν : Type) [LinearOrder κ] where
  entries : List (κ × ν)
  sorted : entries.Pairwise fun a b => a.1 < b.1

namespace Tally

def empty : Tally κ ν := ⟨[], List.Pairwise.nil⟩

section Entries

variable [AddCommMonoid ν]

/-- `*map.entry(k).or_default() += n`, on the entries. -/
def addEntry (k : κ) (n : ν) : List (κ × ν) → List (κ × ν)
  | [] => [(k, 0 + n)]
  | (k', m) :: rest =>
    if k < k' then (k, 0 + n) :: (k', m) :: rest
    else if k = k' then (k', m + n) :: rest
    else (k', m) :: addEntry k n rest

theorem mem_addEntry {k : κ} {n : ν} {l : List (κ × ν)} {e : κ × ν} (mem : e ∈ addEntry k n l) : e.1 = k ∨ e ∈ l := by
  induction l with
  | nil => simp_all [addEntry]
  | cons a rest ih =>
    rw [addEntry] at mem
    split at mem
    · grind
    · split at mem
      · grind
      · grind

theorem sorted_addEntry {l : List (κ × ν)} (k : κ) (n : ν) (sorted : l.Pairwise fun a b => a.1 < b.1) :
    (addEntry k n l).Pairwise fun a b => a.1 < b.1 := by
  induction l with
  | nil => simp [addEntry]
  | cons a rest ih =>
    obtain ⟨above, sorted_rest⟩ := List.pairwise_cons.1 sorted
    rw [addEntry]
    split
    · rename_i before
      refine List.pairwise_cons.2 ⟨?_, sorted⟩
      intro e mem
      rcases List.mem_cons.1 mem with rfl | later
      · exact before
      · exact before.trans (above e later)
    · rename_i not_before
      split
      · exact List.pairwise_cons.2 ⟨above, sorted_rest⟩
      · rename_i ne
        refine List.pairwise_cons.2 ⟨?_, ih sorted_rest⟩
        intro e mem
        rcases mem_addEntry mem with same | old
        · rw [same]
          exact lt_of_le_of_ne (not_lt.1 not_before) (Ne.symm ne)
        · exact above e old

end Entries

/-- `map.get(&k)`. -/
def get? (m : Tally κ ν) (k : κ) : Option ν := m.entries.lookup k

theorem mem_iff_lookup {l : List (κ × ν)} (sorted : l.Pairwise fun a b => a.1 < b.1) {e : κ × ν} :
    e ∈ l ↔ l.lookup e.1 = some e.2 := by
  induction l with
  | nil => simp
  | cons a rest ih =>
    obtain ⟨above, sorted_rest⟩ := List.pairwise_cons.1 sorted
    rw [List.mem_cons, ih sorted_rest, List.lookup_cons]
    by_cases same : e.1 = a.1
    · have gone : rest.lookup a.1 = none := by
        rw [List.lookup_eq_none_iff]
        intro b mem
        simpa using (above b mem).ne
      rw [same, gone]
      simp [Prod.ext_iff, same, eq_comm]
    · have ne : e ≠ a := fun eq => same (congrArg Prod.fst eq)
      simp only [ne, false_or, beq_eq_false_iff_ne.2 same]

/-- **A tally is its counts.** -/
theorem ext_get? {m m' : Tally κ ν} (same : ∀ k, m.get? k = m'.get? k) : m = m' := by
  have entries : m.entries = m'.entries := by
    apply List.Pairwise.eq_of_mem_iff m.sorted m'.sorted
    intro e
    rw [mem_iff_lookup m.sorted, mem_iff_lookup m'.sorted]
    exact iff_of_eq (congrArg (· = some e.2) (same e.1))
  cases m
  cases m'
  simpa using entries

/-- The sum of a weight of the counts. -/
def weight (f : ν → ℕ) (m : Tally κ ν) : ℕ := (m.entries.map fun e => f e.2).sum

theorem le_weight {f : ν → ℕ} {m : Tally κ ν} {e : κ × ν} (mem : e ∈ m.entries) : f e.2 ≤ m.weight f :=
  List.single_le_sum (fun _ _ => Nat.zero_le _) _ (List.mem_map_of_mem mem)

variable [AddCommMonoid ν]

/-- `*map.entry(k).or_default() += n`. -/
def add (m : Tally κ ν) (k : κ) (n : ν) : Tally κ ν := ⟨addEntry k n m.entries, sorted_addEntry k n m.sorted⟩

theorem lookup_addEntry {l : List (κ × ν)} (sorted : l.Pairwise fun a b => a.1 < b.1) (k q : κ) (n : ν) :
    (addEntry k n l).lookup q = if q = k then some ((l.lookup k).getD 0 + n) else l.lookup q := by
  induction l with
  | nil =>
    rw [addEntry, List.lookup_cons]
    by_cases here : q = k
    · simp [here]
    · simp [here, beq_eq_false_iff_ne.2 here]
  | cons a rest ih =>
    obtain ⟨above, sorted_rest⟩ := List.pairwise_cons.1 sorted
    rw [addEntry]
    split
    · rename_i before
      -- a key before the first entry is new
      have absent : (a :: rest).lookup k = none := by
        rw [List.lookup_eq_none_iff]
        intro b mem
        have above_key : k < b.1 := by
          rcases List.mem_cons.1 mem with rfl | later
          · exact before
          · exact before.trans (above b later)
        simpa using above_key.ne
      rw [absent, List.lookup_cons]
      by_cases here : q = k
      · simp [here]
      · simp only [here, beq_eq_false_iff_ne.2 here, if_false]
    · split
      · rename_i same
        rw [same, List.lookup_cons, List.lookup_cons, List.lookup_cons, beq_self_eq_true]
        by_cases here : q = a.1
        · simp [here]
        · simp only [here, beq_eq_false_iff_ne.2 here, if_false]
      · rename_i ne
        rw [List.lookup_cons, ih sorted_rest, List.lookup_cons, List.lookup_cons, beq_eq_false_iff_ne.2 ne]
        by_cases here : q = a.1
        · simp [here, Ne.symm ne]
        · simp only [beq_eq_false_iff_ne.2 here]

theorem get?_add (m : Tally κ ν) (k q : κ) (n : ν) :
    (m.add k n).get? q = if q = k then some ((m.get? k).getD 0 + n) else m.get? q := lookup_addEntry m.sorted k q n

/-- **The order of two additions does not show.** -/
theorem add_comm (m : Tally κ ν) (k k' : κ) (n n' : ν) : (m.add k n).add k' n' = (m.add k' n').add k n := by
  apply ext_get?
  intro q
  simp only [get?_add]
  by_cases same : k = k'
  · subst same
    by_cases here : q = k
    · simp [here, add_right_comm]
    · simp [here]
  · by_cases here : q = k
    · simp [here, same]
    · by_cases there : q = k'
      · simp [there, Ne.symm same]
      · simp [here, there]

theorem weight_addEntry {f : ν → ℕ} {k : κ} {n : ν} {l : List (κ × ν)}
    (grows : ∀ e ∈ l, f (e.2 + n) = f e.2 + f n) :
    ((addEntry k n l).map fun e => f e.2).sum = (l.map fun e => f e.2).sum + f n := by
  induction l with
  | nil => simp [addEntry]
  | cons a rest ih =>
    have rest_grows := ih fun e mem => grows e (List.mem_cons_of_mem a mem)
    rw [addEntry]
    split
    · simp
      omega
    · split
      · simp [grows a List.mem_cons_self]
        omega
      · simp [rest_grows]
        omega

/-- The sum of the counts. -/
def total (m : Tally κ ℕ) : ℕ := m.weight id

@[simp] theorem total_empty : (empty : Tally κ ℕ).total = 0 := rfl

@[simp] theorem total_add (m : Tally κ ℕ) (k : κ) (n : ℕ) : (m.add k n).total = m.total + n :=
  weight_addEntry fun _ _ => rfl

/-! ## Many additions -/

/-- Every entry of `l` added, one after another. -/
def addAll (m : Tally κ ν) (l : List (κ × ν)) : Tally κ ν := l.foldl (fun m e => m.add e.1 e.2) m

@[simp] theorem addAll_nil (m : Tally κ ν) : m.addAll [] = m := rfl

@[simp] theorem addAll_cons (m : Tally κ ν) (e : κ × ν) (l : List (κ × ν)) : m.addAll (e :: l) = (m.add e.1 e.2).addAll l := rfl

theorem addAll_append (m : Tally κ ν) (l l' : List (κ × ν)) : m.addAll (l ++ l') = (m.addAll l).addAll l' := List.foldl_append

/-- The order of the additions does not show. -/
theorem addAll_perm (m : Tally κ ν) {l l' : List (κ × ν)} (perm : l.Perm l') : m.addAll l = m.addAll l' :=
  perm.foldl_eq' (fun e _ e' _ m => m.add_comm e.1 e'.1 e.2 e'.2) m

theorem total_addAll (m : Tally κ ℕ) (l : List (κ × ℕ)) : (m.addAll l).total = m.total + (l.map Prod.snd).sum := by
  induction l generalizing m with
  | nil => simp
  | cons e l ih =>
    rw [addAll_cons, ih, total_add, List.map_cons, List.sum_cons, Nat.add_assoc]

/-- The count of a key is what was added under it. -/
theorem getD_addAll [DecidableEq κ] (m : Tally κ ν) (l : List (κ × ν)) (k : κ) :
    ((m.addAll l).get? k).getD 0 = (m.get? k).getD 0 + ((l.filter fun e => e.1 = k).map Prod.snd).sum := by
  induction l generalizing m with
  | nil => simp
  | cons e l ih =>
    rw [addAll_cons, ih, get?_add]
    by_cases here : e.1 = k
    · simp [here, add_assoc]
    · simp [here, Ne.symm here]

/-- `u32` counters do not wrap below `2 ^ 32`. -/
theorem weight_addAll (m : Tally κ UInt32) (l : List (κ × UInt32))
    (small : m.weight UInt32.toNat + (l.map fun e => e.2.toNat).sum < 2 ^ 32) :
    (m.addAll l).weight UInt32.toNat = m.weight UInt32.toNat + (l.map fun e => e.2.toNat).sum := by
  induction l generalizing m with
  | nil => simp
  | cons e l ih =>
    rw [List.map_cons, List.sum_cons] at small ⊢
    have step : (m.add e.1 e.2).weight UInt32.toNat = m.weight UInt32.toNat + e.2.toNat := by
      apply weight_addEntry
      intro entry mem
      have le := le_weight (f := UInt32.toNat) mem
      rw [UInt32.toNat_add, Nat.mod_eq_of_lt (by omega)]
    rw [addAll_cons, ih _ (by omega), step]
    omega

end Tally

end ProxyBroker.Lib
