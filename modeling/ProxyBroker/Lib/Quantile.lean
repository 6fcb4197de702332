import Mathlib.Algebra.Order.Floor.Semiring
import Mathlib.Data.List.Sort
import Mathlib.Tactic.Linarith

/-!
# Interpolation between the entries of a sorted list

`interpolate l r` is the value at the rank `r`: the entry at a whole rank, and between two ranks the point
of the segment that joins their entries. On a sorted list it lies between the two entries
(`interpolate_between`), and from that and one segment it is monotone in the rank.
-/

namespace ProxyBroker.Lib

section Sorted

variable {α : Type} [LinearOrder α] {l : List α} (sorted : l.SortedLE)
include sorted

theorem getElem?_mono {i j : ℕ} {a b : α} (le : i ≤ j) (ha : l[i]? = some a) (hb : l[j]? = some b) : a ≤ b := by
  obtain ⟨hi, rfl⟩ := List.getElem?_eq_some_iff.1 ha
  obtain ⟨hj, rfl⟩ := List.getElem?_eq_some_iff.1 hb
  have ranks : (⟨i, hi⟩ : Fin l.length) ≤ ⟨j, hj⟩ := le
  exact List.sortedLE_iff_monotone_get.1 sorted ranks

theorem isLeast_of_sorted {first : α} (atFirst : l[0]? = some first) : IsLeast {x | x ∈ l} first := by
  refine ⟨List.mem_of_getElem? atFirst, ?_⟩
  intro x mem
  obtain ⟨i, found⟩ := List.mem_iff_getElem?.1 mem
  exact getElem?_mono sorted (Nat.zero_le i) atFirst found

theorem isGreatest_of_sorted {last : α} (atLast : l[l.length - 1]? = some last) : IsGreatest {x | x ∈ l} last := by
  refine ⟨List.mem_of_getElem? atLast, ?_⟩
  intro x mem
  obtain ⟨i, found⟩ := List.mem_iff_getElem?.1 mem
  obtain ⟨lt, -⟩ := List.getElem?_eq_some_iff.1 found
  exact getElem?_mono sorted (by omega) found atLast

end Sorted

variable {α : Type} [Field α] [LinearOrder α] [FloorSemiring α]

/-- The value at the rank `r`; `none` where an index is out of bounds. -/
def interpolate (l : List α) (r : α) : Option α :=
  l[⌊r⌋₊]?.bind fun low => l[⌈r⌉₊]?.map fun high => low + (r - ⌊r⌋₊) * (high - low)

variable {l : List α} {r r' v v' : α}

theorem interpolate_eq_some :
    interpolate l r = some v ↔
      ∃ low high, l[⌊r⌋₊]? = some low ∧ l[⌈r⌉₊]? = some high ∧ v = low + (r - ⌊r⌋₊) * (high - low) := by
  simp only [interpolate, Option.bind_eq_some_iff, Option.map_eq_some_iff]
  constructor
  · rintro ⟨low, atFloor, high, atCeil, rfl⟩
    exact ⟨low, high, atFloor, atCeil, rfl⟩
  · rintro ⟨low, high, atFloor, atCeil, rfl⟩
    exact ⟨low, atFloor, high, atCeil, rfl⟩

variable [IsStrictOrderedRing α]

/-- A rank up to that of the last entry is in bounds. -/
theorem isSome_interpolate (nonempty : l ≠ []) (le : r ≤ (l.length - 1 : ℕ)) : (interpolate l r).isSome := by
  have pos := List.length_pos_iff.2 nonempty
  have ceil : ⌈r⌉₊ ≤ l.length - 1 := Nat.ceil_le.2 le
  have floor : ⌊r⌋₊ ≤ ⌈r⌉₊ := Nat.floor_le_ceil r
  have low : l[⌊r⌋₊]? = some l[⌊r⌋₊] := List.getElem?_eq_getElem (by omega)
  have high : l[⌈r⌉₊]? = some l[⌈r⌉₊] := List.getElem?_eq_getElem (by omega)
  rw [interpolate, low, Option.bind_some, high]
  rfl

theorem interpolate_natCast (l : List α) (n : ℕ) : interpolate l (n : α) = l[n]? := by
  rw [interpolate, Nat.floor_natCast, Nat.ceil_natCast, sub_self]
  cases l[n]? with
  | none => rfl
  | some a => simp

variable (sorted : l.SortedLE)
include sorted

/-- **The value at a rank is between its two entries.** -/
theorem interpolate_between {low high : α} (nonneg : 0 ≤ r) (h : interpolate l r = some v) (atFloor : l[⌊r⌋₊]? = some low)
    (atCeil : l[⌈r⌉₊]? = some high) : low ≤ v ∧ v ≤ high := by
  obtain ⟨low', high', floor, ceil, rfl⟩ := interpolate_eq_some.1 h
  rw [floor] at atFloor
  rw [ceil] at atCeil
  cases atFloor
  cases atCeil
  have rise : 0 ≤ high - low := sub_nonneg.2 (getElem?_mono sorted (Nat.floor_le_ceil r) floor ceil)
  have from_floor : 0 ≤ r - ⌊r⌋₊ := sub_nonneg.2 (Nat.floor_le nonneg)
  have to_ceil : r - ⌊r⌋₊ ≤ 1 := by linarith [Nat.lt_floor_add_one r]
  constructor
  · linarith [mul_nonneg from_floor rise]
  · linarith [mul_le_of_le_one_left rise to_ceil]

/-- **Monotone in the rank.** -/
theorem interpolate_mono (nonneg : 0 ≤ r) (le : r ≤ r') (h : interpolate l r = some v) (h' : interpolate l r' = some v') :
    v ≤ v' := by
  obtain ⟨low, high, floor, ceil, value⟩ := interpolate_eq_some.1 h
  obtain ⟨low', high', floor', ceil', value'⟩ := interpolate_eq_some.1 h'
  have between := interpolate_between sorted nonneg h floor ceil
  have between' := interpolate_between sorted (nonneg.trans le) h' floor' ceil'
  rcases (Nat.floor_mono le).lt_or_eq with apart | same
  · -- an entry of the list separates the two values
    have separated : ⌈r⌉₊ ≤ ⌊r'⌋₊ := (Nat.ceil_le_floor_add_one r).trans apart
    exact between.2.trans ((getElem?_mono sorted separated ceil floor').trans between'.1)
  · rcases (Nat.floor_le_ceil r).eq_or_lt with whole | inside
    · rw [← whole, floor] at ceil
      cases ceil
      rw [← same, floor] at floor'
      cases floor'
      exact between.2.trans between'.1
    · -- both values lie on one segment
      have ceil_le := Nat.ceil_le_floor_add_one r'
      have ceil_mono := Nat.ceil_mono le
      rw [← same, floor] at floor'
      cases floor'
      rw [show ⌈r'⌉₊ = ⌈r⌉₊ by omega, ceil] at ceil'
      cases ceil'
      have rise : 0 ≤ high - low := sub_nonneg.2 (getElem?_mono sorted inside.le floor ceil)
      rw [value, value', same]
      gcongr

end ProxyBroker.Lib
