import ProxyBroker.Lib.Quantile
import ProxyBroker.Proxy

/-!
# Percentiles (`proxy.rs`)

`percentile` sorts the samples, interpolates between the entries at the floor and the ceiling of a rank, and
rounds to two decimals. The source computes in `f64`, which is `percentile .binary64`; the laws are those of
`percentile .exact`, with the same formula in exact arithmetic. An index that is out of bounds is a panic, which
is `none` here; `percentile_laws` says that there is none.
-/

namespace ProxyBroker
open Lib

/-- `proxy.rs:percentile`. On rationals `f64::total_cmp` is the order. -/
def percentile (pr : Precision) (data : List ℚ) (q : ℚ) : Option ℚ :=
  if data = [] then some 0
  else
    let sorted := data.insertionSort (· ≤ ·)
    let rank := pr.mul q (pr.round (sorted.length - 1 : ℕ))
    let lo := ⌊rank⌋₊
    let hi := ⌈rank⌉₊
    let frac := pr.sub rank (pr.round lo)
    sorted[lo]?.bind fun low => sorted[hi]?.map fun high => round2 pr (pr.add low (pr.mul frac (pr.sub high low)))

/-- `Proxy::percentile`. -/
def Proxy.percentile (p : Proxy) (q : ℚ) : Option ℚ := ProxyBroker.percentile .binary64 p.runtimes q

/-- Rounding to two decimals keeps the order. -/
theorem round2_mono {x y : ℚ} (le : x ≤ y) : round2 .exact x ≤ round2 .exact y := by
  have whole : roundHalfEven (x * 100) ≤ roundHalfEven (y * 100) := roundHalfEven_mono (by linarith)
  show (roundHalfEven (x * 100) : ℚ) / 100 ≤ roundHalfEven (y * 100) / 100
  gcongr

/-- Of samples, the value at a rank of the sorted list, rounded. -/
theorem percentile_eq {data : List ℚ} (nonempty : data ≠ []) (q : ℚ) :
    percentile .exact data q =
      (interpolate (data.insertionSort (· ≤ ·)) (q * (data.length - 1 : ℕ))).map (round2 .exact) := by
  rw [percentile, if_neg nonempty, interpolate]
  simp only [Precision.mul, Precision.sub, Precision.add, Precision.round, List.length_insertionSort, Option.map_bind,
    Option.map_map, Function.comp_def]

/-- In either arithmetic, since the samples are sorted first. -/
theorem percentile_perm (pr : Precision) {data data' : List ℚ} (perm : data.Perm data') (q : ℚ) :
    percentile pr data q = percentile pr data' q := by
  have sorted : data.insertionSort (· ≤ ·) = data'.insertionSort (· ≤ ·) := by
    apply List.Perm.eq_of_sortedLE List.sortedLE_insertionSort List.sortedLE_insertionSort
    exact (List.perm_insertionSort _ data).trans (perm.trans (List.perm_insertionSort _ data').symm)
  by_cases nonempty : data = []
  · rw [nonempty] at perm ⊢
    rw [perm.nil_eq]
  · have nonempty' : data' ≠ [] := fun empty => nonempty (by rw [empty] at perm; exact perm.eq_nil)
    rw [percentile, percentile, if_neg nonempty, if_neg nonempty', sorted]

section Samples

variable {data : List ℚ} (nonempty : data ≠ []) {q q' v v' : ℚ}
include nonempty

/-- The rank is in bounds when the number of samples is a float. -/
theorem isSome_percentile {pr : Precision} (nonneg : 0 ≤ q) (le_one : q ≤ 1)
    (counted : pr.round (data.length - 1 : ℕ) = (data.length - 1 : ℕ)) : (percentile pr data q).isSome := by
  have pos := List.length_pos_iff.2 nonempty
  have length := List.length_insertionSort (· ≤ ·) data
  have last : (0 : ℚ) ≤ (data.length - 1 : ℕ) := Nat.cast_nonneg _
  have rank : pr.mul q (data.length - 1 : ℕ) ≤ (data.length - 1 : ℕ) := by
    have below := pr.round_mono (mul_nonneg nonneg last) (mul_le_of_le_one_left last le_one)
    rwa [counted] at below
  have ceil := Nat.ceil_le.2 rank
  have floor := Nat.floor_le_ceil (pr.mul q (data.length - 1 : ℕ))
  rw [percentile, if_neg nonempty]
  dsimp only
  rw [length, counted, List.getElem?_eq_getElem (by omega), List.getElem?_eq_getElem (by omega)]
  rfl

theorem percentile_mono (nonneg : 0 ≤ q) (le : q ≤ q') (h : percentile .exact data q = some v) (h' : percentile .exact data q' = some v') :
    v ≤ v' := by
  rw [percentile_eq nonempty, Option.map_eq_some_iff] at h h'
  obtain ⟨x, value, rfl⟩ := h
  obtain ⟨x', value', rfl⟩ := h'
  have rank : (0 : ℚ) ≤ (data.length - 1 : ℕ) := Nat.cast_nonneg _
  apply round2_mono
  exact interpolate_mono List.sortedLE_insertionSort (mul_nonneg nonneg rank) (mul_le_mul_of_nonneg_right le rank) value value'

/-- The extreme quantiles are the extreme samples. -/
theorem percentile_ends :
    ∃ least greatest, IsLeast {x | x ∈ data} least ∧ IsGreatest {x | x ∈ data} greatest ∧
      percentile .exact data 0 = some (round2 .exact least) ∧ percentile .exact data 1 = some (round2 .exact greatest) := by
  have pos := List.length_pos_iff.2 nonempty
  have length := List.length_insertionSort (· ≤ ·) data
  have sorted := List.sortedLE_insertionSort (l := data)
  have mem (x : ℚ) : x ∈ data.insertionSort (· ≤ ·) ↔ x ∈ data := List.mem_insertionSort _
  obtain ⟨least, atFirst⟩ : ∃ x, (data.insertionSort (· ≤ ·))[0]? = some x :=
    ⟨_, List.getElem?_eq_getElem (by omega)⟩
  obtain ⟨greatest, atLast⟩ : ∃ x, (data.insertionSort (· ≤ ·))[data.length - 1]? = some x :=
    ⟨_, List.getElem?_eq_getElem (by omega)⟩
  refine ⟨least, greatest, ?_, ?_, ?_, ?_⟩
  · simpa only [mem] using isLeast_of_sorted sorted atFirst
  · rw [← length] at atLast
    simpa only [mem] using isGreatest_of_sorted sorted atLast
  · have first := interpolate_natCast (α := ℚ) (data.insertionSort (· ≤ ·)) 0
    rw [percentile_eq nonempty, zero_mul, ← Nat.cast_zero, first, atFirst]
    rfl
  · rw [percentile_eq nonempty, one_mul, interpolate_natCast, atLast]
    rfl

end Samples

/-- **The laws of a percentile.** For samples and a quantile of `[0, 1]` no index is out of bounds. The value
does not depend on the order of the samples, grows with the quantile, lies between the rounded extremes, and
is the one at `0` and the other at `1`. -/
theorem percentile_laws (data : List ℚ) (nonempty : data ≠ []) :
    ∃ least greatest, IsLeast {x | x ∈ data} least ∧ IsGreatest {x | x ∈ data} greatest ∧
      percentile .exact data 0 = some (round2 .exact least) ∧ percentile .exact data 1 = some (round2 .exact greatest) ∧
      ∀ q, 0 ≤ q → q ≤ 1 →
        (∃ v, percentile .exact data q = some v ∧ round2 .exact least ≤ v ∧ v ≤ round2 .exact greatest ∧
          ∀ q', q ≤ q' → q' ≤ 1 → ∃ v', percentile .exact data q' = some v' ∧ v ≤ v') ∧
        ∀ data', data.Perm data' → percentile .exact data' q = percentile .exact data q := by
  obtain ⟨least, greatest, isLeast, isGreatest, atZero, atOne⟩ := percentile_ends nonempty
  refine ⟨least, greatest, isLeast, isGreatest, atZero, atOne, ?_⟩
  intro q nonneg le_one
  have some {r : ℚ} (nonneg : 0 ≤ r) (le_one : r ≤ 1) : ∃ v, percentile .exact data r = some v :=
    Option.isSome_iff_exists.1 (isSome_percentile nonempty nonneg le_one rfl)
  obtain ⟨v, value⟩ := some nonneg le_one
  refine ⟨⟨v, value, ?_, ?_, ?_⟩, fun data' perm => (percentile_perm .exact perm q).symm⟩
  · exact percentile_mono nonempty le_rfl nonneg atZero value
  · exact percentile_mono nonempty nonneg le_one value atOne
  · intro q' le le_one'
    obtain ⟨v', value'⟩ := some (nonneg.trans le) le_one'
    exact ⟨v', value', percentile_mono nonempty nonneg le value value'⟩

theorem percentile_laws_two :
    ∃ least greatest, IsLeast {x | x ∈ [(2 : ℚ), 1]} least ∧ IsGreatest {x | x ∈ [(2 : ℚ), 1]} greatest ∧
      percentile .exact [2, 1] 0 = some (round2 .exact least) ∧ percentile .exact [2, 1] 1 = some (round2 .exact greatest) ∧
      ∀ q, 0 ≤ q → q ≤ 1 →
        (∃ v, percentile .exact [2, 1] q = some v ∧ round2 .exact least ≤ v ∧ v ≤ round2 .exact greatest ∧
          ∀ q', q ≤ q' → q' ≤ 1 → ∃ v', percentile .exact [2, 1] q' = some v' ∧ v ≤ v') ∧
        ∀ data', [(2 : ℚ), 1].Perm data' → percentile .exact data' q = percentile .exact [2, 1] q :=
  percentile_laws [2, 1] (by simp)

/-- The median of two samples is their mean. -/
example : percentile .exact [2, 1] (1 / 2) = some (3 / 2) := by decide +kernel

end ProxyBroker
