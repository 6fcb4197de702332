import Mathlib.Data.List.Induction
import ProxyBroker.Lib.F64

/-!
# Exact and binary64 arithmetic side by side

A score can be computed exactly or in `f64`. `Precision` says which: an operation is the exact one followed
by the rounding of the precision. `round_le` and `le_round` hold for both, and say that rounding keeps the
order to the multiples of `2⁻²⁰` in `[0, 1]`. A bound on scores that leaves a margin needs no more.
-/

namespace ProxyBroker.Lib

inductive Precision where
  | exact | binary64
deriving DecidableEq, Repr

namespace Precision

def round : Precision → ℚ → ℚ
  | .exact, x => x
  | .binary64, x => F64.round x

variable (pr : Precision)

def add (x y : ℚ) : ℚ := pr.round (x + y)

def sub (x y : ℚ) : ℚ := pr.round (x - y)

def mul (x y : ℚ) : ℚ := pr.round (x * y)

def div (x y : ℚ) : ℚ := pr.round (x / y)

/-- The moving average that takes three tenths of the new sample. -/
def ewma (sample prev : ℚ) : ℚ := pr.add (pr.mul (pr.round (3 / 10)) sample) (pr.mul (pr.round (7 / 10)) prev)

/-- `iter().sum()`. -/
def sum (xs : List ℚ) : ℚ := xs.foldl pr.add 0

/-- The sum of a list by its length. -/
def mean (xs : List ℚ) : ℚ := pr.div (pr.sum xs) (pr.round xs.length)

variable {x : ℚ} {m : ℕ}

theorem round_nonneg (nonneg : 0 ≤ x) : 0 ≤ pr.round x := by
  cases pr with
  | exact => exact nonneg
  | binary64 => exact F64.round_nonneg nonneg

@[simp] theorem round_zero : pr.round 0 = 0 := by
  cases pr with
  | exact => rfl
  | binary64 => exact F64.round_zero

theorem round_mono {x y : ℚ} (nonneg : 0 ≤ x) (le : x ≤ y) : pr.round x ≤ pr.round y := by
  cases pr with
  | exact => exact le
  | binary64 => exact F64.round_mono nonneg le

theorem round_round (nonneg : 0 ≤ x) : pr.round (pr.round x) = pr.round x := by
  cases pr with
  | exact => rfl
  | binary64 => exact F64.round_round nonneg

theorem round_natCast {n : ℕ} (le : n ≤ 2 ^ 53) : pr.round n = n := by
  cases pr with
  | exact => rfl
  | binary64 => exact F64.round_natCast le

theorem grain_eq (m : ℕ) : (m : ℚ) / 2 ^ 20 = (m : ℤ) * 2 ^ (-20 : ℤ) := by
  norm_num [div_eq_mul_inv]

theorem round_le (nonneg : 0 ≤ x) (small : m ≤ 2 ^ 20) (h : x ≤ m / 2 ^ 20) : pr.round x ≤ m / 2 ^ 20 := by
  cases pr with
  | exact => exact h
  | binary64 =>
    have unit : (m : ℚ) / 2 ^ 20 ≤ 1 := (div_le_one (by norm_num)).2 (by exact_mod_cast small)
    rw [grain_eq] at h ⊢
    rw [grain_eq] at unit
    refine F64.round_le nonneg (lt_of_le_of_lt (h.trans unit) ?_) (by norm_num) h
    norm_num

theorem le_round (small : m ≤ 2 ^ 20) (h : m / 2 ^ 20 ≤ x) : m / 2 ^ 20 ≤ pr.round x := by
  cases pr with
  | exact => exact h
  | binary64 =>
    have unit : (m : ℚ) / 2 ^ 20 ≤ 1 := (div_le_one (by norm_num)).2 (by exact_mod_cast small)
    rcases lt_or_ge x 1 with below | above
    · have nonneg : 0 ≤ x := le_trans (by positivity) h
      rw [grain_eq] at h ⊢
      refine F64.le_round nonneg (below.trans ?_) (by norm_num) h
      norm_num
    · have kept : (2 : ℚ) ^ (0 : ℤ) ≤ F64.round x := F64.zpow_le_round (by norm_num) (by rwa [zpow_zero])
      rw [zpow_zero] at kept
      exact unit.trans kept

theorem one_eq_grain : (1 : ℚ) = (2 ^ 20 : ℕ) / 2 ^ 20 := by norm_num

/-- Rounding keeps a value of `[0, 1]` there. -/
theorem round_le_one (nonneg : 0 ≤ x) (h : x ≤ 1) : pr.round x ≤ 1 := by
  rw [one_eq_grain] at h ⊢
  exact pr.round_le nonneg le_rfl h

theorem one_le_round (h : 1 ≤ x) : 1 ≤ pr.round x := by
  rw [one_eq_grain] at h ⊢
  exact pr.le_round le_rfl h

/-! ## Sums and means -/

variable {xs : List ℚ}

theorem sum_append (xs ys : List ℚ) : pr.sum (xs ++ ys) = ys.foldl pr.add (pr.sum xs) := List.foldl_append

theorem sum_nonneg (nonneg : ∀ x ∈ xs, 0 ≤ x) : 0 ≤ pr.sum xs := by
  induction xs using List.reverseRecOn with
  | nil => exact le_rfl
  | append_singleton xs x ih =>
    have before : 0 ≤ pr.sum xs := ih fun y mem => nonneg y (List.mem_append_left _ mem)
    rw [sum_append]
    exact pr.round_nonneg (add_nonneg before (nonneg x (by simp)))

theorem mean_nonneg (nonneg : ∀ x ∈ xs, 0 ≤ x) : 0 ≤ pr.mean xs :=
  pr.round_nonneg (div_nonneg (pr.sum_nonneg nonneg) (pr.round_nonneg (Nat.cast_nonneg _)))

/-- Without rounding these are the sum and the mean. -/
theorem sum_exact (xs : List ℚ) : exact.sum xs = xs.sum := List.sum_eq_foldl.symm

theorem mean_exact (xs : List ℚ) : exact.mean xs = xs.sum / xs.length := by
  show exact.sum xs / xs.length = _
  rw [sum_exact]

/-- A sum is a value of the precision. -/
theorem round_sum (nonneg : ∀ x ∈ xs, 0 ≤ x) : pr.round (pr.sum xs) = pr.sum xs := by
  rcases List.eq_nil_or_concat xs with rfl | ⟨ys, y, rfl⟩
  · exact pr.round_zero
  · rw [List.concat_eq_append] at nonneg ⊢
    have before : 0 ≤ pr.sum ys := pr.sum_nonneg fun x mem => nonneg x (List.mem_append_left _ mem)
    rw [sum_append]
    exact pr.round_round (add_nonneg before (nonneg y (by simp)))

/-- **Zeros do not move a sum**, however many. -/
theorem sum_zeros (nonneg : ∀ x ∈ xs, 0 ≤ x) (n : ℕ) : pr.sum (xs ++ List.replicate n 0) = pr.sum xs := by
  have same : pr.add (pr.sum xs) 0 = pr.sum xs := by rw [add, add_zero, pr.round_sum nonneg]
  rw [sum_append]
  induction n with
  | zero => rfl
  | succ n ih => rw [List.replicate_succ, List.foldl_cons, same, ih]

end Precision

end ProxyBroker.Lib
