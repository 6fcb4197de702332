import ProxyBroker.Lib.Precision

/-!
# Durations and `f64`

A duration is a number of nanoseconds. It is below `2 ^ 64` seconds, and `Duration::from_secs_f64` panics on a value that
is negative, not finite or too large for that: its result is `none` then.

`Double` adds the infinities and NaN to the finite values of `Lib/F64.lean`, for computations that may run into them. The
sign of zero is left out.
-/

namespace ProxyBroker.Lib

/-- The seconds of a duration: the whole ones, and the nanoseconds below them. -/
def asSecs (pr : Precision) (d : Nat) : ℚ := pr.add (pr.round (d / 10 ^ 9 : Nat)) (pr.div (d % 10 ^ 9 : Nat) (10 ^ 9))

/-- `Duration::as_secs_f64`. -/
def asSecsF64 (d : Nat) : ℚ := asSecs .binary64 d

/-- The nearest number of nanoseconds. -/
def nanos (secs : ℚ) : Nat := (roundHalfEven (secs * 10 ^ 9)).toNat

/-- `Duration::from_secs_f64`, of a finite value. -/
def fromSecsF64 (secs : ℚ) : Option Nat := if 0 ≤ secs ∧ nanos secs < 2 ^ 64 * 10 ^ 9 then some (nanos secs) else none

variable {x y : ℚ}

theorem asSecs_nonneg (pr : Precision) (d : Nat) : 0 ≤ asSecs pr d :=
  pr.round_nonneg (add_nonneg (pr.round_nonneg (by positivity)) (pr.round_nonneg (by positivity)))

theorem asSecsF64_nonneg (d : Nat) : 0 ≤ asSecsF64 d := asSecs_nonneg .binary64 d

theorem nanos_mono (le : x ≤ y) : nanos x ≤ nanos y := by
  apply Int.toNat_le_toNat
  apply roundHalfEven_mono
  exact mul_le_mul_of_nonneg_right le (by norm_num)

theorem fromSecsF64_isSome : (fromSecsF64 x).isSome = true ↔ 0 ≤ x ∧ nanos x < 2 ^ 64 * 10 ^ 9 := by
  unfold fromSecsF64
  split
  · rename_i fits
    exact iff_of_true rfl fits
  · rename_i out
    exact iff_of_false (by simp) out

/-- What is below a duration, and not negative, is a duration. -/
theorem fromSecsF64_of_le (nonneg : 0 ≤ x) (le : x ≤ y) (fits : (fromSecsF64 y).isSome = true) : (fromSecsF64 x).isSome = true := by
  rw [fromSecsF64_isSome] at fits ⊢
  exact ⟨nonneg, (nanos_mono le).trans_lt fits.2⟩

/-! ## Values that need not be finite -/

inductive Double where
  | nan
  | infinite (negative : Bool)
  | finite (x : ℚ)
deriving DecidableEq, Repr

namespace Double

/-- The value that an exact result is rounded to. -/
def ofExact (x : ℚ) : Double := if 2 ^ 1024 ≤ |F64.round x| then .infinite (x < 0) else .finite (F64.round x)

def add : Double → Double → Double
  | .finite x, .finite y => ofExact (x + y)
  | .infinite a, .infinite b => if a = b then .infinite a else .nan
  | .infinite a, .finite _ | .finite _, .infinite a => .infinite a
  | .nan, _ | _, .nan => .nan

def mul : Double → Double → Double
  | .finite x, .finite y => ofExact (x * y)
  | .infinite a, .infinite b => .infinite (a != b)
  | .infinite a, .finite x | .finite x, .infinite a => if x = 0 then .nan else .infinite (a != decide (x < 0))
  | .nan, _ | _, .nan => .nan

/-- `<`, which is false of NaN. -/
def lt : Double → Double → Bool
  | .finite x, .finite y => x < y
  | .infinite true, .infinite false | .infinite true, .finite _ | .finite _, .infinite false => true
  | _, _ => false

/-- `f64::min`. -/
def min : Double → Double → Double
  | .nan, y => y
  | x, .nan => x
  | x, y => if y.lt x then y else x

/-- `f64::max`. -/
def max : Double → Double → Double
  | .nan, y => y
  | x, .nan => x
  | x, y => if x.lt y then y else x

/-- `Duration::from_secs_f64`. -/
def toDuration : Double → Option Nat
  | .finite x => fromSecsF64 x
  | _ => none

/-- Between zero and a duration there are durations only. -/
theorem clamped_toDuration {c : ℚ} (nonneg : 0 ≤ c) (fits : (fromSecsF64 c).isSome = true) (d : Double) :
    ((d.min (.finite c)).max (.finite 0)).toDuration.isSome = true := by
  have below (x : ℚ) (le : x ≤ c) : ((Double.finite x).max (.finite 0)).toDuration.isSome = true := by
    simp only [max, lt, decide_eq_true_eq]
    split
    · exact fromSecsF64_of_le le_rfl nonneg fits
    · exact fromSecsF64_of_le (by linarith) le fits
  cases d with
  | nan => exact below c le_rfl
  | infinite negative =>
    cases negative
    · exact below c le_rfl
    · exact fromSecsF64_of_le le_rfl nonneg fits
  | finite x =>
    simp only [min, lt, decide_eq_true_eq]
    split
    · exact below c le_rfl
    · exact below x (by linarith)

end Double

end ProxyBroker.Lib
