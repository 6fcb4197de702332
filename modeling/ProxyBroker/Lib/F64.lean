import Mathlib.Data.Int.Log
import Mathlib.Data.Rat.Floor
import Mathlib.Tactic.Linarith

/-!
# Binary64 arithmetic on finite values

A finite `f64` is the rational it stands for. An operation is the exact one followed by `round`, the
nearest binary64 value with ties to even. Overflow, NaN and the sign of zero are left out: the values
here are durations, rates and scores.

`round_le` is the one fact that bounds need: rounding does not carry a value past a multiple of a power
of two that is no finer than the value's last place.
-/

namespace ProxyBroker

/-- The nearest integer, ties to even. -/
def roundHalfEven (x : ℚ) : ℤ :=
  let f := ⌊x⌋
  if x - f < 1 / 2 then f
  else if 1 / 2 < x - f then f + 1
  else if f % 2 = 0 then f else f + 1

theorem le_roundHalfEven {x : ℚ} {n : ℤ} (h : (n : ℚ) ≤ x) : n ≤ roundHalfEven x := by
  have low : n ≤ ⌊x⌋ := Int.le_floor.2 h
  unfold roundHalfEven
  dsimp only
  split_ifs <;> omega

theorem roundHalfEven_le {x : ℚ} {n : ℤ} (h : x ≤ n) : roundHalfEven x ≤ n := by
  have floor_le : ⌊x⌋ ≤ n := Int.floor_le_iff.2 (by linarith)
  -- above its floor, `x` is below the next integer, which is then at most `n`
  have next (gap : ¬ x - ⌊x⌋ < 1 / 2) : ⌊x⌋ + 1 ≤ n := by
    by_contra above
    have same : ⌊x⌋ = n := by omega
    rw [same] at gap
    linarith
  unfold roundHalfEven
  dsimp only
  split_ifs with down up even
  · exact floor_le
  · exact next down
  · exact floor_le
  · exact next down

theorem roundHalfEven_mono {x y : ℚ} (le : x ≤ y) : roundHalfEven x ≤ roundHalfEven y := by
  rcases (Int.floor_mono le).lt_or_eq with apart | same
  · have above : roundHalfEven x ≤ ⌊x⌋ + 1 := roundHalfEven_le (by push_cast; exact (Int.lt_floor_add_one x).le)
    have below : ⌊y⌋ ≤ roundHalfEven y := le_roundHalfEven (Int.floor_le y)
    omega
  · -- between two integers only the distance to the lower one counts
    unfold roundHalfEven
    rw [same]
    dsimp only
    split_ifs <;> first | omega | linarith

theorem sub_half_le_roundHalfEven (x : ℚ) : x - 1 / 2 ≤ roundHalfEven x := by
  have next : x < ⌊x⌋ + 1 := Int.lt_floor_add_one x
  unfold roundHalfEven
  dsimp only
  split_ifs <;> push_cast <;> linarith

namespace Lib.F64

/-- The exponent of the last place of the binary64 value nearest to `x`. -/
def lastPlace (x : ℚ) : ℤ := max (Int.log 2 |x| - 52) (-1074)

/-- The binary64 value nearest to `x`. -/
def round (x : ℚ) : ℚ := roundHalfEven (x / 2 ^ lastPlace x) * 2 ^ lastPlace x

def add (x y : ℚ) : ℚ := round (x + y)

def sub (x y : ℚ) : ℚ := round (x - y)

def mul (x y : ℚ) : ℚ := round (x * y)

def div (x y : ℚ) : ℚ := round (x / y)

variable {x : ℚ}

theorem round_nonneg (nonneg : 0 ≤ x) : 0 ≤ round x := by
  have unit : (0 : ℚ) < 2 ^ lastPlace x := zpow_pos (by norm_num) _
  have multiple : (0 : ℤ) ≤ roundHalfEven (x / 2 ^ lastPlace x) := by
    apply le_roundHalfEven
    rw [Int.cast_zero]
    exact div_nonneg nonneg unit.le
  exact mul_nonneg (by exact_mod_cast multiple) unit.le

@[simp] theorem round_zero : round 0 = 0 := by
  have zero : roundHalfEven 0 = 0 := le_antisymm (roundHalfEven_le (by simp)) (le_roundHalfEven (by simp))
  rw [round, zero_div, zero, Int.cast_zero, zero_mul]

/-- The last place of a positive value below `2 ^ (e + 53)` is at most `2 ^ e`. -/
theorem lastPlace_le {e : ℤ} (pos : 0 < x) (below : x < 2 ^ (e + 53)) (normal : -1074 ≤ e) : lastPlace x ≤ e := by
  have log_lt : Int.log 2 x < e + 53 := (Int.lt_zpow_iff_log_lt (by decide) pos).1 (by exact_mod_cast below)
  unfold lastPlace
  rw [abs_of_pos pos]
  apply max_le
  · omega
  · exact normal

/-- A multiple of a coarser power of two is a whole number of last places. -/
theorem exists_places {e : ℤ} (m : ℤ) (place : lastPlace x ≤ e) : ∃ k : ℤ, (m : ℚ) * 2 ^ e = k * 2 ^ lastPlace x := by
  obtain ⟨n, shift⟩ := Int.eq_ofNat_of_zero_le (sub_nonneg.2 place)
  refine ⟨m * 2 ^ n, ?_⟩
  rw [show e = (n : ℤ) + lastPlace x by omega, zpow_add₀ (by norm_num)]
  push_cast
  rw [zpow_natCast, mul_assoc]

/-- Rounding does not pass a multiple of `2 ^ e`, when the last place is no coarser. -/
theorem round_le {m e : ℤ} (nonneg : 0 ≤ x) (below : x < 2 ^ (e + 53)) (normal : -1074 ≤ e) (h : x ≤ m * 2 ^ e) :
    round x ≤ m * 2 ^ e := by
  rcases nonneg.eq_or_lt with zero | pos
  · rw [← zero, round_zero, zero]
    exact h
  · have unit : (0 : ℚ) < 2 ^ lastPlace x := zpow_pos (by norm_num) _
    obtain ⟨k, whole⟩ := exists_places m (lastPlace_le pos below normal)
    rw [whole] at h ⊢
    apply mul_le_mul_of_nonneg_right _ unit.le
    exact_mod_cast roundHalfEven_le ((div_le_iff₀ unit).2 h)

/-- Nor does it fall below one. -/
theorem le_round_of_lastPlace_le {m e : ℤ} (place : lastPlace x ≤ e) (h : m * 2 ^ e ≤ x) : m * 2 ^ e ≤ round x := by
  have unit : (0 : ℚ) < 2 ^ lastPlace x := zpow_pos (by norm_num) _
  obtain ⟨k, whole⟩ := exists_places m place
  rw [whole] at h ⊢
  apply mul_le_mul_of_nonneg_right _ unit.le
  exact_mod_cast le_roundHalfEven ((le_div_iff₀ unit).2 h)

theorem le_round {m e : ℤ} (nonneg : 0 ≤ x) (below : x < 2 ^ (e + 53)) (normal : -1074 ≤ e) (h : m * 2 ^ e ≤ x) :
    m * 2 ^ e ≤ round x := by
  rcases nonneg.eq_or_lt with zero | pos
  · rw [← zero, round_zero, zero]
    exact h
  · exact le_round_of_lastPlace_le (lastPlace_le pos below normal) h

/-- A power of two is not passed downwards, however large the value. -/
theorem zpow_le_round {e : ℤ} (normal : -1074 ≤ e) (h : 2 ^ e ≤ x) : 2 ^ e ≤ round x := by
  have pos : 0 < x := lt_of_lt_of_le (zpow_pos (by norm_num) _) h
  have le_log : e ≤ Int.log 2 x := (Int.zpow_le_iff_le_log (by decide) pos).1 (by exact_mod_cast h)
  have log_le : (2 : ℚ) ^ Int.log 2 x ≤ x := by exact_mod_cast Int.zpow_log_le_self (by decide) pos
  have place : lastPlace x ≤ Int.log 2 x := by
    unfold lastPlace
    rw [abs_of_pos pos]
    apply max_le
    · omega
    · omega
  have kept := le_round_of_lastPlace_le (m := 1) place (by simpa using log_le)
  rw [Int.cast_one, one_mul] at kept
  exact (zpow_le_zpow_right₀ (by norm_num) le_log).trans kept

/-- A value is rounded at the place its leading bit gives. -/
theorem round_eq {e n : ℤ} (low : 2 ^ (e + 52) ≤ x) (below : x < 2 ^ (e + 53)) (normal : -1074 ≤ e)
    (nearest : roundHalfEven (x / 2 ^ e) = n) : round x = n * 2 ^ e := by
  have pos : 0 < x := lt_of_lt_of_le (zpow_pos (by norm_num) _) low
  have le_log : e + 52 ≤ Int.log 2 x := (Int.zpow_le_iff_le_log (by decide) pos).1 (by exact_mod_cast low)
  have place : lastPlace x = e := by
    apply le_antisymm (lastPlace_le pos below normal)
    unfold lastPlace
    rw [abs_of_pos pos]
    exact le_max_of_le_left (by omega)
  rw [round, place, nearest]

/-- The last place does not get finer as a value grows. -/
theorem lastPlace_mono {x y : ℚ} (pos : 0 < x) (le : x ≤ y) : lastPlace x ≤ lastPlace y := by
  have logs : Int.log 2 x ≤ Int.log 2 y := Int.log_mono_right pos le
  unfold lastPlace
  rw [abs_of_pos pos, abs_of_pos (pos.trans_le le)]
  omega

/-- **Rounding keeps the order.** -/
theorem round_mono {x y : ℚ} (nonneg : 0 ≤ x) (le : x ≤ y) : round x ≤ round y := by
  rcases nonneg.eq_or_lt with zero | pos
  · rw [← zero, round_zero]
    exact round_nonneg (nonneg.trans le)
  rcases (lastPlace_mono pos le).eq_or_lt with same | finer
  · have unit : (0 : ℚ) < 2 ^ lastPlace y := zpow_pos (by norm_num) _
    rw [round, round, same]
    apply mul_le_mul_of_nonneg_right _ unit.le
    exact_mod_cast roundHalfEven_mono (div_le_div_of_nonneg_right le unit.le)
  · -- a power of two lies between them
    have log_lt : Int.log 2 x < lastPlace y + 52 ∧ Int.log 2 y = lastPlace y + 52 ∧ -1074 ≤ lastPlace y := by
      unfold lastPlace at finer ⊢
      rw [abs_of_pos pos, abs_of_pos (pos.trans_le le)] at finer
      rw [abs_of_pos (pos.trans_le le)]
      omega
    have x_lt : x < 2 ^ (lastPlace y + 52) := by exact_mod_cast (Int.lt_zpow_iff_log_lt (by decide) pos).2 log_lt.1
    have le_y : 2 ^ (lastPlace y + 52) ≤ y := by
      rw [← log_lt.2.1]
      exact_mod_cast Int.zpow_log_le_self (by decide) (pos.trans_le le)
    have between : (2 : ℚ) ^ (lastPlace y + 52) = ((2 ^ 52 : ℤ) : ℚ) * 2 ^ lastPlace y := by
      rw [zpow_add₀ (by norm_num), mul_comm]
      norm_num
    calc round x ≤ (2 ^ 52 : ℤ) * 2 ^ lastPlace y := by
          apply round_le nonneg _ log_lt.2.2
          · rw [← between]
            exact x_lt.le
          · exact x_lt.trans_le (zpow_le_zpow_right₀ (by norm_num) (by omega))
      _ ≤ round y := by
          apply le_round_of_lastPlace_le le_rfl
          rw [← between]
          exact le_y

/-- A rounded value is `k` last places for a `k` of at most 53 bits, and such a value is its own rounding. -/
theorem round_mul_zpow {e k : ℤ} (normal : -1074 ≤ e) (nonneg : 0 ≤ k) (le : k ≤ 2 ^ 53) : round (k * 2 ^ e) = k * 2 ^ e := by
  have unit : (0 : ℚ) < 2 ^ e := zpow_pos (by norm_num) _
  have value : (0 : ℚ) ≤ k * 2 ^ e := mul_nonneg (by exact_mod_cast nonneg) unit.le
  rcases le.lt_or_eq with fewer | whole
  · have below : (k : ℚ) * 2 ^ e < 2 ^ (e + 53) := by
      rw [zpow_add₀ (by norm_num), mul_comm]
      apply mul_lt_mul_of_pos_left _ unit
      exact_mod_cast fewer
    apply le_antisymm
    · exact round_le value below normal le_rfl
    · exact le_round value below normal le_rfl
  · -- the carry into the next binade: half as many of places twice as coarse
    have coarser : (k : ℚ) * 2 ^ e = ((2 ^ 52 : ℤ) : ℚ) * 2 ^ (e + 1) := by
      rw [whole, zpow_add₀ (by norm_num)]
      push_cast
      ring
    have below : (k : ℚ) * 2 ^ e < 2 ^ (e + 1 + 53) := by
      rw [coarser, zpow_add₀ (by norm_num) (e + 1), mul_comm]
      apply mul_lt_mul_of_pos_left _ (zpow_pos (by norm_num) _)
      norm_num
    rw [coarser] at below value ⊢
    apply le_antisymm
    · exact round_le value below (by omega) le_rfl
    · exact le_round value below (by omega) le_rfl

/-- Small integers are values of the format. -/
theorem round_natCast {n : ℕ} (le : n ≤ 2 ^ 53) : round n = n := by
  have value := round_mul_zpow (e := 0) (k := n) (by norm_num) (by omega) (by exact_mod_cast le)
  simpa using value

/-- **Rounding once is enough.** -/
theorem round_round (nonneg : 0 ≤ x) : round (round x) = round x := by
  rcases nonneg.eq_or_lt with zero | pos
  · rw [← zero, round_zero, round_zero]
  · have unit : (0 : ℚ) < 2 ^ lastPlace x := zpow_pos (by norm_num) _
    have below : x < 2 ^ (lastPlace x + 53) := by
      have log_lt : x < 2 ^ (Int.log 2 x + 1) := by exact_mod_cast Int.lt_zpow_succ_log_self (by decide) x
      refine log_lt.trans_le (zpow_le_zpow_right₀ (by norm_num) ?_)
      unfold lastPlace
      rw [abs_of_pos pos]
      omega
    apply round_mul_zpow
    · exact le_max_right _ _
    · apply le_roundHalfEven
      rw [Int.cast_zero]
      exact div_nonneg nonneg unit.le
    · apply roundHalfEven_le
      rw [div_le_iff₀ unit]
      rw [zpow_add₀ (by norm_num), mul_comm] at below
      exact_mod_cast below.le

end Lib.F64

end ProxyBroker
