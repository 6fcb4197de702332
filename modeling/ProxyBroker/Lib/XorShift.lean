import Mathlib.Logic.Function.Iterate

/-!
# Adding a faded copy

A xorshift generator adds to a word a shifted copy of it. A shift commutes with `^^^`, and enough
shifts leave nothing: it fades. Adding a copy that fades loses nothing, whatever the shift is.
-/

namespace ProxyBroker.Lib

variable {w : Nat}

/-- An operation on words that commutes with `^^^` and of which enough applications leave nothing. -/
structure Fades (f : BitVec w → BitVec w) : Prop where
  xor : ∀ x y, f (x ^^^ y) = f x ^^^ f y
  vanish : ∃ n, ∀ x, f^[n] x = 0#w

variable {f : BitVec w → BitVec w}

/-- What a fading operation leaves as it is is zero. -/
theorem Fades.eq_zero (fades : Fades f) {x : BitVec w} (fixed : f x = x) : x = 0#w := by
  obtain ⟨n, vanish⟩ := fades.vanish
  have same : f^[n] x = x := Function.iterate_fixed fixed n
  rw [← same]
  exact vanish x

/-- **Adding a faded copy is injective.** -/
theorem Fades.injective (fades : Fades f) : Function.Injective fun x => x ^^^ f x := by
  intro x y same
  have fixed : f (x ^^^ y) = x ^^^ y := by
    have sum : (x ^^^ f x) ^^^ (y ^^^ f y) = 0#w := BitVec.xor_eq_zero_iff.2 same
    rw [fades.xor]
    apply BitVec.xor_eq_zero_iff.1
    rw [← sum]
    ac_rfl
  exact BitVec.xor_eq_zero_iff.1 (fades.eq_zero fixed)

theorem shiftLeft_iterate (k n : Nat) (x : BitVec w) : (fun x : BitVec w => x <<< k)^[n] x = x <<< (k * n) := by
  induction n with
  | zero => exact (BitVec.shiftLeft_zero x).symm
  | succ n ih => rw [Function.iterate_succ_apply', ih, Nat.mul_succ, BitVec.shiftLeft_add]

theorem shiftRight_iterate (k n : Nat) (x : BitVec w) : (fun x : BitVec w => x >>> k)^[n] x = x >>> (k * n) := by
  induction n with
  | zero => exact (BitVec.ushiftRight_zero x).symm
  | succ n ih => rw [Function.iterate_succ_apply', ih, Nat.mul_succ, BitVec.shiftRight_add]

theorem fades_shiftLeft {k : Nat} (pos : 0 < k) : Fades fun x : BitVec w => x <<< k where
  xor x y := BitVec.shiftLeft_xor_distrib x y k
  vanish := by
    refine ⟨w, fun x => ?_⟩
    rw [shiftLeft_iterate]
    exact BitVec.shiftLeft_eq_zero (Nat.le_mul_of_pos_left w pos)

theorem fades_shiftRight {k : Nat} (pos : 0 < k) : Fades fun x : BitVec w => x >>> k where
  xor x y := BitVec.ushiftRight_xor_distrib x y k
  vanish := by
    refine ⟨w, fun x => ?_⟩
    rw [shiftRight_iterate]
    exact BitVec.ushiftRight_eq_zero (Nat.le_mul_of_pos_left w pos)

end ProxyBroker.Lib
