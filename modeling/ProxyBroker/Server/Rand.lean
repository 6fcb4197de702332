import ProxyBroker.Lib.Cell
import ProxyBroker.Lib.XorShift
import ProxyBroker.Server.Select

/-!
# The generator of `Random` selection (`server.rs:next_rand`)

`STATE` is loaded and stored with `Relaxed`, and nothing keeps two threads apart between the two: a
call is a `load` and a `store` of a `Cell`, with `nextRand` in between.

Each of the three assignments to `x` adds to it a shifted copy of it, so the step is injective.
Zero is the state that it leaves as it is, and no call reaches it.
-/

namespace ProxyBroker.Server
open Lib

/-! ## The step -/

theorem shiftLeft_toBitVec (x k : UInt64) : (x ^^^ (x <<< k)).toBitVec = x.toBitVec ^^^ (x.toBitVec <<< (k.toNat % 64)) := by
  rw [UInt64.toBitVec_xor, UInt64.toBitVec_shiftLeft, BitVec.shiftLeft_eq', BitVec.toNat_umod]
  rfl

theorem shiftRight_toBitVec (x k : UInt64) : (x ^^^ (x >>> k)).toBitVec = x.toBitVec ^^^ (x.toBitVec >>> (k.toNat % 64)) := by
  rw [UInt64.toBitVec_xor, UInt64.toBitVec_shiftRight, BitVec.ushiftRight_eq', BitVec.toNat_umod]
  rfl

/-- `x ^= x << k` is injective where the shift is not by zero. -/
theorem shiftLeft_injective {k : UInt64} (pos : 0 < k.toNat % 64) : Function.Injective fun x : UInt64 => x ^^^ (x <<< k) := by
  intro x y same
  have words := congrArg UInt64.toBitVec same
  dsimp only at words
  rw [shiftLeft_toBitVec, shiftLeft_toBitVec] at words
  exact UInt64.toBitVec_inj.1 ((fades_shiftLeft pos).injective words)

/-- `x ^= x >> k` is injective where the shift is not by zero. -/
theorem shiftRight_injective {k : UInt64} (pos : 0 < k.toNat % 64) : Function.Injective fun x : UInt64 => x ^^^ (x >>> k) := by
  intro x y same
  have words := congrArg UInt64.toBitVec same
  dsimp only at words
  rw [shiftRight_toBitVec, shiftRight_toBitVec] at words
  exact UInt64.toBitVec_inj.1 ((fades_shiftRight pos).injective words)

theorem xorshift_injective : Function.Injective xorshift := by
  intro x y same
  apply shiftLeft_injective (k := 13) (by decide)
  apply shiftRight_injective (k := 7) (by decide)
  apply shiftLeft_injective (k := 17) (by decide)
  exact same

theorem xorshift_ne_zero {x : UInt64} (nonzero : x ≠ 0) : xorshift x ≠ 0 := by
  intro zero
  apply nonzero
  apply xorshift_injective
  rw [zero]
  rfl

/-! ## The calls -/

/-- What `STATE` starts with. -/
def Rand.seed : UInt64 := 0x9E3779B97F4A7C15

/-- `STATE`, the calls of `next_rand` inside it, and the `n` and the index of each that has returned. -/
abbrev Rand := Cell UInt64 Nat Nat

def Rand.start : Rand := Cell.init seed

/-- A thread loads `STATE`, or stores and returns. -/
def Rand.step : Rand → Cell.Event Nat → Option Rand := Cell.step nextRand

namespace Rand

variable {is : List (Cell.Event Nat)} {s : Rand}

/-- What `xorshift` keeps and holds of the seed holds of every state. -/
theorem run_holds {P : UInt64 → Prop} (closed : ∀ x, P x → P (xorshift x)) (first : P seed) (h : run step start is = some s) :
    Cell.Holds nextRand P s :=
  Cell.run_holds (fun x _ => closed x) first h

/-- **Racing calls do not leave the sequence**: a lost store sets it back, and every state is one that calls
one after the other come to. -/
theorem run_orbit (h : run step start is = some s) : ∀ x ∈ s.held, ∃ k, x = xorshift^[k] seed := by
  have closed (x : UInt64) (reached : ∃ k, x = xorshift^[k] seed) : ∃ k, xorshift x = xorshift^[k] seed := by
    obtain ⟨k, rfl⟩ := reached
    exact ⟨k + 1, (Function.iterate_succ_apply' xorshift k seed).symm⟩
  exact (run_holds closed ⟨0, rfl⟩ h).held

/-- **No call leaves the state as it is.** -/
theorem run_moves (h : run step start is = some s) : ∀ x ∈ s.held, xorshift x ≠ x := by
  refine (run_holds ?_ ?_ h).held
  · intro x moves stays
    exact moves (xorshift_injective stays)
  · decide

/-- Calls one after the other, of any threads, step the seed once each. -/
theorem run_sequential (calls : List (Nat × Nat)) :
    ∃ s older, run step start (calls.flatMap fun k => Cell.call k.1 k.2) = some s ∧ s.held = xorshift^[calls.length] seed :: older := by
  obtain ⟨s, older, ran, -, held⟩ := @Cell.run_calls UInt64 Nat Nat nextRand start seed [] calls rfl fun _ => rfl
  have fold (x : UInt64) : calls.foldl (fun x k => (nextRand x k.2).1) x = xorshift^[calls.length] x := by
    clear ran held
    induction calls generalizing x with
    | nil => rfl
    | cons k calls ih => exact ih (xorshift x)
  rw [fold] at held
  exact ⟨s, older, ran, held⟩

/-- **The generator does not degenerate.** The step keeps a state nonzero and is injective. In every run of
calls, whatever the order of their loads and stores and whichever earlier value a load returns, no state is
zero, none is computed from zero, and the index returned for `n` is below it. -/
theorem never_degenerates :
    (∀ x, x ≠ 0 → xorshift x ≠ 0) ∧ Function.Injective xorshift ∧
    (∀ is s, run step start is = some s →
      (∀ x ∈ s.held, x ≠ 0) ∧ (∀ thread x n, s.loaded thread = some (x, n) → x ≠ 0) ∧ ∀ r ∈ s.answers, 1 ≤ r.1 → r.2 < r.1) ∧
    ∀ x n, 1 ≤ n → (nextRand x n).2 < n := by
  refine ⟨fun x => xorshift_ne_zero, xorshift_injective, ?_, fun x n => nextRand_lt x⟩
  intro is s h
  have holds := run_holds (P := fun x => x ≠ 0) (fun x => xorshift_ne_zero) (by decide) h
  refine ⟨holds.held, holds.loaded, ?_⟩
  intro r mem some
  obtain ⟨x, -, index⟩ := holds.answers r mem
  rw [index]
  exact nextRand_lt x some

/-- Two threads load the seed before either stores: they return the same index, and one step is lost. -/
example : (run step start [.load 0 10 0, .load 1 10 0, .store 0, .store 1]).map (fun s => (s.held, s.answers)) =
    some ([xorshift seed, xorshift seed, seed], [(10, (nextRand seed 10).2), (10, (nextRand seed 10).2)]) := rfl

end Rand

end ProxyBroker.Server
