import Mathlib.Data.Finset.Erase
import Mathlib.Data.Finset.Insert
import ProxyBroker.Lib.Duration
import ProxyBroker.System

/-!
# The re-check loop (`scheduler.rs:spawn_rechecker`)

One task pops the address that is due, probes it, and returns it to the pool or takes it out. It shares
the pool with everything of `System.lean`, and nothing else. So its body is cut where it reads the pool
(the enrolment, the deletion test), where it writes it (`add`, `remove_addr`) and where it waits (three
timers and `checker.check`): between two cuts the rest of the system may take any number of steps.

What the loop does not control comes with its inputs: the clock readings, the jitter, the entry that
`BinaryHeap::pop` prefers among equally early ones, and what the check makes of the proxy. The result
of `store.upsert` is dropped by the source, so the store is not part of the state. Durations and
instants are in nanoseconds. `Duration::from_secs_f64` can panic; that ends the task, and the loop has no step then.

The rates and the scores are computed in a `Precision`, which is binary64 in the source: `step` is `stepIn .binary64`.
With `.exact` the loop is the one of exact arithmetic. The times of the schedule are the same in both.
-/

namespace ProxyBroker.Scheduler
open Lib Server

/-- `scheduler.rs:RecheckConfig`. -/
structure RecheckConfig where
  minInterval : Nat
  maxInterval : Nat
  ratePerSec : ℚ
  decayHalflife : Nat

/-- `RecheckConfig::default`. -/
def RecheckConfig.default : RecheckConfig where
  minInterval := 60 * 10 ^ 9
  maxInterval := 3600 * 10 ^ 9
  ratePerSec := 5
  decayHalflife := 21600 * 10 ^ 9

/-! ## Times and scores -/

/-- `f64::clamp(0.0, 1.0)`. -/
def clamp01 (x : ℚ) : ℚ := max 0 (min x 1)

/-- The seconds of `next_interval`. -/
def intervalSecs (ewma : ℚ) (cfg : RecheckConfig) : ℚ :=
  let e := clamp01 ewma
  let min := asSecsF64 cfg.minInterval
  let max := asSecsF64 cfg.maxInterval
  F64.add min (F64.mul e (F64.sub max min))

/-- `scheduler.rs:next_interval`, where it does not panic. -/
def nextInterval (ewma : ℚ) (cfg : RecheckConfig) : Nat := nanos (intervalSecs ewma cfg)

/-- What `random_range(-0.5..=0.5)` gives. -/
def Draw : Type := { u : ℚ // -1 / 2 ≤ u ∧ u ≤ 1 / 2 }

/-- The seconds of `jitter`. -/
def jitterSecs (base : Nat) (draw : Draw) : ℚ := F64.mul (asSecsF64 base) (F64.add 1 draw.1)

/-- `scheduler.rs:jitter`, where it does not panic. -/
def jitter (base : Nat) (draw : Draw) : Nat := nanos (jitterSecs base draw)

/-- The seconds of `gap`. -/
def gapSecs (cfg : RecheckConfig) : ℚ := F64.div 1 (max cfg.ratePerSec (F64.round (1 / 1000)))

/-- `gap`: the time between two starts. -/
def gap (cfg : RecheckConfig) : Nat := nanos (gapSecs cfg)

/-- It does not panic: it is a thousand seconds at most. -/
theorem fromSecsF64_gap (cfg : RecheckConfig) : fromSecsF64 (gapSecs cfg) = some (gap cfg) := by
  have least : F64.round (1 / 1000) ≤ max cfg.ratePerSec (F64.round (1 / 1000)) := le_max_right _ _
  have pos : 0 < F64.round (1 / 1000) := by decide +kernel
  have shorter : 1 / max cfg.ratePerSec (F64.round (1 / 1000)) ≤ 1 / F64.round (1 / 1000) := one_div_le_one_div_of_le pos least
  have nonneg : 0 ≤ 1 / max cfg.ratePerSec (F64.round (1 / 1000)) := one_div_nonneg.2 (pos.le.trans least)
  have bound : nanos (gapSecs cfg) ≤ nanos (F64.div 1 (F64.round (1 / 1000))) := nanos_mono (F64.round_mono nonneg shorter)
  have fits : nanos (F64.div 1 (F64.round (1 / 1000))) < 2 ^ 64 * 10 ^ 9 := by decide +kernel
  exact if_pos ⟨F64.round_nonneg nonneg, bound.trans_lt fits⟩

section
variable (pr : Precision)

/-- The fold of an outcome: `0.3 * sample + 0.7 * prev`. -/
def foldSampleIn (working : Bool) (prev : ℚ) : ℚ := pr.ewma (if working then 1 else 0) prev

/-- `scheduler.rs:decayed_score`. The precision of `f64::powf` is not specified, so `powf` is given. -/
def decayedScoreIn (powf : ℚ → ℚ → ℚ) (ewma latency : ℚ) (age : Nat) (cfg : RecheckConfig) : ℚ :=
  let base := pr.div (clamp01 ewma) (pr.add 1 (max latency 0))
  let hl := asSecs pr cfg.decayHalflife
  let decay := if 0 < hl then powf (1 / 2) (pr.div (asSecs pr age) hl) else 1
  pr.mul base decay

/-- `EVICT_FLOOR`. -/
def evictFloorIn : ℚ := pr.round (2 / 100)

/-- `scheduler.rs:should_retry`. -/
def shouldRetryIn (powf : ℚ → ℚ → ℚ) (ewma latency : ℚ) (age : Nat) (cfg : RecheckConfig) : Bool :=
  evictFloorIn pr ≤ decayedScoreIn pr powf ewma latency age cfg

end

/-! ## The state -/

/-- `scheduler.rs:Scheduled`. -/
structure Scheduled where
  due : Instant
  key : Addr

/-- Where the loop stands. `throttled` is the wait for the token bucket; `settling` is past the check. -/
inductive Phase where
  | head
  | enrolled
  | idle
  | waiting (due wake : Instant)
  | throttled (startAt : Instant)
  | checking (job : Scheduled)
  | settling (job : Scheduled) (proxy : Proxy) (working : Bool)
  | stopped

/-- The variables of the loop. The heap is a bag. -/
structure State where
  heap : List Scheduled
  ewma : Addr → Option ℚ
  lastOk : Addr → Option Instant
  retrying : Finset Addr
  nextStart : Instant
  phase : Phase

/-- The loop when it is spawned. -/
def State.start (now : Instant) : State := ⟨[], fun _ => none, fun _ => none, ∅, now, .head⟩

/-- What the environment of the loop answers. -/
inductive Input where
  | enroll (now : Instant) (draw : Addr → Draw)
  | peek (now : Instant)
  | slept
  | woke (now later : Instant)
  | begin (i : Nat)
  | checked (proxy : Proxy) (working : Bool)
  | settle (now : Instant) (draw : Draw)
  | cancel

/-! ## The steps -/

/-- The enrolment of one address. -/
def enroll (cfg : RecheckConfig) (now : Instant) (draw : Addr → Draw) (s : State) (a : Addr) : State :=
  match s.ewma a with
  | some _ => s
  | none =>
    { s with
      ewma := Function.update s.ewma a (some 1)
      lastOk := Function.update s.lastOk a (some now)
      heap := ⟨now + jitter cfg.minInterval (draw a), a⟩ :: s.heap }

/-- The enrolment pass. `BTreeSet` gives each address once, in its order; here an address that comes again
is tracked already, and the heap has no order. -/
def enrollAll (cfg : RecheckConfig) (now : Instant) (draw : Addr → Draw) (addrs : List Addr) (s : State) : State :=
  addrs.foldl (enroll cfg now draw) s

/-- `heap.pop()`: an entry that is due first, and the others. -/
def popAt (heap : List Scheduled) (i : Nat) : Option (Scheduled × List Scheduled) :=
  match heap[i]? with
  | none => none
  | some job => if ∀ s ∈ heap, job.due ≤ s.due then some (job, heap.eraseIdx i) else none

/-- The branch of a check that found the proxy working, but for the call of `pool.add`. -/
def keep (s : State) (now nextDue : Instant) (key : Addr) : State :=
  { s with
    lastOk := Function.update s.lastOk key (some now)
    retrying := s.retrying.erase key
    heap := ⟨nextDue, key⟩ :: s.heap }

/-- The failed check of an address that is tried again, but for the call of `pool.remove_addr`. -/
def retry (s : State) (nextDue : Instant) (key : Addr) : State :=
  { s with
    retrying := insert key s.retrying
    heap := ⟨nextDue, key⟩ :: s.heap }

/-- The failed check of an address that is given up, but for the call of `pool.remove_addr`. -/
def evict (s : State) (key : Addr) : State :=
  { s with
    ewma := Function.update s.ewma key none
    lastOk := Function.update s.lastOk key none
    retrying := s.retrying.erase key }

/-- `now.saturating_duration_since(last_ok or now)`. -/
def age (s : State) (now : Instant) (key : Addr) : Nat := now - (s.lastOk key).getD now

/-- What follows a check, given the folded rate and the verdict on an address that failed. -/
def settleWith (cfg : RecheckConfig) (s : State) (now : Instant) (draw : Draw) (key : Addr) (working retried : Bool) (e : ℚ) : State :=
  let nextDue := now + nextInterval e cfg + jitter cfg.minInterval draw
  let s := { s with ewma := Function.update s.ewma key (some e), phase := .head }
  if working then keep s now nextDue key
  else if retried then retry s nextDue key
  else evict s key

section
variable (pr : Precision) (cfg : RecheckConfig) (powf : ℚ → ℚ → ℚ)

/-- What follows the check: the folded rate, the branch, and the loop's next head. -/
def settledIn (s : State) (now : Instant) (draw : Draw) (key : Addr) (proxy : Proxy) (working : Bool) : State :=
  let e := foldSampleIn pr working ((s.ewma key).getD 1)
  settleWith cfg s now draw key working (shouldRetryIn pr powf e proxy.avgRespTime (age s now key) cfg) e

/-- A turn of the loop that does not panic. -/
def turnIn (sys : Sys) (s : State) (i : Input) : Option (Sys × State) :=
  match s.phase, i with
  | .head, .enroll now draw => some (sys, { enrollAll cfg now draw sys.pool.addrs s with phase := .enrolled })
  | .enrolled, .peek now =>
    match (s.heap.map Scheduled.due).min? with
    | none => some (sys, { s with phase := .idle })
    | some due => some (sys, { s with phase := .waiting due (min due (now + cfg.minInterval)) })
  | .idle, .slept => some (sys, { s with phase := .head })
  | .idle, .cancel => some (sys, { s with phase := .stopped })
  | .waiting due _, .woke now later =>
    if now < due then some (sys, { s with phase := .head })
    else some (sys, { s with phase := .throttled (max s.nextStart later) })
  | .waiting _ _, .cancel => some (sys, { s with phase := .stopped })
  | .throttled startAt, .begin i =>
    match popAt s.heap i with
    | none => none
    | some (job, rest) =>
      let s := { s with heap := rest, nextStart := startAt + gap cfg }
      if job.key ∉ s.retrying ∧ job.key ∉ sys.pool.addrs then
        some (sys, { s with
          ewma := Function.update s.ewma job.key none
          lastOk := Function.update s.lastOk job.key none
          phase := .head })
      else some (sys, { s with phase := .checking job })
  | .throttled _, .cancel => some (sys, { s with phase := .stopped })
  | .checking job, .checked proxy working =>
    if proxy.addr = job.key then some (sys, { s with phase := .settling job proxy working }) else none
  | .settling job proxy working, .settle now draw =>
    (sys.step (if working then .add proxy else .remove job.key)).map fun sys' =>
      (sys', settledIn pr cfg powf s now draw job.key proxy working)
  | _, _ => none

/-- A `jitter` or `next_interval` of the turn panics. In the settling of a check that is before the pool is called. -/
def panicsIn (sys : Sys) (s : State) (i : Input) : Bool :=
  match s.phase, i with
  | .head, .enroll _ draw =>
    sys.pool.addrs.any fun a => (s.ewma a).isNone && (fromSecsF64 (jitterSecs cfg.minInterval (draw a))).isNone
  | .settling job _ working, .settle _ draw =>
    let e := foldSampleIn pr working ((s.ewma job.key).getD 1)
    (fromSecsF64 (intervalSecs e cfg)).isNone || (fromSecsF64 (jitterSecs cfg.minInterval draw)).isNone
  | _, _ => false

/-- A step of the loop, with its rates and scores in a given precision. -/
def stepIn (sys : Sys) (s : State) (i : Input) : Option (Sys × State) :=
  if panicsIn pr cfg sys s i then none else turnIn pr cfg powf sys s i

end

/-! ## The loop beside the system -/

/-- The loop and the system that it shares the pool with. -/
structure World where
  sys : Sys
  loop : State

inductive World.Input where
  | others (i : Sys.Input)
  | loop (i : Scheduler.Input)

/-- A step of the world: one of somebody else, or one of the loop. -/
def World.stepIn (pr : Precision) (cfg : RecheckConfig) (powf : ℚ → ℚ → ℚ) (w : World) : World.Input → Option World
  | .others i => (w.sys.step i).map fun sys => { w with sys := sys }
  | .loop i => (Scheduler.stepIn pr cfg powf w.sys w.loop i).map fun r => ⟨r.1, r.2⟩

/-! ## The loop of the source -/

abbrev foldSample : Bool → ℚ → ℚ := foldSampleIn .binary64

section
variable (cfg : RecheckConfig) (powf : ℚ → ℚ → ℚ)

abbrev settled : State → Instant → Draw → Addr → Proxy → Bool → State := settledIn .binary64 cfg powf

abbrev step : Sys → State → Input → Option (Sys × State) := stepIn .binary64 cfg powf

abbrev World.step : World → World.Input → Option World := World.stepIn .binary64 cfg powf

end

/-! ## Panics -/

variable {pr : Precision} {cfg : RecheckConfig} {powf : ℚ → ℚ → ℚ} {sys : Sys} {s : State} {i : Input} {r : Sys × State}

/-- A step is a turn. -/
theorem turnIn_of_stepIn (h : stepIn pr cfg powf sys s i = some r) : turnIn pr cfg powf sys s i = some r := by
  unfold stepIn at h
  split at h
  · cases h
  · exact h

theorem stepIn_eq (calm : panicsIn pr cfg sys s i = false) : stepIn pr cfg powf sys s i = turnIn pr cfg powf sys s i := by
  rw [stepIn, calm]
  rfl

/-- The end of a check. -/
theorem stepIn_checked {job : Scheduled} {proxy : Proxy} (checking : s.phase = .checking job) (same : proxy.addr = job.key)
    (working : Bool) :
    stepIn pr cfg powf sys s (.checked proxy working) = some (sys, { s with phase := .settling job proxy working }) := by
  rw [stepIn_eq (by simp [panicsIn, checking])]
  simp only [turnIn, checking, if_pos same]

/-- Durations that can be multiplied by `1.5`, in their order. -/
structure RecheckConfig.Bounded (cfg : RecheckConfig) : Prop where
  jitters : (fromSecsF64 (jitterSecs cfg.minInterval ⟨1 / 2, by norm_num⟩)).isSome = true
  ordered : asSecsF64 cfg.minInterval ≤ asSecsF64 cfg.maxInterval
  intervals : (fromSecsF64 (intervalSecs 1 cfg)).isSome = true

/-- The jitter grows with the draw. -/
theorem jitterSecs_mono (base : Nat) {d d' : Draw} (le : d.1 ≤ d'.1) : jitterSecs base d ≤ jitterSecs base d' := by
  have low : 0 ≤ 1 + d.1 := by linarith [d.2.1]
  have factor : F64.add 1 d.1 ≤ F64.add 1 d'.1 := F64.round_mono low (by linarith)
  have secs := asSecsF64_nonneg base
  exact F64.round_mono (mul_nonneg secs (F64.round_nonneg low)) (mul_le_mul_of_nonneg_left factor secs)

theorem jitterSecs_nonneg (base : Nat) (d : Draw) : 0 ≤ jitterSecs base d := by
  have low : 0 ≤ 1 + d.1 := by linarith [d.2.1]
  exact F64.round_nonneg (mul_nonneg (asSecsF64_nonneg base) (F64.round_nonneg low))

theorem RecheckConfig.Bounded.jitter (bounded : cfg.Bounded) (d : Draw) : (fromSecsF64 (jitterSecs cfg.minInterval d)).isSome = true :=
  fromSecsF64_of_le (jitterSecs_nonneg _ d) (jitterSecs_mono _ d.2.2) bounded.jitters

theorem RecheckConfig.Bounded.interval (bounded : cfg.Bounded) (e : ℚ) : (fromSecsF64 (intervalSecs e cfg)).isSome = true := by
  have low : 0 ≤ clamp01 e := le_max_left _ _
  have high : clamp01 e ≤ 1 := max_le zero_le_one (min_le_right _ _)
  have full : clamp01 1 = 1 := by decide +kernel
  have secs := asSecsF64_nonneg cfg.minInterval
  have span : 0 ≤ F64.sub (asSecsF64 cfg.maxInterval) (asSecsF64 cfg.minInterval) := F64.round_nonneg (by linarith [bounded.ordered])
  have share : 0 ≤ F64.mul (clamp01 e) (F64.sub (asSecsF64 cfg.maxInterval) (asSecsF64 cfg.minInterval)) :=
    F64.round_nonneg (mul_nonneg low span)
  have part : F64.mul (clamp01 e) (F64.sub (asSecsF64 cfg.maxInterval) (asSecsF64 cfg.minInterval)) ≤
      F64.mul 1 (F64.sub (asSecsF64 cfg.maxInterval) (asSecsF64 cfg.minInterval)) :=
    F64.round_mono (mul_nonneg low span) (mul_le_mul_of_nonneg_right high span)
  apply fromSecsF64_of_le (F64.round_nonneg (add_nonneg secs share)) _ bounded.intervals
  rw [intervalSecs, full]
  exact F64.round_mono (add_nonneg secs share) (by linarith)

/-- **With such durations the loop never panics.** -/
theorem panicsIn_of_bounded (bounded : cfg.Bounded) (sys : Sys) (s : State) (i : Input) : panicsIn pr cfg sys s i = false := by
  unfold panicsIn
  split
  · rename_i draw _
    apply List.any_eq_false.2
    intro a _
    rw [Option.isNone_eq_false_iff.2 (bounded.jitter (draw a)), Bool.and_false]
    exact Bool.false_ne_true
  · dsimp only
    rw [Option.isNone_eq_false_iff.2 (bounded.interval _), Option.isNone_eq_false_iff.2 (bounded.jitter _)]
    rfl
  · rfl

theorem RecheckConfig.default_bounded : RecheckConfig.default.Bounded where
  jitters := by decide +kernel
  ordered := by decide +kernel
  intervals := by decide +kernel

end ProxyBroker.Scheduler
