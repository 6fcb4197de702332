import ProxyBroker.Scheduler.Bookkeeping

/-!
# A dead proxy leaves the schedule

A failed check folds a zero into the rate, so that after `n` failures in a row the rate is at most
`ceiling n / 2²⁰`, which is about `0.7ⁿ`. Neither the latency nor the decay can raise the score above the
rate, and `ceiling 11` is below the floor: an address that fails eleven times in a row is given up at the
eleventh failure, or before.

`failures` is a history variable: how often the checks of each address have failed in a row, since it was
enrolled.
-/

namespace ProxyBroker.Scheduler
open Lib Server

/-! ## The score of a failing address -/

/-- What bounds the rate after so many failures, in units of `2⁻²⁰`. -/
def ceiling : Nat → Nat
  | 0 => 2 ^ 20
  | n + 1 => 734004 * ceiling n / 2 ^ 20 + 1

theorem ceiling_le (n : Nat) : ceiling n ≤ 2 ^ 20 := by
  induction n with
  | zero => exact le_rfl
  | succ n ih =>
    rw [ceiling]
    omega

variable {pr : Precision} {cfg : RecheckConfig} {powf : ℚ → ℚ → ℚ} {m : ℕ} {e : ℚ}

theorem round_weight_le : pr.round (7 / 10) ≤ 734004 / 2 ^ 20 := by
  have le := pr.round_le (x := 7 / 10) (m := 734004) (by norm_num) (by norm_num) (by norm_num)
  exact_mod_cast le

/-- A failure takes three tenths off the bound. -/
theorem foldSampleIn_failed_le (low : 0 ≤ e) (small : m ≤ 2 ^ 20) (h : e ≤ m / 2 ^ 20) :
    foldSampleIn pr false e ≤ (734004 * m / 2 ^ 20 + 1 : ℕ) / 2 ^ 20 := by
  have weight : 0 ≤ pr.round (7 / 10) := pr.round_nonneg (by norm_num)
  have next : 734004 * m / 2 ^ 20 + 1 ≤ 2 ^ 20 := by omega
  have floor : (734004 * m : ℚ) / 2 ^ 20 ≤ (734004 * m / 2 ^ 20 + 1 : ℕ) := by
    have lt : 734004 * m ≤ (734004 * m / 2 ^ 20 + 1) * 2 ^ 20 := by omega
    rw [div_le_iff₀ (by norm_num)]
    exact_mod_cast lt
  have product : pr.round (7 / 10) * e ≤ (734004 * m / 2 ^ 20 + 1 : ℕ) / 2 ^ 20 := by
    calc pr.round (7 / 10) * e ≤ 734004 / 2 ^ 20 * (m / 2 ^ 20) := mul_le_mul round_weight_le h low (by norm_num)
      _ = (734004 * m : ℚ) / 2 ^ 20 / 2 ^ 20 := by ring
      _ ≤ (734004 * m / 2 ^ 20 + 1 : ℕ) / 2 ^ 20 := by gcongr
  have old := pr.round_le (mul_nonneg weight low) next product
  have nonneg : 0 ≤ pr.round (pr.round (7 / 10) * e) := pr.round_nonneg (mul_nonneg weight low)
  simpa [foldSampleIn, Precision.ewma, Precision.add, Precision.mul] using pr.round_le nonneg next old

/-- The score is at most the rate, whatever the latency and the age. -/
theorem decayedScoreIn_le {latency : ℚ} {age : Nat} (decays : ∀ x, 0 ≤ x → 0 ≤ powf (1 / 2) x ∧ powf (1 / 2) x ≤ 1)
    (small : m ≤ 2 ^ 20) (h : e ≤ m / 2 ^ 20) : decayedScoreIn pr powf e latency age cfg ≤ m / 2 ^ 20 := by
  have grain : (0 : ℚ) ≤ m / 2 ^ 20 := by positivity
  have rate_nonneg : 0 ≤ clamp01 e := le_max_left _ _
  have rate : clamp01 e ≤ m / 2 ^ 20 := max_le grain ((min_le_left _ _).trans h)
  have slow : 1 ≤ pr.add 1 (max latency 0) := pr.one_le_round (by simp)
  have quotient : clamp01 e / pr.add 1 (max latency 0) ≤ m / 2 ^ 20 := (div_le_self rate_nonneg slow).trans rate
  have quotient_nonneg : 0 ≤ clamp01 e / pr.add 1 (max latency 0) := div_nonneg rate_nonneg (zero_le_one.trans slow)
  have base := pr.round_le quotient_nonneg small quotient
  have base_nonneg : 0 ≤ pr.div (clamp01 e) (pr.add 1 (max latency 0)) := pr.round_nonneg quotient_nonneg
  have decay : ∀ d : ℚ, 0 ≤ d ∧ d ≤ 1 → pr.mul (pr.div (clamp01 e) (pr.add 1 (max latency 0))) d ≤ m / 2 ^ 20 := by
    rintro d ⟨low, high⟩
    exact pr.round_le (mul_nonneg base_nonneg low) small ((mul_le_of_le_one_right base_nonneg high).trans base)
  unfold decayedScoreIn
  dsimp only
  split
  · rename_i halves
    exact decay _ (decays _ (pr.round_nonneg (div_nonneg (asSecs_nonneg pr age) halves.le)))
  · exact decay 1 ⟨zero_le_one, le_rfl⟩

theorem le_evictFloorIn : (20971 : ℚ) / 2 ^ 20 ≤ evictFloorIn pr := by
  have le := pr.le_round (x := 2 / 100) (m := 20971) (by norm_num) (by norm_num)
  exact_mod_cast le

/-- Eleven failures are enough. -/
theorem shouldRetryIn_eq_false {latency : ℚ} {age n : Nat}
    (decays : ∀ x, 0 ≤ x → 0 ≤ powf (1 / 2) x ∧ powf (1 / 2) x ≤ 1) (many : ceiling n < 20971)
    (h : e ≤ ceiling n / 2 ^ 20) : shouldRetryIn pr powf e latency age cfg = false := by
  have score : decayedScoreIn pr powf e latency age cfg ≤ ceiling n / 2 ^ 20 := decayedScoreIn_le decays (ceiling_le n) h
  have below : (ceiling n : ℚ) / 2 ^ 20 < 20971 / 2 ^ 20 := by
    gcongr
    exact_mod_cast many
  exact decide_eq_false (not_le.2 (lt_of_le_of_lt score (below.trans_le le_evictFloorIn)))

/-! ## The streaks -/

/-- How often the checks of each address have failed in a row, since it was enrolled. -/
def failures (n : Addr → Nat) (w : World) (j : World.Input) (_ : World) : Addr → Nat :=
  match w.loop.phase, j with
  | .settling job _ working, .loop (.settle _ _) => Function.update n job.key (if working then 0 else n job.key + 1)
  | .head, .loop (.enroll _ _) => fun a => if w.loop.ewma a = none then 0 else n a
  | _, _ => n

variable {w w' w₀ : World} {n : Addr → Nat} {j : World.Input} {is : List World.Input}

/-- The loop's books are kept, and a rate is within its bound after at most ten failures. -/
structure Worn (n : Addr → Nat) (w : World) : Prop where
  kept : w.loop.Kept
  bound : ∀ a e, w.loop.ewma a = some e → n a ≤ 10 ∧ e ≤ ceiling (n a) / 2 ^ 20

theorem failures_other (unsettled : ∀ now draw, j ≠ .loop (.settle now draw))
    (unenrolled : ∀ now draw, j ≠ .loop (.enroll now draw)) : failures n w j w' = n := by
  unfold failures
  split
  · exact absurd rfl (unsettled _ _)
  · exact absurd rfl (unenrolled _ _)
  · rfl

theorem Worn.start (kept : w.loop.Kept) : Worn (fun _ => 0) w := by
  refine ⟨kept, fun a e rated => ⟨Nat.zero_le _, ?_⟩⟩
  have full := (kept.range a e rated).2
  norm_num [ceiling]
  exact full

/-- One more outcome of a tracked address. -/
theorem Worn.outcome {key : Addr} {working : Bool} {latency : ℚ} {age : Nat} (worn : Worn n w)
    (decays : ∀ x, 0 ≤ x → 0 ≤ powf (1 / 2) x ∧ powf (1 / 2) x ≤ 1) (tracked : key ∈ w.loop.tracked)
    (stays : working = true ∨
      shouldRetryIn pr powf (foldSampleIn pr working ((w.loop.ewma key).getD 1)) latency age cfg = true) :
    (if working then 0 else n key + 1) ≤ 10 ∧ foldSampleIn pr working ((w.loop.ewma key).getD 1) ≤
      (ceiling (if working then 0 else n key + 1) : ℚ) / 2 ^ 20 := by
  obtain ⟨e, rated⟩ := Option.isSome_iff_exists.1 ((worn.kept.rated key).2 tracked)
  obtain ⟨few, bound⟩ := worn.bound key e rated
  obtain ⟨low, high⟩ := worn.kept.range key e rated
  rw [rated, Option.getD_some] at stays ⊢
  cases working with
  | true =>
    refine ⟨Nat.zero_le _, ?_⟩
    have full := (@foldSampleIn_range pr true _ low high).2
    norm_num [ceiling]
    exact full
  | false =>
    have next : foldSampleIn pr false e ≤ ceiling (n key + 1) / 2 ^ 20 := foldSampleIn_failed_le low (ceiling_le _) bound
    refine ⟨?_, next⟩
    simp only [Bool.false_eq_true, false_or, if_false] at stays ⊢
    by_contra more
    have eleven : n key + 1 = 11 := by omega
    rw [shouldRetryIn_eq_false decays (by rw [eleven]; decide) next] at stays
    cases stays

theorem Worn.step (worn : Worn n w) (decays : ∀ x, 0 ≤ x → 0 ≤ powf (1 / 2) x ∧ powf (1 / 2) x ≤ 1)
    (h : World.stepIn pr cfg powf w j = some w') : Worn (failures n w j w') w' := by
  refine ⟨World.stepIn_kept worn.kept h, ?_⟩
  intro a e rated
  rcases World.stepIn_cases h with ⟨i, rfl, -, same⟩ | ⟨i, rfl, next⟩
  · rw [same] at rated
    rw [failures_other (by simp) (by simp)]
    exact worn.bound a e rated
  · rcases stepIn_cases next with ⟨job, proxy, working, now, draw, at_s, rfl, -, after⟩ | resting
    · have counted : failures n w (.loop (.settle now draw)) w' =
          Function.update n job.key (if working then 0 else n job.key + 1) := by
        simp only [failures, at_s]
      rw [after, settledIn, settleWith_ewma] at rated
      rw [counted]
      by_cases same : a = job.key
      · subst same
        rw [Function.update_self] at rated ⊢
        have tracked : job.key ∈ w.loop.tracked := by simp [State.tracked, at_s, Phase.inFlight]
        split at rated
        · rename_i stays
          cases rated
          exact worn.outcome decays tracked (by simpa using stays)
        · cases rated
      · rw [Function.update_of_ne same] at rated ⊢
        exact worn.bound a e rated
    · cases i with
      | enroll now draw =>
        obtain ⟨-, after⟩ := step_enroll next
        have atHead : w.loop.phase = .head := by
          have turned := turnIn_of_stepIn next
          cases at_s : w.loop.phase <;> simp [turnIn, at_s] at turned ⊢
        have counted : failures n w (.loop (.enroll now draw)) w' = fun a => if w.loop.ewma a = none then 0 else n a := by
          simp only [failures, atHead]
        rw [after] at rated
        rw [counted]
        dsimp only
        rcases enrollAll_ewma rated with before | ⟨absent, -, rfl⟩
        · rw [if_neg (by simp [before])]
          exact worn.bound a e before
        · rw [if_pos absent]
          norm_num [ceiling]
      | settle now draw =>
        have turned := turnIn_of_stepIn next
        cases at_s : w.loop.phase with
        | settling job proxy working => exact absurd at_s (resting job proxy working)
        | _ => simp [turnIn, at_s] at turned
      | _ =>
        have before := step_ewma next (by simp) (by simp) rated
        rw [failures_other (by simp) (by simp)]
        exact worn.bound a e before

/-- The loop remembers nothing about an address. -/
structure State.Forgot (s : State) (a : Addr) : Prop where
  ewma : s.ewma a = none
  lastOk : s.lastOk a = none
  retrying : a ∉ s.retrying
  heap : a ∉ s.keys

theorem State.Kept.forgot {s : State} {a : Addr} (kept : s.Kept) (unrated : s.ewma a = none) : s.Forgot a := by
  have untracked : a ∉ s.tracked := by
    rw [← kept.rated a, unrated]
    simp
  refine ⟨unrated, ?_, fun mem => untracked (kept.retried a mem), fun mem => untracked (List.mem_append_right _ mem)⟩
  rw [← Option.not_isSome_iff_eq_none, kept.clocked a]
  exact untracked

/-- **A dead proxy leaves the schedule.** Whatever the rates, the latencies, the clock and the rest of the
system: an address whose checks have failed eleven times in a row is forgotten, and a check that works
forgets nothing. -/
theorem dead_leaves (decays : ∀ x, 0 ≤ x → 0 ≤ powf (1 / 2) x ∧ powf (1 / 2) x ≤ 1) (kept : w₀.loop.Kept)
    (h : run (noting (World.stepIn pr cfg powf) failures) (w₀, fun _ => 0) is = some (w, n)) :
    (∀ a, 11 ≤ n a → w.loop.Forgot a) ∧
    ∀ job proxy now draw w', w.loop.phase = .settling job proxy true →
      World.stepIn pr cfg powf w (.loop (.settle now draw)) = some w' →
      (w'.loop.ewma job.key).isSome ∧ (w'.loop.lastOk job.key).isSome ∧ job.key ∈ w'.loop.keys := by
  have worn : Worn n w := by
    refine run_preserves (P := fun v => Worn v.2 v.1) ?_ (Worn.start kept) h
    intro v i v' worn next
    obtain ⟨moved, noted⟩ := noting_eq next
    rw [noted]
    exact worn.step decays moved
  constructor
  · intro a many
    cases rated : w.loop.ewma a with
    | none => exact worn.kept.forgot rated
    | some e =>
      have few := (worn.bound a e rated).1
      omega
  · intro job proxy now draw w' settling next
    have kept' := World.stepIn_kept worn.kept next
    obtain ⟨after, called, rfl⟩ := Option.map_eq_some_iff.1 next
    replace called := turnIn_of_stepIn called
    simp only [turnIn, settling] at called
    obtain ⟨sys', -, rfl⟩ := Option.map_eq_some_iff.1 called
    have listed : job.key ∈ (settledIn pr cfg powf w.loop now draw job.key proxy true).keys := List.mem_cons_self
    have tracked := List.mem_append_right (settledIn pr cfg powf w.loop now draw job.key proxy true).phase.inFlight listed
    exact ⟨(kept'.rated job.key).2 tracked, (kept'.clocked job.key).2 tracked, listed⟩

/-- A proxy is enrolled and fails its first check. -/
theorem dead_leaves_failed_check : ∃ is w n,
    run (noting (World.stepIn .binary64 .default fun _ _ => 1) failures)
      (⟨Sys.fromProxies none [httpProxy 80] .default, State.start 0⟩, fun _ => 0) is = some (w, n) ∧
    ∀ a, 11 ≤ n a → w.loop.Forgot a := by
  have single : (Sys.fromProxies none [httpProxy 80] .default).pool.addrs = [(httpProxy 80).addr] := rfl
  have bounded := RecheckConfig.default_bounded
  have ended := (run_append (firstCheck_run .binary64 (fun _ _ => 1) bounded single 0 ⟨0, by norm_num⟩)).trans
    (settle_run bounded (httpProxy 80) false rfl rfl rfl (120 * 10 ^ 9) ⟨0, by norm_num⟩)
  obtain ⟨n, ran⟩ := run_noting ended failures fun _ => 0
  exact ⟨_, _, n, ran, (dead_leaves (fun _ _ => ⟨zero_le_one, le_rfl⟩) (start_kept 0) ran).1⟩

end ProxyBroker.Scheduler
