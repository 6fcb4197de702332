import ProxyBroker.Connector
import ProxyBroker.Server.HandleClient

/-!
# What serving does to a measured response time

The checker records the round trips it measures. The serving paths record an attempt of their own, with the sample
`0.0` when a request is served or the client is gone, and without a sample when the attempt fails. A zero leaves the
float sum of the samples as it is and counts as one more of them, so what a proxy's mean comes to depends on the measured
times and on how many zeros follow, not on when they came (`diluted`), and a slow proxy stays slow exactly when the last
mean is still slow (`stays_slow_iff`).
-/

namespace ProxyBroker
open Lib Server

/-- How an attempt to serve ended: in `handle_client`, or in the connector's `connect`. -/
inductive Served where
  | relayed (outcome : RelayOutcome)
  | dialled (err : Option ProxyError)
deriving DecidableEq, Repr

namespace Served

/-- What the attempt records in the proxy. -/
def record (p : Proxy) : Served → Proxy
  | .relayed .ok | .relayed .clientGone | .dialled none => p.recordAttempt (some 0) none
  | .relayed (.retryableFailure e) | .relayed (.clientCommitted e) | .dialled (some e) => p.recordAttempt none (some e)

/-- The attempts that record a response time. -/
def sampled : Served → Bool
  | .relayed .ok | .relayed .clientGone | .dialled none => true
  | _ => false

/-- One attempt after another. -/
def recordAll (p : Proxy) (os : List Served) : Proxy := os.foldl record p

variable {p : Proxy} {os : List Served} {L : ℚ}

theorem runtimes_record (p : Proxy) (o : Served) : (record p o).runtimes = p.runtimes ++ if o.sampled then [0] else [] := by
  rcases o with (_ | e | e | _) | (_ | e) <;> simp [record, sampled, Proxy.recordAttempt]

/-- The samples are those of the checker, and a zero for every attempt that records one. -/
theorem runtimes_recordAll (p : Proxy) (os : List Served) :
    (recordAll p os).runtimes = p.runtimes ++ List.replicate (os.countP sampled) 0 := by
  induction os generalizing p with
  | nil => simp [recordAll]
  | cons o os ih =>
    have next : recordAll p (o :: os) = recordAll (record p o) os := rfl
    rw [next, ih, runtimes_record]
    cases sample : sampled o <;> simp [List.replicate_succ, sample]

end Served

/-! ## The call sites -/

/-- The `match` on the outcome of `relay` records it. -/
theorem Server.Handler.held_conclude {s : State} {sv : Serving} {p : Proxy} {o : RelayOutcome}
    (at_s : s.phase = conclude sv p o) : s.held = some (Served.record p (.relayed o)) := by
  unfold State.held
  rw [at_s]
  cases o <;> rfl

/-- **What `handle_client` does to its lease**: nothing, or it records how the attempt ended. -/
theorem Server.Handler.records_step {ctx : ConnCtx} {s t : State} {i : Input} {p q : Proxy} (h : step ctx s i = some t)
    (before : s.held = some p) (after : t.held = some q) : q = p ∨ ∃ o, q = Served.record p (.relayed o) := by
  unfold State.held at before
  split at before
  case h_1 sv _ at_s | h_3 sv _ at_s =>
    cases before
    cases i <;> simp only [step, at_s] at h <;> cases h
    cases after
    exact Or.inl rfl
  case h_2 sv _ r at_s =>
    cases before
    cases i <;> simp only [step, at_s] at h <;> try cases h
    obtain ⟨r', -, rfl⟩ := Option.map_eq_some_iff.1 h
    split at after
    · rename_i o _
      rw [held_conclude rfl] at after
      cases after
      exact Or.inr ⟨o, rfl⟩
    · cases after
      exact Or.inl rfl
  case h_4 sv _ failed again at_s =>
    cases before
    cases i <;> simp only [step, at_s] at h <;> try cases h
    rename_i pushed
    cases pushed <;> cases h
    · rw [held_continueWith] at after
      cases after
    · cases after
  case h_5 => cases before

/-- **What `connect` does to its lease**: nothing, or it records how the dial ended. -/
theorem Connector.records_step {c d : State} {i : Input} {p q : Proxy} (h : step c i = some d)
    (before : c.held = some p) (after : d.held = some q) : q = p ∨ ∃ err, q = Served.record p (.dialled err) := by
  have ended (err : Option ProxyError) (held : (dialled c p err).held = some q) : q = p ∨ ∃ err, q = Served.record p (.dialled err) := by
    refine Or.inr ⟨err, ?_⟩
    cases err <;> (cases held; rfl)
  have going (proto : Proto) (n : Negotiation) (held : (negotiated c p proto n).held = some q) :
      q = p ∨ ∃ err, q = Served.record p (.dialled err) := by
    cases n with
    | opened => exact ended none held
    | failed e => exact ended (some e) held
    | _ =>
      cases held
      exact Or.inl rfl
  unfold State.held at before
  split at before
  case h_1 _ proto dial at_c =>
    cases before
    cases dial <;> cases i <;> simp only [step, at_c] at h <;> try cases h
    · exact going _ _ after
    · exact ended _ after
    · exact ended _ after
    · obtain ⟨n, -, rfl⟩ := Option.map_eq_some_iff.1 h
      exact going _ _ after
  case h_2 _ failed again at_c =>
    cases before
    cases i <;> simp only [step, at_c] at h <;> try cases h
    rename_i pushed
    cases pushed <;> cases h
    · rw [held_continueWith] at after
      cases after
    · cases after
  case h_3 => cases before

/-! ## A slow proxy -/

/-- Every response time the checker measured is at least `L`, and there is one. -/
structure Slow (L : ℚ) (p : Proxy) : Prop where
  pos : 0 < L
  measured : p.runtimes ≠ []
  slow : ∀ r ∈ p.runtimes, L ≤ r

/-- Both ways of giving a proxy back evict it. -/
def Evicted (pool : Pool) (p : Proxy) : Prop :=
  pool.putOk p = { pool with evictions := pool.evictions + 1 } ∧
    ∀ now, pool.putFailed p now = { pool with evictions := pool.evictions + 1 }

/-- The proxy is slow after every one of these attempts, and evicted by a pool whose limit is that far below. -/
def StaysSlow (L : ℚ) (p : Proxy) (os : List Served) : Prop :=
  ∀ before, before <+: os → L ≤ (Served.recordAll p before).meanRuntime ∧
    ∀ pool : Pool, pool.config.maxRespTime + 5 / 1000 < L → pool.config.minReq ≤ (Served.recordAll p before).requests →
      Evicted pool (Served.recordAll p before)

/-- The mean of the measured times and `k` zeros. -/
def diluted (rs : List ℚ) (k : Nat) : ℚ := F64.div (Precision.binary64.sum rs) (F64.round (rs.length + k : Nat))

variable {L : ℚ} {p : Proxy} {os : List Served} {pool : Pool}

theorem Slow.nonneg (slow : Slow L p) {r : ℚ} (mem : r ∈ p.runtimes) : 0 ≤ r := slow.pos.le.trans (slow.slow r mem)

/-- **The mean after the attempts.** -/
theorem meanRuntime_recordAll (slow : Slow L p) (os : List Served) :
    (Served.recordAll p os).meanRuntime = diluted p.runtimes (os.countP Served.sampled) := by
  have sum := Precision.binary64.sum_zeros (fun _ => slow.nonneg) (os.countP Served.sampled)
  rw [Proxy.meanRuntime, Served.runtimes_recordAll, Precision.mean, sum, List.length_append, List.length_replicate]
  rfl

/-- More zeros, a smaller mean. -/
theorem diluted_anti (slow : Slow L p) {k k' : Nat} (le : k ≤ k') : diluted p.runtimes k' ≤ diluted p.runtimes k := by
  have some_sample : 0 < p.runtimes.length := List.length_pos_of_ne_nil slow.measured
  have sum : 0 ≤ Precision.binary64.sum p.runtimes := Precision.binary64.sum_nonneg fun _ => slow.nonneg
  have count : F64.round (p.runtimes.length + k : Nat) ≤ F64.round (p.runtimes.length + k' : Nat) :=
    F64.round_mono (Nat.cast_nonneg _) (by exact_mod_cast Nat.add_le_add_left le _)
  have one_le : 1 ≤ F64.round (p.runtimes.length + k : Nat) :=
    Precision.binary64.one_le_round (by exact_mod_cast by omega)
  apply F64.round_mono
  · exact div_nonneg sum (by linarith)
  · exact div_le_div_of_nonneg_left sum (by linarith) count

theorem diluted_nonneg (slow : Slow L p) (k : Nat) : 0 ≤ diluted p.runtimes k :=
  F64.round_nonneg (div_nonneg (Precision.binary64.sum_nonneg fun _ => slow.nonneg) (F64.round_nonneg (Nat.cast_nonneg _)))

/-- Rounding to two decimals keeps the order. -/
theorem round2_le_round2 {x y : ℚ} (nonneg : 0 ≤ x) (le : x ≤ y) : round2 .binary64 x ≤ round2 .binary64 y := by
  have whole : (0 : ℤ) ≤ roundHalfEven (x * 100) := le_roundHalfEven (by rw [Int.cast_zero]; linarith)
  have order : roundHalfEven (x * 100) ≤ roundHalfEven (y * 100) := roundHalfEven_mono (by linarith)
  apply F64.round_mono
  · exact div_nonneg (by exact_mod_cast whole) (by norm_num)
  · exact div_le_div_of_nonneg_right (by exact_mod_cast order) (by norm_num)

theorem avgRespTime_recordAll (slow : Slow L p) (os : List Served) :
    (Served.recordAll p os).avgRespTime = round2 .binary64 (diluted p.runtimes (os.countP Served.sampled)) := by
  have measured : (Served.recordAll p os).runtimes ≠ [] := by
    rw [Served.runtimes_recordAll]
    simp [slow.measured]
  rw [Proxy.avgRespTime, if_neg measured, meanRuntime_recordAll slow]

theorem evicted_of_unhealthy (unhealthy : Pool.unhealthy pool.config p = true) : Evicted pool p := by
  refine ⟨?_, fun now => ?_⟩
  · simp [Pool.putOk, Pool.putInner, unhealthy]
  · simp [Pool.putFailed, Pool.putInner, unhealthy]

theorem unhealthy_of_evicted (evicted : Evicted pool p) : Pool.unhealthy pool.config p = true := by
  by_contra healthy
  have kept := evicted.1
  simp only [Pool.putOk, Pool.putInner, Bool.eq_false_iff.2 healthy] at kept
  have size := congrArg (fun pool : Pool => pool.state.length) kept
  simp [Pool.push] at size

/-- A mean that rounds to no less than the limits below `L` is evicted by all of them, and one that rounds to less is
kept by a pool with that limit. -/
theorem evicts_iff (p : Proxy) : (∀ pool : Pool, pool.config.maxRespTime + 5 / 1000 < L → pool.config.minReq ≤ p.requests → Evicted pool p) ↔
    L - 5 / 1000 ≤ p.avgRespTime := by
  constructor
  · intro evicts
    by_contra fast
    -- a pool whose limits are this very proxy's rates
    have evicted := evicts (Pool.fromProxies []
      { PoolConfig.default with minReq := 0, maxErrorRate := p.errorRate, maxRespTime := p.avgRespTime })
    have unhealthy := unhealthy_of_evicted (evicted (by simpa [Pool.fromProxies] using fast) (by simp [Pool.fromProxies]))
    simp [Pool.unhealthy, Pool.fromProxies] at unhealthy
  · intro slow pool limit enough
    apply evicted_of_unhealthy
    have above : pool.config.maxRespTime < p.avgRespTime := by linarith
    simp [Pool.unhealthy, enough, above]

/-- **When a slow proxy stays slow**: exactly when the mean of its measured times and of a zero for each served or
abandoned request is still at least `L`, and rounds to at least `L` less half a hundredth. -/
theorem stays_slow_iff (slow : Slow L p) : StaysSlow L p os ↔
    L ≤ diluted p.runtimes (os.countP Served.sampled) ∧
      L - 5 / 1000 ≤ round2 .binary64 (diluted p.runtimes (os.countP Served.sampled)) := by
  constructor
  · intro stays
    obtain ⟨mean, evicts⟩ := stays os (List.prefix_refl os)
    rw [meanRuntime_recordAll slow] at mean
    rw [evicts_iff, avgRespTime_recordAll slow] at evicts
    exact ⟨mean, evicts⟩
  · rintro ⟨mean, rounded⟩ before prior
    have fewer := diluted_anti slow (prior.sublist.countP_le (p := Served.sampled))
    rw [evicts_iff, meanRuntime_recordAll slow, avgRespTime_recordAll slow]
    refine ⟨mean.trans fewer, rounded.trans ?_⟩
    exact round2_le_round2 (diluted_nonneg slow _) fewer

/-- Ten times a tenth has a float mean below a tenth, before any zero. -/
example : diluted (List.replicate 10 (F64.round (1 / 10))) 0 < F64.round (1 / 10) := by decide +kernel

/-- A proxy with one measured response time. -/
def measuredOnce (r : ℚ) : Proxy := { Proxy.new (.v4 0) 80 [] with runtimes := [r] }

theorem slow_measuredOnce {r : ℚ} (pos : 0 < L) (above : L ≤ r) : Slow L (measuredOnce r) :=
  ⟨pos, by simp [measuredOnce], by simpa [measuredOnce] using above⟩

/-- Twice the bound leaves room for one request. -/
theorem stays_slow_once :
    Slow 10 (measuredOnce 20) ∧ StaysSlow 10 (measuredOnce 20) [.relayed .ok, .relayed (.retryableFailure .timeout)] := by
  have slow : Slow 10 (measuredOnce 20) := slow_measuredOnce (by norm_num) (by norm_num)
  refine ⟨slow, (stays_slow_iff slow).2 ?_⟩
  decide +kernel

/-- One served request halves the mean of a single measured time. -/
theorem slow_no_longer : Slow 10 (measuredOnce 10) ∧ ¬ StaysSlow 10 (measuredOnce 10) [.relayed .ok] := by
  refine ⟨slow_measuredOnce (by norm_num) le_rfl, fun stays => ?_⟩
  have mean := (stays [.relayed .ok] (List.prefix_refl _)).1
  revert mean
  decide +kernel

end ProxyBroker
