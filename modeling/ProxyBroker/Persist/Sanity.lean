import Mathlib.Tactic.Linarith
import Mathlib.Tactic.NormNum
import ProxyBroker.Persist.Durable

/-!
# What a record says about its history

The averages of a record stay between the samples they average, its counters and types are those of the
history. The first upsert seeds the average latency with its own latency, even with a `0` that stands for
no measurement; a later positive latency then enters with the weight `3 / 10` only.
-/

namespace ProxyBroker.Persist
open Lib

/-! ## Histories -/

/-- The positive latencies among the upserts. -/
def positives (ps : List Proxy) : List ℚ := (ps.map Proxy.avgRespTime).filter (0 < ·)

/-- The types of the last upsert that confirmed any. -/
def lastTypes (ps : List Proxy) : TypeMap := ((ps.filter Proxy.isWorking).getLast?).elim (fun _ => none) Proxy.types

/-- The weight with which the first positive latency enters the average. -/
def seedShare : List Proxy → ℚ
  | [] => 1
  | p :: _ => if 0 < p.avgRespTime then 1 else 3 / 10

/-- A record fits its history `ps`: the average latency lies between `share` of the smallest positive
latency and the largest one. -/
structure Durable.Sane (share : ℚ) (ps : List Proxy) (d : Durable) : Prop where
  ewmaSuccess : 0 ≤ d.ewmaSuccess ∧ d.ewmaSuccess ≤ 1
  errors : d.errors ≤ d.requests
  types : d.types = lastTypes ps
  unmeasured : positives ps = [] → d.avgLatency = 0
  smallest : positives ps ≠ [] → ∃ lo ∈ positives ps, share * lo ≤ d.avgLatency
  largest : positives ps ≠ [] → ∃ hi ∈ positives ps, d.avgLatency ≤ hi

/-! ## Averages stay between their samples -/

theorem ewma_le {x y b : ℚ} (hx : x ≤ b) (hy : y ≤ b) : Precision.exact.ewma x y ≤ b := by
  show 3 / 10 * x + 7 / 10 * y ≤ b
  linarith

theorem le_ewma {x y b : ℚ} (hx : b ≤ x) (hy : b ≤ y) : b ≤ Precision.exact.ewma x y := by
  show b ≤ 3 / 10 * x + 7 / 10 * y
  linarith

theorem ewma_zero (x : ℚ) : Precision.exact.ewma x 0 = 3 / 10 * x := by
  show 3 / 10 * x + 7 / 10 * 0 = 3 / 10 * x
  rw [mul_zero, add_zero]

theorem sample_mem (p : Proxy) : 0 ≤ sample p ∧ sample p ≤ 1 := by
  rw [sample]
  split <;> norm_num

theorem ewmaSuccess_mem {ps : List Proxy} {s : Summary} (h : summary .exact ps = some s) : 0 ≤ s.ewmaSuccess ∧ s.ewmaSuccess ≤ 1 := by
  refine summary_induction (P := fun _ s => 0 ≤ s.ewmaSuccess ∧ s.ewmaSuccess ≤ 1) (fun p => sample_mem p) (fun ps s p _ ih => ?_) h
  exact ⟨le_ewma (sample_mem p).1 ih.1, ewma_le (sample_mem p).2 ih.2⟩

theorem errors_le_requests {ps : List Proxy} {s : Summary} (h : summary .exact ps = some s) (errors : ∀ p ∈ ps, p.errorTotal ≤ p.requests) :
    s.errors ≤ s.requests := by
  have totals := summary_totals h
  rw [totals.errors, totals.requests]
  exact List.sum_le_sum fun p mem => UInt32.le_iff_toNat_le.1 (errors p mem)

theorem types_of_not_working {p : Proxy} (idle : p.isWorking = false) : p.types = fun _ => none := by
  rw [← typesFromJson_typesToJson p.types, (typesToJson_eq_nil p).2 idle]
  rfl

theorem lastTypes_concat (ps : List Proxy) (p : Proxy) :
    lastTypes (ps ++ [p]) = if p.isWorking then p.types else lastTypes ps := by
  cases working : p.isWorking <;> simp [lastTypes, working]

theorem types_eq_lastTypes {ps : List Proxy} {s : Summary} (h : summary .exact ps = some s) : s.types = lastTypes ps := by
  refine summary_induction (P := fun ps s => s.types = lastTypes ps) (fun p => ?_) (fun ps s p _ ih => ?_) h
  · cases working : p.isWorking with
    | false => simp [Summary.fold, lastTypes, working, types_of_not_working working]
    | true => simp [Summary.fold, lastTypes, working]
  · rw [lastTypes_concat, ← ih]
    rfl

/-! ## The average latency -/

theorem positives_concat_pos {p : Proxy} (ps : List Proxy) (pos : 0 < p.avgRespTime) :
    positives (ps ++ [p]) = positives ps ++ [p.avgRespTime] := by
  simp [positives, pos]

theorem positives_concat_zero {p : Proxy} (ps : List Proxy) (zero : ¬ 0 < p.avgRespTime) : positives (ps ++ [p]) = positives ps := by
  simp [positives, zero]

theorem pos_of_mem_positives {ps : List Proxy} {l : ℚ} (mem : l ∈ positives ps) : 0 < l := by
  simpa using (List.mem_filter.1 mem).2

theorem seedShare_mem (ps : List Proxy) : 0 ≤ seedShare ps ∧ seedShare ps ≤ 1 := by
  cases ps with
  | nil => norm_num [seedShare]
  | cons p ps =>
    rw [seedShare]
    split <;> norm_num

theorem seedShare_concat {ps : List Proxy} (p : Proxy) (some_before : ps ≠ []) : seedShare (ps ++ [p]) = seedShare ps := by
  cases ps with
  | nil => exact absurd rfl some_before
  | cons q ps => rfl

theorem seedShare_of_unmeasured {ps : List Proxy} (some_before : ps ≠ []) (unmeasured : positives ps = []) : seedShare ps = 3 / 10 := by
  cases ps with
  | nil => exact absurd rfl some_before
  | cons q ps =>
    have zero : ¬ 0 < q.avgRespTime := by
      have nothing := List.filter_eq_nil_iff.1 unmeasured q.avgRespTime (by simp)
      simpa using nothing
    rw [seedShare, if_neg zero]

/-- The average latency fits the history. -/
structure Summary.Timed (ps : List Proxy) (s : Summary) : Prop where
  unmeasured : positives ps = [] → s.avgLatency = 0
  smallest : positives ps ≠ [] → ∃ lo ∈ positives ps, seedShare ps * lo ≤ s.avgLatency
  largest : positives ps ≠ [] → ∃ hi ∈ positives ps, s.avgLatency ≤ hi

theorem Summary.Timed.first {p : Proxy} (nonneg : 0 ≤ p.avgRespTime) : (Summary.fold .exact p none).Timed [p] := by
  by_cases pos : 0 < p.avgRespTime
  · have measured : positives [p] = [p.avgRespTime] := positives_concat_pos [] pos
    refine ⟨fun none_measured => ?_, fun _ => ?_, fun _ => ?_⟩
    · rw [measured] at none_measured
      cases none_measured
    · refine ⟨p.avgRespTime, by simp [measured], ?_⟩
      rw [seedShare, if_pos pos, one_mul]
      rfl
    · exact ⟨p.avgRespTime, by simp [measured], le_refl _⟩
  · have unmeasured : positives [p] = [] := positives_concat_zero [] pos
    exact ⟨fun _ => le_antisymm (not_lt.1 pos) nonneg, fun some_measured => absurd unmeasured some_measured,
      fun some_measured => absurd unmeasured some_measured⟩

/-- An upsert without a latency keeps the average. -/
theorem Summary.Timed.skip {ps : List Proxy} {s : Summary} {p : Proxy} (timed : s.Timed ps) (some_before : ps ≠ [])
    (zero : ¬ 0 < p.avgRespTime) : (Summary.fold .exact p (some s)).Timed (ps ++ [p]) := by
  have kept : (Summary.fold .exact p (some s)).avgLatency = s.avgLatency := if_neg zero
  constructor
  · rw [kept, positives_concat_zero ps zero]
    exact timed.unmeasured
  · rw [kept, positives_concat_zero ps zero, seedShare_concat p some_before]
    exact timed.smallest
  · rw [kept, positives_concat_zero ps zero]
    exact timed.largest

/-- A positive latency is averaged in. -/
theorem Summary.Timed.measure {ps : List Proxy} {s : Summary} {p : Proxy} (timed : s.Timed ps) (some_before : ps ≠ [])
    (pos : 0 < p.avgRespTime) : (Summary.fold .exact p (some s)).Timed (ps ++ [p]) := by
  have moved : (Summary.fold .exact p (some s)).avgLatency = Precision.exact.ewma p.avgRespTime s.avgLatency := if_pos pos
  have share := seedShare_mem ps
  have latest : p.avgRespTime ∈ positives ps ++ [p.avgRespTime] := by simp
  constructor
  · rw [positives_concat_pos ps pos]
    intro none_measured
    simp at none_measured
  · intro _
    rw [moved, positives_concat_pos ps pos, seedShare_concat p some_before]
    by_cases unmeasured : positives ps = []
    · refine ⟨p.avgRespTime, latest, ?_⟩
      rw [timed.unmeasured unmeasured, seedShare_of_unmeasured some_before unmeasured, ewma_zero]
    · obtain ⟨lo, mem, le⟩ := timed.smallest unmeasured
      have lo_pos := pos_of_mem_positives mem
      rcases le_total lo p.avgRespTime with below | above
      · refine ⟨lo, List.mem_append_left _ mem, le_ewma ?_ le⟩
        exact (mul_le_of_le_one_left lo_pos.le share.2).trans below
      · refine ⟨p.avgRespTime, latest, le_ewma (mul_le_of_le_one_left pos.le share.2) ?_⟩
        exact (mul_le_mul_of_nonneg_left above share.1).trans le
  · intro _
    rw [moved, positives_concat_pos ps pos]
    by_cases unmeasured : positives ps = []
    · refine ⟨p.avgRespTime, latest, ewma_le (le_refl _) ?_⟩
      rw [timed.unmeasured unmeasured]
      exact pos.le
    · obtain ⟨hi, mem, le⟩ := timed.largest unmeasured
      rcases le_total hi p.avgRespTime with below | above
      · exact ⟨p.avgRespTime, latest, ewma_le (le_refl _) (le.trans below)⟩
      · exact ⟨hi, List.mem_append_left _ mem, ewma_le above le⟩

theorem timed {ps : List Proxy} {s : Summary} (h : summary .exact ps = some s) (latency : ∀ p ∈ ps, 0 ≤ p.avgRespTime) : s.Timed ps := by
  refine summary_induction (P := fun ps s => (∀ p ∈ ps, 0 ≤ p.avgRespTime) → s.Timed ps)
    (fun p nonneg => ?_) (fun ps s p before ih nonneg => ?_) h latency
  · exact .first (nonneg p (by simp))
  · have some_before : ps ≠ [] := fun none_before => by simp [summary_eq_none.2 none_before] at before
    have earlier := ih fun q mem => nonneg q (List.mem_append_left _ mem)
    by_cases pos : 0 < p.avgRespTime
    · exact earlier.measure some_before pos
    · exact earlier.skip some_before pos

/-! ## Every backend -/

/-- **A record fits its history**, whatever the order of failing and working checks. -/
theorem durable_record_sane (b : Backend) (a : Addr) (xs : List (ℤ × Proxy))
    (latency : ∀ p ∈ upsertsOf a (xs.map Prod.snd), 0 ≤ p.avgRespTime)
    (errors : ∀ p ∈ upsertsOf a (xs.map Prod.snd), p.errorTotal ≤ p.requests) :
    match b.stored .exact a xs with
    | none => upsertsOf a (xs.map Prod.snd) = []
    | some d => d.Sane (seedShare (upsertsOf a (xs.map Prod.snd))) (upsertsOf a (xs.map Prod.snd)) := by
  rw [b.stored_eq .exact a xs nofun]
  cases remembered : summary .exact (upsertsOf a (xs.map Prod.snd)) with
  | none => exact summary_eq_none.1 remembered
  | some s =>
    have times := timed remembered latency
    exact {
      ewmaSuccess := ewmaSuccess_mem remembered
      errors := Nat.cast_le.2 (b.keeps_mono (errors_le_requests remembered errors))
      types := types_eq_lastTypes remembered
      unmeasured := times.unmeasured
      smallest := times.smallest
      largest := times.largest }

theorem durable_record_sane_failing_first :
    match Backend.stored .redis .exact failedOnce.addr [(100, failedOnce), (160, workedOnce), (220, failedOnce)] with
    | none => upsertsOf failedOnce.addr [failedOnce, workedOnce, failedOnce] = []
    | some d => d.Sane (seedShare (upsertsOf failedOnce.addr [failedOnce, workedOnce, failedOnce]))
        (upsertsOf failedOnce.addr [failedOnce, workedOnce, failedOnce]) :=
  durable_record_sane .redis failedOnce.addr [(100, failedOnce), (160, workedOnce), (220, failedOnce)]
    (by decide +kernel) (by decide +kernel)

/-- A failing check before the first working one leaves an average below every measured latency: `75` after
a single measurement of `250`. -/
theorem latency_below_every_measurement :
    ¬ ∀ (b : Backend) (a : Addr) (xs : List (ℤ × Proxy)) (d : Durable), (∀ x ∈ xs, x.2.addr = a) →
      (∀ x ∈ xs, 0 ≤ x.2.avgRespTime) → (∀ x ∈ xs, x.2.errorTotal ≤ x.2.requests) → b.stored .exact a xs = some d →
      d.Sane 1 (xs.map Prod.snd) := by
  intro all
  have low : (Backend.stored .sqlite .exact failedOnce.addr [(100, failedOnce), (160, workedOnce)]).map Durable.avgLatency = some 75 := by
    decide +kernel
  obtain ⟨d, found, average⟩ := Option.map_eq_some_iff.1 low
  have sane := all .sqlite failedOnce.addr [(100, failedOnce), (160, workedOnce)] d (by decide +kernel) (by decide +kernel)
    (by decide +kernel) found
  have measured : positives ([((100 : ℤ), failedOnce), (160, workedOnce)].map Prod.snd) = [250] := by decide +kernel
  obtain ⟨lo, mem, le⟩ := sane.smallest (by rw [measured]; exact List.cons_ne_nil 250 [])
  rw [measured, List.mem_singleton] at mem
  rw [mem, average] at le
  norm_num at le

end ProxyBroker.Persist
