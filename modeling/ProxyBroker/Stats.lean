import Mathlib.Data.Char
import Mathlib.Data.List.Lex
import ProxyBroker.Lib.Tally
import ProxyBroker.Percentile

/-!
# Statistics of a run (`stats.rs`)

`StatsCollector::record` folds one checked proxy into the totals, the four maps and the list of mean
response times, and `finish` reads them out. The checks of a run finish in any order. `record_all` says what
the collector holds after proxies in some order: sums over them, and from that nothing of `finish` depends
on the order.

The error counts are the `u32` of the source. The other counts are `usize`, as `Nat`.
-/

namespace ProxyBroker
open Lib

/-- `ProxyError::as_str`. -/
def ProxyError.asStr : ProxyError → Text
  | .connFailed => "connection_failed".toList
  | .timeout => "connection_timeout".toList
  | .reset => "connection_is_reset".toList
  | .emptyRecv => "empty_response".toList
  | .badStatus => "bad_status".toList
  | .badResponse => "bad_response".toList
  | .errorOnStream => "error_on_stream".toList
  | .disallowedStatus _ => "disallowed_status".toList
  | .resolve => "resolve_failed".toList

/-- The place of a protocol in the declaration, which is its order. -/
def Proto.rank : Proto → ℕ
  | .http => 0
  | .https => 1
  | .socks4 => 2
  | .socks5 => 3
  | .connect80 => 4
  | .connect25 => 5

theorem Proto.rank_injective : Function.Injective Proto.rank := by
  intro p q same
  cases p <;> cases q <;> simp_all [Proto.rank]

instance : LinearOrder Proto := LinearOrder.lift' Proto.rank Proto.rank_injective

/-- From worst to best. -/
def AnonLevel.rank : AnonLevel → ℕ
  | .transparent => 0
  | .anonymous => 1
  | .high => 2

theorem AnonLevel.rank_injective : Function.Injective AnonLevel.rank := by
  intro l m same
  cases l <;> cases m <;> simp_all [AnonLevel.rank]

instance : LinearOrder AnonLevel := LinearOrder.lift' AnonLevel.rank AnonLevel.rank_injective

/-- `stats.rs:Stats`. -/
structure Stats where
  total : ℕ
  working : ℕ
  byProtocol : Tally Proto ℕ
  byAnonymity : Tally AnonLevel ℕ
  byCountry : Tally Text ℕ
  errors : Tally Text UInt32
  avgRespTime : ℚ
  p50RespTime : ℚ
  p90RespTime : ℚ
  p95RespTime : ℚ

/-- `stats.rs:StatsCollector`. -/
structure StatsCollector where
  total : ℕ
  working : ℕ
  byProtocol : Tally Proto ℕ
  byAnonymity : Tally AnonLevel ℕ
  byCountry : Tally Text ℕ
  errors : Tally Text UInt32
  respTimes : List ℚ

namespace StatsCollector

/-- `StatsCollector::default`. -/
def default : StatsCollector := ⟨0, 0, .empty, .empty, .empty, .empty, []⟩

/-- One turn of the loop over `p.types()`. -/
def recordType (p : Proxy) (c : StatsCollector) (proto : Proto) : StatsCollector :=
  { c with
    byProtocol := c.byProtocol.add proto 1
    byAnonymity :=
      if proto = .http then (p.types proto).join.elim c.byAnonymity fun lvl => c.byAnonymity.add lvl 1
      else c.byAnonymity }

/-- The code under which a proxy is counted, `--` without a country. -/
def country (p : Proxy) : Text := p.geo.elim "--".toList fun g => g.code

/-- `StatsCollector::record`. -/
def record (c : StatsCollector) (p : Proxy) : StatsCollector :=
  let c := { c with total := c.total + 1, working := if p.isWorking then c.working + 1 else c.working }
  let c := p.typeKeys.foldl (recordType p) c
  let c := { c with byCountry := c.byCountry.add (country p) 1 }
  let c := { c with errors := p.errors.foldl (fun m e => m.add e.1.asStr e.2) c.errors }
  let art := p.avgRespTime
  if 0 < art then { c with respTimes := c.respTimes ++ [art] } else c

/-- The mean response time of `finish`. -/
def meanRespTime (pr : Precision) (c : StatsCollector) : ℚ :=
  if c.respTimes.isEmpty then 0 else round2 pr (pr.mean c.respTimes)

/-- `StatsCollector::finish`; `none` where a percentile panics. -/
def finish (pr : Precision) (c : StatsCollector) : Option Stats :=
  (percentile pr c.respTimes (pr.round (50 / 100))).bind fun p50 =>
    (percentile pr c.respTimes (pr.round (90 / 100))).bind fun p90 =>
      (percentile pr c.respTimes (pr.round (95 / 100))).map fun p95 =>
        { total := c.total
          working := c.working
          byProtocol := c.byProtocol
          byAnonymity := c.byAnonymity
          byCountry := c.byCountry
          errors := c.errors
          avgRespTime := c.meanRespTime pr
          p50RespTime := p50
          p90RespTime := p90
          p95RespTime := p95 }

end StatsCollector

/-- `Stats::from_proxies`. -/
def Stats.fromProxies (pr : Precision) (proxies : List Proxy) : Option Stats :=
  (proxies.foldl StatsCollector.record StatsCollector.default).finish pr

namespace StatsCollector

/-! ## What a proxy adds -/

/-- One for each confirmed protocol. -/
def protocolCounts (p : Proxy) : List (Proto × ℕ) := p.typeKeys.map fun proto => (proto, 1)

/-- One for the level of a confirmed HTTP. -/
def levelCounts (p : Proxy) : List (AnonLevel × ℕ) :=
  p.typeKeys.filterMap fun proto => if proto = .http then (p.types proto).join.map fun lvl => (lvl, 1) else none

def errorCounts (p : Proxy) : List (Text × UInt32) := p.errors.map fun e => (e.1.asStr, e.2)

def respTimeOf (p : Proxy) : List ℚ := if 0 < p.avgRespTime then [p.avgRespTime] else []

theorem foldl_recordType (p : Proxy) (keys : List Proto) (c : StatsCollector) :
    keys.foldl (recordType p) c =
      { c with
        byProtocol := c.byProtocol.addAll (keys.map fun proto => (proto, 1))
        byAnonymity := c.byAnonymity.addAll
          (keys.filterMap fun proto => if proto = .http then (p.types proto).join.map fun lvl => (lvl, 1) else none) } := by
  induction keys generalizing c with
  | nil => rfl
  | cons proto keys ih =>
    rw [List.foldl_cons, ih, List.map_cons, Tally.addAll_cons, List.filterMap_cons]
    by_cases http : proto = .http
    · simp only [recordType, http, if_true]
      cases (p.types .http).join with
      | none => rfl
      | some lvl => rfl
    · simp only [recordType, http, if_false]

/-- **One proxy**, component by component. -/
theorem record_eq (c : StatsCollector) (p : Proxy) :
    c.record p =
      { total := c.total + 1
        working := c.working + p.isWorking.toNat
        byProtocol := c.byProtocol.addAll (protocolCounts p)
        byAnonymity := c.byAnonymity.addAll (levelCounts p)
        byCountry := c.byCountry.add (country p) 1
        errors := c.errors.addAll (errorCounts p)
        respTimes := c.respTimes ++ respTimeOf p } := by
  have errors : p.errors.foldl (fun m e => m.add e.1.asStr e.2) c.errors = c.errors.addAll (errorCounts p) := by
    rw [Tally.addAll, errorCounts, List.foldl_map]
  have working : (if p.isWorking then c.working + 1 else c.working) = c.working + p.isWorking.toNat := by
    cases p.isWorking <;> rfl
  simp only [record, foldl_recordType, errors, working, respTimeOf]
  split
  · rfl
  · rw [List.append_nil]
    rfl

/-- **Proxies in some order**: the collector holds sums over them. -/
theorem record_all (c : StatsCollector) (proxies : List Proxy) :
    proxies.foldl record c =
      { total := c.total + proxies.length
        working := c.working + proxies.countP Proxy.isWorking
        byProtocol := c.byProtocol.addAll (proxies.flatMap protocolCounts)
        byAnonymity := c.byAnonymity.addAll (proxies.flatMap levelCounts)
        byCountry := c.byCountry.addAll (proxies.map fun p => (country p, 1))
        errors := c.errors.addAll (proxies.flatMap errorCounts)
        respTimes := c.respTimes ++ proxies.flatMap respTimeOf } := by
  induction proxies generalizing c with
  | nil => simp
  | cons p proxies ih =>
    have working : c.working + p.isWorking.toNat + proxies.countP Proxy.isWorking =
        c.working + (p :: proxies).countP Proxy.isWorking := by
      rw [List.countP_cons]
      cases p.isWorking with
      | true => simp only [Bool.toNat_true, if_true]; omega
      | false => rfl
    rw [List.foldl_cons, ih, record_eq]
    simp only [working, List.length_cons, List.flatMap_cons, List.map_cons, Tally.addAll_append, Tally.addAll_cons,
      List.append_assoc]
    congr 1
    omega

theorem record_default (proxies : List Proxy) :
    proxies.foldl record StatsCollector.default =
      { total := proxies.length
        working := proxies.countP Proxy.isWorking
        byProtocol := Tally.empty.addAll (proxies.flatMap protocolCounts)
        byAnonymity := Tally.empty.addAll (proxies.flatMap levelCounts)
        byCountry := Tally.empty.addAll (proxies.map fun p => (country p, 1))
        errors := Tally.empty.addAll (proxies.flatMap errorCounts)
        respTimes := proxies.flatMap respTimeOf } := by
  simp only [record_all, StatsCollector.default, Nat.zero_add, List.nil_append]

end StatsCollector

/-! ## The result -/

/-- What `finish` reads out of sums. -/
theorem finish_counts {pr : Precision} {c : StatsCollector} {s : Stats} (h : c.finish pr = some s) :
    s.total = c.total ∧ s.working = c.working ∧ s.byProtocol = c.byProtocol ∧ s.byAnonymity = c.byAnonymity ∧
      s.byCountry = c.byCountry ∧ s.errors = c.errors := by
  obtain ⟨p50, -, h⟩ := Option.bind_eq_some_iff.1 h
  obtain ⟨p90, -, h⟩ := Option.bind_eq_some_iff.1 h
  obtain ⟨p95, -, rfl⟩ := Option.map_eq_some_iff.1 h
  exact ⟨rfl, rfl, rfl, rfl, rfl, rfl⟩

/-- No percentile panics when the number of samples is a float. -/
theorem isSome_finish {pr : Precision} {c : StatsCollector} (counted : pr.round (c.respTimes.length - 1 : ℕ) = (c.respTimes.length - 1 : ℕ)) :
    (c.finish pr).isSome := by
  have inBounds {q : ℚ} (nonneg : 0 ≤ q) (le_one : q ≤ 1) : ∃ v, percentile pr c.respTimes (pr.round q) = some v := by
    by_cases nonempty : c.respTimes = []
    · exact ⟨0, by rw [percentile, if_pos nonempty]⟩
    · exact Option.isSome_iff_exists.1 (isSome_percentile nonempty (pr.round_nonneg nonneg) (pr.round_le_one nonneg le_one) counted)
  obtain ⟨p50, half⟩ := inBounds (q := 50 / 100) (by norm_num) (by norm_num)
  obtain ⟨p90, ninety⟩ := inBounds (q := 90 / 100) (by norm_num) (by norm_num)
  obtain ⟨p95, ninetyFive⟩ := inBounds (q := 95 / 100) (by norm_num) (by norm_num)
  rw [StatsCollector.finish, half, ninety, ninetyFive]
  rfl

/-- Statistics with another mean response time. -/
def Stats.withMean (mean : ℚ) (s : Stats) : Stats := { s with avgRespTime := mean }

/-- **What the order of the proxies decides**: the mean, and in `f64` alone. -/
theorem fromProxies_withMean (pr : Precision) {checked checked' : List Proxy} (perm : checked.Perm checked') :
    Stats.fromProxies pr checked' = (Stats.fromProxies pr checked).map
      (Stats.withMean ((checked'.foldl StatsCollector.record .default).meanRespTime pr)) := by
  have times : (checked.flatMap StatsCollector.respTimeOf).Perm (checked'.flatMap StatsCollector.respTimeOf) :=
    perm.flatMap_right _
  have protocols := Tally.addAll_perm .empty (perm.flatMap_right StatsCollector.protocolCounts)
  have levels := Tally.addAll_perm .empty (perm.flatMap_right StatsCollector.levelCounts)
  have countries := Tally.addAll_perm .empty (perm.map fun p => (StatsCollector.country p, 1))
  have errors := Tally.addAll_perm .empty (perm.flatMap_right StatsCollector.errorCounts)
  rw [Stats.fromProxies, Stats.fromProxies, StatsCollector.record_default, StatsCollector.record_default]
  simp only [StatsCollector.finish, protocols, levels, countries, errors, perm.length_eq, perm.countP_eq, percentile_perm pr times,
    Option.map_bind, Option.map_map, Function.comp_def, Stats.withMean]

theorem fromProxies_perm {checked checked' : List Proxy} (perm : checked.Perm checked') :
    Stats.fromProxies .exact checked' = Stats.fromProxies .exact checked := by
  have times : (checked.flatMap StatsCollector.respTimeOf).Perm (checked'.flatMap StatsCollector.respTimeOf) :=
    perm.flatMap_right _
  have isEmpty : (checked.flatMap StatsCollector.respTimeOf).isEmpty = (checked'.flatMap StatsCollector.respTimeOf).isEmpty :=
    times.isEmpty_eq
  have mean : (checked'.foldl StatsCollector.record .default).meanRespTime .exact =
      (checked.foldl StatsCollector.record .default).meanRespTime .exact := by
    rw [StatsCollector.record_default, StatsCollector.record_default]
    simp only [StatsCollector.meanRespTime, Precision.mean_exact, isEmpty, times.sum_eq, times.length_eq]
  rw [fromProxies_withMean .exact perm, mean]
  exact (fromProxies_withMean .exact (.refl checked)).symm

open StatsCollector

theorem isWorking_eq (p : Proxy) : p.isWorking = Proto.all.any p.hasType := by
  rw [Bool.eq_iff_iff]
  simp [Proxy.isWorking, Proxy.typeKeys]

/-- A proxy counts under at most one level, and only if it counts under HTTP. -/
theorem sum_levelCounts_le (p : Proxy) :
    ((levelCounts p).map Prod.snd).sum ≤ (((protocolCounts p).filter fun e => e.1 = .http).map Prod.snd).sum := by
  have keys (keys : List Proto) :
      ((keys.filterMap fun proto => if proto = .http then (p.types proto).join.map fun lvl => (lvl, 1) else none).map Prod.snd).sum ≤
        (((keys.map fun proto => (proto, 1)).filter fun e => e.1 = .http).map Prod.snd).sum := by
    induction keys with
    | nil => simp
    | cons proto keys ih =>
      by_cases http : proto = .http
      · cases level : (p.types .http).join with
        | none => simp [http, level]; omega
        | some lvl => simp [http, level]; omega
      · simpa [http] using ih
  exact keys p.typeKeys

theorem sum_flatMap_le {α β γ : Type} {f : α → List (β × ℕ)} {g : α → List (γ × ℕ)}
    (le : ∀ a, ((f a).map Prod.snd).sum ≤ ((g a).map Prod.snd).sum) (l : List α) :
    ((l.flatMap f).map Prod.snd).sum ≤ ((l.flatMap g).map Prod.snd).sum := by
  induction l with
  | nil => simp
  | cons a l ih =>
    simp only [List.flatMap_cons, List.map_append, List.sum_append]
    exact Nat.add_le_add (le a) ih

/-- **Statistics do not depend on the order of the checks**, in exact arithmetic. `finish` never panics and reads the same from
the checked proxies in any order. The countries sum to the total; the working ones are those with a
confirmed type; the levels sum to no more than the confirmed HTTP; and the error histogram sums to the
error counts of the proxies, as long as these fit in `u32`. -/
theorem stats_of_any_order (checked checked' : List Proxy) (perm : checked.Perm checked') :
    Stats.fromProxies .exact checked' = Stats.fromProxies .exact checked ∧
      ∃ s, Stats.fromProxies .exact checked = some s ∧ s.total = checked.length ∧ s.byCountry.total = s.total ∧
        s.working ≤ s.total ∧ s.working = checked.countP (fun p => Proto.all.any p.hasType) ∧
        s.byAnonymity.total ≤ (s.byProtocol.get? .http).getD 0 ∧
        ((checked.map fun p => (p.errors.map fun e => e.2.toNat).sum).sum < 2 ^ 32 →
          s.errors.weight UInt32.toNat = (checked.map fun p => (p.errors.map fun e => e.2.toNat).sum).sum) := by
  refine ⟨fromProxies_perm perm, ?_⟩
  obtain ⟨s, finished⟩ : ∃ s, (checked.foldl record StatsCollector.default).finish .exact = some s :=
    Option.isSome_iff_exists.1 (isSome_finish rfl)
  obtain ⟨total, working, byProtocol, byAnonymity, byCountry, errors⟩ := finish_counts finished
  rw [record_default] at total working byProtocol byAnonymity byCountry errors
  refine ⟨s, finished, total, ?_, ?_, ?_, ?_, ?_⟩
  · rw [byCountry, total, Tally.total_addAll, Tally.total_empty, List.map_map]
    simp [Function.comp_def]
  · rw [working, total]
    exact List.countP_le_length
  · rw [working, ← funext isWorking_eq]
  · rw [byAnonymity, byProtocol, Tally.total_addAll, Tally.getD_addAll, List.filter_flatMap]
    have empty : ((Tally.empty : Tally Proto ℕ).get? .http).getD 0 = 0 := rfl
    rw [empty, Tally.total_empty, Nat.zero_add, Nat.zero_add]
    exact sum_flatMap_le sum_levelCounts_le checked
  · intro small
    have same : ((checked.flatMap errorCounts).map fun e => e.2.toNat).sum =
        (checked.map fun p => (p.errors.map fun e => e.2.toNat).sum).sum := by
      simp [List.flatMap, errorCounts, List.sum_flatten, Function.comp_def]
    have empty : (Tally.empty : Tally Text UInt32).weight UInt32.toNat = 0 := rfl
    rw [← same] at small ⊢
    rw [errors, Tally.weight_addAll, empty, Nat.zero_add]
    rw [empty, Nat.zero_add]
    exact small

/-- A proxy that failed once after it was confirmed. -/
theorem stats_of_any_order_two :
    Stats.fromProxies .exact [(httpProxy 80).recordAttempt none (some .timeout), httpProxy 81] =
        Stats.fromProxies .exact [httpProxy 81, (httpProxy 80).recordAttempt none (some .timeout)] ∧
      ∃ s, Stats.fromProxies .exact [httpProxy 81, (httpProxy 80).recordAttempt none (some .timeout)] = some s ∧ s.total = 2 ∧
        s.byCountry.total = s.total ∧ s.working ≤ s.total ∧
        s.working = [httpProxy 81, (httpProxy 80).recordAttempt none (some .timeout)].countP (fun p => Proto.all.any p.hasType) ∧
        s.byAnonymity.total ≤ (s.byProtocol.get? .http).getD 0 ∧
        (1 < 2 ^ 32 → s.errors.weight UInt32.toNat = 1) :=
  stats_of_any_order [httpProxy 81, (httpProxy 80).recordAttempt none (some .timeout)]
    [(httpProxy 80).recordAttempt none (some .timeout), httpProxy 81] (.swap _ _ [])

end ProxyBroker
