import Mathlib.Data.List.Chain
import ProxyBroker.Checker.Check

/-!
# The accounts of a check

Every attempt is recorded once, whatever becomes of it, and the next one is made only after an error the policy
retries. `Tried` says this of the loop of `check_one` and `Accounted` of the loop of `check`; each is proved by
induction on the rounds that are left.
-/

namespace ProxyBroker
open Lib

/-- The sum may begin one higher. -/
theorem Proxy.errorTotal_start (l : List (ProxyError × UInt32)) (total : UInt32) :
    l.foldl (fun total e => total + e.2) (total + 1) = l.foldl (fun total e => total + e.2) total + 1 := by
  induction l generalizing total with
  | nil => rfl
  | cons x l ih =>
    have swap : total + 1 + x.2 = total + x.2 + 1 := by rw [UInt32.add_assoc, UInt32.add_comm 1, UInt32.add_assoc]
    rw [List.foldl_cons, List.foldl_cons, swap, ih]

/-- One more error. -/
theorem Proxy.errorTotal_bump (e : ProxyError) (l : List (ProxyError × UInt32)) (total : UInt32) :
    (bump e l).foldl (fun total e => total + e.2) total = l.foldl (fun total e => total + e.2) total + 1 := by
  induction l generalizing total with
  | nil => simp [bump]
  | cons x l ih =>
    obtain ⟨k, n⟩ := x
    by_cases here : k = e
    · have more : total + (n + 1) = total + n + 1 := (UInt32.add_assoc total n 1).symm
      simp only [bump, if_pos here, List.foldl_cons]
      rw [more, errorTotal_start]
    · rw [bump, if_neg here, List.foldl_cons, List.foldl_cons, ih]

theorem Proxy.errorTotal_failed (p : Proxy) (e : ProxyError) :
    (p.recordAttempt none (some e)).errorTotal = p.errorTotal + 1 := by
  have errors : (p.recordAttempt none (some e)).errors = bump e p.errors := rfl
  rw [Proxy.errorTotal, errors, Proxy.errorTotal_bump, Proxy.errorTotal]

namespace Checker
variable {c : Checker} {net : Net} {proto : Proto} {p : Proxy}

/-- The attempt found the proxy working. -/
def working : Except ProxyError Attempt → Bool
  | .ok (.working _) => true
  | _ => false

/-- What a call confirms: the level of its last attempt, if that one found the proxy working. -/
def found (outcomes : List (Except ProxyError Attempt)) : Option (Option AnonLevel) :=
  match outcomes.getLast? with
  | some (.ok (.working obs)) => some obs.level
  | _ => none

/-- Every attempt but the last ended in an error that is retried. -/
def Retried (policy : RetryPolicy) (outcomes : List (Except ProxyError Attempt)) : Prop :=
  outcomes.IsChain fun o _ => ∃ e ∈ policy.retryOn, o = .error e

/-- The accounts of a call of `check_one`. -/
structure Tried (c : Checker) (proto : Proto) (p : Proxy) (rounds : Nat) (r : Probed) : Prop where
  few : r.outcomes.length ≤ rounds
  retried : Retried c.retry r.outcomes
  requests : r.proxy.requests = p.requests + UInt32.ofNat r.outcomes.length
  errors : r.proxy.errorTotal = p.errorTotal + UInt32.ofNat (r.outcomes.countP fun o => !working o)
  types : ∀ q, r.proxy.types q = if q = proto then (found r.outcomes).or (p.types q) else p.types q
  works : ∀ b, r.works = some b → b = (found r.outcomes).isSome

theorem tried_nothing : Tried c proto p 0 ⟨some false, p, []⟩ :=
  ⟨le_rfl, List.isChain_nil, by simp, by simp, by simp [found], by simp [found]⟩

theorem Tried.mono {m n : Nat} {r : Probed} (tried : Tried c proto p m r) (le : m ≤ n) : Tried c proto p n r :=
  { tried with few := tried.few.trans le }

theorem confirm_errorTotal (p : Proxy) (rtt : ℚ) (obs : Observation) :
    (confirm p proto rtt obs).errorTotal = p.errorTotal := by
  simp only [confirm, Proxy.errorTotal, Proxy.recordTrust, Proxy.recordCaps, Proxy.addType, Proxy.recordProbeLatency,
    Proxy.recordAttempt]

theorem confirm_types (p : Proxy) (rtt : ℚ) (obs : Observation) (q : Proto) :
    (confirm p proto rtt obs).types q = if q = proto then some obs.level else p.types q := rfl

/-- An attempt with which the loop ends. -/
theorem tried_last {o : Except ProxyError Attempt} {q : Proxy} {works : Option Bool} (requests : q.requests = p.requests + 1)
    (errors : q.errorTotal = p.errorTotal + if working o then 0 else 1)
    (types : ∀ r, q.types r = if r = proto then (found [o]).or (p.types r) else p.types r)
    (verdict : ∀ b, works = some b → b = (found [o]).isSome) : Tried c proto p 1 ⟨works, q, [o]⟩ := by
  refine ⟨le_rfl, List.isChain_singleton o, requests, ?_, types, verdict⟩
  rw [errors]
  cases ends : working o <;> simp [ends]

theorem found_cons {o : Except ProxyError Attempt} {outcomes : List (Except ProxyError Attempt)} (failed : working o = false) :
    found (o :: outcomes) = found outcomes := by
  cases outcomes with
  | nil => rcases o with e | (obs | _) <;> simp_all [found, working]
  | cons x l => simp [found]

theorem ofNat_succ (x : UInt32) (n : Nat) : x + UInt32.ofNat (n + 1) = x + 1 + UInt32.ofNat n := by
  rw [UInt32.ofNat_add, UInt32.add_assoc, UInt32.add_comm 1]
  rfl

theorem countP_working {o : Except ProxyError Attempt} {outcomes : List (Except ProxyError Attempt)} (failed : working o = false) :
    (o :: outcomes).countP (fun o => !working o) = outcomes.countP (fun o => !working o) + 1 := by
  simp [failed]

/-- An error that is retried, and the rest. -/
theorem Tried.after {e : ProxyError} {rounds : Nat} {r : Probed} (retry : e ∈ c.retry.retryOn)
    (tried : Tried c proto (p.recordAttempt none (some e)) rounds r) : Tried c proto p (rounds + 1) (r.after (.error e)) := by
  refine ⟨?_, ?_, ?_, ?_, ?_, ?_⟩
  · simpa [Probed.after] using tried.few
  · have chain := tried.retried
    unfold Retried at chain ⊢
    cases rest : r.outcomes with
    | nil => simp [Probed.after, rest]
    | cons x l =>
      rw [rest] at chain
      simp only [Probed.after, rest]
      exact List.isChain_cons_cons.2 ⟨⟨e, retry, rfl⟩, chain⟩
  · have counted : r.proxy.requests = p.requests + 1 + UInt32.ofNat r.outcomes.length := tried.requests
    simp only [Probed.after, List.length_cons]
    rw [counted, ofNat_succ]
  · have counted := tried.errors
    rw [Proxy.errorTotal_failed] at counted
    simp only [Probed.after]
    rw [countP_working rfl, counted, ofNat_succ]
  · intro q
    have types := tried.types q
    simp only [Probed.after]
    rw [found_cons rfl]
    exact types
  · intro b returns
    have works := tried.works b returns
    simp only [Probed.after]
    rw [found_cons rfl]
    exact works

/-- **The loop of `check_one`.** -/
theorem tried_retryLoop (left i k : Nat) (p : Proxy) : Tried c proto p left (retryLoop c net proto left i k p) := by
  induction left generalizing i k p with
  | zero => exact tried_nothing
  | succ left ih =>
    have alone {r : Probed} (tried : Tried c proto p 1 r) : Tried c proto p (left + 1) r := tried.mono (by omega)
    unfold retryLoop
    split
    · rename_i obs _
      exact alone (tried_last rfl (by simp [working, confirm_errorTotal]) (by simp [found, confirm_types]) (by simp [found]))
    · exact alone (tried_last rfl (by simp [working, Proxy.errorTotal_failed]) (by simp [found]) (by simp [found]))
    · rename_i e _
      have failed (works : Option Bool) (no : works ≠ some true) :
          Tried c proto p 1 ⟨works, p.recordAttempt none (some e), [.error e]⟩ := by
        refine tried_last rfl (by simp [working, Proxy.errorTotal_failed]) (by simp [found]) ?_
        rintro (_ | _) rfl
        · rfl
        · exact absurd rfl no
      dsimp only
      split
      · rename_i more
        split
        · exact (ih _ _ _).after more.1
        · exact alone (failed none (by simp))
      · exact alone (failed (some false) (by simp))

theorem tried_checkOne (c : Checker) (net : Net) (proto : Proto) (k : Nat) (p : Proxy) :
    Tried c proto p c.retry.maxTries (checkOne c net proto k p) := by
  unfold checkOne
  split
  · exact tried_nothing.mono (Nat.zero_le _)
  · exact tried_retryLoop _ _ _ _

/-! ## The loop of `check` -/

/-- All attempts, in order. -/
def attempts (calls : List Call) : List (Except ProxyError Attempt) := calls.flatMap Call.outcomes

/-- The accounts of the calls made for `protos`. -/
structure Accounted (c : Checker) (p : Proxy) (protos : List Proto) (any : Bool) (r : Surveyed) : Prop where
  few : ∀ call ∈ r.calls, call.outcomes.length ≤ c.retry.maxTries
  retried : ∀ call ∈ r.calls, Retried c.retry call.outcomes
  requests : r.proxy.requests = p.requests + UInt32.ofNat (attempts r.calls).length
  errors : r.proxy.errorTotal = p.errorTotal + UInt32.ofNat ((attempts r.calls).countP fun o => !working o)
  types : ∀ call ∈ r.calls, r.proxy.types call.proto = (found call.outcomes).or (p.types call.proto)
  others : ∀ q, q ∉ r.calls.map Call.proto → r.proxy.types q = p.types q
  order : r.calls.map Call.proto <+: protos
  all : r.any ≠ none → r.calls.map Call.proto = protos
  works : ∀ b, r.any = some b → b = (any || r.calls.any fun call => (found call.outcomes).isSome)

/-- A call that does not return is the last. -/
theorem accounted_last {rest : List Proto} {any : Bool} {one : Probed} (tried : Tried c proto p c.retry.maxTries one) :
    Accounted c p (proto :: rest) any ⟨none, one.proxy, [⟨proto, one.outcomes⟩]⟩ where
  few := by simpa using tried.few
  retried := by simpa using tried.retried
  requests := by simpa [attempts] using tried.requests
  errors := by simpa [attempts] using tried.errors
  types := by simpa using tried.types proto
  others q other := by
    have types := tried.types q
    rwa [if_neg (by simpa using other)] at types
  order := by simp
  all := by simp
  works := by simp

/-- A call, and the rest. -/
theorem Accounted.after {rest : List Proto} {any works : Bool} {one : Probed} {r : Surveyed}
    (tried : Tried c proto p c.retry.maxTries one) (returned : one.works = some works) (new : proto ∉ rest)
    (accounted : Accounted c one.proxy rest (any || works) r) :
    Accounted c p (proto :: rest) any (r.after ⟨proto, one.outcomes⟩) := by
  have later : proto ∉ r.calls.map Call.proto := fun mem => new (accounted.order.subset mem)
  refine ⟨?_, ?_, ?_, ?_, ?_, ?_, ?_, ?_, ?_⟩
  · simpa [Surveyed.after] using ⟨tried.few, accounted.few⟩
  · simpa [Surveyed.after] using ⟨tried.retried, accounted.retried⟩
  · rw [Surveyed.after, accounted.requests, tried.requests]
    simp [attempts, UInt32.ofNat_add, UInt32.add_assoc]
  · rw [Surveyed.after, accounted.errors, tried.errors]
    simp [attempts, UInt32.ofNat_add, UInt32.add_assoc]
  · intro call mem
    rcases List.mem_cons.1 mem with rfl | old
    · have own := tried.types proto
      rw [if_pos rfl] at own
      exact (accounted.others proto later).trans own
    · have other : call.proto ≠ proto := by
        rintro rfl
        exact later (List.mem_map_of_mem old)
      have before := tried.types call.proto
      rw [if_neg other] at before
      rw [← before]
      exact accounted.types call old
  · intro q other
    simp only [Surveyed.after, List.map_cons, List.mem_cons, not_or] at other
    have before := tried.types q
    rw [if_neg other.1] at before
    rw [← before]
    exact accounted.others q other.2
  · simpa [Surveyed.after, List.prefix_cons_inj] using accounted.order
  · intro returns
    simp only [Surveyed.after, List.map_cons]
    rw [accounted.all returns]
  · intro b returns
    rw [accounted.works b returns, tried.works works returned]
    simp [Surveyed.after, Bool.or_assoc]

/-- **The loop of `check`.** -/
theorem accounted_survey {protos : List Proto} (nodup : protos.Nodup) (any : Bool) (k : Nat) (p : Proxy) :
    Accounted c p protos any (survey c net protos any k p) := by
  induction protos generalizing any k p with
  | nil =>
    exact ⟨by simp [survey], by simp [survey], by simp [survey, attempts], by simp [survey, attempts], by simp [survey],
      by simp [survey], by simp [survey], by simp [survey], by simp [survey]⟩
  | cons proto rest ih =>
    obtain ⟨new, nodup⟩ := List.nodup_cons.1 nodup
    have tried := tried_checkOne c net proto k p
    unfold survey
    dsimp only
    split
    · rename_i works returned
      exact Accounted.after tried returned new (ih nodup _ _ _)
    · exact accounted_last tried

/-! ## A check returns -/

/-- No delay before a retry is too long for a `Duration`. -/
def Delays (c : Checker) (net : Net) : Prop :=
  ∀ k i, i + 1 < c.retry.maxTries → (c.retry.backoffFor net.powi (net.draw k) i).isSome = true

theorem delays_of_zero (zero : c.retry.backoff = 0) : Delays c net := by
  intro k i _
  simp [RetryPolicy.backoffFor, zero]

/-- A cap that is a duration keeps every delay a duration. -/
theorem delays_of_cap (capped : c.retry.maxBackoff ≠ 0) (fits : (fromSecsF64 (asSecsF64 c.retry.maxBackoff)).isSome = true) :
    Delays c net := by
  intro k i _
  unfold RetryPolicy.backoffFor
  split
  · rfl
  · -- `split` has used that there is a cap
    exact Double.clamped_toDuration (asSecsF64_nonneg _) fits _

theorem retryLoop_returns (delays : Delays c net) (left i k : Nat) (p : Proxy) :
    (retryLoop c net proto left i k p).works ≠ none := by
  induction left generalizing i k p with
  | zero => simp [retryLoop]
  | succ left ih =>
    unfold retryLoop
    split
    · simp
    · simp
    · dsimp only
      split
      · rename_i more
        split
        · exact ih _ _ _
        · rename_i none
          have delay := delays k i more.2
          rw [none] at delay
          cases delay
      · simp

theorem survey_returns (delays : Delays c net) (protos : List Proto) (any : Bool) (k : Nat) (p : Proxy) :
    (survey c net protos any k p).any ≠ none := by
  induction protos generalizing any k p with
  | nil => simp [survey]
  | cons proto rest ih =>
    unfold survey
    dsimp only
    split
    · exact ih _ _ _
    · rename_i none
      unfold checkOne at none
      split at none
      · cases none
      · exact absurd none (retryLoop_returns delays _ _ _ _)

/-! ## The check -/

theorem nodup_ngtrs (c : Checker) (p : Proxy) : (ngtrs c p).Nodup := by
  have all : Proto.all.Nodup := by decide
  exact List.Pairwise.filter _ all

theorem Proto.mem_all (proto : Proto) : proto ∈ Proto.all := by
  cases proto <;> decide

theorem mem_ngtrs {q : Proto} :
    q ∈ ngtrs c p ↔ (∃ spec ∈ c.requested, spec.proto = q) ∧ (p.expectedTypes = [] ∨ q ∈ p.expectedTypes) := by
  simp [ngtrs, Proto.mem_all]

theorem foldl_removeType (l : List Proto) (p : Proxy) :
    (l.foldl Proxy.removeType p).requests = p.requests ∧ (l.foldl Proxy.removeType p).errors = p.errors ∧
      ∀ q, (l.foldl Proxy.removeType p).types q = if q ∈ l then none else p.types q := by
  induction l generalizing p with
  | nil => exact ⟨rfl, rfl, by simp⟩
  | cons x l ih =>
    obtain ⟨requests, errors, types⟩ := ih (p.removeType x)
    refine ⟨requests, errors, fun q => ?_⟩
    rw [List.foldl_cons, types q]
    by_cases here : q = x <;> simp [Proxy.removeType, here]

/-- The verdict leaves the counters alone. -/
theorem typesPassed_counters (c : Checker) (p : Proxy) :
    (typesPassed c p).2.requests = p.requests ∧ (typesPassed c p).2.errors = p.errors := by
  unfold typesPassed
  split
  · exact ⟨rfl, rfl⟩
  · dsimp only
    split
    · have removed := foldl_removeType
        (((confirmed p).filter fun t => !levelMatches (requestedLevels c.requested t.1) t.2).map Prod.fst) p
      exact ⟨removed.1, removed.2.1⟩
    · exact ⟨rfl, rfl⟩

/-- The verdict comes after the calls. -/
theorem conclude_spec (c : Checker) (all : Surveyed) :
    (conclude c all).calls = all.calls ∧ (conclude c all).proxy.requests = all.proxy.requests ∧
      (conclude c all).proxy.errors = all.proxy.errors ∧ ((conclude c all).passed = none ↔ all.any = none) := by
  have counters := typesPassed_counters c all.proxy
  unfold conclude
  split
  · rename_i panics
    simp [panics]
  · rename_i returns
    simp [returns]
  · rename_i returns
    simp [returns, counters]

/-- **The accounts of a check.** For every policy, request and reply of the network: no protocol is tried more often
than the policy says, a try follows only an error that is retried, `requests` grows by the tries and the error
histogram by those that did not find the proxy working, and a protocol is confirmed by its last try. A proxy in a
block list is rejected and not tried; any other is tried on the protocols that are requested and expected, on each once,
unless the check panics. That does not happen while every delay before a retry is a `Duration`. -/
theorem retry_accounting (c : Checker) (net : Net) (p : Proxy) :
    (∀ call ∈ (check c net p).calls, call.outcomes.length ≤ c.retry.maxTries ∧ Retried c.retry call.outcomes) ∧
    (check c net p).proxy.requests = p.requests + UInt32.ofNat (attempts (check c net p).calls).length ∧
    (check c net p).proxy.errorTotal =
      p.errorTotal + UInt32.ofNat ((attempts (check c net p).calls).countP fun o => !working o) ∧
    (listed c net p.host = true → (check c net p).passed = some false ∧ (check c net p).calls = []) ∧
    (listed c net p.host = false → (∀ call ∈ (check c net p).calls,
        (surveyed c net p).proxy.types call.proto = (found call.outcomes).or (p.types call.proto)) ∧
      ((check c net p).passed.isSome = true → (check c net p).calls.map Call.proto = ngtrs c p) ∧
      (Delays c net → (check c net p).passed.isSome = true)) ∧
    (ngtrs c p).Nodup ∧
    ∀ q, q ∈ ngtrs c p ↔ (∃ spec ∈ c.requested, spec.proto = q) ∧ (p.expectedTypes = [] ∨ q ∈ p.expectedTypes) := by
  unfold check
  split
  · rename_i listed
    exact ⟨by simp, by simp [attempts], by simp [attempts], by simp, by simp [listed], nodup_ngtrs c p, fun q => mem_ngtrs⟩
  · rename_i unlisted
    obtain ⟨calls, requests, errors, panics⟩ := conclude_spec c (surveyed c net p)
    have accounted : Accounted c p (ngtrs c p) false (surveyed c net p) := accounted_survey (nodup_ngtrs c p) false 0 p
    rw [calls, requests]
    refine ⟨fun call mem => ⟨accounted.few call mem, accounted.retried call mem⟩, accounted.requests, ?_, ?_, ?_,
      nodup_ngtrs c p, fun q => mem_ngtrs⟩
    · rw [← accounted.errors]
      unfold Proxy.errorTotal
      rw [errors]
    · exact fun impossible => absurd impossible unlisted
    · refine fun _ => ⟨accounted.types, fun returns => ?_, fun delays => ?_⟩
      · exact accounted.all (panics.not.1 (Option.isSome_iff_ne_none.1 returns))
      · exact Option.isSome_iff_ne_none.2 (panics.not.2 (survey_returns delays _ _ _ _))

/-- A checker of HTTP with a block list. -/
def guarded : Checker := ⟨[.any .http], false, .default, ["zone".toList], fun _ => 1, .judged⟩

/-- A network in which every name resolves. -/
def everyName : Net := ⟨fun _ => .failed .timeout, fun _ => 0, fun _ => 0, fun x _ => x, fun _ => true⟩

example : Delays guarded everyName := delays_of_zero rfl

/-- An exponential delay with a cap of a minute. -/
example : Delays { guarded with retry := ⟨9, [.timeout], 10 ^ 9, .finite 2, .finite 0, 60 * 10 ^ 9⟩ } everyName :=
  delays_of_cap (by decide) (by decide +kernel)

/-- A proxy in a block list is not checked on any protocol. -/
theorem listed_unchecked :
    ngtrs guarded (httpProxy 80) = [.http] ∧ (check guarded everyName (httpProxy 80)).passed = some false ∧
      (check guarded everyName (httpProxy 80)).calls.map Call.proto = [] := by
  decide +kernel

end Checker
end ProxyBroker
