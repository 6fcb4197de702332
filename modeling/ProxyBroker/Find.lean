import ProxyBroker.Broker.Limit
import ProxyBroker.Broker.Source
import ProxyBroker.Checker.Verdict
import ProxyBroker.Persist.Durable
import ProxyBroker.Scheduler.Recheck
import ProxyBroker.Stats

/-!
# A whole `find`, with its store (`broker.rs:find_task`, `bin/proxybroker.rs:open_state`)

The source of `find_task` has every address once, so a run of the pipeline checks every address once at most: the proxies
it yields have different addresses, and each is the verdict of `Checker::check` on the first candidate of its address. The
observer of `--state` folds each verdict into the record of its address, and with one verdict for an address the order in
which the checks end does not matter (`find_remembers`).
-/

namespace ProxyBroker.Broker
open Lib Persist

/-- What `StatsCollector::record` was called with. -/
def Event.recorded? : Event → Option (Nat × Proxy)
  | .recorded k p => some (k, p)
  | _ => none

/-- What the observer was called with. -/
def Event.observed? : Event → Option (Nat × Proxy)
  | .observed k p => some (k, p)
  | _ => none

/-- What was recorded, in order. -/
def Shared.records (sh : Shared) : List (Nat × Proxy) := sh.log.filterMap Event.recorded?

/-- What was observed, in order. -/
def Shared.observations (sh : Shared) : List (Nat × Proxy) := sh.log.filterMap Event.observed?

/-- A mark that every checked proxy gets once, before it is sent. -/
structure Marks (job : Job) (f : Event → Option (Nat × Proxy)) : Prop where
  own : ∀ e m, f e = some m → m.1 = e.item
  sent : ∀ k p, f (.sent k p) = none
  once : ∀ k v, (looked job k v).filterMap f = [(k, v.proxy)]

theorem marks_recorded (job : Job) : Marks job Event.recorded? where
  own e m picked := by
    cases e with
    | recorded k p => cases picked; rfl
    | observed => cases picked
    | sent => cases picked
  sent _ _ := rfl
  once k v := by
    unfold looked
    cases job.onChecked <;> rfl

theorem marks_observed {job : Job} (on : job.onChecked = true) : Marks job Event.observed? where
  own e m picked := by
    cases e with
    | observed k p => cases picked; rfl
    | recorded => cases picked
    | sent => cases picked
  sent _ _ := rfl
  once k v := by
    rw [looked, on]
    rfl

section Marked

variable {job : Job} {f : Event → Option (Nat × Proxy)} {s : State} {k : Nat} {p q : Proxy} {ph : Phase} {v : Verdict}

/-- The marks of item `k` are those among the events about it. -/
theorem Marks.about (marks : Marks job f) {sh : Shared} : (k, p) ∈ sh.log.filterMap f ↔ (k, p) ∈ (sh.about k).filterMap f := by
  rw [List.mem_filterMap, List.mem_filterMap]
  apply exists_congr
  intro e
  rw [Shared.about, List.mem_filter]
  constructor
  · rintro ⟨mem, picked⟩
    exact ⟨⟨mem, decide_eq_true (marks.own e _ picked).symm⟩, picked⟩
  · rintro ⟨⟨mem, -⟩, picked⟩
    exact ⟨mem, picked⟩

/-- How often item `k` was marked. -/
theorem Marks.count (marks : Marks job f) (log : List Event) (k : Nat) :
    ((log.filterMap f).map Prod.fst).count k = ((log.filter fun e => e.item = k).filterMap f).length := by
  induction log with
  | nil => rfl
  | cons e log ih =>
    by_cases own : e.item = k
    · rw [List.filter_cons_of_pos (by simpa using own)]
      cases picked : f e with
      | none => rw [List.filterMap_cons_none picked, List.filterMap_cons_none picked, ih]
      | some m =>
        have same : m.1 = k := (marks.own e m picked).trans own
        rw [List.filterMap_cons_some picked, List.filterMap_cons_some picked, List.map_cons, same, List.count_cons_self, ih,
          List.length_cons]
    · rw [List.filter_cons_of_neg (by simpa using own), ← ih]
      cases picked : f e with
      | none => rw [List.filterMap_cons_none picked]
      | some m =>
        have other : m.1 ≠ k := fun same => own ((marks.own e m picked).symm.trans same)
        rw [List.filterMap_cons_some picked, List.map_cons, List.count_cons_of_ne other]

/-- A check marks its verdict, or nothing yet. -/
theorem Marks.history (marks : Marks job f) (k : Nat) (v : Verdict) (ph : Phase) :
    (ph.history job k v).filterMap f <+: [(k, v.proxy)] := by
  have whole : (looked job k v).filterMap f <+: [(k, v.proxy)] := by rw [marks.once]
  have ended (o : Outcome) : ((Phase.left o).history job k v).filterMap f <+: [(k, v.proxy)] := by
    cases o with
    | aborted => exact List.nil_prefix
    | sent =>
      show (looked job k v ++ [Event.sent k v.proxy]).filterMap f <+: _
      rw [List.filterMap_append, List.filterMap_cons_none (marks.sent k v.proxy), List.filterMap_nil, List.append_nil]
      exact whole
    | rejected => exact whole
    | refused => exact whole
    | undelivered => exact whole
  cases ph with
  | checking q => exact List.nil_prefix
  | recording w => exact List.nil_prefix
  | observing w =>
    have first : [Event.recorded k v.proxy] <+: looked job k v := List.cons_prefix_cons.2 ⟨rfl, List.nil_prefix⟩
    exact (first.filterMap f).trans whole
  | filtering w => exact whole
  | reserving q => exact whole
  | sending q n => exact whole
  | cancelling o => exact ended o
  | finishing o => exact ended o
  | leaving o => exact ended o
  | left o => exact ended o

/-- An item is marked once at most. -/
theorem Marks.nodup (marks : Marks job f) (inv : Invariant job s) : ((s.shared.log.filterMap f).map Prod.fst).Nodup := by
  rw [List.nodup_iff_count_le_one]
  intro k
  rw [marks.count, ← Shared.about]
  by_cases inside : k < s.tasks.length
  · obtain ⟨q, -, -, history⟩ := inv.works k _ (List.getElem?_eq_getElem inside)
    rw [history]
    exact (marks.history k _ _).length_le
  · rw [inv.fresh k (Nat.le_of_not_lt inside)]
    exact Nat.zero_le 1

/-- What is marked is the verdict on an item of the source. -/
theorem Marks.verdict (marks : Marks job f) (inv : Invariant job s) (mem : (k, p) ∈ s.shared.log.filterMap f) :
    ∃ q, job.source.get? k = some q ∧ p = (job.check k q).proxy := by
  rw [marks.about] at mem
  have inside : k < s.tasks.length := by
    by_contra beyond
    rw [inv.fresh k (Nat.le_of_not_lt beyond)] at mem
    cases mem
  obtain ⟨q, item, -, history⟩ := inv.works k _ (List.getElem?_eq_getElem inside)
  rw [history] at mem
  have own := List.mem_singleton.1 ((marks.history k _ _).subset mem)
  exact ⟨q, item, (Prod.mk.inj own).2⟩

/-- What is sent is the verdict on an item that passes, and is marked before. -/
theorem Invariant.emitted_verdict (inv : Invariant job s) (mem : (k, p) ∈ s.shared.emissions) :
    (∃ q, job.source.get? k = some q ∧ p = (job.check k q).proxy ∧ job.passes (job.check k q) = true) ∧
      ∀ f, Marks job f → (k, p) ∈ s.shared.log.filterMap f := by
  obtain ⟨e, at_e, picked⟩ := List.mem_filterMap.1 mem
  obtain ⟨before, after, log⟩ := List.append_of_mem at_e
  cases e with
  | sent j r =>
    cases picked
    obtain ⟨q, item, same, passes, first, -⟩ := inv.sent_once log
    refine ⟨⟨q, item, same, passes⟩, fun f marks => ?_⟩
    rw [marks.about, Shared.about, log, List.filter_append, first, List.filterMap_append, marks.once, same]
    exact List.mem_append_left _ (List.mem_singleton_self _)
  | recorded => cases picked
  | observed => cases picked

/-- When the token never fired, every item is marked in the end. -/
theorem Marks.all (marks : Marks job f) (inv : Invariant job s) (ended : s.driver = .ended) (alive : s.shared.cancelled = false)
    (room : job.full s.shared.sent = false) (item : job.source.get? k = some q) :
    (k, (job.check k q).proxy) ∈ s.shared.log.filterMap f := by
  have driver := inv.driver
  rw [State.DriverSound, ended] at driver
  obtain ⟨stopped, left⟩ := driver
  have inside : k < s.tasks.length := by
    rcases stopped with fired | full | exhausted
    · rw [alive] at fired
      cases fired
    · rw [room] at full
      cases full
    · by_contra beyond
      rw [job.source.le_stable (Nat.le_of_not_lt beyond) exhausted] at item
      cases item
  obtain ⟨r, at_r, sound, history⟩ := inv.works k _ (List.getElem?_eq_getElem inside)
  rw [item] at at_r
  cases at_r
  have gone := List.all_eq_true.1 left _ (List.getElem_mem inside)
  rw [marks.about, history]
  have seen : (k, (job.check k q).proxy) ∈ (looked job k (job.check k q)).filterMap f := by
    rw [marks.once]
    exact List.mem_singleton_self _
  revert sound gone
  generalize s.tasks[k] = ph
  cases ph with
  | left o =>
    intro sound gone
    cases o with
    | aborted =>
      have fired : s.shared.cancelled = true := sound
      rw [alive] at fired
      cases fired
    | sent =>
      rw [Phase.history, List.filterMap_append]
      exact List.mem_append_left _ seen
    | rejected => exact seen
    | refused => exact seen
    | undelivered => exact seen
  | _ => intro _ gone; cases gone

end Marked

/-! ## What a `find` checks -/

/-- The verdicts are those of a checker; `net a` is what the check of the proxy at `a` meets. -/
def Job.Checks (job : Job) (c : Checker) (net : Addr → Checker.Net) : Prop :=
  ∀ k p, job.source.get? k = some p → (c.check (net p.addr) p).passed = some (job.check k p).working ∧
    (c.check (net p.addr) p).proxy = (job.check k p).proxy

/-- The proxy that is checked for an address: that of the first candidate with the address, if the country filter lets it
through. -/
def candidateAt (toUppercase : Text → Text) (dbs : Databases) (countries : Option (List Text)) (cands : List Candidate) (a : Addr) :
    Option Proxy :=
  (cands.find? fun b => b.addr = some a).bind (admitted toUppercase dbs countries)

section Candidates

variable {toUppercase : Text → Text} {dbs : Databases} {countries : Option (List Text)} {cands : List Candidate} {a : Addr} {p : Proxy}

theorem candidateAt_addr (found : candidateAt toUppercase dbs countries cands a = some p) : p.addr = a := by
  obtain ⟨cand, first, kept⟩ := Option.bind_eq_some_iff.1 found
  obtain ⟨addr, keyed, -, rfl⟩ := admitted_some.1 kept
  have own : cand.addr = some a := by simpa using List.find?_some first
  rw [made_addr]
  exact Option.some.inj (keyed.symm.trans own)

/-- The source holds the proxy that is checked for each address, and nothing else. -/
theorem mem_source_iff : p ∈ sourceFrom toUppercase dbs countries [] cands ↔ candidateAt toUppercase dbs countries cands p.addr = some p := by
  rw [sourceFrom_eq, List.mem_filterMap]
  constructor
  · rintro ⟨cand, mem, kept⟩
    obtain ⟨addr, -, first⟩ := mem_firsts.1 mem
    have found : candidateAt toUppercase dbs countries cands addr = some p := by
      rw [candidateAt, first]
      exact kept
    rw [candidateAt_addr found]
    exact found
  · intro found
    obtain ⟨cand, first, kept⟩ := Option.bind_eq_some_iff.1 found
    exact ⟨cand, mem_firsts.2 ⟨p.addr, List.not_mem_nil, first⟩, kept⟩

end Candidates

/-- The arguments of `find_task`, with the batches of candidates that come in. -/
structure Search where
  toUppercase : Text → Text
  dbs : Databases
  countries : Option (List Text)
  batches : List (List Candidate)
  check : Nat → Proxy → Verdict
  maxConn : Nat
  limit : Option Nat
  caps : CapsFilter
  onChecked : Bool

namespace Search

/-- The call of `check_stream`. -/
def job (f : Search) : Job :=
  findTask f.toUppercase f.dbs f.countries f.batches f.check f.maxConn f.limit f.caps f.onChecked

/-- The proxies that are to be checked. -/
def source (f : Search) : List Proxy := findSource f.toUppercase f.dbs f.countries f.batches

/-- What the check of address `a` leaves, if it is to be checked. -/
def checkedAt (f : Search) (c : Checker) (net : Addr → Checker.Net) (a : Addr) : Option Checker.Checked :=
  (candidateAt f.toUppercase f.dbs (uppercaseSet f.toUppercase f.countries) f.batches.flatten a).map (c.check (net a))

/-- The proxy that is due for an address: its check passes, and the capability filter lets it through. -/
def dueAt (f : Search) (c : Checker) (net : Addr → Checker.Net) (a : Addr) : Option Proxy :=
  (f.checkedAt c net a).bind fun r => if r.passed = some true ∧ f.caps.passes r.proxy = true then some r.proxy else none

variable {f : Search} {c : Checker} {net : Addr → Checker.Net} {s : State} {k : Nat} {p q : Proxy} {a : Addr}

theorem source_get : f.job.source.get? k = f.source[k]? := Stream'.Seq.ofList_get? _ _

/-- The check of an item leaves what the checker says of its address. -/
theorem checkedAt_item (checks : f.job.Checks c net) (item : f.job.source.get? k = some q) :
    (f.check k q).proxy.addr = q.addr ∧
      ∃ r, f.checkedAt c net q.addr = some r ∧ r.passed = some (f.check k q).working ∧ r.proxy = (f.check k q).proxy := by
  obtain ⟨passed, left⟩ := checks k q item
  have own : (c.check (net q.addr) q).proxy.addr = q.addr := congrArg Particulars.addr (Checker.check_particulars (net q.addr) q)
  have found := mem_source_iff.1 (List.mem_of_getElem? (source_get.symm.trans item))
  refine ⟨?_, c.check (net q.addr) q, ?_, passed, left⟩
  · rw [left] at own
    exact own
  · rw [checkedAt, found]
    rfl

/-- Different items have different addresses. -/
theorem addresses_nodup {es : List (Nat × Proxy)} (once : (es.map Prod.fst).Nodup)
    (own : ∀ k p, (k, p) ∈ es → ∃ q, f.job.source.get? k = some q ∧ p.addr = q.addr) : (es.map fun e => e.2.addr).Nodup := by
  rw [List.Nodup, List.pairwise_map] at once ⊢
  refine once.imp_of_mem ?_
  rintro ⟨i, p⟩ ⟨j, q⟩ at_i at_j other same
  obtain ⟨p', item_i, addr_i⟩ := own i p at_i
  obtain ⟨q', item_j, addr_j⟩ := own j q at_j
  rw [source_get] at item_i item_j
  have inside : i < (f.source.map Proxy.addr).length := by
    rw [List.length_map]
    exact (List.getElem?_eq_some_iff.1 item_i).1
  apply other
  apply (List.getElem?_inj inside sourceFrom_nodup).1
  rw [List.getElem?_map, List.getElem?_map, item_i, item_j, Option.map_some, Option.map_some, ← addr_i, ← addr_j]
  exact congrArg some same

/-- What was sent is due at its address. -/
theorem emitted_due (checks : f.job.Checks c net) (inv : Invariant f.job s) (mem : (k, p) ∈ s.shared.emissions) :
    (∃ q, f.job.source.get? k = some q ∧ p.addr = q.addr) ∧ f.dueAt c net p.addr = some p := by
  obtain ⟨⟨q, item, same, passes⟩, -⟩ := inv.emitted_verdict mem
  obtain ⟨own, r, found, passed, left⟩ := checkedAt_item checks item
  obtain ⟨works, fit⟩ : (f.check k q).working = true ∧ f.caps.passes (f.check k q).proxy = true := Bool.and_eq_true_iff.1 passes
  have addr : p.addr = q.addr := by rw [same]; exact own
  refine ⟨⟨q, item, addr⟩, ?_⟩
  rw [dueAt, addr, found, Option.bind_some, passed, left, works, if_pos ⟨rfl, fit⟩, same]
  rfl

/-- What is due at an address is the verdict on an item that passes. -/
theorem item_of_due (checks : f.job.Checks c net) (due : f.dueAt c net a = some p) :
    ∃ k ∈ f.job.passing, ∃ q, f.job.source.get? k = some q ∧ p = (f.check k q).proxy := by
  obtain ⟨r, found, kept⟩ := Option.bind_eq_some_iff.1 due
  obtain ⟨q, target, judged⟩ := Option.map_eq_some_iff.1 found
  have addr := candidateAt_addr target
  rw [← addr] at target judged
  obtain ⟨k, at_k⟩ := List.mem_iff_getElem?.1 (mem_source_iff.2 target)
  have item : f.job.source.get? k = some q := source_get.trans at_k
  obtain ⟨passed, left⟩ := checks k q item
  rw [judged] at passed left
  rw [Option.ite_none_right_eq_some] at kept
  obtain ⟨⟨works, fit⟩, same⟩ := kept
  rw [passed] at works
  rw [left] at fit
  refine ⟨k, ⟨q, item, Bool.and_eq_true_iff.2 ⟨Option.some.inj works, fit⟩⟩, q, item, ?_⟩
  exact (Option.some.inj same).symm.trans left

/-- A stream that is over ended. -/
theorem ended_of_final (fits : f.maxConn ≤ maxPermits) (inv : Invariant f.job s) (isOver : s.final) : s.driver = .ended := by
  rcases isOver.1 with ended | panicked
  · exact ended
  · have driver := inv.driver
    rw [State.DriverSound, panicked] at driver
    exact absurd fits (Nat.not_le.2 driver.1)

/-- When as many were sent as pass, every item that passes was sent. -/
theorem passing_emitted (inv : Invariant f.job s) (all : f.job.passing.encard ≤ s.shared.emissions.length) (passes : k ∈ f.job.passing)
    (item : f.job.source.get? k = some q) : (k, (f.check k q).proxy) ∈ s.shared.emissions := by
  have below : {j | j ∈ s.shared.emissions.map Prod.fst} ⊆ f.job.passing := by
    intro j mem
    obtain ⟨⟨i, p⟩, at_i, rfl⟩ := List.mem_map.1 mem
    obtain ⟨⟨q, item, -, passes⟩, -⟩ := inv.emitted_verdict at_i
    exact ⟨q, item, passes⟩
  have same : {j | j ∈ s.shared.emissions.map Prod.fst} = f.job.passing := by
    apply (List.finite_toSet _).eq_of_subset_of_encard_le below
    have count : {j | j ∈ s.shared.emissions.map Prod.fst}.encard = s.shared.emissions.length := by
      rw [← List.coe_toFinset, Set.encard_coe_eq_coe_finsetCard, List.toFinset_card_of_nodup inv.nodup, List.length_map]
    rw [count]
    exact all
  rw [← same] at passes
  obtain ⟨⟨i, p⟩, at_i, rfl⟩ := List.mem_map.1 passes
  obtain ⟨⟨q', item', rfl, -⟩, -⟩ := inv.emitted_verdict at_i
  rw [item] at item'
  cases item'
  exact at_i

end Search

theorem read_to_end {job : Job} {s : State} (fits : job.maxConn ≤ maxPermits) (inv : Invariant job s) (isOver : s.final)
    (reading : s.shared.consumer = .reading) :
    s.shared.received = s.shared.emissions ∧ (s.shared.received.length : ℕ∞) = min job.bound job.passing.encard := by
  obtain ⟨ends, drained⟩ := isOver
  have delivered := inv.delivered reading
  rw [drained, List.append_nil] at delivered
  rcases ends with ended | panicked
  · exact ⟨delivered, inv.exact ended drained reading⟩
  · have driver := inv.driver
    rw [State.DriverSound, panicked] at driver
    exact absurd fits (Nat.not_le.2 driver.1)

namespace Search

variable {f : Search} {c : Checker} {net : Addr → Checker.Net} {s : State} {p : Proxy} {a : Addr}

theorem bound_eq {l : Nat} (limit : f.limit = some l) : f.job.bound = l := by
  have same : f.job.limit = some l := limit
  rw [Job.bound, same]

theorem dueAt_addr (due : f.dueAt c net a = some p) : p.addr = a := by
  obtain ⟨r, found, kept⟩ := Option.bind_eq_some_iff.1 due
  obtain ⟨q, target, judged⟩ := Option.map_eq_some_iff.1 found
  split at kept
  · cases kept
    have own : (c.check (net a) q).proxy.addr = q.addr := congrArg Particulars.addr (Checker.check_particulars (net a) q)
    rw [← judged]
    exact own.trans (candidateAt_addr target)
  · cases kept

/-- A consumer that reads to the end, and gets fewer than `limit`, gets all that are due. -/
theorem read_all (fits : f.maxConn ≤ maxPermits) (checks : f.job.Checks c net) (inv : Invariant f.job s) (isOver : s.final)
    (reading : s.shared.consumer = .reading) (few : ∀ l, f.limit = some l → s.shared.received.length < l) :
    ∀ a p, f.dueAt c net a = some p → ∃ k, (k, p) ∈ s.shared.received := by
  obtain ⟨same, count⟩ := read_to_end (show f.job.maxConn ≤ maxPermits from fits) inv isOver reading
  intro a p due
  have all : f.job.passing.encard ≤ s.shared.emissions.length := by
    rw [← same, count]
    apply le_min _ le_rfl
    by_contra reached
    rw [min_eq_left (not_le.1 reached).le] at count
    cases limit : f.limit with
    | none =>
      have none_set : f.job.limit = none := limit
      rw [Job.bound, none_set] at count
      exact ENat.natCast_ne_top _ count
    | some l =>
      rw [bound_eq limit] at count
      exact absurd (few l limit) (by rw [Nat.cast_inj.1 count]; exact lt_irrefl l)
  obtain ⟨k, passes, q, item, rfl⟩ := item_of_due checks due
  rw [same]
  exact ⟨k, passing_emitted inv all passes item⟩

end Search

/-- **What `find` yields**, for every order of the batches, every `max_conn`, limit and filter and every interleaving of the
checks. No two proxies of the stream have one address, and each is what the checker left of the first candidate of its
address, which passed. When a consumer has read the stream to its end, it has at most `limit` proxies, and with fewer it
has the proxy that is due at every address. The stream does end. -/
theorem find_yields {f : Search} {c : Checker} {net : Addr → Checker.Net} {is : List Input} {s : State}
    (fits : f.maxConn ≤ maxPermits) (checks : f.job.Checks c net) (h : run (step f.job) (start f.job) is = some s) :
    (s.shared.emissions.map fun e => e.2.addr).Nodup ∧ (∀ k p, (k, p) ∈ s.shared.emissions → f.dueAt c net p.addr = some p) ∧
    (s.final → s.shared.consumer = .reading →
      s.shared.received = s.shared.emissions ∧ (∀ l, f.limit = some l → s.shared.received.length ≤ l) ∧
      ((∀ l, f.limit = some l → s.shared.received.length < l) →
        ∀ a p, f.dueAt c net a = some p → ∃ k, (k, p) ∈ s.shared.received)) ∧
    (0 < f.maxConn → Inevitably (attended f.job) State.final (start f.job)) := by
  have inv := run_invariant h
  refine ⟨Search.addresses_nodup inv.nodup fun k p mem => (Search.emitted_due checks inv mem).1,
    fun k p mem => (Search.emitted_due checks inv mem).2, fun isOver reading => ?_,
    fun room => ends_inevitably (n := f.source.length) ?_ room⟩
  · obtain ⟨same, count⟩ := read_to_end (show f.job.maxConn ≤ maxPermits from fits) inv isOver reading
    refine ⟨same, fun l limit => ?_, Search.read_all fits checks inv isOver reading⟩
    rw [Search.bound_eq limit] at count
    exact_mod_cast count.le.trans (min_le_left _ _)
  · rw [Search.source_get]
    exact List.getElem?_eq_none le_rfl

/-- A search that meets one address twice. -/
def twice : Search where
  toUppercase := id
  dbs := ⟨none, none⟩
  countries := none
  batches := [[⟨"0.0.0.7".toList, 80, []⟩], [⟨"0.0.0.7".toList, 80, [.http]⟩]]
  check _ p := ⟨((Checker.mixed.check (Checker.willingNet .transparent) p).passed).getD false,
    (Checker.mixed.check (Checker.willingNet .transparent) p).proxy⟩
  maxConn := 1
  limit := none
  caps := ⟨false, false, false, false⟩
  onChecked := true

theorem twice_checks : twice.job.Checks Checker.mixed fun _ => Checker.willingNet .transparent := by
  intro k p item
  rw [Search.source_get] at item
  have returns : (twice.source.all fun p => (Checker.mixed.check (Checker.willingNet .transparent) p).passed.isSome) = true := by
    decide +kernel
  obtain ⟨works, passed⟩ := Option.isSome_iff_exists.1 (List.all_eq_true.1 returns p (List.mem_of_getElem? item))
  refine ⟨?_, rfl⟩
  show _ = some ((Checker.mixed.check (Checker.willingNet .transparent) p).passed.getD false)
  rw [passed]
  rfl

/-- The one check of `twice`, and the end of the stream. -/
def wholeCheck : List Input := [.pull, .drive, .drive, .drive] ++ List.replicate 8 (.advance 0) ++ [.receive, .pull, .drive]

theorem wholeCheck_final : ∃ s, run (step twice.job) (start twice.job) wholeCheck = some s ∧ s.final ∧ s.shared.consumer = .reading :=
  ⟨_, rfl, ⟨Or.inl rfl, rfl⟩, rfl⟩

theorem find_yields_twice : ∃ s, run (step twice.job) (start twice.job) wholeCheck = some s ∧
    (∀ k p, (k, p) ∈ s.shared.received → twice.dueAt Checker.mixed (fun _ => Checker.willingNet .transparent) p.addr = some p) ∧
    ∀ a p, twice.dueAt Checker.mixed (fun _ => Checker.willingNet .transparent) a = some p → ∃ k, (k, p) ∈ s.shared.received := by
  obtain ⟨s, ran, isOver, reading⟩ := wholeCheck_final
  obtain ⟨-, due, at_end, -⟩ := find_yields (by decide) twice_checks ran
  obtain ⟨same, -, all⟩ := at_end isOver reading
  refine ⟨s, ran, ?_, all fun l limit => nomatch limit⟩
  rw [same]
  exact due

/-! ## What `--state` remembers -/

theorem upsertsOf_append (a : Addr) (ps qs : List Proxy) : upsertsOf a (ps ++ qs) = upsertsOf a ps ++ upsertsOf a qs :=
  List.filter_append _ _

theorem upsertsOf_absent {a : Addr} {ps : List Proxy} (absent : a ∉ ps.map Proxy.addr) : upsertsOf a ps = [] := by
  apply List.filter_eq_nil_iff.2
  intro p mem own
  exact absent (List.mem_map.2 ⟨p, mem, of_decide_eq_true own⟩)

/-- Of proxies with different addresses, one is at the address of `p`. -/
theorem upsertsOf_single {p : Proxy} {ps : List Proxy} (distinct : (ps.map Proxy.addr).Nodup) (mem : p ∈ ps) :
    upsertsOf p.addr ps = [p] := by
  obtain ⟨before, after, rfl⟩ := List.append_of_mem mem
  rw [List.map_append, List.map_cons, List.nodup_middle, List.nodup_cons, List.mem_append, not_or] at distinct
  obtain ⟨⟨new, old⟩, -⟩ := distinct
  have own : upsertsOf p.addr (p :: after) = p :: upsertsOf p.addr after := List.filter_cons_of_pos (decide_eq_true rfl)
  rw [upsertsOf_append, own, upsertsOf_absent new, upsertsOf_absent old]
  rfl

namespace Search

variable {f : Search} {c : Checker} {net : Addr → Checker.Net} {s : State} {k : Nat} {p q : Proxy} {a : Addr}

/-- The summary of an address after the upserts `hs` and the check of this `find`, if it checks the address. -/
def remembered (f : Search) (pr : Precision) (c : Checker) (net : Addr → Checker.Net) (hs : List (ℤ × Proxy)) (a : Addr) : Option Summary :=
  match f.checkedAt c net a with
  | some r => some (Summary.fold pr r.proxy (summary pr (upsertsOf a (hs.map Prod.snd))))
  | none => summary pr (upsertsOf a (hs.map Prod.snd))

/-- What is marked is what the checker left at its address. -/
theorem marked_checked {m : Event → Option (Nat × Proxy)} (marks : Marks f.job m) (checks : f.job.Checks c net) (inv : Invariant f.job s)
    (mem : (k, p) ∈ s.shared.log.filterMap m) :
    (∃ q, f.job.source.get? k = some q ∧ p.addr = q.addr) ∧ ∃ r, f.checkedAt c net p.addr = some r ∧ r.proxy = p := by
  obtain ⟨q, item, rfl⟩ := marks.verdict inv mem
  obtain ⟨own, r, found, -, left⟩ := checkedAt_item checks item
  refine ⟨⟨q, item, own⟩, r, ?_, left⟩
  rw [← found]
  exact congrArg (f.checkedAt c net) own

theorem marked_addresses {m : Event → Option (Nat × Proxy)} (marks : Marks f.job m) (checks : f.job.Checks c net)
    (inv : Invariant f.job s) : (((s.shared.log.filterMap m).map Prod.snd).map Proxy.addr).Nodup := by
  rw [List.map_map]
  exact addresses_nodup (marks.nodup inv) fun k p mem => (marked_checked marks checks inv mem).1

/-- What the upserts of this `find` make of an address: nothing, or what is to be remembered. -/
theorem summary_written (pr : Precision) (on : f.job.onChecked = true) (checks : f.job.Checks c net) (inv : Invariant f.job s) {hs ws : List (ℤ × Proxy)}
    (written : (ws.map Prod.snd).Sublist (s.shared.observations.map Prod.snd)) (a : Addr) :
    summary pr (upsertsOf a ((hs ++ ws).map Prod.snd)) =
      if a ∈ (ws.map Prod.snd).map Proxy.addr then f.remembered pr c net hs a else summary pr (upsertsOf a (hs.map Prod.snd)) := by
  have distinct := (marked_addresses (marks_observed on) checks inv).sublist (written.map Proxy.addr)
  rw [List.map_append, upsertsOf_append]
  split
  · rename_i touched
    obtain ⟨p, mem, rfl⟩ := List.mem_map.1 touched
    obtain ⟨⟨k, p⟩, observed, rfl⟩ := List.mem_map.1 (written.subset mem)
    obtain ⟨-, r, found, same⟩ := marked_checked (marks_observed on) checks inv observed
    rw [upsertsOf_single distinct mem, summary_concat, remembered, found, ← same]
  · rename_i untouched
    rw [upsertsOf_absent untouched, List.append_nil]

/-- Without a limit and with a consumer that reads, every item is marked in the end. -/
theorem all_marked {m : Event → Option (Nat × Proxy)} (marks : Marks f.job m) (inv : Invariant f.job s) (ended : s.driver = .ended)
    (reading : s.shared.consumer = .reading) (unlimited : f.limit = none) (item : f.job.source.get? k = some q) :
    (k, (f.check k q).proxy) ∈ s.shared.log.filterMap m := by
  have room : f.job.full s.shared.sent = false := by
    have none_set : f.job.limit = none := unlimited
    rw [Job.full, none_set]
    rfl
  have alive : s.shared.cancelled = false := by
    apply eq_false_of_ne_true
    intro fired
    rcases inv.token fired with dropped | full
    · rw [reading] at dropped
      cases dropped
    · rw [room] at full
      cases full
  exact marks.all inv ended alive room item

/-- Then every address is observed. -/
theorem all_observed (on : f.job.onChecked = true) (checks : f.job.Checks c net) (inv : Invariant f.job s) (ended : s.driver = .ended)
    (reading : s.shared.consumer = .reading) (unlimited : f.limit = none) {r : Checker.Checked} (found : f.checkedAt c net a = some r) :
    a ∈ (s.shared.observations.map Prod.snd).map Proxy.addr := by
  obtain ⟨q, target, -⟩ := Option.map_eq_some_iff.1 found
  have addr := candidateAt_addr target
  rw [← addr] at target ⊢
  obtain ⟨k, at_k⟩ := List.mem_iff_getElem?.1 (mem_source_iff.2 target)
  have item : f.job.source.get? k = some q := source_get.trans at_k
  rw [List.map_map]
  exact List.mem_map.2 ⟨_, all_marked (marks_observed on) inv ended reading unlimited item, (checkedAt_item checks item).1⟩

end Search

/-- **What `find --state` remembers**, in each store and from any earlier history. The observer is called once for an address at
most, and before its proxy is sent. An upsert folds the verdict on an address into its record, and a record whose upsert
failed or did not come is as before. A `find` without a limit that was read to its end has folded one verdict into the
record of each address it found, whatever the order in which the checks ended. -/
theorem find_remembers {f : Search} {c : Checker} {net : Addr → Checker.Net} {is : List Input} {s : State} (on : f.onChecked = true)
    (fits : f.maxConn ≤ maxPermits) (checks : f.job.Checks c net) (h : run (step f.job) (start f.job) is = some s) (b : Backend)
    (pr : Precision) (hs ws : List (ℤ × Proxy)) (written : (ws.map Prod.snd).Sublist (s.shared.observations.map Prod.snd))
    (room : pr = .binary64 → ∀ a, TotalsBelow (2 ^ 53) (upsertsOf a ((hs ++ ws).map Prod.snd))) :
    ((s.shared.observations.map Prod.snd).map Proxy.addr).Nodup ∧ (∀ e ∈ s.shared.emissions, e ∈ s.shared.observations) ∧
    (∀ a, b.stored pr a (hs ++ ws) =
      (if a ∈ (ws.map Prod.snd).map Proxy.addr then f.remembered pr c net hs a else summary pr (upsertsOf a (hs.map Prod.snd))).map
        (b.shown (timesOf a (hs ++ ws)))) ∧
    (s.final → s.shared.consumer = .reading → f.limit = none → ws.map Prod.snd = s.shared.observations.map Prod.snd →
      ∀ a, b.stored pr a (hs ++ ws) = (f.remembered pr c net hs a).map (b.shown (timesOf a (hs ++ ws)))) := by
  have inv := run_invariant h
  have stored (a : Addr) := b.stored_eq pr a (hs ++ ws) fun binary64 => room binary64 a
  simp only [Search.summary_written pr on checks inv written] at stored
  refine ⟨Search.marked_addresses (marks_observed on) checks inv, fun e mem => (inv.emitted_verdict mem).2 _ (marks_observed on), stored, ?_⟩
  intro isOver reading unlimited all a
  have ended := Search.ended_of_final fits inv isOver
  have at_a := stored a
  split at at_a
  · exact at_a
  · rename_i untouched
    rw [all] at untouched
    have unchecked : f.checkedAt c net a = none := by
      by_contra checked
      obtain ⟨r, found⟩ := Option.ne_none_iff_exists'.1 checked
      exact untouched (Search.all_observed on checks inv ended reading unlimited found)
    rw [Search.remembered, unchecked]
    exact at_a

theorem find_remembers_twice : ∃ s, run (step twice.job) (start twice.job) wholeCheck = some s ∧ ∀ a,
    Backend.sqlite.stored .binary64 a ([(100, failedOnce)] ++ s.shared.observations.map fun e => (160, e.2)) =
      (twice.remembered .binary64 Checker.mixed (fun _ => Checker.willingNet .transparent) [(100, failedOnce)] a).map
        (Backend.sqlite.shown (timesOf a ([(100, failedOnce)] ++ s.shared.observations.map fun e => (160, e.2)))) := by
  obtain ⟨s, ran, isOver, reading⟩ := wholeCheck_final
  have written : (s.shared.observations.map fun e => ((160 : ℤ), e.2)).map Prod.snd = s.shared.observations.map Prod.snd := by
    rw [List.map_map]
    rfl
  have room : TotalsBelow (2 ^ 53) (([((100 : ℤ), failedOnce)] ++ s.shared.observations.map fun e => ((160 : ℤ), e.2)).map Prod.snd) := by
    cases ran
    constructor <;> decide +kernel
  obtain ⟨-, -, -, at_end⟩ := find_remembers rfl (by decide) twice_checks ran .sqlite .binary64 [(100, failedOnce)]
    (s.shared.observations.map fun e => (160, e.2)) (by rw [written]) fun _ a => room.upsertsOf a
  exact ⟨s, ran, at_end isOver reading rfl written⟩

/-! ## What `--show-stats` counts -/

/-- What `StatsCollector::record` was called with has left this collector. -/
def Shared.collector (sh : Shared) : StatsCollector := sh.records.foldl (fun c e => c.record e.2) StatsCollector.default

/-- `ProxyStream::stats`: `none` where a percentile panics. -/
def Shared.stats (sh : Shared) : Option Stats := sh.collector.finish .binary64

theorem Shared.collector_eq (sh : Shared) : sh.collector = (sh.records.map Prod.snd).foldl StatsCollector.record .default := by
  rw [List.foldl_map]
  rfl

theorem Shared.stats_eq (sh : Shared) : sh.stats = Stats.fromProxies .binary64 (sh.records.map Prod.snd) := by
  rw [Stats.fromProxies, ← sh.collector_eq]
  rfl

/-- There are statistics as long as the checked proxies are so few that a float counts them. -/
theorem Shared.isSome_stats (sh : Shared) (few : sh.records.length ≤ 2 ^ 53) : sh.stats.isSome := by
  apply isSome_finish
  apply Precision.round_natCast
  have each (p : Proxy) : (StatsCollector.respTimeOf p).length ≤ 1 := by
    unfold StatsCollector.respTimeOf
    split <;> simp
  have fewer : sh.collector.respTimes.length ≤ sh.records.length := by
    rw [sh.collector_eq, StatsCollector.record_default, List.length_flatMap]
    refine (List.sum_le_card_nsmul _ 1 fun n mem => ?_).trans (by simp)
    obtain ⟨p, -, rfl⟩ := List.mem_map.1 mem
    exact each p
  omega

/-- **What the statistics of a `find` count.** At any time they are those of the proxies that were checked so far, of different
addresses, among them all that were sent. At the end of a `find` without a limit they are those of the verdicts in the order
of the candidates, whatever the order in which the checks ended, but for the mean response time: a float sum depends on the
order, so the mean is that of the times as they came. -/
theorem find_counts {f : Search} {c : Checker} {net : Addr → Checker.Net} {is : List Input} {s : State}
    (fits : f.maxConn ≤ maxPermits) (checks : f.job.Checks c net) (h : run (step f.job) (start f.job) is = some s) :
    (s.shared.stats = Stats.fromProxies .binary64 (s.shared.records.map Prod.snd) ∧
      (s.shared.records.length ≤ 2 ^ 53 → s.shared.stats.isSome) ∧
      ∀ st, s.shared.stats = some st → st.total = s.shared.records.length ∧ s.shared.emissions.length ≤ st.total ∧
        st.total ≤ f.source.length ∧ st.working = (s.shared.records.map Prod.snd).countP fun p => Proto.all.any p.hasType) ∧
    ((s.shared.records.map Prod.snd).map Proxy.addr).Nodup ∧
    (∀ k p, (k, p) ∈ s.shared.records → ∃ r, f.checkedAt c net p.addr = some r ∧ r.proxy = p) ∧
    (s.final → s.shared.consumer = .reading → f.limit = none →
      s.shared.stats = (Stats.fromProxies .binary64 (f.source.map fun p => (c.check (net p.addr) p).proxy)).map
        (Stats.withMean (s.shared.collector.meanRespTime .binary64))) := by
  have inv := run_invariant h
  have marks := marks_recorded f.job
  have distinct := Search.marked_addresses marks checks inv
  have addresses : (f.source.map fun p => (c.check (net p.addr) p).proxy).map Proxy.addr = f.source.map Proxy.addr := by
    rw [List.map_map]
    exact List.map_congr_left fun p _ => congrArg Particulars.addr (Checker.check_particulars (net p.addr) p)
  have verdicts : s.shared.records.map Prod.snd ⊆ f.source.map fun p => (c.check (net p.addr) p).proxy := by
    intro p mem
    obtain ⟨⟨k, p⟩, recorded, rfl⟩ := List.mem_map.1 mem
    obtain ⟨q, item, same⟩ := marks.verdict inv recorded
    have at_k := Search.source_get.symm.trans item
    exact List.mem_map.2 ⟨q, List.mem_of_getElem? at_k, (checks k q item).2.trans same.symm⟩
  refine ⟨⟨s.shared.stats_eq, s.shared.isSome_stats, ?_⟩, distinct, fun k p mem => (Search.marked_checked marks checks inv mem).2, ?_⟩
  · intro st counted
    obtain ⟨total, working, -⟩ := finish_counts counted
    rw [s.shared.collector_eq, StatsCollector.record_default] at total working
    dsimp only at total working
    rw [List.length_map] at total
    refine ⟨total, ?_, ?_, ?_⟩
    · rw [total]
      exact (List.subperm_of_subset inv.nodup.of_map fun e mem => (inv.emitted_verdict mem).2 _ marks).length_le
    · have fewer := (List.subperm_of_subset distinct.of_map verdicts).length_le
      rw [List.length_map, List.length_map] at fewer
      rw [total]
      exact fewer
    · rw [working, ← funext isWorking_eq]
  · intro isOver reading unlimited
    have all : (f.source.map fun p => (c.check (net p.addr) p).proxy).Perm (s.shared.records.map Prod.snd) := by
      have once : ((f.source.map fun p => (c.check (net p.addr) p).proxy).map Proxy.addr).Nodup := by
        rw [addresses]
        exact sourceFrom_nodup
      refine (List.perm_ext_iff_of_nodup once.of_map distinct.of_map).2 fun p => ⟨fun mem => ?_, fun mem => verdicts mem⟩
      obtain ⟨q, at_q, rfl⟩ := List.mem_map.1 mem
      obtain ⟨k, at_k⟩ := List.mem_iff_getElem?.1 at_q
      have item : f.job.source.get? k = some q := Search.source_get.trans at_k
      have recorded := Search.all_marked marks inv (Search.ended_of_final fits inv isOver) reading unlimited item
      rw [(checks k q item).2]
      exact List.mem_map.2 ⟨_, recorded, rfl⟩
    rw [s.shared.stats_eq, s.shared.collector_eq]
    exact fromProxies_withMean .binary64 all

theorem find_counts_twice : ∃ s, run (step twice.job) (start twice.job) wholeCheck = some s ∧ s.shared.stats =
    (Stats.fromProxies .binary64 (twice.source.map fun p => (Checker.mixed.check (Checker.willingNet .transparent) p).proxy)).map
      (Stats.withMean (s.shared.collector.meanRespTime .binary64)) := by
  obtain ⟨s, ran, isOver, reading⟩ := wholeCheck_final
  obtain ⟨-, -, -, at_end⟩ := find_counts (by decide) twice_checks ran
  exact ⟨s, ran, at_end isOver reading rfl⟩

end ProxyBroker.Broker
