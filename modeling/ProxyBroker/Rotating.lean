import ProxyBroker.Conservation
import ProxyBroker.Find

/-!
# From the search to the pool (`broker.rs:rotating`, `server.rs:Pool::spawn`)

`rotating` hands the stream of `find` to `Pool::spawn`, whose importer reads it to its end, and the connector takes its proxies
from that pool. The search and the system of the pool are models of their own; here the next proxy of the importer is the
next one of the stream.
-/

namespace ProxyBroker
open Lib Server

/-- The search, and the pool with its importer and its clients. -/
structure Rotating where
  search : Broker.State
  sys : Sys

namespace Rotating

/-- A step of the search itself: the importer owns the stream. -/
def searches : Broker.Input → Bool
  | .receive | .closeReceiver | .dropGuard => false
  | _ => true

/-- A step of the system that supplies nothing: the pool belongs to the connector. -/
def uses : Sys.Input → Bool
  | .importNext _ | .importEnd | .add _ => false
  | _ => true

/-- The stream has ended: its senders are dropped, and the channel is empty. -/
def atEnd (s : Broker.State) : Bool :=
  match s.driver with
  | .ended | .panicked => s.shared.channel.isEmpty
  | _ => false

inductive Input where
  | search (i : Broker.Input)
  | imports
  | ends
  | other (i : Sys.Input)

/-- `rotating`, once the checker is built. -/
def start (job : Broker.Job) (config : PoolConfig) : Rotating := ⟨Broker.start job, Sys.spawn none config⟩

def step (job : Broker.Job) (w : Rotating) : Input → Option Rotating
  | .search i => if searches i then (Broker.step job w.search i).map fun s => { w with search := s } else none
  | .imports =>
    match w.search.shared.channel with
    | (_, p) :: _ => (w.sys.step (.importNext p)).bind fun sys => (Broker.step job w.search .receive).map fun s => ⟨s, sys⟩
    | [] => none
  | .ends => if atEnd w.search then (w.sys.step .importEnd).map fun sys => { w with sys := sys } else none
  | .other i => if uses i then (w.sys.step i).map fun sys => { w with sys := sys } else none

/-- What a step does. -/
inductive Move (job : Broker.Job) (w : Rotating) : Input → Rotating → Prop
  | search {i : Broker.Input} {s : Broker.State} : searches i = true → Broker.step job w.search i = some s →
      Move job w (.search i) { w with search := s }
  | imports {k : Nat} {p : Proxy} {rest : List (Nat × Proxy)} {s : Broker.State} {sys : Sys} :
      w.search.shared.channel = (k, p) :: rest → w.sys.step (.importNext p) = some sys → Broker.step job w.search .receive = some s →
      Move job w .imports ⟨s, sys⟩
  | ends {sys : Sys} : atEnd w.search = true → w.sys.step .importEnd = some sys → Move job w .ends { w with sys := sys }
  | other {i : Sys.Input} {sys : Sys} : uses i = true → w.sys.step i = some sys → Move job w (.other i) { w with sys := sys }

variable {job : Broker.Job} {config : PoolConfig} {w x : Rotating} {i : Input} {is : List Input}

theorem step_move (h : step job w i = some x) : Move job w i x := by
  cases i with
  | search i =>
    simp only [step] at h
    split at h
    · rename_i searches
      obtain ⟨s, next, rfl⟩ := Option.map_eq_some_iff.1 h
      exact .search searches next
    · cases h
  | imports =>
    simp only [step] at h
    split at h
    · rename_i k p rest channel
      obtain ⟨sys, imported, h⟩ := Option.bind_eq_some_iff.1 h
      obtain ⟨s, received, rfl⟩ := Option.map_eq_some_iff.1 h
      exact .imports channel imported received
    · cases h
  | ends =>
    simp only [step] at h
    split at h
    · rename_i ended
      obtain ⟨sys, next, rfl⟩ := Option.map_eq_some_iff.1 h
      exact .ends ended next
    · cases h
  | other i =>
    simp only [step] at h
    split at h
    · rename_i uses
      obtain ⟨sys, next, rfl⟩ := Option.map_eq_some_iff.1 h
      exact .other uses next
    · cases h

/-! ## The search -/

theorem final_of_atEnd {s : Broker.State} (ended : atEnd s = true) : s.final := by
  unfold atEnd at ended
  split at ended
  · rename_i driver
    exact ⟨.inl driver, List.isEmpty_iff.1 ended⟩
  · rename_i driver
    exact ⟨.inr driver, List.isEmpty_iff.1 ended⟩
  · cases ended

/-- The search reads nothing of its own stream. -/
theorem search_frame {s t : Broker.State} {i : Broker.Input} (own : searches i = true) (h : Broker.step job s i = some t) :
    t.shared.consumer = s.shared.consumer ∧ t.shared.received = s.shared.received := by
  cases Broker.step_move h with
  | @advanced k ph ph' sh at_k moved =>
    cases ph with
    | sending p n =>
      simp only [Broker.advance] at moved
      split at moved
      · cases moved
        exact ⟨rfl, rfl⟩
      · split at moved
        · cases moved
          exact ⟨rfl, rfl⟩
        · cases moved
    | left o => cases moved
    | checking | recording | observing | filtering | reserving | cancelling | finishing | leaving =>
      cases moved
      exact ⟨rfl, rfl⟩
  | received | closed | dropped => cases own
  | pulled | dry | tested | limited | spawned | drained | aborted => exact ⟨rfl, rfl⟩

/-- A search that is over rests. -/
theorem final_rests {s t : Broker.State} {i : Broker.Input} (inv : Broker.Invariant job s) (final : s.final) (own : searches i = true)
    (h : Broker.step job s i = some t) : False := by
  have driver := inv.driver
  have all_left : s.tasks.all Broker.Phase.isLeft = true := by
    rw [Broker.State.DriverSound] at driver
    rcases final.1 with ended | panicked
    · rw [ended] at driver
      exact driver.2
    · rw [panicked] at driver
      rw [driver.2]
      rfl
  have left {k : Nat} {ph : Broker.Phase} (at_k : s.tasks[k]? = some ph) : ph.isLeft = true :=
    List.all_eq_true.1 all_left ph (List.mem_of_getElem? at_k)
  have elsewhere {d : Broker.Driver} (at_s : s.driver = d) (ended : d ≠ .ended) (panicked : d ≠ .panicked) : False := by
    rcases final.1 with here | here
    · exact ended (at_s.symm.trans here)
    · exact panicked (at_s.symm.trans here)
  cases Broker.step_move h with
  | pulled at_s | dry at_s | tested at_s | limited at_s | spawned at_s | drained at_s => exact elsewhere at_s (by simp) (by simp)
  | aborted at_k => cases left at_k
  | @advanced k ph ph' sh at_k moved =>
    have gone := left at_k
    cases ph with
    | left o => cases moved
    | checking | recording | observing | filtering | reserving | sending | cancelling | finishing | leaving => cases gone
  | received | closed | dropped => cases own

/-- A limited search sends no more than its limit. -/
theorem emissions_le {s : Broker.State} {l : Nat} (inv : Broker.Invariant job s) (limit : job.limit = some l) :
    s.shared.emissions.length ≤ l := by
  rw [← inv.emitted]
  have slots : job.slots s.shared.sent ≤ l := by
    rw [Broker.Job.slots, limit]
    exact min_le_left _ _
  refine le_trans (List.countP_mono_left fun ph _ emitted => ?_) (inv.slotted.trans_le slots)
  unfold Broker.Phase.emitted at emitted
  cases ph <;> simp_all [Broker.Phase.slotted, Broker.Phase.outcome]

/-! ## The importer -/

/-- What the importer makes of the proxies that it read. -/
def brought (config : PoolConfig) (received : List (Nat × Proxy)) : List Proxy :=
  (received.map Prod.snd).filter fun p => countryOk config.toUppercase p config.countries

theorem mem_brought {received : List (Nat × Proxy)} {p : Proxy} :
    p ∈ brought config received ↔ (∃ k, (k, p) ∈ received) ∧ countryOk config.toUppercase p config.countries = true := by
  simp [brought]

theorem brought_concat (received : List (Nat × Proxy)) (k : Nat) (p : Proxy) :
    brought config (received ++ [(k, p)]) = brought config received ++ if countryOk config.toUppercase p config.countries then [p] else [] := by
  simp only [brought, List.map_append, List.filter_append, List.map_cons, List.map_nil, List.filter_cons, List.filter_nil]

/-- The importer has read the stream to its end. -/
def Done (sys : Sys) : Prop := sys.importer = .exhausting ∨ sys.importer = .stopped

theorem import_step {sys t : Sys} {p : Proxy} (h : sys.step (.importNext p) = some t) :
    t.admitted.map Ident.addr = sys.admitted.map Ident.addr ++
      (if countryOk sys.pool.config.toUppercase p sys.pool.config.countries then [p] else []).map Proxy.addr ∧ ¬ Done t := by
  cases Sys.step_move h with
  | imported running accepted =>
    have ok : countryOk sys.pool.config.toUppercase p sys.pool.config.countries = true := accepted
    rw [if_pos ok]
    refine ⟨?_, ?_⟩
    · simp only [List.map_append]
      rfl
    · rintro (exhausting | stopped)
      · cases exhausting
      · cases stopped
  | screened running refused =>
    have not_ok : ¬ countryOk sys.pool.config.toUppercase p sys.pool.config.countries = true := refused
    rw [if_neg not_ok]
    refine ⟨(List.append_nil _).symm, ?_⟩
    rintro (exhausting | stopped)
    · cases running.symm.trans exhausting
    · cases running.symm.trans stopped

theorem uses_step {sys t : Sys} {i : Sys.Input} (outside : uses i = true) (h : sys.step i = some t) :
    t.admitted = sys.admitted ∧ (Done t → Done sys) := by
  cases Sys.step_move h with
  | announced =>
    refine ⟨rfl, ?_⟩
    rintro (exhausting | stopped)
    · cases exhausting
    · cases stopped
  | ended exhausting => exact ⟨rfl, fun _ => .inl exhausting⟩
  | imported | screened | exhausted | held | added => cases outside
  | accept | connect | remove | tryGet | task => exact ⟨rfl, id⟩

/-! ## Both together -/

/-- What holds in every state. -/
structure Fed (job : Broker.Job) (config : PoolConfig) (w : Rotating) : Prop where
  search : Broker.Invariant job w.search
  reading : w.search.shared.consumer = .reading
  kept : w.sys.Kept
  screens : w.sys.pool.config = config
  fed : w.sys.admitted.map Ident.addr = (brought config w.search.shared.received).map Proxy.addr
  done : Done w.sys → w.search.final

theorem Fed.start (job : Broker.Job) (config : PoolConfig) : Fed job config (Rotating.start job config) where
  search := Broker.inv_start job
  reading := rfl
  kept := Sys.kept_initial (.inr ⟨none, config, rfl⟩)
  screens := rfl
  fed := rfl
  done := by
    rintro (exhausting | stopped)
    · cases exhausting
    · cases stopped

theorem Fed.step (fed : Fed job config w) (h : Rotating.step job w i = some x) : Fed job config x := by
  cases step_move h with
  | search own next =>
    obtain ⟨consumer, received⟩ := search_frame own next
    refine ⟨Broker.step_invariant fed.search next, consumer.trans fed.reading, fed.kept, fed.screens, ?_, ?_⟩
    · show w.sys.admitted.map Ident.addr = _
      rw [fed.fed, received]
    · intro done
      exact (final_rests fed.search (fed.done done) own next).elim
  | @imports k p rest s sys channel imported receives =>
    obtain ⟨admitted, running⟩ := import_step imported
    have screens := (Sys.step_config fed.kept.sound imported).trans fed.screens
    have search := Broker.step_invariant fed.search receives
    cases Broker.step_move receives with
    | received reading channel' =>
      cases channel.symm.trans channel'
      refine ⟨search, fed.reading, Sys.kept_step fed.kept imported, screens, ?_, fun done => absurd done running⟩
      show sys.admitted.map Ident.addr = _
      rw [admitted, fed.screens, fed.fed, brought_concat, List.map_append]
  | @ends sys ended next =>
    have admitted : sys.admitted = w.sys.admitted := by
      cases Sys.step_move next with
      | exhausted => rfl
    refine ⟨fed.search, fed.reading, Sys.kept_step fed.kept next, (Sys.step_config fed.kept.sound next).trans fed.screens, ?_,
      fun _ => final_of_atEnd ended⟩
    show sys.admitted.map Ident.addr = _
    rw [admitted, fed.fed]
  | @other i sys outside next =>
    obtain ⟨admitted, before⟩ := uses_step outside next
    refine ⟨fed.search, fed.reading, Sys.kept_step fed.kept next, (Sys.step_config fed.kept.sound next).trans fed.screens, ?_,
      fun done => fed.done (before done)⟩
    show sys.admitted.map Ident.addr = _
    rw [admitted, fed.fed]

theorem Fed.received_sublist (fed : Fed job config w) : w.search.shared.received.Sublist w.search.shared.emissions := by
  rw [← fed.search.delivered fed.reading]
  exact List.sublist_append_left _ _

/-! ## The pool fills -/

/-- A step of the search or of the importer. -/
def fills : Input → Bool
  | .search _ | .imports | .ends | .other .importNotify => true
  | .other _ => false

theorem atEnd_of_final {s : Broker.State} (final : s.final) : atEnd s = true := by
  obtain ⟨ended | panicked, drained⟩ := final
  · simp [atEnd, ended, drained]
  · simp [atEnd, panicked, drained]

/-- An importer that is about to notify does so. -/
theorem notified (job : Broker.Job) (w : Rotating) :
    ∃ js x, js.all fills = true ∧ run (Rotating.step job) w js = some x ∧ x.search = w.search ∧
      (x.sys.importer = .running ∨ x.sys.importer = .stopped) := by
  cases at_w : w.sys.importer with
  | running => exact ⟨[], w, rfl, rfl, rfl, .inl at_w⟩
  | stopped => exact ⟨[], w, rfl, rfl, rfl, .inr at_w⟩
  | notifying =>
    refine ⟨[.other .importNotify], { w with sys := { w.sys.setPool w.sys.pool.notifyWaiters with importer := .running } }, rfl, ?_, rfl,
      .inl rfl⟩
    simp [run, step, uses, Sys.step, at_w]
  | exhausting =>
    refine ⟨[.other .importNotify], { w with sys := { w.sys.setPool w.sys.pool.notifyWaiters with importer := .stopped } }, rfl, ?_, rfl,
      .inr rfl⟩
    simp [run, step, uses, Sys.step, at_w]

/-- At the end of the stream, the importer stops. -/
theorem stops (job : Broker.Job) (running : w.sys.importer = .running) (final : w.search.final) :
    ∃ x, run (Rotating.step job) w [.ends, .other .importNotify] = some x ∧ x.sys.importer = .stopped := by
  have ended := atEnd_of_final final
  simp [run, step, uses, Sys.step, Sys.setPool, ended, running]

/-- What the search can do with a reader, it can do with the importer. -/
theorem attended_move {s : Broker.State} {i : Broker.Input} (running : w.sys.importer = .running)
    (h : Broker.attended job w.search i = some s) : ∃ j x, fills j = true ∧ Rotating.step job w j = some x ∧ x.search = s := by
  have next := Broker.attended_eq h
  by_cases own : searches i = true
  · exact ⟨.search i, { w with search := s }, rfl, by simp [step, own, next], rfl⟩
  · cases Broker.step_move next with
    | @received m rest reading channel =>
      obtain ⟨k, p⟩ := m
      obtain ⟨sys, imported⟩ : ∃ sys, w.sys.step (.importNext p) = some sys := by
        simp only [Sys.step, running, if_true]
        split
        · exact ⟨_, rfl⟩
        · exact ⟨_, rfl⟩
      refine ⟨.imports, ⟨_, sys⟩, rfl, ?_, rfl⟩
      simp only [step, channel, imported, Option.bind_some, next, Option.map_some]
    | closed | dropped => cases h
    | pulled | dry | tested | limited | spawned | drained | aborted | advanced => exact absurd rfl own

theorem Fed.fills_up {n : Nat} (finite : job.source.get? n = none) (room : 0 < job.maxConn) (fed : Fed job config w) :
    ∃ js x, js.all fills = true ∧ run (Rotating.step job) w js = some x ∧ x.sys.importer = .stopped := by
  induction rank : w.search.rank n using Nat.strong_induction_on generalizing w with
  | _ r ih =>
    subst rank
    obtain ⟨js, y, own, ran, same, running | stopped⟩ := notified job w
    · have fed' : Fed job config y :=
        run_preserves (P := Fed job config) (fun _ _ _ fed next => fed.step next) fed ran
      by_cases final : y.search.final
      · obtain ⟨x, ended, stopped⟩ := stops job running final
        refine ⟨js ++ [.ends, .other .importNotify], x, ?_, ?_, stopped⟩
        · rw [List.all_append, own]
          rfl
        · rw [run_append ran]
          exact ended
      · obtain ⟨i, t, next⟩ := fed'.search.progress (.inl room) fed'.reading final
        have less := fed'.search.rank_lt finite next
        obtain ⟨j, x, own_j, moved, search⟩ := attended_move running next
        rw [same, ← search] at less
        obtain ⟨ks, z, own_ks, rest, stopped⟩ := ih _ less (fed'.step moved) rfl
        refine ⟨js ++ j :: ks, z, ?_, ?_, stopped⟩
        · rw [List.all_append, List.all_cons, own, own_j, own_ks]
          rfl
        · rw [run_append ran, run_cons_iff]
          exact ⟨x, moved, rest⟩
    · exact ⟨js, y, own, ran, stopped⟩

/-- **What a rotating connector dials**, in every interleaving of the search, the importer and the connections. No two instances
that are in the pool, with a connection, evicted or removed have one address, so no two connections dial one proxy at a time and
none comes back after its eviction. Each is at the address of a proxy that the search is due to yield and the pool's countries
admit. There are never more than `limit`; and once the importer has ended, and the search was not cut off at its limit, every
proxy that is due and admitted is among them. From every state the search and the importer get there by themselves. -/
theorem rotating_dials_found {f : Broker.Search} {c : Checker} {net : Addr → Checker.Net} (fits : f.maxConn ≤ Broker.maxPermits)
    (checks : f.job.Checks c net) (h : run (Rotating.step f.job) (start f.job config) is = some w) :
    (w.sys.whereabouts.map Ident.addr).Nodup ∧
    (∀ e ∈ w.sys.whereabouts, ∃ p, f.dueAt c net e.addr = some p ∧ countryOk config.toUppercase p config.countries = true) ∧
    (∀ l, f.limit = some l → w.sys.whereabouts.length ≤ l) ∧
    (w.sys.importer = .stopped → (∀ l, f.limit = some l → w.search.shared.received.length < l) →
      ∀ a p, f.dueAt c net a = some p → countryOk config.toUppercase p config.countries = true → ∃ e ∈ w.sys.whereabouts, e.addr = a) ∧
    (0 < f.maxConn →
      ∃ js x, js.all fills = true ∧ run (Rotating.step f.job) w js = some x ∧ x.sys.importer = .stopped) := by
  have fed : Fed f.job config w :=
    run_preserves (P := Fed f.job config) (fun _ _ _ fed next => fed.step next) (Fed.start f.job config) h
  have places := fed.kept.places
  have addrs := (places.map Ident.addr).trans (.of_eq fed.fed)
  have shorter : (brought config w.search.shared.received).Sublist (w.search.shared.emissions.map Prod.snd) :=
    List.filter_sublist.trans (fed.received_sublist.map Prod.snd)
  refine ⟨?_, ?_, ?_, ?_, fun room => fed.fills_up (n := f.source.length) ?_ room⟩
  · rw [addrs.nodup_iff]
    refine (shorter.map Proxy.addr).nodup ?_
    rw [List.map_map]
    exact Broker.Search.addresses_nodup fed.search.nodup fun k p mem => (Broker.Search.emitted_due checks fed.search mem).1
  · intro e mem
    obtain ⟨p, there, same⟩ := List.mem_map.1 (addrs.subset (List.mem_map_of_mem mem))
    obtain ⟨⟨k, received⟩, ok⟩ := mem_brought.1 there
    refine ⟨p, ?_, ok⟩
    rw [← same]
    exact (Broker.Search.emitted_due checks fed.search (fed.received_sublist.subset received)).2
  · intro l limit
    have count := addrs.length_eq
    rw [List.length_map, List.length_map] at count
    have sent := shorter.length_le
    rw [List.length_map] at sent
    rw [count]
    exact sent.trans (emissions_le fed.search limit)
  · intro stopped few a p due ok
    have addr := Broker.Search.dueAt_addr due
    obtain ⟨k, received⟩ := Broker.Search.read_all fits checks fed.search (fed.done (.inr stopped)) fed.reading few a p due
    have there : p.addr ∈ w.sys.whereabouts.map Ident.addr :=
      addrs.symm.subset (List.mem_map_of_mem (mem_brought.2 ⟨⟨k, received⟩, ok⟩))
    obtain ⟨e, mem, same⟩ := List.mem_map.1 there
    exact ⟨e, mem, same.trans addr⟩
  · rw [Broker.Search.source_get]
    exact List.getElem?_eq_none le_rfl

/-- A search that checks one proxy, and an importer that reads it and the end of the stream. -/
def wholeFilling : List Input :=
  [.search .pull, .search .drive, .search .drive, .search .drive] ++ List.replicate 8 (.search (.advance 0)) ++
    [.imports, .other .importNotify, .search .pull, .search .drive, .ends, .other .importNotify]

theorem rotating_dials_found_twice : ∃ w, run (Rotating.step Broker.twice.job) (start Broker.twice.job .default) wholeFilling = some w ∧
    (w.sys.whereabouts.map Ident.addr).Nodup ∧
    ∀ a p, Broker.twice.dueAt Checker.mixed (fun _ => Checker.willingNet .transparent) a = some p → ∃ e ∈ w.sys.whereabouts, e.addr = a := by
  obtain ⟨w, ran, stopped⟩ : ∃ w, run (Rotating.step Broker.twice.job) (start Broker.twice.job .default) wholeFilling = some w ∧
      w.sys.importer = .stopped := ⟨_, rfl, rfl⟩
  obtain ⟨distinct, -, -, all, -⟩ := rotating_dials_found (by decide) Broker.twice_checks ran
  exact ⟨w, ran, distinct, fun a p due => all stopped (fun l limit => nomatch limit) a p due rfl⟩

end Rotating

end ProxyBroker
