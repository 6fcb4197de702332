import ProxyBroker.Checker.Retry
import ProxyBroker.Failover
import ProxyBroker.Latency

/-!
# The books of an instance

A `Proxy` carries its own statistics, and it is moved between the vector and its holders while it does. `Books` is
what an outside observer of the system writes down: the proxies as they were supplied, and for every instance how the
attempts that were made with it ended. `books_balance` says that the two agree in every interleaving: wherever a proxy
is, it is the supplied one with those attempts recorded, each once and in order. `evicted_by_books` says that the
books are also what evicts it, and that an evicted instance does not come back.
-/

namespace ProxyBroker
open Lib Server

/-! ## The end of an attempt -/

namespace Server.Handler

/-- How the last attempt ended. -/
def State.outcome (s : State) : Option Served :=
  s.attempts.getLast?.bind fun a =>
    match a.relay.phase with
    | .done o => some (.relayed o)
    | _ => none

/-- The proxy that is being relayed to. -/
def State.working (s : State) : Option Proxy :=
  match s.phase with
  | .relaying _ p _ => some p
  | _ => none

end Server.Handler

namespace Connector

/-- How the last dial ended. -/
def State.outcome (c : State) : Option Served :=
  match c.phase with
  | .putting _ true _ => c.last.map fun e => .dialled (some e)
  | .putting _ false _ => some (.dialled none)
  | _ => none

/-- The proxy that is being dialled. -/
def State.working (c : State) : Option Proxy :=
  match c.phase with
  | .dialling p _ _ => some p
  | _ => none

end Connector

namespace Client

/-- The proxy with which the client makes an attempt. -/
def working : Client → Option Proxy
  | .serving _ h => h.working
  | .connecting c => c.working

/-- How the client's last attempt ended. -/
def outcome : Client → Option Served
  | .serving _ h => h.outcome
  | .connecting c => c.outcome

/-- The attempt that ends between `c` and `d`: the instance, and how it ended. -/
def concluded (c d : Client) : Option (Nat × Served) :=
  match c.working, d.working with
  | some p, none => d.outcome.map fun o => (p.tag, o)
  | _, _ => none

end Client

/-- What is known of the instances: the proxies as they were supplied, by tag, and the outcomes of the attempts made
with each. -/
structure Books where
  supplied : List Proxy
  log : Nat → List Served

/-- One more outcome for the instance `n`. -/
def Books.enter (b : Books) (n : Nat) (o : Served) : Books := { b with log := Function.update b.log n (b.log n ++ [o]) }

/-- What the books say of the instance of `p` is what `p` told. -/
def Books.Tells (b : Books) (p : Proxy) : Prop := ∃ q, b.supplied[p.tag]? = some q ∧ p = Served.recordAll q (b.log p.tag)

namespace Sys

/-- The proxy that a step supplies, with its tag. -/
def supplies (s : Sys) : Input → Option Proxy
  | .importNext proxy => if countryOk s.pool.config.toUppercase (s.tagged proxy) s.pool.config.countries then some (s.tagged proxy) else none
  | .add proxy => if s.pool.holds (s.tagged proxy).addr then none else some (s.tagged proxy)
  | _ => none

/-- The attempt that ends in a step. -/
def concluded (s : Sys) (i : Input) (t : Sys) : Option (Nat × Served) :=
  match i with
  | .task k _ => (s.tasks[k]?).bind fun before => (t.tasks[k]?).bind fun after => before.client.concluded after.client
  | _ => none

/-- What the observer writes down at a step. -/
def observe (b : Books) (s : Sys) (i : Input) (t : Sys) : Books :=
  match s.concluded i t with
  | some (n, o) => b.enter n o
  | none => { b with supplied := b.supplied ++ (s.supplies i).toList }

/-- The books at the start. -/
def opening (s : Sys) : Books := ⟨s.pool.state.map Pooled.proxy, fun _ => []⟩

end Sys

/-! ## The lease of a client, as a value -/

/-- What a step does to the lease of a client. -/
inductive Turn (held held' : Option Proxy) : Option (Nat × Served) → Prop
  | keeps : held' = held → Turn held held' none
  | draws : held = none → Turn held held' none
  | returns : held' = none → Turn held held' none
  | records {p : Proxy} {o : Served} : held = some p → held' = some (Served.record p o) → Turn held held' (some (p.tag, o))

namespace Client
variable {c d : Client}

/-- A client that makes no attempt ends none. -/
theorem concluded_idle (idle : c.working = none) : c.concluded d = none := by
  unfold concluded
  rw [idle]

/-- A client that goes on with an attempt does not end it. -/
theorem concluded_busy {p : Proxy} (busy : d.working = some p) : c.concluded d = none := by
  unfold concluded
  rw [busy]
  split
  · rename_i next
    cases next
  · rfl

/-- An attempt that ends. -/
theorem concluded_of {p : Proxy} {o : Served} (before : c.working = some p) (after : d.working = none)
    (ended : d.outcome = some o) : c.concluded d = some (p.tag, o) := by
  unfold concluded
  rw [before, after, ended]
  rfl

/-- A step of the handler and its lease. -/
theorem turn_serving {ctx : ConnCtx} {s t : Handler.State} {i : Handler.Input} (h : Handler.step ctx s i = some t) :
    Turn s.held t.held (concluded (.serving ctx s) (.serving ctx t)) := by
  have idle (rest : s.working = none) (turn : Turn s.held t.held none) :
      Turn s.held t.held (concluded (.serving ctx s) (.serving ctx t)) := by
    rw [concluded_idle (c := .serving ctx s) rest]
    exact turn
  cases Handler.step_move h with
  | @relay sv p r j t at_s moved =>
    obtain ⟨r', -, rfl⟩ := Option.map_eq_some_iff.1 moved
    have busy : working (.serving ctx s) = some p := by simp only [working, Handler.State.working, at_s]
    have holds : s.held = some p := by simp only [Handler.State.held, at_s]
    split
    · rename_i o ended
      rw [concluded_of (o := .relayed o) busy ?_ ?_]
      · exact .records holds (Handler.held_conclude rfl)
      · cases o <;> rfl
      · simp [outcome, Handler.State.outcome, ended]
    · rw [concluded_busy (p := p) rfl]
      exact .keeps holds.symm
  | @parsed _ after req at_s =>
    apply idle (by simp only [Handler.State.working, at_s])
    exact .returns (Handler.held_dispatch { s with unread := after.input, preface := after.output } req)
  | resolve at_s => exact idle (by simp only [Handler.State.working, at_s]) (.returns (Handler.held_loopHead _ _))
  | evict at_s => exact idle (by simp only [Handler.State.working, at_s]) (.returns (Handler.held_continueWith _ _ _))
  | notify at_s => exact idle (by simp only [Handler.State.working, at_s]) (.returns (Handler.held_continueWith _ _ _))
  | lease at_s =>
    exact idle (by simp only [Handler.State.working, at_s]) (.draws (by simp only [Handler.State.held, at_s]))
  | rotate at_s | record at_s =>
    apply idle (by simp only [Handler.State.working, at_s])
    exact .keeps (by simp only [Handler.State.held, at_s])
  | dropped at_s | deny at_s | denied at_s | denyCut at_s | remove at_s | lookUp at_s | answer at_s | answered at_s
  | answerCut at_s | starve at_s | push at_s | refuse at_s | refused at_s | refuseCut at_s =>
    exact idle (by simp only [Handler.State.working, at_s]) (.returns rfl)

/-- A step of the connector and its lease. -/
theorem turn_connecting {s t : Connector.State} {i : Connector.Input} (h : Connector.step s i = some t) :
    Turn s.held t.held (concluded (.connecting s) (.connecting t)) := by
  have idle (rest : s.working = none) (turn : Turn s.held t.held none) :
      Turn s.held t.held (concluded (.connecting s) (.connecting t)) := by
    rw [concluded_idle (c := .connecting s) rest]
    exact turn
  have ends {p : Proxy} {proto : Proto} {dial : Connector.Dial} (at_s : s.phase = .dialling p proto dial) (err : Option ProxyError) :
      Turn s.held (Connector.dialled s p err).held (concluded (.connecting s) (.connecting (Connector.dialled s p err))) := by
    have busy : working (.connecting s) = some p := by simp only [working, Connector.State.working, at_s]
    have holds : s.held = some p := by simp only [Connector.State.held, at_s]
    rw [concluded_of (o := .dialled err) busy]
    · apply Turn.records holds
      cases err <;> rfl
    · cases err <;> rfl
    · cases err <;> rfl
  have goes {p : Proxy} {proto : Proto} {dial : Connector.Dial} (at_s : s.phase = .dialling p proto dial) (n : Negotiation) :
      Turn s.held (Connector.negotiated s p proto n).held
        (concluded (.connecting s) (.connecting (Connector.negotiated s p proto n))) := by
    cases n with
    | opened => exact ends at_s none
    | failed e => exact ends at_s (some e)
    | _ =>
      rw [concluded_busy (p := p) rfl]
      exact .keeps (by simp only [Connector.State.held, at_s]; rfl)
  unfold Connector.step at h
  split at h
  case h_5 at_s | h_6 at_s =>
    cases h
    exact ends at_s _
  case h_7 at_s =>
    cases h
    exact goes at_s _
  case h_8 at_s =>
    obtain ⟨n, -, rfl⟩ := Option.map_eq_some_iff.1 h
    exact goes at_s n
  case h_1 at_s =>
    split at h
    all_goals
      cases h
      exact idle (by simp only [Connector.State.working, at_s]) (.returns rfl)
  case h_2 at_s =>
    cases h
    exact idle (by simp only [Connector.State.working, at_s]) (.returns (Connector.held_loopHead _))
  case h_3 at_s =>
    cases h
    exact idle (by simp only [Connector.State.working, at_s]) (.returns rfl)
  case h_4 at_s =>
    apply idle (by simp only [Connector.State.working, at_s])
    exact .draws (by simp only [Connector.State.held, at_s])
  case h_9 at_s =>
    cases h
    exact idle (by simp only [Connector.State.working, at_s]) (.returns rfl)
  case h_10 at_s | h_11 at_s =>
    cases h
    exact idle (by simp only [Connector.State.working, at_s]) (.returns (Connector.held_continueWith _ _))
  case h_12 => cases h

/-- **What a client does to its lease by itself**: nothing, or it records how its attempt ended. -/
theorem turn_io {i : Io} (h : c.io i = some d) :
    (d.held = c.held ∧ c.concluded d = none) ∨
    ∃ p o, c.held = some p ∧ d.held = some (Served.record p o) ∧ c.concluded d = some (p.tag, o) := by
  have same := (held_io h).2
  have turn : Turn c.held d.held (c.concluded d) := by
    unfold io at h
    split at h
    · obtain ⟨t, next, rfl⟩ := Option.map_eq_some_iff.1 h
      exact turn_serving next
    · obtain ⟨t, next, rfl⟩ := Option.map_eq_some_iff.1 h
      exact turn_connecting next
    · cases h
  generalize c.concluded d = ended at turn
  cases turn with
  | keeps eq => exact Or.inl ⟨eq, rfl⟩
  | draws free =>
    rw [free] at same
    exact Or.inl ⟨(Option.map_eq_none_iff.1 same).trans free.symm, rfl⟩
  | returns free =>
    rw [free] at same
    exact Or.inl ⟨free.trans (Option.map_eq_none_iff.1 same.symm).symm, rfl⟩
  | records holds after => exact Or.inr ⟨_, _, holds, after, rfl⟩

/-- A client that asks for something makes no attempt. -/
theorem working_of_demand (asks : c.demand ≠ .nothing) : c.working = none := by
  cases c with
  | serving ctx s => cases at_s : s.phase <;> simp_all [demand, working, Handler.State.working]
  | connecting s => cases at_s : s.phase <;> simp_all [demand, working, Connector.State.working]

/-- A client works with the proxy it is given. -/
theorem held_of_got {r : Option Proxy} (h : c.answer (.got r) = some d) : d.held = r := by
  cases c with
  | serving ctx s =>
    obtain ⟨t, next, rfl⟩ := Option.map_eq_some_iff.1 h
    cases Handler.step_move next with
    | starve => rfl
    | @lease sv p =>
      simp only [held, Handler.State.held]
      by_cases first : 0 < sv.attempt
      · simp only [if_pos first]
      · simp only [if_neg first]
  | connecting s =>
    obtain ⟨t, next, rfl⟩ := Option.map_eq_some_iff.1 h
    have at_s := Connector.getting_of_got next
    cases r with
    | none =>
      simp only [Connector.step, at_s] at next
      cases next
      rfl
    | some p =>
      simp only [Connector.step, at_s] at next
      split at next
      all_goals
        cases next
        rfl

/-- Any other answer but that of a return leaves the client its proxy. -/
theorem held_of_other {r : Reply} (h : c.answer r = some d) (got : ∀ p, r ≠ .got p) (returned : ∀ b, r ≠ .returned b)
    (rest : c.working = none) : d.held = c.held := by
  have same := held_answer h
  have turn : Turn c.held d.held (c.concluded d) := by
    cases c with
    | serving ctx s =>
      obtain ⟨t, next, rfl⟩ := Option.map_eq_some_iff.1 h
      exact turn_serving next
    | connecting s =>
      cases r
      case got p => exact absurd rfl (got p)
      case returned b => exact absurd rfl (returned b)
      case notified =>
        obtain ⟨t, next, rfl⟩ := Option.map_eq_some_iff.1 h
        exact turn_connecting next
      all_goals cases h
  have kept : d.held.map Proxy.ident = c.held.map Proxy.ident := by
    rw [same]
    cases r
    case got p => exact absurd rfl (got p)
    case returned b => exact absurd rfl (returned b)
    all_goals rfl
  rw [concluded_idle rest] at turn
  cases turn with
  | keeps eq => exact eq
  | draws free =>
    rw [free] at kept
    exact (Option.map_eq_none_iff.1 kept).trans free.symm
  | returns free =>
    rw [free] at kept
    exact free.trans (Option.map_eq_none_iff.1 kept.symm).symm

end Client

/-! ## The proxies of a task -/

namespace Server.Shared

/-- The proxies in the vector. -/
def values (sh : Shared) : List Proxy := sh.pool.state.map Pooled.proxy

variable {sh sh' : Shared}

theorem values_without {e : Pooled} {rest : List Pooled} (perm : (e :: rest).Perm sh.pool.state) :
    sh.values.Perm (e.proxy :: rest.map Pooled.proxy) := (perm.symm.map Pooled.proxy)

/-- A put: the proxy is in the vector and healthy, or it is evicted and not. -/
theorem putBack_values (sh : Shared) (p : Proxy) (failed : Bool) (now : Instant) :
    (Pool.unhealthy sh.pool.config p = true ∧ (sh.putBack p failed now).values = sh.values ∧
      (sh.putBack p failed now).evicted = sh.evicted ++ [p.ident]) ∨
    (Pool.unhealthy sh.pool.config p = false ∧ (sh.putBack p failed now).values = sh.values ++ [p] ∧
      (sh.putBack p failed now).evicted = sh.evicted) := by
  rcases putBack_cases sh p failed now with ⟨sick, eq⟩ | ⟨well, b, eq⟩
  · rw [eq]
    exact Or.inl ⟨sick, rfl, rfl⟩
  · rw [eq]
    exact Or.inr ⟨well, by simp [values, Pool.push], rfl⟩

/-- What was evicted stays so. -/
theorem Effect.evicted {before after : List Ident} (effect : sh.Effect before after sh') : sh.evicted <+: sh'.evicted := by
  cases effect with
  | quiet same => exact same.evicted ▸ List.prefix_refl _
  | giveBack p failed now =>
    rcases sh.putBack_values p failed now with ⟨-, -, evicted⟩ | ⟨-, -, evicted⟩
    · exact evicted ▸ List.prefix_append _ _
    · exact evicted ▸ List.prefix_refl _
  | _ => exact List.prefix_refl _

end Server.Shared

namespace Task

/-- The proxies of a task, as values. -/
def values (t : Task) : List Proxy := t.client.held.toList ++ t.lease.held.toList

theorem values_ident (t : Task) : t.values.map Proxy.ident = t.held := by
  rw [values, held, List.map_append]

/-- A step that ends no attempt moves proxies as they are: what is new in the vector or in a `get` is healthy, and what
is evicted is not. -/
structure Moves (sh : Shared) (t : Task) (sh' : Shared) (t' : Task) : Prop where
  values : ∀ p ∈ sh'.values ++ t'.values, p ∈ sh.values ++ t.values
  free : ∀ p ∈ sh'.values ++ t'.lease.held.toList,
    p ∈ sh.values ++ t.lease.held.toList ∨ (p ∈ t.values ∧ Pool.unhealthy sh.pool.config p = false)
  evicted : ∀ x ∈ sh'.evicted, x ∈ sh.evicted ∨ ∃ p ∈ t.values, p.ident = x ∧ Pool.unhealthy sh.pool.config p = true

variable {sh sh' : Shared} {t t' : Task} {i : Input}

theorem moves_quiet (pool : sh'.values = sh.values) (evicted : sh'.evicted = sh.evicted)
    (held : t'.client.held = t.client.held) (lease : t'.lease.held = t.lease.held) : Moves sh t sh' t' := by
  refine ⟨?_, ?_, ?_⟩
  · intro p mem
    simpa only [values, pool, held, lease] using mem
  · intro p mem
    rw [pool, lease] at mem
    exact Or.inl mem
  · intro x mem
    rw [evicted] at mem
    exact Or.inl mem

/-- A put by the task, which then holds nothing. -/
theorem moves_putBack {p : Proxy} {failed : Bool} {now : Instant} (holds : p ∈ t.values) (none_left : t'.values = []) :
    Moves sh t (sh.putBack p failed now) t' := by
  have no_lease : t'.lease.held.toList = [] := by
    rw [values, List.append_eq_nil_iff] at none_left
    exact none_left.2
  rcases sh.putBack_values p failed now with ⟨sick, kept, evicted⟩ | ⟨well, pushed, evicted⟩
  · refine ⟨?_, ?_, ?_⟩
    · intro q mem
      rw [kept, none_left, List.append_nil] at mem
      exact List.mem_append_left _ mem
    · intro q mem
      rw [kept, no_lease, List.append_nil] at mem
      exact Or.inl (List.mem_append_left _ mem)
    · intro x mem
      rw [evicted, List.mem_append, List.mem_singleton] at mem
      exact mem.imp_right fun eq => ⟨p, holds, eq.symm, sick⟩
  · refine ⟨?_, ?_, ?_⟩
    · intro q mem
      rw [pushed, none_left, List.append_nil, List.mem_append, List.mem_singleton] at mem
      rcases mem with old | rfl
      · exact List.mem_append_left _ old
      · exact List.mem_append_right _ holds
    · intro q mem
      rw [pushed, no_lease, List.append_nil, List.mem_append, List.mem_singleton] at mem
      rcases mem with old | rfl
      · exact Or.inl (List.mem_append_left _ old)
      · exact Or.inr ⟨holds, well⟩
    · intro x mem
      rw [evicted] at mem
      exact Or.inl mem

/-- A step of `get`. -/
theorem moves_lease {scheme : Scheme} {key : ClientKey} {j : Lease.Input} {acc : Account} {g : Lease.State}
    (free : t.client.held = none) (h : Lease.step scheme key sh t.account t.lease j = some (sh', acc, g)) :
    Moves sh t sh' { t with account := acc, lease := g } := by
  have now {phase : Lease.Phase} (at_g : t.lease.phase = phase) : t.lease.held = Lease.State.held ⟨t.lease.verifyAttempts, phase⟩ := by
    rw [← at_g]
  cases Lease.step_move h with
  | enter at_g | read at_g | wake at_g => exact moves_quiet rfl rfl rfl (now at_g).symm
  | @miss _ last _ _ at_g =>
    refine moves_quiet rfl rfl rfl ?_
    rw [now at_g]
    cases last <;> rfl
  | @draw _ _ _ _ p pool at_g taken =>
    obtain ⟨e, rfl, perm, eq⟩ := Pool.takeChosen_spec taken
    have mem_rest {q : Proxy} (mem : q ∈ Shared.values { sh with pool := pool } ++ [e.proxy]) : q ∈ sh.values := by
      rw [List.mem_append, List.mem_singleton] at mem
      apply (Shared.values_without perm).mem_iff.2
      exact List.mem_cons.2 mem.symm
    refine ⟨?_, ?_, fun x mem => Or.inl mem⟩
    · intro q mem
      apply List.mem_append_left
      apply mem_rest
      rw [values, free] at mem
      exact mem
    · intro q mem
      exact Or.inl (List.mem_append_left _ (mem_rest mem))
  | note at_g =>
    refine moves_quiet (by simp only [Shared.values, Pool.noteChosen_state]) rfl rfl ?_
    rw [now at_g]
    split <;> rfl
  | @probe _ alive at_g =>
    refine moves_quiet rfl rfl rfl ?_
    rw [now at_g]
    cases alive <;> rfl
  | @bench p _ at_g =>
    apply moves_putBack
    · rw [values, now at_g]
      exact List.mem_append_right _ List.mem_cons_self
    · show t.client.held.toList ++ _ = []
      rw [free]
      show Option.toList _ = []
      split
      · unfold Lease.redraw
        split <;> rfl
      · rfl
  | notify at_g =>
    refine moves_quiet rfl rfl rfl ?_
    show (Lease.redraw t.lease).held = _
    rw [now at_g]
    unfold Lease.redraw
    split <;> rfl
  | check at_g =>
    refine moves_quiet rfl rfl rfl ?_
    rw [now at_g]
    split <;> rfl

/-- **A step of a task.** It moves proxies as they are, or it records how an attempt ended in the one it works with. -/
theorem step_values (sound : t.Sound) (h : t.step sh i = some (sh', t')) :
    (Moves sh t sh' t' ∧ t.client.concluded t'.client = none) ∨
    ∃ p o, sh' = sh ∧ t'.lease = t.lease ∧ t.client.held = some p ∧ t'.client.held = some (Served.record p o) ∧
      t.client.concluded t'.client = some (p.tag, o) := by
  have other {d : Demand} {r : Reply} {c : Client} {sh' : Shared} (asks : t.client.demand = d) (busy : d ≠ .nothing)
      (answered : t.client.answer r = some c) (got : ∀ p, r ≠ .got p) (returned : ∀ b, r ≠ .returned b)
      (pool : ∀ p ∈ sh'.values, p ∈ sh.values) (evicted : sh'.evicted = sh.evicted) :
      Moves sh t sh' { t with client := c } ∧ t.client.concluded c = none := by
    have rest := Client.working_of_demand (asks ▸ busy)
    have same : Task.values { t with client := c } = t.values := by
      simp only [values, Client.held_of_other answered got returned rest]
    refine ⟨⟨?_, ?_, ?_⟩, Client.concluded_idle rest⟩
    · intro p mem
      rw [same, List.mem_append] at mem
      exact List.mem_append.2 (mem.imp_left (pool p))
    · intro p mem
      exact Or.inl (List.mem_append.2 ((List.mem_append.1 mem).imp_left (pool p)))
    · intro x mem
      rw [evicted] at mem
      exact Or.inl mem
  cases step_move h with
  | io moved =>
    rcases Client.turn_io moved with ⟨same, none⟩ | ⟨p, o, before, after, ended⟩
    · exact Or.inl ⟨moves_quiet rfl rfl same rfl, none⟩
    · exact Or.inr ⟨p, o, rfl, rfl, before, after, ended⟩
  | lease get moved =>
    refine Or.inl ⟨moves_lease (Client.held_of_get get) moved, ?_⟩
    exact Client.concluded_idle (Client.working_of_demand (by simp [get]))
  | @deliver _ _ _ r c get at_g answered =>
    refine Or.inl ⟨⟨?_, ?_, fun x mem => Or.inl mem⟩, Client.concluded_idle (Client.working_of_demand (by simp [get]))⟩
    · intro p mem
      have before : t.lease.held = r := by rw [Lease.State.held, at_g]
      simp only [values, Client.held_of_got answered, Lease.State.held, Lease.fresh, Option.toList_none, List.append_nil] at mem
      simp only [values, before, Client.held_of_get get, Option.toList_none, List.nil_append]
      exact mem
    · intro p mem
      simp only [Lease.State.held, Lease.fresh, Option.toList_none, List.append_nil] at mem
      exact Or.inl (List.mem_append_left _ mem)
  | @put now p failed c asks answered =>
    have idle := sound.none_made asks (by simp)
    have gone := Client.held_answer answered
    refine Or.inl ⟨moves_putBack ?_ ?_, Client.concluded_idle (Client.working_of_demand (by simp [asks]))⟩
    · rw [values, Client.held_of_put asks]
      exact List.mem_append_left _ List.mem_cons_self
    · simp only [values, idle, Option.map_eq_none_iff.1 gone, Option.toList_none, List.append_nil]
  | notify asks answered | rotate asks answered | lookUp asks answered | record asks answered =>
    exact Or.inl (other asks (by simp) answered (by simp) (by simp) (fun _ mem => mem) rfl)
  | @remove _ addr _ asks answered =>
    refine Or.inl (other asks (by simp) answered (by simp) (by simp) ?_ rfl)
    intro p mem
    exact (List.filter_sublist.map Pooled.proxy).subset mem

end Task

/-! ## The proxies of the system -/

namespace Sys
variable {s t u : Sys} {b c : Books} {i : Input} {is js : List Input}

/-- The proxies in the vector and with the tasks. -/
def values (s : Sys) : List Proxy := s.shared.values ++ s.tasks.flatMap Task.values

/-- Those with which no client works: in the vector, or in a `get`. -/
def free (s : Sys) : List Proxy := s.shared.values ++ s.tasks.flatMap fun task => task.lease.held.toList

theorem values_ident (s : Sys) : s.values.map Proxy.ident = s.pool.idents ++ s.leased := by
  have tasks : (s.tasks.flatMap Task.values).map Proxy.ident = s.leased := by
    rw [List.map_flatMap, leased]
    exact congrArg (fun f => s.tasks.flatMap f) (funext Task.values_ident)
  rw [values, List.map_append, tasks, Shared.values, List.map_map]
  rfl

/-- What a step does to the proxies: it moves them, or records in one how an attempt ended, or supplies one. -/
inductive Entry (s t : Sys) : Option (Nat × Served) → Option Proxy → Prop
  | moves : (∀ p ∈ t.values, p ∈ s.values) →
      (∀ p ∈ t.free, p ∈ s.free ∨ (p ∈ s.values ∧ Pool.unhealthy s.pool.config p = false)) →
      (∀ x ∈ t.shared.evicted, x ∈ s.shared.evicted ∨ ∃ p ∈ s.values, p.ident = x ∧ Pool.unhealthy s.pool.config p = true) →
      t.admitted = s.admitted → Entry s t none none
  | records {p : Proxy} {o : Served} {others : List Proxy} : s.values.Perm (p :: others) →
      t.values.Perm (Served.record p o :: others) → (∀ q ∈ t.free, q ∈ s.free ∧ q ∈ others) →
      t.shared.evicted = s.shared.evicted → t.admitted = s.admitted → Entry s t (some (p.tag, o)) none
  | supplies {p : Proxy} : (∀ q ∈ t.values, q = p ∨ q ∈ s.values) → (∀ q ∈ t.free, q = p ∨ q ∈ s.free) →
      t.shared.evicted = s.shared.evicted → p.tag = s.admitted.length → t.admitted = s.admitted ++ [p.ident] →
      Entry s t none (some p)

theorem entry_same (values : t.values = s.values) (free : t.free = s.free) (evicted : t.shared.evicted = s.shared.evicted)
    (admitted : t.admitted = s.admitted) : Entry s t none none := by
  refine .moves ?_ ?_ ?_ admitted
  · intro p mem
    exact values ▸ mem
  · intro p mem
    exact Or.inl (free ▸ mem)
  · intro x mem
    exact Or.inl (evicted ▸ mem)

/-- A push from outside. -/
theorem entry_push {p : Proxy} (pushed : t.shared.values = s.shared.values ++ [p]) (tasks : t.tasks = s.tasks)
    (evicted : t.shared.evicted = s.shared.evicted) (tag : p.tag = s.admitted.length)
    (admitted : t.admitted = s.admitted ++ [p.ident]) : Entry s t none (some p) := by
  refine .supplies ?_ ?_ evicted tag admitted
  · intro q mem
    simp only [values, pushed, tasks, List.mem_append, List.mem_singleton] at mem ⊢
    rcases mem with (old | new) | held
    · exact Or.inr (Or.inl old)
    · exact Or.inl new
    · exact Or.inr (Or.inr held)
  · intro q mem
    simp only [free, pushed, tasks, List.mem_append, List.mem_singleton] at mem ⊢
    rcases mem with (old | new) | held
    · exact Or.inr (Or.inl old)
    · exact Or.inl new
    · exact Or.inr (Or.inr held)

/-- Entries leave the vector. -/
theorem entry_take (values : ∀ p ∈ t.shared.values, p ∈ s.shared.values) (tasks : t.tasks = s.tasks)
    (evicted : t.shared.evicted = s.shared.evicted) (admitted : t.admitted = s.admitted) : Entry s t none none := by
  refine .moves ?_ ?_ ?_ admitted
  · intro p mem
    rw [Sys.values, tasks, List.mem_append] at mem
    exact List.mem_append.2 (mem.imp_left (values p))
  · intro p mem
    rw [free, tasks, List.mem_append] at mem
    exact Or.inl (List.mem_append.2 (mem.imp_left (values p)))
  · intro x mem
    exact Or.inl (evicted ▸ mem)

/-- **A step of the system, for the books.** -/
theorem step_entry (sound : ∀ task ∈ s.tasks, task.Sound) (h : step s i = some t) :
    Entry s t (s.concluded i t) (s.supplies i) := by
  cases step_move h with
  | @imported proxy _ accepted =>
    have supplied : s.supplies (.importNext proxy) = some (s.tagged proxy) := if_pos accepted
    rw [supplied]
    exact entry_push (by simp [Shared.values, setPool, Pool.push, pool]) rfl rfl rfl rfl
  | @screened proxy _ refused =>
    have nothing : s.supplies (.importNext proxy) = none := if_neg refused
    rw [nothing]
    exact entry_same rfl rfl rfl rfl
  | announced | ended | exhausted => exact entry_same rfl rfl rfl rfl
  | accept | connect =>
    refine entry_same ?_ ?_ rfl rfl
    · simp [values, Task.values, Task.start, Client.held, Handler.State.held, Handler.accept, Connector.State.held,
        Connector.start, Lease.fresh, Lease.State.held]
    · simp [free, Task.start, Lease.fresh, Lease.State.held]
  | @held proxy there =>
    have nothing : s.supplies (.add proxy) = none := if_pos there
    rw [nothing]
    exact entry_same rfl rfl rfl rfl
  | @added proxy absent =>
    have supplied : s.supplies (.add proxy) = some (s.tagged proxy) := if_neg absent
    rw [supplied]
    exact entry_push (by simp [Shared.values, setPool, Pool.push, Pool.notifyWaiters, pool]) rfl rfl rfl rfl
  | remove =>
    refine entry_take ?_ rfl rfl rfl
    intro p mem
    exact (List.filter_sublist.map Pooled.proxy).subset mem
  | @tryGet scheme country =>
    obtain ⟨taken, state, perm, eq, -⟩ := s.shared.tryGet_frame scheme country
    refine entry_take ?_ rfl ?_ rfl
    · intro p mem
      rw [Shared.values, eq] at mem
      exact (perm.map Pooled.proxy).subset (by simpa using Or.inr (List.mem_map.1 mem))
    · show (s.shared.tryGet scheme country).evicted = s.shared.evicted
      unfold Shared.tryGet
      split <;> rfl
  | @task k j task task' sh at_k moved =>
    obtain ⟨front, back, split, frame⟩ := exists_set_frame at_k
    have inside := (List.getElem?_eq_some_iff.1 at_k).1
    have ended : s.concluded (.task k j) { s with shared := sh, tasks := s.tasks.set k task' } =
        task.client.concluded task'.client := by
      simp only [concluded, at_k, List.getElem?_set_self inside, Option.bind_some]
    have was (f : Task → List Proxy) : s.tasks.flatMap f = front.flatMap f ++ (f task ++ back.flatMap f) := by
      rw [split, List.flatMap_append, List.flatMap_cons]
    have now (f : Task → List Proxy) : (s.tasks.set k task').flatMap f = front.flatMap f ++ (f task' ++ back.flatMap f) := by
      rw [frame, List.flatMap_append, List.flatMap_cons]
    rw [ended]
    rcases Task.step_values (sound task (List.mem_of_getElem? at_k)) moved with ⟨moves, none⟩ |
      ⟨p, o, rfl, lease, before, after, some⟩
    · rw [none]
      refine .moves ?_ ?_ ?_ rfl
      · intro p mem
        have here := moves.values p
        simp only [values, was, now, List.mem_append] at mem here ⊢
        tauto
      · intro p mem
        have here := moves.free p
        simp only [values, free, pool, was, now, List.mem_append] at mem here ⊢
        tauto
      · intro x mem
        refine (moves.evicted x mem).imp_right ?_
        rintro ⟨p, holds, rest⟩
        refine ⟨p, List.mem_append_right _ ?_, rest⟩
        exact List.mem_flatMap.2 ⟨task, List.mem_of_getElem? at_k, holds⟩
    · rw [some]
      have middle (q : Proxy) : (s.shared.values ++ (front.flatMap Task.values ++ (q :: task.lease.held.toList ++ back.flatMap Task.values))).Perm
          (q :: (s.shared.values ++ front.flatMap Task.values ++ (task.lease.held.toList ++ back.flatMap Task.values))) := by
        rw [← List.append_assoc, List.cons_append]
        exact List.perm_middle
      refine @Entry.records s _ p o (s.shared.values ++ front.flatMap Task.values ++ (task.lease.held.toList ++ back.flatMap Task.values))
        ?_ ?_ ?_ rfl rfl
      · rw [values, was, Task.values, before]
        exact middle p
      · rw [values, now, Task.values, after, lease]
        exact middle (Served.record p o)
      intro q mem
      have keeps (task : Task) : q ∈ task.lease.held.toList → q ∈ task.values := fun there => List.mem_append_right _ there
      simp only [free, now, lease, List.mem_append] at mem
      simp only [free, was, List.mem_append]
      rcases mem with here | here | here | here
      · exact ⟨Or.inl here, Or.inl (Or.inl here)⟩
      · obtain ⟨other, there, holds⟩ := List.mem_flatMap.1 here
        exact ⟨Or.inr (Or.inl here), Or.inl (Or.inr (List.mem_flatMap.2 ⟨other, there, keeps other holds⟩))⟩
      · exact ⟨Or.inr (Or.inr (Or.inl here)), Or.inr (Or.inl here)⟩
      · obtain ⟨other, there, holds⟩ := List.mem_flatMap.1 here
        exact ⟨Or.inr (Or.inr (Or.inr here)), Or.inr (Or.inr (List.mem_flatMap.2 ⟨other, there, keeps other holds⟩))⟩

/-! ## The books are kept -/

/-- An attempt is recorded by a `Served.record`, which leaves the instance. -/
theorem record_tag (p : Proxy) (o : Served) : (Served.record p o).tag = p.tag := by
  rcases o with (_ | e | e | _) | (_ | e) <;> rfl

theorem recordAll_concat (q : Proxy) (os : List Served) (o : Served) :
    Served.recordAll q (os ++ [o]) = Served.record (Served.recordAll q os) o := by
  rw [Served.recordAll, List.foldl_append]
  rfl

/-- The tags of the proxies in the vector and with the tasks. -/
theorem Kept.values_nodup (kept : s.Kept) : (s.values.map Proxy.tag).Nodup := by
  have places : (s.pool.idents ++ s.leased).Sublist s.whereabouts := by
    unfold whereabouts
    rw [List.append_assoc, List.append_assoc]
    exact List.sublist_append_left _ _
  have nodup := (places.map Ident.tag).nodup kept.tags_nodup
  rw [← values_ident, List.map_map] at nodup
  exact nodup

/-- An instance that is evicted is neither in the vector nor with a task. -/
theorem Kept.evicted_apart (kept : s.Kept) {x : Ident} (out : x ∈ s.shared.evicted) {p : Proxy} (mem : p ∈ s.values) : x.tag ≠ p.tag := by
  have live : p.ident ∈ s.pool.idents ++ s.leased := by
    rw [← values_ident]
    exact List.mem_map_of_mem mem
  have nodup := kept.tags_nodup
  rw [whereabouts, List.append_assoc, List.append_assoc, List.map_append, List.nodup_append] at nodup
  intro same
  exact nodup.2.2 p.tag (List.mem_map.2 ⟨p.ident, live, rfl⟩) x.tag
    (List.mem_map_of_mem (List.mem_append_left _ out)) same.symm

/-- What holds of the books. -/
structure Balanced (s : Sys) (b : Books) : Prop where
  kept : s.Kept
  supplied : b.supplied.map Proxy.ident = s.admitted
  blank : ∀ n, s.admitted.length ≤ n → b.log n = []
  tells : ∀ p ∈ s.values, b.Tells p
  fit : ∀ p ∈ s.free, b.log p.tag = [] ∨ Pool.unhealthy s.pool.config p = false
  evicted : ∀ x ∈ s.shared.evicted, ∃ q, b.supplied[x.tag]? = some q ∧
    Pool.unhealthy s.pool.config (Served.recordAll q (b.log x.tag)) = true

theorem Balanced.length (balanced : s.Balanced b) : b.supplied.length = s.admitted.length := by
  rw [← balanced.supplied, List.length_map]

theorem balanced_initial (start : Initial s) : s.Balanced s.opening := by
  have kept := kept_initial start
  have idle : s.tasks = [] ∧ s.shared.evicted = [] ∧ s.pool.idents = s.admitted := by
    rcases start with ⟨auth, proxies, config, rfl⟩ | ⟨auth, config, rfl⟩
    · refine ⟨rfl, rfl, ?_⟩
      -- the screen of `from_proxies` accepts what it has accepted before
      show Pool.idents (Pool.fromProxies _ config) = _
      rw [Pool.idents, Pool.fromProxies, List.filter_eq_self.2, List.map_map]
      · rfl
      · intro p mem
        obtain ⟨k, lt, rfl⟩ := List.mem_mapIdx.1 mem
        exact (List.mem_filter.1 (List.getElem_mem lt)).2
    · exact ⟨rfl, rfl, rfl⟩
  obtain ⟨tasks, none_evicted, pooled⟩ := idle
  refine ⟨kept, ?_, fun _ _ => rfl, ?_, fun _ _ => Or.inl rfl, ?_⟩
  · rw [← pooled, opening, List.map_map]
    rfl
  · intro p mem
    have tags : s.shared.values.map Proxy.tag = List.range s.shared.values.length := by
      have enrolled := kept.tags
      rw [← pooled, Pool.idents, List.map_map, List.length_map] at enrolled
      rw [Shared.values, List.map_map, List.length_map]
      exact enrolled
    rw [values, tasks, List.flatMap_nil, List.append_nil] at mem
    obtain ⟨k, at_k⟩ := List.mem_iff_getElem?.1 mem
    have tag : p.tag = k := by
      have both := congrArg (fun l : List Nat => l[k]?) tags
      have inside := (List.getElem?_eq_some_iff.1 at_k).1
      simpa [at_k, List.getElem?_range inside] using both
    exact ⟨p, by rw [tag]; exact at_k, rfl⟩
  · rw [none_evicted]
    simp

/-- **One step and the books.** -/
theorem balanced_step (balanced : s.Balanced b) (h : step s i = some t) : t.Balanced (observe b s i t) := by
  have kept := kept_step balanced.kept h
  have config := step_config balanced.kept.sound h
  have entry := step_entry balanced.kept.sound h
  unfold observe
  generalize s.concluded i t = ended at entry ⊢
  generalize s.supplies i = given at entry ⊢
  cases entry with
  | moves values free evicted admitted =>
    refine ⟨kept, ?_, ?_, ?_, ?_, ?_⟩
    · simpa [admitted] using balanced.supplied
    · rw [admitted]
      exact balanced.blank
    · intro p mem
      simpa [Books.Tells] using balanced.tells p (values p mem)
    · intro p mem
      rw [config]
      rcases free p mem with old | ⟨-, well⟩
      · exact balanced.fit p old
      · exact Or.inr well
    · intro x mem
      rw [config]
      rcases evicted x mem with old | ⟨p, there, rfl, sick⟩
      · simpa using balanced.evicted x old
      · obtain ⟨q, supplied, told⟩ := balanced.tells p there
        refine ⟨q, by rw [Option.toList_none, List.append_nil]; exact supplied, ?_⟩
        show Pool.unhealthy _ (Served.recordAll q (b.log p.tag)) = true
        rw [← told]
        exact sick
  | @records p o others before after free evicted admitted =>
    have tags := (before.map Proxy.tag).nodup_iff.1 balanced.kept.values_nodup
    rw [List.map_cons, List.nodup_cons] at tags
    have apart {q : Proxy} (mem : q ∈ others) : q.tag ≠ p.tag := fun same => tags.1 (same ▸ List.mem_map_of_mem mem)
    have holds : p ∈ s.values := before.mem_iff.2 List.mem_cons_self
    obtain ⟨q, supplied, told⟩ := balanced.tells p holds
    have old {n : Nat} (other : n ≠ p.tag) : (b.enter p.tag o).log n = b.log n := Function.update_of_ne other _ _
    have new : (b.enter p.tag o).log p.tag = b.log p.tag ++ [o] := Function.update_self _ _ _
    refine ⟨kept, ?_, ?_, ?_, ?_, ?_⟩
    · rw [admitted]
      exact balanced.supplied
    · intro n late
      rw [admitted] at late
      have inside := (List.getElem?_eq_some_iff.1 supplied).1
      rw [balanced.length] at inside
      rw [old (by omega)]
      exact balanced.blank n late
    · intro r mem
      rcases List.mem_cons.1 (after.mem_iff.1 mem) with rfl | there
      · refine ⟨q, by rw [record_tag]; exact supplied, ?_⟩
        rw [record_tag, new, recordAll_concat, ← told]
      · obtain ⟨q', supplied', told'⟩ := balanced.tells r (before.mem_iff.2 (List.mem_cons_of_mem p there))
        exact ⟨q', supplied', by rw [old (apart there)]; exact told'⟩
    · intro r mem
      obtain ⟨was, there⟩ := free r mem
      rw [config, old (apart there)]
      exact balanced.fit r was
    · intro x mem
      rw [evicted] at mem
      rw [config, old (balanced.kept.evicted_apart mem holds)]
      exact balanced.evicted x mem
  | @supplies p values free evicted tag admitted =>
    have length := balanced.length
    have last : (b.supplied ++ [p])[p.tag]? = some p := by
      rw [tag, ← length]
      exact List.getElem?_concat_length
    have front {n : Nat} {q : Proxy} (at_n : b.supplied[n]? = some q) : (b.supplied ++ [p])[n]? = some q := by
      rw [List.getElem?_append_left (List.getElem?_eq_some_iff.1 at_n).1]
      exact at_n
    have unused : b.log p.tag = [] := balanced.blank p.tag (by omega)
    refine ⟨kept, ?_, ?_, ?_, ?_, ?_⟩
    · show (b.supplied ++ [p]).map Proxy.ident = t.admitted
      rw [List.map_append, balanced.supplied, admitted]
      rfl
    · intro n late
      rw [admitted, List.length_append] at late
      exact balanced.blank n (by omega)
    · intro q mem
      rcases values q mem with rfl | old
      · refine ⟨q, last, ?_⟩
        show q = Served.recordAll q (b.log q.tag)
        rw [unused]
        rfl
      · obtain ⟨q', supplied, told⟩ := balanced.tells q old
        exact ⟨q', front supplied, told⟩
    · intro q mem
      rw [config]
      rcases free q mem with rfl | old
      · exact Or.inl unused
      · exact balanced.fit q old
    · intro x mem
      rw [evicted] at mem
      rw [config]
      obtain ⟨q, supplied, sick⟩ := balanced.evicted x mem
      exact ⟨q, front supplied, sick⟩

theorem balanced_run (start : Initial s) (h : run (noting step observe) (s, s.opening) is = some (t, b)) : t.Balanced b := by
  refine run_preserves (P := fun w : Sys × Books => w.1.Balanced w.2) ?_ (balanced_initial start) h
  rintro ⟨s, b⟩ i ⟨t, c⟩ balanced next
  obtain ⟨moved, eq⟩ := noting_eq next
  rw [eq]
  exact balanced_step balanced moved

/-! ## What the statistics count -/

theorem requests_record (p : Proxy) (o : Served) : (Served.record p o).requests = p.requests + 1 := by
  rcases o with (_ | e | e | _) | (_ | e) <;> rfl

theorem errorTotal_record (p : Proxy) (o : Served) :
    (Served.record p o).errorTotal = p.errorTotal + if o.sampled then 0 else 1 := by
  rcases o with (_ | e | e | _) | (_ | e)
  case relayed.retryableFailure | relayed.clientCommitted | dialled.some => exact Proxy.errorTotal_failed p e
  all_goals exact (UInt32.add_zero _).symm

/-- The requests are the attempts. -/
theorem requests_recordAll (q : Proxy) (os : List Served) :
    (Served.recordAll q os).requests = q.requests + UInt32.ofNat os.length := by
  induction os using List.reverseRecOn with
  | nil => exact (UInt32.add_zero _).symm
  | append_singleton os o ih =>
    rw [recordAll_concat, requests_record, ih, List.length_append, List.length_singleton, UInt32.ofNat_add, UInt32.add_assoc]
    rfl

/-- The errors are the attempts that failed. -/
theorem errorTotal_recordAll (q : Proxy) (os : List Served) :
    (Served.recordAll q os).errorTotal = q.errorTotal + UInt32.ofNat (os.countP fun o => !o.sampled) := by
  induction os using List.reverseRecOn with
  | nil => exact (UInt32.add_zero _).symm
  | append_singleton os o ih =>
    rw [recordAll_concat, errorTotal_record, ih, List.countP_append, UInt32.ofNat_add, UInt32.add_assoc]
    cases sample : o.sampled <;> simp [sample]

/-- **The books balance.** In every state of every interleaving, wherever a proxy is in the system, it is the proxy that
was supplied for its instance, with the attempts that were made with the instance recorded in it, each once and in the
order in which they ended. So it counts as many requests more as there were attempts, and as many errors more as failed. -/
theorem books_balance (start : Initial s) (h : run (noting step observe) (s, s.opening) is = some (t, b)) :
    b.supplied.map Proxy.ident = t.admitted ∧
    ∀ p ∈ t.values, ∃ q, b.supplied[p.tag]? = some q ∧ p = Served.recordAll q (b.log p.tag) ∧
      p.requests = q.requests + UInt32.ofNat (b.log p.tag).length ∧
      p.errorTotal = q.errorTotal + UInt32.ofNat ((b.log p.tag).countP fun o => !o.sampled) := by
  have balanced := balanced_run start h
  refine ⟨balanced.supplied, ?_⟩
  intro p mem
  obtain ⟨q, supplied, told⟩ := balanced.tells p mem
  refine ⟨q, supplied, told, ?_, ?_⟩
  · rw [← requests_recordAll, ← told]
  · rw [← errorTotal_recordAll, ← told]

/-- The books of a connector call that fails to connect. -/
theorem books_balance_connector :
    ∃ t b, run (noting step observe) (fromProxies none [httpProxy 80] PoolConfig.default,
        (fromProxies none [httpProxy 80] PoolConfig.default).opening) (connecting ++ failing) = some (t, b) ∧
      b.log 0 = [.dialled (some .connFailed)] ∧ t.values.map Proxy.tag = [0] ∧
      ∀ p ∈ t.values, p.requests = 1 ∧ p.errorTotal = 1 := by
  have ran : ∃ t b, run (noting step observe) (fromProxies none [httpProxy 80] PoolConfig.default,
        (fromProxies none [httpProxy 80] PoolConfig.default).opening) (connecting ++ failing) = some (t, b) ∧
      b.log 0 = [.dialled (some .connFailed)] ∧ t.values.map Proxy.tag = [0] ∧
      ∀ q, b.supplied[0]? = some q → q.requests = 0 ∧ q.errorTotal = 0 :=
    ⟨_, _, rfl, rfl, rfl, by rintro q ⟨⟩; exact ⟨rfl, rfl⟩⟩
  obtain ⟨t, b, ran, log, tags, fresh⟩ := ran
  refine ⟨t, b, ran, log, tags, ?_⟩
  intro p mem
  obtain ⟨q, supplied, -, requests, errors⟩ := (books_balance (Or.inl ⟨_, _, _, rfl⟩) ran).2 p mem
  have tag : p.tag = 0 := by
    have here := List.mem_map_of_mem (f := Proxy.tag) mem
    rw [tags] at here
    exact List.mem_singleton.1 here
  rw [tag] at supplied requests errors
  rw [log] at requests errors
  rw [requests, errors, (fresh q supplied).1, (fresh q supplied).2]
  exact ⟨rfl, rfl⟩

/-! ## Eviction -/

/-- What was evicted stays so, and what is handed out is in the vector or with a task. -/
theorem step_out (kept : s.Kept) (h : step s i = some t) : s.shared.evicted <+: t.shared.evicted ∧
    ∃ new, t.shared.handouts = s.shared.handouts ++ new ∧ ∀ p ∈ new, p.ident ∈ s.pool.idents ++ s.leased := by
  rcases step_cases kept.sound h with ⟨⟨before, after, others, was, -, effect⟩, -, -⟩ | ⟨p, admits⟩
  · constructor
    · exact effect.evicted
    · obtain ⟨new, handouts, from_here⟩ := effect.handouts
      refine ⟨new, handouts, ?_⟩
      intro p mem
      refine List.mem_append.2 ((from_here p mem).imp_right fun held => ?_)
      exact was.mem_iff.2 (List.mem_append_left _ held)
  · obtain ⟨epoch, shared⟩ := admits.shared
    rw [shared]
    exact ⟨List.prefix_refl _, [], by simp, by simp⟩

/-- **Eviction is by the books, and final.** In every state of every interleaving an entry of the vector was never used
or is healthy by its statistics, and an evicted instance is not; and from then on that instance is not in the vector,
with no task, handed out to nobody, and no attempt is made with it. -/
theorem evicted_by_books (start : Initial s) (h : run (noting step observe) (s, s.opening) is = some (t, b)) :
    (∀ e ∈ t.pool.state, b.log e.proxy.tag = [] ∨ Pool.unhealthy t.pool.config e.proxy = false) ∧
    ∀ x ∈ t.shared.evicted,
      (∃ q, b.supplied[x.tag]? = some q ∧ Pool.unhealthy t.pool.config (Served.recordAll q (b.log x.tag)) = true) ∧
      ∀ js u c, run (noting step observe) (t, b) js = some (u, c) →
        x ∉ u.pool.idents ∧ x ∉ u.leased ∧ c.log x.tag = b.log x.tag ∧
          ∃ new, u.shared.handouts = t.shared.handouts ++ new ∧ x ∉ new.map Proxy.ident := by
  have balanced := balanced_run start h
  constructor
  · intro e mem
    exact balanced.fit e.proxy (List.mem_append_left _ (List.mem_map_of_mem mem))
  · intro x out
    refine ⟨balanced.evicted x out, ?_⟩
    intro js u c later
    have gone (w : Sys) (kept : w.Kept) (out : x ∈ w.shared.evicted) : x ∉ w.pool.idents ++ w.leased := by
      intro live
      rw [← values_ident] at live
      obtain ⟨p, mem, rfl⟩ := List.mem_map.1 live
      exact kept.evicted_apart out mem rfl
    have inv : u.Kept ∧ x ∈ u.shared.evicted ∧ c.log x.tag = b.log x.tag ∧
        ∃ new, u.shared.handouts = t.shared.handouts ++ new ∧ x ∉ new.map Proxy.ident := by
      refine run_preserves (P := fun w : Sys × Books => w.1.Kept ∧ x ∈ w.1.shared.evicted ∧ w.2.log x.tag = b.log x.tag ∧
        ∃ new, w.1.shared.handouts = t.shared.handouts ++ new ∧ x ∉ new.map Proxy.ident) ?_ ⟨balanced.kept, out, rfl, [], by simp, by simp⟩ later
      rintro ⟨v, d⟩ i ⟨w, e⟩ ⟨kept, out, log, new, handouts, clean⟩ next
      obtain ⟨moved, eq⟩ := noting_eq next
      obtain ⟨evicted, more, handed, from_here⟩ := step_out kept moved
      refine ⟨kept_step kept moved, evicted.subset out, ?_, new ++ more, ?_, ?_⟩
      · rw [eq, ← log]
        have entry := step_entry kept.sound moved
        unfold observe
        generalize v.concluded i w = ended at entry ⊢
        generalize v.supplies i = given at entry
        cases entry with
        | moves | supplies => rfl
        | records before => exact Function.update_of_ne (kept.evicted_apart out (before.mem_iff.2 List.mem_cons_self)) _ _
      · rw [handed, handouts, List.append_assoc]
      · rw [List.map_append, List.mem_append]
        rintro (old | fresh)
        · exact clean old
        · obtain ⟨p, mem, rfl⟩ := List.mem_map.1 fresh
          exact gone v kept out (from_here p mem)
    obtain ⟨kept, out, log, rest⟩ := inv
    have apart := gone u kept out
    rw [List.mem_append, not_or] at apart
    exact ⟨apart.1, apart.2, log, rest⟩

/-- A pool that evicts on the first request. -/
def strict : Sys := fromProxies none [httpProxy 80] { PoolConfig.default with minReq := 1 }

/-- One failed dial evicts there. -/
theorem evicted_by_books_connector :
    ∃ t b, run (noting step observe) (strict, strict.opening) (connecting ++ failing.take 2) = some (t, b) ∧
      ∃ x ∈ t.shared.evicted, x.tag = 0 ∧
        ∃ q, b.supplied[0]? = some q ∧ Pool.unhealthy t.pool.config (Served.recordAll q (b.log 0)) = true := by
  have ran : (run (noting step observe) (strict, strict.opening) (connecting ++ failing.take 2)).map
      (fun w => w.1.shared.evicted.map Ident.tag) = some [0] := by decide +kernel
  obtain ⟨⟨t, b⟩, ran, out⟩ := Option.map_eq_some_iff.1 ran
  obtain ⟨x, mem, tag⟩ : ∃ x ∈ t.shared.evicted, x.tag = 0 := by
    apply List.mem_map.1
    rw [out]
    exact List.mem_cons_self
  obtain ⟨sick, -⟩ := (evicted_by_books (Or.inl ⟨_, _, _, rfl⟩) ran).2 x mem
  rw [tag] at sick
  exact ⟨t, b, ran, x, mem, tag, sick⟩

end Sys

end ProxyBroker
