import ProxyBroker.System
import ProxyBroker.Server.Effect

/-!
# Nothing is lost

The lease of a task begins when `get` draws a proxy and ends when the proxy is back in the vector or
evicted. `Task.step_effect` says which effects a step of a task can have on the shared state, and
`Sys.step_cases` does so for the system; the ledger of the whole system then moves by one `Ledger.Step`
at a time (`Sys.step_ledger`). Conservation in every interleaving is the invariant rule over that.
-/

namespace ProxyBroker
open Lib Server

/-! ## The client's lease -/

namespace Client
variable {c d : Client}

/-- The lease after an answer. -/
def heldAfter (c : Client) : Reply → Option Ident
  | .got r => r.map Proxy.ident
  | .returned _ => none
  | _ => c.held.map Proxy.ident

theorem held_answer {r : Reply} (h : c.answer r = some d) : d.held.map Proxy.ident = c.heldAfter r := by
  cases c with
  | serving ctx s =>
    obtain ⟨t, next, rfl⟩ := Option.map_eq_some_iff.1 h
    have moved := Handler.held_step next
    cases r <;> exact moved
  | connecting s =>
    cases r
    case got p =>
      obtain ⟨t, next, rfl⟩ := Option.map_eq_some_iff.1 h
      exact Connector.held_step next
    case returned pushed =>
      obtain ⟨t, next, rfl⟩ := Option.map_eq_some_iff.1 h
      exact Connector.held_step next
    case notified =>
      obtain ⟨t, next, rfl⟩ := Option.map_eq_some_iff.1 h
      exact Connector.held_step next
    all_goals cases h

/-- I/O neither takes nor returns a lease. -/
theorem held_io {i : Io} (h : c.io i = some d) : c.demand = .nothing ∧ d.held.map Proxy.ident = c.held.map Proxy.ident := by
  unfold io at h
  split at h
  · rename_i ctx s i nothing
    obtain ⟨t, next, rfl⟩ := Option.map_eq_some_iff.1 h
    refine ⟨nothing, ?_⟩
    have moved := Handler.held_step next
    cases i
    case got r =>
      obtain ⟨sv, at_s⟩ := Handler.getting_of_got next
      simp [demand, at_s] at nothing
    case returned pushed =>
      obtain ⟨sv, p, failed, again, at_s⟩ := Handler.putting_of_returned next
      simp [demand, at_s] at nothing
    all_goals exact moved
  · rename_i s i nothing
    obtain ⟨t, next, rfl⟩ := Option.map_eq_some_iff.1 h
    refine ⟨nothing, ?_⟩
    have moved := Connector.held_step next
    cases i
    case got r =>
      have at_s := Connector.getting_of_got next
      simp [demand, at_s] at nothing
    case returned pushed =>
      obtain ⟨p, failed, again, at_s⟩ := Connector.putting_of_returned next
      simp [demand, at_s] at nothing
    all_goals exact moved
  · cases h

/-- A client that asks for a lease holds none. -/
theorem held_of_get {scheme : Scheme} {key : ClientKey} (h : c.demand = .get scheme key) : c.held = none := by
  cases c with
  | serving ctx s => cases at_s : s.phase <;> simp_all [demand, held, Handler.State.held]
  | connecting s => cases at_s : s.phase <;> simp_all [demand, held, Connector.State.held]

/-- A client that returns a lease returns the one it holds. -/
theorem held_of_put {p : Proxy} {failed : Bool} (h : c.demand = .put p failed) : c.held = some p := by
  cases c with
  | serving ctx s => cases at_s : s.phase <;> simp_all [demand, held, Handler.State.held]
  | connecting s => cases at_s : s.phase <;> simp_all [demand, held, Connector.State.held]

/-- A client that is done holds nothing and asks for nothing. -/
theorem held_of_ended (h : c.ended) : c.held = none ∧ c.demand = .nothing := by
  cases c with
  | serving ctx s =>
    have at_s : s.phase = .finished := h
    simp [held, Handler.State.held, demand, at_s]
  | connecting s =>
    obtain ⟨o, at_s⟩ := h
    simp [held, Connector.State.held, demand, at_s]

end Client

/-! ## A step of a task -/

namespace Task
variable {sh sh' : Shared} {t t' : Task} {c : Client} {i : Input}

/-- A lease is in the making only while the client asks for one, and the account is balanced: what was
taken is what was returned and what is held. -/
structure Sound (t : Task) : Prop where
  idle : t.lease.held = none ∨ ∃ scheme key, t.client.demand = .get scheme key
  balanced : t.account.taken = t.account.returned ++ t.held

theorem sound_start (client : Client) (idle : client.held = none) : (start client).Sound :=
  ⟨Or.inl rfl, by simp [start, held, idle, Lease.State.held, Lease.fresh]⟩

/-- While the client asks for something else, no lease is in the making. -/
theorem Sound.none_made {d : Demand} (sound : t.Sound) (asks : t.client.demand = d) (other : ∀ scheme key, d ≠ .get scheme key) :
    t.lease.held = none := by
  rcases sound.idle with idle | ⟨scheme, key, get⟩
  · exact idle
  · exact absurd (asks.symm.trans get) (other scheme key)

/-- A task holds at most one lease. -/
theorem Sound.held_length (sound : t.Sound) : t.held.length ≤ 1 := by
  rcases sound.idle with idle | ⟨scheme, key, get⟩
  · cases holds : t.client.held <;> simp [held, idle, holds]
  · cases making : t.lease.held <;> simp [held, Client.held_of_get get, making]

/-- A task that is over holds none. -/
theorem Sound.held_of_ended (sound : t.Sound) (ended : t.client.ended) : t.held = [] := by
  obtain ⟨free, nothing⟩ := Client.held_of_ended ended
  rcases sound.idle with idle | ⟨scheme, key, get⟩
  · simp [held, free, idle]
  · rw [nothing] at get
    cases get

theorem idents_toList {p q : Option Proxy} (same : p.map Proxy.ident = q.map Proxy.ident) :
    p.toList.map Proxy.ident = q.toList.map Proxy.ident := by
  cases p <;> cases q <;> simp_all

theorem held_eq_of_kept (kept : c.held.map Proxy.ident = t.client.held.map Proxy.ident) :
    Task.held { t with client := c } = t.held := by
  simp only [held, idents_toList kept]

/-- A task that takes an answer keeps its lease, unless the answer is about the lease. -/
theorem quiet_effect (sound : t.Sound) (idle : t.lease.held = none) (same : sh.Same sh')
    (kept : c.held.map Proxy.ident = t.client.held.map Proxy.ident) :
    sh.Effect t.held (Task.held { t with client := c }) sh' ∧ Task.Sound { t with client := c } := by
  refine ⟨?_, Or.inl idle, ?_⟩
  · rw [held_eq_of_kept kept]
    exact Shared.Effect.quiet same
  · rw [held_eq_of_kept kept]
    exact sound.balanced

/-- **A step of a task.** -/
theorem step_effect (sound : t.Sound) (h : t.step sh i = some (sh', t')) : sh.Effect t.held t'.held sh' ∧ t'.Sound := by
  cases step_move h with
  | io moved =>
    obtain ⟨nothing, kept⟩ := Client.held_io moved
    exact quiet_effect sound (sound.none_made nothing (by simp)) (Shared.Same.refl sh) kept
  | @lease _ scheme key _ acc g get moved =>
    obtain ⟨effect, keep⟩ := Lease.step_effect moved
    have free := Client.held_of_get get
    have before : t.held = t.lease.idents := by simp [held, free, Lease.State.idents]
    have after : Task.held { t with account := acc, lease := g } = g.idents := by simp [held, free, Lease.State.idents]
    rw [before, after]
    refine ⟨effect, Or.inr ⟨scheme, key, get⟩, ?_⟩
    rw [after]
    exact keep (before ▸ sound.balanced)
  | @deliver _ _ _ r c get at_g answered =>
    have taken : c.held.map Proxy.ident = r.map Proxy.ident := Client.held_answer answered
    have before : t.held = r.toList.map Proxy.ident := by
      simp [held, Client.held_of_get get, Lease.State.held, at_g]
    have after : Task.held { t with client := c, lease := Lease.fresh } = r.toList.map Proxy.ident := by
      simp [held, idents_toList taken, Lease.State.held, Lease.fresh]
    rw [before, after]
    refine ⟨Shared.Effect.deliver r, Or.inl rfl, ?_⟩
    rw [after, ← before]
    exact sound.balanced
  | @put now p failed c asks answered =>
    have idle := sound.none_made asks (by simp)
    have none_left : c.held = none := by
      have gone : c.held.map Proxy.ident = none := Client.held_answer answered
      simpa using gone
    have before : t.held = [p.ident] := by simp [held, Client.held_of_put asks, idle]
    have after (acc : Account) : Task.held { t with client := c, account := acc } = [] := by simp [held, none_left, idle]
    rw [before, after]
    refine ⟨Shared.Effect.giveBack p failed now, Or.inl idle, ?_⟩
    rw [after, List.append_nil, ← before]
    exact sound.balanced
  | notify asks answered | rotate asks answered | record asks answered =>
    exact quiet_effect sound (sound.none_made asks (by simp)) ⟨rfl, rfl, rfl, rfl, rfl, rfl, rfl⟩ (Client.held_answer answered)
  | @remove _ addr _ asks answered =>
    have kept := Client.held_answer answered
    obtain ⟨-, after⟩ := quiet_effect sound (sound.none_made asks (by simp)) (Shared.Same.refl sh) kept
    refine ⟨?_, after⟩
    rw [held_eq_of_kept kept]
    exact Shared.Effect.remove addr
  | lookUp asks answered =>
    exact quiet_effect sound (sound.none_made asks (by simp)) (Shared.Same.refl sh) (Client.held_answer answered)

/-- **What a step of a task is**: a step of its `get`, the end of it, a put, or something that has to do with
neither and at most removes entries from the vector. -/
theorem step_cases (h : t.step sh i = some (sh', t')) :
    (∃ scheme key j, i = .lease j ∧ t.client.demand = .get scheme key ∧ t'.client = t.client ∧
      Lease.step scheme key sh t.account t.lease j = some (sh', t'.account, t'.lease)) ∨
    (∃ scheme key r now, i = .op now ∧ t.client.demand = .get scheme key ∧ t.lease.phase = .returned r ∧
      t'.lease = Lease.fresh ∧ sh'.pool = sh.pool) ∨
    (∃ p failed now, i = .op now ∧ t.client.demand = .put p failed ∧ t'.client.held = none ∧ t'.lease = t.lease ∧
      sh' = sh.putBack p failed now) ∨
    ((∀ scheme key, t.client.demand ≠ .get scheme key) ∧ (∀ p failed, t.client.demand ≠ .put p failed) ∧
      t'.client.held.map Proxy.ident = t.client.held.map Proxy.ident ∧ t'.lease = t.lease ∧
      sh'.pool.sessions = sh.pool.sessions ∧ sh'.pool.state.Sublist sh.pool.state) := by
  cases step_move h with
  | io moved =>
    obtain ⟨nothing, held⟩ := Client.held_io moved
    exact Or.inr (Or.inr (Or.inr ⟨by simp [nothing], by simp [nothing], held, rfl, rfl, List.Sublist.refl _⟩))
  | lease get moved => exact Or.inl ⟨_, _, _, rfl, get, rfl, moved⟩
  | deliver get at_g => exact Or.inr (Or.inl ⟨_, _, _, _, rfl, get, at_g, rfl, rfl⟩)
  | put asks answered =>
    have gone := Client.held_answer answered
    exact Or.inr (Or.inr (Or.inl ⟨_, _, _, rfl, asks, Option.map_eq_none_iff.1 gone, rfl, rfl⟩))
  | remove asks answered =>
    exact Or.inr (Or.inr (Or.inr ⟨by simp [asks], by simp [asks], Client.held_answer answered, rfl, rfl, List.filter_sublist⟩))
  | notify asks answered | rotate asks answered | lookUp asks answered | record asks answered =>
    exact Or.inr (Or.inr (Or.inr ⟨by simp [asks], by simp [asks], Client.held_answer answered, rfl, rfl, List.Sublist.refl _⟩))

/-- A task that asks for no lease is not taking one. -/
def Idle (t : Task) : Prop := t.lease = Lease.fresh ∨ ∃ scheme key, t.client.demand = .get scheme key

theorem Idle.fresh (idle : t.Idle) (other : ∀ scheme key, t.client.demand ≠ .get scheme key) : t.lease = Lease.fresh := by
  rcases idle with fresh | ⟨scheme, key, get⟩
  · exact fresh
  · exact absurd get (other scheme key)

theorem idle_step (idle : t.Idle) (h : t.step sh i = some (sh', t')) : t'.Idle := by
  rcases step_cases h with ⟨scheme, key, j, -, get, same, -⟩ | ⟨-, -, -, -, -, -, -, fresh, -⟩ | ⟨p, failed, now, -, put, -, same, -⟩ |
    ⟨other, -, -, same, -⟩
  · exact Or.inr ⟨scheme, key, by rw [same, get]⟩
  · exact Or.inl fresh
  · exact Or.inl (same.trans (idle.fresh (by simp [put])))
  · exact Or.inl (same.trans (idle.fresh other))

end Task

/-! ## A step of the system -/

namespace Sys
variable {s t : Sys} {i : Input} {is : List Input}

/-- The instances that tasks hold, task by task. -/
def leased (s : Sys) : List Ident := s.tasks.flatMap Task.held

/-- The instance that a step puts into the vector from outside. -/
def supplied (s : Sys) : Input → Option Ident
  | .importNext proxy =>
    if countryOk s.pool.config.toUppercase (s.tagged proxy) s.pool.config.countries then some (s.tagged proxy).ident else none
  | .add proxy => if s.pool.holds (s.tagged proxy).addr then none else some (s.tagged proxy).ident
  | _ => none

/-- The ledger of the system. -/
def ledger (s : Sys) : Ledger Ident := s.shared.ledger s.leased s.admitted

/-- A step in which some task, or nobody, acts on the vector as an effect says. -/
structure Acts (s : Sys) (i : Input) (t : Sys) : Prop where
  effect : ∃ before after others, s.leased.Perm (before ++ others) ∧ t.leased.Perm (after ++ others) ∧
    s.shared.Effect before after t.shared
  admitted : t.admitted = s.admitted
  nothing : s.supplied i = none

/-- A step that admits `p`. -/
structure Admits (s : Sys) (i : Input) (p : Proxy) (t : Sys) : Prop where
  shared : ∃ epoch, t.shared =
    { s.shared with pool := { s.pool with state := s.pool.state ++ [⟨p, none⟩], epoch := epoch } }
  leased : t.leased = s.leased
  admitted : t.admitted = s.admitted ++ [p.ident]
  tag : p.tag = s.admitted.length
  supplied : s.supplied i = some p.ident

theorem acts_of_same (same : s.shared.Same t.shared) (leased : t.leased = s.leased) (admitted : t.admitted = s.admitted)
    (nothing : s.supplied i = none) : s.Acts i t :=
  ⟨⟨[], [], s.leased, List.Perm.refl _, by rw [leased]; exact List.Perm.refl _, Shared.Effect.quiet same⟩, admitted, nothing⟩

theorem leased_start (s : Sys) (client : Client) (idle : client.held = none) :
    leased { s with tasks := s.tasks ++ [Task.start client] } = s.leased := by
  simp [leased, Task.start, Task.held, idle, Lease.State.held, Lease.fresh]

/-- **A step of the system.** It admits one instance, or it acts. -/
theorem step_cases (sound : ∀ task ∈ s.tasks, task.Sound) (h : step s i = some t) :
    s.Acts i t ∨ ∃ p, s.Admits i p t := by
  cases step_move h with
  | @imported proxy _ accepted =>
    exact Or.inr ⟨s.tagged proxy, ⟨s.pool.epoch, rfl⟩, rfl, rfl, rfl, by simp [supplied, accepted]⟩
  | screened _ refused => exact Or.inl (acts_of_same (Shared.Same.refl _) rfl rfl (by simp [supplied, refused]))
  | announced | ended | exhausted => exact Or.inl (acts_of_same ⟨rfl, rfl, rfl, rfl, rfl, rfl, rfl⟩ rfl rfl rfl)
  | accept | connect => exact Or.inl (acts_of_same (Shared.Same.refl _) (leased_start s _ rfl) rfl rfl)
  | held there => exact Or.inl (acts_of_same (Shared.Same.refl _) rfl rfl (by simp [supplied, there]))
  | @added proxy absent =>
    exact Or.inr ⟨s.tagged proxy, ⟨s.pool.epoch + 1, rfl⟩, rfl, rfl, rfl, by simp [supplied, absent]⟩
  | remove =>
    exact Or.inl ⟨⟨[], [], s.leased, List.Perm.refl _, List.Perm.refl _, Shared.Effect.remove _⟩, rfl, rfl⟩
  | tryGet =>
    exact Or.inl ⟨⟨[], [], s.leased, List.Perm.refl _, List.Perm.refl _, Shared.tryGet_effect _ _ _ _⟩, rfl, rfl⟩
  | @task k j task task' sh at_k moved =>
    obtain ⟨effect, -⟩ := Task.step_effect (sound task (List.mem_of_getElem? at_k)) moved
    obtain ⟨front, back, split, frame⟩ := exists_set_frame at_k
    refine Or.inl ⟨⟨task.held, task'.held, front.flatMap Task.held ++ back.flatMap Task.held, ?_, ?_, effect⟩, rfl, rfl⟩
    · rw [leased, split, List.flatMap_append, List.flatMap_cons]
      exact List.perm_append_comm_assoc _ _ _
    · rw [leased, frame, List.flatMap_append, List.flatMap_cons]
      exact List.perm_append_comm_assoc _ _ _

/-- Every task stays sound. -/
theorem step_sound (sound : ∀ task ∈ s.tasks, task.Sound) (h : step s i = some t) : ∀ task ∈ t.tasks, task.Sound := by
  intro task mem
  rcases mem_tasks_step h mem with old | ⟨client, idle, rfl⟩ | ⟨old, there, j, moved⟩
  · exact sound task old
  · exact Task.sound_start client idle
  · exact (Task.step_effect (sound old there) moved).2

theorem idle_step (idle : ∀ task ∈ s.tasks, task.Idle) (h : step s i = some t) : ∀ task ∈ t.tasks, task.Idle := by
  intro task mem
  rcases mem_tasks_step h mem with old | ⟨client, -, rfl⟩ | ⟨old, there, j, moved⟩
  · exact idle task old
  · exact Or.inl rfl
  · exact Task.idle_step (idle old there) moved

/-- **The ledger of the system moves by one step.** -/
theorem step_ledger (sound : ∀ task ∈ s.tasks, task.Sound) (h : step s i = some t) :
    Ledger.Step (s.supplied i) s.ledger t.ledger := by
  rcases step_cases sound h with ⟨⟨before, after, others, was, is, effect⟩, admitted, nothing⟩ | ⟨p, admits⟩
  · have moved := effect.ledger others s.admitted
    rw [Multiset.coe_add, Multiset.coe_add, ← Multiset.coe_eq_coe.2 was, ← Multiset.coe_eq_coe.2 is] at moved
    rw [nothing, ledger, ledger, admitted]
    exact moved
  · obtain ⟨epoch, shared⟩ := admits.shared
    have pushed : t.pool.idents = s.pool.idents ++ [p.ident] := by simp [pool, shared, Pool.idents]
    have moved := Ledger.Step.enroll (l := s.ledger) p.ident
    have enrolled : t.ledger =
        { s.ledger with
          pooled := p.ident ::ₘ (s.pool.idents : Multiset Ident)
          admitted := p.ident ::ₘ (s.admitted : Multiset Ident) } := by
      rw [← coe_concat, ← coe_concat, ← pushed, ← admits.admitted, ledger, ledger, admits.leased]
      simp [Shared.ledger, shared, pool]
    rw [admits.supplied, enrolled]
    exact moved

/-- The settings never change. -/
theorem step_config (sound : ∀ task ∈ s.tasks, task.Sound) (h : step s i = some t) : t.pool.config = s.pool.config := by
  rcases step_cases sound h with ⟨⟨before, after, others, -, -, effect⟩, -, -⟩ | ⟨p, admits⟩
  · exact effect.config
  · obtain ⟨epoch, shared⟩ := admits.shared
    rw [pool, shared]

/-! ## Conservation -/

/-- Where the instances are: in the vector, with a task, evicted, removed, or handed out by `try_get`. -/
def whereabouts (s : Sys) : List Ident :=
  s.pool.idents ++ s.leased ++ s.shared.evicted ++ s.shared.removed ++ s.shared.handedOut

/-- What holds in every reachable state. -/
structure Kept (s : Sys) : Prop where
  sound : ∀ task ∈ s.tasks, task.Sound
  conserved : s.ledger.Conserved
  counted : s.pool.evictions = .ofNat s.shared.evicted.length
  tags : s.admitted.map Ident.tag = List.range s.admitted.length

theorem kept_initial (start : Initial s) : s.Kept := by
  rcases start with ⟨auth, proxies, config, rfl⟩ | ⟨auth, config, rfl⟩
  · -- the screen of `from_proxies` accepts what it has accepted before
    have all (l : List Proxy) (ok : ∀ p ∈ l, countryOk config.toUppercase p config.countries = true) :
        Pool.idents (Pool.fromProxies l config) = l.map Proxy.ident := by
      rw [Pool.idents, Pool.fromProxies, List.filter_eq_self.2 ok, List.map_map]
      rfl
    refine ⟨by simp [fromProxies], ?_, rfl, ?_⟩
    · unfold ledger Shared.ledger Ledger.Conserved
      simp only [fromProxies, freshShared, leased, List.flatMap_nil, Multiset.coe_nil, add_zero]
      rw [all]
      intro p mem
      obtain ⟨k, lt, rfl⟩ := List.mem_mapIdx.1 mem
      exact (List.mem_filter.1 (List.getElem_mem lt)).2
    · apply List.ext_getElem (by simp)
      intro k lt lt'
      simp [fromProxies, Proxy.ident]
  · exact ⟨by simp [spawn], rfl, rfl, rfl⟩

theorem kept_step (kept : s.Kept) (h : step s i = some t) : t.Kept := by
  refine ⟨step_sound kept.sound h, (step_ledger kept.sound h).conserves kept.conserved, ?_, ?_⟩
  · rcases step_cases kept.sound h with ⟨⟨before, after, others, -, -, effect⟩, -, -⟩ | ⟨p, admits⟩
    · exact effect.evictions kept.counted
    · obtain ⟨epoch, shared⟩ := admits.shared
      rw [pool, shared]
      exact kept.counted
  · rcases step_cases kept.sound h with acts | ⟨p, admits⟩
    · rw [acts.admitted]
      exact kept.tags
    · rw [admits.admitted, List.map_append, kept.tags, List.length_append, List.length_singleton, List.range_succ, ← admits.tag]
      rfl

theorem kept_run (start : Initial s) (h : run step s is = some t) : t.Kept :=
  run_preserves (fun _ _ _ kept next => kept_step kept next) (kept_initial start) h

theorem config_run (start : Initial s) (h : run step s is = some t) : t.pool.config = s.pool.config := by
  have both : t.Kept ∧ t.pool.config = s.pool.config := by
    refine run_preserves (P := fun t => t.Kept ∧ t.pool.config = s.pool.config) ?_ ⟨kept_initial start, rfl⟩ h
    rintro a i b ⟨kept, same⟩ next
    exact ⟨kept_step kept next, (step_config kept.sound next).trans same⟩
  exact both.2

theorem idle_run (start : Initial s) (h : run step s is = some t) : ∀ task ∈ t.tasks, task.Idle := by
  refine run_preserves (P := fun t : Sys => ∀ task ∈ t.tasks, task.Idle) (fun _ _ _ idle next => idle_step idle next) ?_ h
  rcases start with ⟨auth, proxies, config, rfl⟩ | ⟨auth, config, rfl⟩
  · simp [fromProxies]
  · simp [spawn]

/-- The places hold the admitted instances. -/
theorem Kept.places (kept : s.Kept) : s.whereabouts.Perm s.admitted := by
  have conserved := kept.conserved
  unfold Ledger.Conserved ledger Shared.ledger at conserved
  simp only [Multiset.coe_add] at conserved
  exact Multiset.coe_eq_coe.1 conserved

/-- No instance is at two places. -/
theorem Kept.nodup (kept : s.Kept) : s.whereabouts.Nodup := by
  rw [kept.places.nodup_iff]
  apply List.Nodup.of_map Ident.tag
  rw [kept.tags]
  exact List.nodup_range

/-- **Pool conservation.** In every state of every interleaving: the instances at the five places are,
together and each once, the admitted ones, which are distinct; the 64-bit counter is the number of evicted
instances; and a task holds at most one lease, has put back every other lease it took, in order and
once each, and when it ends has put back them all. -/
theorem pool_conservation (start : Initial s) (h : run step s is = some t) :
    t.whereabouts.Perm t.admitted ∧ t.admitted.map Ident.tag = List.range t.admitted.length ∧
    t.pool.evictions = .ofNat t.shared.evicted.length ∧
    ∀ task ∈ t.tasks, task.held.length ≤ 1 ∧ task.account.taken = task.account.returned ++ task.held ∧
      (task.client.ended → task.account.taken = task.account.returned) := by
  have kept := kept_run start h
  refine ⟨kept.places, kept.tags, kept.counted, ?_⟩
  intro task mem
  have sound := kept.sound task mem
  refine ⟨sound.held_length, sound.balanced, ?_⟩
  intro ended
  rw [sound.balanced, sound.held_of_ended ended, List.append_nil]

/-- A connector call, up to its lease. -/
def connecting : List Input :=
  [.connect ⟨none, some ['h'], none⟩ 1, .task 0 (.io (.connect .call)), .task 0 (.io (.connect (.resolved none))),
    .task 0 (.lease .notified), .task 0 (.lease (.read 0)), .task 0 (.lease (.choose 0)), .task 0 (.lease (.note 0)),
    .task 0 (.op 0)]

/-- The call fails to connect and puts the proxy back. -/
def failing : List Input := [.task 0 (.io (.connect .connectFailed)), .task 0 (.op 0), .task 0 (.op 0)]

/-- Conservation over such a call. -/
theorem pool_conservation_connector :
    ∃ t, run step (fromProxies none [httpProxy 80, httpProxy 81] PoolConfig.default) (connecting ++ failing) = some t ∧
      t.admitted.length = 2 ∧ t.whereabouts.Perm t.admitted ∧
      ∃ task ∈ t.tasks, task.client.ended ∧ task.account.returned.map Ident.tag = [0] ∧
        task.account.taken = task.account.returned := by
  have ran : ∃ t task, run step (fromProxies none [httpProxy 80, httpProxy 81] PoolConfig.default) (connecting ++ failing) = some t ∧
      t.admitted.length = 2 ∧ t.tasks[0]? = some task ∧ task.client.ended ∧ task.account.returned.map Ident.tag = [0] :=
    ⟨_, _, rfl, rfl, rfl, ⟨_, rfl⟩, rfl⟩
  obtain ⟨t, task, ran, two, at_zero, ended, returned⟩ := ran
  have mem := List.mem_of_getElem? at_zero
  obtain ⟨places, -, -, tasks⟩ := pool_conservation (Or.inl ⟨_, _, _, rfl⟩) ran
  exact ⟨t, ran, two, places, task, mem, ended, returned, (tasks task mem).2.2 ended⟩

end Sys

end ProxyBroker
