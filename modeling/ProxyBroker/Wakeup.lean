import ProxyBroker.System
import ProxyBroker.Lib.Notify

/-!
# No lost wakeup

`get` and `wait_ready` create a `Notified` before they look at the pool and await it when they find
nothing. `notify_waiters` fires every `Notified` made before the call: `waker < epoch`. Everything that
makes such a look succeed is followed by a notify, so a waiter whose notification has not fired has
nothing to find, unless somebody stands between its update and its notify (`Pending`).
-/

namespace ProxyBroker
open Lib Server

/-! ## Who is about to notify -/

/-- The task stands between a push and its notify. -/
def Task.notifies (t : Task) : Prop := t.client.demand = .notify ∨ t.lease.phase = .notifying

namespace Client
variable {c d : Client}

/-- A client whose proxy was pushed notifies next. -/
theorem demand_of_returned (h : c.answer (.returned true) = some d) : d.demand = .notify := by
  cases c with
  | serving ctx s =>
    obtain ⟨t, next, rfl⟩ := Option.map_eq_some_iff.1 h
    obtain ⟨sv, p, failed, again, at_s⟩ := Handler.putting_of_returned next
    simp only [Handler.step, at_s, Option.some.injEq] at next
    subst next
    rfl
  | connecting s =>
    obtain ⟨t, next, rfl⟩ := Option.map_eq_some_iff.1 h
    obtain ⟨p, failed, again, at_s⟩ := Connector.putting_of_returned next
    simp only [Connector.step, at_s, Option.some.injEq] at next
    subst next
    rfl

theorem demand_of_io {i : Io} (h : c.io i = some d) : c.demand = .nothing := by
  unfold io at h
  split at h
  · assumption
  · assumption
  · cases h

end Client

/-! ## Steps that announce what they push -/

namespace Server

/-- A step that broadcasts, or leaves due a broadcast that was due, and one for what it pushes and for the
end of the source. -/
structure Pool.Wakes (pool : Pool) (due : Prop) (pool' : Pool) (due' : Prop) : Prop where
  mono : pool.epoch ≤ pool'.epoch
  kept : due → pool.epoch < pool'.epoch ∨ due'
  grows : (pool'.state.Subperm pool.state ∧ (pool'.exhausted = true → pool.exhausted = true)) ∨
    pool.epoch < pool'.epoch ∨ due'

namespace Pool
variable {pool pool' : Pool} {due due' : Prop}

/-- A look at the pool that cannot begin to succeed when entries are taken away. -/
def Look (found : Pool → Prop) : Prop :=
  ∀ p q : Pool, p.state.Subperm q.state → (p.exhausted = true → q.exhausted = true) → found p → found q

theorem Wakes.announces {found : Pool → Prop} (wakes : pool.Wakes due pool' due') (look : Look found) :
    Announces pool.epoch pool'.epoch due due' (found pool) (found pool') := by
  refine ⟨wakes.mono, wakes.kept, fun there => ?_⟩
  rcases wakes.grows with ⟨fewer, exhausted⟩ | rung
  · exact Or.inl (look pool' pool fewer exhausted there)
  · exact Or.inr rung

/-- Entries were taken away, and the account changed. -/
theorem Wakes.of_subperm (epoch : pool'.epoch = pool.epoch) (fewer : pool'.state.Subperm pool.state)
    (exhausted : pool'.exhausted = pool.exhausted) (kept : due → due') : pool.Wakes due pool' due' :=
  ⟨epoch.ge, fun d => Or.inr (kept d), Or.inl ⟨fewer, fun set => exhausted ▸ set⟩⟩

theorem Wakes.refl (kept : due → due') : pool.Wakes due pool due' :=
  Wakes.of_subperm rfl (List.Subperm.refl _) rfl kept

theorem Wakes.of_rung (rung : pool.epoch < pool'.epoch) : pool.Wakes due pool' due' :=
  ⟨rung.le, fun _ => Or.inl rung, Or.inr (Or.inl rung)⟩

/-- A put evicts, or pushes and leaves a broadcast due. -/
theorem wakes_putInner {p : Proxy} {b : Option Instant} (kept : due → due') (pushed : unhealthy pool.config p = false → due') :
    pool.Wakes due (pool.putInner p b) due' := by
  rcases putInner_cases pool p b with ⟨sick, eq⟩ | ⟨well, eq⟩
  · rw [eq]
    exact Wakes.of_subperm rfl (List.Subperm.refl _) rfl kept
  · rw [eq]
    exact ⟨le_refl _, fun d => Or.inr (kept d), Or.inr (Or.inr (pushed well))⟩

theorem wakes_putBack {sh : Shared} {p : Proxy} {failed : Bool} {now : Instant} (kept : due → due')
    (pushed : unhealthy sh.pool.config p = false → due') : sh.pool.Wakes due (sh.putBack p failed now).pool due' := by
  cases failed with
  | true => exact wakes_putInner kept pushed
  | false => exact wakes_putInner kept pushed

theorem wakes_tryGet {sh : Shared} {scheme : Scheme} {country : Option Text} (kept : due → due') :
    sh.pool.Wakes due (sh.tryGet scheme country).pool due' := by
  obtain ⟨taken, state, perm, eq, -⟩ := sh.tryGet_frame scheme country
  rw [eq]
  exact Wakes.of_subperm rfl ((List.sublist_append_right taken state).subperm.trans perm.subperm) rfl kept

end Pool

/-! ## A getter -/

namespace Lease
variable {scheme : Scheme} {key : ClientKey} {sh sh' : Shared} {acc acc' : Account} {g g' : State} {i : Input}

/-- Every step of `get` announces what it pushes. -/
theorem step_wakes (h : step scheme key sh acc g i = some (sh', acc', g')) :
    sh.pool.Wakes (g.phase = .notifying) sh'.pool (g'.phase = .notifying) := by
  cases step_move h with
  | draw at_g taken =>
    obtain ⟨e, -, perm, eq⟩ := Pool.takeChosen_spec taken
    rw [eq]
    exact Pool.Wakes.of_subperm rfl ((List.subperm_cons_self).trans perm.subperm) rfl (by simp [at_g])
  | @note _ p victim at_g =>
    obtain ⟨s, r, eq⟩ := Pool.noteChosen_eq sh.pool key p victim
    rw [eq]
    exact Pool.Wakes.of_subperm rfl (List.Subperm.refl _) rfl (by simp [at_g])
  | bench at_g => exact Pool.wakes_putBack (by simp [at_g]) fun well => by simp [well]
  | notify => exact Pool.Wakes.of_rung (Nat.lt_succ_self _)
  | enter at_g | read at_g | miss at_g | probe at_g | check at_g | wake at_g => exact Pool.Wakes.refl (by simp [at_g])

end Lease

/-- Some entry, ready or benched, serves the scheme. -/
def Pool.offers (pool : Pool) (scheme : Scheme) : Prop := ∃ e ∈ pool.state, e.proxy.servesScheme scheme = true

theorem Pool.look_offers (scheme : Scheme) : Pool.Look fun pool => pool.offers scheme := by
  rintro p q fewer - ⟨e, mem, serves⟩
  exact ⟨e, fewer.subset mem, serves⟩

/-- A look at `exhausted` as well. -/
theorem Pool.Look.orExhausted {found : Pool → Prop} (look : Pool.Look found) :
    Pool.Look fun pool => pool.exhausted = true ∨ found pool := by
  rintro p q fewer exhausted (set | there)
  · exact Or.inl (exhausted set)
  · exact Or.inr (look p q fewer exhausted there)

namespace Lease
variable {scheme : Scheme} {key : ClientKey} {sh sh' : Shared} {acc acc' : Account} {g g' : State} {i : Input}
  {pool pool' : Pool} {due due' : Prop}

/-- What `get` may rely on, at each of its suspension points. -/
def Phase.Alert (scheme : Scheme) (pool : Pool) (due : Prop) : Phase → Prop
  | .reading waker _ => waker ≤ pool.epoch
  | .choosing waker _ ctx => waker ≤ pool.epoch ∧ ctx.scheme = scheme
  | .checking waker => Lib.Alert pool.epoch due (pool.offers scheme) waker
  | .parked waker => Lib.Alert pool.epoch due (pool.exhausted = true ∨ pool.offers scheme) waker
  | _ => True

/-- A getter stays alert while others move. -/
theorem Phase.Alert.step {phase : Phase} (alert : phase.Alert scheme pool due) (wakes : pool.Wakes due pool' due') :
    phase.Alert scheme pool' due' := by
  cases phase with
  | reading waker last => exact Nat.le_trans alert wakes.mono
  | choosing waker last ctx => exact ⟨Nat.le_trans alert.1 wakes.mono, alert.2⟩
  | checking waker => exact Lib.Alert.step alert (wakes.announces (Pool.look_offers scheme))
  | parked waker => exact Lib.Alert.step alert (wakes.announces (Pool.look_offers scheme).orExhausted)
  | _ => trivial

/-- A getter stays alert over its own steps: it makes its notification before it looks. -/
theorem step_alert (h : step scheme key sh acc g i = some (sh', acc', g')) (alert : g.phase.Alert scheme sh.pool due)
    (wakes : sh.pool.Wakes due sh'.pool due') : g'.phase.Alert scheme sh'.pool due' := by
  cases step_move h with
  | enter => exact le_refl sh.pool.epoch
  | read at_g =>
    rw [at_g] at alert
    exact ⟨alert, rfl⟩
  | draw | wake => trivial
  | @miss _ last _ _ at_g nothing =>
    rw [at_g] at alert
    have none_there : ¬ sh.pool.offers scheme := by
      rintro ⟨e, mem, serves⟩
      rw [← alert.2, Pool.takeChosen_eq_none.1 nothing e mem] at serves
      cases serves
    cases last with
    | true => trivial
    | false => exact Alert.look alert.1 none_there
  | note =>
    dsimp only
    split <;> trivial
  | @probe _ alive => cases alive <;> trivial
  | bench =>
    split
    · unfold redraw
      split <;> trivial
    · trivial
  | notify =>
    unfold redraw
    split <;> trivial
  | check at_g =>
    rw [at_g] at alert
    by_cases set : sh.pool.exhausted = true
    · rw [if_pos set]
      exact Lib.Alert.made alert
    · rw [if_neg set]
      exact (Lib.Alert.flag alert set).step (wakes.announces (Pool.look_offers scheme).orExhausted)

end Lease

end Server

/-! ## The system -/

namespace Task
variable {sh sh' : Shared} {t t' : Task} {i : Input} {due due' : Prop}

/-- A step of a task announces what it pushes. -/
theorem step_wakes (h : t.step sh i = some (sh', t')) : sh.pool.Wakes t.notifies sh'.pool t'.notifies := by
  -- a task that asks for something else keeps the broadcast its `get` owes
  have other {d : Demand} {c : Client} {acc : Account} (asks : t.client.demand = d) (not : d ≠ .notify) :
      t.notifies → Task.notifies ⟨c, t.lease, acc⟩ := by
    rintro (demand | owes)
    · exact absurd (asks.symm.trans demand) not
    · exact Or.inr owes
  cases step_move h with
  | io moved => exact Pool.Wakes.refl (other (Client.demand_of_io moved) (by simp))
  | lease get moved =>
    have same : t.notifies ↔ t.lease.phase = .notifying := by simp [notifies, get]
    have wakes := Lease.step_wakes moved
    refine ⟨wakes.mono, fun due => ?_, ?_⟩
    · exact (wakes.kept (same.1 due)).imp_right Or.inr
    · exact wakes.grows.imp_right fun rung => rung.imp_right Or.inr
  | deliver get at_g => exact Pool.Wakes.refl (by simp [notifies, get, at_g])
  | put asks answered =>
    refine Pool.wakes_putBack (other asks (by simp)) fun well => Or.inl ?_
    rw [well] at answered
    exact Client.demand_of_returned answered
  | notify => exact Pool.Wakes.of_rung (Nat.lt_succ_self _)
  | rotate asks => exact Pool.Wakes.of_subperm rfl (List.Subperm.refl _) rfl (other asks (by simp))
  | remove asks => exact Pool.Wakes.of_subperm rfl List.filter_sublist.subperm rfl (other asks (by simp))
  | lookUp asks | record asks => exact Pool.Wakes.refl (other asks (by simp))

/-- A task's `get` is alert, and runs only while the client asks for a lease. -/
def Alert (pool : Pool) (due : Prop) (t : Task) : Prop :=
  t.lease.phase = .enter ∨ ∃ scheme key, t.client.demand = .get scheme key ∧ t.lease.phase.Alert scheme pool due

/-- A task stays alert while others move. -/
theorem Alert.others {pool pool' : Pool} (alert : t.Alert pool due) (wakes : pool.Wakes due pool' due') : t.Alert pool' due' :=
  alert.imp_right fun ⟨scheme, key, get, phase⟩ => ⟨scheme, key, get, phase.step wakes⟩

/-- A task stays alert over its own steps. -/
theorem step_alert (h : t.step sh i = some (sh', t')) (alert : t.Alert sh.pool due) (wakes : sh.pool.Wakes due sh'.pool due') :
    t'.Alert sh'.pool due' := by
  have enter {d : Demand} (asks : t.client.demand = d) (not : ∀ scheme key, d ≠ .get scheme key) : t.lease.phase = .enter := by
    rcases alert with enter | ⟨scheme, key, get, -⟩
    · exact enter
    · exact absurd (asks.symm.trans get) (not scheme key)
  cases step_move h with
  | io moved => exact Or.inl (enter (Client.demand_of_io moved) (by simp))
  | lease get moved =>
    refine Or.inr ⟨_, _, get, Lease.step_alert moved ?_ wakes⟩
    rcases alert with enter | ⟨scheme', key', get', phase⟩
    · rw [enter]
      trivial
    · cases get.symm.trans get'
      exact phase
  | deliver => exact Or.inl rfl
  | put asks | notify asks | rotate asks | remove asks | lookUp asks | record asks => exact Or.inl (enter asks (by simp))

end Task

namespace Sys
variable {s t : Sys} {i : Input}

/-- Somebody stands between its update and its notify. -/
def Pending (s : Sys) : Prop :=
  s.importer = .notifying ∨ s.importer = .exhausting ∨ ∃ task ∈ s.tasks, task.notifies

/-- **A step of the system** announces what it pushes, and the end of the source. -/
theorem step_wakes (h : step s i = some t) : s.pool.Wakes s.Pending t.pool t.Pending := by
  cases step_move h with
  | imported => exact ⟨le_refl _, fun _ => Or.inr (Or.inl rfl), Or.inr (Or.inr (Or.inl rfl))⟩
  | screened | held => exact Pool.Wakes.refl id
  | announced | ended | added => exact Pool.Wakes.of_rung (Nat.lt_succ_self _)
  | exhausted => exact ⟨le_refl _, fun _ => Or.inr (Or.inr (Or.inl rfl)), Or.inr (Or.inr (Or.inr (Or.inl rfl)))⟩
  | accept | connect =>
    refine Pool.Wakes.refl (Or.imp_right (Or.imp_right ?_))
    rintro ⟨task, mem, owes⟩
    exact ⟨task, List.mem_append_left _ mem, owes⟩
  | remove => exact Pool.Wakes.of_subperm rfl List.filter_sublist.subperm rfl id
  | tryGet => exact Pool.wakes_tryGet id
  | @task k j task task' sh at_k moved =>
    have wakes := Task.step_wakes moved
    have here : task' ∈ s.tasks.set k task' := List.mem_set (List.getElem?_eq_some_iff.1 at_k).1 task'
    have owes (due : task'.notifies) : Pending { s with shared := sh, tasks := s.tasks.set k task' } :=
      Or.inr (Or.inr ⟨task', here, due⟩)
    refine ⟨wakes.mono, ?_, wakes.grows.imp_right fun rung => rung.imp_right owes⟩
    rintro (notifying | exhausting | ⟨other, mem, due⟩)
    · exact Or.inr (Or.inl notifying)
    · exact Or.inr (Or.inr (Or.inl exhausting))
    · obtain ⟨l, at_l⟩ := List.mem_iff_getElem?.1 mem
      by_cases same : k = l
      · subst same
        obtain rfl : other = task := Option.some.inj (at_l.symm.trans at_k)
        exact (wakes.kept due).imp_right owes
      · refine Or.inr (Or.inr (Or.inr ⟨other, ?_, due⟩))
        exact List.mem_of_getElem? ((List.getElem?_set_ne same).trans at_l)

/-- Every getter is alert. -/
def Alert (s : Sys) : Prop := ∀ task ∈ s.tasks, task.Alert s.pool s.Pending

theorem alert_step (alert : s.Alert) (h : step s i = some t) : t.Alert := by
  have wakes := step_wakes h
  intro task mem
  rcases step_tasks h with ⟨-, same⟩ | ⟨-, client, -, more, -⟩ | ⟨k, j, moving, moved, -, at_k, next, set⟩
  · exact (alert task (same ▸ mem)).others wakes
  · rw [more, List.mem_append, List.mem_singleton] at mem
    rcases mem with old | rfl
    · exact (alert task old).others wakes
    · exact Or.inl rfl
  · rw [set] at mem
    rcases List.mem_or_eq_of_mem_set mem with old | rfl
    · exact (alert task old).others wakes
    · exact Task.step_alert next (alert moving (List.mem_of_getElem? at_k)) wakes

theorem alert_initial (initial : s.Initial) : s.Alert := by
  rcases initial with ⟨auth, proxies, config, rfl⟩ | ⟨auth, config, rfl⟩
  · exact fun task mem => absurd mem List.not_mem_nil
  · exact fun task mem => absurd mem List.not_mem_nil

end Sys

/-! ## Waiting for a filled pool (`server.rs:Pool::wait_ready`) -/

/-- Where a call of `wait_ready` stands. -/
inductive Waiter.Phase where
  | enter
  | making
  | counting (waker : Nat)
  | checking (waker : Nat)
  | parked (waker : Nat)
  | returned
deriving DecidableEq, Repr

/-- A call of `wait_ready(n)`. -/
structure Waiter where
  n : Nat
  phase : Waiter.Phase
deriving DecidableEq, Repr

namespace Waiter

/-- One step of `wait_ready(n)`. -/
def step (pool : Pool) (w : Waiter) : Option Waiter :=
  match w.phase with
  | .enter => some { w with phase := if w.n = 0 then .returned else .making }
  | .making => some { w with phase := .counting pool.epoch }
  | .counting waker => some { w with phase := if w.n ≤ pool.state.length then .returned else .checking waker }
  | .checking waker => some { w with phase := if pool.exhausted then .returned else .parked waker }
  | .parked waker => if waker < pool.epoch then some { w with phase := .making } else none
  | .returned => none

/-- What `wait_ready` may rely on. -/
def Alert (pool : Pool) (due : Prop) (w : Waiter) : Prop :=
  match w.phase with
  | .counting waker => waker ≤ pool.epoch
  | .checking waker => Lib.Alert pool.epoch due (w.n ≤ pool.state.length) waker
  | .parked waker => Lib.Alert pool.epoch due (pool.exhausted = true ∨ w.n ≤ pool.state.length) waker
  | _ => True

theorem look_length (n : Nat) : Pool.Look fun pool => n ≤ pool.state.length :=
  fun _ _ fewer _ enough => Nat.le_trans enough fewer.length_le

variable {pool pool' : Pool} {due due' : Prop} {w w' : Waiter}

/-- A waiter stays alert while others move. -/
theorem Alert.others (alert : w.Alert pool due) (wakes : pool.Wakes due pool' due') : w.Alert pool' due' := by
  unfold Alert at alert ⊢
  split at alert
  · exact Nat.le_trans alert wakes.mono
  · exact alert.step (wakes.announces (look_length w.n))
  · exact alert.step (wakes.announces (look_length w.n).orExhausted)
  · trivial

/-- A waiter stays alert over its own steps: it makes its notification before it looks. -/
theorem step_alert (h : w.step pool = some w') (alert : w.Alert pool due) : w'.Alert pool due := by
  unfold step at h
  split at h
  · cases h
    unfold Alert
    by_cases zero : w.n = 0
    · simp [zero]
    · simp [zero]
  · cases h
    exact le_refl pool.epoch
  · rename_i waker at_w
    cases h
    rw [Alert, at_w] at alert
    by_cases enough : w.n ≤ pool.state.length
    · simp [Alert, enough]
    · simpa [Alert, enough] using Lib.Alert.look alert enough
  · rename_i waker at_w
    cases h
    rw [Alert, at_w] at alert
    by_cases set : pool.exhausted = true
    · simp [Alert, set]
    · simpa [Alert, set] using Lib.Alert.flag alert set
  · split at h
    · cases h
      trivial
    · cases h
  · cases h

end Waiter

/-- The system and the calls of `wait_ready`. -/
structure Waiting where
  sys : Sys
  waiters : List Waiter

namespace Waiting

inductive Input where
  | sys (i : Sys.Input)
  | waitReady (n : Nat)
  | waiter (k : Nat)

def step (s : Waiting) : Input → Option Waiting
  | .sys i => (Sys.step s.sys i).map fun t => { s with sys := t }
  | .waitReady n => some { s with waiters := s.waiters ++ [⟨n, .enter⟩] }
  | .waiter k =>
    match s.waiters[k]? with
    | none => none
    | some w => (w.step s.sys.pool).map fun w' => { s with waiters := s.waiters.set k w' }

variable {s t : Waiting} {i : Input}

/-- Everyone who waits is alert. -/
structure Alert (s : Waiting) : Prop where
  getters : s.sys.Alert
  waiters : ∀ w ∈ s.waiters, w.Alert s.sys.pool s.sys.Pending

theorem alert_step (alert : s.Alert) (h : step s i = some t) : t.Alert := by
  cases i with
  | sys i =>
    obtain ⟨u, next, rfl⟩ := Option.map_eq_some_iff.1 h
    exact ⟨Sys.alert_step alert.getters next, fun w mem => (alert.waiters w mem).others (Sys.step_wakes next)⟩
  | waitReady n =>
    cases h
    refine ⟨alert.getters, fun w mem => ?_⟩
    rcases List.mem_append.1 mem with old | new
    · exact alert.waiters w old
    · rw [List.mem_singleton.1 new]
      trivial
  | waiter k =>
    simp only [step] at h
    split at h
    · cases h
    · rename_i w at_k
      obtain ⟨w', next, rfl⟩ := Option.map_eq_some_iff.1 h
      refine ⟨alert.getters, fun v mem => ?_⟩
      rcases List.mem_or_eq_of_mem_set mem with old | rfl
      · exact alert.waiters v old
      · exact Waiter.step_alert next (alert.waiters w (List.mem_of_getElem? at_k))

/-- **No lost wakeup.** In every state in which nobody stands between its update and its notify: a `get`
whose notification has not fired has no eligible proxy in the vector, benched or not, and a source that is
not exhausted; a `wait_ready(n)` whose notification has not fired has fewer than `n` proxies in the vector
and a source that is not exhausted. -/
theorem no_lost_wakeup {sys : Sys} {is : List Input} (initial : sys.Initial) (h : run step ⟨sys, []⟩ is = some s)
    (quiet : ¬ s.sys.Pending) :
    (∀ task ∈ s.sys.tasks, ∀ waker, task.lease.phase = .parked waker → ¬ waker < s.sys.pool.epoch →
      ∃ scheme key, task.client.demand = .get scheme key ∧ s.sys.pool.exhausted = false ∧
        ∀ e ∈ s.sys.pool.state, e.proxy.servesScheme scheme = false) ∧
    (∀ w ∈ s.waiters, ∀ waker, w.phase = .parked waker → ¬ waker < s.sys.pool.epoch →
      s.sys.pool.exhausted = false ∧ s.sys.pool.state.length < w.n) := by
  have start : Alert ⟨sys, []⟩ := ⟨Sys.alert_initial initial, fun w mem => absurd mem List.not_mem_nil⟩
  have alert : s.Alert := run_preserves (fun _ _ _ inv next => alert_step inv next) start h
  constructor
  · intro task mem waker parked unfired
    rcases alert.getters task mem with enter | ⟨scheme, key, get, phase⟩
    · rw [parked] at enter
      cases enter
    · rw [parked] at phase
      have nothing := Lib.Alert.nothing phase quiet unfired
      rw [not_or] at nothing
      refine ⟨scheme, key, get, eq_false_of_ne_true nothing.1, fun e there => ?_⟩
      apply eq_false_of_ne_true
      intro serves
      exact nothing.2 ⟨e, there, serves⟩
  · intro w mem waker parked unfired
    have phase := alert.waiters w mem
    rw [Waiter.Alert, parked] at phase
    have nothing := phase.nothing quiet unfired
    rw [not_or] at nothing
    exact ⟨eq_false_of_ne_true nothing.1, not_le.1 nothing.2⟩

/-- A proxy for HTTP arrives; then a `get` for HTTPS and a `wait_ready(2)` park. -/
def parking : List Input :=
  [.sys (.importNext (httpProxy 80)), .sys .importNotify, .sys (.connect ⟨some "https".toList, some ['h'], none⟩ 1),
    .sys (.task 0 (.io (.connect .call))), .sys (.task 0 (.io (.connect (.resolved none)))), .sys (.task 0 (.lease .notified)),
    .sys (.task 0 (.lease (.read 0))), .sys (.task 0 (.lease (.choose 0))), .sys (.task 0 (.lease .check)),
    .waitReady 2, .waiter 0, .waiter 0, .waiter 0, .waiter 0]

/-- Both wait, and rightly: there is one proxy, and it does not serve HTTPS. -/
theorem no_lost_wakeup_parking :
    ∃ s task, run step ⟨Sys.spawn none PoolConfig.default, []⟩ parking = some s ∧ s.sys.tasks = [task] ∧
      task.lease.phase = .parked 1 ∧ s.waiters = [⟨2, .parked 1⟩] ∧ s.sys.pool.epoch = 1 ∧ s.sys.pool.exhausted = false ∧
      (∀ e ∈ s.sys.pool.state, e.proxy.servesScheme .https = false) ∧ s.sys.pool.state.length < 2 := by
  obtain ⟨s, task, ran, tasks, parked, waits, epoch, importer, demand⟩ : ∃ s task,
      run step ⟨Sys.spawn none PoolConfig.default, []⟩ parking = some s ∧ s.sys.tasks = [task] ∧
        task.lease.phase = .parked 1 ∧ s.waiters = [⟨2, .parked 1⟩] ∧ s.sys.pool.epoch = 1 ∧ s.sys.importer = .running ∧
        task.client.demand = .get .https Connector.key := ⟨_, _, rfl, rfl, rfl, rfl, rfl, rfl, rfl⟩
  have quiet : ¬ s.sys.Pending := by
    rintro (notifying | exhausting | ⟨other, mem, owes⟩)
    · rw [importer] at notifying
      cases notifying
    · rw [importer] at exhausting
      cases exhausting
    · rw [tasks, List.mem_singleton] at mem
      simp [mem, Task.notifies, demand, parked] at owes
  obtain ⟨getters, waiters⟩ := no_lost_wakeup (Or.inr ⟨none, PoolConfig.default, rfl⟩) ran quiet
  obtain ⟨scheme, key, get, exhausted, none_there⟩ := getters task (by simp [tasks]) 1 parked (by simp [epoch])
  cases demand.symm.trans get
  exact ⟨s, task, ran, tasks, parked, waits, epoch, exhausted, none_there,
    (waiters ⟨2, .parked 1⟩ (by simp [waits]) 1 rfl (by simp [epoch])).2⟩

end Waiting

end ProxyBroker
