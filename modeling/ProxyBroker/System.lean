import ProxyBroker.Connector
import ProxyBroker.Lib.Ledger

/-!
# The running system

Any number of tasks (clients that are served, connector calls), the importer, and whoever calls `add`,
`remove` and `try_get` (the re-checker, the file watcher, the control tools) work on one pool. One
input is one atomic step of one of them, so a list of inputs is an interleaving.

A task's client says what it asks of the shared state (`Client.demand`); `Task.step` performs it and
gives the client its answer. While the client asks for a lease, the task runs `Pool::get`
(`Server/Lease.lean`).
-/

namespace ProxyBroker
open Lib Server

/-! ## Tasks -/

/-- The code a task runs. -/
inductive Client where
  | serving (ctx : ConnCtx) (h : Handler.State)
  | connecting (c : Connector.State)

/-- What a task asks of the shared state. -/
inductive Demand where
  | nothing
  | get (scheme : Scheme) (key : ClientKey)
  | put (proxy : Proxy) (failed : Bool)
  | notify
  | rotate
  | remove (addr : Addr)
  | lookUp (key : Text)
  | record (key proxy : Text)

/-- The answer to a demand. -/
inductive Reply where
  | got (proxy : Option Proxy)
  | returned (pushed : Bool)
  | notified
  | rotated
  | removed
  | found (proxy : Option Text)
  | recorded

namespace Client

def demand : Client → Demand
  | .serving ctx h =>
    match h.phase with
    | .getting sv => .get sv.req.scheme sv.key
    | .putting _ p failed _ => .put p failed
    | .notifying _ _ => .notify
    | .rotating _ _ => .rotate
    | .removing addr => .remove addr
    | .lookingUp key => .lookUp key
    | .recording sv p => .record (historyKey ctx.peerIp sv.req.path) (hostPort p)
    | _ => .nothing
  | .connecting c =>
    match c.phase with
    | .getting => .get (Connector.scheme c.uri) Connector.key
    | .putting p failed _ => .put p failed
    | .notifying _ => .notify
    | _ => .nothing

/-- The client takes an answer. -/
def answer : Client → Reply → Option Client
  | .serving ctx h, r =>
    let i : Handler.Input := match r with
      | .got p => .got p
      | .returned pushed => .returned pushed
      | .notified => .notified
      | .rotated => .rotated
      | .removed => .removed
      | .found p => .lookedUp p
      | .recorded => .recorded
    (Handler.step ctx h i).map (.serving ctx)
  | .connecting c, .got p => (Connector.step c (.got p)).map .connecting
  | .connecting c, .returned pushed => (Connector.step c (.returned pushed)).map .connecting
  | .connecting c, .notified => (Connector.step c .notified).map .connecting
  | .connecting _, _ => none

/-- An event of the client's own I/O. -/
inductive Io where
  | serve (i : Handler.Input)
  | connect (i : Connector.Input)

/-- The client's own I/O, while it asks for nothing. -/
def io (c : Client) (i : Io) : Option Client :=
  match c.demand, c, i with
  | .nothing, .serving ctx h, .serve i => (Handler.step ctx h i).map (.serving ctx)
  | .nothing, .connecting c, .connect i => (Connector.step c i).map .connecting
  | _, _, _ => none

/-- The lease the client holds. -/
def held : Client → Option Proxy
  | .serving _ h => h.held
  | .connecting c => c.held

/-- The task is over. -/
def ended : Client → Prop
  | .serving _ h => h.phase = .finished
  | .connecting c => ∃ o, c.phase = .finished o

end Client

/-- A task: its client, the lease it is taking, and its account. -/
structure Task where
  client : Client
  lease : Lease.State
  account : Account

namespace Task

def start (client : Client) : Task := ⟨client, Lease.fresh, ⟨[], []⟩⟩

/-- A step of a task: its own I/O, a step of `get`, or the operation it asks for. -/
inductive Input where
  | io (i : Client.Io)
  | lease (i : Lease.Input)
  | op (now : Instant)

/-- The proxies a task holds: the one its client works with, or the one its `get` has drawn. -/
def held (t : Task) : List Ident := t.client.held.toList.map Proxy.ident ++ t.lease.held.toList.map Proxy.ident

def step (sh : Shared) (t : Task) : Input → Option (Shared × Task)
  | .io i => (t.client.io i).map fun c => (sh, { t with client := c })
  | .lease i =>
    match t.client.demand with
    | .get scheme key =>
      (Lease.step scheme key sh t.account t.lease i).map fun r => (r.1, { t with account := r.2.1, lease := r.2.2 })
    | _ => none
  | .op now =>
    match t.client.demand with
    | .nothing => none
    | .get _ _ =>
      match t.lease.phase with
      | .returned r =>
        (t.client.answer (.got r)).map fun c =>
          ({ sh with handouts := sh.handouts ++ r.toList }, { t with client := c, lease := Lease.fresh })
      | _ => none
    | .put p failed =>
      (t.client.answer (.returned (!Pool.unhealthy sh.pool.config p))).map fun c =>
        (sh.putBack p failed now, { t with client := c, account := { t.account with returned := t.account.returned ++ [p.ident] } })
    | .notify => (t.client.answer .notified).map fun c => ({ sh with pool := sh.pool.notifyWaiters }, { t with client := c })
    | .rotate =>
      (t.client.answer .rotated).map fun c =>
        ({ sh with pool := { sh.pool with rotations := sh.pool.rotations + 1 } }, { t with client := c })
    | .remove addr => (t.client.answer .removed).map fun c => (sh.remove addr, { t with client := c })
    | .lookUp key => (t.client.answer (.found (sh.history.get key))).map fun c => (sh, { t with client := c })
    | .record key proxy =>
      (t.client.answer .recorded).map fun c => ({ sh with history := sh.history.record key proxy }, { t with client := c })

variable {sh sh' : Shared} {t t' : Task} {ctx : ConnCtx} {hs : Handler.State}

/-- The steps of a task, by what they do to it and to the shared state. -/
inductive Move (sh : Shared) (t : Task) : Input → Shared → Task → Prop
  | io {j : Client.Io} {c : Client} (moved : t.client.io j = some c) : Move sh t (.io j) sh { t with client := c }
  | lease {j : Lease.Input} {scheme : Scheme} {key : ClientKey} {sh' : Shared} {acc : Account} {g : Lease.State}
    (get : t.client.demand = .get scheme key) (moved : Lease.step scheme key sh t.account t.lease j = some (sh', acc, g)) :
    Move sh t (.lease j) sh' { t with account := acc, lease := g }
  | deliver {now : Instant} {scheme : Scheme} {key : ClientKey} {r : Option Proxy} {c : Client}
    (get : t.client.demand = .get scheme key) (at_g : t.lease.phase = .returned r) (answered : t.client.answer (.got r) = some c) :
    Move sh t (.op now) { sh with handouts := sh.handouts ++ r.toList } { t with client := c, lease := Lease.fresh }
  | put {now : Instant} {p : Proxy} {failed : Bool} {c : Client} (asks : t.client.demand = .put p failed)
    (answered : t.client.answer (.returned (!Pool.unhealthy sh.pool.config p)) = some c) :
    Move sh t (.op now) (sh.putBack p failed now)
      { t with client := c, account := { t.account with returned := t.account.returned ++ [p.ident] } }
  | notify {now : Instant} {c : Client} (asks : t.client.demand = .notify) (answered : t.client.answer .notified = some c) :
    Move sh t (.op now) { sh with pool := sh.pool.notifyWaiters } { t with client := c }
  | rotate {now : Instant} {c : Client} (asks : t.client.demand = .rotate) (answered : t.client.answer .rotated = some c) :
    Move sh t (.op now) { sh with pool := { sh.pool with rotations := sh.pool.rotations + 1 } } { t with client := c }
  | remove {now : Instant} {addr : Addr} {c : Client} (asks : t.client.demand = .remove addr)
    (answered : t.client.answer .removed = some c) : Move sh t (.op now) (sh.remove addr) { t with client := c }
  | lookUp {now : Instant} {key : Text} {c : Client} (asks : t.client.demand = .lookUp key)
    (answered : t.client.answer (.found (sh.history.get key)) = some c) : Move sh t (.op now) sh { t with client := c }
  | record {now : Instant} {key : Text} {proxy : Text} {c : Client} (asks : t.client.demand = .record key proxy)
    (answered : t.client.answer .recorded = some c) :
    Move sh t (.op now) { sh with history := sh.history.record key proxy } { t with client := c }

/-- **What a step of a task is.** -/
theorem step_move {i : Input} (h : t.step sh i = some (sh', t')) : Move sh t i sh' t' := by
  cases i with
  | io j =>
    obtain ⟨c, moved, eq⟩ := Option.map_eq_some_iff.1 h
    cases eq
    exact .io moved
  | lease j =>
    simp only [step] at h
    split at h
    · obtain ⟨⟨sh₁, acc, g⟩, moved, eq⟩ := Option.map_eq_some_iff.1 h
      cases eq
      exact .lease ‹_› moved
    · cases h
  | op now =>
    simp only [step] at h
    split at h
    case h_1 => cases h
    case h_2 get =>
      split at h
      · obtain ⟨c, answered, eq⟩ := Option.map_eq_some_iff.1 h
        cases eq
        exact .deliver get ‹_› answered
      · cases h
    all_goals
      obtain ⟨c, answered, eq⟩ := Option.map_eq_some_iff.1 h
      cases eq
    case h_3 asks => exact .put asks answered
    case h_4 asks => exact .notify asks answered
    case h_5 asks => exact .rotate asks answered
    case h_6 asks => exact .remove asks answered
    case h_7 asks => exact .lookUp asks answered
    case h_8 asks => exact .record asks answered

/-- A step of a task gives its client an answer, or an event of its own I/O, or leaves it alone. -/
theorem step_client {i : Input} (h : t.step sh i = some (sh', t')) :
    t'.client = t.client ∨ (∃ r, t.client.answer r = some t'.client) ∨ ∃ j, t.client.io j = some t'.client := by
  cases step_move h with
  | io moved => exact Or.inr (Or.inr ⟨_, moved⟩)
  | lease => exact Or.inl rfl
  | deliver _ _ answered => exact Or.inr (Or.inl ⟨_, answered⟩)
  | put _ answered | notify _ answered | rotate _ answered | remove _ answered | lookUp _ answered | record _ answered =>
    exact Or.inr (Or.inl ⟨_, answered⟩)

/-- A step of a task that serves a client is a step of its handler, or leaves the handler alone. -/
theorem step_serving {i : Input} (serving : t.client = .serving ctx hs) (h : t.step sh i = some (sh', t')) :
    ∃ hs', t'.client = .serving ctx hs' ∧ (hs' = hs ∨ ∃ j, Handler.step ctx hs j = some hs') := by
  rcases step_client h with same | ⟨r, answered⟩ | ⟨j, moved⟩
  · exact ⟨hs, same.trans serving, Or.inl rfl⟩
  · rw [serving] at answered
    obtain ⟨hs', next, eq⟩ := Option.map_eq_some_iff.1 answered
    exact ⟨hs', eq.symm, Or.inr ⟨_, next⟩⟩
  · rw [serving] at moved
    unfold Client.io at moved
    split at moved
    · rename_i same
      cases same
      obtain ⟨hs', next, eq⟩ := Option.map_eq_some_iff.1 moved
      exact ⟨hs', eq.symm, Or.inr ⟨_, next⟩⟩
    · rename_i same
      cases same
    · cases moved

/-- A task that serves a client did so before. -/
theorem serving_of_step {i : Input} (serving : t'.client = .serving ctx hs) (h : t.step sh i = some (sh', t')) :
    ∃ hs₀, t.client = .serving ctx hs₀ := by
  cases before : t.client with
  | serving ctx₀ hs₀ =>
    obtain ⟨hs', after, -⟩ := step_serving before h
    rw [serving] at after
    cases after
    exact ⟨hs₀, rfl⟩
  | connecting c =>
    rcases step_client h with same | ⟨r, answered⟩ | ⟨j, moved⟩
    · rw [serving, before] at same
      cases same
    · rw [serving, before] at answered
      cases r <;> simp [Client.answer] at answered
    · rw [serving, before] at moved
      unfold Client.io at moved
      split at moved <;> simp at *

end Task

/-! ## The system -/

/-- Where the importer of `Pool::spawn` stands. -/
inductive Importer where
  | running | notifying | exhausting | stopped
deriving DecidableEq, Repr

/-- The shared state, the importer, the tasks, and what was admitted to the pool so far, in order. The
next admitted instance gets the next tag. -/
structure Sys where
  shared : Shared
  auth : Option AuthExpect
  importer : Importer
  tasks : List Task
  admitted : List Ident

namespace Sys

/-- A step of the system. -/
inductive Input where
  | importNext (proxy : Proxy)
  | importNotify
  | importEnd
  | accept (peerIp : IpAddr) (stream : Bytes) (budget : Option Nat)
  | connect (uri : Uri) (maxTries : Nat)
  | add (proxy : Proxy)
  | remove (addr : Addr)
  | tryGet (scheme : Scheme) (country : Option Text)
  | task (k : Nat) (i : Task.Input)

def pool (sys : Sys) : Pool := sys.shared.pool

def setPool (sys : Sys) (pool : Pool) : Sys := { sys with shared := { sys.shared with pool := pool } }

/-- The instance that `proxy` becomes when it is admitted next. -/
def tagged (sys : Sys) (proxy : Proxy) : Proxy := { proxy with tag := sys.admitted.length }

/-- A served client in its connection's context. -/
def connCtx (sys : Sys) (peerIp : IpAddr) : ConnCtx := ⟨sys.auth, peerIp, sys.pool.config⟩

def step (sys : Sys) (i : Input) : Option Sys :=
  match i with
  | .importNext proxy =>
    let p := sys.tagged proxy
    if sys.importer = .running then
      if countryOk sys.pool.config.toUppercase p sys.pool.config.countries then
        some { sys.setPool (sys.pool.importProxy p) with importer := .notifying, admitted := sys.admitted ++ [p.ident] }
      else some sys
    else none
  | .importNotify =>
    match sys.importer with
    | .notifying => some { sys.setPool sys.pool.notifyWaiters with importer := .running }
    | .exhausting => some { sys.setPool sys.pool.notifyWaiters with importer := .stopped }
    | _ => none
  | .importEnd =>
    if sys.importer = .running then some { sys.setPool { sys.pool with exhausted := true } with importer := .exhausting }
    else none
  | .accept peerIp stream budget =>
    some { sys with tasks := sys.tasks ++ [Task.start (.serving (sys.connCtx peerIp) (Handler.accept stream budget))] }
  | .connect uri maxTries => some { sys with tasks := sys.tasks ++ [Task.start (.connecting (Connector.start uri maxTries))] }
  | .add proxy =>
    let p := sys.tagged proxy
    if sys.pool.holds p.addr then some sys
    else some { sys.setPool (sys.pool.add p) with admitted := sys.admitted ++ [p.ident] }
  | .remove addr => some { sys with shared := sys.shared.remove addr }
  | .tryGet scheme country => some { sys with shared := sys.shared.tryGet scheme country }
  | .task k i =>
    match sys.tasks[k]? with
    | none => none
    | some t => (t.step sys.shared i).map fun r => { sys with shared := r.1, tasks := sys.tasks.set k r.2 }

/-- What a step does. -/
inductive Move (s : Sys) : Input → Sys → Prop
  | imported {proxy : Proxy} : s.importer = .running → countryOk s.pool.config.toUppercase (s.tagged proxy) s.pool.config.countries = true →
      Move s (.importNext proxy) { s.setPool (s.pool.push ⟨s.tagged proxy, none⟩) with
        importer := .notifying, admitted := s.admitted ++ [(s.tagged proxy).ident] }
  | screened {proxy : Proxy} : s.importer = .running → ¬ countryOk s.pool.config.toUppercase (s.tagged proxy) s.pool.config.countries = true →
      Move s (.importNext proxy) s
  | announced : s.importer = .notifying → Move s .importNotify { s.setPool s.pool.notifyWaiters with importer := .running }
  | ended : s.importer = .exhausting → Move s .importNotify { s.setPool s.pool.notifyWaiters with importer := .stopped }
  | exhausted : s.importer = .running →
      Move s .importEnd { s.setPool { s.pool with exhausted := true } with importer := .exhausting }
  | accept {peerIp : IpAddr} {stream : Bytes} {budget : Option Nat} :
      Move s (.accept peerIp stream budget)
        { s with tasks := s.tasks ++ [Task.start (.serving (s.connCtx peerIp) (Handler.accept stream budget))] }
  | connect {uri : Uri} {maxTries : Nat} :
      Move s (.connect uri maxTries) { s with tasks := s.tasks ++ [Task.start (.connecting (Connector.start uri maxTries))] }
  | held {proxy : Proxy} : s.pool.holds (s.tagged proxy).addr = true → Move s (.add proxy) s
  | added {proxy : Proxy} : ¬ s.pool.holds (s.tagged proxy).addr = true →
      Move s (.add proxy) { s.setPool (s.pool.push ⟨s.tagged proxy, none⟩).notifyWaiters with
        admitted := s.admitted ++ [(s.tagged proxy).ident] }
  | remove {addr : Addr} : Move s (.remove addr) { s with shared := s.shared.remove addr }
  | tryGet {scheme : Scheme} {country : Option Text} :
      Move s (.tryGet scheme country) { s with shared := s.shared.tryGet scheme country }
  | task {k : Nat} {j : Task.Input} {task task' : Task} {sh : Shared} : s.tasks[k]? = some task →
      task.step s.shared j = some (sh, task') → Move s (.task k j) { s with shared := sh, tasks := s.tasks.set k task' }

theorem step_move {s t : Sys} {i : Input} (h : step s i = some t) : Move s i t := by
  cases i with
  | importNext proxy =>
    simp only [step] at h
    split at h
    · rename_i running
      split at h
      · rename_i accepted
        cases h
        rw [Pool.importProxy, if_pos accepted]
        exact .imported running accepted
      · rename_i refused
        cases h
        exact .screened running refused
    · cases h
  | importNotify =>
    simp only [step] at h
    split at h
    · rename_i notifying
      cases h
      exact .announced notifying
    · rename_i exhausting
      cases h
      exact .ended exhausting
    · cases h
  | importEnd =>
    simp only [step] at h
    split at h
    · rename_i running
      cases h
      exact .exhausted running
    · cases h
  | accept peerIp stream budget => cases h; exact .accept
  | connect uri maxTries => cases h; exact .connect
  | add proxy =>
    simp only [step] at h
    split at h
    · rename_i there
      cases h
      exact .held there
    · rename_i absent
      cases h
      rw [Pool.add, if_neg absent]
      exact .added absent
  | remove addr => cases h; exact .remove
  | tryGet scheme country => cases h; exact .tryGet
  | task k j =>
    simp only [step] at h
    split at h
    · cases h
    · rename_i task at_k
      obtain ⟨⟨sh, task'⟩, moved, eq⟩ := Option.map_eq_some_iff.1 h
      cases eq
      exact .task at_k moved

/-- `add` on the system is `add` on its pool, with the tag of the admission. -/
theorem step_add (sys : Sys) (proxy : Proxy) : ∃ t, step sys (.add proxy) = some t ∧ t.pool = sys.pool.add (sys.tagged proxy) := by
  simp only [step]
  split
  · rename_i held
    exact ⟨sys, rfl, (if_pos held).symm⟩
  · exact ⟨_, rfl, rfl⟩

/-- The shared state over a new pool. -/
def freshShared (pool : Pool) : Shared := ⟨pool, History.new, [], [], [], []⟩

/-- A server over `Pool::from_proxies`. The admitted proxies are tagged in order. -/
def fromProxies (auth : Option AuthExpect) (proxies : List Proxy) (config : PoolConfig) : Sys :=
  let accepted := (proxies.filter fun p => countryOk config.toUppercase p config.countries).mapIdx fun i p => { p with tag := i }
  ⟨freshShared (Pool.fromProxies accepted config), auth, .stopped, [], accepted.map Proxy.ident⟩

/-- A server over `Pool::spawn`. -/
def spawn (auth : Option AuthExpect) (config : PoolConfig) : Sys :=
  ⟨freshShared (Pool.spawn config), auth, .running, [], []⟩

/-- A system at its start. -/
def Initial (sys : Sys) : Prop :=
  (∃ auth proxies config, sys = fromProxies auth proxies config) ∨ ∃ auth config, sys = spawn auth config

/-! ## A connection of the system

The handler of a connection runs in the system as it runs alone: the system chooses the answers. -/

variable {s t u : Sys} {i : Input} {is : List Input} {k : Nat} {ctx : ConnCtx} {start : Handler.State}

/-- What a step does to the tasks: nothing, one begins, or one moves. A client that begins to be served was
accepted. -/
theorem step_tasks (h : step s i = some t) :
    ((∀ k j, i ≠ .task k j) ∧ t.tasks = s.tasks) ∨
    ((∀ k j, i ≠ .task k j) ∧ ∃ client, client.held = none ∧ t.tasks = s.tasks ++ [Task.start client] ∧
      ∀ ctx hs, client = .serving ctx hs → ∃ stream budget, i = .accept ctx.peerIp stream budget) ∨
    (∃ k j task task', i = .task k j ∧ s.tasks[k]? = some task ∧ task.step s.shared j = some (t.shared, task') ∧
      t.tasks = s.tasks.set k task') := by
  cases step_move h with
  | accept =>
    refine Or.inr (Or.inl ⟨by simp, _, rfl, rfl, ?_⟩)
    rintro ctx hs ⟨⟩
    exact ⟨_, _, rfl⟩
  | connect => exact Or.inr (Or.inl ⟨by simp, _, rfl, rfl, by simp⟩)
  | task at_k moved => exact Or.inr (Or.inr ⟨_, _, _, _, rfl, at_k, moved, rfl⟩)
  | imported | screened | announced | ended | exhausted | held | added | remove | tryGet => exact Or.inl ⟨by simp, rfl⟩

/-- Only a task writes the session map and the rotation count. -/
theorem step_outside (outside : ∀ n j, i ≠ .task n j) (h : step s i = some t) :
    t.pool.sessions = s.pool.sessions ∧ t.pool.rotations = s.pool.rotations := by
  cases step_move h with
  | @task n j => exact absurd rfl (outside n j)
  | @tryGet scheme country =>
    obtain ⟨_, _, -, eq, -⟩ := s.shared.tryGet_frame scheme country
    show (s.shared.tryGet scheme country).pool.sessions = _ ∧ (s.shared.tryGet scheme country).pool.rotations = _
    rw [eq]
    exact ⟨rfl, rfl⟩
  | imported | screened | announced | ended | exhausted | accept | connect | held | added | remove => exact ⟨rfl, rfl⟩

/-- Where a task comes from: it was there, or it is new, or it moved. -/
theorem mem_tasks_step (h : step s i = some t) {task : Task} (mem : task ∈ t.tasks) :
    task ∈ s.tasks ∨ (∃ client, client.held = none ∧ task = Task.start client) ∨
    ∃ old ∈ s.tasks, ∃ j, old.step s.shared j = some (t.shared, task) := by
  rcases step_tasks h with ⟨-, same⟩ | ⟨-, client, idle, more, -⟩ | ⟨k, j, old, new, -, at_k, moved, set⟩
  · exact Or.inl (same ▸ mem)
  · rw [more, List.mem_append, List.mem_singleton] at mem
    exact mem.imp_right fun eq => Or.inl ⟨client, idle, eq⟩
  · rw [set] at mem
    rcases List.mem_or_eq_of_mem_set mem with there | rfl
    · exact Or.inl there
    · exact Or.inr (Or.inr ⟨old, List.mem_of_getElem? at_k, j, moved⟩)

/-- A step of task `k` is a step of the task that is there. -/
theorem step_task {task : Task} {j : Task.Input} (at_k : s.tasks[k]? = some task) (h : step s (.task k j) = some t) :
    ∃ task', task.step s.shared j = some (t.shared, task') ∧ t.tasks[k]? = some task' ∧ t.admitted = s.admitted := by
  simp only [step, at_k] at h
  obtain ⟨⟨sh, task'⟩, moved, eq⟩ := Option.map_eq_some_iff.1 h
  cases eq
  exact ⟨task', moved, List.getElem?_set_self (List.getElem?_eq_some_iff.1 at_k).1, rfl⟩

/-- Where a task that serves a client comes from: it was there, or it moved, or its connection is new. -/
theorem serving_cases {task : Task} {hs : Handler.State} (h : step s i = some t) (at_k : t.tasks[k]? = some task)
    (serving : task.client = .serving ctx hs) :
    (∃ old hs₀, s.tasks[k]? = some old ∧ old.client = .serving ctx hs₀) ∨
    ∃ stream budget, i = .accept ctx.peerIp stream budget ∧ k = s.tasks.length := by
  rcases step_tasks h with ⟨-, same⟩ | ⟨-, client, -, more, origin⟩ | ⟨l, j, old, new, -, at_l, moved, set⟩
  · exact Or.inl ⟨task, hs, same ▸ at_k, serving⟩
  · rw [more] at at_k
    by_cases inside : k < s.tasks.length
    · rw [List.getElem?_append_left inside] at at_k
      exact Or.inl ⟨task, hs, at_k, serving⟩
    · have last := (List.getElem?_eq_some_iff.1 at_k).1
      rw [List.length_append, List.length_singleton] at last
      obtain rfl : k = s.tasks.length := by omega
      rw [List.getElem?_concat_length] at at_k
      cases at_k
      obtain ⟨stream, budget, accepted⟩ := origin ctx hs serving
      exact Or.inr ⟨stream, budget, accepted, rfl⟩
  · by_cases here : l = k
    · subst here
      rw [set, List.getElem?_set_self (List.getElem?_eq_some_iff.1 at_l).1] at at_k
      cases at_k
      obtain ⟨hs₀, before⟩ := Task.serving_of_step serving moved
      exact Or.inl ⟨old, hs₀, at_l, before⟩
    · rw [set, List.getElem?_set_ne here] at at_k
      exact Or.inl ⟨task, hs, at_k, serving⟩

/-- Task `k` serves a client whose handler began in `start`. -/
def Serves (k : Nat) (ctx : ConnCtx) (start : Handler.State) (s : Sys) : Prop :=
  ∃ task hs is, s.tasks[k]? = some task ∧ task.client = .serving ctx hs ∧ run (Handler.step ctx) start is = some hs

/-- A task stays where it is, or it moves. -/
theorem task_step {task : Task} (at_k : s.tasks[k]? = some task) (h : step s i = some t) :
    t.tasks[k]? = some task ∨
    ∃ j task', i = .task k j ∧ task.step s.shared j = some (t.shared, task') ∧ t.tasks[k]? = some task' := by
  have inside := (List.getElem?_eq_some_iff.1 at_k).1
  rcases step_tasks h with ⟨-, same⟩ | ⟨-, client, -, more, -⟩ | ⟨l, j, other, other', rfl, at_l, moved, set⟩
  · exact Or.inl (by rw [same, at_k])
  · exact Or.inl (by rw [more, List.getElem?_append_left inside, at_k])
  · by_cases here : l = k
    · subst here
      obtain rfl : other = task := Option.some.inj (at_l.symm.trans at_k)
      exact Or.inr ⟨j, other', rfl, moved, by rw [set, List.getElem?_set_self inside]⟩
    · exact Or.inl (by rw [set, List.getElem?_set_ne here, at_k])

theorem serves_step (serves : s.Serves k ctx start) (h : step s i = some t) : t.Serves k ctx start := by
  obtain ⟨task, hs, is, at_k, serving, ran⟩ := serves
  rcases task_step at_k h with same | ⟨j, task', -, moved, at_k'⟩
  · exact ⟨task, hs, is, same, serving, ran⟩
  · obtain ⟨hs', serving', rfl | ⟨i, next⟩⟩ := Task.step_serving serving moved
    · exact ⟨task', hs', is, at_k', serving', ran⟩
    · refine ⟨task', hs', is ++ [i], at_k', serving', ?_⟩
      rw [run_append ran, run_cons_iff]
      exact ⟨hs', next, rfl⟩

theorem serves_run (serves : s.Serves k ctx start) (h : run step s is = some t) : t.Serves k ctx start :=
  run_preserves (fun _ _ _ inv next => serves_step inv next) serves h

/-- **A connection.** In every state after it was accepted, its handler is where some run of
`handle_client` ends. -/
theorem serves_accepted {peerIp : IpAddr} {stream : Bytes} {budget : Option Nat}
    (accepted : step s (.accept peerIp stream budget) = some t) (h : run step t is = some u) :
    u.Serves s.tasks.length (s.connCtx peerIp) (Handler.accept stream budget) := by
  refine serves_run ?_ h
  cases accepted
  exact ⟨Task.start (.serving (s.connCtx peerIp) (Handler.accept stream budget)), _, [], by simp, rfl, rfl⟩

end Sys

end ProxyBroker
