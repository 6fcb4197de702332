import ProxyBroker.Wakeup

/-!
# The front door (`server.rs:serve`)

The listener is bound at once, and clients that come early wait in the backlog. The accept loop begins when
`wait_ready(min_queue)` returns; it takes the clients in the order in which they came and spawns a handler for each of them,
until the token is cancelled.
-/

namespace ProxyBroker
open Lib Server

/-- A client of the listener: its address, what it will send, and what it will accept while its request is read. -/
structure Visitor where
  peerIp : IpAddr
  stream : Bytes
  budget : Option Nat

/-- Where the task of `serve` stands. -/
inductive FrontDoor.Phase where
  | waiting | accepting | stopped
deriving DecidableEq, Repr

/-- The task that `serve` spawns, the backlog of its listener, and the rest of the system. -/
structure FrontDoor where
  sys : Sys
  backlog : List Visitor
  gate : Waiter
  phase : FrontDoor.Phase
  cancelled : Bool

namespace FrontDoor

/-- `visit` and `lost` are clients that connect, and that are gone before they are accepted; `failed` is an error of `accept`.
`cancel` is the handle, shut down or dropped, and `stop` the branch of the loop that sees it. The rest of the system does not
accept. -/
inductive Input where
  | visit (v : Visitor)
  | lost (k : Nat)
  | gate
  | opened
  | accepted
  | failed
  | cancel
  | stop
  | other (i : Sys.Input)

/-- `serve`, on the system that it finds. -/
def bound (sys : Sys) (minQueue : Nat) : FrontDoor := ⟨sys, [], ⟨minQueue, .enter⟩, .waiting, false⟩

def step (d : FrontDoor) : Input → Option FrontDoor
  | .visit v => if d.phase ≠ .stopped then some { d with backlog := d.backlog ++ [v] } else none
  | .lost k => if k < d.backlog.length then some { d with backlog := d.backlog.eraseIdx k } else none
  | .gate => if d.phase = .waiting then (d.gate.step d.sys.pool).map fun w => { d with gate := w } else none
  | .opened => if d.phase = .waiting ∧ d.gate.phase = .returned then some { d with phase := .accepting } else none
  | .accepted =>
    match d.phase, d.backlog with
    | .accepting, v :: rest => (d.sys.step (.accept v.peerIp v.stream v.budget)).map fun sys => { d with sys := sys, backlog := rest }
    | _, _ => none
  | .failed => if d.phase = .accepting then some d else none
  | .cancel => some { d with cancelled := true }
  | .stop => if d.cancelled ∧ d.phase ≠ .stopped then some { d with phase := .stopped } else none
  | .other (.accept _ _ _) => none
  | .other i => (d.sys.step i).map fun sys => { d with sys := sys }

/-- What a step does. -/
inductive Move (d : FrontDoor) : Input → FrontDoor → Prop
  | visit {v : Visitor} : d.phase ≠ .stopped → Move d (.visit v) { d with backlog := d.backlog ++ [v] }
  | lost {k : Nat} : k < d.backlog.length → Move d (.lost k) { d with backlog := d.backlog.eraseIdx k }
  | gate {w : Waiter} : d.phase = .waiting → d.gate.step d.sys.pool = some w → Move d .gate { d with gate := w }
  | opened : d.phase = .waiting → d.gate.phase = .returned → Move d .opened { d with phase := .accepting }
  | accepted {v : Visitor} {rest : List Visitor} {sys : Sys} : d.phase = .accepting → d.backlog = v :: rest →
      d.sys.step (.accept v.peerIp v.stream v.budget) = some sys → Move d .accepted { d with sys := sys, backlog := rest }
  | failed : d.phase = .accepting → Move d .failed d
  | cancel : Move d .cancel { d with cancelled := true }
  | stop : d.cancelled = true → d.phase ≠ .stopped → Move d .stop { d with phase := .stopped }
  | other {i : Sys.Input} {sys : Sys} : (∀ peerIp stream budget, i ≠ .accept peerIp stream budget) → d.sys.step i = some sys →
      Move d (.other i) { d with sys := sys }

theorem step_move {d e : FrontDoor} {i : Input} (h : step d i = some e) : Move d i e := by
  cases i with
  | visit v =>
    simp only [step] at h
    split at h
    · rename_i listening
      cases h
      exact .visit listening
    · cases h
  | lost k =>
    simp only [step] at h
    split at h
    · rename_i there
      cases h
      exact .lost there
    · cases h
  | gate =>
    simp only [step] at h
    split at h
    · rename_i waiting
      obtain ⟨w, next, rfl⟩ := Option.map_eq_some_iff.1 h
      exact .gate waiting next
    · cases h
  | opened =>
    simp only [step] at h
    split at h
    · rename_i returned
      cases h
      exact .opened returned.1 returned.2
    · cases h
  | accepted =>
    simp only [step] at h
    split at h
    · rename_i v rest accepting queue
      obtain ⟨sys, next, rfl⟩ := Option.map_eq_some_iff.1 h
      exact .accepted accepting queue next
    · cases h
  | failed =>
    simp only [step] at h
    split at h
    · rename_i accepting
      cases h
      exact .failed accepting
    · cases h
  | cancel =>
    cases h
    exact .cancel
  | stop =>
    simp only [step] at h
    split at h
    · rename_i cancelled
      cases h
      exact .stop cancelled.1 cancelled.2
    · cases h
  | other i =>
    cases i with
    | accept => cases h
    | importNext | importNotify | importEnd | connect | add | remove | tryGet | task =>
      simp only [step, Option.map_eq_some_iff] at h
      obtain ⟨sys, next, rfl⟩ := h
      exact .other (by simp) next

end FrontDoor

/-! ## The clients that are served -/

/-- The client that a task serves. -/
def Task.serving? (t : Task) : Option (ConnCtx × Handler.State) :=
  match t.client with
  | .serving ctx hs => some (ctx, hs)
  | .connecting _ => none

/-- The served clients, in the order of their tasks. -/
def Sys.servings (s : Sys) : List (ConnCtx × Handler.State) := s.tasks.filterMap Task.serving?

/-- A handler rests or goes on. -/
def GoesOn (p q : ConnCtx × Handler.State) : Prop := q.1 = p.1 ∧ (q.2 = p.2 ∨ ∃ j, Handler.step p.1 p.2 j = some q.2)

theorem goesOn_refl (p : ConnCtx × Handler.State) : GoesOn p p := ⟨rfl, .inl rfl⟩

/-- One element moves. -/
theorem forall₂_set {α : Type} {R : α → α → Prop} (refl : ∀ a, R a a) {a b : α} (moved : R a b) :
    ∀ {l : List α} {k : Nat}, l[k]? = some a → List.Forall₂ R l (l.set k b) := by
  intro l
  induction l with
  | nil => intro k at_k; cases at_k
  | cons x l ih =>
    intro k at_k
    cases k with
    | zero =>
      cases at_k
      exact .cons moved (List.forall₂_same.2 fun y _ => refl y)
    | succ k => exact .cons (refl x) (ih at_k)

theorem Task.step_serving? {t t' : Task} {sh sh' : Shared} {i : Task.Input} (h : t.step sh i = some (sh', t')) :
    Option.Rel GoesOn t.serving? t'.serving? := by
  cases at_t : t.client with
  | serving ctx hs =>
    obtain ⟨hs', after, goes⟩ := Task.step_serving at_t h
    simp only [Task.serving?, at_t, after]
    exact .some ⟨rfl, goes⟩
  | connecting c =>
    cases at_t' : t'.client with
    | serving ctx hs =>
      obtain ⟨hs₀, before⟩ := Task.serving_of_step at_t' h
      rw [at_t] at before
      cases before
    | connecting c' =>
      simp only [Task.serving?, at_t, at_t']
      exact .none

namespace Sys

variable {s t : Sys} {i : Sys.Input}

/-- Nobody comes but through the front door. -/
theorem servings_step (h : step s i = some t) (outside : ∀ peerIp stream budget, i ≠ .accept peerIp stream budget) :
    List.Forall₂ GoesOn s.servings t.servings := by
  have still : List.Forall₂ GoesOn s.servings s.servings := List.forall₂_same.2 fun p _ => goesOn_refl p
  rcases step_tasks h with ⟨-, same⟩ | ⟨-, client, -, more, origin⟩ | ⟨k, j, task, task', -, at_k, moved, set⟩
  · rw [servings, servings, same]
    exact still
  · cases client with
    | serving ctx hs =>
      obtain ⟨stream, budget, accepted⟩ := origin ctx hs rfl
      exact absurd accepted (outside _ _ _)
    | connecting c =>
      have same : t.servings = s.servings := by
        rw [servings, servings, more, List.filterMap_append]
        exact List.append_nil _
      rw [same]
      exact still
  · rw [servings, servings, set]
    refine List.rel_filterMap (R := fun a b => Option.Rel GoesOn a.serving? b.serving?) (fun _ _ moved => moved) ?_
    refine forall₂_set (R := fun a b : Task => Option.Rel GoesOn a.serving? b.serving?) (fun a => ?_) (Task.step_serving? moved) at_k
    cases a.serving? with
    | none => exact .none
    | some p => exact .some (goesOn_refl p)

theorem servings_accept {peerIp : IpAddr} {stream : Bytes} {budget : Option Nat} (h : step s (.accept peerIp stream budget) = some t) :
    t.servings = s.servings ++ [(s.connCtx peerIp, Handler.accept stream budget)] := by
  cases h
  rw [servings, List.filterMap_append]
  rfl

end Sys

namespace FrontDoor

variable {start d e : FrontDoor} {i : Input} {is : List Input} {v : Visitor} {vs served : List Visitor}
  {p q : ConnCtx × Handler.State} {ps qs : List (ConnCtx × Handler.State)}

/-- The handler of a visitor's connection. -/
def Handled (v : Visitor) (p : ConnCtx × Handler.State) : Prop :=
  p.1.peerIp = v.peerIp ∧ ∃ js, run (Handler.step p.1) (Handler.accept v.stream v.budget) js = some p.2

theorem Handled.goesOn (handled : Handled v p) (goes : GoesOn p q) : Handled v q := by
  obtain ⟨peer, js, ran⟩ := handled
  obtain ⟨ctx, same | ⟨j, next⟩⟩ := goes
  · rw [Handled, ctx, same]
    exact ⟨peer, js, ran⟩
  · rw [Handled, ctx]
    refine ⟨peer, js ++ [j], ?_⟩
    rw [run_append ran, run_cons_iff]
    exact ⟨q.2, next, rfl⟩

theorem handled_goesOn (handled : List.Forall₂ Handled vs ps) : ∀ {qs}, List.Forall₂ GoesOn ps qs → List.Forall₂ Handled vs qs := by
  induction handled with
  | nil =>
    intro qs goes
    cases goes
    exact .nil
  | cons first rest ih =>
    intro qs goes
    cases goes with
    | cons goes more => exact .cons (first.goesOn goes) (ih more)

end FrontDoor

/-! ## The gate -/

namespace Waiter

variable {pool : Pool} {due : Prop} {w w' : Waiter}

theorem step_n (h : w.step pool = some w') : w'.n = w.n ∧ w.phase ≠ .returned := by
  unfold step at h
  split at h
  · rename_i at_w
    cases h
    simp [at_w]
  · rename_i at_w
    cases h
    simp [at_w]
  · rename_i at_w
    cases h
    simp [at_w]
  · rename_i at_w
    cases h
    simp [at_w]
  · rename_i at_w
    split at h
    · cases h
      simp [at_w]
    · cases h
  · cases h

/-- `wait_ready` returns on a filled pool or an exhausted source only. -/
theorem step_returned (h : w.step pool = some w') (returned : w'.phase = .returned) :
    w.n ≤ pool.state.length ∨ pool.exhausted = true := by
  unfold step at h
  split at h
  · cases h
    by_cases zero : w.n = 0
    · exact .inl (zero ▸ Nat.zero_le _)
    · simp [zero] at returned
  · cases h
    cases returned
  · cases h
    by_cases enough : w.n ≤ pool.state.length
    · exact .inl enough
    · simp [enough] at returned
  · cases h
    by_cases exhausted : pool.exhausted = true
    · exact .inr exhausted
    · simp [exhausted] at returned
  · split at h
    · cases h
      cases returned
    · cases h
  · cases h

/-- With nobody about to notify, `wait_ready` on a filled pool or an exhausted source returns by itself. -/
theorem gets_through (found : w.n ≤ pool.state.length ∨ pool.exhausted = true) (alert : w.Alert pool due) (quiet : ¬ due) :
    ∃ m, run (fun (w : Waiter) (_ : Unit) => w.step pool) w (List.replicate m ()) = some ⟨w.n, .returned⟩ := by
  obtain ⟨n, phase⟩ := w
  have counting (waker : Nat) :
      ∃ m, run (fun (w : Waiter) (_ : Unit) => w.step pool) ⟨n, .counting waker⟩ (List.replicate m ()) = some ⟨n, .returned⟩ := by
    by_cases enough : n ≤ pool.state.length
    · exact ⟨1, by simp [run, step, enough]⟩
    · have exhausted := found.resolve_left enough
      exact ⟨2, by simp [run, step, enough, exhausted]⟩
  have making : ∃ m, run (fun (w : Waiter) (_ : Unit) => w.step pool) ⟨n, .making⟩ (List.replicate m ()) = some ⟨n, .returned⟩ := by
    obtain ⟨m, ran⟩ := counting pool.epoch
    exact ⟨m + 1, run_cons_iff.2 ⟨_, rfl, ran⟩⟩
  have parked {waker : Nat} (fired : waker < pool.epoch) :
      ∃ m, run (fun (w : Waiter) (_ : Unit) => w.step pool) ⟨n, .parked waker⟩ (List.replicate m ()) = some ⟨n, .returned⟩ := by
    obtain ⟨m, ran⟩ := making
    exact ⟨m + 1, run_cons_iff.2 ⟨_, if_pos fired, ran⟩⟩
  cases phase with
  | enter =>
    by_cases zero : n = 0
    · exact ⟨1, by simp [run, step, zero]⟩
    · obtain ⟨m, ran⟩ := making
      exact ⟨m + 1, run_cons_iff.2 ⟨⟨n, .making⟩, by simp [step, zero], ran⟩⟩
  | making => exact making
  | counting waker => exact counting waker
  | checking waker =>
    by_cases exhausted : pool.exhausted = true
    · exact ⟨1, by simp [run, step, exhausted]⟩
    · have fired : waker < pool.epoch := by
        by_contra unfired
        exact Lib.Alert.nothing alert quiet unfired (found.resolve_right exhausted)
      obtain ⟨m, ran⟩ := parked fired
      exact ⟨m + 1, run_cons_iff.2 ⟨⟨n, .parked waker⟩, by simp [step, exhausted], ran⟩⟩
  | parked waker =>
    apply parked
    by_contra unfired
    exact Lib.Alert.nothing alert quiet unfired found.symm
  | returned => exact ⟨0, rfl⟩

end Waiter

namespace FrontDoor

/-! ## The queue -/

/-- The pool is filled, or will not be. -/
def Ready (d : FrontDoor) : Prop := d.gate.n ≤ d.sys.pool.state.length ∨ d.sys.pool.exhausted = true

def Input.visitor? : Input → Option Visitor
  | .visit v => some v
  | _ => none

def Input.loses : Input → Bool
  | .lost _ => true
  | _ => false

/-- Who came, in order. -/
def visitors (is : List Input) : List Visitor := is.filterMap Input.visitor?

theorem visitors_concat (is : List Input) (i : Input) : visitors (is ++ [i]) = visitors is ++ i.visitor?.toList := by
  rw [visitors, List.filterMap_append]
  cases i <;> rfl

/-- Who was served: the first to come of those that were not lost. -/
structure Serves (is : List Input) (d : FrontDoor) (served : List Visitor) : Prop where
  inOrder : (served ++ d.backlog).Sublist (visitors is)
  counted : served.length + d.backlog.length + is.countP Input.loses = (visitors is).length
  handled : List.Forall₂ Handled served d.sys.servings

/-- A step that leaves the queue alone. -/
theorem Serves.rests (serves : Serves is d served) (nobody : i.visitor? = none) (kept : i.loses = false)
    (backlog : e.backlog = d.backlog) (goes : List.Forall₂ GoesOn d.sys.servings e.sys.servings) : Serves (is ++ [i]) e served := by
  have same : visitors (is ++ [i]) = visitors is := by
    rw [visitors_concat, nobody]
    exact List.append_nil _
  have lost : (is ++ [i]).countP Input.loses = is.countP Input.loses := by simp [kept]
  refine ⟨?_, ?_, handled_goesOn serves.handled goes⟩
  · rw [same, backlog]
    exact serves.inOrder
  · rw [same, backlog, lost]
    exact serves.counted

theorem serves_step (serves : Serves is d served) (h : step d i = some e) : ∃ served, Serves (is ++ [i]) e served := by
  have still : List.Forall₂ GoesOn d.sys.servings d.sys.servings := List.forall₂_same.2 fun p _ => goesOn_refl p
  have count := serves.counted
  cases step_move h with
  | @visit v =>
    refine ⟨served, ?_, ?_, serves.handled⟩
    · rw [visitors_concat, ← List.append_assoc]
      exact serves.inOrder.append (.refl [v])
    · rw [visitors_concat]
      simp only [Input.visitor?, Input.loses, Option.toList_some, List.length_append, List.length_singleton, List.countP_append,
        List.countP_singleton, Bool.false_eq_true, if_false]
      omega
  | @lost k there =>
    have same : visitors (is ++ [.lost k]) = visitors is := by
      rw [visitors_concat]
      exact List.append_nil _
    refine ⟨served, ?_, ?_, serves.handled⟩
    · rw [same]
      exact ((List.eraseIdx_sublist d.backlog k).append_left served).trans serves.inOrder
    · rw [same, List.length_eraseIdx_of_lt there]
      simp only [Input.loses, List.countP_append, List.countP_singleton, if_true]
      omega
  | @accepted v rest sys accepting queue next =>
    have same : visitors (is ++ [.accepted]) = visitors is := by
      rw [visitors_concat]
      exact List.append_nil _
    refine ⟨served ++ [v], ?_, ?_, ?_⟩
    · have order := serves.inOrder
      rw [queue] at order
      rw [same, List.append_assoc]
      exact order
    · rw [queue, List.length_cons] at count
      rw [same, List.length_append, List.length_singleton]
      simp only [Input.loses, List.countP_append, List.countP_singleton, Bool.false_eq_true, if_false]
      omega
    · show List.Forall₂ Handled (served ++ [v]) sys.servings
      rw [Sys.servings_accept next]
      exact List.rel_append serves.handled (.cons ⟨rfl, [], rfl⟩ .nil)
  | other outside next => exact ⟨served, serves.rests rfl rfl rfl (Sys.servings_step next outside)⟩
  | gate | opened | failed | cancel | stop => exact ⟨served, serves.rests rfl rfl rfl still⟩

/-- Only the loop takes in clients. -/
theorem servings_length (h : step d i = some e) (others : i ≠ .accepted) : e.sys.servings.length = d.sys.servings.length := by
  cases step_move h with
  | accepted => exact absurd rfl others
  | other outside next => exact (Sys.servings_step next outside).length_eq.symm
  | visit | lost | gate | opened | failed | cancel | stop => rfl

/-! ## The invariant -/

theorem alert_step (getters : d.sys.Alert) (gate : d.gate.Alert d.sys.pool d.sys.Pending) (h : step d i = some e) :
    e.sys.Alert ∧ e.gate.Alert e.sys.pool e.sys.Pending := by
  cases step_move h with
  | accepted _ _ next => exact ⟨Sys.alert_step getters next, gate.others (Sys.step_wakes next)⟩
  | other _ next => exact ⟨Sys.alert_step getters next, gate.others (Sys.step_wakes next)⟩
  | gate _ next => exact ⟨getters, Waiter.step_alert next gate⟩
  | visit | lost | opened | failed | cancel | stop => exact ⟨getters, gate⟩

/-- The gate moves by itself. -/
theorem gate_step (h : step d i = some e) : e.gate = d.gate ∨ d.gate.step d.sys.pool = some e.gate := by
  cases step_move h with
  | gate _ next => exact .inr next
  | visit | lost | opened | accepted | failed | cancel | stop | other => exact .inl rfl

/-- Behind a closed gate nobody is served, and the loop has not begun. -/
def Shut (d : FrontDoor) : Prop := d.sys.servings = [] ∧ d.phase ≠ .accepting

theorem shut_step (shut : d.Shut) (closed : d.gate.phase ≠ .returned) (h : step d i = some e) : e.Shut := by
  obtain ⟨nobody, early⟩ := shut
  cases step_move h with
  | opened _ returned => exact absurd returned closed
  | accepted accepting => exact absurd accepting early
  | stop => exact ⟨nobody, nofun⟩
  | @other i sys outside next =>
    have goes := Sys.servings_step next outside
    rw [nobody] at goes
    exact ⟨List.forall₂_nil_left_iff.1 goes, early⟩
  | visit | lost | gate | failed | cancel => exact ⟨nobody, early⟩

/-- The loop stops when it is cancelled, and for good. -/
theorem stopped_step (h : step d i = some e) : (d.phase = .stopped → e.phase = .stopped ∧ i ≠ .accepted) ∧
    (e.phase = .stopped → d.phase = .stopped ∨ d.cancelled = true) ∧ (d.cancelled = true → e.cancelled = true) := by
  cases step_move h with
  | opened waiting => exact ⟨fun stopped => absurd (waiting.symm.trans stopped) nofun, nofun, id⟩
  | accepted accepting => exact ⟨fun stopped => absurd (accepting.symm.trans stopped) nofun, .inl, id⟩
  | cancel => exact ⟨fun stopped => ⟨stopped, nofun⟩, .inl, fun _ => rfl⟩
  | stop cancelled => exact ⟨fun _ => ⟨rfl, nofun⟩, fun _ => .inr cancelled, id⟩
  | visit | lost | gate | failed | other => exact ⟨fun stopped => ⟨stopped, nofun⟩, .inl, id⟩

/-- What holds after `is`. -/
structure Sound (start : FrontDoor) (is : List Input) (d : FrontDoor) : Prop where
  getters : d.sys.Alert
  gate : d.gate.Alert d.sys.pool d.sys.Pending
  queue : d.gate.n = start.gate.n
  serves : ∃ served, Serves is d served
  shut : d.gate.phase ≠ .returned → d.Shut
  opening : d.gate.phase = .returned →
    ∃ before after u, is = before ++ after ∧ run step start before = some u ∧ u.gate.n = start.gate.n ∧ u.Ready ∧ u.sys.servings = []
  stopped : d.phase = .stopped → d.cancelled = true

theorem Sound.step (sound : Sound start is d) (reached : run step start is = some d) (h : step d i = some e) :
    Sound start (is ++ [i]) e := by
  obtain ⟨getters, gate⟩ := alert_step sound.getters sound.gate h
  obtain ⟨served, serves⟩ := sound.serves
  obtain ⟨-, stops, cancelled⟩ := stopped_step h
  have still (later : e.gate.phase ≠ .returned) : d.gate.phase ≠ .returned := by
    rcases gate_step h with same | moved
    · exact same ▸ later
    · exact (Waiter.step_n moved).2
  refine ⟨getters, gate, ?_, serves_step serves h, fun later => shut_step (sound.shut (still later)) (still later) h, ?_, ?_⟩
  · rcases gate_step h with same | moved
    · rw [same]
      exact sound.queue
    · exact (Waiter.step_n moved).1.trans sound.queue
  · intro returned
    rcases gate_step h with same | moved
    · obtain ⟨before, after, u, rfl, ran, n, ready, nobody⟩ := sound.opening (same ▸ returned)
      exact ⟨before, after ++ [i], u, List.append_assoc .., ran, n, ready, nobody⟩
    · refine ⟨is, [i], d, rfl, reached, sound.queue, Waiter.step_returned moved returned, ?_⟩
      exact (sound.shut (Waiter.step_n moved).2).1
  · intro stopped
    rcases stops stopped with before | before
    · exact cancelled (sound.stopped before)
    · exact cancelled before

theorem Sound.start {sys : Sys} (initial : sys.Initial) (minQueue : Nat) : Sound (bound sys minQueue) [] (bound sys minQueue) where
  getters := Sys.alert_initial initial
  gate := trivial
  queue := rfl
  serves := by
    refine ⟨[], .refl [], rfl, ?_⟩
    rcases initial with ⟨auth, proxies, config, rfl⟩ | ⟨auth, config, rfl⟩
    · exact .nil
    · exact .nil
  shut _ := by
    rcases initial with ⟨auth, proxies, config, rfl⟩ | ⟨auth, config, rfl⟩
    · exact ⟨rfl, nofun⟩
    · exact ⟨rfl, nofun⟩
  opening := nofun
  stopped := nofun

/-! ## Nobody is left outside -/

theorem gate_run {w : Waiter} {m : Nat} (waiting : d.phase = .waiting)
    (ran : run (fun (w : Waiter) (_ : Unit) => w.step d.sys.pool) d.gate (List.replicate m ()) = some w) :
    run step d (List.replicate m .gate) = some { d with gate := w } := by
  induction m generalizing d with
  | zero =>
    cases ran
    rfl
  | succ m ih =>
    obtain ⟨w', next, rest⟩ := run_cons_iff.1 ran
    refine run_cons_iff.2 ⟨{ d with gate := w' }, ?_, ih waiting rest⟩
    simp [step, waiting, next]

/-- An open door takes in everybody who waits. -/
theorem takes_all : ∀ {d : FrontDoor}, d.phase = .accepting →
    ∃ e, run step d (List.replicate d.backlog.length .accepted) = some e ∧ e.phase = .accepting ∧ e.backlog = [] ∧
      e.sys.servings.length = d.sys.servings.length + d.backlog.length := by
  rintro ⟨sys, backlog, gate, phase, cancelled⟩ accepting
  induction backlog generalizing sys with
  | nil => exact ⟨_, rfl, accepting, rfl, rfl⟩
  | cons v rest ih =>
    cases accepting
    obtain ⟨t, next⟩ : ∃ t, sys.step (.accept v.peerIp v.stream v.budget) = some t := ⟨_, rfl⟩
    obtain ⟨e, ran, open_, empty, count⟩ := ih t rfl
    refine ⟨e, run_cons_iff.2 ⟨_, ?_, ran⟩, open_, empty, ?_⟩
    · simp only [step, next, Option.map_some]
    · have grown : t.servings.length = sys.servings.length + 1 := by
        rw [Sys.servings_accept next, List.length_append, List.length_singleton]
      calc e.sys.servings.length = t.servings.length + rest.length := count
        _ = sys.servings.length + (rest.length + 1) := by omega

/-- **The front door**, in every interleaving of the accept loop, its clients and the rest of the system. The clients that are
served are the first to come of those that were not lost on the way, in their order, each by a handler of its own that began
with its connection. Nobody was served before the pool had held `min_queue` proxies or the source was exhausted. A door that
is not stopped takes in everybody who waits, by its own steps, as soon as it is open, or the pool is filled or the source
exhausted, and nobody is about to notify. It stops only when it is cancelled, and serves nobody new afterwards. -/
theorem front_door {sys : Sys} (initial : sys.Initial) {minQueue : Nat} (h : run step (bound sys minQueue) is = some d) :
    (∃ served, (served ++ d.backlog).Sublist (visitors is) ∧
      served.length + d.backlog.length + is.countP Input.loses = (visitors is).length ∧ List.Forall₂ Handled served d.sys.servings) ∧
    (d.sys.servings ≠ [] → ∃ before after u, is = before ++ after ∧ run step (bound sys minQueue) before = some u ∧
      (minQueue ≤ u.sys.pool.state.length ∨ u.sys.pool.exhausted = true) ∧ u.sys.servings = []) ∧
    (d.phase ≠ .stopped →
      (d.phase = .waiting → ¬ d.sys.Pending ∧ (minQueue ≤ d.sys.pool.state.length ∨ d.sys.pool.exhausted = true)) →
      ∃ js e, (∀ j ∈ js, j = .gate ∨ j = .opened ∨ j = .accepted) ∧ run step d js = some e ∧ e.backlog = [] ∧
        e.sys.servings.length = d.sys.servings.length + d.backlog.length) ∧
    (d.phase = .stopped → d.cancelled = true ∧
      ∀ js e, run step d js = some e → e.phase = .stopped ∧ e.sys.servings.length = d.sys.servings.length) := by
  have sound : Sound (bound sys minQueue) is d :=
    run_reached (P := Sound (bound sys minQueue)) (fun is u i t reached sound next => sound.step reached next)
      (Sound.start initial minQueue) h
  refine ⟨?_, ?_, ?_, ?_⟩
  · obtain ⟨served, serves⟩ := sound.serves
    exact ⟨served, serves.inOrder, serves.counted, serves.handled⟩
  · intro somebody
    have returned : d.gate.phase = .returned := by
      by_contra closed
      exact somebody (sound.shut closed).1
    obtain ⟨before, after, u, cut, ran, n, ready, nobody⟩ := sound.opening returned
    rw [Ready, n] at ready
    exact ⟨before, after, u, cut, ran, ready, nobody⟩
  · intro running ready
    cases at_d : d.phase with
    | stopped => exact absurd at_d running
    | accepting =>
      obtain ⟨e, ran, -, empty, count⟩ := takes_all at_d
      refine ⟨_, e, fun j mem => ?_, ran, empty, count⟩
      exact .inr (.inr (List.eq_of_mem_replicate mem))
    | waiting =>
      obtain ⟨quiet, found⟩ := ready at_d
      have enough : d.gate.n ≤ d.sys.pool.state.length ∨ d.sys.pool.exhausted = true := by
        rw [sound.queue]
        exact found
      obtain ⟨m, through⟩ := Waiter.gets_through enough sound.gate quiet
      have gates := gate_run at_d through
      obtain ⟨e, ran, -, empty, count⟩ := takes_all (d := { d with gate := ⟨d.gate.n, .returned⟩, phase := .accepting }) rfl
      refine ⟨List.replicate m .gate ++ .opened :: List.replicate d.backlog.length .accepted, e, ?_, ?_, empty, count⟩
      · intro j mem
        rcases List.mem_append.1 mem with gate | rest
        · exact .inl (List.eq_of_mem_replicate gate)
        · rcases List.mem_cons.1 rest with rfl | taken
          · exact .inr (.inl rfl)
          · exact .inr (.inr (List.eq_of_mem_replicate taken))
      · rw [run_append gates, run_cons_iff]
        refine ⟨_, ?_, ran⟩
        simp [step, at_d]
  · intro stopped
    refine ⟨sound.stopped stopped, fun js e ran => ?_⟩
    refine run_preserves (P := fun u : FrontDoor => u.phase = .stopped ∧ u.sys.servings.length = d.sys.servings.length) ?_
      ⟨stopped, rfl⟩ ran
    rintro u i t ⟨there, count⟩ next
    obtain ⟨stays, accepts⟩ := (stopped_step next).1 there
    exact ⟨stays, (servings_length next accepts).trans count⟩

/-- A client comes before the first proxy does. -/
def earlyClient : List Input :=
  [.visit ⟨(httpProxy 80).host, [], some 0⟩, .gate, .gate, .other (.importNext (httpProxy 80)), .gate, .other .importNotify, .opened,
    .accepted]

/-- The early client is served when the proxy is there. -/
theorem front_door_early_client : ∃ d, run step (bound (Sys.spawn none .default) 1) earlyClient = some d ∧ d.sys.servings.length = 1 ∧
    ∃ before after u, earlyClient = before ++ after ∧ run step (bound (Sys.spawn none .default) 1) before = some u ∧
      (1 ≤ u.sys.pool.state.length ∨ u.sys.pool.exhausted = true) ∧ u.sys.servings = [] := by
  obtain ⟨d, ran, one⟩ : ∃ d, run step (bound (Sys.spawn none .default) 1) earlyClient = some d ∧ d.sys.servings.length = 1 :=
    ⟨_, rfl, rfl⟩
  have somebody : d.sys.servings ≠ [] := by
    rintro nobody
    simp [nobody] at one
  exact ⟨d, ran, one, (front_door (.inr ⟨none, .default, rfl⟩) ran).2.1 somebody⟩

end FrontDoor

end ProxyBroker
