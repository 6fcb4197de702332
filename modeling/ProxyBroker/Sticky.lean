import ProxyBroker.Conservation
import ProxyBroker.Lib.Pins
import ProxyBroker.Server.Selection

/-!
# Sticky sessions (`server.rs`: `try_select`, `record_session`)

With `Strategy::Sticky` a selection reads the pin of its client's key, chooses under the lock of the vector,
and writes the chosen address back under the lock of the map. `Sys.pins` is a system as the library sees it
(`Lib/Pins.lean`), and `pins_step` says that every step of the system is one of the library's steps.
`record_session` keeps the map bounded and drops other pins only to make room (`recordSession_other`,
`recordSession_kept`).
-/

namespace ProxyBroker
open Lib Server

/-! ## The map -/

namespace Server.Pool
variable {pool : Pool} {key k : ClientKey} {addr a : Addr} {victim : Nat}

/-- The map has room for the key, or holds it. -/
def Roomy (pool : Pool) (key : ClientKey) : Prop :=
  (pool.sessions.lookup key).isSome ∨ pool.sessions.length < pool.config.maxSessions

/-- What `record_session` leaves of the map before it inserts. -/
def kept (pool : Pool) (key : ClientKey) (victim : Nat) : List (ClientKey × Addr) :=
  if pool.config.maxSessions ≤ pool.sessions.length ∧ (pool.sessions.lookup key).isNone then
    pool.sessions.eraseIdx (victim % pool.sessions.length)
  else pool.sessions

theorem recordSession_sessions (pool : Pool) (key : ClientKey) (addr : Addr) (victim : Nat) :
    (pool.recordSession key addr victim).sessions = assocInsert key addr (pool.kept key victim) := rfl

theorem kept_sublist (pool : Pool) (key : ClientKey) (victim : Nat) : (pool.kept key victim).Sublist pool.sessions := by
  unfold kept
  split
  · exact List.eraseIdx_sublist ..
  · exact List.Sublist.refl _

theorem kept_of_roomy (roomy : pool.Roomy key) : pool.kept key victim = pool.sessions := by
  unfold kept
  rw [if_neg]
  rintro ⟨full, absent⟩
  rcases roomy with present | room
  · rw [Option.isNone_iff_eq_none.1 absent] at present
    cases present
  · omega

theorem recordSession_self : (pool.recordSession key addr victim).sessions.lookup key = some addr := by
  rw [recordSession_sessions, lookup_assocInsert, if_pos rfl]

/-- Another key's pin stays, or is dropped. -/
theorem recordSession_other (keys : (pool.sessions.map Prod.fst).Nodup) (other : k ≠ key)
    (h : (pool.recordSession key addr victim).sessions.lookup k = some a) : pool.sessions.lookup k = some a := by
  rw [recordSession_sessions, lookup_assocInsert, if_neg other] at h
  exact lookup_of_sublist keys (kept_sublist pool key victim) h

/-- With room for the key, every other pin stays. -/
theorem recordSession_kept (roomy : pool.Roomy key) (other : k ≠ key) :
    (pool.recordSession key addr victim).sessions.lookup k = pool.sessions.lookup k := by
  rw [recordSession_sessions, lookup_assocInsert, if_neg other, kept_of_roomy roomy]

theorem recordSession_keys (keys : (pool.sessions.map Prod.fst).Nodup) :
    ((pool.recordSession key addr victim).sessions.map Prod.fst).Nodup := by
  rw [recordSession_sessions]
  exact nodup_keys_assocInsert (keys.sublist ((kept_sublist pool key victim).map _))

/-- **The map is bounded.** -/
theorem recordSession_length (bounded : pool.sessions.length ≤ max pool.config.maxSessions 1) :
    (pool.recordSession key addr victim).sessions.length ≤ max pool.config.maxSessions 1 := by
  rw [recordSession_sessions, length_assocInsert]
  have fewer := (kept_sublist pool key victim).length_le
  split
  · rename_i absent
    by_cases full : pool.config.maxSessions ≤ pool.sessions.length ∧ (pool.sessions.lookup key).isNone
    · rw [kept, if_pos full]
      by_cases empty : pool.sessions.length = 0
      · rw [List.length_eq_zero_iff] at empty
        simp [empty]
      · have inside : victim % pool.sessions.length < pool.sessions.length := Nat.mod_lt _ (Nat.pos_of_ne_zero empty)
        rw [List.length_eraseIdx_of_lt inside]
        omega
    · rw [kept, if_neg full] at absent ⊢
      have room : ¬ pool.config.maxSessions ≤ pool.sessions.length := fun le => full ⟨le, absent⟩
      omega
  · omega

end Server.Pool

/-! ## A selection -/

namespace Server.Lease
variable {scheme : Scheme} {key : ClientKey} {sh sh' : Shared} {acc acc' : Account} {g g' : State} {i : Input}

/-- Where a call of `get` stands in its selection. -/
def Phase.stage : Phase → Option (Pins.Stage Addr)
  | .choosing _ _ ctx => some (.choosing ctx.sticky)
  | .noting _ p => some (.noting p.addr)
  | _ => none

theorem stage_redraw (g : State) : (redraw g).phase.stage = none := by
  unfold redraw
  split <;> rfl

/-- What a step of `get` does to its selection and to the map: it begins one, takes a proxy, writes the map,
or leaves the map alone and is in no selection. -/
theorem step_stage (h : step scheme key sh acc g i = some (sh', acc', g')) :
    (∃ waker last now, sh' = sh ∧ g.phase.stage = none ∧ g'.phase = .choosing waker last (sh.pool.selectCtx scheme key now)) ∨
    (∃ waker last ctx seed p, i = .choose seed ∧ g.phase = .choosing waker last ctx ∧
      sh.pool.takeChosen ctx seed = some (p, sh'.pool) ∧ g'.phase = .noting last p) ∨
    (∃ last p victim, g.phase = .noting last p ∧ sh'.pool = sh.pool.noteChosen key p victim ∧ g'.phase.stage = none) ∨
    (sh'.pool.sessions = sh.pool.sessions ∧ (∀ a, g.phase.stage ≠ some (.noting a)) ∧ g'.phase.stage = none) := by
  -- in the last four cases the call is in no selection, and leaves the map alone
  have outside {phase : Phase} {pool : Pool} {g₁ : State} (at_g : g.phase = phase) (none_before : phase.stage = none)
      (none_after : g₁.phase.stage = none) (same : pool.sessions = sh.pool.sessions) :
      pool.sessions = sh.pool.sessions ∧ (∀ a, g.phase.stage ≠ some (.noting a)) ∧ g₁.phase.stage = none :=
    ⟨same, by simp [at_g, none_before], none_after⟩
  cases step_move h with
  | @read waker last now at_g => exact Or.inl ⟨waker, last, now, rfl, by rw [at_g]; rfl, rfl⟩
  | @draw waker last ctx seed p _ at_g taken => exact Or.inr (Or.inl ⟨waker, last, ctx, seed, p, rfl, at_g, taken, rfl⟩)
  | @miss _ last _ _ at_g =>
    refine Or.inr (Or.inr (Or.inr ⟨rfl, by simp [at_g, Phase.stage], ?_⟩))
    cases last <;> rfl
  | @note last p victim at_g =>
    refine Or.inr (Or.inr (Or.inl ⟨last, p, victim, at_g, rfl, ?_⟩))
    dsimp only
    split <;> rfl
  | enter at_g | wake at_g => exact Or.inr (Or.inr (Or.inr (outside at_g rfl rfl rfl)))
  | @probe _ alive at_g =>
    refine Or.inr (Or.inr (Or.inr (outside at_g rfl ?_ rfl)))
    cases alive <;> rfl
  | @bench p now at_g =>
    obtain ⟨_, _, eq⟩ := Shared.putBack_frame sh p true now
    refine Or.inr (Or.inr (Or.inr (outside at_g rfl ?_ (by rw [eq]))))
    split
    · exact stage_redraw g
    · rfl
  | notify at_g => exact Or.inr (Or.inr (Or.inr (outside at_g rfl (stage_redraw g) rfl)))
  | check at_g =>
    refine Or.inr (Or.inr (Or.inr (outside at_g rfl ?_ rfl)))
    dsimp only
    split <;> rfl

end Server.Lease

namespace Task
variable {sh sh' : Shared} {t t' : Task} {i : Input}

/-- The selection a task is in the middle of, with its key. -/
def selection (t : Task) : Option (ClientKey × Pins.Stage Addr) :=
  match t.client.demand with
  | .get _ key => t.lease.phase.stage.map fun stage => (key, stage)
  | _ => none

theorem selection_of_get {scheme : Scheme} {key : ClientKey} (get : t.client.demand = .get scheme key) :
    t.selection = t.lease.phase.stage.map fun stage => (key, stage) := by
  simp only [selection, get]

theorem selection_of_stage (unset : t.lease.phase.stage = none) : t.selection = none := by
  unfold selection
  split
  · rw [unset]
    rfl
  · rfl

end Task

/-! ## The system -/

namespace Sys
variable {s t u : Sys} {i : Input} {is : List Input} {k : ClientKey} {a : Addr} {n : Nat}

/-- The map and the selections of a system. -/
def pins (s : Sys) : Pins.State ClientKey Addr :=
  ⟨fun k => s.pool.sessions.lookup k, fun n => s.tasks[n]?.bind Task.selection⟩

/-- The address that a step leases, and under which key. -/
def leasedBy (i : Input) (t : Sys) : Option (ClientKey × Addr) :=
  match i with
  | .task n (.lease (.choose _)) =>
    match t.pins.sel n with
    | some (k, .noting a) => some (k, a)
    | _ => none
  | _ => none

/-- The addresses leased in a run, in order, with their keys. -/
def leases (s : Sys) (is : List Input) : List (ClientKey × Addr) :=
  (run (noting step fun js _ i t => js ++ (leasedBy i t).toList) (s, []) is).elim [] Prod.snd

/-- What every state of a system with sticky sessions is like. -/
structure Sticks (s : Sys) : Prop where
  sound : ∀ task ∈ s.tasks, task.Sound
  idle : ∀ task ∈ s.tasks, task.Idle
  sticky : s.pool.config.strategy = .sticky
  keys : (s.pool.sessions.map Prod.fst).Nodup
  bounded : s.pool.sessions.length ≤ max s.pool.config.maxSessions 1
  chosen : ∀ task ∈ s.tasks, ∀ waker last ctx, task.lease.phase = .choosing waker last ctx → ctx.strategy = .sticky

theorem sticks_initial (initial : s.Initial) (sticky : s.pool.config.strategy = .sticky) : s.Sticks := by
  have sound := (kept_initial initial).sound
  rcases initial with ⟨auth, proxies, config, rfl⟩ | ⟨auth, config, rfl⟩
  · exact ⟨sound, by simp [fromProxies], sticky, List.nodup_nil, Nat.zero_le _, by simp [fromProxies]⟩
  · exact ⟨sound, by simp [spawn], sticky, List.nodup_nil, Nat.zero_le _, by simp [spawn]⟩

/-- The selections after one task moved. -/
theorem sel_set {task task' : Task} (at_n : s.tasks[n]? = some task) (set : t.tasks = s.tasks.set n task') :
    t.pins.sel = Function.update s.pins.sel n task'.selection := by
  funext m
  have inside := (List.getElem?_eq_some_iff.1 at_n).1
  show t.tasks[m]?.bind Task.selection = _
  rw [set]
  by_cases same : m = n
  · subst same
    rw [List.getElem?_set_self inside, Function.update_self]
    rfl
  · rw [List.getElem?_set_ne (Ne.symm same), Function.update_of_ne same]
    rfl

theorem pins_set {task task' : Task} (same : t.pool.sessions = s.pool.sessions) (at_n : s.tasks[n]? = some task)
    (set : t.tasks = s.tasks.set n task') : t.pins = ⟨s.pins.pins, Function.update s.pins.sel n task'.selection⟩ := by
  have sel := sel_set at_n set
  have values : t.pins.pins = s.pins.pins := by
    funext k
    show t.pool.sessions.lookup k = s.pool.sessions.lookup k
    rw [same]
  rw [← sel, ← values]

/-- The address that a step of task `n` leases is the one it has taken and not noted. -/
theorem leasedBy_task {j : Task.Input} (other : ∀ k a, t.pins.sel n ≠ some (k, .noting a)) : leasedBy (.task n j) t = none := by
  unfold leasedBy
  split
  · rename_i eq
    cases eq
    split
    · rename_i k a here
      exact absurd here (other k a)
    · rfl
  · rfl

/-- A task that ends a call of `get`, or does something else, is in no selection. -/
theorem pins_leave {task task' : Task} {j : Task.Input} (same : t.pool.sessions = s.pool.sessions) (at_n : s.tasks[n]? = some task)
    (set : t.tasks = s.tasks.set n task') (before : ∀ k a, task.selection ≠ some (k, .noting a)) (after : task'.selection = none) :
    Pins.Step s.pins (leasedBy (.task n j) t) t.pins := by
  have eq := pins_set same at_n set
  have here : s.pins.sel n = task.selection := by simp only [pins, at_n, Option.bind_some]
  rw [leasedBy_task (by simp [eq, after]), eq, after]
  exact Pins.Step.leave n (by simpa [here] using before)

/-- **A step of `get`** as the library sees it. -/
theorem pins_get {task task' : Task} {scheme : Scheme} {key : ClientKey} {j : Lease.Input} (inv : s.Sticks)
    (at_n : s.tasks[n]? = some task) (get : task.client.demand = .get scheme key) (client : task'.client = task.client)
    (moved : Lease.step scheme key s.shared task.account task.lease j = some (t.shared, task'.account, task'.lease))
    (set : t.tasks = s.tasks.set n task') : Pins.Step s.pins (leasedBy (.task n (.lease j)) t) t.pins := by
  have here : s.pins.sel n = task.lease.phase.stage.map fun stage => (key, stage) := by
    simp only [pins, at_n, Option.bind_some, Task.selection_of_get get]
  have get' : task'.client.demand = .get scheme key := by rw [client, get]
  rcases Lease.step_stage moved with ⟨waker, last, now, same, outside, reads⟩ | ⟨waker, last, ctx, seed, p, rfl, choosing, taken, noting⟩ |
    ⟨last, p, victim, noting, noted, after⟩ | ⟨same, before, after⟩
  · have sessions : t.pool.sessions = s.pool.sessions := by rw [pool, same]; rfl
    have pin : task'.selection = some (key, .choosing (s.pins.pins key)) := by
      rw [Task.selection_of_get get', reads]
      show some (key, Pins.Stage.choosing (if s.pool.config.strategy = .sticky then s.pool.sessions.lookup key else none)) = _
      rw [if_pos inv.sticky]
      rfl
    have eq := pins_set sessions at_n set
    rw [leasedBy_task (by simp [eq, pin]), eq, pin]
    exact Pins.Step.enter n key (by rw [here, outside]; rfl)
  · have sessions : t.pool.sessions = s.pool.sessions := by
      obtain ⟨-, -, -, eq⟩ := Pool.takeChosen_spec taken
      rw [pool, eq]
      rfl
    have took : task'.selection = some (key, .noting p.addr) := by rw [Task.selection_of_get get', noting]; rfl
    have eq := pins_set sessions at_n set
    have leased : leasedBy (.task n (.lease (.choose seed))) t = some (key, p.addr) := by
      simp only [leasedBy, eq, Function.update_self, took]
    rw [leased, eq, took]
    exact Pins.Step.take n key ctx.sticky p.addr (by rw [here, choosing]; rfl)
  · have recorded : t.pool = s.pool.recordSession key p.addr victim := by
      rw [pool, noted, Pool.noteChosen, show s.shared.pool.config.strategy = .sticky from inv.sticky]
      rfl
    have sel := sel_set at_n set
    rw [Task.selection_of_stage after] at sel
    rw [leasedBy_task (by simp [sel])]
    have view : t.pins = ⟨fun k => (s.pool.recordSession key p.addr victim).sessions.lookup k,
        Function.update s.pins.sel n none⟩ := by
      rw [← sel, ← recorded]
      rfl
    rw [view]
    refine Pins.Step.note n key p.addr _ (by rw [here, noting]; rfl) Pool.recordSession_self ?_
    intro k b other pinned
    exact Pool.recordSession_other inv.keys other pinned
  · refine pins_leave same at_n set ?_ (Task.selection_of_stage after)
    intro k a at_k
    rw [Task.selection_of_get get] at at_k
    obtain ⟨stage, at_g, eq⟩ := Option.map_eq_some_iff.1 at_k
    cases eq
    exact before a at_g

/-- **Every step of the system is a step of the pins.** -/
theorem pins_step (inv : s.Sticks) (h : step s i = some t) : Pins.Step s.pins (leasedBy i t) t.pins := by
  have outside (away : ∀ n j, i ≠ .task n j) (same : t.pins = s.pins) : Pins.Step s.pins (leasedBy i t) t.pins := by
    have nothing : leasedBy i t = none := by
      unfold leasedBy
      split
      · exact absurd rfl (away _ _)
      · rfl
    rw [nothing, same]
    exact Pins.Step.quiet
  rcases step_tasks h with ⟨away, same⟩ | ⟨away, client, -, more, -⟩ | ⟨n, j, task, task', rfl, at_n, moved, set⟩
  · refine outside away ?_
    rw [pins, pins, same, (step_outside away h).1]
  · refine outside away ?_
    rw [pins, pins, more, (step_outside away h).1]
    congr 1
    funext n
    by_cases inside : n < s.tasks.length
    · rw [List.getElem?_append_left inside]
    · rw [List.getElem?_append_right (not_lt.1 inside), List.getElem?_eq_none (not_lt.1 inside)]
      cases n - s.tasks.length with
      | zero => exact Task.selection_of_stage rfl
      | succ m => rfl
  · have idle := inv.idle task (List.mem_of_getElem? at_n)
    have elsewhere (other : ∀ scheme key, task.client.demand ≠ .get scheme key) (same : task'.lease = task.lease)
        (sessions : t.pool.sessions = s.pool.sessions) : Pins.Step s.pins (leasedBy (.task n j) t) t.pins := by
      have before : task.selection = none := Task.selection_of_stage (by rw [idle.fresh other]; rfl)
      refine pins_leave sessions at_n set ?_ (Task.selection_of_stage (by rw [same, idle.fresh other]; rfl))
      rw [before]
      simp
    rcases Task.step_cases moved with ⟨scheme, key, j, rfl, get, client, leased⟩ | ⟨scheme, key, r, now, -, get, at_g, fresh, same⟩ |
      ⟨p, failed, now, -, put, -, same, back⟩ | ⟨other, -, -, same, sessions, -⟩
    · exact pins_get inv at_n get client leased set
    · refine pins_leave (by rw [pool, same]; rfl) at_n set ?_ (Task.selection_of_stage (by rw [fresh]; rfl))
      rw [Task.selection_of_get get, at_g]
      simp [Lease.Phase.stage]
    · obtain ⟨_, _, frame⟩ := Shared.putBack_frame s.shared p failed now
      exact elsewhere (by simp [put]) same (by rw [pool, back, frame]; rfl)
    · exact elsewhere other same sessions

/-- A task that writes the map writes it under its own key. -/
theorem sessions_task {j : Task.Input} (sticky : s.pool.config.strategy = .sticky) (h : step s (.task n j) = some t) :
    t.pool.sessions = s.pool.sessions ∨
    ∃ task scheme key addr victim, s.tasks[n]? = some task ∧ task.client.demand = .get scheme key ∧
      t.pool.sessions = (s.pool.recordSession key addr victim).sessions := by
  rcases step_tasks h with ⟨away, -⟩ | ⟨away, -⟩ | ⟨m, l, task, task', eq, at_n, moved, -⟩
  · exact absurd rfl (away n j)
  · exact absurd rfl (away n j)
  · cases eq
    rcases Task.step_cases moved with ⟨scheme, key, l, -, get, -, leased⟩ | ⟨-, -, -, -, -, -, -, -, same⟩ |
      ⟨p, failed, now, -, -, -, -, back⟩ | ⟨-, -, -, -, same, -⟩
    · rcases Lease.step_stage leased with ⟨-, -, -, same, -⟩ | ⟨-, -, ctx, seed, p, -, -, taken, -⟩ | ⟨last, p, victim, -, noted, -⟩ |
        ⟨same, -⟩
      · exact Or.inl (by rw [pool, same]; rfl)
      · obtain ⟨-, -, -, eq⟩ := Pool.takeChosen_spec taken
        exact Or.inl (by rw [pool, eq]; rfl)
      · refine Or.inr ⟨task, scheme, key, p.addr, victim, at_n, get, ?_⟩
        rw [pool, noted, Pool.noteChosen, show s.shared.pool.config.strategy = .sticky from sticky]
        rfl
      · exact Or.inl same
    · exact Or.inl (by rw [pool, same]; rfl)
    · obtain ⟨_, _, frame⟩ := Shared.putBack_frame s.shared p failed now
      exact Or.inl (by rw [pool, back, frame]; rfl)
    · exact Or.inl same

theorem sessions_step (sticky : s.pool.config.strategy = .sticky) (h : step s i = some t) :
    t.pool.sessions = s.pool.sessions ∨
    ∃ key addr victim, t.pool.sessions = (s.pool.recordSession key addr victim).sessions := by
  by_cases inside : ∃ n j, i = .task n j
  · obtain ⟨n, j, rfl⟩ := inside
    exact (sessions_task sticky h).imp_right fun ⟨_, _, key, addr, victim, _, _, eq⟩ => ⟨key, addr, victim, eq⟩
  · exact Or.inl (step_outside (fun n j eq => inside ⟨n, j, eq⟩) h).1

/-- The context of a selection is read from the pool's settings. -/
theorem chosen_task {task task' : Task} {sh : Shared} {j : Task.Input} {waker : Nat} {last : Bool} {ctx : SelectCtx}
    (inv : s.Sticks) (mem : task ∈ s.tasks) (h : task.step s.shared j = some (sh, task'))
    (choosing : task'.lease.phase = .choosing waker last ctx) : ctx.strategy = .sticky := by
  have staged : task'.lease.phase.stage ≠ none := by simp [choosing, Lease.Phase.stage]
  rcases Task.step_cases h with ⟨scheme, key, l, -, -, -, leased⟩ | ⟨-, -, -, -, -, -, -, fresh, -⟩ | ⟨-, -, -, -, -, -, same, -⟩ |
    ⟨-, -, -, same, -⟩
  · rcases Lease.step_stage leased with ⟨_, _, now, -, -, reads⟩ | ⟨_, _, _, _, _, -, -, -, noted⟩ | ⟨-, -, -, -, -, after⟩ |
      ⟨-, -, after⟩
    · rw [choosing] at reads
      cases reads
      exact inv.sticky
    · rw [choosing] at noted
      cases noted
    · exact absurd after staged
    · exact absurd after staged
  · rw [fresh] at choosing
    cases choosing
  · exact inv.chosen task mem waker last ctx (same ▸ choosing)
  · exact inv.chosen task mem waker last ctx (same ▸ choosing)

theorem sticks_step (inv : s.Sticks) (h : step s i = some t) : t.Sticks := by
  have config := step_config inv.sound h
  refine ⟨step_sound inv.sound h, idle_step inv.idle h, by rw [config]; exact inv.sticky, ?_, ?_, ?_⟩
  · rcases sessions_step inv.sticky h with same | ⟨key, addr, victim, eq⟩
    · rw [same]
      exact inv.keys
    · rw [eq]
      exact Pool.recordSession_keys inv.keys
  · rw [config]
    rcases sessions_step inv.sticky h with same | ⟨key, addr, victim, eq⟩
    · rw [same]
      exact inv.bounded
    · rw [eq]
      exact Pool.recordSession_length inv.bounded
  · intro task' mem waker last ctx choosing
    rcases mem_tasks_step h mem with old | ⟨client, -, rfl⟩ | ⟨task, there, j, moved⟩
    · exact inv.chosen task' old waker last ctx choosing
    · cases choosing
    · exact chosen_task inv there moved choosing

/-! ## Runs -/

/-- Selections under one key do not overlap. -/
def Apart (s : Sys) (_ : Input) : Prop := Pins.Apart s.pins

theorem tracks_run (initial : s.Initial) (sticky : s.pool.config.strategy = .sticky) (apart : Along step Apart s is)
    (h : run step s is = some t) : t.Sticks ∧ Pins.Tracks (s.leases is) t.pins := by
  obtain ⟨js, noted⟩ := run_noting h (fun js _ i t => js ++ (leasedBy i t).toList) []
  have log : s.leases is = js := by
    rw [leases, noted]
    rfl
  have first : s.Sticks ∧ Pins.Tracks [] s.pins := by
    refine ⟨sticks_initial initial sticky, ?_⟩
    rcases initial with ⟨auth, proxies, config, rfl⟩ | ⟨auth, config, rfl⟩
    · exact ⟨nofun, nofun, nofun⟩
    · exact ⟨nofun, nofun, nofun⟩
  rw [log]
  refine run_preserves_along (P := fun w : Sys × List (ClientKey × Addr) => w.1.Sticks ∧ Pins.Tracks w.2 w.1.pins) ?_ first
    apart.noting noted
  rintro w i x ⟨inv, tracks⟩ ok next
  obtain ⟨moved, eq⟩ := noting_eq next
  refine ⟨sticks_step inv moved, ?_⟩
  rw [eq]
  exact tracks.step ok (pins_step inv moved)

/-- A `get` under a key whose pin is in the tier it selects from takes an entry at that address. The pin is
the one in the map, or the one the call has read. -/
def Follows (s : Sys) : Prop :=
  ∀ n seed t task scheme key waker last ctx addr, s.tasks[n]? = some task → task.client.demand = .get scheme key →
    task.lease.phase = .choosing waker last ctx → s.pool.sessions.lookup key = some addr ∨ ctx.sticky = some addr →
    (∃ j ∈ tier s.pool.state ctx, ∃ e, s.pool.state[j]? = some e ∧ e.proxy.addr = addr) →
    step s (.task n (.lease (.choose seed))) = some t →
    ∃ task' e, t.tasks[n]? = some task' ∧ task'.lease.phase = .noting last e.proxy ∧ e ∈ s.pool.state ∧ e.proxy.addr = addr

/-- A `get` under a key that has a pin, or for which the map has room, changes no other key's pin. -/
def Confined (s : Sys) : Prop :=
  ∀ n j t task scheme key, s.tasks[n]? = some task → task.client.demand = .get scheme key → s.pool.Roomy key →
    step s (.task n j) = some t → ∀ k, k ≠ key → t.pool.sessions.lookup k = s.pool.sessions.lookup k

theorem confined (sticky : s.pool.config.strategy = .sticky) : s.Confined := by
  intro n j t task scheme key at_n get roomy h k other
  rcases sessions_task sticky h with same | ⟨task', scheme', key', addr, victim, at_n', get', eq⟩
  · rw [same]
  · obtain rfl : task = task' := Option.some.inj (at_n.symm.trans at_n')
    rw [get] at get'
    cases get'
    rw [eq, Pool.recordSession_kept roomy other]

theorem follows {js : List (ClientKey × Addr)} (inv : s.Sticks) (tracks : Pins.Tracks js s.pins) : s.Follows := by
  intro n seed t task scheme key waker last ctx addr at_n get choosing pinned present h
  have pin : ctx.sticky = some addr := by
    rcases pinned with written | read
    · refine tracks.read n key ctx.sticky addr ?_ written
      show s.tasks[n]?.bind Task.selection = _
      rw [at_n, Option.bind_some, Task.selection_of_get get, choosing]
      rfl
    · exact read
  have sticky := inv.chosen task (List.mem_of_getElem? at_n) waker last ctx choosing
  obtain ⟨j, inTier, e, at_j, here⟩ := present
  have candidate : ∃ j ∈ tier s.pool.state ctx, AtPin s.pool.state ctx j := ⟨j, inTier, e, addr, at_j, pin, here⟩
  cases chosen : bestFor s.pool.state ctx seed with
  | none =>
    obtain ⟨e, at_j, serves⟩ := mem_tier inTier
    rw [bestFor_eq_none.1 chosen e (List.mem_of_getElem? at_j)] at serves
    cases serves
  | some i =>
    obtain ⟨f, addr', at_i, pin', there⟩ := (bestFor_sticky sticky chosen).1 candidate
    have taken : s.shared.pool.takeChosen ctx seed = some (f.proxy, { s.pool with state := swapRemove s.pool.state i }) := by
      unfold Pool.takeChosen
      rw [show bestFor s.shared.pool.state ctx seed = some i from chosen]
      dsimp only
      rw [show s.shared.pool.state[i]? = some f from at_i]
      rfl
    have inside := (List.getElem?_eq_some_iff.1 at_n).1
    simp only [step, at_n, Task.step, get, Lease.step, choosing, taken, Option.map_some, Option.some.injEq] at h
    subst h
    refine ⟨_, f, List.getElem?_set_self inside, rfl, List.mem_of_getElem? at_i, ?_⟩
    rw [there]
    exact Option.some.inj (pin'.symm.trans pin)

/-- **Sticky sessions.** In every run whose selections under one key do not overlap, and in every state of it:
the map holds at most `max_sessions` pins, or one; a pin is the address leased last under its key; a `get` whose
pin is in the tier follows it; and a `get` with room for its key leaves the other pins alone. -/
theorem sticky_sessions (initial : s.Initial) (sticky : s.pool.config.strategy = .sticky) (apart : Along step Apart s is)
    (h : run step s is = some t) :
    t.pool.sessions.length ≤ max t.pool.config.maxSessions 1 ∧
    (∀ k a, t.pool.sessions.lookup k = some a → Pins.Latest (s.leases is) t.pins k a) ∧
    t.Follows ∧ t.Confined := by
  obtain ⟨inv, tracks⟩ := tracks_run initial sticky apart h
  exact ⟨inv.bounded, fun k a pinned => tracks.latest pinned, follows inv tracks, confined inv.sticky⟩

/-- One task does not overlap with itself. -/
theorem apart_alone (one : s.tasks.length ≤ 1) (only : ∀ i ∈ is, ∃ n j, i = .task n j) : Along step Apart s is := by
  induction is generalizing s with
  | nil => trivial
  | cons i is ih =>
    refine ⟨?_, ?_⟩
    · intro n m k x y at_n at_m
      obtain ⟨_, there, -⟩ := Option.bind_eq_some_iff.1 at_n
      obtain ⟨_, there', -⟩ := Option.bind_eq_some_iff.1 at_m
      have inside := (List.getElem?_eq_some_iff.1 there).1
      have inside' := (List.getElem?_eq_some_iff.1 there').1
      omega
    · intro t next
      refine ih ?_ fun j mem => only j (List.mem_cons_of_mem i mem)
      obtain ⟨n, j, rfl⟩ := only i List.mem_cons_self
      rcases step_tasks next with ⟨away, -⟩ | ⟨away, -⟩ | ⟨_, _, _, _, -, -, -, set⟩
      · exact absurd rfl (away n j)
      · exact absurd rfl (away n j)
      · rw [set, List.length_set]
        exact one

/-- A connector call that leases a proxy, fails on it, and reads its pin when the bench is over. -/
def returning : List Input :=
  [.task 0 (.io (.connect .call)), .task 0 (.io (.connect (.resolved none))), .task 0 (.lease .notified),
    .task 0 (.lease (.read 0)), .task 0 (.lease (.choose 0)), .task 0 (.lease (.note 0)), .task 0 (.op 0),
    .task 0 (.io (.connect .connectFailed)), .task 0 (.op 0), .task 0 (.op 0), .task 0 (.lease .notified),
    .task 0 (.lease (.read 40000))]

/-- Sticky sessions over two proxies. -/
def sticking : Sys := fromProxies none [httpProxy 80, httpProxy 81] { PoolConfig.default with strategy := .sticky }

/-- The next selection follows the pin to the proxy that failed, which is no longer the best one. -/
theorem sticky_sessions_returning :
    ∃ t u task p, run step sticking (.connect ⟨none, some ['h'], none⟩ 2 :: returning) = some t ∧
      t.pool.sessions.length ≤ 10000 ∧
      Pins.Latest (sticking.leases (.connect ⟨none, some ['h'], none⟩ 2 :: returning)) t.pins Connector.key (.v4 0x01010101, 80) ∧
      step t (.task 0 (.lease (.choose 0))) = some u ∧ u.tasks[0]? = some task ∧ task.lease.phase = .noting false p ∧
      p.addr = (.v4 0x01010101, 80) := by
  have ran : ∃ t u task ctx waker, run step sticking (.connect ⟨none, some ['h'], none⟩ 2 :: returning) = some t ∧
      t.pool.config.maxSessions = 10000 ∧ t.pool.sessions.lookup Connector.key = some (.v4 0x01010101, 80) ∧
      t.tasks[0]? = some task ∧ task.client.demand = .get .http Connector.key ∧
      task.lease.phase = .choosing waker false ctx ∧
      (∃ j ∈ tier t.pool.state ctx, ∃ e, t.pool.state[j]? = some e ∧ e.proxy.addr = (.v4 0x01010101, 80)) ∧
      step t (.task 0 (.lease (.choose 0))) = some u := by
    refine ⟨_, _, _, _, _, rfl, rfl, rfl, rfl, rfl, rfl, ⟨1, ?_, _, rfl, rfl⟩, rfl⟩
    decide +kernel
  obtain ⟨t, u, task, ctx, waker, ran, limit, pinned, at_zero, get, choosing, present, next⟩ := ran
  have apart : Along step Apart sticking (.connect ⟨none, some ['h'], none⟩ 2 :: returning) := by
    refine ⟨nofun, ?_⟩
    rintro s ⟨⟩
    exact apart_alone (le_refl 1) (by simp [returning])
  obtain ⟨bounded, latest, follows, -⟩ := sticky_sessions (Or.inl ⟨_, _, _, rfl⟩) rfl apart ran
  obtain ⟨task', e, at_zero', noted, -, there⟩ :=
    follows 0 0 u task .http Connector.key waker false ctx _ at_zero get choosing (Or.inl pinned) present next
  rw [limit] at bounded
  exact ⟨t, u, task', e.proxy, ran, bounded, latest _ _ pinned, next, at_zero', noted, there⟩

end Sys

end ProxyBroker
