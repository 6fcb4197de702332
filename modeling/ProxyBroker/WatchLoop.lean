import ProxyBroker.Ndjson
import ProxyBroker.Watch

/-!
# The watched file (`watch.rs:spawn_watch`)

The task of `spawn_watch` sleeps, drains the events of `notify`, restarts the debounce window when one of them names the
file, and reloads once the window has passed. `World` is that task next to the file, the events on their way, and the
running system; the calls of `reconcile` interleave with whatever else is done to the pool. A change of the file is
reported in an event that names it, after any delay.

A pass of the loop can follow the shutdown only when the task was already asleep: a `select!` that is reached with the token
fired breaks, because its sleep has just begun.

`watch_follows` says that no change is lost, that a file that does not parse changes nothing, and that the pool is the
file's once nothing is owed to it.
-/

namespace ProxyBroker
open Lib Server

namespace Watch

/-- `DEBOUNCE`, in nanoseconds. -/
def debounce : Nat := 250 * 10 ^ 6

/-- `notify::Result<notify::Event>`, with the file names of its paths. -/
inductive Event where
  | error
  | event (names : List (Option Text))
deriving DecidableEq, Repr

/-- An event that touches the file. -/
def Event.about (target : Option Text) : Event → Bool
  | .error => false
  | .event names => names.any (· = target)

/-- Where the task is: at its `select!`, in `reconcile` before and after the addresses are read, or at its end. -/
inductive Phase where
  | waiting
  | parsed (desired : List Proxy)
  | calling (calls : List Sys.Input)
  | stopped

/-- The task, the file, and the rest of the system. Of the events, some are reported and not yet in the channel. `leaving` says
that the token had fired when the task came to its `select!`. -/
structure World where
  sys : Sys
  file : Option Bytes
  unseen : List Event
  queue : List Event
  clock : Nat
  cancelled : Bool
  leaving : Bool
  pending : Option Nat
  phase : Phase

/-- What happens next. A change is reported in an event with these names; `tick` has the two readings of the clock; `survey` has the
addresses that `reconcile` reads, as the set orders them; `other` is a step of the rest of the system. -/
inductive Label where
  | change (contents : Option Bytes) (names : List (Option Text))
  | report (e : Event)
  | deliver
  | cancel
  | exit
  | tick (now later : Nat)
  | survey (current : List Addr)
  | call
  | other (i : Sys.Input)

/-- `reload`. -/
def reload (serde : SerdeJson) (file : Option Bytes) : Option (List Proxy) := file.bind (readNdjson serde)

namespace World

/-- The task when it is spawned. -/
def spawned (sys : Sys) (file : Option Bytes) (clock : Nat) : World := ⟨sys, file, [], [], clock, false, false, none, .waiting⟩

/-- The window after the events of a tick were drained. -/
def window (target : Option Text) (w : World) (now : Nat) : Option Nat :=
  if w.queue.any (Event.about target) then some now else w.pending

/-- The window has passed. -/
def due (target : Option Text) (w : World) (now later : Nat) : Bool := (w.window target now).any fun since => debounce ≤ later - since

/-- The phase with these calls to make. -/
def resume : List Sys.Input → Phase
  | [] => .waiting
  | calls => .calling calls

theorem resume_ne_stopped (calls : List Sys.Input) : resume calls ≠ .stopped := by
  cases calls <;> simp [resume]

/-- A pass of the loop, from the end of the sleep. -/
def pass (serde : SerdeJson) (target : Option Text) (w : World) (now later : Nat) : World :=
  let drained := { w with queue := [], clock := later, leaving := w.cancelled, pending := w.window target now }
  if w.due target now later then
    match reload serde w.file with
    | some desired => { drained with pending := none, phase := .parsed desired }
    | none => { drained with pending := none }
  else drained

def step (serde : SerdeJson) (target : Option Text) (w : World) : Label → Option World
  | .change contents names =>
    if target ∈ names then some { w with file := contents, unseen := w.unseen ++ [.event names] } else none
  | .report e => some { w with unseen := w.unseen ++ [e] }
  | .deliver =>
    match w.unseen with
    | [] => none
    | e :: unseen => some { w with unseen, queue := w.queue ++ [e] }
  | .cancel => some { w with cancelled := true }
  | .exit =>
    match w.phase with
    | .waiting => if w.cancelled then some { w with phase := .stopped } else none
    | _ => none
  | .tick now later =>
    match w.phase with
    | .waiting => if w.leaving = false ∧ w.clock ≤ now ∧ now ≤ later then some (w.pass serde target now later) else none
    | _ => none
  | .survey current =>
    match w.phase with
    | .parsed desired =>
      if (∀ a ∈ current, a ∈ w.sys.pool.addrs) ∧ ∀ a ∈ w.sys.pool.addrs, a ∈ current then
        some { w with leaving := w.cancelled, phase := resume (reconcile current desired) }
      else none
    | _ => none
  | .call =>
    match w.phase with
    | .calling (c :: calls) => (w.sys.step c).map fun sys => { w with sys, leaving := w.cancelled, phase := resume calls }
    | _ => none
  | .other i => (w.sys.step i).map fun sys => { w with sys }

variable {serde : SerdeJson} {target : Option Text} {w w' : World} {l : Label} {is : List Label}

/-- What a step does. -/
inductive Move (serde : SerdeJson) (target : Option Text) (w : World) : Label → World → Prop
  | change {contents : Option Bytes} {names : List (Option Text)} (named : target ∈ names) :
      Move serde target w (.change contents names) { w with file := contents, unseen := w.unseen ++ [.event names] }
  | report {e : Event} : Move serde target w (.report e) { w with unseen := w.unseen ++ [e] }
  | deliver {e : Event} {unseen : List Event} (first : w.unseen = e :: unseen) :
      Move serde target w .deliver { w with unseen, queue := w.queue ++ [e] }
  | cancel : Move serde target w .cancel { w with cancelled := true }
  | exit (at_select : w.phase = .waiting) (fired : w.cancelled = true) : Move serde target w .exit { w with phase := .stopped }
  | idle {now later : Nat} (at_select : w.phase = .waiting) (clock : w.clock ≤ now ∧ now ≤ later) (early : w.due target now later = false) :
      Move serde target w (.tick now later)
        { w with queue := [], clock := later, leaving := w.cancelled, pending := w.window target now }
  | reloaded {now later : Nat} {desired : List Proxy} (at_select : w.phase = .waiting) (clock : w.clock ≤ now ∧ now ≤ later)
      (due : w.due target now later = true) (read : reload serde w.file = some desired) :
      Move serde target w (.tick now later)
        { w with queue := [], clock := later, leaving := w.cancelled, pending := none, phase := .parsed desired }
  | unparsed {now later : Nat} (at_select : w.phase = .waiting) (clock : w.clock ≤ now ∧ now ≤ later) (due : w.due target now later = true)
      (unread : reload serde w.file = none) :
      Move serde target w (.tick now later) { w with queue := [], clock := later, leaving := w.cancelled, pending := none }
  | survey {current : List Addr} {desired : List Proxy} (parsed : w.phase = .parsed desired) (read : ∀ a, a ∈ current ↔ a ∈ w.sys.pool.addrs) :
      Move serde target w (.survey current) { w with leaving := w.cancelled, phase := resume (reconcile current desired) }
  | call {c : Sys.Input} {calls : List Sys.Input} {sys : Sys} (calling : w.phase = .calling (c :: calls)) (made : w.sys.step c = some sys) :
      Move serde target w .call { w with sys, leaving := w.cancelled, phase := resume calls }
  | other {i : Sys.Input} {sys : Sys} (made : w.sys.step i = some sys) : Move serde target w (.other i) { w with sys }

theorem step_move (h : step serde target w l = some w') : Move serde target w l w' := by
  cases l with
  | change contents names =>
    obtain ⟨named, eq⟩ := Option.ite_none_right_eq_some.1 h
    cases eq
    exact .change named
  | report e =>
    cases h
    exact .report
  | deliver =>
    simp only [step] at h
    split at h
    · cases h
    · rename_i first
      cases h
      exact .deliver first
  | cancel =>
    cases h
    exact .cancel
  | exit =>
    simp only [step] at h
    split at h
    · rename_i at_select
      obtain ⟨fired, eq⟩ := Option.ite_none_right_eq_some.1 h
      cases eq
      exact .exit at_select fired
    · cases h
  | tick now later =>
    simp only [step] at h
    split at h
    · rename_i at_select
      obtain ⟨⟨-, clock⟩, eq⟩ := Option.ite_none_right_eq_some.1 h
      rw [Option.some.injEq, pass] at eq
      subst eq
      cases due : w.due target now later with
      | false => exact .idle at_select clock due
      | true =>
        dsimp only
        cases read : reload serde w.file with
        | none => exact .unparsed at_select clock due read
        | some desired => exact .reloaded at_select clock due read
    · cases h
  | survey current =>
    simp only [step] at h
    split at h
    · rename_i desired parsed
      obtain ⟨⟨left, right⟩, eq⟩ := Option.ite_none_right_eq_some.1 h
      cases eq
      exact .survey parsed fun a => ⟨left a, right a⟩
    · cases h
  | call =>
    simp only [step] at h
    split at h
    · rename_i c calls calling
      obtain ⟨sys, made, eq⟩ := Option.map_eq_some_iff.1 h
      cases eq
      exact .call calling made
    · cases h
  | other i =>
    obtain ⟨sys, made, eq⟩ := Option.map_eq_some_iff.1 h
    cases eq
    exact .other made

/-! ## No change is lost -/

/-- A change that the task has yet to act on. -/
def Owed (target : Option Text) (w : World) : Prop := (∃ e ∈ w.unseen ++ w.queue, e.about target = true) ∨ w.pending.isSome = true

/-- A label that changes the file. -/
def Changes : Label → Prop
  | .change _ _ => True
  | _ => False

/-- The file was reloaded in the run, and did not change since. -/
def Reloaded (serde : SerdeJson) (target : Option Text) (start : World) (is : List Label) : Prop :=
  ∃ before now later after m, is = before ++ .tick now later :: after ∧ run (step serde target) start before = some m ∧
    m.due target now later = true ∧ ∀ l ∈ after, ¬ Changes l

theorem Reloaded.more {start : World} (reloaded : Reloaded serde target start is) (same : ¬ Changes l) : Reloaded serde target start (is ++ [l]) := by
  obtain ⟨before, now, later, after, m, rfl, reached, due, still⟩ := reloaded
  refine ⟨before, now, later, after ++ [l], m, by simp, reached, due, ?_⟩
  intro j mem
  rcases List.mem_append.1 mem with mem | mem
  · exact still j mem
  · rwa [List.mem_singleton.1 mem]

/-- **Each change is acted on.** -/
theorem no_change_lost {start : World} (ran : run (step serde target) start is = some w) :
    (∀ l ∈ is, ¬ Changes l) ∨ Owed target w ∨ Reloaded serde target start is := by
  apply run_reached (P := fun is w => (∀ l ∈ is, ¬ Changes l) ∨ Owed target w ∨ Reloaded serde target start is) _ _ ran
  · intro is u l v reached before next
    -- a step that leaves the file keeps what is said of the run, so only what is owed is at stake
    have keep (same : ¬ Changes l) (owed : Owed target u → Owed target v ∨ Reloaded serde target start (is ++ [l])) :
        (∀ j ∈ is ++ [l], ¬ Changes j) ∨ Owed target v ∨ Reloaded serde target start (is ++ [l]) := by
      rcases before with unchanged | there | reloaded
      · left
        intro j mem
        rcases List.mem_append.1 mem with mem | mem
        · exact unchanged j mem
        · rwa [List.mem_singleton.1 mem]
      · exact .inr (owed there)
      · exact .inr (.inr (reloaded.more same))
    have reload_now {now later : Nat} (due : u.due target now later = true) :
        Reloaded serde target start (is ++ [.tick now later]) := ⟨is, now, later, [], u, rfl, reached, due, by simp⟩
    cases step_move next with
    | change named =>
      right
      left
      left
      refine ⟨_, List.mem_append_left _ (List.mem_append_right _ (List.mem_singleton.2 rfl)), ?_⟩
      exact List.any_eq_true.2 ⟨target, named, decide_eq_true rfl⟩
    | report =>
      apply keep id
      rintro (⟨e, mem, about⟩ | window)
      · left
        left
        refine ⟨e, ?_, about⟩
        rcases List.mem_append.1 mem with mem | mem
        · exact List.mem_append_left _ (List.mem_append_left _ mem)
        · exact List.mem_append_right _ mem
      · exact .inl (.inr window)
    | deliver first =>
      apply keep id
      rintro (⟨e, mem, about⟩ | window)
      · left
        left
        refine ⟨e, ?_, about⟩
        rw [first] at mem
        simp only [List.cons_append, List.mem_cons, List.mem_append, List.not_mem_nil, or_false] at mem ⊢
        tauto
      · exact .inl (.inr window)
    | idle at_select clock early =>
      apply keep id
      rintro (⟨e, mem, about⟩ | window)
      · rcases List.mem_append.1 mem with unseen | queued
        · exact .inl (.inl ⟨e, by simpa using unseen, about⟩)
        · left
          right
          have touched : u.queue.any (Event.about target) = true := List.any_eq_true.2 ⟨e, queued, about⟩
          show (u.window target _).isSome = true
          rw [window, if_pos touched]
          rfl
      · left
        right
        show (u.window target _).isSome = true
        unfold World.window
        split
        · rfl
        · exact window
    | reloaded at_select clock due read => exact .inr (.inr (reload_now due))
    | unparsed at_select clock due unread => exact .inr (.inr (reload_now due))
    | cancel => exact keep id .inl
    | exit => exact keep id .inl
    | survey => exact keep id .inl
    | call => exact keep id .inl
    | other => exact keep id .inl
  · exact .inl (by simp)

/-! ## Every call is the file's -/

/-- A call that a file with these proxies asks for. -/
def Asked (desired : List Proxy) (c : Sys.Input) : Prop :=
  (∃ a, a ∉ desired.map Proxy.addr ∧ c = .remove a) ∨ ∃ p ∈ desired, c = .add p

/-- The file had these proxies when it was reloaded in the run. -/
def Read (serde : SerdeJson) (target : Option Text) (start : World) (is : List Label) (desired : List Proxy) : Prop :=
  ∃ before now later after m, is = before ++ .tick now later :: after ∧ run (step serde target) start before = some m ∧
    m.due target now later = true ∧ reload serde m.file = some desired

theorem Read.more {start : World} {desired : List Proxy} (read : Read serde target start is desired) (l : Label) :
    Read serde target start (is ++ [l]) desired := by
  obtain ⟨before, now, later, after, m, rfl, rest⟩ := read
  exact ⟨before, now, later, after ++ [l], m, by simp, rest⟩

/-- Where the proxies and the calls of the task come from. -/
structure Sourced (serde : SerdeJson) (target : Option Text) (start : World) (is : List Label) (w : World) : Prop where
  parsed : ∀ desired, w.phase = .parsed desired → Read serde target start is desired
  calling : ∀ calls, w.phase = .calling calls → calls ≠ [] ∧ ∃ desired, Read serde target start is desired ∧ ∀ c ∈ calls, Asked desired c

theorem Sourced.keep {start : World} (sourced : Sourced serde target start is w) (same : w'.phase = w.phase) (l : Label) :
    Sourced serde target start (is ++ [l]) w' where
  parsed desired at_phase := (sourced.parsed desired (same ▸ at_phase)).more l
  calling calls at_phase := by
    obtain ⟨some, desired, read, asked⟩ := sourced.calling calls (same ▸ at_phase)
    exact ⟨some, desired, read.more l, asked⟩

theorem sourced_waiting {start : World} (waiting : w.phase = .waiting ∨ w.phase = .stopped) : Sourced serde target start is w where
  parsed desired at_phase := by
    rcases waiting with here | here <;> (rw [here] at at_phase; cases at_phase)
  calling calls at_phase := by
    rcases waiting with here | here <;> (rw [here] at at_phase; cases at_phase)

/-- The calls that are left. -/
theorem sourced_resume {start : World} {calls : List Sys.Input} {desired : List Proxy} (at_phase : w.phase = resume calls)
    (read : Read serde target start is desired) (asked : ∀ c ∈ calls, Asked desired c) : Sourced serde target start is w := by
  cases calls with
  | nil => exact sourced_waiting (.inl at_phase)
  | cons c calls =>
    constructor
    · intro desired here
      rw [at_phase] at here
      cases here
    · intro more here
      rw [at_phase] at here
      cases here
      exact ⟨List.cons_ne_nil c calls, desired, read, asked⟩

theorem asked_reconcile {current : List Addr} {desired : List Proxy} : ∀ c ∈ reconcile current desired, Asked desired c := by
  intro c mem
  rcases mem_reconcile mem with ⟨a, -, unlisted, rfl⟩ | ⟨p, listed, -, rfl⟩
  · exact .inl ⟨a, unlisted, rfl⟩
  · exact .inr ⟨p, listed, rfl⟩

theorem sourced_run {start : World} (waiting : start.phase = .waiting) (ran : run (step serde target) start is = some w) :
    Sourced serde target start is w := by
  apply run_reached (P := Sourced serde target start) _ (sourced_waiting (.inl waiting)) ran
  intro is u l v reached sourced next
  cases step_move next with
  | change => exact sourced.keep (by rfl) _
  | report => exact sourced.keep (by rfl) _
  | deliver => exact sourced.keep (by rfl) _
  | cancel => exact sourced.keep (by rfl) _
  | exit => exact sourced_waiting (.inr rfl)
  | idle => exact sourced.keep (by rfl) _
  | other => exact sourced.keep (by rfl) _
  | unparsed => exact sourced.keep (by rfl) _
  | reloaded at_select clock due read =>
    constructor
    · intro desired here
      cases here
      exact ⟨is, _, _, [], u, rfl, reached, due, read⟩
    · intro calls here
      cases here
  | survey parsed read => exact sourced_resume rfl ((sourced.parsed _ parsed).more _) asked_reconcile
  | call calling made =>
    obtain ⟨-, desired, read, asked⟩ := sourced.calling _ calling
    exact sourced_resume rfl (read.more _) fun c mem => asked c (List.mem_cons_of_mem _ mem)

/-! ## The pool is the file's -/

/-- The pool has exactly the addresses of these proxies. -/
def Exact (sys : Sys) (desired : List Proxy) : Prop := ∀ a, a ∈ sys.pool.addrs ↔ a ∈ desired.map Proxy.addr

/-- A step of somebody else. -/
def Foreign : Label → Prop
  | .other _ => True
  | _ => False

/-- What the task has done about the file since a reload, with nobody else around. -/
inductive Following (serde : SerdeJson) (contents : Option Bytes) (old : Sys) (w : World) : Prop
  | unparsed (same : w.file = contents) (unread : reload serde contents = none) (at_select : w.phase = .waiting ∨ w.phase = .stopped)
      (untouched : w.sys = old)
  | parsed {desired : List Proxy} (same : w.file = contents) (read : reload serde contents = some desired) (here : w.phase = .parsed desired)
  | calling {desired : List Proxy} {calls : List Sys.Input} {sys : Sys} (same : w.file = contents)
      (read : reload serde contents = some desired) (here : w.phase = .calling calls) (rest : run Sys.step w.sys calls = some sys)
      (exact : Exact sys desired)
  | done {desired : List Proxy} (same : w.file = contents) (read : reload serde contents = some desired)
      (at_select : w.phase = .waiting ∨ w.phase = .stopped) (exact : Exact w.sys desired)

variable {contents : Option Bytes} {old : Sys}

theorem Following.keep (following : Following serde contents old w) (file : w'.file = w.file) (sys : w'.sys = w.sys)
    (phase : w'.phase = w.phase) : Following serde contents old w' := by
  cases following with
  | unparsed same unread at_select untouched => exact .unparsed (file.trans same) unread (phase ▸ at_select) (sys.trans untouched)
  | parsed same read here => exact .parsed (file.trans same) read (phase.trans here)
  | calling same read here rest exact => exact .calling (file.trans same) read (phase.trans here) (sys ▸ rest) exact
  | done same read at_select exact => exact .done (file.trans same) read (phase ▸ at_select) (sys ▸ exact)

theorem following_resume {desired : List Proxy} {calls : List Sys.Input} {sys : Sys} (same : w.file = contents)
    (read : reload serde contents = some desired) (here : w.phase = resume calls) (rest : run Sys.step w.sys calls = some sys)
    (exact : Exact sys desired) : Following serde contents old w := by
  cases calls with
  | nil =>
    cases rest
    exact .done same read (.inl here) exact
  | cons c calls => exact .calling same read here rest exact

theorem Following.step (following : Following serde contents old w) (next : World.step serde target w l = some w') (still : ¬ Changes l)
    (alone : ¬ Foreign l) : Following serde contents old w' := by
  cases step_move next with
  | change => exact absurd trivial still
  | other => exact absurd trivial alone
  | report => exact following.keep (by rfl) (by rfl) (by rfl)
  | deliver => exact following.keep (by rfl) (by rfl) (by rfl)
  | cancel => exact following.keep (by rfl) (by rfl) (by rfl)
  | idle => exact following.keep (by rfl) (by rfl) (by rfl)
  | unparsed => exact following.keep (by rfl) (by rfl) (by rfl)
  | exit at_select =>
    cases following with
    | unparsed same unread _ untouched => exact .unparsed same unread (.inr rfl) untouched
    | done same read _ exact => exact .done same read (.inr rfl) exact
    | parsed same read here =>
      rw [here] at at_select
      cases at_select
    | calling same read here rest exact =>
      rw [here] at at_select
      cases at_select
  | reloaded at_select clock due read =>
    have same : w.file = contents := by
      cases following <;> assumption
    exact .parsed same (same ▸ read) rfl
  | survey parsed surveyed =>
    cases following with
    | parsed same read here =>
      rw [here] at parsed
      cases parsed
      obtain ⟨sys, news, ran, reconciled⟩ := reconcile_run w.sys _ surveyed
      exact following_resume same read rfl ran reconciled.mem_addrs
    | unparsed same unread at_select untouched =>
      rcases at_select with here | here <;> (rw [here] at parsed; cases parsed)
    | calling same read here rest exact =>
      rw [here] at parsed
      cases parsed
    | done same read at_select exact =>
      rcases at_select with here | here <;> (rw [here] at parsed; cases parsed)
  | call calling made =>
    cases following with
    | calling same read here rest exact =>
      rw [here] at calling
      cases calling
      obtain ⟨sys, first, rest⟩ := run_cons_iff.1 rest
      rw [made] at first
      cases first
      exact following_resume same read rfl rest exact
    | unparsed same unread at_select untouched =>
      rcases at_select with here | here <;> (rw [here] at calling; cases calling)
    | parsed same read here =>
      rw [here] at calling
      cases calling
    | done same read at_select exact =>
      rcases at_select with here | here <;> (rw [here] at calling; cases calling)

theorem Following.run (following : Following serde contents old w) (ran : Lib.run (World.step serde target) w is = some w')
    (still : ∀ l ∈ is, ¬ Changes l) (alone : ∀ l ∈ is, ¬ Foreign l) : Following serde contents old w' := by
  induction is generalizing w with
  | nil =>
    cases ran
    exact following
  | cons l is ih =>
    obtain ⟨u, first, rest⟩ := run_cons_iff.1 ran
    have here := following.step first (still l List.mem_cons_self) (alone l List.mem_cons_self)
    exact ih here rest (fun j mem => still j (List.mem_cons_of_mem l mem)) fun j mem => alone j (List.mem_cons_of_mem l mem)

/-! ## Bursts -/

/-- The clock, and the window, have not gone back before this time. -/
def Since (time : Nat) (w : World) : Prop := time ≤ w.clock ∧ ∀ since ∈ w.pending, time ≤ since

theorem Since.window {time now : Nat} (past : Since time w) (clock : w.clock ≤ now) : ∀ since ∈ w.window target now, time ≤ since := by
  intro since mem
  unfold World.window at mem
  split at mem
  · obtain rfl := Option.some.inj mem
    exact past.1.trans clock
  · exact past.2 since mem

theorem Since.step {time : Nat} (past : Since time w) (next : World.step serde target w l = some w') : Since time w' := by
  cases step_move next with
  | idle at_select clock early => exact ⟨past.1.trans (clock.1.trans clock.2), past.window clock.1⟩
  | reloaded at_select clock due read => exact ⟨past.1.trans (clock.1.trans clock.2), by simp⟩
  | unparsed at_select clock due unread => exact ⟨past.1.trans (clock.1.trans clock.2), by simp⟩
  | change => exact past
  | report => exact past
  | deliver => exact past
  | cancel => exact past
  | exit => exact past
  | survey => exact past
  | call => exact past
  | other => exact past

/-- The second reading of the clock in a pass that reloads. -/
theorem since_reload {now later : Nat} (due : w.due target now later = true) (next : World.step serde target w (.tick now later) = some w') :
    Since later w' := by
  cases step_move next with
  | idle at_select clock early =>
    rw [due] at early
    cases early
  | reloaded => exact ⟨Nat.le_refl _, by simp⟩
  | unparsed => exact ⟨Nat.le_refl _, by simp⟩

/-- **Two reloads are apart.** -/
theorem reloads_apart {start m m' : World} {before mid : List Label} {now later now' later' : Nat}
    (first : run (World.step serde target) start before = some m) (due : m.due target now later = true)
    (second : run (World.step serde target) start (before ++ .tick now later :: mid) = some m') (due' : m'.due target now' later' = true)
    (clock : m'.clock ≤ now') : later + debounce ≤ later' := by
  rw [run_append first, run_cons_iff] at second
  obtain ⟨u, next, rest⟩ := second
  have past : Since later m' := run_preserves (fun _ _ _ here step => here.step step) (since_reload due next) rest
  obtain ⟨since, at_window, long⟩ := (Option.any_eq_true _ _).1 due'
  have le := past.window clock since at_window
  have wide := of_decide_eq_true long
  have positive : 0 < debounce := by decide
  omega

/-! ## What is owed is done -/

/-- A step of the task, or of an event into its channel. -/
def Own : Label → Prop
  | .deliver | .tick _ _ | .survey _ | .call | .exit => True
  | _ => False

/-- The task leaves its `select!` for good only when the token has fired. -/
structure Shut (w : World) : Prop where
  stopped : w.phase = .stopped → w.cancelled = true
  leaving : w.leaving = true → w.cancelled = true

theorem Shut.step (shut : Shut w) (next : World.step serde target w l = some w') : Shut w' := by
  cases step_move next with
  | change => exact ⟨shut.stopped, shut.leaving⟩
  | report => exact ⟨shut.stopped, shut.leaving⟩
  | deliver => exact ⟨shut.stopped, shut.leaving⟩
  | other => exact ⟨shut.stopped, shut.leaving⟩
  | cancel => exact ⟨fun _ => rfl, fun _ => rfl⟩
  | exit at_select fired => exact ⟨fun _ => fired, fun _ => fired⟩
  | idle => exact ⟨shut.stopped, id⟩
  | unparsed => exact ⟨shut.stopped, id⟩
  | reloaded => exact ⟨by simp, id⟩
  | survey parsed read => exact ⟨fun here => absurd here (resume_ne_stopped _), id⟩
  | call calling made => exact ⟨fun here => absurd here (resume_ne_stopped _), id⟩

theorem step_asked {desired : List Proxy} {c : Sys.Input} (asked : Asked desired c) (sys : Sys) : ∃ sys', sys.step c = some sys' := by
  rcases asked with ⟨a, -, rfl⟩ | ⟨p, -, rfl⟩
  · exact ⟨_, rfl⟩
  · obtain ⟨sys', added, -⟩ := Sys.step_add sys p
    exact ⟨sys', added⟩

/-- The task is back at its `select!`, with the same events and the same window. -/
structure Back (w w' : World) : Prop where
  at_select : w'.phase = .waiting
  events : w'.unseen = w.unseen ∧ w'.queue = w.queue
  window : w'.pending = w.pending
  token : w'.cancelled = w.cancelled

theorem finish_calls {desired : List Proxy} {calls : List Sys.Input} (here : w.phase = resume calls) (asked : ∀ c ∈ calls, Asked desired c) :
    ∃ js w', (∀ j ∈ js, Own j) ∧ run (step serde target) w js = some w' ∧ Back w w' := by
  induction calls generalizing w with
  | nil => exact ⟨[], w, by simp, rfl, here, ⟨rfl, rfl⟩, rfl, rfl⟩
  | cons c calls ih =>
    obtain ⟨sys, made⟩ := step_asked (asked c List.mem_cons_self) w.sys
    have next : step serde target w .call = some { w with sys, leaving := w.cancelled, phase := resume calls } := by
      simp only [step, here, resume, made, Option.map_some]
    obtain ⟨js, w', own, ran, back⟩ := @ih { w with sys, leaving := w.cancelled, phase := resume calls } rfl
      fun d mem => asked d (List.mem_cons_of_mem c mem)
    refine ⟨.call :: js, w', ?_, run_cons_iff.2 ⟨_, next, ran⟩, back.at_select, back.events, back.window, back.token⟩
    exact List.forall_mem_cons.2 ⟨trivial, own⟩

/-- A task that is not stopped gets through with `reconcile`. -/
theorem finish {start : World} (sourced : Sourced serde target start is w) (live : w.phase ≠ .stopped) :
    ∃ js w', (∀ j ∈ js, Own j) ∧ run (step serde target) w js = some w' ∧ Back w w' := by
  cases here : w.phase with
  | waiting => exact ⟨[], w, by simp, rfl, here, ⟨rfl, rfl⟩, rfl, rfl⟩
  | stopped => exact absurd here live
  | calling calls =>
    obtain ⟨some, desired, -, asked⟩ := sourced.calling calls here
    cases calls with
    | nil => exact absurd rfl some
    | cons c calls => exact @finish_calls serde target w desired (c :: calls) here asked
  | parsed desired =>
    have next : step serde target w (.survey w.sys.pool.addrs) =
      some { w with leaving := w.cancelled, phase := resume (reconcile w.sys.pool.addrs desired) } := by
      simp only [step, here]
      exact if_pos ⟨fun _ mem => mem, fun _ mem => mem⟩
    obtain ⟨js, w', own, ran, back⟩ := @finish_calls serde target
      { w with leaving := w.cancelled, phase := resume (reconcile w.sys.pool.addrs desired) } desired _ rfl asked_reconcile
    refine ⟨.survey w.sys.pool.addrs :: js, w', ?_, run_cons_iff.2 ⟨_, next, ran⟩, back.at_select, back.events, back.window, back.token⟩
    exact List.forall_mem_cons.2 ⟨trivial, own⟩

/-- The events reach the channel. -/
theorem deliver_all (w : World) : ∃ js w', (∀ j ∈ js, Own j) ∧ run (step serde target) w js = some w' ∧ w'.unseen = [] ∧
    w'.phase = w.phase ∧ w'.cancelled = w.cancelled := by
  cases unseen : w.unseen with
  | nil => exact ⟨[], w, by simp, rfl, unseen, rfl, rfl⟩
  | cons e rest =>
    have next : step serde target w .deliver = some { w with unseen := rest, queue := w.queue ++ [e] } := by
      simp only [step, unseen]
    obtain ⟨js, w', own, ran, none_left, same⟩ := deliver_all { w with unseen := rest, queue := w.queue ++ [e] }
    exact ⟨.deliver :: js, w', List.forall_mem_cons.2 ⟨trivial, own⟩, run_cons_iff.2 ⟨_, next, ran⟩, none_left, same⟩
termination_by w.unseen.length
decreasing_by
  rw [unseen]
  exact Nat.lt_succ_self _

theorem tick_step (waiting : w.phase = .waiting) (staying : w.leaving = false) {now later : Nat} (clock : w.clock ≤ now ∧ now ≤ later) :
    step serde target w (.tick now later) = some (w.pass serde target now later) := by
  simp only [step, waiting]
  exact if_pos ⟨staying, clock⟩

/-- Nothing is owed when every queue and the window are empty. -/
theorem not_owed (unseen : w.unseen = []) (queue : w.queue = []) (pending : w.pending = none) : ¬ Owed target w := by
  rintro (⟨e, mem, -⟩ | window)
  · rw [unseen, queue] at mem
    cases mem
  · rw [pending] at window
    cases window

/-- With no event on its way, a pass that is due leaves nothing owed. -/
theorem settle_due {start : World} (quiet : start.phase = .waiting) (ran : run (step serde target) start is = some w)
    (waiting : w.phase = .waiting) (staying : w.leaving = false) (unseen : w.unseen = []) {now later : Nat}
    (clock : w.clock ≤ now ∧ now ≤ later) (due : w.due target now later = true) :
    ∃ js w', (∀ j ∈ js, Own j) ∧ run (step serde target) w js = some w' ∧ ¬ Owed target w' ∧ w'.phase = .waiting := by
  have next : step serde target w (.tick now later) = some (w.pass serde target now later) := tick_step waiting staying clock
  have reached : run (step serde target) start (is ++ [.tick now later]) = some (w.pass serde target now later) := by
    rw [run_append ran]
    exact run_cons_iff.2 ⟨_, next, rfl⟩
  have drained : (w.pass serde target now later).phase ≠ .stopped ∧ (w.pass serde target now later).unseen = [] ∧
      (w.pass serde target now later).queue = [] ∧ (w.pass serde target now later).pending = none := by
    rw [pass, if_pos due]
    cases reload serde w.file with
    | none => exact ⟨by simp [waiting], unseen, rfl, rfl⟩
    | some desired => exact ⟨by simp, unseen, rfl, rfl⟩
  obtain ⟨js, w', own, rest, back⟩ := finish (sourced_run quiet reached) drained.1
  refine ⟨.tick now later :: js, w', List.forall_mem_cons.2 ⟨trivial, own⟩, run_cons_iff.2 ⟨_, next, rest⟩, ?_, back.at_select⟩
  exact not_owed (back.events.1.trans drained.2.1) (back.events.2.trans drained.2.2.1) (back.window.trans drained.2.2.2)

/-- **Until the shutdown, whatever is owed can be done.** -/
theorem settles {start : World} (quiet : start.phase = .waiting) (unfired : Shut start) (ran : run (step serde target) start is = some w)
    (going : w.cancelled = false) :
    ∃ js w', (∀ j ∈ js, Own j) ∧ run (step serde target) w js = some w' ∧ ¬ Owed target w' ∧ w'.phase = .waiting := by
  have stays {js : List Label} {v : World} (there : run (step serde target) w js = some v) (same : v.cancelled = w.cancelled) :
      v.leaving = false := by
    have shut : Shut v := run_preserves (fun _ _ _ here next => here.step next) unfired ((run_append ran).trans there)
    by_contra leaves
    have fired := shut.leaving (eq_true_of_ne_false leaves)
    rw [same, going] at fired
    cases fired
  have live : w.phase ≠ .stopped := by
    intro stopped
    have shut : Shut w := run_preserves (fun _ _ _ here next => here.step next) unfired ran
    rw [shut.stopped stopped] at going
    cases going
  obtain ⟨js, u, own, to_u, back⟩ := finish (sourced_run quiet ran) live
  obtain ⟨ks, v, own', to_v, unseen, same, token⟩ := @deliver_all serde target u
  have waiting : v.phase = .waiting := same.trans back.at_select
  have there : run (step serde target) w (js ++ ks) = some v := (run_append to_u).trans to_v
  have staying : v.leaving = false := stays there (token.trans back.token)
  have reached : run (step serde target) start (is ++ (js ++ ks)) = some v := (run_append ran).trans there
  have both : ∀ j ∈ js ++ ks, Own j := by
    intro j mem
    rcases List.mem_append.1 mem with mem | mem
    · exact own j mem
    · exact own' j mem
  -- a pass now, and one after the window
  cases due : v.due target v.clock v.clock with
  | true =>
    obtain ⟨ls, w', last, rest, settled⟩ := settle_due quiet reached waiting staying unseen ⟨Nat.le_refl _, Nat.le_refl _⟩ due
    refine ⟨js ++ ks ++ ls, w', ?_, (run_append there).trans rest, settled⟩
    exact List.forall_mem_append.2 ⟨both, last⟩
  | false =>
    have next := @tick_step serde target v waiting staying v.clock v.clock ⟨Nat.le_refl v.clock, Nat.le_refl v.clock⟩
    have idle : v.pass serde target v.clock v.clock =
        { v with queue := [], clock := v.clock, leaving := v.cancelled, pending := v.window target v.clock } := by
      rw [pass, due]
      rfl
    rw [idle] at next
    have through : run (step serde target) w (js ++ ks ++ [.tick v.clock v.clock]) =
        some { v with queue := [], clock := v.clock, leaving := v.cancelled, pending := v.window target v.clock } :=
      (run_append there).trans (run_cons_iff.2 ⟨_, next, rfl⟩)
    have with_tick : ∀ j ∈ js ++ ks ++ [.tick v.clock v.clock], Own j :=
      List.forall_mem_append.2 ⟨both, List.forall_mem_singleton.2 trivial⟩
    cases window : v.window target v.clock with
    | none =>
      rw [window] at through
      exact ⟨_, _, with_tick, through, not_owed unseen rfl rfl, waiting⟩
    | some since =>
      rw [window] at through
      have reached' := (run_append ran).trans through
      have long : (World.due target { v with queue := [], clock := v.clock, leaving := v.cancelled, pending := some since } v.clock
          (max v.clock (since + debounce))) = true := by
        have le : debounce ≤ max v.clock (since + debounce) - since := by omega
        exact (Option.any_eq_true _ _).2 ⟨since, rfl, decide_eq_true le⟩
      have staying' := stays through (token.trans back.token)
      obtain ⟨ls, w', last, rest, settled⟩ := settle_due quiet reached' waiting staying' unseen ⟨Nat.le_refl _, Nat.le_max_left _ _⟩ long
      refine ⟨js ++ ks ++ [.tick v.clock v.clock] ++ ls, w', ?_, (run_append through).trans rest, settled⟩
      exact List.forall_mem_append.2 ⟨with_tick, last⟩

/-- **After the shutdown the task gets to its end.** -/
theorem leaves {start : World} (quiet : start.phase = .waiting) (ran : run (step serde target) start is = some w)
    (fired : w.cancelled = true) :
    ∃ js w', (∀ j ∈ js, Own j) ∧ run (step serde target) w js = some w' ∧ w'.phase = .stopped := by
  by_cases stopped : w.phase = .stopped
  · exact ⟨[], w, by simp, rfl, stopped⟩
  · obtain ⟨js, u, own, to_u, back⟩ := finish (sourced_run quiet ran) stopped
    have next : step serde target u .exit = some { u with phase := .stopped } := by
      simp only [step, back.at_select, back.token, fired, if_true]
    refine ⟨js ++ [.exit], _, ?_, (run_append to_u).trans (run_cons_iff.2 ⟨_, next, rfl⟩), rfl⟩
    exact List.forall_mem_append.2 ⟨own, List.forall_mem_singleton.2 trivial⟩

/-! ## The watcher -/

/-- **The pool follows the file.** In every run: when nothing is owed after a change, the last reload came after the last change, and
with nobody else at the pool since, its addresses are those of the file, or it is untouched if the file does not parse; two reloads are
a debounce window apart; every call of the task is one that a parsed version of the file asks for; what is owed can be done until the
token fires; and then the task gets to its end. -/
theorem watch_follows (serde : SerdeJson) (target : Option Text) (sys : Sys) (file : Option Bytes) (clock : Nat) {w : World}
    {is : List Label} (ran : run (step serde target) (spawned sys file clock) is = some w) :
    (¬ Owed target w → w.phase = .waiting → (∃ l ∈ is, Changes l) →
      ∃ before now later after m, is = before ++ .tick now later :: after ∧ run (step serde target) (spawned sys file clock) before = some m ∧
        m.due target now later = true ∧ (∀ l ∈ after, ¬ Changes l) ∧
        ((∀ l ∈ after, ¬ Foreign l) → (reload serde w.file = none → w.sys = m.sys) ∧
          ∀ desired, reload serde w.file = some desired → ∀ a, a ∈ w.sys.pool.addrs ↔ a ∈ desired.map Proxy.addr)) ∧
    (∀ before now later mid now' later' after m m', is = before ++ .tick now later :: (mid ++ .tick now' later' :: after) →
      run (step serde target) (spawned sys file clock) before = some m → m.due target now later = true →
      run (step serde target) (spawned sys file clock) (before ++ .tick now later :: mid) = some m' → m'.due target now' later' = true →
      later + debounce ≤ later') ∧
    (∀ calls, w.phase = .calling calls →
      ∃ desired, Read serde target (spawned sys file clock) is desired ∧ ∀ c ∈ calls, Asked desired c) ∧
    (w.cancelled = false →
      ∃ js w', (∀ j ∈ js, Own j) ∧ run (step serde target) w js = some w' ∧ ¬ Owed target w' ∧ w'.phase = .waiting) ∧
    (w.cancelled = true → ∃ js w', (∀ j ∈ js, Own j) ∧ run (step serde target) w js = some w' ∧ w'.phase = .stopped) := by
  have shut : Shut (spawned sys file clock) := ⟨by simp [spawned], by simp [spawned]⟩
  refine ⟨?_, ?_, fun calls here => ((sourced_run rfl ran).calling calls here).2, settles rfl shut ran, leaves rfl ran⟩
  · rintro nothing waiting ⟨l, mem, changes⟩
    rcases no_change_lost ran with unchanged | owed | ⟨before, now, later, after, m, rfl, reached, due, still⟩
    · exact absurd changes (unchanged l mem)
    · exact absurd owed nothing
    · refine ⟨before, now, later, after, m, rfl, reached, due, still, ?_⟩
      intro alone
      rw [run_append reached, run_cons_iff] at ran
      obtain ⟨u, next, rest⟩ := ran
      -- what the reload leaves
      have first : Following serde m.file m.sys u := by
        cases step_move next with
        | idle at_select clock early =>
          rw [due] at early
          cases early
        | reloaded at_select clock _ read => exact .parsed rfl read rfl
        | unparsed at_select clock _ unread => exact .unparsed rfl unread (.inl at_select) rfl
      cases first.run rest still alone with
      | unparsed same unread at_select untouched =>
        rw [same]
        refine ⟨fun _ => untouched, ?_⟩
        intro desired read
        rw [unread] at read
        cases read
      | done same read at_select exact =>
        rw [same, read]
        refine ⟨fun unread => (nomatch unread), ?_⟩
        rintro _ ⟨⟩
        exact exact
      | parsed same read here =>
        rw [waiting] at here
        cases here
      | calling same read here rest exact =>
        rw [waiting] at here
        cases here
  · rintro before now later mid now' later' after m m' rfl first due second due'
    have clock : m'.clock ≤ now' := by
      rw [← List.cons_append, ← List.append_assoc, run_append second, run_cons_iff] at ran
      obtain ⟨u, next, -⟩ := ran
      cases step_move next with
      | idle at_select clock => exact clock.1
      | reloaded at_select clock => exact clock.1
      | unparsed at_select clock => exact clock.1
    exact reloads_apart first due second due' clock

/-- The file is emptied. -/
theorem watch_follows_emptied :
    let name := some "pool.ndjson".toList
    let sys := Sys.fromProxies none [httpProxy 80] .default
    ∃ w, run (step savedSerde name) (spawned sys (some []) 0) [.change (some []) [name], .deliver, .tick 1 1, .tick (10 ^ 9) (10 ^ 9),
      .survey [(httpProxy 80).addr], .call] = some w ∧ ∀ a, a ∉ w.sys.pool.addrs := by
  intro name sys
  refine ⟨_, rfl, ?_⟩
  obtain ⟨before, now, later, after, m, split, -, -, -, synced⟩ := (@watch_follows savedSerde name sys (some []) 0 _
    [.change (some []) [name], .deliver, .tick 1 1, .tick (10 ^ 9) (10 ^ 9), .survey [(httpProxy 80).addr], .call] rfl).1
    (not_owed rfl rfl rfl) rfl ⟨_, List.mem_cons_self, trivial⟩
  have alone : ∀ l ∈ after, ¬ Foreign l := by
    intro l mem foreign
    have here : l ∈ before ++ .tick now later :: after := List.mem_append_right _ (List.mem_cons_of_mem _ mem)
    rw [← split] at here
    simp only [List.mem_cons, List.not_mem_nil, or_false] at here
    rcases here with rfl | rfl | rfl | rfl | rfl | rfl <;> exact foreign
  intro a mem
  have listed := ((synced alone).2 [] rfl a).1 mem
  cases listed

end World

end Watch

end ProxyBroker
