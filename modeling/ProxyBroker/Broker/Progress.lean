import ProxyBroker.Broker.Pipeline

/-!
# How the check pipeline ends

*Can the pipeline get stuck?* A driver that waits for a permit needs a check that will free one, and with
`max_conn` zero there is none: `deadlock_free_iff`. Otherwise the stream of a finite source ends whatever
the order of the steps (`ends_inevitably`).

*Does the token end it?* The token is read once an item has been pulled and nowhere else. A driver that is
waiting for the source, or that is past its test, goes on to wait for the source: `can_end_iff`.
-/

namespace ProxyBroker.Broker
open Lib

variable {job : Job} {k : Nat} {s t : State} {i : Input} {is : List Input}

/-! ## Progress -/

/-- The stream has ended, and was read to its end. -/
def State.final (s : State) : Prop := s.over ∧ s.shared.channel = []

/-- A step of a run in which the consumer keeps the stream. -/
def attended (job : Job) (s : State) (i : Input) : Option State :=
  if i = .closeReceiver ∨ i = .dropGuard then none else step job s i

theorem attended_eq (h : attended job s i = some t) : step job s i = some t := by
  unfold attended at h
  split at h
  · cases h
  · exact h

/-- A check that is not over can move, unless the channel is full. -/
theorem advance_enabled (job : Job) (k : Nat) (sh : Shared) {ph : Phase} (running : ph.isLeft = false) :
    (∃ r, advance job k sh ph = some r) ∨ sh.consumer = .reading ∧ sh.channel ≠ [] := by
  cases ph with
  | sending p n =>
    simp only [advance]
    by_cases gone : sh.consumer ≠ .reading
    · exact Or.inl ⟨_, if_pos gone⟩
    · by_cases room : sh.channel.length < channelCapacity
      · exact Or.inl ⟨_, by rw [if_neg gone, if_pos room]⟩
      · refine Or.inr ⟨not_not.1 gone, ?_⟩
        intro empty
        rw [empty] at room
        exact room (by decide)
  | left o => cases running
  | _ => exact Or.inl ⟨_, rfl⟩

theorem enabled (i : Input) (kept : i ≠ .closeReceiver ∧ i ≠ .dropGuard) (moves : (step job s i).isSome = true) :
    ∃ i t, attended job s i = some t := by
  obtain ⟨t, next⟩ := Option.isSome_iff_exists.1 moves
  exact ⟨i, t, by rw [attended, if_neg (not_or.2 kept), next]⟩

theorem receive_enabled (reading : s.shared.consumer = .reading) (waiting : s.shared.channel ≠ []) :
    ∃ i t, attended job s i = some t := by
  obtain ⟨m, rest, channel⟩ := List.exists_cons_of_ne_nil waiting
  exact enabled .receive (by simp) (by simp [step, reading, channel])

/-- Where a check is not over, something can move. -/
theorem running_enabled (reading : s.shared.consumer = .reading) {ph : Phase} (mem : ph ∈ s.tasks) (running : ph.isLeft = false) :
    ∃ i t, attended job s i = some t := by
  obtain ⟨k, at_k⟩ := List.mem_iff_getElem?.1 mem
  rcases advance_enabled job k s.shared running with ⟨r, moves⟩ | ⟨-, waiting⟩
  · exact enabled (.advance k) (by simp) (by simp [step, at_k, moves])
  · exact receive_enabled reading waiting

/-- **Progress.** With a permit to give, a state that is not final has a step. -/
theorem Invariant.progress (inv : Invariant job s) (room : 0 < job.maxConn ∨ job.source.get? 0 = none ∨ job.limit = some 0)
    (reading : s.shared.consumer = .reading) (going : ¬ s.final) : ∃ i t, attended job s i = some t := by
  have driver := inv.driver
  unfold State.DriverSound at driver
  have drains (isOver : s.over) : ∃ i t, attended job s i = some t :=
    receive_enabled reading fun empty => going ⟨isOver, empty⟩
  cases at_s : s.driver with
  | pulling => exact enabled .pull (by simp) (by simp [step, at_s])
  | testing p => exact enabled .drive (by simp) (by simp [step, drive, at_s])
  | limiting p => exact enabled .drive (by simp) (by simp [step, drive, at_s])
  | acquiring p =>
    rw [at_s] at driver
    by_cases free : 0 < s.shared.permits
    · exact enabled .drive (by simp) (by simp [step, drive, at_s, free])
    · -- no permit is free, so a check holds one
      have held : 0 < s.tasks.countP Phase.holding := by
        have := inv.permits
        rcases room with some | empty | zero
        · omega
        · rw [job.source.le_stable (Nat.zero_le _) empty] at driver
          cases driver.1
        · exact absurd zero driver.2
      obtain ⟨ph, mem, holds⟩ := List.countP_pos_iff.1 held
      refine running_enabled reading mem ?_
      cases ph with
      | left o => cases holds
      | _ => rfl
  | draining =>
    by_cases left : s.tasks.all Phase.isLeft = true
    · exact enabled .drive (by simp) (by simp [step, drive, at_s, left])
    · rw [List.all_eq_true] at left
      push Not at left
      obtain ⟨ph, mem, running⟩ := left
      exact running_enabled reading mem (eq_false_of_ne_true running)
  | ended => exact drains (Or.inl at_s)
  | panicked => exact drains (Or.inr at_s)

/-- In every state that is not final, with a consumer that keeps reading, something can move. -/
def DeadlockFree (job : Job) : Prop :=
  ∀ is s, run (step job) (start job) is = some s → s.shared.consumer = .reading → ¬ s.final → ∃ i t, attended job s i = some t

/-- The driver waits for a permit that nobody holds. -/
theorem stuck_of_no_permits (job : Job) {p : Proxy} (none_there : job.maxConn = 0) (item : job.source.get? 0 = some p)
    (limit : job.limit ≠ some 0) :
    ∃ s, run (step job) (start job) [.pull, .drive, .drive] = some s ∧ s.shared.consumer = .reading ∧ ¬ s.final ∧
      ∀ i, attended job s i = none := by
  have under : job.full 0 = false := by
    unfold Job.full
    cases at_limit : job.limit with
    | none => rfl
    | some l =>
      have pos : l ≠ 0 := by
        rintro rfl
        exact limit at_limit
      simpa using pos
  refine ⟨⟨⟨0, 0, false, [], [], .reading, []⟩, .acquiring p, []⟩, ?_, rfl, ?_, ?_⟩
  · simp [run, step, drive, start, none_there, item, under]
  · rintro ⟨isOver | isOver, -⟩ <;> cases isOver
  · intro i
    cases i <;> rfl

/-- **Deadlock freedom**, exactly: there is a permit, or the driver never needs one. -/
theorem deadlock_free_iff : DeadlockFree job ↔ 0 < job.maxConn ∨ job.source.get? 0 = none ∨ job.limit = some 0 := by
  constructor
  · intro free
    by_contra stuck
    push Not at stuck
    obtain ⟨noPermits, first, limit⟩ := stuck
    obtain ⟨p, item⟩ := Option.ne_none_iff_exists'.1 first
    obtain ⟨s, ran, reading, going, none_moves⟩ := stuck_of_no_permits job (Nat.le_zero.1 noPermits) item limit
    obtain ⟨i, t, moves⟩ := free _ s ran reading going
    rw [none_moves i] at moves
    cases moves
  · intro room is s ran reading going
    exact (run_invariant ran).progress room reading going

/-- A job with no permits waits forever for one. -/
theorem no_permits_deadlock : ¬ DeadlockFree (passingJob [httpProxy 80] 0 none) := by
  intro free
  obtain ⟨s, ran, reading, going, none_moves⟩ := stuck_of_no_permits (passingJob [httpProxy 80] 0 none) rfl rfl (by simp [passingJob])
  obtain ⟨i, t, moves⟩ := free _ s ran reading going
  rw [none_moves i] at moves
  cases moves

/-! ## Termination -/

/-- How many steps a check has before it, a receive included. -/
def Phase.rank : Phase → Nat
  | .checking _ => 10
  | .recording _ => 9
  | .observing _ => 8
  | .filtering _ => 7
  | .reserving _ => 6
  | .sending _ _ => 5
  | .cancelling _ => 3
  | .finishing _ => 2
  | .leaving _ => 1
  | .left _ => 0

/-- The same for the driver, with `n` items of the source to go. -/
def Driver.rank (n : Nat) : Driver → Nat
  | .pulling => 15 * n + 3
  | .testing _ => 15 * n + 2
  | .limiting _ => 15 * n + 1
  | .acquiring _ => 15 * n
  | .draining => 1
  | .ended | .panicked => 0

/-- The measure, for a source of at most `n` items. -/
def State.rank (n : Nat) (s : State) : Nat :=
  s.driver.rank (n - s.tasks.length) + (s.tasks.map Phase.rank).sum + s.shared.channel.length

theorem sum_rank_set {tasks : List Phase} {ph : Phase} (at_k : tasks[k]? = some ph) (ph' : Phase) :
    ((tasks.set k ph').map Phase.rank).sum + ph.rank = (tasks.map Phase.rank).sum + ph'.rank := by
  induction tasks generalizing k with
  | nil => cases at_k
  | cons c tasks ih =>
    cases k with
    | zero =>
      cases at_k
      simp only [List.set_cons_zero, List.map_cons, List.sum_cons]
      omega
    | succ k =>
      have rest := ih (k := k) at_k
      simp only [List.set_cons_succ, List.map_cons, List.sum_cons]
      omega

theorem advance_rank {sh sh' : Shared} {ph ph' : Phase} (h : advance job k sh ph = some (sh', ph')) :
    ph'.rank + sh'.channel.length < ph.rank + sh.channel.length := by
  have after (n : Nat) (o : Outcome) : (afterSend job n o).rank ≤ 3 := by
    unfold afterSend
    split <;> simp [Phase.rank]
  cases ph with
  | filtering v =>
    cases h
    split <;> simp [Phase.rank]
  | reserving p =>
    cases h
    dsimp only
    split <;> simp [Phase.rank]
  | sending p n =>
    have before : (Phase.sending p n).rank = 5 := rfl
    simp only [advance] at h
    split at h
    · cases h
      have := after n .undelivered
      omega
    · split at h
      · cases h
        have := after n .sent
        simp only [List.length_append, List.length_singleton]
        omega
      · cases h
  | left o => cases h
  | _ =>
    cases h
    simp [Phase.rank]

/-- Every step of an attended run lowers the measure. -/
theorem Invariant.rank_lt {n : Nat} (inv : Invariant job s) (finite : job.source.get? n = none) (h : attended job s i = some t) :
    t.rank n < s.rank n := by
  have driver := inv.driver
  unfold State.DriverSound at driver
  have inside {p : Proxy} (item : job.source.get? s.tasks.length = some p) : s.tasks.length < n := by
    by_contra beyond
    rw [job.source.le_stable (Nat.le_of_not_lt beyond) finite] at item
    cases item
  have next := attended_eq h
  cases step_move next with
  | pulled at_s | dry at_s =>
    simp only [State.rank, at_s, Driver.rank]
    omega
  | tested at_s | limited at_s =>
    rw [at_s] at driver
    have := inside driver
    simp only [State.rank, at_s]
    split <;> simp only [Driver.rank] <;> omega
  | spawned at_s free =>
    rw [at_s] at driver
    have := inside driver.1
    simp only [State.rank, at_s, Driver.rank, List.length_append, List.length_singleton, List.map_append, List.map_cons,
      List.map_nil, List.sum_append, List.sum_cons, List.sum_nil, Phase.rank]
    omega
  | drained at_s left =>
    simp only [State.rank, at_s, Driver.rank]
    omega
  | aborted at_k fired =>
    have moved := sum_rank_set at_k (.finishing .aborted)
    simp only [Phase.rank] at moved
    simp only [State.rank, List.length_set]
    omega
  | @advanced k ph ph' sh' at_k moved =>
    have less := advance_rank moved
    have sum := sum_rank_set at_k ph'
    simp only [State.rank, List.length_set]
    omega
  | received reading channel =>
    simp only [State.rank, channel, List.length_cons]
    omega
  | closed | dropped => cases h

theorem attended_reading (reading : s.shared.consumer = .reading) (h : attended job s i = some t) :
    t.shared.consumer = .reading := by
  have next := attended_eq h
  cases step_move next with
  | pulled | dry | tested | limited | spawned | drained | aborted | received => exact reading
  | advanced _ moved => exact (advance_moves moved).consumer.trans reading
  | closed | dropped => cases h

/-- **The stream of a finite source ends**, in whatever order driver, checks and consumer move. -/
theorem ends_inevitably {n : Nat} (finite : job.source.get? n = none) (room : 0 < job.maxConn) :
    Inevitably (attended job) State.final (start job) := by
  refine Inevitably.of_measure (Q := fun s => Invariant job s ∧ s.shared.consumer = .reading) (State.rank n) ?_ ?_ ?_ ?_
  · rintro s i t ⟨inv, reading⟩ next
    exact ⟨step_invariant inv (attended_eq next), attended_reading reading next⟩
  · rintro s i t ⟨inv, -⟩ next
    exact inv.rank_lt finite next
  · rintro s ⟨inv, reading⟩ going
    exact inv.progress (Or.inl room) reading going
  · exact ⟨inv_start job, rfl⟩

/-! ## The token -/

/-- Without another item of the source, and without its end, `check_stream` can end. -/
def CanEnd (job : Job) (s : State) : Prop := ∃ is t, .pull ∉ is ∧ run (step job) s is = some t ∧ t.over

/-- The driver will not ask the source again: its next test ends the loop, or it is past the loop. -/
def State.leaves (job : Job) (s : State) : Prop :=
  match s.driver with
  | .testing _ | .draining | .ended | .panicked => True
  | .limiting _ => job.full s.shared.sent = true
  | .pulling | .acquiring _ => False

/-- With no check running, a driver that will ask the source again does so. -/
def Waits (job : Job) (s : State) : Prop :=
  match s.driver with
  | .pulling | .acquiring _ => True
  | .limiting _ => job.full s.shared.sent = false ∧ s.tasks.all Phase.isLeft = true
  | _ => False

/-- Only the driver itself moves the driver. -/
theorem step_driver (other : i ≠ .pull ∧ i ≠ .drive) (h : step job s i = some t) : t.driver = s.driver := by
  cases step_move h with
  | pulled | dry => exact absurd rfl other.1
  | tested | limited | spawned | drained => exact absurd rfl other.2
  | aborted | advanced | received | closed | dropped => rfl

/-- While no check is running, the counter stands still. -/
theorem step_idle (idle : s.tasks.all Phase.isLeft = true) (other : i ≠ .pull ∧ i ≠ .drive) (h : step job s i = some t) :
    t.tasks = s.tasks ∧ t.shared.sent = s.shared.sent := by
  have left {k : Nat} {ph : Phase} (at_k : s.tasks[k]? = some ph) : ∃ o, ph = .left o := by
    have isLeft := List.all_eq_true.1 idle ph (List.mem_of_getElem? at_k)
    cases ph with
    | left o => exact ⟨o, rfl⟩
    | _ => cases isLeft
  cases step_move h with
  | pulled | dry => exact absurd rfl other.1
  | tested | limited | spawned | drained => exact absurd rfl other.2
  | aborted at_k _ =>
    obtain ⟨o, eq⟩ := left at_k
    cases eq
  | advanced at_k moved =>
    obtain ⟨o, rfl⟩ := left at_k
    cases moved
  | received | closed | dropped => exact ⟨rfl, rfl⟩

theorem waits_step (waits : Waits job s) (other : i ≠ .pull) (h : step job s i = some t) : Waits job t := by
  unfold Waits at waits
  by_cases drives : i = .drive
  · subst drives
    cases step_move h with
    | tested at_s | drained at_s =>
      rw [at_s] at waits
      cases waits
    | limited at_s =>
      rw [at_s] at waits
      simp [Waits, waits.1]
    | spawned => trivial
  · have same := step_driver ⟨other, drives⟩ h
    unfold Waits
    rw [same]
    cases at_s : s.driver with
    | limiting p =>
      rw [at_s] at waits
      obtain ⟨tasks, sent⟩ := step_idle waits.2 ⟨other, drives⟩ h
      exact ⟨sent ▸ waits.1, tasks ▸ waits.2⟩
    | _ =>
      rw [at_s] at waits
      exact waits

theorem waits_run {is : List Input} (waits : Waits job s) (without : .pull ∉ is) (h : run (step job) s is = some t) : Waits job t := by
  have others : Along (step job) (fun _ i => i ≠ .pull) s is := along_of_forall fun i mem _ pulls => without (pulls ▸ mem)
  exact run_preserves_along (fun _ _ _ inv other next => waits_step inv other next) waits others h

theorem Waits.not_over (waits : Waits job s) : ¬ s.over := by
  rintro (ended | panicked)
  · rw [Waits, ended] at waits
    exact waits
  · rw [Waits, panicked] at waits
    exact waits

/-- **The end of the stream.** Once the token has fired and no check is running, `check_stream` can end
without the source exactly when the driver will not ask the source again. -/
theorem can_end_iff (fired : s.shared.cancelled = true) (idle : s.tasks.all Phase.isLeft = true) :
    CanEnd job s ↔ s.leaves job := by
  constructor
  · rintro ⟨is, t, without, ran, isOver⟩
    by_contra stays
    have waits : Waits job s := by
      unfold Waits
      unfold State.leaves at stays
      cases at_s : s.driver with
      | limiting p =>
        rw [at_s] at stays
        exact ⟨eq_false_of_ne_true stays, idle⟩
      | pulling => trivial
      | acquiring p => trivial
      | _ => simp [at_s] at stays
    exact (waits_run waits without ran).not_over isOver
  · intro leaves
    unfold State.leaves at leaves
    cases at_s : s.driver with
    | pulling => simp [at_s] at leaves
    | acquiring p => simp [at_s] at leaves
    | testing p =>
      refine ⟨[.drive, .drive], { s with driver := .ended }, by simp, ?_, Or.inl rfl⟩
      simp only [run, step, drive, at_s, fired, if_true, if_pos idle]
    | limiting p =>
      rw [at_s] at leaves
      refine ⟨[.drive, .drive], { s with driver := .ended }, by simp, ?_, Or.inl rfl⟩
      simp only [run, step, drive, at_s, if_pos leaves, if_pos idle]
    | draining =>
      refine ⟨[.drive], { s with driver := .ended }, by simp, ?_, Or.inl rfl⟩
      simp only [run, step, drive, at_s, if_pos idle]
    | ended => exact ⟨[], s, by simp, rfl, Or.inl at_s⟩
    | panicked => exact ⟨[], s, by simp, rfl, Or.inr at_s⟩

/-- The only slot is taken and the token fired while the driver waits for the second item. -/
def firing : List Input := [.pull, .drive, .drive, .drive] ++ List.replicate 9 (.advance 0)

theorem fired_stream_waits :
    ¬ ∀ (job : Job) (is : List Input) (s : State), run (step job) (start job) is = some s → s.shared.cancelled = true →
      s.tasks.all Phase.isLeft = true → CanEnd job s := by
  intro general
  obtain ⟨s, ran, fired, idle, at_s⟩ : ∃ s, run (step (passingJob [httpProxy 80] 1 (some 1))) (start (passingJob [httpProxy 80] 1 (some 1)))
      firing = some s ∧ s.shared.cancelled = true ∧ s.tasks.all Phase.isLeft = true ∧ s.driver = .pulling := ⟨_, rfl, rfl, rfl, rfl⟩
  obtain ⟨is, t, without, later, isOver⟩ := general _ _ s ran fired idle
  have waits : Waits (passingJob [httpProxy 80] 1 (some 1)) s := by
    rw [Waits, at_s]
    trivial
  exact (waits_run waits without later).not_over isOver

/-- A driver that tests the token after it fired lets the stream end. -/
theorem can_end_after_test :
    ∃ s, run (step (passingJob [httpProxy 80, httpProxy 81] 1 (some 1))) (start (passingJob [httpProxy 80, httpProxy 81] 1 (some 1)))
        (firing ++ [.pull]) = some s ∧ CanEnd (passingJob [httpProxy 80, httpProxy 81] 1 (some 1)) s := by
  obtain ⟨s, ran, fired, idle, at_s⟩ : ∃ s,
      run (step (passingJob [httpProxy 80, httpProxy 81] 1 (some 1))) (start (passingJob [httpProxy 80, httpProxy 81] 1 (some 1)))
        (firing ++ [.pull]) = some s ∧ s.shared.cancelled = true ∧ s.tasks.all Phase.isLeft = true ∧ s.driver = .testing (httpProxy 81) :=
    ⟨_, rfl, rfl, rfl, rfl⟩
  refine ⟨s, ran, (can_end_iff fired idle).2 ?_⟩
  rw [State.leaves, at_s]
  trivial

end ProxyBroker.Broker
