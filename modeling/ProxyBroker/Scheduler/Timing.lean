import ProxyBroker.Scheduler.Bookkeeping

/-!
# The re-check loop on the clock (`scheduler.rs:spawn_rechecker`)

`Timed` adds the clock to the world of the loop. It does not go back, the loop reads it between the beginning and the end of a
step, and a timer does not fire before its instant. Nothing bounds how long a step or a sleep takes.

`pops` is a history variable: the entries that the loop has popped, each with the slot that the token bucket gave it and the
instant at which it was popped. `Timely` is the invariant: what is popped was due, the dues come in order, and the slots of
the bucket are a gap apart. An address that is overdue waits for those that are due before it only (`Overdue`).
-/

namespace ProxyBroker.Scheduler
open Lib Server

/-! ## The clock -/

/-- The instant on which the loop sleeps. -/
def State.timer (s : State) : Instant :=
  match s.phase with
  | .waiting _ wake => wake
  | .throttled startAt => startAt
  | _ => 0

/-- The clock readings of a step of the loop that takes from `before` to `after`. -/
def OnTime (s : State) (before after : Instant) : Input → Prop
  | .enroll now _ => before ≤ now ∧ now ≤ after
  | .peek now => before ≤ now ∧ now ≤ after
  | .woke now later => (before ≤ now ∧ now ≤ later ∧ later ≤ after) ∧ s.timer ≤ now
  | .begin _ => s.timer ≤ after
  | .settle now _ => before ≤ now ∧ now ≤ after
  | .slept => True
  | .checked _ _ => True
  | .cancel => True

instance (s : State) (before after : Instant) : (i : Input) → Decidable (OnTime s before after i)
  | .enroll _ _ => inferInstanceAs (Decidable (_ ∧ _))
  | .peek _ => inferInstanceAs (Decidable (_ ∧ _))
  | .woke _ _ => inferInstanceAs (Decidable ((_ ∧ _ ∧ _) ∧ _))
  | .begin _ => inferInstanceAs (Decidable (_ ≤ _))
  | .settle _ _ => inferInstanceAs (Decidable (_ ∧ _))
  | .slept => inferInstanceAs (Decidable True)
  | .checked _ _ => inferInstanceAs (Decidable True)
  | .cancel => inferInstanceAs (Decidable True)

/-- The readings of a step of the world. The others read what they like. -/
def World.OnTime (w : World) (before after : Instant) : World.Input → Prop
  | .others _ => True
  | .loop i => Scheduler.OnTime w.loop before after i

instance (w : World) (before after : Instant) : (j : World.Input) → Decidable (w.OnTime before after j)
  | .others _ => inferInstanceAs (Decidable True)
  | .loop i => inferInstanceAs (Decidable (Scheduler.OnTime w.loop before after i))

/-- The world and its clock. -/
structure Timed where
  world : World
  clock : Instant

/-- An entry that was popped, the slot of the bucket, and when it was popped. -/
structure Pop where
  slot : Instant
  job : Scheduled
  time : Instant

/-- What a step pops that is over at `after`. -/
def State.popped (s : State) (j : World.Input) (after : Instant) : List Pop :=
  match s.phase, j with
  | .throttled startAt, .loop (.begin k) => ((popAt s.heap k).map fun r => ⟨startAt, r.1, after⟩).toList
  | _, _ => []

namespace Timed

/-- A step of the world, and the instant at which it is over. -/
def step (cfg : RecheckConfig) (powf : ℚ → ℚ → ℚ) (t : Timed) (j : World.Input × Instant) : Option Timed :=
  if t.clock ≤ j.2 ∧ t.world.OnTime t.clock j.2 j.1 then (World.step cfg powf t.world j.1).map fun w => ⟨w, j.2⟩ else none

/-- What is popped after a step, if `ps` was before. -/
def pops (ps : List Pop) (t : Timed) (j : World.Input × Instant) (_ : Timed) : List Pop := ps ++ t.world.loop.popped j.1 j.2

end Timed

/-! ## The heap -/

variable {cfg : RecheckConfig} {powf : ℚ → ℚ → ℚ} {sys sys' : Sys} {s s' : State} {before after : Instant} {i : Input} {j : World.Input}
  {t t' : Timed} {ps qs : List Pop}

/-- What is popped is due first. -/
theorem popAt_least {heap rest : List Scheduled} {k : Nat} {job : Scheduled} (h : popAt heap k = some (job, rest)) :
    ∀ e ∈ heap, job.due ≤ e.due := by
  unfold popAt at h
  split at h
  · cases h
  · split at h
    · rename_i least
      cases h
      exact least
    · cases h

/-- A heap with a first due can be popped. -/
theorem exists_popAt {heap : List Scheduled} {due : Instant} (first : (heap.map Scheduled.due).min? = some due) :
    ∃ k job rest, popAt heap k = some (job, rest) := by
  obtain ⟨mem, least⟩ := List.min?_eq_some_iff.1 first
  obtain ⟨job, at_job, rfl⟩ := List.mem_map.1 mem
  obtain ⟨k, at_k⟩ := List.mem_iff_getElem?.1 at_job
  refine ⟨k, job, heap.eraseIdx k, ?_⟩
  rw [popAt, at_k]
  exact if_pos fun e mem => least _ (List.mem_map_of_mem mem)

theorem enrollAll_heap (now : Instant) (draw : Addr → Draw) (addrs : List Addr) (s : State) :
    ∃ new, (enrollAll cfg now draw addrs s).heap = new ++ s.heap ∧ ∀ e ∈ new, ∃ d, e.due = now + jitter cfg.minInterval d := by
  induction addrs generalizing s with
  | nil => exact ⟨[], rfl, fun e mem => nomatch mem⟩
  | cons a addrs ih =>
    obtain ⟨new, heap, due⟩ := ih (enroll cfg now draw s a)
    have first : (enroll cfg now draw s a).heap = s.heap ∨
        (enroll cfg now draw s a).heap = ⟨now + jitter cfg.minInterval (draw a), a⟩ :: s.heap := by
      unfold enroll
      split
      · exact .inl rfl
      · exact .inr rfl
    rcases first with same | pushed
    · exact ⟨new, by rw [← same]; exact heap, due⟩
    · refine ⟨new ++ [⟨now + jitter cfg.minInterval (draw a), a⟩], ?_, ?_⟩
      · rw [List.append_assoc, List.singleton_append, ← pushed]
        exact heap
      · intro e mem
        rcases List.mem_append.1 mem with mem | mem
        · exact due e mem
        · exact ⟨draw a, by rw [List.mem_singleton.1 mem]⟩

theorem enrollAll_nextStart (now : Instant) (draw : Addr → Draw) (addrs : List Addr) (s : State) :
    (enrollAll cfg now draw addrs s).nextStart = s.nextStart := by
  induction addrs generalizing s with
  | nil => rfl
  | cons a addrs ih =>
    refine (ih (enroll cfg now draw s a)).trans ?_
    unfold enroll
    split <;> rfl

theorem settled_heap (s : State) (now : Instant) (draw : Draw) (key : Addr) (proxy : Proxy) (working : Bool) :
    ∃ new, (settled cfg powf s now draw key proxy working).heap = new ++ s.heap ∧
      ∀ e ∈ new, now + jitter cfg.minInterval draw ≤ e.due := by
  have late (e : ℚ) : now + jitter cfg.minInterval draw ≤ now + nextInterval e cfg + jitter cfg.minInterval draw :=
    Nat.add_le_add_right (Nat.le_add_right now _) _
  have pushed (e : ℚ) (x : Scheduled) (mem : x ∈ [(⟨now + nextInterval e cfg + jitter cfg.minInterval draw, key⟩ : Scheduled)]) :
      now + jitter cfg.minInterval draw ≤ x.due := by
    rw [List.mem_singleton.1 mem]
    exact late e
  unfold settled settledIn settleWith
  dsimp only
  split
  · exact ⟨[_], rfl, pushed _⟩
  · split
    · exact ⟨[_], rfl, pushed _⟩
    · exact ⟨[], rfl, fun e mem => nomatch mem⟩

theorem settled_nextStart (s : State) (now : Instant) (draw : Draw) (key : Addr) (proxy : Proxy) (working : Bool) :
    (settled cfg powf s now draw key proxy working).nextStart = s.nextStart := by
  unfold settled settledIn settleWith
  dsimp only
  split
  · rfl
  · split <;> rfl

/-! ## A step on the clock -/

/-- What the loop waits for is the first due; what it is about to pop is due. -/
def State.Ready (s : State) : Prop :=
  match s.phase with
  | .waiting due _ => (s.heap.map Scheduled.due).min? = some due
  | .throttled startAt => s.nextStart ≤ startAt ∧ ∃ due, (s.heap.map Scheduled.due).min? = some due ∧ due ≤ startAt
  | _ => True

/-- A step leaves the schedule alone, schedules addresses for later than its beginning, or pops what is due first. -/
inductive Beat (cfg : RecheckConfig) (before after : Instant) (s s' : State) : List Pop → Prop
  | rests (heap : s'.heap = s.heap) (next : s'.nextStart = s.nextStart) : Beat cfg before after s s' []
  | schedules {new : List Scheduled} (heap : s'.heap = new ++ s.heap)
    (late : ∀ e ∈ new, ∃ d, before + jitter cfg.minInterval d ≤ e.due) (next : s'.nextStart = s.nextStart) :
    Beat cfg before after s s' []
  | pops {startAt : Instant} {job : Scheduled} (throttled : s.phase = .throttled startAt)
    (least : ∀ e ∈ s.heap, job.due ≤ e.due) (heap : (job :: s'.heap).Perm s.heap) (next : s'.nextStart = startAt + gap cfg)
    (timer : startAt ≤ after) : Beat cfg before after s s' [⟨startAt, job, after⟩]

theorem popped_nothing (other : ∀ k, j ≠ .loop (.begin k)) : s.popped j after = [] := by
  unfold State.popped
  split
  · rename_i begins
    exact absurd rfl (other _)
  · rfl

/-- A step that only moves the loop on. -/
theorem rests_beat {ph : Phase} (other : ∀ n, i ≠ .begin n) (settles : ({ s with phase := ph } : State).Ready) :
    ({ s with phase := ph } : State).Ready ∧ Beat cfg before after s { s with phase := ph } (s.popped (.loop i) after) := by
  rw [popped_nothing (by simpa using other)]
  exact ⟨settles, .rests rfl rfl⟩

/-- The start of a check pops what is due first. -/
theorem begin_beat {k : Nat} (onTime : OnTime s before after (.begin k)) (h : step cfg powf sys s (.begin k) = some (sys', s')) :
    s'.Ready ∧ Beat cfg before after s s' (s.popped (.loop (.begin k)) after) := by
  replace h := turnIn_of_stepIn h
  cases at_s : s.phase with
  | throttled startAt =>
    have timer : startAt ≤ after := by
      have slept : s.timer ≤ after := onTime
      rw [State.timer, at_s] at slept
      exact slept
    simp only [turnIn, at_s] at h
    split at h
    · cases h
    · rename_i job rest taken
      have popped : s.popped (.loop (.begin k)) after = [⟨startAt, job, after⟩] := by
        simp only [State.popped, at_s, taken, Option.map_some, Option.toList_some]
      rw [popped]
      split at h
      · cases h
        exact ⟨trivial, .pops at_s (popAt_least taken) (popAt_perm taken) rfl timer⟩
      · cases h
        exact ⟨trivial, .pops at_s (popAt_least taken) (popAt_perm taken) rfl timer⟩
  | _ => simp [turnIn, at_s] at h

/-- A settled check schedules its address again, or drops it. -/
theorem settle_beat {now : Instant} {draw : Draw} (onTime : OnTime s before after (.settle now draw))
    (h : step cfg powf sys s (.settle now draw) = some (sys', s')) :
    s'.Ready ∧ Beat cfg before after s s' (s.popped (.loop (.settle now draw)) after) := by
  replace h := turnIn_of_stepIn h
  cases at_s : s.phase with
  | settling job proxy working =>
    simp only [turnIn, at_s] at h
    obtain ⟨called, -, eq⟩ := Option.map_eq_some_iff.1 h
    cases eq
    obtain ⟨new, heap, late⟩ := @settled_heap cfg powf s now draw job.key proxy working
    rw [popped_nothing (by simp)]
    refine ⟨?_, .schedules heap (fun e mem => ⟨draw, ?_⟩) (settled_nextStart s now draw job.key proxy working)⟩
    · rw [State.Ready, settled_phase]
      trivial
    · exact (Nat.add_le_add_right onTime.1 _).trans (late e mem)
  | _ => simp [turnIn, at_s] at h

/-- A step of the loop, read on the clock. -/
theorem loop_beat (onTime : OnTime s before after i) (h : step cfg powf sys s i = some (sys', s')) (ready : s.Ready) :
    s'.Ready ∧ Beat cfg before after s s' (s.popped (.loop i) after) := by
  have turned := turnIn_of_stepIn h
  cases i with
  | enroll now draw =>
    obtain ⟨-, loop⟩ := step_enroll h
    obtain ⟨new, heap, due⟩ := @enrollAll_heap cfg now draw sys.pool.addrs s
    rw [popped_nothing (by simp), loop]
    refine ⟨trivial, .schedules heap ?_ (enrollAll_nextStart now draw sys.pool.addrs s)⟩
    intro e mem
    obtain ⟨d, at_due⟩ := due e mem
    exact ⟨d, at_due ▸ Nat.add_le_add_right onTime.1 _⟩
  | peek now =>
    cases at_s : s.phase with
    | enrolled =>
      simp only [turnIn, at_s] at turned
      split at turned
      · cases turned
        exact rests_beat (by simp) trivial
      · rename_i due first
        cases turned
        exact rests_beat (by simp) first
    | _ => simp [turnIn, at_s] at turned
  | slept =>
    cases at_s : s.phase with
    | idle =>
      simp only [turnIn, at_s] at turned
      cases turned
      exact rests_beat (by simp) trivial
    | _ => simp [turnIn, at_s] at turned
  | woke now later =>
    cases at_s : s.phase with
    | waiting due wake =>
      simp only [turnIn, at_s] at turned
      rw [State.Ready, at_s] at ready
      split at turned
      · cases turned
        exact rests_beat (by simp) trivial
      · rename_i reached
        cases turned
        refine rests_beat (by simp) ⟨le_max_left _ _, due, ready, ?_⟩
        exact (not_lt.1 reached).trans (onTime.1.2.1.trans (le_max_right _ _))
    | _ => simp [turnIn, at_s] at turned
  | begin k => exact begin_beat onTime h
  | checked proxy working =>
    cases at_s : s.phase with
    | checking job =>
      simp only [turnIn, at_s] at turned
      split at turned
      · cases turned
        exact rests_beat (by simp) trivial
      · cases turned
    | _ => simp [turnIn, at_s] at turned
  | settle now draw => exact settle_beat onTime h
  | cancel =>
    cases at_s : s.phase with
    | idle =>
      simp only [turnIn, at_s] at turned
      cases turned
      exact rests_beat (by simp) trivial
    | waiting due wake =>
      simp only [turnIn, at_s] at turned
      cases turned
      exact rests_beat (by simp) trivial
    | throttled startAt =>
      simp only [turnIn, at_s] at turned
      cases turned
      exact rests_beat (by simp) trivial
    | _ => simp [turnIn, at_s] at turned

theorem step_world {k : World.Input × Instant} (h : Timed.step cfg powf t k = some t') : World.step cfg powf t.world k.1 = some t'.world := by
  unfold Timed.step at h
  split at h
  · obtain ⟨w, next, rfl⟩ := Option.map_eq_some_iff.1 h
    exact next
  · cases h

/-- **A step on the clock.** -/
theorem step_beat {k : World.Input × Instant} (h : Timed.step cfg powf t k = some t') (ready : t.world.loop.Ready) :
    t.clock ≤ t'.clock ∧ t'.clock = k.2 ∧ t'.world.loop.Ready ∧
      Beat cfg t.clock t'.clock t.world.loop t'.world.loop (t.world.loop.popped k.1 k.2) := by
  unfold Timed.step at h
  split at h
  · rename_i readings
    obtain ⟨w, next, rfl⟩ := Option.map_eq_some_iff.1 h
    refine ⟨readings.1, rfl, ?_⟩
    obtain ⟨k, after⟩ := k
    cases k with
    | others i =>
      obtain ⟨sys, -, rfl⟩ := Option.map_eq_some_iff.1 next
      rw [popped_nothing (by simp)]
      exact ⟨ready, .rests rfl rfl⟩
    | loop i =>
      obtain ⟨⟨sys, loop⟩, moved, rfl⟩ := Option.map_eq_some_iff.1 next
      exact loop_beat readings.2 moved ready
  · cases h

/-! ## The schedule -/

/-- The shortest jittered `min_interval`. -/
def leastDelay (cfg : RecheckConfig) : Nat := jitter cfg.minInterval ⟨-1 / 2, by norm_num⟩

/-- The jitter grows with the draw. -/
theorem jitter_mono (base : Nat) {d d' : Draw} (le : d.1 ≤ d'.1) : jitter base d ≤ jitter base d' := nanos_mono (jitterSecs_mono base le)

theorem leastDelay_le (d : Draw) : leastDelay cfg ≤ jitter cfg.minInterval d := jitter_mono cfg.minInterval d.2.1

/-- What comes after a pop: it is due no earlier, and for the address that was popped not before the delay. -/
def Pop.Before (cfg : RecheckConfig) (p : Pop) (e : Scheduled) : Prop :=
  p.job.due ≤ e.due ∧ (p.job.key = e.key → p.time + leastDelay cfg ≤ e.due)

/-- The schedule of a loop that began at `begun`. -/
structure Timely (cfg : RecheckConfig) (begun : Instant) (t : Timed) (ps : List Pop) : Prop where
  kept : t.world.loop.Kept
  ready : t.world.loop.Ready
  started : begun ≤ t.world.loop.nextStart
  popped : ∀ p ∈ ps, begun ≤ p.slot ∧ p.job.due ≤ p.slot ∧ p.slot ≤ p.time ∧ p.time ≤ t.clock
  slots : ∀ p ∈ ps, p.slot + gap cfg ≤ t.world.loop.nextStart
  spaced : ps.Pairwise fun p q => p.slot + gap cfg ≤ q.slot
  ordered : ps.Pairwise fun p q => p.Before cfg q.job
  scheduled : ∀ p ∈ ps, ∀ e ∈ t.world.loop.heap, p.Before cfg e

theorem Timely.start (begun : Instant) (sys : Sys) : Timely cfg begun ⟨⟨sys, State.start begun⟩, begun⟩ [] where
  kept := start_kept begun
  ready := trivial
  started := le_refl _
  popped _ mem := nomatch mem
  slots _ mem := nomatch mem
  spaced := .nil
  ordered := .nil
  scheduled _ mem := nomatch mem

theorem Timely.popped_by {begun : Instant} (timely : Timely cfg begun t ps) (forward : t.clock ≤ t'.clock) :
    ∀ p ∈ ps, begun ≤ p.slot ∧ p.job.due ≤ p.slot ∧ p.slot ≤ p.time ∧ p.time ≤ t'.clock := by
  intro p mem
  obtain ⟨early, due, slept, past⟩ := timely.popped p mem
  exact ⟨early, due, slept, past.trans forward⟩

/-- What was popped was due and is past, so an entry for later than now comes after it. -/
theorem Timely.later {begun : Instant} (timely : Timely cfg begun t ps) {e : Scheduled} {d : Draw}
    (late : t.clock + jitter cfg.minInterval d ≤ e.due) : ∀ p ∈ ps, p.Before cfg e := by
  intro p mem
  obtain ⟨-, early, slept, past⟩ := timely.popped p mem
  refine ⟨?_, fun _ => (Nat.add_le_add past (leastDelay_le d)).trans late⟩
  exact early.trans (slept.trans (past.trans ((Nat.le_add_right _ _).trans late)))

/-- A pop at the next slot. The others in the heap are due no earlier, and have other addresses. -/
theorem Timely.pop {begun startAt : Instant} {job : Scheduled} (timely : Timely cfg begun t ps) (forward : t.clock ≤ t'.clock)
    (kept : t'.world.loop.Kept) (ready : t'.world.loop.Ready) (throttled : t.world.loop.phase = .throttled startAt)
    (least : ∀ e ∈ t.world.loop.heap, job.due ≤ e.due) (heap : (job :: t'.world.loop.heap).Perm t.world.loop.heap)
    (next : t'.world.loop.nextStart = startAt + gap cfg) (timer : startAt ≤ t'.clock) :
    Timely cfg begun t' (ps ++ [⟨startAt, job, t'.clock⟩]) := by
  have now := timely.ready
  rw [State.Ready, throttled] at now
  obtain ⟨slot, due, first, passed⟩ := now
  have job_mem : job ∈ t.world.loop.heap := heap.subset List.mem_cons_self
  have job_due : job.due ≤ startAt := by
    obtain ⟨mem, -⟩ := List.min?_eq_some_iff.1 first
    obtain ⟨e, at_e, rfl⟩ := List.mem_map.1 mem
    exact (least e at_e).trans passed
  have before : ∀ e ∈ t'.world.loop.heap, e ∈ t.world.loop.heap := fun e mem => heap.subset (List.mem_cons_of_mem job mem)
  refine ⟨kept, ready, ?_, ?_, ?_, ?_, ?_, ?_⟩
  · rw [next]
    exact (timely.started.trans slot).trans (Nat.le_add_right _ _)
  · intro p mem
    rcases List.mem_append.1 mem with old | new
    · exact timely.popped_by forward p old
    · rw [List.mem_singleton.1 new]
      exact ⟨timely.started.trans slot, job_due, timer, le_refl _⟩
  · intro p mem
    rw [next]
    rcases List.mem_append.1 mem with old | new
    · exact ((timely.slots p old).trans slot).trans (Nat.le_add_right _ _)
    · rw [List.mem_singleton.1 new]
  · refine List.pairwise_append.2 ⟨timely.spaced, List.pairwise_singleton _ _, ?_⟩
    intro p old q new
    rw [List.mem_singleton.1 new]
    exact (timely.slots p old).trans slot
  · refine List.pairwise_append.2 ⟨timely.ordered, List.pairwise_singleton _ _, ?_⟩
    intro p old q new
    rw [List.mem_singleton.1 new]
    exact timely.scheduled p old job job_mem
  · intro p mem e at_e
    rcases List.mem_append.1 mem with old | new
    · exact timely.scheduled p old e (before e at_e)
    · rw [List.mem_singleton.1 new]
      refine ⟨least e (before e at_e), fun same => ?_⟩
      have distinct : (t.world.loop.heap.map Scheduled.key).Nodup := (List.nodup_append.1 timely.kept.nodup).2.1
      have others := (List.nodup_cons.1 ((heap.map Scheduled.key).nodup_iff.2 distinct)).1
      exact absurd (List.mem_map.2 ⟨e, at_e, same.symm⟩) others

theorem Timely.step {begun : Instant} {k : World.Input × Instant} (timely : Timely cfg begun t ps)
    (h : Timed.step cfg powf t k = some t') : Timely cfg begun t' (Timed.pops ps t k t') := by
  obtain ⟨forward, -, ready, beats⟩ := step_beat h timely.ready
  have kept : t'.world.loop.Kept := World.stepIn_kept timely.kept (step_world h)
  have popped := timely.popped_by forward
  unfold Timed.pops
  revert beats
  generalize t.world.loop.popped k.1 k.2 = new
  intro beats
  cases beats with
  | rests heap next =>
    rw [List.append_nil]
    exact ⟨kept, ready, next ▸ timely.started, popped, next ▸ timely.slots, timely.spaced, timely.ordered, heap ▸ timely.scheduled⟩
  | @schedules new heap late next =>
    rw [List.append_nil]
    refine ⟨kept, ready, next ▸ timely.started, popped, next ▸ timely.slots, timely.spaced, timely.ordered, ?_⟩
    intro p mem e at_e
    rw [heap, List.mem_append] at at_e
    rcases at_e with pushed | old
    · obtain ⟨d, due⟩ := late e pushed
      exact timely.later due p mem
    · exact timely.scheduled p mem e old
  | pops throttled least heap next timer => exact timely.pop forward kept ready throttled least heap next timer

/-- The slots are a gap apart, each from the next. -/
theorem spaced_slots {g : Nat} (spaced : ps.Pairwise fun p q => p.slot + g ≤ q.slot) (i : Nat) : ∀ n p q, ps[i]? = some p →
    ps[i + n]? = some q → p.slot + n * g ≤ q.slot := by
  intro n
  induction n with
  | zero =>
    intro p q at_i same
    rw [Nat.add_zero, at_i] at same
    cases same
    simp
  | succ n ih =>
    intro p r at_i at_r
    have inside : i + n < ps.length := by
      have last := (List.getElem?_eq_some_iff.1 at_r).1
      omega
    have here := ih p _ at_i (List.getElem?_eq_getElem inside)
    obtain ⟨end_, rfl⟩ := List.getElem?_eq_some_iff.1 at_r
    have next := List.pairwise_iff_getElem.1 spaced (i + n) (i + (n + 1)) inside end_ (by omega)
    calc p.slot + (n + 1) * g = p.slot + n * g + g := by rw [Nat.succ_mul, ← Nat.add_assoc]
      _ ≤ ps[i + n].slot + g := Nat.add_le_add_right here g
      _ ≤ _ := next

/-! ## Nobody is overtaken -/

/-- What was popped since `early` were the entries due no later than `e`: those and what is still there make up `early`. -/
def Overdue (e : Scheduled) (early : List Scheduled) (t : Timed) (qs : List Pop) : Prop :=
  t.world.loop.Ready ∧ e.due < t.clock ∧
    (e ∈ t.world.loop.heap → (qs.map Pop.job ++ t.world.loop.heap.filter fun x => x.due ≤ e.due).Perm early)

theorem Overdue.step {e : Scheduled} {early : List Scheduled} {k : World.Input × Instant} (overdue : Overdue e early t qs)
    (h : Timed.step cfg powf t k = some t') : Overdue e early t' (Timed.pops qs t k t') := by
  obtain ⟨ready, past, waits⟩ := overdue
  obtain ⟨forward, -, ready', beats⟩ := step_beat h ready
  refine ⟨ready', past.trans_le forward, ?_⟩
  unfold Timed.pops
  revert beats
  generalize t.world.loop.popped k.1 k.2 = new
  intro beats
  cases beats with
  | rests heap next =>
    rw [List.append_nil, heap]
    exact waits
  | @schedules new heap late next =>
    have later : ∀ x ∈ new, e.due < x.due := by
      intro x mem
      obtain ⟨d, due⟩ := late x mem
      exact past.trans_le ((Nat.le_add_right _ _).trans due)
    rw [List.append_nil, heap, List.filter_append]
    intro mem
    have old : e ∈ t.world.loop.heap := by
      rcases List.mem_append.1 mem with pushed | old
      · exact absurd (later e pushed) (lt_irrefl _)
      · exact old
    have none_early : (new.filter fun x => x.due ≤ e.due) = [] := by
      apply List.filter_eq_nil_iff.2
      intro x pushed due
      exact absurd (later x pushed) (not_lt.2 (of_decide_eq_true due))
    rw [none_early, List.nil_append]
    exact waits old
  | @pops startAt job throttled least heap next timer =>
    intro mem
    have old : e ∈ t.world.loop.heap := heap.subset (List.mem_cons_of_mem job mem)
    have split := heap.filter fun x => decide (x.due ≤ e.due)
    have first : ((job :: t'.world.loop.heap).filter fun x => decide (x.due ≤ e.due)) =
        job :: t'.world.loop.heap.filter fun x => decide (x.due ≤ e.due) := by
      apply List.filter_cons_of_pos
      exact decide_eq_true (least e old)
    rw [first] at split
    rw [List.map_append, List.append_assoc]
    exact (split.append_left (qs.map Pop.job)).trans (waits old)

/-- **The re-checks are on time**, whatever the rest of the system does, however long the steps, sleeps and checks take, and whatever
the jitter. Nothing is popped before it is due, and the slots of the token bucket are a gap apart and never later than the
pop. The dues come in order, and an address does not come twice within the least delay. What the loop is about to pop is
there. And an address that is overdue waits only for addresses due no later, each once. -/
theorem rechecks_on_time (sys : Sys) (begun : Instant) {is : List (World.Input × Instant)}
    (h : run (noting (Timed.step cfg powf) Timed.pops) (⟨⟨sys, State.start begun⟩, begun⟩, []) is = some (t, ps)) :
    (∀ p ∈ ps, begun ≤ p.slot ∧ p.job.due ≤ p.slot ∧ p.slot ≤ p.time ∧ p.time ≤ t.clock) ∧
    (∀ i n p q, ps[i]? = some p → ps[i + n]? = some q → p.slot + n * gap cfg ≤ q.slot) ∧
    (ps.Pairwise fun p q => p.job.due ≤ q.job.due ∧ (p.job.key = q.job.key → p.time + leastDelay cfg ≤ q.job.due)) ∧
    (∀ startAt, t.world.loop.phase = .throttled startAt → ∃ k job rest, popAt t.world.loop.heap k = some (job, rest)) ∧
    ∀ e, e.due < t.clock → ∀ js u qs, run (noting (Timed.step cfg powf) Timed.pops) (t, []) js = some (u, qs) →
      e ∈ u.world.loop.heap → qs.length < t.world.loop.heap.countP fun x => x.due ≤ e.due := by
  have timely : Timely cfg begun t ps := by
    refine run_preserves (P := fun x : Timed × List Pop => Timely cfg begun x.1 x.2) ?_ (Timely.start begun sys) h
    intro x k y timely next
    obtain ⟨moved, noted⟩ := noting_eq next
    rw [noted]
    exact timely.step moved
  refine ⟨timely.popped, fun i => spaced_slots timely.spaced i, timely.ordered, ?_, ?_⟩
  · intro startAt throttled
    have ready := timely.ready
    rw [State.Ready, throttled] at ready
    obtain ⟨-, due, first, -⟩ := ready
    exact exists_popAt first
  · intro e past js u qs ran still
    have overdue : Overdue e (t.world.loop.heap.filter fun x => x.due ≤ e.due) u qs := by
      refine run_preserves (P := fun x : Timed × List Pop => Overdue e _ x.1 x.2) ?_ ⟨timely.ready, past, fun _ => .refl _⟩ ran
      intro x k y overdue next
      obtain ⟨moved, noted⟩ := noting_eq next
      rw [noted]
      exact overdue.step moved
    have count := (overdue.2.2 still).length_eq
    have there : 0 < (u.world.loop.heap.filter fun x => x.due ≤ e.due).length :=
      List.length_pos_of_mem (List.mem_filter.2 ⟨still, decide_eq_true (le_refl _)⟩)
    rw [List.length_append, List.length_map] at count
    rw [List.countP_eq_length_filter]
    omega

/-- The first check of an address, on a clock that stands still but for the sleep. -/
theorem firstCheck_timed (powf : ℚ → ℚ → ℚ) (bounded : cfg.Bounded) {sys : Sys} {a : Addr} (single : sys.pool.addrs = [a])
    (now : Instant) (draw : Draw) :
    let due := now + jitter cfg.minInterval draw
    (run (noting (Timed.step cfg powf) Timed.pops) (⟨⟨sys, State.start now⟩, now⟩, [])
      ((firstCheck cfg now draw).zip [now, now, due, due])).map Prod.snd = some [⟨due, ⟨due, a⟩, due⟩] := by
  simp [firstCheck, run, noting, Timed.step, Timed.pops, World.OnTime, OnTime, State.timer, State.popped, World.stepIn, stepIn,
    panicsIn_of_bounded bounded, turnIn, enrollAll, enroll, single, popAt, State.start]

/-- A proxy is enrolled and popped at the slot it is due. -/
theorem rechecks_on_time_first_check : ∃ is t p,
    run (noting (Timed.step .default fun _ _ => 1) Timed.pops)
      (⟨⟨Sys.fromProxies none [httpProxy 80] .default, State.start 0⟩, 0⟩, []) is = some (t, [p]) ∧ p.job.due ≤ p.slot ∧ p.slot ≤ p.time := by
  have single : (Sys.fromProxies none [httpProxy 80] .default).pool.addrs = [(httpProxy 80).addr] := rfl
  obtain ⟨⟨t, ps⟩, ended, popped⟩ := Option.map_eq_some_iff.1
    (firstCheck_timed (fun _ _ => 1) RecheckConfig.default_bounded single 0 ⟨0, by norm_num⟩)
  subst popped
  obtain ⟨-, due, slept, -⟩ := (rechecks_on_time _ 0 ended).1 _ (List.mem_singleton_self _)
  exact ⟨_, t, _, ended, due, slept⟩

end ProxyBroker.Scheduler
