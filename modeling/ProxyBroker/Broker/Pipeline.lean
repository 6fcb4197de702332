import Mathlib.Data.Set.Card
import ProxyBroker.Broker.CheckStream
import ProxyBroker.Lib.Count

/-!
# The invariant of the check pipeline

What a phase of a check says about the counters and the log: whether it has its permit, a reservation, a slot
under the limit, and what it has logged so far. `Invariant` sums this up over the checks of a state. A step moves
one check or the driver, and `run_invariant` follows from that.
-/

namespace ProxyBroker.Broker
open Lib

/-! ## What a phase says about the counters -/

namespace Phase

/-- The check has its permit. -/
def holding : Phase → Bool
  | .leaving _ | .left _ => false
  | _ => true

/-- How the check ended, once it did. -/
def outcome : Phase → Option Outcome
  | .cancelling o | .finishing o | .leaving o | .left o => some o
  | _ => none

/-- The check has raised `sent`. -/
def reserved : Phase → Bool
  | .sending _ _ => true
  | ph => ph.outcome = some .refused ∨ ph.outcome = some .sent ∨ ph.outcome = some .undelivered

/-- The check got a slot under the limit. -/
def slotted : Phase → Bool
  | .sending _ _ => true
  | ph => ph.outcome = some .sent ∨ ph.outcome = some .undelivered

/-- The check has sent its proxy. -/
def emitted (ph : Phase) : Bool := ph.outcome = some .sent

end Phase

/-- How many of `n` reservations are under the limit. -/
def Job.slots (job : Job) (n : Nat) : Nat :=
  match job.limit with
  | none => n
  | some l => min l n

theorem Job.slots_succ (job : Job) (n : Nat) : job.slots (n + 1) = if job.full n then job.slots n else job.slots n + 1 := by
  unfold slots full
  cases job.limit with
  | none => simp
  | some l =>
    by_cases reached : l ≤ n
    · simp [reached]
      omega
    · simp [reached]
      omega

theorem Job.full_mono {job : Job} {m n : Nat} (le : m ≤ n) (full : job.full m = true) : job.full n = true := by
  unfold Job.full at full ⊢
  cases limit : job.limit with
  | none => simp [limit] at full
  | some l =>
    simp only [limit, Option.any_some, decide_eq_true_eq] at full ⊢
    exact full.trans le

/-- The item of a send. -/
def Event.sent? : Event → Option (Nat × Proxy)
  | .sent k p => some (k, p)
  | _ => none

/-- What was sent, in order. -/
def Shared.emissions (sh : Shared) : List (Nat × Proxy) := sh.log.filterMap Event.sent?

@[simp] theorem Shared.emissions_append (sh : Shared) (es : List Event) :
    Shared.emissions { sh with log := sh.log ++ es } = sh.emissions ++ es.filterMap Event.sent? := by
  simp [emissions]

variable {job : Job} {k : Nat} {sh sh' : Shared} {ph ph' : Phase}

/-- **The counters move with the phase** of the check that moves. -/
structure Moves (job : Job) (sh : Shared) (ph : Phase) (sh' : Shared) (ph' : Phase) : Prop where
  permits : sh'.permits + ph'.holding.toNat = sh.permits + ph.holding.toNat
  reserved : sh'.sent + ph.reserved.toNat = sh.sent + ph'.reserved.toNat
  slotted : job.slots sh'.sent + ph.slotted.toNat = job.slots sh.sent + ph'.slotted.toNat
  emitted : sh'.emissions.length + ph.emitted.toNat = sh.emissions.length + ph'.emitted.toNat
  delivered : sh.received ++ sh.channel = sh.emissions → sh'.received ++ sh'.channel = sh'.emissions
  consumer : sh'.consumer = sh.consumer

theorem afterSend_cases (job : Job) (n : Nat) (o : Outcome) :
    (job.full (n + 1) = true ∧ afterSend job n o = .cancelling o) ∨ afterSend job n o = .finishing o := by
  unfold afterSend
  split
  · rename_i full
    exact Or.inl ⟨full, rfl⟩
  · exact Or.inr rfl

/-- A move that neither reserves nor sends. -/
theorem Moves.quiet (permits : sh'.permits + ph'.holding.toNat = sh.permits + ph.holding.toNat) (sent : sh'.sent = sh.sent)
    (emissions : sh'.emissions = sh.emissions) (channel : sh'.received ++ sh'.channel = sh.received ++ sh.channel)
    (consumer : sh'.consumer = sh.consumer) (reserved : ph'.reserved = ph.reserved) (slotted : ph'.slotted = ph.slotted)
    (emitted : ph'.emitted = ph.emitted) : Moves job sh ph sh' ph' where
  permits := permits
  reserved := by rw [sent, reserved]
  slotted := by rw [sent, slotted]
  emitted := by rw [emissions, emitted]
  delivered := by rw [channel, emissions]; exact id
  consumer := consumer

theorem advance_moves (h : advance job k sh ph = some (sh', ph')) : Moves job sh ph sh' ph' := by
  cases ph with
  | checking p =>
    cases h
    exact Moves.quiet rfl rfl rfl rfl rfl rfl rfl rfl
  | recording v =>
    cases h
    exact Moves.quiet rfl rfl (by simp [Event.sent?]) rfl rfl rfl rfl rfl
  | observing v =>
    cases h
    refine Moves.quiet rfl rfl ?_ rfl rfl rfl rfl rfl
    cases job.onChecked <;> simp [Event.sent?]
  | filtering v =>
    cases h
    cases job.passes v <;> exact Moves.quiet rfl rfl rfl rfl rfl rfl rfl rfl
  | reserving p =>
    cases h
    have slots := job.slots_succ sh.sent
    cases full : job.full sh.sent with
    | true =>
      rw [full, if_pos rfl] at slots
      exact ⟨rfl, rfl, slots, rfl, id, rfl⟩
    | false =>
      rw [full, if_neg Bool.false_ne_true] at slots
      exact ⟨rfl, rfl, slots, rfl, id, rfl⟩
  | sending p n =>
    simp only [advance] at h
    split at h
    · cases h
      rcases afterSend_cases job n .undelivered with ⟨-, eq⟩ | eq
      · rw [eq]
        exact Moves.quiet rfl rfl rfl rfl rfl rfl rfl rfl
      · rw [eq]
        exact Moves.quiet rfl rfl rfl rfl rfl rfl rfl rfl
    · split at h
      · cases h
        have emissions : Shared.emissions { sh with channel := sh.channel ++ [(k, p)], log := sh.log ++ [.sent k p] } =
            sh.emissions ++ [(k, p)] := by simp [Shared.emissions, Event.sent?]
        have delivered (before : sh.received ++ sh.channel = sh.emissions) :
            sh.received ++ (sh.channel ++ [(k, p)]) = sh.emissions ++ [(k, p)] := by
          rw [← List.append_assoc, before]
        rcases afterSend_cases job n .sent with ⟨-, eq⟩ | eq
        · rw [eq]
          exact ⟨rfl, rfl, rfl, by rw [emissions, List.length_append]; rfl, fun before => (delivered before).trans emissions.symm, rfl⟩
        · rw [eq]
          exact ⟨rfl, rfl, rfl, by rw [emissions, List.length_append]; rfl, fun before => (delivered before).trans emissions.symm, rfl⟩
      · cases h
  | cancelling o =>
    cases h
    exact Moves.quiet rfl rfl rfl rfl rfl rfl rfl rfl
  | finishing o =>
    cases h
    exact Moves.quiet rfl rfl rfl rfl rfl rfl rfl rfl
  | leaving o =>
    cases h
    exact Moves.quiet rfl rfl rfl rfl rfl rfl rfl rfl
  | left o => cases h

/-! ## What a check has done -/

/-- The item an event is about. -/
def Event.item : Event → Nat
  | .recorded k _ | .observed k _ | .sent k _ => k

/-- What the log says about item `k`, in order. -/
def Shared.about (sh : Shared) (k : Nat) : List Event := sh.log.filter fun e => e.item = k

theorem Shared.about_own {es : List Event} (log : sh'.log = sh.log ++ es) (own : ∀ e ∈ es, e.item = k) :
    sh'.about k = sh.about k ++ es := by
  rw [about, log, List.filter_append, ← about, List.filter_eq_self.2]
  simpa using own

/-- What is done with every checked proxy. -/
def looked (job : Job) (k : Nat) (v : Verdict) : List Event :=
  .recorded k v.proxy :: if job.onChecked then [.observed k v.proxy] else []

/-- What was done with item `k`, by where its check stands. -/
def Phase.history (job : Job) (k : Nat) (v : Verdict) : Phase → List Event
  | .checking _ | .recording _ => []
  | .observing _ => [.recorded k v.proxy]
  | .filtering _ | .reserving _ | .sending _ _ => looked job k v
  | .cancelling o | .finishing o | .leaving o | .left o =>
    match o with
    | .aborted => []
    | .sent => looked job k v ++ [.sent k v.proxy]
    | _ => looked job k v

/-- Why a check ended as it did. -/
def Outcome.Sound (job : Job) (sh : Shared) (v : Verdict) : Outcome → Prop
  | .aborted => sh.cancelled = true
  | .rejected => job.passes v = false
  | .refused | .sent => job.passes v = true
  | .undelivered => job.passes v = true ∧ sh.consumer ≠ .reading

/-- What a check works with: the item `p` and its verdict `v`. -/
def Phase.Sound (job : Job) (sh : Shared) (p : Proxy) (v : Verdict) : Phase → Prop
  | .checking q => q = p
  | .recording w | .observing w | .filtering w => w = v
  | .reserving q => q = v.proxy ∧ job.passes v = true
  | .sending q n => q = v.proxy ∧ job.passes v = true ∧ n < sh.sent
  | .cancelling o => o.Sound job sh v ∧ job.full sh.sent = true
  | .finishing o | .leaving o | .left o => o.Sound job sh v

/-- Check `k` works on item `k`, and the log says so. -/
def Phase.Works (job : Job) (sh : Shared) (k : Nat) (ph : Phase) : Prop :=
  ∃ p, job.source.get? k = some p ∧ ph.Sound job sh p (job.check k p) ∧ sh.about k = ph.history job k (job.check k p)

/-- What never goes back. -/
structure Shared.Grows (sh sh' : Shared) : Prop where
  sent : sh.sent ≤ sh'.sent
  cancelled : sh.cancelled = true → sh'.cancelled = true
  consumer : sh.consumer ≠ .reading → sh'.consumer ≠ .reading

theorem Shared.Grows.refl (sh : Shared) : sh.Grows sh := ⟨le_refl _, id, id⟩

theorem Outcome.Sound.mono {v : Verdict} {o : Outcome} (sound : o.Sound job sh v) (grows : sh.Grows sh') : o.Sound job sh' v := by
  cases o with
  | aborted => exact grows.cancelled sound
  | undelivered => exact ⟨sound.1, grows.consumer sound.2⟩
  | rejected => exact sound
  | refused => exact sound
  | sent => exact sound

theorem Phase.Sound.mono {p : Proxy} {v : Verdict} (sound : ph.Sound job sh p v) (grows : sh.Grows sh') :
    ph.Sound job sh' p v := by
  cases ph with
  | sending q n => exact ⟨sound.1, sound.2.1, sound.2.2.trans_le grows.sent⟩
  | cancelling o => exact ⟨sound.1.mono grows, Job.full_mono grows.sent sound.2⟩
  | finishing o => exact Outcome.Sound.mono sound grows
  | leaving o => exact Outcome.Sound.mono sound grows
  | left o => exact Outcome.Sound.mono sound grows
  | _ => exact sound

/-- A check is not touched by what others do. -/
theorem Phase.Works.others (works : ph.Works job sh k) (grows : sh.Grows sh') (about : sh'.about k = sh.about k) :
    ph.Works job sh' k := by
  obtain ⟨p, item, sound, log⟩ := works
  exact ⟨p, item, sound.mono grows, about.trans log⟩

theorem advance_grows (h : advance job k sh ph = some (sh', ph')) : sh.Grows sh' := by
  cases ph with
  | sending p n =>
    simp only [advance] at h
    split at h
    · cases h
      exact Shared.Grows.refl sh
    · split at h
      · cases h
        exact ⟨le_refl _, id, id⟩
      · cases h
  | reserving p =>
    cases h
    exact ⟨Nat.le_succ _, id, id⟩
  | cancelling o =>
    cases h
    exact ⟨le_refl _, fun _ => rfl, id⟩
  | left o => cases h
  | _ =>
    cases h
    exact ⟨le_refl _, id, id⟩

/-- A check writes about its own item only. -/
theorem advance_about (h : advance job k sh ph = some (sh', ph')) {j : Nat} (other : j ≠ k) : sh'.about j = sh.about j := by
  cases ph with
  | recording v =>
    cases h
    simp [Shared.about, Event.item, Ne.symm other]
  | observing v =>
    cases h
    cases job.onChecked <;> simp [Shared.about, Event.item, Ne.symm other]
  | sending p n =>
    simp only [advance] at h
    split at h
    · cases h
      rfl
    · split at h
      · cases h
        simp [Shared.about, Event.item, Ne.symm other]
      · cases h
  | left o => cases h
  | _ =>
    cases h
    rfl

/-- **A step of a check.** -/
theorem advance_works (h : advance job k sh ph = some (sh', ph')) (works : ph.Works job sh k) : ph'.Works job sh' k := by
  obtain ⟨p, item, sound, log⟩ := works
  have grows := advance_grows h
  refine ⟨p, item, ?_⟩
  cases ph with
  | checking q =>
    cases h
    cases sound
    exact ⟨rfl, log⟩
  | recording w =>
    cases h
    cases sound
    refine ⟨rfl, ?_⟩
    rw [Shared.about_own rfl (by simp [Event.item]), log]
    rfl
  | observing w =>
    cases h
    cases sound
    refine ⟨rfl, ?_⟩
    cases seen : job.onChecked with
    | true =>
      rw [Shared.about_own rfl (by simp [Event.item]), log]
      simp [Phase.history, looked, seen]
    | false =>
      rw [Shared.about_own rfl (by simp), log]
      simp [Phase.history, looked, seen]
  | filtering w =>
    cases h
    cases sound
    cases passes : job.passes (job.check k p) with
    | true => exact ⟨⟨rfl, passes⟩, log⟩
    | false => exact ⟨passes, log⟩
  | reserving q =>
    cases h
    obtain ⟨rfl, passes⟩ := sound
    cases full : job.full sh.sent with
    | true => exact ⟨⟨passes, Job.full_mono (Nat.le_succ _) full⟩, log⟩
    | false => exact ⟨⟨rfl, passes, Nat.lt_succ_self _⟩, log⟩
  | sending q n =>
    obtain ⟨rfl, passes, below⟩ := sound
    simp only [advance] at h
    split at h
    · rename_i gone
      cases h
      rcases afterSend_cases job n .undelivered with ⟨full, eq⟩ | eq
      · rw [eq]
        exact ⟨⟨⟨passes, gone⟩, Job.full_mono below full⟩, log⟩
      · rw [eq]
        exact ⟨⟨passes, gone⟩, log⟩
    · split at h
      · cases h
        have own : ∀ e ∈ [Event.sent k (job.check k p).proxy], e.item = k := by simp [Event.item]
        rcases afterSend_cases job n .sent with ⟨full, eq⟩ | eq
        · rw [eq]
          exact ⟨⟨passes, Job.full_mono below full⟩, (Shared.about_own rfl own).trans (by rw [log]; rfl)⟩
        · rw [eq]
          exact ⟨passes, (Shared.about_own rfl own).trans (by rw [log]; rfl)⟩
      · cases h
  | cancelling o =>
    cases h
    exact ⟨sound.1.mono grows, log⟩
  | finishing o =>
    cases h
    exact ⟨sound.mono grows, log⟩
  | leaving o =>
    cases h
    exact ⟨sound, log⟩
  | left o => cases h

/-! ## The invariant -/

variable {s t : State} {i : Input}

/-- Why the driver left its loop. -/
def State.Stopped (job : Job) (s : State) : Prop :=
  s.shared.cancelled = true ∨ job.full s.shared.sent = true ∨ job.source.get? s.tasks.length = none

def State.DriverSound (job : Job) (s : State) : Prop :=
  match s.driver with
  | .pulling => True
  | .testing p | .limiting p => job.source.get? s.tasks.length = some p
  | .acquiring p => job.source.get? s.tasks.length = some p ∧ job.limit ≠ some 0
  | .draining => s.Stopped job
  | .ended => s.Stopped job ∧ s.tasks.all Phase.isLeft = true
  | .panicked => maxPermits < job.maxConn ∧ s.tasks = []

structure Invariant (job : Job) (s : State) : Prop where
  permits : s.shared.permits + s.tasks.countP Phase.holding = job.maxConn
  reserved : s.tasks.countP Phase.reserved = s.shared.sent
  slotted : s.tasks.countP Phase.slotted = job.slots s.shared.sent
  emitted : s.tasks.countP Phase.emitted = s.shared.emissions.length
  delivered : s.shared.consumer = .reading → s.shared.received ++ s.shared.channel = s.shared.emissions
  token : s.shared.cancelled = true → s.shared.consumer = .dropped ∨ job.full s.shared.sent = true
  works : ∀ (k : Nat) (ph : Phase), s.tasks[k]? = some ph → ph.Works job s.shared k
  fresh : ∀ k, s.tasks.length ≤ k → s.shared.about k = []
  driver : s.DriverSound job

theorem inv_start (job : Job) : Invariant job (start job) where
  permits := by simp [start]
  reserved := rfl
  slotted := by cases limit : job.limit <;> simp [start, Job.slots, limit]
  emitted := rfl
  delivered := fun _ => rfl
  token := fun h => by cases h
  works := fun k ph h => by cases h
  fresh := fun _ _ => rfl
  driver := by
    unfold State.DriverSound start
    by_cases fits : job.maxConn ≤ maxPermits
    · simp [fits]
    · simpa [fits] using Nat.lt_of_not_le fits

/-- The token is fired by a check only when the limit is reached. -/
theorem advance_token (h : advance job k sh ph = some (sh', ph')) (works : ph.Works job sh k) :
    sh'.cancelled = true → sh.cancelled = true ∨ job.full sh'.sent = true := by
  intro fired
  cases ph with
  | sending p n =>
    simp only [advance] at h
    split at h
    · cases h
      exact Or.inl fired
    · split at h
      · cases h
        exact Or.inl fired
      · cases h
  | cancelling o =>
    obtain ⟨p, -, sound, -⟩ := works
    cases h
    exact Or.inr sound.2
  | left o => cases h
  | _ =>
    cases h
    exact Or.inl fired

/-- A check moves: the shared state and its phase change together. -/
theorem Invariant.move (inv : Invariant job s) (at_k : s.tasks[k]? = some ph) (running : ph.isLeft = false)
    (moves : Moves job s.shared ph sh' ph') (grows : s.shared.Grows sh')
    (about : ∀ j, j ≠ k → sh'.about j = s.shared.about j) (works : ph'.Works job sh' k)
    (token : sh'.cancelled = true → s.shared.cancelled = true ∨ job.full sh'.sent = true) :
    Invariant job { s with shared := sh', tasks := s.tasks.set k ph' } := by
  have count (f : Phase → Bool) := countP_set_add at_k f ph'
  constructor
  · have := inv.permits
    have := moves.permits
    have := count Phase.holding
    simp only
    omega
  · have := inv.reserved
    have := moves.reserved
    have := count Phase.reserved
    simp only
    omega
  · have := inv.slotted
    have := moves.slotted
    have := count Phase.slotted
    simp only
    omega
  · have := inv.emitted
    have := moves.emitted
    have := count Phase.emitted
    simp only
    omega
  · intro reading
    exact moves.delivered (inv.delivered (moves.consumer ▸ reading))
  · intro fired
    rcases token fired with before | full
    · rcases inv.token before with dropped | full
      · exact Or.inl (moves.consumer.trans dropped)
      · exact Or.inr (Job.full_mono grows.sent full)
    · exact Or.inr full
  · intro j other at_j
    by_cases same : k = j
    · subst same
      rw [List.getElem?_set_self (List.getElem?_eq_some_iff.1 at_k).1] at at_j
      cases at_j
      exact works
    · rw [List.getElem?_set_ne same] at at_j
      exact (inv.works j other at_j).others grows (about j (Ne.symm same))
  · intro j beyond
    rw [List.length_set] at beyond
    have ne : j ≠ k := by
      rintro rfl
      exact absurd (List.getElem?_eq_some_iff.1 at_k).1 (Nat.not_lt.2 beyond)
    rw [about j ne]
    exact inv.fresh j beyond
  · have driver := inv.driver
    have stopped (st : s.Stopped job) : State.Stopped job { s with shared := sh', tasks := s.tasks.set k ph' } := by
      rcases st with fired | full | none_left
      · exact Or.inl (grows.cancelled fired)
      · exact Or.inr (Or.inl (Job.full_mono grows.sent full))
      · exact Or.inr (Or.inr (by simpa using none_left))
    unfold State.DriverSound at driver ⊢
    cases at_s : s.driver with
    | pulling => trivial
    | testing p => simpa [at_s] using driver
    | limiting p => simpa [at_s] using driver
    | acquiring p => simpa [at_s] using driver
    | draining =>
      rw [at_s] at driver
      exact stopped driver
    | ended =>
      rw [at_s] at driver
      have left := List.all_eq_true.1 driver.2 ph (List.mem_of_getElem? at_k)
      rw [running] at left
      cases left
    | panicked =>
      rw [at_s] at driver
      rw [driver.2] at at_k
      cases at_k

/-- Only the driver moves. -/
theorem Invariant.drives (inv : Invariant job s) {d : Driver} (driver : State.DriverSound job { s with driver := d }) :
    Invariant job { s with driver := d } :=
  { inv with driver := driver }

/-- The consumer moves. -/
theorem Invariant.consumes (inv : Invariant job s) (permits : sh'.permits = s.shared.permits) (sent : sh'.sent = s.shared.sent)
    (log : sh'.log = s.shared.log) (grows : s.shared.Grows sh')
    (delivered : sh'.consumer = .reading → sh'.received ++ sh'.channel = sh'.emissions)
    (token : sh'.cancelled = true → sh'.consumer = .dropped ∨ job.full sh'.sent = true) :
    Invariant job { s with shared := sh' } := by
  have about (j : Nat) : sh'.about j = s.shared.about j := by rw [Shared.about, log, ← Shared.about]
  refine ⟨?_, ?_, ?_, ?_, delivered, token, ?_, ?_, ?_⟩
  · rw [← inv.permits, permits]
  · rw [inv.reserved, sent]
  · rw [inv.slotted, sent]
  · rw [inv.emitted, Shared.emissions, Shared.emissions, log]
  · intro k ph at_k
    exact (inv.works k ph at_k).others grows (about k)
  · intro k beyond
    rw [about k]
    exact inv.fresh k beyond
  · have driver := inv.driver
    have stopped (st : s.Stopped job) : State.Stopped job { s with shared := sh' } := by
      rcases st with fired | full | none_left
      · exact Or.inl (grows.cancelled fired)
      · exact Or.inr (Or.inl (Job.full_mono grows.sent full))
      · exact Or.inr (Or.inr none_left)
    unfold State.DriverSound at driver ⊢
    cases at_s : s.driver with
    | draining =>
      rw [at_s] at driver
      exact stopped driver
    | ended =>
      rw [at_s] at driver
      exact ⟨stopped driver.1, driver.2⟩
    | _ =>
      rw [at_s] at driver
      exact driver

/-- A check is spawned with a permit. -/
theorem Invariant.spawns (inv : Invariant job s) {p : Proxy} (free : 0 < s.shared.permits)
    (item : job.source.get? s.tasks.length = some p) :
    Invariant job ⟨{ s.shared with permits := s.shared.permits - 1 }, .pulling, s.tasks ++ [.checking p]⟩ := by
  refine ⟨?_, ?_, ?_, ?_, inv.delivered, inv.token, ?_, ?_, trivial⟩
  · have := inv.permits
    simp only [List.countP_append, List.countP_singleton, Phase.holding, if_true]
    omega
  · rw [List.countP_append]
    exact inv.reserved
  · rw [List.countP_append]
    exact inv.slotted
  · rw [List.countP_append]
    exact inv.emitted
  · intro k ph at_k
    by_cases old : k < s.tasks.length
    · rw [List.getElem?_append_left old] at at_k
      exact (inv.works k ph at_k).others ⟨le_refl _, id, id⟩ rfl
    · have last : k = s.tasks.length := by
        have inside := (List.getElem?_eq_some_iff.1 at_k).1
        rw [List.length_append, List.length_singleton] at inside
        omega
      subst last
      rw [List.getElem?_concat_length] at at_k
      cases at_k
      exact ⟨p, item, rfl, inv.fresh _ (le_refl _)⟩
  · intro k beyond
    rw [List.length_append] at beyond
    exact inv.fresh k (Nat.le_of_succ_le beyond)

/-- **The invariant is kept** by every step. -/
theorem step_invariant (inv : Invariant job s) (h : step job s i = some t) : Invariant job t := by
  have driver := inv.driver
  unfold State.DriverSound at driver
  cases step_move h with
  | pulled _ item => exact inv.drives item
  | dry _ item => exact inv.drives (Or.inr (Or.inr item))
  | tested at_s =>
    rw [at_s] at driver
    apply inv.drives
    cases fired : s.shared.cancelled with
    | true => exact Or.inl fired
    | false => exact driver
  | limited at_s =>
    rw [at_s] at driver
    apply inv.drives
    cases full : job.full s.shared.sent with
    | true => exact Or.inr (Or.inl full)
    | false =>
      refine ⟨driver, ?_⟩
      intro zero
      simp [Job.full, zero] at full
  | spawned at_s free =>
    rw [at_s] at driver
    exact inv.spawns free driver.1
  | drained at_s left =>
    rw [at_s] at driver
    exact inv.drives ⟨driver, left⟩
  | aborted at_k fired =>
    obtain ⟨q, item, -, log⟩ := inv.works _ _ at_k
    exact inv.move at_k rfl (Moves.quiet rfl rfl rfl rfl rfl rfl rfl rfl) (Shared.Grows.refl _) (fun _ _ => rfl)
      ⟨q, item, fired, log⟩ Or.inl
  | @advanced k ph ph' sh' at_k moved =>
    have works := inv.works k ph at_k
    have running : ph.isLeft = false := by
      cases ph with
      | left o => cases moved
      | _ => rfl
    exact inv.move at_k running (advance_moves moved) (advance_grows moved) (fun j other => advance_about moved other)
      (advance_works moved works) (advance_token moved works)
  | received reading channel =>
    refine inv.consumes rfl rfl rfl ⟨le_refl _, id, id⟩ ?_ inv.token
    intro _
    have before := inv.delivered reading
    rw [channel] at before
    rw [List.append_assoc]
    exact before
  | closed reading =>
    refine inv.consumes rfl rfl rfl ⟨le_refl _, id, fun _ => by simp⟩ (by simp) ?_
    intro fired
    rcases inv.token fired with dropped | full
    · rw [reading] at dropped
      cases dropped
    · exact Or.inr full
  | dropped => exact inv.consumes rfl rfl rfl ⟨le_refl _, fun _ => rfl, fun _ => by simp⟩ (by simp) fun _ => Or.inl rfl

theorem run_invariant {is : List Input} (h : run (step job) (start job) is = some s) : Invariant job s :=
  run_preserves (fun _ _ _ inv next => step_invariant inv next) (inv_start job) h

end ProxyBroker.Broker
