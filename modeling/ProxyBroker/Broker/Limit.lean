import Mathlib.Data.ENat.Lattice
import Mathlib.Data.Set.Card
import ProxyBroker.Broker.Progress

/-!
# What the consumer receives under a limit

No item is sent twice, nothing is sent that does not pass, and at most `limit` items are sent. When the stream ends, it is
the smaller of the limit and the number of passing items that was received (`limit_exact`), unless the consumer went
away. With more permits than `MAX_PERMITS` the driver panics and the stream is empty.
-/

namespace ProxyBroker.Broker
open Lib

variable {job : Job} {k : Nat} {ph : Phase} {s : State}

/-! ## What was emitted -/

theorem Phase.history_of_sent {v : Verdict} {p : Proxy} (mem : Event.sent k p ∈ ph.history job k v) :
    ph.outcome = some .sent ∧ ph.history job k v = looked job k v ++ [.sent k v.proxy] := by
  have never : Event.sent k p ∉ looked job k v := by
    unfold looked
    cases job.onChecked <;> simp
  have ends {o : Outcome} (mem : Event.sent k p ∈ (Phase.left o).history job k v) : o = .sent := by
    cases o with
    | sent => rfl
    | aborted => cases mem
    | _ => exact absurd mem never
  cases ph with
  | checking q => cases mem
  | recording w => cases mem
  | observing w => simp [history] at mem
  | filtering w => exact absurd mem never
  | reserving q => exact absurd mem never
  | sending q n => exact absurd mem never
  | cancelling o => rw [ends mem]; exact ⟨rfl, rfl⟩
  | finishing o => rw [ends mem]; exact ⟨rfl, rfl⟩
  | leaving o => rw [ends mem]; exact ⟨rfl, rfl⟩
  | left o => rw [ends mem]; exact ⟨rfl, rfl⟩

/-- The events of an item that was sent: its record, its observer call if there is an observer, the send. -/
theorem looked_split {v : Verdict} {p : Proxy} {before after : List Event}
    (h : looked job k v ++ [.sent k v.proxy] = before ++ .sent k p :: after) : before = looked job k v ∧ p = v.proxy ∧ after = [] := by
  have no_sent : ∀ e ∈ looked job k v, ∀ q, e ≠ .sent k q := by
    unfold looked
    cases job.onChecked <;> simp
  rcases List.append_eq_append_iff.1 h with ⟨more, split, rest⟩ | ⟨more, split, rest⟩
  · cases more with
    | nil =>
      cases rest
      exact ⟨by simpa using split, rfl, rfl⟩
    | cons e more =>
      obtain ⟨-, none_left⟩ := List.cons.inj rest
      simp at none_left
  · cases more with
    | nil =>
      cases rest
      exact ⟨by simpa using split.symm, rfl, rfl⟩
    | cons e more =>
      obtain ⟨rfl, -⟩ := List.cons.inj rest
      exact absurd rfl (no_sent _ (by simp [split]) p)

/-- **What was sent** was recorded, and observed if there is an observer, once before the send and never
after it, and it is an item that passes. -/
theorem Invariant.sent_once (inv : Invariant job s) {p : Proxy} {before after : List Event}
    (log : s.shared.log = before ++ .sent k p :: after) :
    ∃ q, job.source.get? k = some q ∧ p = (job.check k q).proxy ∧ job.passes (job.check k q) = true ∧
      (before.filter fun e => e.item = k) = looked job k (job.check k q) ∧ (after.filter fun e => e.item = k) = [] := by
  have about : s.shared.about k = (before.filter fun e => e.item = k) ++ .sent k p :: (after.filter fun e => e.item = k) := by
    simp [Shared.about, log, Event.item]
  have inside : k < s.tasks.length := by
    by_contra beyond
    rw [inv.fresh k (Nat.le_of_not_lt beyond)] at about
    simp at about
  obtain ⟨q, item, sound, history⟩ := inv.works k _ (List.getElem?_eq_getElem inside)
  obtain ⟨out, sent⟩ := Phase.history_of_sent (p := p) (by rw [← history, about]; simp)
  obtain ⟨first, rfl, last⟩ := looked_split (sent.symm.trans (history.symm.trans about))
  refine ⟨q, item, rfl, ?_, first, last⟩
  revert sound out
  generalize s.tasks[k] = ph
  cases ph with
  | cancelling o => rintro ⟨sound, -⟩ out; cases out; exact sound
  | finishing o => intro sound out; cases out; exact sound
  | leaving o => intro sound out; cases out; exact sound
  | left o => intro sound out; cases out; exact sound
  | _ => intro _ out; cases out

/-- How often item `k` was sent. -/
theorem count_emissions (log : List Event) (k : Nat) :
    ((log.filterMap Event.sent?).map Prod.fst).count k = (log.filter fun e => e.item = k).countP fun e => e.sent?.isSome := by
  induction log with
  | nil => rfl
  | cons e log ih =>
    by_cases own : e.item = k
    · rw [List.filter_cons_of_pos (by simpa using own)]
      cases e with
      | sent j p =>
        have same : j = k := own
        rw [List.countP_cons_of_pos rfl, ← ih, same]
        exact List.count_cons_self
      | _ => exact ih
    · rw [List.filter_cons_of_neg (by simpa using own), ← ih]
      cases e with
      | sent j p =>
        have ne : j ≠ k := own
        exact List.count_cons_of_ne ne
      | _ => rfl

/-- **No item is sent twice.** -/
theorem Invariant.nodup (inv : Invariant job s) : (s.shared.emissions.map Prod.fst).Nodup := by
  rw [List.nodup_iff_count_le_one]
  intro k
  rw [Shared.emissions, count_emissions, ← Shared.about]
  by_cases inside : k < s.tasks.length
  · obtain ⟨q, -, -, history⟩ := inv.works k _ (List.getElem?_eq_getElem inside)
    rw [history]
    by_cases sent : ∃ p, Event.sent k p ∈ s.tasks[k].history job k (job.check k q)
    · obtain ⟨p, mem⟩ := sent
      rw [(Phase.history_of_sent mem).2]
      unfold looked
      cases job.onChecked <;> simp [Event.sent?]
    · rw [List.countP_eq_zero.2]
      · exact Nat.zero_le 1
      · rw [← history]
        intro e mem isSent
        have own : e.item = k := by simpa using (List.mem_filter.1 mem).2
        cases e with
        | sent j p =>
          cases own
          exact sent ⟨p, history ▸ mem⟩
        | _ => cases isSent
  · rw [inv.fresh k (Nat.le_of_not_lt inside)]
    exact Nat.zero_le 1

/-! ## The limit -/

/-- The items of the source that pass the check and the filter. -/
def Job.passing (job : Job) : Set Nat := {k | ∃ p, job.source.get? k = some p ∧ job.passes (job.check k p) = true}

/-- The limit, `⊤` when there is none. -/
def Job.bound (job : Job) : ℕ∞ :=
  match job.limit with
  | none => ⊤
  | some l => l

/-- A check that reserved is that of an item that passes. -/
theorem Phase.Works.passes {sh : Shared} (works : ph.Works job sh k) (reserved : ph.reserved = true) : k ∈ job.passing := by
  obtain ⟨p, item, sound, -⟩ := works
  have ends {o : Outcome} (sound : o.Sound job sh (job.check k p)) (out : o = .refused ∨ o = .sent ∨ o = .undelivered) :
      job.passes (job.check k p) = true := by
    rcases out with rfl | rfl | rfl
    · exact sound
    · exact sound
    · exact sound.1
  refine ⟨p, item, ?_⟩
  cases ph with
  | sending q n => exact sound.2.1
  | cancelling o => exact ends sound.1 (by simpa [Phase.reserved, Phase.outcome] using reserved)
  | finishing o => exact ends sound (by simpa [Phase.reserved, Phase.outcome] using reserved)
  | leaving o => exact ends sound (by simpa [Phase.reserved, Phase.outcome] using reserved)
  | left o => exact ends sound (by simpa [Phase.reserved, Phase.outcome] using reserved)
  | _ => cases reserved

/-- A check that is over without being cancelled has reserved if its item passes. -/
theorem Phase.Works.reserves {sh : Shared} (works : ph.Works job sh k) (left : ph.isLeft = true) (alive : sh.cancelled = false)
    (passes : k ∈ job.passing) : ph.reserved = true := by
  obtain ⟨p, item, sound, -⟩ := works
  obtain ⟨q, item', passes⟩ := passes
  obtain rfl : p = q := Option.some.inj (item.symm.trans item')
  cases ph with
  | left o =>
    cases o with
    | aborted =>
      have fired : sh.cancelled = true := sound
      rw [alive] at fired
      cases fired
    | rejected =>
      have fails : job.passes (job.check k p) = false := sound
      rw [passes] at fails
      cases fails
    | _ => rfl
  | _ => cases left

theorem Invariant.sent_le (inv : Invariant job s) : (s.shared.sent : ℕ∞) ≤ job.passing.encard := by
  rw [← inv.reserved, ← encard_positions]
  refine Set.encard_le_encard ?_
  rintro k ⟨ph, at_k, reserved⟩
  exact (inv.works k ph at_k).passes reserved

/-- A consumer that reads to the end has received a proxy for every slot that was given out. -/
theorem Invariant.received_length (inv : Invariant job s) (left : s.tasks.all Phase.isLeft = true) (drained : s.shared.channel = [])
    (reading : s.shared.consumer = .reading) : s.shared.received.length = job.slots s.shared.sent := by
  have delivered := inv.delivered reading
  rw [drained, List.append_nil] at delivered
  rw [delivered, ← inv.emitted, ← inv.slotted]
  refine List.countP_congr ?_
  intro ph mem
  obtain ⟨k, at_k⟩ := List.mem_iff_getElem?.1 mem
  obtain ⟨p, -, sound, -⟩ := inv.works k ph at_k
  have gone := List.all_eq_true.1 left ph mem
  cases ph with
  | left o =>
    cases o with
    | undelivered => exact absurd reading sound.2
    | _ => rfl
  | _ => cases gone

/-- **The limit is met exactly** at the end of a run with a consumer that reads. -/
theorem Invariant.exact (inv : Invariant job s) (ended : s.driver = .ended) (drained : s.shared.channel = [])
    (reading : s.shared.consumer = .reading) : (s.shared.received.length : ℕ∞) = min job.bound job.passing.encard := by
  have driver := inv.driver
  rw [State.DriverSound, ended] at driver
  obtain ⟨stopped, left⟩ := driver
  have sent_le := inv.sent_le
  rw [inv.received_length left drained reading]
  cases full : job.full s.shared.sent with
  | true =>
    cases limit : job.limit with
    | none => simp [Job.full, limit] at full
    | some l =>
      have reached : l ≤ s.shared.sent := by simpa [Job.full, limit] using full
      have below : (l : ℕ∞) ≤ job.passing.encard := le_trans (by exact_mod_cast reached) sent_le
      simp only [Job.slots, Job.bound, limit, Nat.min_eq_left reached]
      exact (min_eq_left below).symm
  | false =>
    -- the token has not fired, so the driver has spawned every item, and every check ran to its end
    have alive : s.shared.cancelled = false := by
      apply eq_false_of_ne_true
      intro fired
      rcases inv.token fired with dropped | isFull
      · rw [reading] at dropped
        cases dropped
      · rw [full] at isFull
        cases isFull
    have exhausted : job.source.get? s.tasks.length = none := by
      rcases stopped with fired | isFull | none_left
      · rw [alive] at fired
        cases fired
      · rw [full] at isFull
        cases isFull
      · exact none_left
    have all : job.passing = positions s.tasks Phase.reserved := by
      ext k
      constructor
      · intro passes
        have inside : k < s.tasks.length := by
          by_contra beyond
          obtain ⟨p, item, -⟩ := passes
          rw [job.source.le_stable (Nat.le_of_not_lt beyond) exhausted] at item
          cases item
        have at_k := List.getElem?_eq_getElem inside
        exact ⟨_, at_k, (inv.works k _ at_k).reserves (List.all_eq_true.1 left _ (List.getElem_mem inside)) alive passes⟩
      · rintro ⟨ph, at_k, reserved⟩
        exact (inv.works k ph at_k).passes reserved
    rw [all, encard_positions, inv.reserved]
    cases limit : job.limit with
    | none => simp [Job.slots, Job.bound, limit]
    | some l =>
      have below : s.shared.sent ≤ l := by
        have under : s.shared.sent < l := by simpa [Job.full, limit] using full
        exact under.le
      simp only [Job.slots, Job.bound, limit, Nat.min_eq_right below]
      exact (min_eq_right (by exact_mod_cast below)).symm

/-- **The limit of the check pipeline**, for every source, limit, verdicts and interleaving, and every
`max_conn` that `Semaphore::new` takes. In every state at most `max_conn` checks hold a permit, no item was
sent twice, and what was sent passes and was recorded and observed exactly once, before the send. When the
stream has ended and was read to its end, it yielded as many proxies as pass, up to the limit. The stream
of a finite source does end. -/
theorem limit_exact {is : List Input} (fits : job.maxConn ≤ maxPermits) (h : run (step job) (start job) is = some s) :
    s.tasks.countP Phase.holding ≤ job.maxConn ∧ (s.shared.emissions.map Prod.fst).Nodup ∧
    (∀ k p before after, s.shared.log = before ++ .sent k p :: after →
      ∃ q, job.source.get? k = some q ∧ p = (job.check k q).proxy ∧ job.passes (job.check k q) = true ∧
        (before.filter fun e => e.item = k) = looked job k (job.check k q) ∧ (after.filter fun e => e.item = k) = []) ∧
    (s.final → s.shared.consumer = .reading →
      s.shared.received = s.shared.emissions ∧ (s.shared.received.length : ℕ∞) = min job.bound job.passing.encard) ∧
    (0 < job.maxConn → (∃ n, job.source.get? n = none) → Inevitably (attended job) State.final (start job)) := by
  have inv := run_invariant h
  refine ⟨?_, inv.nodup, fun k p before after log => inv.sent_once log, ?_, fun room ⟨n, finite⟩ => ends_inevitably finite room⟩
  · rw [← inv.permits]
    exact Nat.le_add_left _ _
  · rintro ⟨isOver, drained⟩ reading
    have delivered := inv.delivered reading
    rw [drained, List.append_nil] at delivered
    rcases isOver with ended | panicked
    · exact ⟨delivered, inv.exact ended drained reading⟩
    · have driver := inv.driver
      rw [State.DriverSound, panicked] at driver
      exact absurd fits (Nat.not_le.2 driver.1)

/-- Two checks run, one takes the only slot and the other is cancelled. -/
def racing : List Input :=
  [.pull, .drive, .drive, .drive, .pull, .drive, .drive, .drive] ++ List.replicate 7 (.advance 0) ++
    [.cancelled 1, .advance 0, .advance 0, .advance 1, .advance 1, .pull, .drive, .receive]

theorem limit_exact_racing :
    ∃ s, run (step (passingJob [httpProxy 80, httpProxy 81] 2 (some 1))) (start (passingJob [httpProxy 80, httpProxy 81] 2 (some 1)))
        racing = some s ∧ s.driver = .ended ∧
      (s.shared.received.length : ℕ∞) = min 1 (passingJob [httpProxy 80, httpProxy 81] 2 (some 1)).passing.encard := by
  obtain ⟨s, ran, ended, drained, reading⟩ : ∃ s,
      run (step (passingJob [httpProxy 80, httpProxy 81] 2 (some 1))) (start (passingJob [httpProxy 80, httpProxy 81] 2 (some 1)))
        racing = some s ∧ s.driver = .ended ∧ s.shared.channel = [] ∧ s.shared.consumer = .reading := ⟨_, rfl, rfl, rfl, rfl⟩
  obtain ⟨-, -, -, at_end, -⟩ := limit_exact (by decide) ran
  exact ⟨s, ran, ended, (at_end ⟨Or.inl ended, drained⟩ reading).2⟩

/-- `Semaphore::new` panics on `2 ^ 61`: the stream ends empty. -/
theorem limit_missed_above_max_permits :
    ¬ ∀ (job : Job) (is : List Input) (s : State), 1 ≤ job.maxConn → job.maxConn < 2 ^ 64 → run (step job) (start job) is = some s →
      s.final → s.shared.consumer = .reading → (s.shared.received.length : ℕ∞) = min job.bound job.passing.encard := by
  intro general
  have empty := general (passingJob [httpProxy 80] (2 ^ 61) none) [] (start (passingJob [httpProxy 80] (2 ^ 61) none))
    (by decide) (by decide) rfl ⟨Or.inr rfl, rfl⟩ rfl
  have passes : 0 ∈ (passingJob [httpProxy 80] (2 ^ 61) none).passing := ⟨httpProxy 80, rfl, rfl⟩
  have none_pass : (passingJob [httpProxy 80] (2 ^ 61) none).passing.encard = 0 := by simpa [start, Job.bound, passingJob] using empty.symm
  rw [Set.encard_eq_zero.1 none_pass] at passes
  exact passes

end ProxyBroker.Broker
