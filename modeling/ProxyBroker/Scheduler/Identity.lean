import ProxyBroker.Scheduler.Recheck

/-!
# What a re-check makes of a proxy's particulars

A check that fails takes every entry of its address out of the pool, and a later check that works pools the fresh
proxy that was probed. So what comes back has no credentials, no country and no ASN, whatever the entry had that was
pulled (`particulars_kept_iff`).

`pulls` is a history variable: the proxies of each address that the loop has last taken out of the pool.
-/

namespace ProxyBroker.Scheduler
open Lib Server Persist

namespace Rechecker
variable {pr : Precision} {cfg : RecheckConfig} {powf : ℚ → ℚ → ℚ} {c : Checker} {net : Checker.Net} {w w' : Rechecker}
  {i : Input} {is : List Input} {a : Addr} {pulled : Addr → List Proxy}

def pool (w : Rechecker) : Pool := w.world.sys.pool

/-- The entries of an address. -/
def entriesAt (pool : Pool) (a : Addr) : List Pooled := pool.state.filter fun e => e.proxy.addr = a

/-- What was pulled, after a step. -/
def pulls (pulled : Addr → List Proxy) (w : Rechecker) (i : Input) (_ : Rechecker) : Addr → List Proxy :=
  match w.world.loop.phase, i with
  | .settling job _ false, .world (.loop (.settle _ _)) =>
    if job.key ∈ w.pool.addrs then Function.update pulled job.key ((entriesAt w.pool job.key).map Pooled.proxy) else pulled
  | _, _ => pulled

/-- Nobody but the loop changes the entries of the pool. -/
def Alone (w : Rechecker) (i : Input) : Prop :=
  ∀ o sys', i = .world (.others o) → w.world.sys.step o = some sys' → sys'.pool.state = w.pool.state

/-- No credentials, no country and no ASN. -/
def Bare (p : Proxy) : Prop := p.auth = none ∧ p.geo = none ∧ p.asn = none

theorem particulars_eq_iff {p : Proxy} (addr : p.addr = a) : p.particulars = ⟨a, none, none, none⟩ ↔ Bare p := by
  simp [Proxy.particulars, Bare, addr]

/-- What was pulled is of its address, what is pooled where something was pulled is bare, and so is what a check
is about to add. -/
structure Stripped (pulled : Addr → List Proxy) (w : Rechecker) : Prop where
  named : ∀ a, ∀ p ∈ pulled a, p.addr = a
  entries : ∀ a, pulled a ≠ [] → ∀ e ∈ w.pool.state, e.proxy.addr = a → e.proxy.particulars = ⟨a, none, none, none⟩
  probed : ∀ job proxy working, w.world.loop.phase = .settling job proxy working →
    proxy.particulars = ⟨job.key, none, none, none⟩

theorem pulls_other (unsettled : ∀ job proxy now draw, w.world.loop.phase = .settling job proxy false →
    i ≠ .world (.loop (.settle now draw))) : pulls pulled w i w' = pulled := by
  unfold pulls
  split
  · rename_i at_s
    exact absurd rfl (unsettled _ _ _ _ at_s)
  · rfl

/-- The entries stay. -/
theorem Stripped.same (stripped : Stripped pulled w) (state : w'.pool.state = w.pool.state)
    (probed : ∀ job proxy working, w'.world.loop.phase = .settling job proxy working →
      proxy.particulars = ⟨job.key, none, none, none⟩) : Stripped pulled w' :=
  ⟨stripped.named, by rw [state]; exact stripped.entries, probed⟩

/-- A check has failed. -/
theorem Stripped.pull {job : Scheduled} {proxy : Proxy} {now : Instant} {draw : Draw} (stripped : Stripped pulled w)
    (settling : w.world.loop.phase = .settling job proxy false) (head : w'.world.loop.phase = .head)
    (removed : w'.pool.state = w.pool.state.filter fun e => e.proxy.addr ≠ job.key) :
    Stripped (pulls pulled w (.world (.loop (.settle now draw))) w') w' := by
  have noted : pulls pulled w (.world (.loop (.settle now draw))) w' =
      if job.key ∈ w.pool.addrs then Function.update pulled job.key ((entriesAt w.pool job.key).map Pooled.proxy) else pulled := by
    simp only [pulls, settling]
  have kept {e : Pooled} (mem : e ∈ w'.pool.state) : e ∈ w.pool.state ∧ e.proxy.addr ≠ job.key := by
    rw [removed] at mem
    simpa using mem
  rw [noted]
  refine ⟨?_, ?_, ?_⟩
  · intro a p mem
    split at mem
    · by_cases here : a = job.key
      · subst here
        rw [Function.update_self] at mem
        obtain ⟨e, listed, rfl⟩ := List.mem_map.1 mem
        simpa using (List.mem_filter.1 listed).2
      · rw [Function.update_of_ne here] at mem
        exact stripped.named a p mem
    · exact stripped.named a p mem
  · intro a some e mem at_a
    obtain ⟨before, other⟩ := kept mem
    have apart : a ≠ job.key := fun same => other (at_a.trans same)
    have some_before : pulled a ≠ [] := by
      split at some
      · rwa [Function.update_of_ne apart] at some
      · exact some
    exact stripped.entries a some_before e before at_a
  · intro job' proxy' working' at_w'
    rw [head] at at_w'
    cases at_w'

/-- A check has worked. -/
theorem Stripped.pooled {job : Scheduled} {proxy : Proxy} (stripped : Stripped pulled w)
    (settling : w.world.loop.phase = .settling job proxy true) (head : w'.world.loop.phase = .head)
    (added : w.world.sys.step (.add proxy) = some w'.world.sys) : Stripped pulled w' := by
  have entries {e : Pooled} (mem : e ∈ w'.pool.state) : e ∈ w.pool.state ∨ e.proxy.particulars = proxy.particulars := by
    obtain ⟨sys, stepped, same⟩ := Sys.step_add w.world.sys proxy
    obtain rfl := Option.some.inj (stepped.symm.trans added)
    have state : w'.pool.state = _ := (congrArg Pool.state same).trans (Pool.add_state _ _)
    rw [state] at mem
    split at mem
    · exact Or.inl mem
    · rcases List.mem_append.1 mem with before | new
      · exact Or.inl before
      · obtain rfl := List.mem_singleton.1 new
        exact Or.inr rfl
  refine ⟨stripped.named, ?_, ?_⟩
  · intro a some e mem at_a
    rcases entries mem with before | new
    · exact stripped.entries a some e before at_a
    · have probed := stripped.probed job proxy true settling
      have same : job.key = a := by
        rw [← at_a]
        exact (congrArg Particulars.addr (new.trans probed)).symm
      rw [new, probed, same]
  · intro job' proxy' working' at_w'
    rw [head] at at_w'
    cases at_w'

/-- Every step but the settling of a check leaves the system alone. -/
theorem step_sys {sys sys' : Sys} {s s' : State} {l : Scheduler.Input} (h : Scheduler.stepIn pr cfg powf sys s l = some (sys', s'))
    (resting : ∀ job proxy working, s.phase ≠ .settling job proxy working) : sys' = sys := by
  cases step_move h with
  | settles now draw at_s called => exact absurd at_s (resting _ _ _)
  | _ => rfl

theorem Stripped.step (stripped : Stripped pulled w) (alone : Alone w i) (h : Rechecker.step pr cfg powf c w i = some w') :
    Stripped (pulls pulled w i w') w' := by
  rcases Rechecker.step_cases h with ⟨net, job, working, rfl, checking, -, sys, loop, -⟩ | ⟨net, rfl, sys, dead, -⟩ |
    ⟨j, rfl, unchecked, moved, -⟩
  · rw [pulls_other (by simp)]
    refine stripped.same (by rw [pool, pool, sys]) ?_
    intro job' proxy working' settling
    rw [loop] at settling
    cases settling
    exact check_fresh_particulars
  · rw [pulls_other (by simp)]
    refine stripped.same (by rw [pool, pool, sys]) ?_
    intro job proxy working settling
    rw [dead] at settling
    cases settling
  · rcases World.stepIn_cases moved with ⟨o, rfl, next, same⟩ | ⟨l, rfl, next⟩
    · rw [pulls_other (by simp)]
      refine stripped.same (alone o w'.world.sys rfl next) ?_
      rw [same]
      exact stripped.probed
    · rcases stepIn_cases next with ⟨job, proxy, working, now, draw, settling, rfl, called, after⟩ | resting
      · have head : w'.world.loop.phase = .head := by
          rw [after, settledIn]
          exact settleWith_phase _ _ _ _ _ _ _
        cases working with
        | true =>
          rw [pulls_other (by simp [settling])]
          exact stripped.pooled settling head called
        | false =>
          have removed : { w.world.sys with shared := w.world.sys.shared.remove job.key } = w'.world.sys := Option.some.inj called
          exact stripped.pull settling head (by rw [pool, ← removed]; rfl)
      · rw [pulls_other fun job proxy now draw at_s => absurd at_s (resting job proxy false)]
        refine stripped.same (by rw [pool, pool, step_sys next resting]) ?_
        intro job proxy working settling
        exact absurd settling (step_unsettled next (fun p b same => unchecked p b (by rw [same])) job proxy working)

theorem stripped_run {sys : Sys} {now : Instant} {store : List (Addr × MemoryStore.Record)}
    (h : run (noting (step pr cfg powf c) pulls) (⟨⟨sys, State.start now⟩, store⟩, fun _ => []) is = some (w, pulled))
    (alone : Along (step pr cfg powf c) Alone ⟨⟨sys, State.start now⟩, store⟩ is) : Stripped pulled w := by
  refine run_preserves_along (P := fun v => Stripped v.2 v.1) ?_ ?_ alone.noting h
  · intro v j v' inv alone next
    obtain ⟨moved, noted⟩ := noting_eq next
    rw [noted]
    exact inv.step alone moved
  · refine ⟨by simp, by simp, ?_⟩
    intro job proxy working settling
    cases settling

/-- **What a re-check keeps.** In every run in which nobody else changes the pool: an entry that is pooled where an
entry was pulled has the particulars of the pulled one exactly when that one had no credentials, no country and no
ASN. -/
theorem particulars_kept_iff {sys : Sys} {now : Instant} {store : List (Addr × MemoryStore.Record)}
    (h : run (noting (step pr cfg powf c) pulls) (⟨⟨sys, State.start now⟩, store⟩, fun _ => []) is = some (w, pulled))
    (alone : Along (step pr cfg powf c) Alone ⟨⟨sys, State.start now⟩, store⟩ is) :
    ∀ p ∈ pulled a, ∀ e ∈ w.pool.state, e.proxy.addr = a →
      (e.proxy.auth = p.auth ∧ e.proxy.geo = p.geo ∧ e.proxy.asn = p.asn ↔ Bare p) := by
  intro p mem e pooled at_a
  have bare := (particulars_eq_iff at_a).1 ((stripped_run h alone).entries a (List.ne_nil_of_mem mem) e pooled at_a)
  obtain ⟨auth, geo, asn⟩ := bare
  rw [auth, geo, asn, Bare]
  simp only [eq_comm]

/-! ## A proxy that fails and comes back -/

/-- A first failure is no reason to give a proxy up. -/
theorem shouldRetryIn_first {age : Nat} : shouldRetryIn pr (fun _ _ => 1) (foldSampleIn pr false 1) 0 age cfg = true := by
  have weight : ((2 ^ 19 : ℕ) : ℚ) / 2 ^ 20 ≤ pr.round (7 / 10) := pr.le_round (by norm_num) (by norm_num)
  have product : ((2 ^ 19 : ℕ) : ℚ) / 2 ^ 20 ≤ pr.mul (pr.round (7 / 10)) 1 := pr.le_round (by norm_num) (by rwa [mul_one])
  have rate : ((2 ^ 19 : ℕ) : ℚ) / 2 ^ 20 ≤ foldSampleIn pr false 1 := by
    refine pr.le_round (by norm_num) ?_
    simpa [Precision.mul] using product
  have clamped : ((2 ^ 19 : ℕ) : ℚ) / 2 ^ 20 ≤ clamp01 (foldSampleIn pr false 1) :=
    le_max_of_le_right (le_min rate (by norm_num))
  have whole : pr.add 1 (max 0 0) = 1 := by
    refine le_antisymm (pr.round_le_one (by norm_num) (by norm_num)) (pr.one_le_round (by norm_num))
  have base : ((2 ^ 19 : ℕ) : ℚ) / 2 ^ 20 ≤ pr.div (clamp01 (foldSampleIn pr false 1)) (pr.add 1 (max 0 0)) := by
    refine pr.le_round (by norm_num) ?_
    rwa [whole, div_one]
  have score : ((2 ^ 19 : ℕ) : ℚ) / 2 ^ 20 ≤ decayedScoreIn pr (fun _ _ => 1) (foldSampleIn pr false 1) 0 age cfg := by
    unfold decayedScoreIn
    dsimp only
    rw [ite_self]
    refine pr.le_round (by norm_num) ?_
    rwa [mul_one]
  have floor : evictFloorIn pr ≤ ((2 ^ 19 : ℕ) : ℚ) / 2 ^ 20 := pr.round_le (by norm_num) (by norm_num) (by norm_num)
  exact decide_eq_true (floor.trans score)

/-- The inputs that take the loop from its head to the check of the one address that is scheduled. -/
def nextCheck (job : Scheduled) : List World.Input :=
  [.loop (.enroll job.due fun _ => ⟨0, by norm_num⟩), .loop (.peek job.due), .loop (.woke job.due job.due), .loop (.begin 0)]

theorem nextCheck_run (pr : Precision) (bounded : cfg.Bounded) {sys : Sys} {s : State} {job : Scheduled}
    (drained : sys.pool.addrs = []) (head : s.phase = .head)
    (heap : s.heap = [job]) (retrying : job.key ∈ s.retrying) :
    run (World.stepIn pr cfg powf) ⟨sys, s⟩ (nextCheck job) = some ⟨sys,
      { s with heap := [], nextStart := max s.nextStart job.due + gap cfg, phase := .checking job }⟩ := by
  simp [nextCheck, run, World.stepIn, stepIn, panicsIn_of_bounded bounded, turnIn, enrollAll, drained, head, heap, retrying, popAt]

/-- Every attempt is refused. -/
def refusingNet : Checker.Net :=
  ⟨fun _ => .failed .connFailed, fun _ => 1, fun _ => 0, fun x _ => x, fun _ => false⟩

/-- Only the settling of a check is noted. -/
theorem run_pulls (h : run (step pr cfg powf c) w is = some w') (unsettled : ∀ i ∈ is, ∀ now draw, i ≠ .world (.loop (.settle now draw))) :
    run (noting (step pr cfg powf c) pulls) (w, pulled) is = some (w', pulled) := by
  induction is generalizing w with
  | nil =>
    cases h
    rfl
  | cons i is ih =>
    obtain ⟨u, first, rest⟩ := run_cons_iff.1 h
    refine run_cons_iff.2 ⟨(u, pulled), ?_, ih rest fun j mem => unsettled j (List.mem_cons_of_mem i mem)⟩
    rw [noting, first, Option.map_some, pulls_other fun _ _ now draw _ => unsettled i List.mem_cons_self now draw]

/-- A check and what follows it, with what it pulls. -/
theorem recheck_pulls (bounded : cfg.Bounded) {job : Scheduled} {working : Bool} {sys' : Sys} (checking : w.world.loop.phase = .checking job)
    (passed : (c.check net (fresh job.key)).passed = some working)
    (called : w.world.sys.step (if working then .add (c.check net (fresh job.key)).proxy else .remove job.key) = some sys')
    (now : Instant) (draw : Draw) :
    run (noting (step pr cfg powf c) pulls) (w, pulled) [.check net, .world (.loop (.settle now draw))] = some
      (⟨⟨sys', settledIn pr cfg powf { w.world.loop with phase := .settling job (c.check net (fresh job.key)).proxy working }
          now draw job.key (c.check net (fresh job.key)).proxy working⟩,
        upsert job.key (MemoryStore.fold pr (c.check net (fresh job.key)).proxy) w.store⟩,
      if working then pulled
      else if job.key ∈ w.pool.addrs then Function.update pulled job.key ((entriesAt w.pool job.key).map Pooled.proxy) else pulled) := by
  have checked := @step_check pr cfg powf c net w job working checking passed
  refine run_cons_iff.2 ⟨_, by rw [noting, checked]; rfl, run_cons_iff.2 ⟨_, ?_, rfl⟩⟩
  simp only [noting, step, World.stepIn, stepIn_eq (panicsIn_of_bounded bounded _ _ _), turnIn, called, Option.map_some, pulls, checking]
  cases working <;> rfl

/-- A failed check of an address that is tried again. -/
theorem settledIn_retry {s : State} {p : Proxy} {now : Instant} {draw : Draw}
    (retried : shouldRetryIn pr powf (foldSampleIn pr false ((s.ewma a).getD 1)) p.avgRespTime (age s now a) cfg = true) :
    ∃ due, (settledIn pr cfg powf s now draw a p false).heap = ⟨due, a⟩ :: s.heap ∧
      a ∈ (settledIn pr cfg powf s now draw a p false).retrying := by
  rw [settledIn, retried]
  exact ⟨_, rfl, Finset.mem_insert_self a s.retrying⟩

/-- Every input is one of the loop. -/
def Own (is : List Input) : Prop := ∀ i ∈ is, ∀ o, i ≠ .world (.others o)

/-- The first check of the one pooled proxy fails. -/
theorem first_fails (bounded : cfg.Bounded) {sys : Sys} {p : Proxy} (single : sys.pool.state = [⟨p, none⟩])
    (fails : (c.check net (fresh p.addr)).passed = some false) (untimed : (c.check net (fresh p.addr)).proxy.avgRespTime = 0) :
    ∃ is w pulled, run (noting (step .binary64 cfg (fun _ _ => 1) c) pulls) (⟨⟨sys, State.start 0⟩, []⟩, fun _ => []) is =
        some (w, pulled) ∧ Own is ∧ p ∈ pulled p.addr ∧ w.world.loop.phase = .head ∧
      w.pool.addrs = [] ∧ ∃ job, w.world.loop.heap = [job] ∧ job.key = p.addr ∧ job.key ∈ w.world.loop.retrying := by
  let draw : Draw := ⟨0, by norm_num⟩
  have pooled : sys.pool.addrs = [p.addr] := by
    rw [Pool.addrs, single]
    rfl
  have entries : entriesAt sys.pool p.addr = [⟨p, none⟩] := by simp [entriesAt, single]
  have enrolled := firstCheck_run .binary64 (fun _ _ => 1) bounded pooled 0 draw
  have first := @run_pulls _ _ _ c _ _ _ (fun _ => []) (run_world enrolled (by simp [firstCheck]) []) (by simp [firstCheck])
  have failed := (run_append first).trans (recheck_pulls bounded rfl fails rfl 0 draw)
  refine ⟨_, _, _, failed, ?_, ?_, ?_, ?_, ?_⟩
  · simp [Own, firstCheck]
  · simp [pool, pooled, entries]
  · exact settleWith_phase _ _ _ _ _ _ _
  · have drained : (sys.pool.remove p.addr).addrs = [] := by simp [Pool.remove, Pool.addrs, single]
    exact drained
  · obtain ⟨due, heap, retrying⟩ := @settledIn_retry .binary64 cfg (fun _ _ => 1) p.addr
      { heap := []
        ewma := Function.update (fun _ => none) p.addr (some 1)
        lastOk := Function.update (fun _ => none) p.addr (some 0)
        retrying := ∅
        nextStart := max 0 (0 + jitter cfg.minInterval draw) + gap cfg
        phase := .settling ⟨0 + jitter cfg.minInterval draw, p.addr⟩ (c.check net (fresh p.addr)).proxy false }
      (c.check net (fresh p.addr)).proxy 0 draw
      (by simpa [untimed] using shouldRetryIn_first)
    exact ⟨⟨due, p.addr⟩, heap, rfl, retrying⟩

/-- The next check of an address that is tried again works. -/
theorem next_works (bounded : cfg.Bounded) {job : Scheduled} (drained : w.pool.addrs = []) (head : w.world.loop.phase = .head)
    (heap : w.world.loop.heap = [job]) (retrying : job.key ∈ w.world.loop.retrying)
    (works : (c.check net (fresh job.key)).passed = some true) :
    ∃ is w', run (noting (step .binary64 cfg (fun _ _ => 1) c) pulls) (w, pulled) is = some (w', pulled) ∧ Own is ∧
      ∃ e ∈ w'.pool.state, e.proxy.addr = job.key := by
  have free : w.world.sys.pool.holds (w.world.sys.tagged (c.check net (fresh job.key)).proxy).addr = false := by
    rw [← Bool.not_eq_true, Pool.holds_iff]
    intro mem
    rw [pool] at drained
    simp [drained] at mem
  obtain ⟨sys', called, added⟩ := Sys.step_add w.world.sys (c.check net (fresh job.key)).proxy
  have scheduled := @nextCheck_run cfg (fun _ _ => 1) .binary64 bounded w.world.sys w.world.loop job drained head heap retrying
  have due := @run_pulls _ _ _ c _ _ _ pulled (run_world scheduled (by simp [nextCheck]) w.store) (by simp [nextCheck])
  let checking : State :=
    { w.world.loop with heap := [], nextStart := max w.world.loop.nextStart job.due + gap cfg, phase := .checking job }
  have passed := (run_append due).trans (@recheck_pulls .binary64 cfg (fun _ _ => 1) c net ⟨⟨w.world.sys, checking⟩, w.store⟩
    pulled bounded job true sys' rfl works called job.due ⟨0, by norm_num⟩)
  refine ⟨_, _, passed, by simp [Own, nextCheck], ⟨w.world.sys.tagged (c.check net (fresh job.key)).proxy, none⟩, ?_, check_fresh_addr⟩
  have state : sys'.pool.state = _ := (congrArg Pool.state added).trans (Pool.add_state _ _)
  rw [free] at state
  show _ ∈ sys'.pool.state
  rw [state]
  simp

/-- The first check of the one pooled proxy fails and the next one works. -/
theorem pulled_and_pooled (bounded : cfg.Bounded) {sys : Sys} {p : Proxy} {refusing willing : Checker.Net} (single : sys.pool.state = [⟨p, none⟩])
    (fails : (c.check refusing (fresh p.addr)).passed = some false)
    (untimed : (c.check refusing (fresh p.addr)).proxy.avgRespTime = 0)
    (works : (c.check willing (fresh p.addr)).passed = some true) :
    ∃ is w pulled, run (noting (step .binary64 cfg (fun _ _ => 1) c) pulls) (⟨⟨sys, State.start 0⟩, []⟩, fun _ => []) is =
        some (w, pulled) ∧
      Along (step .binary64 cfg (fun _ _ => 1) c) Alone ⟨⟨sys, State.start 0⟩, []⟩ is ∧
      p ∈ pulled p.addr ∧ ∃ e ∈ w.pool.state, e.proxy.addr = p.addr := by
  obtain ⟨is, w, pulled, failed, own, mem, head, drained, job, heap, key, retrying⟩ :=
    @first_fails cfg c refusing bounded sys p single fails untimed
  rw [← key] at works
  obtain ⟨js, w', worked, own', e, there, at_key⟩ := @next_works cfg c willing w pulled bounded job drained head heap retrying works
  refine ⟨is ++ js, w', pulled, (run_append failed).trans worked, ?_, mem, e, there, at_key.trans key⟩
  refine along_of_forall ?_
  intro i listed v o sys' eq
  rcases List.mem_append.1 listed with before | after
  · exact absurd eq (own i before o)
  · exact absurd eq (own' i after o)

/-- A proxy with credentials comes back without them. -/
theorem credentials_lost :
    let c := Checker.asking [.any .http] true
    let p : Proxy := { httpProxy 80 with auth := some ⟨['u'], ['p']⟩ }
    ∃ is w pulled, run (noting (step .binary64 .default (fun _ _ => 1) c) pulls)
        (⟨⟨Sys.fromProxies none [p] .default, State.start 0⟩, []⟩, fun _ => []) is = some (w, pulled) ∧
      Along (step .binary64 .default (fun _ _ => 1) c) Alone ⟨⟨Sys.fromProxies none [p] .default, State.start 0⟩, []⟩ is ∧
      ∃ q ∈ pulled p.addr, ∃ e ∈ w.pool.state, e.proxy.addr = p.addr ∧ q.auth = some ⟨['u'], ['p']⟩ ∧ e.proxy.auth = none := by
  intro c p
  obtain ⟨is, w, pulled, ran, alone, mem, e, there, at_p⟩ := @pulled_and_pooled .default c RecheckConfig.default_bounded
    (Sys.fromProxies none [p] .default)
    { p with tag := 0 } refusingNet (Checker.willingNet .high) rfl (by decide +kernel) (by decide +kernel) (by decide +kernel)
  refine ⟨is, w, pulled, ran, alone, _, mem, e, there, at_p, rfl, ?_⟩
  have bare := (stripped_run ran alone).entries p.addr (List.ne_nil_of_mem mem) e there at_p
  exact congrArg Particulars.auth bare

/-- A proxy without credentials comes back as it was. -/
theorem particulars_kept_bare :
    let c := Checker.asking [.any .http] true
    let a := (httpProxy 80).addr
    ∃ is w pulled, run (noting (step .binary64 .default (fun _ _ => 1) c) pulls)
        (⟨⟨Sys.fromProxies none [httpProxy 80] .default, State.start 0⟩, []⟩, fun _ => []) is = some (w, pulled) ∧
      ∃ p ∈ pulled a, ∃ e ∈ w.pool.state, e.proxy.addr = a ∧ e.proxy.auth = p.auth ∧ e.proxy.geo = p.geo ∧ e.proxy.asn = p.asn := by
  intro c a
  obtain ⟨is, w, pulled, ran, alone, mem, e, there, at_a⟩ := @pulled_and_pooled .default c RecheckConfig.default_bounded
    (Sys.fromProxies none [httpProxy 80] .default)
    (httpProxy 80) refusingNet (Checker.willingNet .high) rfl (by decide +kernel) (by decide +kernel) (by decide +kernel)
  exact ⟨is, w, pulled, ran, _, mem, e, there, at_a,
    (particulars_kept_iff ran alone _ mem e there at_a).2 ⟨rfl, rfl, rfl⟩⟩

end Rechecker

end ProxyBroker.Scheduler