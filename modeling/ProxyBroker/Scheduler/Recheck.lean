import ProxyBroker.Checker.Verdict
import ProxyBroker.Persist.Stores
import ProxyBroker.Scheduler.Bookkeeping

/-!
# A re-check with its checker and its store

In `Loop.lean` the outcome of a check is an input. Here the loop calls `Checker::check` on a fresh proxy for the
address and hands that proxy to `MemoryStore::upsert` before it folds the verdict into its own rate
(`Rechecker.step`). What is left to the environment is the network.

The store folds `is_working()` and the loop folds the verdict. They are the same sample unless the check is not
strict and every confirmed type fails the requested levels: then the proxy keeps its types and the verdict is
negative (`samples_agree_iff`).
-/

namespace ProxyBroker.Scheduler
open Lib Server Persist

/-- The proxy that is probed for an address. -/
def fresh (key : Addr) : Proxy := Proxy.new key.1 key.2 []

/-- The loop, the system around it and the store it upserts into. -/
structure Rechecker where
  world : World
  store : List (Addr × MemoryStore.Record)

/-- The loop when its task has panicked. -/
def State.dead : State := { State.start 0 with phase := .stopped }

namespace Rechecker

/-- The network that a check meets, or any other step. -/
inductive Input where
  | check (net : Checker.Net)
  | world (j : World.Input)

/-- A step, with the scores in a given precision. A check that panics takes the task with it. -/
def step (pr : Precision) (cfg : RecheckConfig) (powf : ℚ → ℚ → ℚ) (c : Checker) (w : Rechecker) : Input → Option Rechecker
  | .check net =>
    match w.world.loop.phase with
    | .checking job =>
      let r := c.check net (fresh job.key)
      match r.passed with
      | some working =>
        (World.stepIn pr cfg powf w.world (.loop (.checked r.proxy working))).map fun world =>
          ⟨world, upsert r.proxy.addr (MemoryStore.fold pr r.proxy) w.store⟩
      | none => some { w with world := { w.world with loop := .dead } }
    | _ => none
  | .world (.loop (.checked _ _)) => none
  | .world j => (World.stepIn pr cfg powf w.world j).map fun world => { w with world := world }

end Rechecker

/-! ## What a check leaves alone -/

end ProxyBroker.Scheduler

namespace ProxyBroker

/-- What a proxy is apart from its statistics and what was confirmed of it. -/
structure Particulars where
  addr : Addr
  auth : Option Credentials
  geo : Option Country
  asn : Option Asn
deriving DecidableEq

def Proxy.particulars (p : Proxy) : Particulars := ⟨p.addr, p.auth, p.geo, p.asn⟩

namespace Checker
variable {c : Checker} {net : Net} {proto : Proto}

theorem confirm_particulars (p : Proxy) (rtt : ℚ) (obs : Observation) : (confirm p proto rtt obs).particulars = p.particulars := by
  simp only [confirm, Proxy.recordTrust, Proxy.recordCaps, Proxy.addType, Proxy.recordProbeLatency, Proxy.recordAttempt,
    Proxy.particulars, Proxy.addr]

theorem failed_particulars (p : Proxy) (e : ProxyError) : (p.recordAttempt none (some e)).particulars = p.particulars := rfl

theorem retryLoop_particulars (left i k : Nat) (p : Proxy) :
    (retryLoop c net proto left i k p).proxy.particulars = p.particulars := by
  induction left generalizing i k p with
  | zero => rfl
  | succ left ih =>
    unfold retryLoop
    split
    · exact confirm_particulars p _ _
    · exact failed_particulars p _
    · rename_i e _
      have failed := failed_particulars p e
      dsimp only
      generalize p.recordAttempt none (some e) = q at failed ⊢
      split
      · split
        · exact (ih _ _ q).trans failed
        · exact failed
      · exact failed

theorem checkOne_particulars (k : Nat) (p : Proxy) : (checkOne c net proto k p).proxy.particulars = p.particulars := by
  unfold checkOne
  split
  · rfl
  · exact retryLoop_particulars _ _ _ _

theorem survey_particulars (protos : List Proto) (any : Bool) (k : Nat) (p : Proxy) :
    (survey c net protos any k p).proxy.particulars = p.particulars := by
  induction protos generalizing any k p with
  | nil => rfl
  | cons proto rest ih =>
    simp only [survey]
    split
    · exact (ih _ _ _).trans (checkOne_particulars k p)
    · exact checkOne_particulars k p

theorem foldl_removeType_particulars (protos : List Proto) (p : Proxy) :
    (protos.foldl Proxy.removeType p).particulars = p.particulars := by
  induction protos generalizing p with
  | nil => rfl
  | cons proto rest ih => exact ih (p.removeType proto)

theorem typesPassed_particulars (p : Proxy) : (typesPassed c p).2.particulars = p.particulars := by
  unfold typesPassed
  split
  · rfl
  · dsimp only
    split
    · exact foldl_removeType_particulars _ p
    · rfl

/-- A check neither gives a proxy credentials or a place, nor takes them. -/
theorem check_particulars (net : Net) (p : Proxy) : (check c net p).proxy.particulars = p.particulars := by
  unfold check
  split
  · rfl
  · have surveyed : (surveyed c net p).proxy.particulars = p.particulars := survey_particulars _ _ _ _
    unfold conclude
    split
    · exact surveyed
    · exact surveyed
    · exact (typesPassed_particulars _).trans surveyed

end Checker

namespace Scheduler
open Lib Server Persist
variable {pr : Precision} {cfg : RecheckConfig} {powf : ℚ → ℚ → ℚ} {c : Checker} {net : Checker.Net} {w w' : Rechecker}
  {i : Rechecker.Input} {key a : Addr}

theorem check_fresh_particulars : (c.check net (fresh key)).proxy.particulars = ⟨key, none, none, none⟩ := Checker.check_particulars net (fresh key)

theorem check_fresh_addr : (c.check net (fresh key)).proxy.addr = key :=
  congrArg Particulars.addr check_fresh_particulars

/-! ## A step -/

/-- A step makes a check, is a check that panics, or is another step of the world. -/
theorem Rechecker.step_cases (h : Rechecker.step pr cfg powf c w i = some w') :
    (∃ net job working, i = .check net ∧ w.world.loop.phase = .checking job ∧
      (c.check net (fresh job.key)).passed = some working ∧ w'.world.sys = w.world.sys ∧
      w'.world.loop = { w.world.loop with phase := .settling job (c.check net (fresh job.key)).proxy working } ∧
      w'.store = upsert job.key (MemoryStore.fold pr (c.check net (fresh job.key)).proxy) w.store) ∨
    (∃ net, i = .check net ∧ w'.world.sys = w.world.sys ∧ w'.world.loop = .dead ∧ w'.store = w.store) ∨
    (∃ j, i = .world j ∧ (∀ proxy working, j ≠ .loop (.checked proxy working)) ∧
      World.stepIn pr cfg powf w.world j = some w'.world ∧ w'.store = w.store) := by
  cases i with
  | check net =>
    unfold Rechecker.step at h
    dsimp only at h
    split at h
    · rename_i job checking
      split at h
      · rename_i working passed
        have same : (c.check net (fresh job.key)).proxy.addr = job.key := check_fresh_addr
        obtain ⟨world, moved, rfl⟩ := Option.map_eq_some_iff.1 h
        rw [World.stepIn, stepIn_checked checking same, Option.map_some, Option.some.injEq] at moved
        subst moved
        exact Or.inl ⟨net, job, working, rfl, checking, passed, rfl, rfl, by rw [same]⟩
      · cases h
        exact Or.inr (Or.inl ⟨net, rfl, rfl, rfl, rfl⟩)
    · cases h
  | world j =>
    have other : (∀ proxy working, j ≠ .loop (.checked proxy working)) ∧
        (World.stepIn pr cfg powf w.world j).map (fun world => { w with world := world }) = some w' := by
      cases j with
      | others o => exact ⟨by simp, h⟩
      | loop l =>
        cases l with
        | checked proxy working => cases h
        | _ => exact ⟨by simp, h⟩
    obtain ⟨world, moved, rfl⟩ := Option.map_eq_some_iff.1 other.2
    exact Or.inr (Or.inr ⟨j, rfl, other.1, moved, rfl⟩)

/-! ## The two samples -/

/-- The check is strict, or a confirmed type passes the requested levels if there is a confirmed type. -/
def Consistent (c : Checker) (r : Checker.Checked) : Prop :=
  c.strict = true ∨ ((∃ q level, r.confirmed q = some level) →
    ∃ q level, r.confirmed q = some level ∧ Checker.fits c.requested q level = true)

theorem sample_eq_iff {p : Proxy} {working : Bool} : sample p = (if working then 1 else 0) ↔ p.isWorking = working := by
  unfold sample
  cases p.isWorking <;> cases working <;> simp

/-- When the store and the loop fold the same sample. -/
theorem sample_agrees_iff {working : Bool} (returns : (c.check net (fresh key)).passed = some working) :
    sample (c.check net (fresh key)).proxy = (if working then 1 else 0) ↔ Consistent c (c.check net (fresh key)) := by
  obtain ⟨passed, types⟩ := @Checker.judged_check c net (fresh key) (fun _ => rfl) (by rw [returns]; rfl)
  rw [returns, Option.some.injEq] at passed
  rw [sample_eq_iff, Bool.eq_iff_iff, Checker.isWorking_iff, passed, Consistent]
  cases strict : c.strict with
  | true =>
    refine iff_of_true ?_ (Or.inl rfl)
    simp only [types, strict, if_true, Option.filter_eq_some_iff]
  | false =>
    simp only [types, strict, Bool.false_eq_true, if_false, false_or]
    constructor
    · intro same
      exact same.1
    · intro all
      refine ⟨all, ?_⟩
      rintro ⟨q, level, confirmed, -⟩
      exact ⟨q, level, confirmed⟩

/-- A full score stays full. -/
theorem foldSampleIn_full : foldSampleIn pr true 1 = 1 := by
  cases pr with
  | exact =>
    show (3 / 10 : ℚ) * 1 + 7 / 10 * 1 = 1
    norm_num
  | binary64 =>
    show F64.round (F64.round (F64.round (3 / 10) * 1) + F64.round (F64.round (7 / 10) * 1)) = 1
    have three : F64.round (5404319552844595 / 2 ^ 54) = 5404319552844595 / 2 ^ 54 := by
      rw [F64.round_eq (e := -54) (n := 5404319552844595)]
      · norm_num
      · norm_num
      · norm_num
      · norm_num
      · norm_num [roundHalfEven]
    have seven : F64.round (6305039478318694 / 2 ^ 53) = 6305039478318694 / 2 ^ 53 := by
      rw [F64.round_eq (e := -53) (n := 6305039478318694)]
      · norm_num
      · norm_num
      · norm_num
      · norm_num
      · norm_num [roundHalfEven]
    rw [round_three_tenths, round_seven_tenths, mul_one, mul_one, three, seven]
    -- the sum is half a last place below one, and ties go to even
    rw [F64.round_eq (e := -53) (n := 2 ^ 53)]
    · norm_num
    · norm_num
    · norm_num
    · norm_num
    · norm_num [roundHalfEven]

/-! ## The two scores -/

namespace Rechecker

/-- A step after which the two scores of `a` are still to agree. A check of `a` gives both the same sample, the
first one that the store hears of succeeds, and the address is not enrolled anew once the store knows it. -/
def Steady (c : Checker) (a : Addr) (w : Rechecker) : Input → Prop
  | .check net =>
    (∃ job, w.world.loop.phase = .checking job ∧ job.key = a) →
      Consistent c (c.check net (fresh a)) ∧ (rowOf a w.store = none → (c.check net (fresh a)).passed ≠ some false)
  | .world (.loop (.enroll _ _)) => a ∈ w.world.sys.pool.addrs → w.world.loop.ewma a = none → rowOf a w.store = none
  | _ => True

/-- No check of `a` stands between its upsert and its fold. -/
def Rests (w : Rechecker) (a : Addr) : Prop := ∀ job proxy working, w.world.loop.phase = .settling job proxy working → job.key ≠ a

/-- The scores of `a` agree; while its check is being settled, the store is one fold ahead. -/
structure Together (pr : Precision) (a : Addr) (w : Rechecker) : Prop where
  kept : w.world.loop.Kept
  unseen : rowOf a w.store = none → ∀ e, w.world.loop.ewma a = some e → e = 1
  same : w.Rests a → ∀ r e, rowOf a w.store = some r → w.world.loop.ewma a = some e → r.ewmaSuccess = e
  ahead : ∀ job proxy working, w.world.loop.phase = .settling job proxy working → job.key = a →
    ∃ r, rowOf a w.store = some r ∧ r.ewmaSuccess = foldSampleIn pr working ((w.world.loop.ewma a).getD 1)

/-- A check, with its upsert. -/
theorem Together.check {job : Scheduled} {working : Bool} (together : Together pr a w)
    (steady : Steady c a w (.check net)) (kept' : w'.world.loop.Kept) (checking : w.world.loop.phase = .checking job)
    (passed : (c.check net (fresh job.key)).passed = some working)
    (loop : w'.world.loop = { w.world.loop with phase := .settling job (c.check net (fresh job.key)).proxy working })
    (store : w'.store = upsert job.key (MemoryStore.fold pr (c.check net (fresh job.key)).proxy) w.store) : Together pr a w' := by
  have rests : w.Rests a := by
    intro job' proxy working' settling
    rw [checking] at settling
    cases settling
  have row : rowOf a w'.store =
      if job.key = a then some (MemoryStore.fold pr (c.check net (fresh job.key)).proxy (rowOf job.key w.store)) else rowOf a w.store := by
    rw [store, rowOf_upsert]
  by_cases here : job.key = a
  · subst here
    rw [if_pos rfl] at row
    obtain ⟨consistent, first⟩ := steady ⟨job, checking, rfl⟩
    have tracked : job.key ∈ w.world.loop.tracked := by simp [State.tracked, checking, Phase.inFlight]
    obtain ⟨e, rated⟩ := Option.isSome_iff_exists.1 ((together.kept.rated job.key).2 tracked)
    have folded : (MemoryStore.fold pr (c.check net (fresh job.key)).proxy (rowOf job.key w.store)).ewmaSuccess = foldSampleIn pr working e := by
      have sampled := (sample_agrees_iff passed).2 consistent
      cases before : rowOf job.key w.store with
      | none =>
        have works : working = true := by
          cases working with
          | true => rfl
          | false => exact absurd passed (first before)
        obtain rfl := together.unseen before e rated
        subst works
        rw [foldSampleIn_full]
        exact sampled
      | some r =>
        have equal : r.ewmaSuccess = e := together.same rests r e before rated
        show pr.ewma (sample (c.check net (fresh job.key)).proxy) r.ewmaSuccess = foldSampleIn pr working e
        rw [sampled, equal]
        rfl
    refine ⟨kept', ?_, ?_, ?_⟩
    · intro unseen
      rw [row] at unseen
      cases unseen
    · intro resting
      exact absurd rfl (resting job _ working (by rw [loop]))
    · intro job' proxy working' settling _
      rw [loop] at settling ⊢
      cases settling
      dsimp only
      rw [rated]
      exact ⟨_, row, folded⟩
  · rw [if_neg here] at row
    have ewma : w'.world.loop.ewma a = w.world.loop.ewma a := by rw [loop]
    refine ⟨kept', ?_, ?_, ?_⟩
    · rw [row, ewma]
      exact together.unseen
    · intro _
      rw [row, ewma]
      exact together.same rests
    · intro job' proxy working' settling same
      rw [loop] at settling
      cases settling
      exact absurd same here

/-- The fold of a verdict. -/
theorem Together.settle {job : Scheduled} {proxy : Proxy} {working : Bool} {now : Instant} {draw : Draw}
    (together : Together pr a w) (kept' : w'.world.loop.Kept) (settling : w.world.loop.phase = .settling job proxy working)
    (loop : w'.world.loop = settledIn pr cfg powf w.world.loop now draw job.key proxy working) (store : w'.store = w.store) :
    Together pr a w' := by
  have head : w'.world.loop.phase = .head := by
    rw [loop, settledIn]
    exact settleWith_phase _ _ _ _ _ _ _
  have unsettled : ∀ job' proxy' working', w'.world.loop.phase = .settling job' proxy' working' → job'.key = a →
      ∃ r, rowOf a w'.store = some r ∧ r.ewmaSuccess = foldSampleIn pr working' ((w'.world.loop.ewma a).getD 1) := by
    intro job' proxy' working' at_w'
    rw [head] at at_w'
    cases at_w'
  have ewma := @settleWith_ewma cfg w.world.loop now draw job.key working
    (shouldRetryIn pr powf (foldSampleIn pr working ((w.world.loop.ewma job.key).getD 1)) proxy.avgRespTime
      (age w.world.loop now job.key) cfg) (foldSampleIn pr working ((w.world.loop.ewma job.key).getD 1))
  by_cases here : job.key = a
  · subst here
    obtain ⟨r, row, folded⟩ := together.ahead job proxy working settling rfl
    refine ⟨kept', ?_, ?_, unsettled⟩
    · intro unseen
      rw [store, row] at unseen
      cases unseen
    · intro _ r' e row' rated
      rw [store, row] at row'
      cases row'
      rw [loop, settledIn, ewma, Function.update_self] at rated
      split at rated
      · cases rated
        exact folded
      · cases rated
  · have other : w'.world.loop.ewma a = w.world.loop.ewma a := by
      rw [loop, settledIn, ewma]
      exact Function.update_of_ne (Ne.symm here) _ _
    have rests : w.Rests a := by
      intro job' proxy' working' at_w
      rw [settling] at at_w
      cases at_w
      exact here
    refine ⟨kept', ?_, ?_, unsettled⟩
    · rw [store, other]
      exact together.unseen
    · intro _
      rw [store, other]
      exact together.same rests

/-- Another step of the loop. -/
theorem Together.other {j : Scheduler.Input} (together : Together pr a w)
    (steady : Steady c a w (.world (.loop j))) (kept' : w'.world.loop.Kept) (unchecked : ∀ proxy working, j ≠ .checked proxy working)
    (resting : ∀ job proxy working, w.world.loop.phase ≠ .settling job proxy working)
    (next : stepIn pr cfg powf w.world.sys w.world.loop j = some (w'.world.sys, w'.world.loop)) (store : w'.store = w.store) :
    Together pr a w' := by
  have unsettled := step_unsettled next unchecked
  have rates {e : ℚ} (rated : w'.world.loop.ewma a = some e) :
      w.world.loop.ewma a = some e ∨ (rowOf a w.store = none ∧ e = 1) := by
    cases j with
    | enroll now draw =>
      obtain ⟨-, after⟩ := step_enroll next
      rw [after] at rated
      rcases enrollAll_ewma rated with before | ⟨absent, pooled, rfl⟩
      · exact Or.inl before
      · exact Or.inr ⟨steady pooled absent, rfl⟩
    | settle now draw =>
      have turned := turnIn_of_stepIn next
      cases at_s : w.world.loop.phase with
      | settling job proxy working => exact absurd at_s (resting job proxy working)
      | _ => simp [turnIn, at_s] at turned
    | _ => exact Or.inl (step_ewma next (by simp) (by simp) rated)
  refine ⟨kept', ?_, ?_, fun job proxy working settling => absurd settling (unsettled job proxy working)⟩
  · intro unseen e rated
    rw [store] at unseen
    rcases rates rated with before | ⟨-, full⟩
    · exact together.unseen unseen e before
    · exact full
  · intro _ r e row rated
    rw [store] at row
    rcases rates rated with before | ⟨unseen, -⟩
    · exact together.same (fun job proxy working settling => absurd settling (resting job proxy working)) r e row before
    · rw [unseen] at row
      cases row

theorem Together.step (together : Together pr a w) (steady : Steady c a w i)
    (h : Rechecker.step pr cfg powf c w i = some w') : Together pr a w' := by
  rcases Rechecker.step_cases h with ⟨net, job, working, rfl, checking, passed, -, loop, store⟩ | ⟨net, rfl, -, dead, store⟩ |
    ⟨j, rfl, unchecked, moved, store⟩
  · refine together.check steady ?_ checking passed loop store
    have kept := together.kept
    rw [State.Kept, State.tracked, checking] at kept
    rw [loop]
    exact kept
  · have unrated : w'.world.loop.ewma a = none := by rw [dead]; rfl
    refine ⟨?_, ?_, ?_, ?_⟩
    · rw [dead]
      exact start_kept 0
    · intro _ e rated
      rw [unrated] at rated
      cases rated
    · intro _ r e _ rated
      rw [unrated] at rated
      cases rated
    · intro job proxy working settling
      rw [dead] at settling
      cases settling
  · have kept' := World.stepIn_kept together.kept moved
    rcases World.stepIn_cases moved with ⟨o, rfl, -, same⟩ | ⟨l, rfl, next⟩
    · refine ⟨kept', ?_, ?_, ?_⟩
      · rw [store, same]
        exact together.unseen
      · unfold Rests
        rw [store, same]
        exact together.same
      · rw [store, same]
        exact together.ahead
    · rcases stepIn_cases next with ⟨job, proxy, working, now, draw, settling, rfl, -, after⟩ | resting
      · exact together.settle kept' settling after store
      · exact together.other steady kept' (fun proxy working same => unchecked proxy working (by rw [same])) resting next store

/-- **The two scores.** A re-check gives the store and the loop the same sample exactly when it is consistent. In
every run whose steps are all steady for an address, whatever the rest of the system, the network and the clock do,
the store's score and the loop's score of that address are equal whenever both are there and no check of it is
between its upsert and its fold. -/
theorem scores_agree (pr : Precision) (cfg : RecheckConfig) (powf : ℚ → ℚ → ℚ) (c : Checker) (a : Addr) :
    (∀ net working, (c.check net (fresh a)).passed = some working →
      (sample (c.check net (fresh a)).proxy = (if working then 1 else 0) ↔ Consistent c (c.check net (fresh a)))) ∧
    ∀ (sys : Sys) (now : Instant) (store : List (Addr × MemoryStore.Record)) (is : List Input) (w : Rechecker),
      rowOf a store = none → Along (step pr cfg powf c) (Steady c a) ⟨⟨sys, State.start now⟩, store⟩ is →
      run (step pr cfg powf c) ⟨⟨sys, State.start now⟩, store⟩ is = some w → w.Rests a →
      ∀ r e, rowOf a w.store = some r → w.world.loop.ewma a = some e → r.ewmaSuccess = e := by
  refine ⟨fun net working returns => sample_agrees_iff returns, ?_⟩
  intro sys now store is w unknown steady ran
  have start : Together pr a ⟨⟨sys, State.start now⟩, store⟩ := by
    refine ⟨start_kept now, ?_, ?_, ?_⟩
    · intro _ e rated
      cases rated
    · intro _ r e _ rated
      cases rated
    · intro job proxy working settling
      cases settling
  exact (run_preserves_along (fun _ _ _ together steady next => Together.step together steady next) start steady ran).same

/-! ## Runs on fixed networks -/

/-- A run of the world in which no check ends. -/
theorem run_world {v v' : World} {js : List World.Input} (h : run (World.stepIn pr cfg powf) v js = some v')
    (unchecked : ∀ j ∈ js, ∀ proxy working, j ≠ .loop (.checked proxy working)) (store : List (Addr × MemoryStore.Record)) :
    run (step pr cfg powf c) ⟨v, store⟩ (js.map .world) = some ⟨v', store⟩ := by
  induction js generalizing v with
  | nil =>
    cases h
    rfl
  | cons j js ih =>
    obtain ⟨u, first, rest⟩ := run_cons_iff.1 h
    refine run_cons_iff.2 ⟨⟨u, store⟩, ?_, ih rest fun k mem => unchecked k (List.mem_cons_of_mem j mem)⟩
    have moved : (World.stepIn pr cfg powf v j).map (fun world => (⟨world, store⟩ : Rechecker)) = some ⟨u, store⟩ := by
      rw [first]
      rfl
    cases j with
    | others o => exact moved
    | loop l =>
      cases l with
      | checked proxy working => exact absurd rfl (unchecked _ List.mem_cons_self proxy working)
      | _ => exact moved

theorem step_check {job : Scheduled} {working : Bool} (checking : w.world.loop.phase = .checking job)
    (passed : (c.check net (fresh job.key)).passed = some working) :
    step pr cfg powf c w (.check net) = some
      ⟨⟨w.world.sys, { w.world.loop with phase := .settling job (c.check net (fresh job.key)).proxy working }⟩,
        upsert job.key (MemoryStore.fold pr (c.check net (fresh job.key)).proxy) w.store⟩ := by
  have same : (c.check net (fresh job.key)).proxy.addr = job.key := check_fresh_addr
  simp only [step, checking, passed, World.stepIn, stepIn_checked checking same, Option.map_some, same]

/-- A check and what follows it. -/
theorem recheck_run (bounded : cfg.Bounded) {job : Scheduled} {working : Bool} {sys' : Sys} (checking : w.world.loop.phase = .checking job)
    (passed : (c.check net (fresh job.key)).passed = some working)
    (called : w.world.sys.step (if working then .add (c.check net (fresh job.key)).proxy else .remove job.key) = some sys')
    (now : Instant) (draw : Draw) :
    run (step pr cfg powf c) w [.check net, .world (.loop (.settle now draw))] = some
      ⟨⟨sys', settledIn pr cfg powf { w.world.loop with phase := .settling job (c.check net (fresh job.key)).proxy working }
          now draw job.key (c.check net (fresh job.key)).proxy working⟩,
        upsert job.key (MemoryStore.fold pr (c.check net (fresh job.key)).proxy) w.store⟩ := by
  refine run_cons_iff.2 ⟨_, step_check checking passed, run_cons_iff.2 ⟨_, ?_, rfl⟩⟩
  simp [step, World.stepIn, stepIn, panicsIn_of_bounded bounded, turnIn, called]

/-- A check for proxies of high anonymity meets a transparent one: the store folds a success, the loop a failure. -/
theorem samples_differ :
    let c := Checker.asking [⟨.http, some [.high]⟩] false
    (c.check (Checker.willingNet .transparent) (fresh (httpProxy 80).addr)).passed = some false ∧
      sample (c.check (Checker.willingNet .transparent) (fresh (httpProxy 80).addr)).proxy = 1 := by
  intro c
  have works : (c.check (Checker.willingNet .transparent) (fresh (httpProxy 80).addr)).proxy.isWorking = true := by decide +kernel
  exact ⟨by decide +kernel, by rw [sample, works]; rfl⟩

theorem add_held {sys : Sys} {p : Proxy} (held : sys.pool.holds p.addr = true) : sys.step (.add p) = some sys := by
  simp only [Sys.step]
  exact if_pos held

/-- A proxy is enrolled and passes its first check. -/
theorem scores_agree_first :
    let c := Checker.asking [.any .http] true
    let a := (httpProxy 80).addr
    ∃ is w, run (step .binary64 .default (fun _ _ => 1) c) ⟨⟨Sys.fromProxies none [httpProxy 80] .default, State.start 0⟩, []⟩ is = some w ∧
      ∃ r e, rowOf a w.store = some r ∧ w.world.loop.ewma a = some e ∧ r.ewmaSuccess = e := by
  intro c a
  have passed : (c.check (Checker.willingNet .high) (fresh a)).passed = some true := by decide +kernel
  have single : (Sys.fromProxies none [httpProxy 80] .default).pool.addrs = [a] := rfl
  have pooled : (Sys.fromProxies none [httpProxy 80] .default).step (.add (c.check (Checker.willingNet .high) (fresh a)).proxy) =
      some (Sys.fromProxies none [httpProxy 80] .default) := by
    have held : (Sys.fromProxies none [httpProxy 80] .default).pool.holds (c.check (Checker.willingNet .high) (fresh a)).proxy.addr = true := by
      rw [check_fresh_addr]
      rfl
    exact add_held held
  have bounded := RecheckConfig.default_bounded
  have first := firstCheck_run .binary64 (fun _ _ => 1) bounded single 0 ⟨0, by norm_num⟩
  have ended := (run_append (run_world (c := c) first (by simp [firstCheck]) [])).trans
    (recheck_run bounded rfl passed pooled (120 * 10 ^ 9) ⟨0, by norm_num⟩)
  have steady : Along (step .binary64 .default (fun _ _ => 1) c) (Steady c a)
      ⟨⟨Sys.fromProxies none [httpProxy 80] .default, State.start 0⟩, []⟩
      ((firstCheck .default 0 ⟨0, by norm_num⟩).map .world ++
        [.check (Checker.willingNet .high), .world (.loop (.settle (120 * 10 ^ 9) ⟨0, by norm_num⟩))]) := by
    refine ⟨fun _ _ => rfl, fun _ _ => ⟨trivial, fun _ _ => ⟨trivial, fun _ _ => ⟨trivial,
      fun _ _ => ⟨fun _ => ?_, fun _ _ => ⟨trivial, fun _ _ => trivial⟩⟩⟩⟩⟩⟩
    exact ⟨Or.inl rfl, fun _ => by rw [passed]; simp⟩
  refine ⟨_, _, ended, _, _, rfl, rfl, ?_⟩
  refine (scores_agree .binary64 .default (fun _ _ => 1) c a).2 _ 0 [] _ _ rfl steady ended ?_ _ _ rfl rfl
  intro job proxy working settling
  cases settling

end Rechecker

end Scheduler
end ProxyBroker
