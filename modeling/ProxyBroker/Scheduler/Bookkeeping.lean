import ProxyBroker.Scheduler.Loop

/-!
# The bookkeeping of the re-check loop

Four collections are written one by one on every branch of the loop. What they agree on is `Books`: the
rates and the clocks have an entry for exactly the tracked addresses, which occur once each, and the
addresses that are retried are among them. The loop tracks what is in its heap and, while it probes an
address that it has popped, that address too (`State.tracked`).

`Move` says what one step of the loop does; `move_kept` is the invariant over it.
-/

namespace ProxyBroker.Scheduler
open Lib Server

/-! ## The folded rate stays in range -/

theorem round_three_tenths : F64.round (3 / 10) = 5404319552844595 / 2 ^ 54 := by
  rw [F64.round_eq (e := -54) (n := 5404319552844595)]
  · norm_num
  · norm_num
  · norm_num
  · norm_num
  · norm_num [roundHalfEven]

theorem round_seven_tenths : F64.round (7 / 10) = 6305039478318694 / 2 ^ 53 := by
  rw [F64.round_eq (e := -53) (n := 6305039478318694)]
  · norm_num
  · norm_num
  · norm_num
  · norm_num
  · norm_num [roundHalfEven]

/-- The binary64 weights sum to `1 - 2⁻⁵⁴`, so that no rounding carries a rate above one. -/
theorem foldSample_le (working : Bool) {prev : ℚ} (low : 0 ≤ prev) (high : prev ≤ 1) : foldSample working prev ≤ 1 := by
  show F64.add (F64.mul (F64.round (3 / 10)) (if working then 1 else 0)) (F64.mul (F64.round (7 / 10)) prev) ≤ 1
  have new_range : 0 ≤ F64.mul (F64.round (3 / 10)) (if working then 1 else 0) ∧
      F64.mul (F64.round (3 / 10)) (if working then 1 else 0) ≤ (5404319552844595 : ℤ) * 2 ^ (-54 : ℤ) := by
    rw [round_three_tenths]
    cases working with
    | true => exact ⟨F64.round_nonneg (by norm_num), F64.round_le (by norm_num) (by norm_num) (by norm_num) (by norm_num)⟩
    | false => exact ⟨F64.round_nonneg (by norm_num), F64.round_le (by norm_num) (by norm_num) (by norm_num) (by norm_num)⟩
  have old_range : 0 ≤ F64.mul (F64.round (7 / 10)) prev ∧
      F64.mul (F64.round (7 / 10)) prev ≤ (6305039478318694 : ℤ) * 2 ^ (-53 : ℤ) := by
    rw [round_seven_tenths]
    have product_le : (6305039478318694 / 2 ^ 53 : ℚ) * prev ≤ 6305039478318694 / 2 ^ 53 :=
      mul_le_of_le_one_right (by norm_num) high
    have product_nonneg : 0 ≤ (6305039478318694 / 2 ^ 53 : ℚ) * prev := mul_nonneg (by norm_num) low
    refine ⟨F64.round_nonneg product_nonneg, F64.round_le product_nonneg ?_ (by norm_num) ?_⟩
    · refine lt_of_le_of_lt product_le ?_
      norm_num
    · refine le_trans product_le ?_
      norm_num
  norm_num at new_range old_range
  have one : (1 : ℚ) = (2 ^ 52 : ℤ) * 2 ^ (-52 : ℤ) := by norm_num
  refine le_trans (F64.round_le (add_nonneg new_range.1 old_range.1) ?_ ?_ ?_) one.ge
  · norm_num
    linarith [new_range.2, old_range.2]
  · norm_num
  · norm_num
    linarith [new_range.2, old_range.2]

variable {pr : Precision}

theorem foldSampleIn_nonneg (working : Bool) {prev : ℚ} (nonneg : 0 ≤ prev) : 0 ≤ foldSampleIn pr working prev := by
  have old : 0 ≤ pr.mul (pr.round (7 / 10)) prev :=
    pr.round_nonneg (mul_nonneg (pr.round_nonneg (by norm_num)) nonneg)
  have new : 0 ≤ pr.mul (pr.round (3 / 10)) (if working then 1 else 0) :=
    pr.round_nonneg (mul_nonneg (pr.round_nonneg (by norm_num)) (by split <;> norm_num))
  exact pr.round_nonneg (add_nonneg new old)

theorem foldSampleIn_range (working : Bool) {prev : ℚ} (low : 0 ≤ prev) (high : prev ≤ 1) :
    0 ≤ foldSampleIn pr working prev ∧ foldSampleIn pr working prev ≤ 1 := by
  refine ⟨foldSampleIn_nonneg working low, ?_⟩
  cases pr with
  | binary64 => exact foldSample_le working low high
  | exact =>
    show (3 / 10 : ℚ) * (if working then 1 else 0) + 7 / 10 * prev ≤ 1
    split <;> linarith

/-! ## The books -/

/-- The collections agree on what is tracked. -/
structure Books (ewma : Addr → Option ℚ) (lastOk : Addr → Option Instant) (retrying : Finset Addr) (tracked : List Addr) :
    Prop where
  nodup : tracked.Nodup
  rated : ∀ a, (ewma a).isSome ↔ a ∈ tracked
  clocked : ∀ a, (lastOk a).isSome ↔ a ∈ tracked
  retried : ∀ a ∈ retrying, a ∈ tracked
  range : ∀ a e, ewma a = some e → 0 ≤ e ∧ e ≤ 1

namespace Books

variable {ewma : Addr → Option ℚ} {lastOk : Addr → Option Instant} {retrying : Finset Addr} {tracked tracked' : List Addr}
  {a : Addr}

theorem perm (books : Books ewma lastOk retrying tracked) (same : tracked.Perm tracked') :
    Books ewma lastOk retrying tracked' where
  nodup := same.nodup_iff.1 books.nodup
  rated b := (books.rated b).trans same.mem_iff
  clocked b := (books.clocked b).trans same.mem_iff
  retried b mem := same.mem_iff.1 (books.retried b mem)
  range := books.range

/-- An address that has no rate begins to be tracked. -/
theorem enroll (books : Books ewma lastOk retrying tracked) (absent : ewma a = none) (now : Instant) :
    Books (Function.update ewma a (some 1)) (Function.update lastOk a (some now)) retrying (a :: tracked) where
  nodup := by
    refine List.nodup_cons.2 ⟨?_, books.nodup⟩
    intro mem
    simpa [absent] using (books.rated a).2 mem
  rated b := by
    by_cases here : b = a
    · subst here
      simp
    · simp [here, books.rated b]
  clocked b := by
    by_cases here : b = a
    · subst here
      simp
    · simp [here, books.clocked b]
  retried b mem := List.mem_cons_of_mem a (books.retried b mem)
  range b e rate := by
    by_cases here : b = a
    · subst here
      rw [Function.update_self] at rate
      cases rate
      norm_num
    · rw [Function.update_of_ne here] at rate
      exact books.range b e rate

/-- A tracked address is forgotten. -/
theorem forget (books : Books ewma lastOk retrying (a :: tracked)) :
    Books (Function.update ewma a none) (Function.update lastOk a none) (retrying.erase a) tracked := by
  obtain ⟨fresh, rest⟩ := List.nodup_cons.1 books.nodup
  refine ⟨rest, ?_, ?_, ?_, ?_⟩
  · intro b
    by_cases here : b = a
    · subst here
      simp [fresh]
    · simp [here, books.rated b]
  · intro b
    by_cases here : b = a
    · subst here
      simp [fresh]
    · simp [here, books.clocked b]
  · intro b mem
    obtain ⟨other, listed⟩ := Finset.mem_erase.1 mem
    exact (List.mem_cons.1 (books.retried b listed)).resolve_left other
  · intro b e rate
    by_cases here : b = a
    · subst here
      simp at rate
    · rw [Function.update_of_ne here] at rate
      exact books.range b e rate

/-- A tracked address has its rate folded. -/
theorem rate (books : Books ewma lastOk retrying tracked) (mem : a ∈ tracked) {e : ℚ} (range : 0 ≤ e ∧ e ≤ 1) :
    Books (Function.update ewma a (some e)) lastOk retrying tracked where
  nodup := books.nodup
  rated b := by
    by_cases here : b = a
    · subst here
      simp [mem]
    · simp [here, books.rated b]
  clocked := books.clocked
  retried := books.retried
  range b e' rated := by
    by_cases here : b = a
    · subst here
      rw [Function.update_self] at rated
      cases rated
      exact range
    · rw [Function.update_of_ne here] at rated
      exact books.range b e' rated

/-- A tracked address has its clock set. -/
theorem clock (books : Books ewma lastOk retrying tracked) (mem : a ∈ tracked) (now : Instant) :
    Books ewma (Function.update lastOk a (some now)) retrying tracked where
  nodup := books.nodup
  rated := books.rated
  clocked b := by
    by_cases here : b = a
    · subst here
      simp [mem]
    · simp [here, books.clocked b]
  retried := books.retried
  range := books.range

/-- The retried addresses change among the tracked ones. -/
theorem retry (books : Books ewma lastOk retrying tracked) {others : Finset Addr} (sub : ∀ b ∈ others, b ∈ tracked) :
    Books ewma lastOk others tracked := ⟨books.nodup, books.rated, books.clocked, sub, books.range⟩

end Books

/-! ## What a step does -/

/-- The address that was popped and is being probed. -/
def Phase.inFlight : Phase → List Addr
  | .checking job => [job.key]
  | .settling job _ _ => [job.key]
  | _ => []

namespace State

/-- The addresses in the heap. -/
def keys (s : State) : List Addr := s.heap.map Scheduled.key

/-- The addresses in the heap and the one that is being probed. -/
def tracked (s : State) : List Addr := s.phase.inFlight ++ s.keys

/-- The bookkeeping invariant. -/
def Kept (s : State) : Prop := Books s.ewma s.lastOk s.retrying s.tracked

end State

variable {cfg : RecheckConfig} {powf : ℚ → ℚ → ℚ} {sys sys' : Sys} {s s' : State} {i : Input}

/-- A step of the loop. It waits, enrols, drops an address that was deleted, probes one, or settles it. -/
inductive Move (pr : Precision) (cfg : RecheckConfig) (powf : ℚ → ℚ → ℚ) (sys : Sys) (s : State) : Sys → State → Prop
  | waits {ph : Phase} (resting : s.phase.inFlight = []) (rests : ph.inFlight = []) :
    Move pr cfg powf sys s sys { s with phase := ph }
  | enrolls (now : Instant) (draw : Addr → Draw) (atHead : s.phase = .head) :
    Move pr cfg powf sys s sys { enrollAll cfg now draw sys.pool.addrs s with phase := .enrolled }
  | drops {job : Scheduled} {rest : List Scheduled} (next : Instant) (resting : s.phase.inFlight = [])
    (popped : (job.key :: rest.map Scheduled.key).Perm s.keys) (unretried : job.key ∉ s.retrying) (gone : job.key ∉ sys.pool.addrs) :
    Move pr cfg powf sys s sys { s with
      heap := rest
      nextStart := next
      ewma := Function.update s.ewma job.key none
      lastOk := Function.update s.lastOk job.key none
      phase := .head }
  | probes {job : Scheduled} {rest : List Scheduled} (next : Instant) (resting : s.phase.inFlight = [])
    (popped : (job.key :: rest.map Scheduled.key).Perm s.keys) (kept : job.key ∈ s.retrying ∨ job.key ∈ sys.pool.addrs) :
    Move pr cfg powf sys s sys { s with heap := rest, nextStart := next, phase := .checking job }
  | checks {job : Scheduled} {proxy : Proxy} {working : Bool} (checking : s.phase = .checking job) (same : proxy.addr = job.key) :
    Move pr cfg powf sys s sys { s with phase := .settling job proxy working }
  | settles {job : Scheduled} {proxy : Proxy} {working : Bool} {sys' : Sys} (now : Instant) (draw : Draw)
    (settling : s.phase = .settling job proxy working)
    (called : sys.step (if working then .add proxy else .remove job.key) = some sys') :
    Move pr cfg powf sys s sys' (settledIn pr cfg powf s now draw job.key proxy working)

theorem popAt_perm {heap rest : List Scheduled} {k : Nat} {job : Scheduled} (h : popAt heap k = some (job, rest)) :
    (job :: rest).Perm heap := by
  unfold popAt at h
  split at h
  · cases h
  · rename_i e at_k
    split at h
    · cases h
      obtain ⟨hk, rfl⟩ := List.getElem?_eq_some_iff.1 at_k
      exact List.getElem_cons_eraseIdx_perm hk
    · cases h

/-- A step settles a check, or the loop is not at the end of one. -/
theorem stepIn_cases (h : stepIn pr cfg powf sys s i = some (sys', s')) :
    (∃ job proxy working now draw, s.phase = .settling job proxy working ∧ i = .settle now draw ∧
      sys.step (if working then .add proxy else .remove job.key) = some sys' ∧
      s' = settledIn pr cfg powf s now draw job.key proxy working) ∨
    ∀ job proxy working, s.phase ≠ .settling job proxy working := by
  replace h := turnIn_of_stepIn h
  cases at_s : s.phase with
  | settling job proxy working =>
    cases i with
    | settle now draw =>
      simp only [turnIn, at_s] at h
      obtain ⟨after, called, eq⟩ := Option.map_eq_some_iff.1 h
      cases eq
      exact Or.inl ⟨job, proxy, working, now, draw, rfl, rfl, called, rfl⟩
    | _ => simp [turnIn, at_s] at h
  | _ => exact Or.inr (by simp)

theorem step_move (h : stepIn pr cfg powf sys s i = some (sys', s')) : Move pr cfg powf sys s sys' s' := by
  have rest_at {ph ph' : Phase} (at_s : s.phase = ph) (resting : ph.inFlight = []) (rests : ph'.inFlight = []) :
      Move pr cfg powf sys s sys { s with phase := ph' } := .waits (by rw [at_s, resting]) rests
  replace h := turnIn_of_stepIn h
  unfold turnIn at h
  split at h
  · cases h
    exact .enrolls _ _ ‹_›
  · split at h
    · cases h
      exact rest_at ‹_› rfl rfl
    · cases h
      exact rest_at ‹_› rfl rfl
  · cases h
    exact rest_at ‹_› rfl rfl
  · cases h
    exact rest_at ‹_› rfl rfl
  · split at h
    · cases h
      exact rest_at ‹_› rfl rfl
    · cases h
      exact rest_at ‹_› rfl rfl
  · cases h
    exact rest_at ‹_› rfl rfl
  · rename_i startAt k throttled
    split at h
    · cases h
    · rename_i job rest popped
      have keys : (job.key :: rest.map Scheduled.key).Perm s.keys := (popAt_perm popped).map Scheduled.key
      have resting : s.phase.inFlight = [] := by
        rw [throttled]
        rfl
      dsimp only at h
      split at h
      · rename_i deleted
        cases h
        exact .drops _ resting keys deleted.1 deleted.2
      · rename_i kept
        cases h
        refine .probes _ resting keys ?_
        by_contra neither
        exact kept (not_or.1 neither)
  · cases h
    exact rest_at ‹_› rfl rfl
  · split at h
    · rename_i same
      cases h
      exact .checks ‹_› same
    · cases h
  · obtain ⟨after, called, eq⟩ := Option.map_eq_some_iff.1 h
    cases eq
    exact .settles _ _ ‹_› called
  · cases h

/-! ## The invariant -/

theorem enroll_kept (now : Instant) (draw : Addr → Draw) (a : Addr) (kept : s.Kept) : (enroll cfg now draw s a).Kept := by
  unfold enroll
  split
  · exact kept
  · rename_i absent
    have tracked : (a :: s.tracked).Perm (s.phase.inFlight ++ (a :: s.keys)) := List.perm_middle.symm
    exact (kept.enroll absent now).perm tracked

theorem enrollAll_kept (now : Instant) (draw : Addr → Draw) (addrs : List Addr) (kept : s.Kept) :
    (enrollAll cfg now draw addrs s).Kept := by
  induction addrs generalizing s with
  | nil => exact kept
  | cons a addrs ih => exact ih (enroll_kept now draw a kept)

@[simp] theorem enroll_phase (now : Instant) (draw : Addr → Draw) (a : Addr) : (enroll cfg now draw s a).phase = s.phase := by
  unfold enroll
  split
  · rfl
  · rfl

@[simp] theorem enroll_retrying (now : Instant) (draw : Addr → Draw) (a : Addr) :
    (enroll cfg now draw s a).retrying = s.retrying := by
  unfold enroll
  split
  · rfl
  · rfl

theorem enrollAll_phase (now : Instant) (draw : Addr → Draw) (addrs : List Addr) :
    (enrollAll cfg now draw addrs s).phase = s.phase := by
  induction addrs generalizing s with
  | nil => rfl
  | cons a addrs ih => exact (ih (s := enroll cfg now draw s a)).trans (enroll_phase now draw a)

theorem enrollAll_retrying (now : Instant) (draw : Addr → Draw) (addrs : List Addr) :
    (enrollAll cfg now draw addrs s).retrying = s.retrying := by
  induction addrs generalizing s with
  | nil => rfl
  | cons a addrs ih => exact (ih (s := enroll cfg now draw s a)).trans (enroll_retrying now draw a)

/-- The enrolment forgets no rate, and gives one to every address of the pool. -/
theorem enrollAll_rated (now : Instant) (draw : Addr → Draw) {addrs : List Addr} {a : Addr}
    (known : a ∈ addrs ∨ (s.ewma a).isSome) : ((enrollAll cfg now draw addrs s).ewma a).isSome := by
  induction addrs generalizing s with
  | nil =>
    rcases known with mem | rated
    · cases mem
    · exact rated
  | cons b addrs ih =>
    apply ih
    have here : ((enroll cfg now draw s b).ewma b).isSome := by
      unfold enroll
      split
      · rename_i rate
        rw [rate]
        rfl
      · simp
    have kept (rated : (s.ewma a).isSome) : ((enroll cfg now draw s b).ewma a).isSome := by
      by_cases same : a = b
      · exact same ▸ here
      · unfold enroll
        split
        · exact rated
        · simpa [same] using rated
    rcases known with mem | rated
    · rcases List.mem_cons.1 mem with rfl | later
      · exact Or.inr here
      · exact Or.inl later
    · exact Or.inr (kept rated)

theorem settleWith_phase (s : State) (now : Instant) (draw : Draw) (key : Addr) (working retried : Bool) (e : ℚ) :
    (settleWith cfg s now draw key working retried e).phase = .head := by
  unfold settleWith
  dsimp only
  split
  · rfl
  · split
    · rfl
    · rfl

theorem settled_phase (s : State) (now : Instant) (draw : Draw) (key : Addr) (proxy : Proxy) (working : Bool) :
    (settledIn pr cfg powf s now draw key proxy working).phase = .head := settleWith_phase s now draw key working _ _

theorem State.Kept.rate_range {key : Addr} (kept : s.Kept) : 0 ≤ (s.ewma key).getD 1 ∧ (s.ewma key).getD 1 ≤ 1 := by
  cases rate : s.ewma key with
  | none => norm_num
  | some e => exact kept.range key e rate

theorem settleWith_kept (now : Instant) (draw : Draw) {key : Addr} (working retried : Bool) {e : ℚ} (kept : s.Kept)
    (inFlight : s.phase.inFlight = [key]) (range : 0 ≤ e ∧ e ≤ 1) : (settleWith cfg s now draw key working retried e).Kept := by
  have books : Books s.ewma s.lastOk s.retrying (key :: s.keys) := by
    have := kept
    rwa [State.Kept, State.tracked, inFlight] at this
  have rated := books.rate List.mem_cons_self range
  unfold settleWith
  dsimp only
  split
  · refine (rated.clock List.mem_cons_self now).retry ?_
    intro b mem
    exact books.retried b (Finset.mem_of_mem_erase mem)
  · split
    · refine rated.retry ?_
      intro b mem
      rcases Finset.mem_insert.1 mem with rfl | listed
      · exact List.mem_cons_self
      · exact books.retried b listed
    · exact rated.forget

theorem settled_kept (now : Instant) (draw : Draw) {key : Addr} (proxy : Proxy) (working : Bool) (kept : s.Kept)
    (inFlight : s.phase.inFlight = [key]) : (settledIn pr cfg powf s now draw key proxy working).Kept :=
  have prev := @State.Kept.rate_range _ key kept
  settleWith_kept now draw working _ kept inFlight (foldSampleIn_range working prev.1 prev.2)

theorem move_kept (kept : s.Kept) (move : Move pr cfg powf sys s sys' s') : s'.Kept := by
  have resting_books (resting : s.phase.inFlight = []) : Books s.ewma s.lastOk s.retrying s.keys := by
    have := kept
    rwa [State.Kept, State.tracked, resting, List.nil_append] at this
  cases move with
  | @waits ph resting rests =>
    show Books s.ewma s.lastOk s.retrying (ph.inFlight ++ s.keys)
    rw [rests]
    exact resting_books resting
  | enrolls now draw atHead =>
    have all : (enrollAll cfg now draw sys.pool.addrs s).Kept := enrollAll_kept now draw sys.pool.addrs kept
    rw [State.Kept, State.tracked, enrollAll_phase, atHead] at all
    exact all
  | @drops job rest next resting popped unretried gone =>
    have forgotten := ((resting_books resting).perm popped.symm).forget
    rw [Finset.erase_eq_of_notMem unretried] at forgotten
    exact forgotten
  | probes next resting popped _ => exact (resting_books resting).perm popped.symm
  | checks checking same =>
    have here := kept
    rw [State.Kept, State.tracked, checking] at here
    exact here
  | settles now draw settling called => exact settled_kept now draw _ _ kept (by rw [settling]; rfl)

/-! ## What becomes of the rates -/

/-- The enrolment keeps the rates, and gives a full one to the addresses that it finds. -/
theorem enrollAll_ewma {now : Instant} {draw : Addr → Draw} {addrs : List Addr} {a : Addr} {e : ℚ}
    (h : (enrollAll cfg now draw addrs s).ewma a = some e) :
    s.ewma a = some e ∨ (s.ewma a = none ∧ a ∈ addrs ∧ e = 1) := by
  induction addrs generalizing s with
  | nil => exact Or.inl h
  | cons b addrs ih =>
    have one : (enroll cfg now draw s b).ewma a = s.ewma a ∨
        (s.ewma a = none ∧ a = b ∧ (enroll cfg now draw s b).ewma a = some 1) := by
      unfold enroll
      split
      · exact Or.inl rfl
      · rename_i absent
        by_cases same : a = b
        · subst same
          exact Or.inr ⟨absent, rfl, Function.update_self _ _ _⟩
        · exact Or.inl (Function.update_of_ne same _ _)
    rcases ih h with rated | ⟨absent, later, rfl⟩
    · rcases one with same | ⟨absent, rfl, full⟩
      · exact Or.inl (same.symm.trans rated)
      · rw [full] at rated
        cases rated
        exact Or.inr ⟨absent, List.mem_cons_self, rfl⟩
    · rcases one with same | ⟨-, -, full⟩
      · exact Or.inr ⟨same.symm.trans absent, List.mem_cons_of_mem b later, rfl⟩
      · rw [full] at absent
        cases absent

/-- Other steps only forget rates. -/
theorem step_ewma {a : Addr} {e : ℚ} (h : stepIn pr cfg powf sys s i = some (sys', s')) (unsettled : ∀ now draw, i ≠ .settle now draw)
    (unenrolled : ∀ now draw, i ≠ .enroll now draw) (rated : s'.ewma a = some e) : s.ewma a = some e := by
  replace h := turnIn_of_stepIn h
  unfold turnIn at h
  split at h
  · exact absurd rfl (unenrolled _ _)
  · split at h
    · cases h
      exact rated
    · cases h
      exact rated
  · cases h
    exact rated
  · cases h
    exact rated
  · split at h
    · cases h
      exact rated
    · cases h
      exact rated
  · cases h
    exact rated
  · split at h
    · cases h
    · rename_i job rest popped
      dsimp only at h
      split at h
      · cases h
        by_cases same : a = job.key
        · subst same
          simp at rated
        · simpa [same] using rated
      · cases h
        exact rated
  · cases h
    exact rated
  · split at h
    · cases h
      exact rated
    · cases h
  · exact absurd rfl (unsettled _ _)
  · cases h

/-- The rate of an address after a check: none when it is given up. -/
theorem settleWith_ewma (now : Instant) (draw : Draw) (key : Addr) (working retried : Bool) (e : ℚ) :
    (settleWith cfg s now draw key working retried e).ewma =
      Function.update s.ewma key (if working || retried then some e else none) := by
  unfold settleWith
  cases working with
  | true => rfl
  | false =>
    cases retried with
    | true => rfl
    | false => exact Function.update_idem _ _ _

/-- Only the end of a check leads to its settling. -/
theorem step_unsettled (h : stepIn pr cfg powf sys s i = some (sys', s')) (unchecked : ∀ proxy working, i ≠ .checked proxy working) :
    ∀ job proxy working, s'.phase ≠ .settling job proxy working := by
  intro job proxy working settling
  have move := step_move h
  replace h := turnIn_of_stepIn h
  cases move with
  | waits resting rests =>
    dsimp only at settling
    rw [settling] at rests
    cases rests
  | enrolls now draw atHead => cases settling
  | drops next resting popped unretried gone => cases settling
  | probes next resting popped kept => cases settling
  | @checks job' proxy' working' checking same =>
    cases i with
    | checked p b => exact unchecked p b rfl
    | _ => simp [turnIn, checking] at h
  | settles now draw at_s called =>
    rw [settled_phase] at settling
    cases settling

theorem step_enroll {now : Instant} {draw : Addr → Draw} (h : stepIn pr cfg powf sys s (.enroll now draw) = some (sys', s')) :
    sys' = sys ∧ s' = { enrollAll cfg now draw sys.pool.addrs s with phase := .enrolled } := by
  replace h := turnIn_of_stepIn h
  cases at_s : s.phase with
  | head =>
    simp only [turnIn, at_s] at h
    cases h
    exact ⟨rfl, rfl⟩
  | _ => simp [turnIn, at_s] at h

variable {w w' : World} {is : List World.Input}

/-- A step of the world leaves the loop alone, or is a step of it. -/
theorem World.stepIn_cases {j : World.Input} (h : World.stepIn pr cfg powf w j = some w') :
    (∃ i, j = .others i ∧ w.sys.step i = some w'.sys ∧ w'.loop = w.loop) ∨
    (∃ i, j = .loop i ∧ Scheduler.stepIn pr cfg powf w.sys w.loop i = some (w'.sys, w'.loop)) := by
  cases j with
  | others i =>
    obtain ⟨after, next, rfl⟩ := Option.map_eq_some_iff.1 h
    exact Or.inl ⟨i, rfl, next, rfl⟩
  | loop i =>
    obtain ⟨⟨after, loop⟩, next, rfl⟩ := Option.map_eq_some_iff.1 h
    exact Or.inr ⟨i, rfl, next⟩

theorem World.stepIn_kept {j : World.Input} (kept : w.loop.Kept) (h : World.stepIn pr cfg powf w j = some w') : w'.loop.Kept := by
  rcases World.stepIn_cases h with ⟨-, -, -, same⟩ | ⟨i, -, next⟩
  · rwa [same]
  · exact move_kept kept (step_move next)

theorem run_kept (kept : w.loop.Kept) (h : run (World.stepIn pr cfg powf) w is = some w') : w'.loop.Kept :=
  run_preserves (P := fun w => w.loop.Kept) (fun _ _ _ kept next => World.stepIn_kept kept next) kept h

theorem start_kept (now : Instant) : (State.start now).Kept where
  nodup := List.nodup_nil
  rated a := by simp [State.start, State.tracked, State.keys, Phase.inFlight]
  clocked a := by simp [State.start, State.tracked, State.keys, Phase.inFlight]
  retried a mem := by simp [State.start] at mem
  range a e rate := by cases rate

/-- **The bookkeeping invariant.** Whatever the rest of the system, the checks and the clock do: at every
head of the loop the rated and the clocked addresses are those in the heap, which occur once each, the
retried ones are among them and the rates are in `[0, 1]`; and the enrolment schedules the whole pool. -/
theorem bookkeeping (sys : Sys) (now : Instant) (h : run (World.step cfg powf) ⟨sys, State.start now⟩ is = some w) :
    (w.loop.phase = .head →
      (∀ a, (w.loop.ewma a).isSome ↔ (w.loop.lastOk a).isSome) ∧ (∀ a, (w.loop.ewma a).isSome ↔ a ∈ w.loop.keys) ∧
      w.loop.keys.Nodup ∧ (∀ a ∈ w.loop.retrying, a ∈ w.loop.keys) ∧
      ∀ a e, w.loop.ewma a = some e → 0 ≤ e ∧ e ≤ 1) ∧
    ∀ now draw w', World.step cfg powf w (.loop (.enroll now draw)) = some w' →
      w'.sys = w.sys ∧ ∀ a ∈ w'.sys.pool.addrs, a ∈ w'.loop.keys := by
  have kept := run_kept (start_kept now) h
  constructor
  · intro atHead
    rw [State.Kept, State.tracked, atHead] at kept
    exact ⟨fun a => (kept.rated a).trans (kept.clocked a).symm, kept.rated, kept.nodup, kept.retried, kept.range⟩
  · intro now' draw w' next
    obtain ⟨⟨after, loop⟩, moved, rfl⟩ := Option.map_eq_some_iff.1 next
    have kept' := move_kept kept (step_move moved)
    obtain ⟨rfl, rfl⟩ := step_enroll moved
    refine ⟨rfl, ?_⟩
    intro a mem
    exact (kept'.rated a).1 (enrollAll_rated now' draw (Or.inl mem))

/-- The inputs that take the loop to its first check, of the one address that is pooled. -/
def firstCheck (cfg : RecheckConfig) (now : Instant) (draw : Draw) : List World.Input :=
  let due := now + jitter cfg.minInterval draw
  [.loop (.enroll now fun _ => draw), .loop (.peek now), .loop (.woke due due), .loop (.begin 0)]

theorem firstCheck_run (pr : Precision) (powf : ℚ → ℚ → ℚ) (bounded : cfg.Bounded) {sys : Sys} {a : Addr} (single : sys.pool.addrs = [a])
    (now : Instant) (draw : Draw) :
    run (World.stepIn pr cfg powf) ⟨sys, State.start now⟩ (firstCheck cfg now draw) = some ⟨sys,
      { heap := []
        ewma := Function.update (fun _ => none) a (some 1)
        lastOk := Function.update (fun _ => none) a (some now)
        retrying := ∅
        nextStart := max now (now + jitter cfg.minInterval draw) + gap cfg
        phase := .checking ⟨now + jitter cfg.minInterval draw, a⟩ }⟩ := by
  simp [firstCheck, run, World.stepIn, stepIn, panicsIn_of_bounded bounded, turnIn, enrollAll, enroll, single, popAt, State.start]

theorem settle_run (bounded : cfg.Bounded) {job : Scheduled} (proxy : Proxy) (working : Bool) (checking : s.phase = .checking job)
    (same : proxy.addr = job.key) (called : sys.step (if working then .add proxy else .remove job.key) = some sys')
    (now : Instant) (draw : Draw) :
    run (World.stepIn pr cfg powf) ⟨sys, s⟩ [.loop (.checked proxy working), .loop (.settle now draw)] =
      some ⟨sys', settledIn pr cfg powf { s with phase := .settling job proxy working } now draw job.key proxy working⟩ := by
  simp [run, World.stepIn, stepIn, panicsIn_of_bounded bounded, turnIn, checking, same, called]

/-- A proxy is enrolled and fails its first check. -/
theorem bookkeeping_failed_check : ∃ is w,
    run (World.step .default fun _ _ => 1) ⟨Sys.fromProxies none [httpProxy 80] .default, State.start 0⟩ is = some w ∧
      w.loop.phase = .head ∧ w.loop.keys.Nodup := by
  have single : (Sys.fromProxies none [httpProxy 80] .default).pool.addrs = [(httpProxy 80).addr] := rfl
  have bounded := RecheckConfig.default_bounded
  have ended := (run_append (firstCheck_run .binary64 (fun _ _ => 1) bounded single 0 ⟨0, by norm_num⟩)).trans
    (settle_run bounded (httpProxy 80) false rfl rfl rfl (120 * 10 ^ 9) ⟨0, by norm_num⟩)
  exact ⟨_, _, ended, settled_phase _ _ _ _ _ _, ((bookkeeping _ 0 ended).1 (settled_phase _ _ _ _ _ _)).2.2.1⟩

end ProxyBroker.Scheduler
