import ProxyBroker.Failover

/-!
# The rotations counter (`server.rs:handle_client`, `Pool::rotations`)

The counter is raised when a request with an earlier attempt has its next proxy. `Handler.State.used` are the
addresses of a request's attempts, in order, and `switches` counts the neighbours that differ. A raise adds an
attempt to a request that has one (`used_step`), so the counter counts the neighbours of either kind, and it
counts the switches exactly when no retry is given an address that its request has just used.
-/

namespace ProxyBroker
open Lib Server

/-- The number of neighbours that differ. -/
def switches (used : List Addr) : Nat := (used.zip used.tail).countP fun pair => pair.1 ≠ pair.2

theorem switches_concat {used : List Addr} (some : used ≠ []) (a : Addr) :
    switches (used ++ [a]) = switches used + if used.getLast? = Option.some a then 0 else 1 := by
  induction used with
  | nil => exact absurd rfl some
  | cons b used ih =>
    cases used with
    | nil => by_cases same : b = a <;> simp [switches, same]
    | cons c used =>
      have rest := ih (by simp)
      have first (l : List Addr) : switches (b :: c :: l) = switches (c :: l) + if b ≠ c then 1 else 0 := by
        simp [switches, List.countP_cons]
      rw [List.getLast?_cons_cons, List.cons_append, List.cons_append, first, first, ← List.cons_append, rest]
      omega

/-! ## The attempts of a request -/

namespace Server.Handler
variable {ctx : ConnCtx} {s t : State} {i : Input}

/-- The addresses a request was relayed to, in order. -/
def State.used (s : State) : List Addr :=
  (s.attempts.map fun a => a.job.proxy.addr) ++
    match s.phase with
    | .relaying _ p _ => [p.addr]
    | _ => []

/-- The attempt index is the number of finished attempts. -/
def Numbered (s : State) : Prop :=
  match s.phase with
  | .accepted _ | .resolving _ => s.attempts = []
  | .getting sv | .relaying sv _ _ => s.attempts.length = sv.attempt
  | .rotating sv _ => s.attempts.length = sv.attempt ∧ 0 < sv.attempt
  | .recording sv _ | .putting sv _ _ _ | .notifying sv _ => s.attempts.length = sv.attempt + 1
  | _ => True

theorem numbered_dispatch {req : ClientRequest} {unread preface : Bytes} (none : s.attempts = []) :
    Numbered { s with phase := dispatch ctx req, unread := unread, preface := preface } := by
  unfold dispatch
  split
  · split
    · split <;> trivial
    · exact none
  · trivial

theorem used_dispatch {req : ClientRequest} {unread preface : Bytes} :
    State.used { s with phase := dispatch ctx req, unread := unread, preface := preface } =
      s.attempts.map fun a => a.job.proxy.addr := by
  unfold dispatch State.used
  split
  · split
    · split <;> exact List.append_nil _
    · exact List.append_nil _
  · exact List.append_nil _

theorem numbered_loopHead {sv : Serving} (index : s.attempts.length = sv.attempt) : Numbered (loopHead ctx s sv) := by
  unfold loopHead
  split
  · exact index
  · trivial

theorem used_loopHead {sv : Serving} : (loopHead ctx s sv).used = s.attempts.map fun a => a.job.proxy.addr := by
  unfold loopHead
  split <;> exact List.append_nil _

theorem numbered_continueWith {sv : Serving} {again : Bool} (index : s.attempts.length = sv.attempt + 1) :
    Numbered (continueWith ctx s sv again) := by
  unfold continueWith
  split
  · exact numbered_loopHead index
  · trivial

theorem used_continueWith {sv : Serving} {again : Bool} :
    (continueWith ctx s sv again).used = s.attempts.map fun a => a.job.proxy.addr := by
  unfold continueWith
  split
  · exact used_loopHead
  · exact List.append_nil _

theorem used_relayStep {sv : Serving} {proxy : Proxy} {r : Relay.State UInt8} {j : Relay.Input}
    (index : s.attempts.length = sv.attempt) (h : relayStep ctx s sv proxy r j = some t) :
    Numbered t ∧ t.used = (s.attempts.map fun a => a.job.proxy.addr) ++ [proxy.addr] := by
  obtain ⟨r', -, rfl⟩ := Option.map_eq_some_iff.1 h
  split
  · rename_i o ended
    cases o <;> simp [Numbered, State.used, conclude, relayJob, index]
  · exact ⟨index, rfl⟩

/-- How the attempts grow: not at all, or by the first, or by one more when the counter is raised. -/
def Grows (s : State) (i : Input) (t : State) : Prop :=
  (i ≠ .rotated ∧ (t.used = s.used ∨ s.used = [] ∧ ∃ a, t.used = [a])) ∨
  ∃ sv p, i = .rotated ∧ s.phase = .rotating sv p ∧ s.used ≠ [] ∧ t.used = s.used ++ [p.addr]

/-- What the phase adds to the finished attempts. -/
theorem used_eq (other : ∀ sv p r, s.phase ≠ .relaying sv p r) : s.used = s.attempts.map fun a => a.job.proxy.addr := by
  unfold State.used
  split
  · rename_i sv p r at_s
    exact absurd at_s (other sv p r)
  · exact List.append_nil _

/-- **One event of the handler.** -/
theorem used_step (inv : Numbered s) (h : step ctx s i = some t) : Numbered t ∧ Grows s i t := by
  have quiet {phase : Phase} {t : State} (at_s : s.phase = phase) (other : ∀ sv p r, phase ≠ .relaying sv p r)
      (event : i ≠ .rotated) (same : t.used = s.attempts.map fun a => a.job.proxy.addr) : Grows s i t :=
    Or.inl ⟨event, Or.inl (same.trans (used_eq (by rw [at_s]; exact other)).symm)⟩
  cases step_move h with
  | dropped at_s => exact ⟨trivial, quiet at_s (by simp) (by simp) (used_eq (by simp))⟩
  | parsed at_s =>
    rw [Numbered, at_s] at inv
    exact ⟨numbered_dispatch inv, quiet at_s (by simp) (by simp) used_dispatch⟩
  | resolve at_s =>
    rw [Numbered, at_s] at inv
    exact ⟨numbered_loopHead (by simp [inv]), quiet at_s (by simp) (by simp) used_loopHead⟩
  | @lease sv proxy at_s =>
    rw [Numbered, at_s] at inv
    by_cases again : 0 < sv.attempt
    · rw [if_pos again]
      exact ⟨⟨inv, again⟩, quiet at_s (by simp) (by simp) (used_eq (by simp))⟩
    · have first : s.attempts = [] := by
        rw [← List.length_eq_zero_iff]
        omega
      have unused : s.used = [] := by
        rw [used_eq (by simp [at_s]), first]
        rfl
      rw [if_neg again]
      refine ⟨inv, Or.inl ⟨by simp, Or.inr ⟨unused, proxy.addr, ?_⟩⟩⟩
      simp [State.used, first]
  | @rotate sv proxy at_s =>
    rw [Numbered, at_s] at inv
    have before := used_eq (s := s) (by simp [at_s])
    refine ⟨inv.1, Or.inr ⟨sv, proxy, rfl, at_s, ?_, ?_⟩⟩
    · rw [before, ne_eq, List.map_eq_nil_iff, ← List.length_eq_zero_iff]
      omega
    · rw [before]
      rfl
  | relay at_s moved =>
    rw [Numbered, at_s] at inv
    obtain ⟨numbered, used⟩ := used_relayStep inv moved
    refine ⟨numbered, Or.inl ⟨by simp, Or.inl ?_⟩⟩
    rw [used, State.used, at_s]
  | record at_s | push at_s =>
    rw [Numbered, at_s] at inv
    exact ⟨inv, quiet at_s (by simp) (by simp) (used_eq (by simp))⟩
  | evict at_s | notify at_s =>
    rw [Numbered, at_s] at inv
    exact ⟨numbered_continueWith inv, quiet at_s (by simp) (by simp) used_continueWith⟩
  | deny at_s | denied at_s | denyCut at_s | remove at_s | lookUp at_s | answer at_s | answered at_s | answerCut at_s
  | starve at_s | refuse at_s | refused at_s | refuseCut at_s =>
    exact ⟨trivial, quiet at_s (by simp) (by simp) (used_eq (by simp))⟩

theorem numbered_accept (stream : Bytes) (budget : Option Nat) : Numbered (accept stream budget) := rfl

theorem used_accept (stream : Bytes) (budget : Option Nat) : (accept stream budget).used = [] := rfl

end Server.Handler

/-! ## A step of a task -/

namespace Client
variable {c d : Client}

def used : Client → List Addr
  | .serving _ hs => hs.used
  | .connecting _ => []

def Numbered : Client → Prop
  | .serving _ hs => Handler.Numbered hs
  | .connecting _ => True

/-- The attempts stay, or the first is made. -/
def Stays (c d : Client) : Prop := d.used = c.used ∨ c.used = [] ∧ ∃ a, d.used = [a]

/-- A retry gets its proxy: the counter is raised. -/
def Raises (c : Client) (p : Proxy) : Prop := ∃ ctx hs sv, c = .serving ctx hs ∧ hs.phase = .rotating sv p

theorem used_answer {r : Reply} (inv : c.Numbered) (h : c.answer r = some d) :
    d.Numbered ∧ ((r ≠ .rotated ∧ c.Stays d) ∨ ∃ p, c.Raises p ∧ c.used ≠ [] ∧ d.used = c.used ++ [p.addr]) := by
  cases c with
  | serving ctx hs =>
    obtain ⟨hs', next, rfl⟩ := Option.map_eq_some_iff.1 h
    obtain ⟨numbered, ⟨other, stays⟩ | ⟨sv, p, -, rotating, some, more⟩⟩ := Handler.used_step inv next
    · refine ⟨numbered, Or.inl ⟨?_, stays⟩⟩
      rintro rfl
      exact other rfl
    · exact ⟨numbered, Or.inr ⟨p, ⟨ctx, hs, sv, rfl, rotating⟩, some, more⟩⟩
  | connecting s =>
    cases r
    case got p =>
      obtain ⟨s', -, rfl⟩ := Option.map_eq_some_iff.1 h
      exact ⟨trivial, Or.inl ⟨by simp, Or.inl rfl⟩⟩
    case returned pushed =>
      obtain ⟨s', -, rfl⟩ := Option.map_eq_some_iff.1 h
      exact ⟨trivial, Or.inl ⟨by simp, Or.inl rfl⟩⟩
    case notified =>
      obtain ⟨s', -, rfl⟩ := Option.map_eq_some_iff.1 h
      exact ⟨trivial, Or.inl ⟨by simp, Or.inl rfl⟩⟩
    all_goals cases h

theorem used_io {i : Io} (inv : c.Numbered) (h : c.io i = some d) : d.Numbered ∧ c.Stays d := by
  unfold io at h
  split at h
  · rename_i ctx hs i nothing
    obtain ⟨hs', next, rfl⟩ := Option.map_eq_some_iff.1 h
    obtain ⟨numbered, ⟨-, stays⟩ | ⟨sv, p, -, rotating, -⟩⟩ := Handler.used_step inv next
    · exact ⟨numbered, stays⟩
    · simp [demand, rotating] at nothing
  · obtain ⟨s', -, rfl⟩ := Option.map_eq_some_iff.1 h
    exact ⟨trivial, Or.inl rfl⟩
  · cases h

end Client

namespace Server.Lease
variable {scheme : Scheme} {key : ClientKey} {sh sh' : Shared} {acc acc' : Account} {g g' : State} {i : Input}

theorem step_rotations (h : step scheme key sh acc g i = some (sh', acc', g')) : sh'.pool.rotations = sh.pool.rotations := by
  cases step_move h with
  | draw _ taken =>
    obtain ⟨-, -, -, eq⟩ := Pool.takeChosen_spec taken
    rw [eq]
  | @note _ p victim =>
    obtain ⟨sessions, cursor, eq⟩ := Pool.noteChosen_eq sh.pool key p victim
    rw [eq]
  | @bench p now =>
    obtain ⟨_, _, eq⟩ := Shared.putBack_frame sh p true now
    rw [eq]
  | _ => rfl

end Server.Lease

namespace Task
variable {sh sh' : Shared} {t t' : Task} {i : Input}

/-- **A step of a task and the counter.** -/
theorem step_rotations (inv : t.client.Numbered) (h : t.step sh i = some (sh', t')) :
    t'.client.Numbered ∧
    ((sh'.pool.rotations = sh.pool.rotations ∧ t.client.Stays t'.client ∧ ∀ now p, i = .op now → ¬ t.client.Raises p) ∨
    ∃ now p, i = .op now ∧ t.client.Raises p ∧ sh'.pool.rotations = sh.pool.rotations + 1 ∧ t.client.used ≠ [] ∧
      t'.client.used = t.client.used ++ [p.addr]) := by
  have asks {p : Proxy} (raises : t.client.Raises p) : t.client.demand = .rotate := by
    obtain ⟨ctx, hs, sv, serving, rotating⟩ := raises
    simp [serving, Client.demand, rotating]
  -- an operation other than the rotation leaves the counter alone, and its answer is not `rotated`
  have quiet {d : Demand} {r : Reply} {c : Client} {now : Instant} (demands : t.client.demand = d) (other : d ≠ .rotate)
      (answered : t.client.answer r = some c) : c.Numbered ∧ t.client.Stays c ∧
        ∀ now' p, Input.op now = .op now' → ¬ t.client.Raises p := by
    have calm (p : Proxy) : ¬ t.client.Raises p := fun raises => other (demands.symm.trans (asks raises))
    obtain ⟨numbered, ⟨-, stays⟩ | ⟨p, raises, -⟩⟩ := Client.used_answer inv answered
    · exact ⟨numbered, stays, fun _ p _ => calm p⟩
    · exact absurd raises (calm p)
  cases step_move h with
  | io moved =>
    obtain ⟨numbered, stays⟩ := Client.used_io inv moved
    exact ⟨numbered, Or.inl ⟨rfl, stays, fun _ _ eq => by cases eq⟩⟩
  | lease _ moved => exact ⟨inv, Or.inl ⟨Lease.step_rotations moved, Or.inl rfl, fun _ _ eq => by cases eq⟩⟩
  | @put now p failed _ demands answered =>
    obtain ⟨_, _, frame⟩ := Shared.putBack_frame sh p failed now
    obtain ⟨numbered, still⟩ := quiet demands (by simp) answered
    exact ⟨numbered, Or.inl ⟨by rw [frame], still⟩⟩
  | @rotate now _ _ answered =>
    obtain ⟨numbered, ⟨other, -⟩ | ⟨p, raises, some, more⟩⟩ := Client.used_answer inv answered
    · exact absurd rfl other
    · exact ⟨numbered, Or.inr ⟨now, p, rfl, raises, rfl, some, more⟩⟩
  | deliver demands _ answered =>
    obtain ⟨numbered, still⟩ := quiet demands (by simp) answered
    exact ⟨numbered, Or.inl ⟨rfl, still⟩⟩
  | notify demands answered | remove demands answered | lookUp demands answered | record demands answered =>
    obtain ⟨numbered, still⟩ := quiet demands (by simp) answered
    exact ⟨numbered, Or.inl ⟨rfl, still⟩⟩

end Task

/-! ## Runs -/

namespace Sys
variable {s t : Sys} {i : Input} {is : List Input} {k : Nat}

/-- The number of consecutive attempts of one request at different addresses, over all requests. -/
def switches (s : Sys) : Nat := (s.tasks.map fun task => ProxyBroker.switches task.client.used).sum

/-- A retry whose counter is raised in this step was given another address than its request has just used. -/
def Switches (s : Sys) (i : Input) : Prop :=
  ∀ k now task p, i = .task k (.op now) → s.tasks[k]? = some task → task.client.Raises p →
    task.client.used.getLast? ≠ some p.addr

theorem switches_set {task task' : Task} (at_k : s.tasks[k]? = some task) (set : t.tasks = s.tasks.set k task') :
    t.switches + ProxyBroker.switches task.client.used = s.switches + ProxyBroker.switches task'.client.used := by
  obtain ⟨before, after, split, update⟩ := exists_set_frame at_k
  rw [switches, switches, set, update, split]
  simp only [List.map_append, List.map_cons, List.sum_append, List.sum_cons]
  omega

theorem stays_switches {c d : Client} (stays : c.Stays d) : ProxyBroker.switches d.used = ProxyBroker.switches c.used := by
  rcases stays with same | ⟨none, a, one⟩
  · rw [same]
  · rw [none, one]
    rfl

/-- A task that begins has made no attempt. -/
theorem start_unused {client : Client} (h : step s i = some t) (more : t.tasks = s.tasks ++ [Task.start client]) :
    client.Numbered ∧ client.used = [] := by
  have appended (c : Client) (same : t.tasks = s.tasks ++ [Task.start c]) : client = c := by
    rw [more] at same
    have last := List.append_cancel_left same
    exact congrArg Task.client (List.cons.inj last).1
  cases step_move h with
  | @accept peerIp stream budget =>
    rw [appended _ rfl]
    exact ⟨Handler.numbered_accept stream budget, Handler.used_accept stream budget⟩
  | connect =>
    rw [appended _ rfl]
    exact ⟨trivial, rfl⟩
  | imported | screened | announced | ended | exhausted | held | added | remove | tryGet | task =>
    have longer := congrArg List.length more
    simp [setPool] at longer

/-- **One step and the counter.** Both grow alike, unless a retry was given the address its request has just
used: then only the counter grows. -/
theorem rotations_step (inv : ∀ task ∈ s.tasks, task.client.Numbered) (h : step s i = some t) :
    (∀ task ∈ t.tasks, task.client.Numbered) ∧
    ((s.Switches i ∧ ∃ n ≤ 1, t.pool.rotations = s.pool.rotations + .ofNat n ∧ t.switches = s.switches + n) ∨
    (¬ s.Switches i ∧ t.pool.rotations = s.pool.rotations + 1 ∧ t.switches = s.switches)) := by
  have outside (away : ∀ k j, i ≠ .task k j) : s.Switches i := fun k now _ _ eq => absurd eq (away k (.op now))
  rcases step_tasks h with ⟨away, same⟩ | ⟨away, client, -, more, -⟩ | ⟨k, j, task, task', rfl, at_k, moved, set⟩
  · refine ⟨by rw [same]; exact inv, Or.inl ⟨outside away, 0, Nat.zero_le 1, (step_outside away h).2.trans (UInt64.add_zero _).symm, ?_⟩⟩
    rw [switches, switches, same]
    rfl
  · obtain ⟨numbered, unused⟩ := start_unused h more
    refine ⟨?_, Or.inl ⟨outside away, 0, Nat.zero_le 1, (step_outside away h).2.trans (UInt64.add_zero _).symm, ?_⟩⟩
    · intro task mem
      rw [more, List.mem_append, List.mem_singleton] at mem
      rcases mem with old | rfl
      · exact inv task old
      · exact numbered
    · rw [switches, switches, more]
      simp [Task.start, unused, ProxyBroker.switches]
  · have total := switches_set at_k set
    obtain ⟨numbered, effect⟩ := Task.step_rotations (inv task (List.mem_of_getElem? at_k)) moved
    refine ⟨?_, ?_⟩
    · intro other mem
      rw [set] at mem
      rcases List.mem_or_eq_of_mem_set mem with old | rfl
      · exact inv other old
      · exact numbered
    · rcases effect with ⟨same, stays, calm⟩ | ⟨now, p, rfl, raises, raised, some, more⟩
      · have kept := stays_switches stays
        refine Or.inl ⟨?_, 0, Nat.zero_le 1, same.trans (UInt64.add_zero _).symm, by omega⟩
        rintro l now other p eq at_l raises
        cases eq
        obtain rfl : task = other := Option.some.inj (at_k.symm.trans at_l)
        exact absurd raises (calm now p rfl)
      · have grown := switches_concat some p.addr
        rw [← more] at grown
        by_cases again : task.client.used.getLast? = Option.some p.addr
        · rw [if_pos again] at grown
          exact Or.inr ⟨fun ok => ok k now task p rfl at_k raises again, raised, by omega⟩
        · rw [if_neg again] at grown
          refine Or.inl ⟨?_, 1, le_rfl, raised, by omega⟩
          rintro l now' other q eq at_l raises'
          cases eq
          obtain rfl : task = other := Option.some.inj (at_k.symm.trans at_l)
          obtain ⟨ctx, hs, sv, serving, rotating⟩ := raises
          obtain ⟨ctx', hs', sv', serving', rotating'⟩ := raises'
          cases serving.symm.trans serving'
          cases rotating.symm.trans rotating'
          exact again

/-- **The rotations counter.** After a run the counter is the number of consecutive attempts of one request at
different addresses exactly when every retry of the run was given another address than its request has just
used. The run is shorter than the 64-bit counter is wide. -/
theorem rotations_iff (initial : s.Initial) (short : is.length < 2 ^ 64) (h : run step s is = some t) :
    t.pool.rotations.toNat = t.switches ↔ Along step Switches s is := by
  have all : (∀ task ∈ t.tasks, task.client.Numbered) ∧ ∃ n, t.pool.rotations = .ofNat n ∧ n ≤ is.length ∧ t.switches ≤ n ∧
      (n = t.switches ↔ Along step Switches s is) := by
    refine run_reached (P := fun is t => (∀ task ∈ t.tasks, task.client.Numbered) ∧ ∃ n, t.pool.rotations = .ofNat n ∧
      n ≤ is.length ∧ t.switches ≤ n ∧ (n = t.switches ↔ Along step Switches s is)) ?_ ?_ h
    · rintro is u i t reached ⟨numbered, m, counter, few, below, so_far⟩ next
      obtain ⟨numbered', effect⟩ := rotations_step numbered next
      rw [along_concat_iff reached, ← so_far, List.length_append, List.length_singleton]
      rcases effect with ⟨ok, n, one, raised, switched⟩ | ⟨bad, raised, switched⟩
      · refine ⟨numbered', m + n, by rw [raised, counter, UInt64.ofNat_add], by omega, by omega, ?_⟩
        constructor
        · intro eq
          exact ⟨by omega, ok⟩
        · rintro ⟨eq, -⟩
          omega
      · refine ⟨numbered', m + 1, by rw [raised, counter, UInt64.ofNat_add]; rfl, by omega, by omega, ?_⟩
        constructor
        · intro eq
          omega
        · rintro ⟨-, ok⟩
          exact absurd ok bad
    · rcases initial with ⟨auth, proxies, config, rfl⟩ | ⟨auth, config, rfl⟩
      · exact ⟨by simp [fromProxies], 0, rfl, le_rfl, le_rfl, iff_of_true rfl trivial⟩
      · exact ⟨by simp [spawn], 0, rfl, le_rfl, le_rfl, iff_of_true rfl trivial⟩
  obtain ⟨-, n, counter, few, -, exact_iff⟩ := all
  rw [counter, UInt64.toNat_ofNat_of_lt' (by change n < 2 ^ 64; omega)]
  exact exact_iff

/-- The failed attempt, its retry, and the second attempt. -/
def secondAttempt : List Input :=
  attempted ++ [.task 0 (.op 0)] ++ retrying ++ reselecting ++ [.task 0 (.op 0), .task 0 (.op 0)]

/-- With a second proxy the retry moves to it, and the counter says so. -/
theorem rotations_iff_second :
    ∃ t, run step twoProxies secondAttempt = some t ∧ t.pool.rotations.toNat = 1 ∧ Along step Switches twoProxies secondAttempt := by
  have counts : (run step twoProxies secondAttempt).map (fun t => (t.pool.rotations.toNat, t.switches)) = some (1, 1) := by
    decide +kernel
  obtain ⟨t, ran, eq⟩ := Option.map_eq_some_iff.1 counts
  obtain ⟨rotations, switches⟩ := Prod.mk.inj eq
  have initial : twoProxies.Initial := Or.inl ⟨none, [httpProxy 80, httpProxy 81], PoolConfig.default, rfl⟩
  exact ⟨t, ran, rotations, (rotations_iff initial (by decide) ran).1 (rotations.trans switches.symm)⟩

/-- A pool of one proxy: the retry is given the benched proxy again, and the counter is raised. -/
theorem rotations_miscounted : ∃ t, run step (fromProxies none [httpProxy 80] PoolConfig.default) secondAttempt = some t ∧
    t.pool.rotations.toNat ≠ t.switches := by
  have counts : (run step (fromProxies none [httpProxy 80] PoolConfig.default) secondAttempt).map
      (fun t => (t.pool.rotations.toNat, t.switches)) = some (1, 0) := by
    decide +kernel
  obtain ⟨t, ran, eq⟩ := Option.map_eq_some_iff.1 counts
  obtain ⟨rotations, switches⟩ := Prod.mk.inj eq
  exact ⟨t, ran, by rw [rotations, switches]; decide⟩

end Sys

end ProxyBroker
