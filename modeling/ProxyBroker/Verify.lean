import ProxyBroker.Conservation

/-!
# Verify-on-lease

With `verify_on_lease` set, `get` probes the proxy it has drawn before it returns it. Two questions.

*Is what `get` returns probed?* The look that `get` takes once the source is exhausted returns what it
draws as it is, and another task may have put a proxy back between the failed draw and that look. So
`verified_returns` holds for the runs in which no last look finds an eligible proxy.

*Does `get` find a live proxy?* The probe is a `CONNECT`, whatever the proxy was confirmed to speak. A
live proxy that speaks only SOCKS or plain HTTP fails it, is benched, and may be drawn again until `get`
gives up. By `live_leases_iff` one of the proxies that are drawn until then must be known to answer a `CONNECT`.
-/

namespace ProxyBroker
open Lib Server

/-! ## What a call of `get` did -/

namespace Server.Lease

/-- A draw, or a call of `verify_live` with its result. -/
inductive Event where
  | drawn (proxy : Proxy)
  | probed (proxy : Proxy) (alive : Bool)

/-- What a step of `get` did, by where it stood before the step and stands after it. -/
def events (g : State) (i : Input) (g' : State) : List Event :=
  match i, g.phase, g'.phase with
  | .choose _, _, .noting _ p => [.drawn p]
  | .probe alive, .probing p, _ => [.probed p alive]
  | _, _, _ => []

end Server.Lease

namespace Sys

/-- What task `k`'s present call of `get` did so far. The call ends, and the next begins with nothing
done, when the task performs an operation. -/
def calls (k : Nat) (log : List Lease.Event) (s : Sys) (i : Input) (t : Sys) : List Lease.Event :=
  match i with
  | .task l j =>
    if l = k then
      match j, s.tasks[k]?, t.tasks[k]? with
      | .lease j, some before, some after => log ++ Lease.events before.lease j after.lease
      | .op _, _, _ => []
      | _, _, _ => log
    else log
  | _ => log

/-- The last look of a `get`, if the step is one, finds no proxy that serves the scheme. -/
def LastLookFails (s : Sys) (i : Input) : Prop :=
  ∀ k seed task waker ctx, i = .task k (.lease (.choose seed)) → s.tasks[k]? = some task →
    task.lease.phase = .choosing waker true ctx → ∀ e ∈ s.pool.state, e.proxy.servesScheme ctx.scheme = false

/-- What the log of a call says, by where the call stands. -/
def Logged (log : List Lease.Event) : Lease.Phase → Prop
  | .noting last p => last = false ∧ ∃ earlier, log = earlier ++ [.drawn p]
  | .probing p => ∃ earlier, log = earlier ++ [.drawn p]
  | .returned (some p) => ∃ earlier, log = earlier ++ [.drawn p, .probed p true]
  | _ => True

/-- One step of `get`, where its last look fails. -/
theorem logged_step {scheme : Scheme} {key : ClientKey} {sh sh' : Shared} {acc acc' : Account} {g g' : Lease.State}
    {i : Lease.Input} {log : List Lease.Event} (verify : sh.pool.config.verifyOnLease.isSome = true)
    (fails : ∀ seed waker ctx, i = .choose seed → g.phase = .choosing waker true ctx →
      ∀ e ∈ sh.pool.state, e.proxy.servesScheme ctx.scheme = false)
    (inv : Logged log g.phase) (h : Lease.step scheme key sh acc g i = some (sh', acc', g')) :
    Logged (log ++ Lease.events g i g') g'.phase := by
  cases Lease.step_move h with
  | enter | read | wake => exact trivial
  | @draw waker last ctx seed p _ at_g taken =>
    refine ⟨?_, log, ?_⟩
    · cases last with
      | false => rfl
      | true =>
        rw [Pool.takeChosen_eq_none.2 (fails seed waker ctx rfl at_g)] at taken
        cases taken
    · simp [Lease.events]
  | @miss _ last => cases last <;> exact trivial
  | note at_g =>
    rw [at_g] at inv
    obtain ⟨rfl, earlier, rfl⟩ := inv
    simp only [verify, and_self, if_true, Lease.events, List.append_nil]
    exact ⟨earlier, rfl⟩
  | @probe _ alive at_g =>
    rw [at_g] at inv
    obtain ⟨earlier, rfl⟩ := inv
    cases alive with
    | false => exact trivial
    | true => exact ⟨earlier, by simp [Lease.events, at_g]⟩
  | bench =>
    split
    · unfold Lease.redraw
      split <;> exact trivial
    · exact trivial
  | notify =>
    unfold Lease.redraw
    split <;> exact trivial
  | check => cases sh.pool.exhausted <;> exact trivial

variable {s t : Sys} {k : Nat} {i : Input} {is : List Input} {log : List Lease.Event}

/-- Outside a call of `get` there is nothing to say. -/
theorem logged_idle {g : Lease.State} (idle : g.held = none) (log : List Lease.Event) : Logged log g.phase := by
  cases at_g : g.phase with
  | returned r => cases r <;> simp_all [Lease.State.held, Logged]
  | _ => simp_all [Lease.State.held, Logged]

/-- The invariant of a run with the log of task `k`'s call. -/
structure Verifies (k : Nat) (w : Sys × List Lease.Event) : Prop where
  sound : ∀ task ∈ w.1.tasks, task.Sound
  verify : w.1.pool.config.verifyOnLease.isSome = true
  logged : ∀ task, w.1.tasks[k]? = some task → Logged w.2 task.lease.phase

/-- A step of task `k` itself. -/
theorem logged_task {task task' : Task} {j : Task.Input} {sh : Shared} (sound : task.Sound)
    (verify : s.pool.config.verifyOnLease.isSome = true) (fails : s.LastLookFails (.task k j)) (at_k : s.tasks[k]? = some task)
    (inv : Logged log task.lease.phase) (h : task.step s.shared j = some (sh, task')) (at_k' : t.tasks[k]? = some task') :
    Logged (calls k log s (.task k j) t) task'.lease.phase := by
  cases Task.step_move h with
  | io => simpa [calls] using inv
  | lease _ moved =>
    simp only [calls, if_true, at_k, at_k']
    refine logged_step verify ?_ inv moved
    rintro seed waker ctx rfl at_g
    exact fails k seed task waker ctx rfl at_k at_g
  | deliver =>
    simp only [calls, if_true]
    exact trivial
  | put asks | notify asks | rotate asks | remove asks | lookUp asks | record asks =>
    simp only [calls, if_true]
    exact logged_idle (sound.none_made asks (by simp)) []

theorem verifies_step {w x : Sys × List Lease.Event} (inv : Verifies k w) (fails : w.1.LastLookFails i)
    (h : noting step (calls k) w i = some x) : Verifies k x := by
  obtain ⟨next, eq⟩ := noting_eq h
  refine ⟨step_sound inv.sound next, by rw [step_config inv.sound next]; exact inv.verify, ?_⟩
  rw [eq]
  have other (away : ∀ j, i ≠ .task k j) : calls k w.2 w.1 i x.1 = w.2 := by
    cases i with
    | task l j =>
      have ne : l ≠ k := by
        rintro rfl
        exact away j rfl
      simp [calls, ne]
    | _ => rfl
  intro task' at_k'
  rcases step_tasks next with ⟨away, same⟩ | ⟨away, client, idle, more, -⟩ | ⟨l, j, task, moved', rfl, at_l, moved, set⟩
  · rw [other (away k)]
    exact inv.logged task' (same ▸ at_k')
  · rw [other (away k)]
    rw [more] at at_k'
    rcases getElem?_concat_cases at_k' with old | rfl
    · exact inv.logged task' old
    · exact trivial
  · rw [set] at at_k'
    by_cases here : l = k
    · subst here
      rw [List.getElem?_set_self (List.getElem?_eq_some_iff.1 at_l).1] at at_k'
      cases at_k'
      refine logged_task (inv.sound task (List.mem_of_getElem? at_l)) inv.verify fails at_l (inv.logged task at_l) moved ?_
      rw [set, List.getElem?_set_self (List.getElem?_eq_some_iff.1 at_l).1]
    · rw [List.getElem?_set_ne here] at at_k'
      rw [other (by rintro j' ⟨rfl, -⟩; exact here rfl)]
      exact inv.logged task' at_k'

/-- **Verify-on-lease.** In every interleaving in which no last look finds an eligible proxy: when a call
of `get` has returned a proxy, the last two things it did are to draw that proxy and to call `verify_live`
on it, with the result `true`. -/
theorem verified_returns {task : Task} {p : Proxy} (start : Initial s) (verify : s.pool.config.verifyOnLease.isSome = true)
    (fails : Along step LastLookFails s is) (h : run (noting step (calls k)) (s, []) is = some (t, log))
    (at_k : t.tasks[k]? = some task) (returned : task.lease.phase = .returned (some p)) :
    ∃ earlier, log = earlier ++ [.drawn p, .probed p true] := by
  have first : Verifies k (s, []) := by
    refine ⟨(kept_initial start).sound, verify, ?_⟩
    intro task at_k
    rcases start with ⟨auth, proxies, config, rfl⟩ | ⟨auth, config, rfl⟩ <;> cases at_k
  have inv := run_preserves_along (fun _ _ _ inv ok next => verifies_step inv ok next) first fails.noting h
  have logged := inv.logged task at_k
  rw [returned] at logged
  exact logged

/-- A pool that probes before it lends. -/
def verifying : PoolConfig := { PoolConfig.default with verifyOnLease := some 1000 }

/-- A connector call `k`, up to the draw of its `get`. -/
def drawing (k : Nat) : List Input :=
  [.connect ⟨none, some ['h'], none⟩ 1, .task k (.io (.connect .call)), .task k (.io (.connect (.resolved none))),
    .task k (.lease .notified), .task k (.lease (.read 0)), .task k (.lease (.choose 0))]

/-- The proxy it has drawn answers the probe. -/
def probed (k : Nat) : List Input := [.task k (.lease (.note 0)), .task k (.lease (.probe true))]

/-- A second call finds the pool empty, the first puts its proxy back, and the second takes its last
look. -/
def lastLook : List Input :=
  drawing 0 ++ probed 0 ++ [.task 0 (.op 0)] ++ drawing 1 ++ failing ++
    [.task 1 (.lease .check), .task 1 (.lease (.read 0)), .task 1 (.lease (.choose 0)), .task 1 (.lease (.note 0))]

/-- The second call of `lastLook` returns a proxy that it has not probed. -/
theorem unverified_return :
    ¬ ∀ (s t : Sys) (is : List Input) (k : Nat) (log : List Lease.Event) (task : Task) (p : Proxy), Initial s →
      s.pool.config.verifyOnLease.isSome = true → run (noting step (calls k)) (s, []) is = some (t, log) →
      t.tasks[k]? = some task → task.lease.phase = .returned (some p) →
      ∃ earlier, log = earlier ++ [.drawn p, .probed p true] := by
  intro general
  obtain ⟨t, log, task, p, ran, once, at_k, returned⟩ : ∃ t log task p,
      run (noting step (calls 1)) (fromProxies none [httpProxy 80] verifying, []) lastLook = some (t, log) ∧
        log.length = 1 ∧ t.tasks[1]? = some task ∧ task.lease.phase = .returned (some p) :=
    ⟨_, _, _, _, rfl, rfl, rfl, rfl⟩
  obtain ⟨earlier, eq⟩ := general _ t _ 1 log task p (Or.inl ⟨_, _, _, rfl⟩) rfl ran at_k returned
  rw [eq, List.length_append] at once
  exact absurd once (by simp)

/-- A call that finds a proxy returns it after the probe. -/
theorem verified_returns_probed :
    ∃ t log task p, run (noting step (calls 0)) (fromProxies none [httpProxy 80] verifying, []) (drawing 0 ++ probed 0) =
        some (t, log) ∧ t.tasks[0]? = some task ∧ task.lease.phase = .returned (some p) ∧
      ∃ earlier, log = earlier ++ [.drawn p, .probed p true] := by
  obtain ⟨t, log, task, p, ran, at_k, returned⟩ : ∃ t log task p,
      run (noting step (calls 0)) (fromProxies none [httpProxy 80] verifying, []) (drawing 0 ++ probed 0) = some (t, log) ∧
        t.tasks[0]? = some task ∧ task.lease.phase = .returned (some p) :=
    ⟨_, _, _, _, rfl, rfl, rfl⟩
  refine ⟨t, log, task, p, ran, at_k, returned, verified_returns (Or.inl ⟨_, _, _, rfl⟩) rfl ?_ ran at_k returned⟩
  have quiet {j : Input} {v : Sys} (other : ∀ k seed, j ≠ .task k (.lease (.choose seed))) : LastLookFails v j := by
    intro k seed task waker ctx eq
    exact absurd eq (other k seed)
  -- the only draw of this run is not a last look
  obtain ⟨mid, before, reached, at_mid, chooses⟩ : ∃ mid before,
      run step (fromProxies none [httpProxy 80] verifying) ((drawing 0).take 5) = some mid ∧ mid.tasks[0]? = some before ∧
        ∃ ctx, before.lease.phase = .choosing 0 false ctx := ⟨_, _, rfl, rfl, _, rfl⟩
  show Along step LastLookFails _ ((drawing 0).take 5 ++ .task 0 (.lease (.choose 0)) :: probed 0)
  apply Along.append
  · exact along_of_forall fun j mem v => quiet (by rintro k seed rfl; simp [drawing] at mem)
  intro v reached'
  obtain rfl : mid = v := Option.some.inj (reached.symm.trans reached')
  refine ⟨?_, fun _ _ => along_of_forall fun j mem v => quiet (by rintro k seed rfl; simp [probed] at mem)⟩
  intro k seed task waker ctx eq at_k last
  cases eq
  obtain rfl : before = task := Option.some.inj (at_mid.symm.trans at_k)
  obtain ⟨ctx', first⟩ := chooses
  rw [first] at last
  cases last

end Sys

/-! ## Live proxies -/

/-- How a negotiation opens a connection: which bytes it sends first, or which SOCKS handshake. -/
inductive Opening where
  | request (bytes : Bytes)
  | socks (proto : Proto) (target : Target) (creds : Option Credentials)
deriving DecidableEq

def opening (proto : Proto) (target : Target) (creds : Option Credentials) : Opening :=
  match proto with
  | .http => .request []
  | .socks4 | .socks5 => .socks proto target creds
  | .connect80 | .connect25 | .https => .request (connectRequest target.host target.port creds)

/-- The other side: which addresses accept a connection, and what happens on one that is opened so. -/
structure Net where
  dials : Addr → Bool
  events : Addr → Opening → List Negotiation.Input

namespace Net

/-- `negotiate` on a new connection to the proxy. -/
def negotiate (net : Net) (p : Proxy) (proto : Proto) (target : Target) : Negotiation :=
  Negotiation.drive proto (Negotiation.start proto target p.auth) (net.events p.addr (opening proto target p.auth))

/-- `verify_live`, which is `probe_tunnel` towards the verify target. -/
def verifyLive (net : Net) (config : PoolConfig) (p : Proxy) : Bool :=
  net.dials p.addr && net.negotiate p .connect80 ⟨config.verifyTarget.1, none, config.verifyTarget.2⟩ = .opened

/-- The proxy accepts connections, and the negotiator of each of its confirmed types opens towards every
target it can be asked for (SOCKS4 takes IPv4 targets only). -/
def Alive (net : Net) (p : Proxy) : Prop :=
  net.dials p.addr = true ∧ ∀ proto, p.hasType proto = true → ∀ target,
    (∀ e, Negotiation.start proto target p.auth ≠ .failed e) → net.negotiate p proto target = .opened

/-- A confirmed type that is opened with a `CONNECT`. -/
def opensByConnect (p : Proxy) : Bool := p.hasType .https || p.hasType .connect80 || p.hasType .connect25

/-- The requests to which some eligible proxy at the address was confirmed to answer: a `CONNECT` with its credentials,
when one of its confirmed types is opened so. -/
def Owed (scheme : Scheme) (l : List Pooled) (addr : Addr) (bytes : Bytes) : Prop :=
  ∃ e ∈ l, e.proxy.servesScheme scheme = true ∧ e.proxy.addr = addr ∧ opensByConnect e.proxy = true ∧
    ∃ host port, connectRequest host port e.proxy.auth = bytes

/-- The probe of `p` is a request to which some eligible proxy at its address was confirmed to answer. -/
def Vouched (config : PoolConfig) (scheme : Scheme) (l : List Pooled) (p : Proxy) : Prop :=
  Owed scheme l p.addr (connectRequest config.verifyTarget.1 config.verifyTarget.2 p.auth)

variable {net : Net} {config : PoolConfig} {scheme : Scheme} {l : List Pooled} {p : Proxy}

/-- A confirmed type that is opened with a `CONNECT`, by name. -/
theorem opensByConnect_iff :
    opensByConnect p = true ↔ ∃ proto, p.hasType proto = true ∧ (proto = .https ∨ proto = .connect80 ∨ proto = .connect25) := by
  simp only [opensByConnect, Bool.or_eq_true, or_assoc]
  constructor
  · rintro (https | connect80 | connect25)
    · exact ⟨_, https, Or.inl rfl⟩
    · exact ⟨_, connect80, Or.inr (Or.inl rfl)⟩
    · exact ⟨_, connect25, Or.inr (Or.inr rfl)⟩
  · rintro ⟨proto, has, rfl | rfl | rfl⟩
    · exact Or.inl has
    · exact Or.inr (Or.inl has)
    · exact Or.inr (Or.inr has)

/-- A proxy that was itself confirmed for such a type is vouched for. -/
theorem vouched_of_connects {e : Pooled} (mem : e ∈ l) (serves : e.proxy.servesScheme scheme = true)
    (connects : opensByConnect e.proxy = true) : Vouched config scheme l e.proxy :=
  ⟨e, mem, serves, rfl, connects, _, _, rfl⟩

/-- A live proxy that is vouched for passes the probe. -/
theorem verifyLive_of_vouched (alive : ∀ e ∈ l, e.proxy.servesScheme scheme = true → net.Alive e.proxy)
    (vouched : Vouched config scheme l p) : net.verifyLive config p = true := by
  obtain ⟨e, mem, serves, here, connects, host, port, same⟩ := vouched
  obtain ⟨dials, opens⟩ := alive e mem serves
  obtain ⟨proto, has, which⟩ := opensByConnect_iff.1 connects
  have opened := opens proto has ⟨host, none, port⟩ (by rcases which with rfl | rfl | rfl <;> simp [Negotiation.start])
  have sent : Negotiation.drive proto (.asking (connectRequest config.verifyTarget.1 config.verifyTarget.2 p.auth))
      (net.events p.addr (.request (connectRequest config.verifyTarget.1 config.verifyTarget.2 p.auth))) = .opened := by
    rw [← here, ← same]
    rcases which with rfl | rfl | rfl <;> exact opened
  have probe : net.negotiate p .connect80 ⟨config.verifyTarget.1, none, config.verifyTarget.2⟩ = .opened := by
    exact Negotiation.drive_connect80 (n := .asking _) trivial sent
  rw [here] at dials
  simp [verifyLive, dials, probe]

/-! ### A network that answers no other `CONNECT` -/

/-- What follows a request that is answered with `200` and a mail banner, before a handshake. -/
def answered : List Negotiation.Input :=
  .net .flushed :: ((ascii "HTTP/1.1 200 \r\n\r\n220").map (fun b => .net (.read [b])) ++ [.handshake .completed])

open Classical in
/-- A network in which everybody accepts connections and SOCKS handshakes, and `answers` says which requests are
answered. -/
noncomputable def answering (answers : Addr → Bytes → Prop) : Net where
  dials _ := true
  events addr o :=
    match o with
    | .request bytes => if answers addr bytes then .net (.wrote bytes.length) :: answered else []
    | .socks _ _ _ => [.handshake .completed]

theorem drive_answered {proto : Proto} (bytes : Bytes) (h : proto = .https ∨ proto = .connect80 ∨ proto = .connect25) :
    Negotiation.drive proto (.asking bytes) (.net (.wrote bytes.length) :: answered) = .opened := by
  have sent : Negotiation.step proto (.asking bytes) (.net (.wrote bytes.length)) = some (.asking []) := by
    simp [Negotiation.step]
  rw [Negotiation.drive, sent, Option.getD_some]
  · rcases h with rfl | rfl | rfl <;> decide
  · simp
  · simp

variable {answers : Addr → Bytes → Prop}

/-- Who gets his `CONNECT`s answered is alive. -/
theorem answering_alive
    (mine : opensByConnect p = true → ∀ host port, answers p.addr (connectRequest host port p.auth)) :
    (answering answers).Alive p := by
  refine ⟨rfl, ?_⟩
  intro proto has target takes
  have connects (which : proto = .https ∨ proto = .connect80 ∨ proto = .connect25) :
      Negotiation.drive proto (.asking (connectRequest target.host target.port p.auth))
        ((answering answers).events p.addr (.request (connectRequest target.host target.port p.auth))) = .opened := by
    have mine' := mine (opensByConnect_iff.2 ⟨proto, has, which⟩) target.host target.port
    simp only [answering, if_pos mine']
    exact drive_answered _ which
  cases proto with
  | http => exact Negotiation.drive_opened _ _
  | https => exact connects (by simp)
  | connect80 => exact connects (by simp)
  | connect25 => exact connects (by simp)
  | socks5 => rfl
  | socks4 =>
    unfold Net.negotiate
    cases start : Negotiation.start .socks4 target p.auth with
    | socks => rfl
    | failed e => exact absurd start (takes e)
    | _ => simp only [Negotiation.start] at start; split at start <;> cases start

/-- The probe finds out whether its request is answered. -/
theorem verifyLive_answering :
    (answering answers).verifyLive config p = true ↔
      answers p.addr (connectRequest config.verifyTarget.1 config.verifyTarget.2 p.auth) := by
  have sends : (answering answers).verifyLive config p =
      decide (Negotiation.drive .connect80 (.asking (connectRequest config.verifyTarget.1 config.verifyTarget.2 p.auth))
        ((answering answers).events p.addr (.request (connectRequest config.verifyTarget.1 config.verifyTarget.2 p.auth))) = .opened) := rfl
  rw [sends, decide_eq_true_iff]
  constructor
  · intro opened
    by_contra silent
    simp only [answering, if_neg silent] at opened
    cases opened
  · intro yes
    simp only [answering, if_pos yes]
    exact drive_answered _ (by simp)

/-- Where only requests that are owed an answer get one, the eligible proxies are alive. -/
theorem alive_owed {e : Pooled} (mem : e ∈ l) (serves : e.proxy.servesScheme scheme = true) :
    (answering (Owed scheme l)).Alive e.proxy :=
  answering_alive fun connects host port => ⟨e, mem, serves, rfl, connects, host, port, rfl⟩

/-- Where only requests that are owed an answer get one, a proxy passes the probe when it is vouched for. -/
theorem verifyLive_owed : (answering (Owed scheme l)).verifyLive config p = true ↔ Vouched config scheme l p :=
  verifyLive_answering

end Net

namespace Server.Lease

/-! ### The draws -/

/-- What `get` reads from outside in its `i`-th turn: the clock when it selects and when it benches, the state of the generator,
and which key comes first in the session map. -/
structure Readings where
  clock : Nat → Instant
  bench : Nat → Instant
  seed : Nat → UInt64
  victim : Nat → Nat

/-- The pool after a drawn proxy has failed its probe. -/
def benched (pool : Pool) (p : Proxy) (now : Instant) : Pool :=
  if Pool.unhealthy pool.config p then pool.putFailed p now else (pool.putFailed p now).notifyWaiters

variable (good : Proxy → Prop) (scheme : Scheme) (key : ClientKey) (r : Readings)

/-- One of the next `n` proxies that `try_select` draws is good, when every other one is put back with `put_failed` before the
next draw. The first number is that of the turn. -/
inductive Comes : Nat → Nat → Pool → Prop
  | now {i n : Nat} {pool after : Pool} {p : Proxy} :
    pool.trySelect scheme key (r.clock i) (r.seed i) (r.victim i) = some (p, after) → good p → Comes i (n + 1) pool
  | later {i n : Nat} {pool after : Pool} {p : Proxy} :
    pool.trySelect scheme key (r.clock i) (r.seed i) (r.victim i) = some (p, after) →
    Comes (i + 1) n (benched after p (r.bench i)) → Comes i (n + 1) pool

variable {good good' : Proxy → Prop} {scheme : Scheme} {key : ClientKey} {r : Readings} {pool after : Pool} {p : Proxy} {i n : Nat}

theorem not_comes_zero : ¬ Comes good scheme key r i 0 pool := by
  intro comes
  cases comes

theorem not_comes_of_none (nothing : pool.trySelect scheme key (r.clock i) (r.seed i) (r.victim i) = none) :
    ¬ Comes good scheme key r i n pool := by
  intro comes
  cases comes with
  | now drawn | later drawn =>
    rw [nothing] at drawn
    cases drawn

theorem comes_succ_iff (drawn : pool.trySelect scheme key (r.clock i) (r.seed i) (r.victim i) = some (p, after)) :
    Comes good scheme key r i (n + 1) pool ↔ good p ∨ Comes good scheme key r (i + 1) n (benched after p (r.bench i)) := by
  constructor
  · intro comes
    cases comes with
    | now drawn' here =>
      cases drawn.symm.trans drawn'
      exact Or.inl here
    | later drawn' next =>
      cases drawn.symm.trans drawn'
      exact Or.inr next
  · rintro (here | next)
    · exact .now drawn here
    · exact .later drawn next

theorem Comes.mono (comes : Comes good scheme key r i n pool) (all : ∀ p, good p → good' p) :
    Comes good' scheme key r i n pool := by
  induction comes with
  | now drawn here => exact .now drawn (all _ here)
  | later drawn _ ih => exact .later drawn ih

/-- What `try_select` draws is an entry of the vector that serves the scheme. -/
theorem trySelect_spec {now : Instant} {seed : UInt64} {victim : Nat}
    (drawn : pool.trySelect scheme key now seed victim = some (p, after)) :
    ∃ e, e.proxy = p ∧ p.servesScheme scheme = true ∧ (e :: after.state).Perm pool.state ∧ after.config = pool.config ∧
      after.exhausted = pool.exhausted := by
  rw [Pool.trySelect, Option.map_eq_some_iff] at drawn
  obtain ⟨⟨q, left⟩, taken, eq⟩ := drawn
  cases eq
  obtain ⟨e, here, perm, frame⟩ := Pool.takeChosen_spec taken
  obtain ⟨_, _, noted⟩ := Pool.noteChosen_eq left key q victim
  refine ⟨e, here, Pool.takeChosen_serves taken, by simpa using perm, ?_⟩
  dsimp only
  rw [noted, frame]
  exact ⟨rfl, rfl⟩

/-- A failed probe pushes the proxy back at the end, or evicts it. -/
theorem benched_spec (pool : Pool) (p : Proxy) (now : Instant) :
    (benched pool p now).config = pool.config ∧ (benched pool p now).exhausted = pool.exhausted ∧
      ((benched pool p now).state = pool.state ∨ ∃ b, (benched pool p now).state = pool.state ++ [⟨p, b⟩]) := by
  unfold benched Pool.putFailed
  rcases Pool.putInner_cases pool p (some (now + pool.config.failTimeout)) with ⟨weak, eq⟩ | ⟨strong, eq⟩
  · rw [if_pos weak, eq]
    exact ⟨rfl, rfl, Or.inl rfl⟩
  · rw [if_neg (by simp [strong]), eq]
    exact ⟨rfl, rfl, Or.inr ⟨_, rfl⟩⟩

/-- Only a proxy of the vector that serves the scheme can come. -/
theorem Comes.exists_good (comes : Comes good scheme key r i n pool) :
    ∃ e ∈ pool.state, e.proxy.servesScheme scheme = true ∧ good e.proxy := by
  induction comes with
  | now drawn here =>
    obtain ⟨e, rfl, serves, perm, -⟩ := trySelect_spec drawn
    exact ⟨e, perm.subset List.mem_cons_self, serves, here⟩
  | @later i n pool after p drawn _ ih =>
    obtain ⟨e, rfl, serves, perm, -⟩ := trySelect_spec drawn
    obtain ⟨f, mem, serves', here⟩ := ih
    obtain ⟨-, -, same | ⟨b, pushed⟩⟩ := benched_spec after e.proxy (r.bench i)
    · rw [same] at mem
      exact ⟨f, perm.subset (List.mem_cons_of_mem _ mem), serves', here⟩
    · rw [pushed, List.mem_append, List.mem_singleton] at mem
      rcases mem with mem | rfl
      · exact ⟨f, perm.subset (List.mem_cons_of_mem _ mem), serves', here⟩
      · exact ⟨e, perm.subset List.mem_cons_self, serves, here⟩

/-- Where every eligible proxy is good, the first that is drawn is good. -/
theorem comes_of_all (there : ∃ e ∈ pool.state, e.proxy.servesScheme scheme = true)
    (all : ∀ e ∈ pool.state, e.proxy.servesScheme scheme = true → good e.proxy) : Comes good scheme key r i (n + 1) pool := by
  cases drawn : pool.trySelect scheme key (r.clock i) (r.seed i) (r.victim i) with
  | none =>
    obtain ⟨e, mem, serves⟩ := there
    rw [Pool.trySelect, Option.map_eq_none_iff, Pool.takeChosen_eq_none] at drawn
    have refuses : e.proxy.servesScheme scheme = false := drawn e mem
    rw [serves] at refuses
    cases refuses
  | some drawn' =>
    obtain ⟨e, here, serves, perm, -⟩ := trySelect_spec drawn
    apply Comes.now drawn
    rw [← here] at serves ⊢
    exact all e (perm.subset List.mem_cons_self) serves

/-! ### `get` with nobody else at work -/

/-- The answer is the one that `get` finds: the network's to a probe, and the readings of its turn. The look after the source
was exhausted may read anything. -/
def finds (net : Net) (r : Readings) (config : PoolConfig) (g : State) (i : Input) : Bool :=
  match g.phase, i with
  | .reading _ false, .read now => decide (now = r.clock g.verifyAttempts)
  | .choosing _ false _, .choose seed => decide (seed = r.seed g.verifyAttempts)
  | .noting false _, .note victim => decide (victim = r.victim g.verifyAttempts)
  | .probing p, .probe alive => alive == net.verifyLive config p
  | .benching _, .bench now => decide (now = r.bench g.verifyAttempts)
  | _, _ => true

variable (net : Net) (scheme : Scheme) (key : ClientKey) (r : Readings)

/-- A step of `get` when no other task moves. -/
def alone (x : Shared × Account × State) (i : Input) : Option (Shared × Account × State) :=
  if finds net r x.1.pool.config x.2.2 i then step scheme key x.1 x.2.1 x.2.2 i else none

/-- `get` has returned a proxy. -/
def Leased (x : Shared × Account × State) : Prop := ∃ p, x.2.2.phase = .returned (some p)

variable {net : Net} {scheme : Scheme} {key : ClientKey} {r : Readings} {sh : Shared} {acc : Account}

/-- Where `get` awaits one answer, it returns a proxy when it does so after that answer. -/
theorem must_iff {P : Shared × Account × State → Prop} {x y : Shared × Account × State} (i : Input) (notYet : ¬ P x)
    (moves : alone net scheme key r x i = some y) (only : ∀ j z, alone net scheme key r x j = some z → z = y) :
    Inevitably (alone net scheme key r) P x ↔ Inevitably (alone net scheme key r) P y := by
  refine Inevitably.iff_next notYet ⟨i, y, moves⟩ ?_
  intro j z moved
  rw [only j z moved]

/-- Where the first look of a turn finds nothing and the source is exhausted, `get` returns `None`. -/
theorem not_leased_of_none (exhausted : sh.pool.exhausted = true)
    (nothing : sh.pool.trySelect scheme key (r.clock n) (r.seed n) (r.victim n) = none) :
    ¬ Inevitably (alone net scheme key r) Leased (sh, acc, ⟨n, .enter⟩) := by
  have refuses (ctx : SelectCtx) (same : ctx.scheme = scheme) (seed : UInt64) : sh.pool.takeChosen ctx seed = none := by
    rw [Pool.trySelect, Option.map_eq_none_iff] at nothing
    rw [Pool.takeChosen_eq_none, same]
    exact Pool.takeChosen_eq_none.1 nothing
  intro must
  have ends : ∀ u, Leased u → ∀ i, alone net scheme key r u i = none := by
    rintro u ⟨p, returned⟩ i
    cases i <;> simp [alone, step, returned]
  have ran : run (alone net scheme key r) (sh, acc, ⟨n, .enter⟩)
      [.notified, .read (r.clock n), .choose (r.seed n), .check, .read 0, .choose 0] =
        some (sh, acc, ⟨n, .returned none⟩) := by
    simp [run, alone, finds, step, refuses, Pool.selectCtx, exhausted]
  obtain ⟨p, returned⟩ := must.stopped ends ran (by intro i; cases i <;> simp [alone, step])
  cases returned

theorem unfinished {x : Shared × Account × State} (other : ∀ p, x.2.2.phase ≠ .returned (some p)) : ¬ Leased x := by
  rintro ⟨p, returned⟩
  exact other p returned

/-- A turn that draws a proxy comes to the probe. -/
theorem leased_iff_probing {pool : Pool} (acc : Account) (same : pool.config = sh.pool.config)
    (verify : sh.pool.config.verifyOnLease.isSome = true)
    (taken : sh.pool.takeChosen (sh.pool.selectCtx scheme key (r.clock n)) (r.seed n) = some (p, pool)) :
    Inevitably (alone net scheme key r) Leased (sh, acc, ⟨n, .enter⟩) ↔
      Inevitably (alone net scheme key r) Leased ({ sh with pool := pool.noteChosen key p (r.victim n) },
        { acc with taken := acc.taken ++ [p.ident] }, ⟨n, .probing p⟩) := by
  calc
    Inevitably (alone net scheme key r) Leased (sh, acc, ⟨n, .enter⟩) ↔
        Inevitably (alone net scheme key r) Leased (sh, acc, ⟨n, .reading sh.pool.epoch false⟩) := by
      apply must_iff .notified (unfinished (by simp)) rfl
      intro j z moved
      cases j <;> simp_all [alone, finds, step]
    _ ↔ Inevitably (alone net scheme key r) Leased
        (sh, acc, ⟨n, .choosing sh.pool.epoch false (sh.pool.selectCtx scheme key (r.clock n))⟩) := by
      apply must_iff (.read (r.clock n)) (unfinished (by simp)) (by simp [alone, finds, step])
      intro j z moved
      cases j <;> simp_all [alone, finds, step]
    _ ↔ Inevitably (alone net scheme key r) Leased
        ({ sh with pool := pool }, { acc with taken := acc.taken ++ [p.ident] }, ⟨n, .noting false p⟩) := by
      apply must_iff (.choose (r.seed n)) (unfinished (by simp)) (by simp [alone, finds, step, taken])
      intro j z moved
      cases j <;> simp_all [alone, finds, step]
    _ ↔ _ := by
      apply must_iff (.note (r.victim n)) (unfinished (by simp)) (by simp [alone, finds, step, same, verify])
      intro j z moved
      cases j <;> simp_all [alone, finds, step]

/-- A proxy that fails the probe is benched, and the next turn begins. -/
theorem leased_iff_benched (sh : Shared) (acc : Account) (fails : net.verifyLive sh.pool.config p = false) :
    ∃ sh' acc', sh'.pool = benched sh.pool p (r.bench n) ∧
      (Inevitably (alone net scheme key r) Leased (sh, acc, ⟨n, .probing p⟩) ↔
        Inevitably (alone net scheme key r) Leased (sh', acc', redraw ⟨n, .notifying⟩)) := by
  have failed : Inevitably (alone net scheme key r) Leased (sh, acc, ⟨n, .probing p⟩) ↔
      Inevitably (alone net scheme key r) Leased (sh, acc, ⟨n, .benching p⟩) := by
    apply must_iff (.probe false) (unfinished (by simp)) (by simp [alone, finds, step, fails])
    intro j z moved
    cases j <;> simp_all [alone, finds, step]
  let back : Shared := sh.putBack p true (r.bench n)
  let gave : Account := { acc with returned := acc.returned ++ [p.ident] }
  cases evicts : Pool.unhealthy sh.pool.config p with
  | true =>
    refine ⟨back, gave, by simp [benched, back, Shared.putBack, evicts], failed.trans ?_⟩
    apply must_iff (.bench (r.bench n)) (unfinished (by simp)) (by simp [alone, finds, step, evicts, redraw, back, gave])
    intro j z moved
    cases j <;> simp_all [alone, finds, step, redraw, back, gave]
  | false =>
    refine ⟨{ back with pool := back.pool.notifyWaiters }, gave, by simp [benched, back, Shared.putBack, evicts], failed.trans ?_⟩
    have pushed : Inevitably (alone net scheme key r) Leased (sh, acc, ⟨n, .benching p⟩) ↔
        Inevitably (alone net scheme key r) Leased (back, gave, ⟨n, .notifying⟩) := by
      apply must_iff (.bench (r.bench n)) (unfinished (by simp)) (by simp [alone, finds, step, evicts, back, gave])
      intro j z moved
      cases j <;> simp_all [alone, finds, step, back, gave]
    refine pushed.trans ?_
    apply must_iff .notify (unfinished (by simp)) (by simp [alone, finds, step, redraw])
    intro j z moved
    cases j <;> simp_all [alone, finds, step, redraw]

/-- A proxy that passes the probe is returned. -/
theorem leased_of_passes (acc : Account) (passes : net.verifyLive sh.pool.config p = true) :
    Inevitably (alone net scheme key r) Leased (sh, acc, ⟨n, .probing p⟩) := by
  apply (must_iff (y := (sh, acc, ⟨n, .returned (some p)⟩)) (.probe true) (unfinished (by simp)) _ _).2
  · exact .now ⟨p, rfl⟩
  · simp [alone, finds, step, passes]
  · intro j z moved
    cases j <;> simp_all [alone, finds, step]

/-- One turn. -/
theorem leased_iff_of_draw (net : Net) (acc : Account) (verify : sh.pool.config.verifyOnLease.isSome = true)
    (drawn : sh.pool.trySelect scheme key (r.clock n) (r.seed n) (r.victim n) = some (p, after)) :
    ∃ sh' acc', sh'.pool = benched after p (r.bench n) ∧
      (Inevitably (alone net scheme key r) Leased (sh, acc, ⟨n, .enter⟩) ↔
        net.verifyLive sh.pool.config p = true ∨
          Inevitably (alone net scheme key r) Leased (sh', acc', redraw ⟨n, .notifying⟩)) := by
  obtain ⟨-, -, -, -, same, -⟩ := trySelect_spec drawn
  rw [Pool.trySelect, Option.map_eq_some_iff] at drawn
  obtain ⟨⟨q, pool⟩, taken, eq⟩ := drawn
  cases eq
  rw [leased_iff_probing acc (by simpa using same) verify taken, ← same]
  let noted : Shared := { sh with pool := pool.noteChosen key q (r.victim n) }
  cases passes : net.verifyLive noted.pool.config q with
  | true => exact ⟨{ noted with pool := _ }, acc, rfl, iff_of_true (leased_of_passes _ passes) (Or.inl rfl)⟩
  | false =>
    obtain ⟨sh', acc', there, turns⟩ := leased_iff_benched noted _ passes
    exact ⟨sh', acc', there, turns.trans (or_iff_right (by simp)).symm⟩

/-- **The redraw loop.** With `m + 1` turns left `get` returns a proxy exactly when one of the next `m + 1` proxies that come
passes the probe. -/
theorem leased_iff {config : PoolConfig} {m : Nat} (acc : Account) (same : sh.pool.config = config)
    (verify : config.verifyOnLease.isSome = true) (exhausted : sh.pool.exhausted = true) (left : n + m + 1 = verifyMaxAttempts) :
    Inevitably (alone net scheme key r) Leased (sh, acc, ⟨n, .enter⟩) ↔
      Comes (fun p => net.verifyLive config p = true) scheme key r n (m + 1) sh.pool := by
  induction m generalizing n sh acc with
  | zero =>
    cases drawn : sh.pool.trySelect scheme key (r.clock n) (r.seed n) (r.victim n) with
    | none => exact iff_of_false (not_leased_of_none exhausted drawn) (not_comes_of_none drawn)
    | some next =>
      obtain ⟨sh', acc', -, turn⟩ := leased_iff_of_draw net acc (same ▸ verify) drawn
      rw [turn, comes_succ_iff drawn, same, redraw, if_pos (by show _ ≤ n + 1; omega)]
      apply or_congr_right
      refine iff_of_false (Inevitably.not_of_stuck (unfinished (by simp)) ?_) not_comes_zero
      intro j
      cases j <;> simp [alone, step]
  | succ m ih =>
    cases drawn : sh.pool.trySelect scheme key (r.clock n) (r.seed n) (r.victim n) with
    | none => exact iff_of_false (not_leased_of_none exhausted drawn) (not_comes_of_none drawn)
    | some next =>
      obtain ⟨p, after⟩ := next
      obtain ⟨sh', acc', there, turn⟩ := leased_iff_of_draw net acc (same ▸ verify) drawn
      obtain ⟨e, -, -, -, kept, still⟩ := trySelect_spec drawn
      obtain ⟨kept', still', -⟩ := benched_spec after p (r.bench n)
      rw [turn, comes_succ_iff drawn, same, redraw, if_neg (by show ¬ _ ≤ n + 1; omega), ← there]
      apply or_congr_right
      apply ih acc'
      · rw [there, kept', kept, same]
      · rw [there, still', still, exhausted]
      · show n + 1 + m + 1 = verifyMaxAttempts
        omega

/-- **Verify-on-lease and live proxies.** A pool whose source is exhausted, with whatever `get` reads in its turns: `get` returns a
proxy in every network in which the eligible ones are alive, exactly when one of the first eight proxies that come is
vouched for. That is so when every eligible proxy was confirmed for a type that is opened with a `CONNECT`, and never when
none was. -/
theorem live_leases_iff (scheme : Scheme) (key : ClientKey) (r : Readings) (sh : Shared) (exhausted : sh.pool.exhausted = true)
    (verify : sh.pool.config.verifyOnLease.isSome = true) :
    ((∀ (net : Net) (acc : Account), (∀ e ∈ sh.pool.state, e.proxy.servesScheme scheme = true → net.Alive e.proxy) →
      Inevitably (alone net scheme key r) Leased (sh, acc, fresh)) ↔
    Comes (Net.Vouched sh.pool.config scheme sh.pool.state) scheme key r 0 verifyMaxAttempts sh.pool) ∧
    ((∃ e ∈ sh.pool.state, e.proxy.servesScheme scheme = true) →
      (∀ e ∈ sh.pool.state, e.proxy.servesScheme scheme = true → Net.opensByConnect e.proxy = true) →
      Comes (Net.Vouched sh.pool.config scheme sh.pool.state) scheme key r 0 verifyMaxAttempts sh.pool) ∧
    (Comes (Net.Vouched sh.pool.config scheme sh.pool.state) scheme key r 0 verifyMaxAttempts sh.pool →
      ∃ e ∈ sh.pool.state, e.proxy.servesScheme scheme = true ∧ Net.opensByConnect e.proxy = true) := by
  have loop (net : Net) (acc : Account) : Inevitably (alone net scheme key r) Leased (sh, acc, fresh) ↔
      Comes (fun p => net.verifyLive sh.pool.config p = true) scheme key r 0 verifyMaxAttempts sh.pool :=
    leased_iff (n := 0) (m := 7) acc rfl verify exhausted rfl
  refine ⟨⟨?_, ?_⟩, ?_, ?_⟩
  · intro all
    apply Comes.mono ((loop _ ⟨[], []⟩).1 (all _ _ fun e mem serves => Net.alive_owed mem serves))
    intro p passes
    exact Net.verifyLive_owed.1 passes
  · intro comes net acc alive
    apply (loop net acc).2
    apply Comes.mono comes
    intro p vouched
    exact Net.verifyLive_of_vouched alive vouched
  · intro there connects
    apply comes_of_all there
    intro e mem serves
    exact Net.vouched_of_connects mem serves (connects e mem serves)
  · intro comes
    obtain ⟨_, -, -, e, mem, serves, -, connects, -⟩ := comes.exists_good
    exact ⟨e, mem, serves, connects⟩

/-- A proxy with these types, at `0.0.0.0:port`. -/
def typed (port : UInt16) (types : TypeMap) : Proxy := { Proxy.new (.v4 0) port [] with types := types }

/-- Time stands still, and so does everything else. -/
def still : Readings := ⟨fun _ => 0, fun _ => 0, fun _ => 0, fun _ => 0⟩

/-- A SOCKS5 proxy with a response time of a second, and a `CONNECT:80` proxy nobody has used. -/
def slowSocks : Proxy := { typed 1 (fun proto => if proto = .socks5 then some none else none) with runtimes := [1] }

def freshConnect : Proxy := typed 2 fun proto => if proto = .connect80 then some none else none

/-- The two in a pool that probes before it lends. -/
def mixedPool : Shared := Sys.freshShared (Pool.fromProxies [slowSocks, freshConnect] Sys.verifying)

/-- The `CONNECT:80` proxy ranks first, so the SOCKS5 proxy is not probed. -/
theorem mixed_leases :
    Inevitably (alone (Net.answering (Net.Owed .http mixedPool.pool.state)) .http (.ip (.v4 0)) still) Leased
      (mixedPool, ⟨[], []⟩, fresh) := by
  refine (live_leases_iff .http (.ip (.v4 0)) still mixedPool rfl rfl).1.2 ?_ _ _ fun e mem serves =>
    Net.alive_owed mem serves
  have port : (mixedPool.pool.trySelect .http (.ip (.v4 0)) 0 0 0).map (fun r => r.1.port) = some 2 := by decide +kernel
  rw [Option.map_eq_some_iff] at port
  obtain ⟨⟨p, after⟩, drawn, two⟩ := port
  obtain ⟨e, rfl, serves, perm, -⟩ := trySelect_spec drawn
  have mem : e ∈ mixedPool.pool.state := perm.subset List.mem_cons_self
  have connects : Net.opensByConnect e.proxy = true := by
    rcases List.mem_cons.1 mem with rfl | mem
    · exact absurd two (show slowSocks.port ≠ 2 by decide)
    · rw [List.mem_singleton.1 mem]
      rfl
  exact .now drawn (Net.vouched_of_connects mem serves connects)

/-- A pool with one live SOCKS5 proxy lends nothing. -/
theorem socks_starves :
    ¬ ∀ (net : Net) (scheme : Scheme) (key : ClientKey) (r : Readings) (sh : Shared) (acc : Account), sh.pool.exhausted = true →
      sh.pool.config.verifyOnLease.isSome = true → (∃ e ∈ sh.pool.state, e.proxy.servesScheme scheme = true) →
      (∀ e ∈ sh.pool.state, e.proxy.servesScheme scheme = true → net.Alive e.proxy) →
      Inevitably (alone net scheme key r) Leased (sh, acc, fresh) := by
  intro general
  let sh := Sys.freshShared (Pool.fromProxies [slowSocks] Sys.verifying)
  have only : ∀ e ∈ sh.pool.state, e.proxy = slowSocks := by
    intro e mem
    rw [List.mem_singleton.1 mem]
  have must := general (Net.answering fun _ _ => False) .http (.ip (.v4 0)) still sh ⟨[], []⟩ rfl rfl
    ⟨⟨slowSocks, none⟩, List.mem_cons_self, by decide⟩ (by
      intro e mem _
      rw [only e mem]
      exact Net.answering_alive fun connects => absurd connects (by decide))
  obtain ⟨e, mem, -, passes⟩ := ((leased_iff (m := 7) _ rfl rfl rfl rfl).1 must).exists_good
  exact Net.verifyLive_answering.1 passes

end Server.Lease

end ProxyBroker
