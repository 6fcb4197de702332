import ProxyBroker.Lib.Deck
import ProxyBroker.Server.Selection
import ProxyBroker.System

/-!
# The rotating connector and proxies it cannot use (`connector.rs:connect`)

A proxy without a raw tunnel for the scheme is put back with its bench cleared, and the next draw ranks the same proxies
again; one that fails the probe of `verify_on_lease` is put back benched, within one `get`. With `Strategy::Best` and nobody
else at work the draws are those of a deck (`Lib/Deck.lean`, `takeChosen_draws`): eligible is who serves the scheme, useful
who has a tunnel, and weak who is evicted when it is put back. The deck is that of the time at which `try_select` reads the
clock, since a benched entry ranks behind a ready one.
-/

namespace ProxyBroker
open Lib Server

/-! ## The draws -/

/-- What `Strategy::Best` compares two entries by. -/
def entryRank (preferConnect : Bool) (e : Pooled) : ℚ ×ₗ ℚ ×ₗ Nat :=
  toLex (e.proxy.priority.1, toLex (e.proxy.priority.2, if preferConnect && !e.proxy.hasType .connect80 then 1 else 0))

theorem rank_eq {pool : List Pooled} {prefer : Bool} {i : Nat} {e : Pooled} (at_i : pool[i]? = some e) :
    rank pool prefer i = entryRank prefer e := by
  simp [rank, priorityKey, entryRank, hasConnect, at_i]

/-- The vector as the connector draws from it when nothing is benched. -/
def deck (config : PoolConfig) (scheme : Scheme) : Deck Pooled (ℚ ×ₗ ℚ ×ₗ Nat) where
  eligible e := e.proxy.servesScheme scheme
  key e := entryRank config.preferConnect e
  useful e := (tunnelProto e.proxy scheme).isSome
  weak e := Pool.unhealthy config e.proxy

/-- The vector as the connector draws from it at a time: a benched entry comes behind every ready one. -/
def deckAt (config : PoolConfig) (scheme : Scheme) (now : Instant) : Deck Pooled (Nat ×ₗ ℚ ×ₗ ℚ ×ₗ Nat) where
  eligible e := e.proxy.servesScheme scheme
  key e := toLex (if e.ready now then 0 else 1, entryRank config.preferConnect e)
  useful e := (tunnelProto e.proxy scheme).isSome
  weak e := Pool.unhealthy config e.proxy

/-- An entry as `put_ok` pushes it. -/
def unbench (e : Pooled) : Pooled := ⟨e.proxy, none⟩

/-- No entry is benched. -/
def Unbenched (l : List Pooled) : Prop := ∀ e ∈ l, e.blockedUntil = none

/-- Where nothing is benched the time does not matter. -/
theorem agrees_unbenched (config : PoolConfig) (scheme : Scheme) (clock : Nat → Instant) :
    Deck.Agrees (fun i => deckAt config scheme (clock i)) unbench (deck config scheme) fun e => e.blockedUntil = none where
  eligible _ _ _ := rfl
  useful _ _ _ := rfl
  weak _ _ _ := rfl
  less i a b free free' := by
    have ready : a.ready (clock i) = true ∧ b.ready (clock i) = true := by simp [Pooled.ready, free, free']
    simp [deck, deckAt, ready, Prod.Lex.toLex_lt_toLex]
  fixed a free := by
    rw [unbench, ← free]

/-- **A selection is a draw.** -/
theorem takeChosen_draws {pool after : Pool} {ctx : SelectCtx} {seed : UInt64} {p : Proxy} (best : ctx.strategy = .best)
    (prefer : ctx.preferConnect = pool.config.preferConnect) (h : pool.takeChosen ctx seed = some (p, after)) :
    ∃ e rest, (deckAt pool.config ctx.scheme ctx.now).Draws pool.state e rest ∧ e.proxy = p ∧ after = { pool with state := rest } := by
  unfold Pool.takeChosen at h
  split at h
  · cases h
  · rename_i i chosen
    have choice : IsBest pool.state ctx i := by
      simp only [bestFor, best] at chosen
      split at chosen
      · cases chosen
      · exact IsBest.of_bestByPriority chosen
    obtain ⟨e, at_e, serves, tiered⟩ := mem_tier_iff.1 choice.candidate
    rw [at_e] at h
    cases h
    obtain ⟨inside, rfl⟩ := List.getElem?_eq_some_iff.1 at_e
    -- another eligible entry is a candidate too, or it is benched while the chosen one is ready
    have other {j : Nat} {b : Pooled} (at_j : pool.state[j]? = some b) (serves' : b.proxy.servesScheme ctx.scheme = true) :
        (j ∈ tier pool.state ctx ∧ (b.ready ctx.now = pool.state[i].ready ctx.now)) ∨
          (b.ready ctx.now = false ∧ pool.state[i].ready ctx.now = true) := by
      cases ready : b.ready ctx.now with
      | true =>
        have some : SomeReady pool.state ctx := ⟨b, List.mem_of_getElem? at_j, serves', ready⟩
        exact Or.inl ⟨mem_tier_iff.2 ⟨b, at_j, serves', fun _ => ready⟩, (tiered some).symm⟩
      | false =>
        cases ready' : pool.state[i].ready ctx.now with
        | true => exact Or.inr ⟨rfl, rfl⟩
        | false =>
          refine Or.inl ⟨mem_tier_iff.2 ⟨b, at_j, serves', fun some => ?_⟩, rfl⟩
          rw [tiered some] at ready'
          cases ready'
    have own : rank pool.state ctx.preferConnect i = entryRank pool.config.preferConnect pool.state[i] := by
      rw [prefer, rank_eq at_e]
    refine ⟨_, _, ⟨pool.state.take i, pool.state.drop (i + 1), ?_, ?_, serves, ?_, ?_⟩, rfl, rfl⟩
    · rw [← List.drop_eq_getElem_cons inside, List.take_append_drop]
    · rw [List.length_take_of_le inside.le]
    · intro b mem serves'
      obtain ⟨j, at_j⟩ := List.mem_iff_getElem?.1 mem
      rw [List.getElem?_take] at at_j
      split at at_j
      · rename_i lt
        simp only [deckAt, Prod.Lex.toLex_lt_toLex]
        rcases other at_j serves' with ⟨candidate, alike⟩ | ⟨benched, ready⟩
        · have less := choice.first j candidate lt
          rw [own, prefer, rank_eq at_j] at less
          exact Or.inr ⟨by rw [alike], less⟩
        · exact Or.inl (by simp [benched, ready])
      · cases at_j
    · intro b mem serves'
      obtain ⟨j, at_j⟩ := List.mem_iff_getElem?.1 mem
      rw [List.getElem?_drop] at at_j
      simp only [deckAt, Prod.Lex.toLex_le_toLex]
      rcases other at_j serves' with ⟨candidate, alike⟩ | ⟨benched, ready⟩
      · have least := choice.least _ candidate
        rw [own, prefer, rank_eq at_j] at least
        exact Or.inr ⟨by rw [alike], least⟩
      · exact Or.inl (by simp [benched, ready])

/-! ## A call of `connect` with nobody else at work -/

namespace Connector

/-- What the outside answers: the resolver, a drawn proxy that is probed, and the upstream's side of every negotiation. -/
structure Outside where
  ip : Option IpAddr
  probes : Proxy → Bool
  answers : Proxy → List Negotiation.Input

/-- What is read in turn `m` of the `get` of try `i`, when it selects and when it benches. -/
structure Clock where
  draw : Nat → Nat → Instant
  bench : Nat → Nat → Instant

/-- What `connect` calls; in `get` these are the turns, which draw a proxy or find none, and the probes. The generator and the
order of the session map may be anything. -/
inductive Call where
  | host
  | resolve
  | turn (seed : UInt64) (victim : Nat)
  | miss (seed last : UInt64) (now : Instant)
  | probe
  | dial
  | put (now : Instant)

/-- The steps of a call, from its beginning to its end. -/
def Call.inputs (out : Outside) (clock : Clock) (sh : Shared) (c : State) (g : Lease.State) : Call → List Task.Input
  | .host => [.io (.connect .call)]
  | .resolve => [.io (.connect (.resolved out.ip))]
  | .turn seed victim =>
    [.lease .notified, .lease (.read (clock.draw c.tried g.verifyAttempts)), .lease (.choose seed), .lease (.note victim)] ++
      if sh.pool.config.verifyOnLease.isSome then [] else [.op (clock.draw c.tried g.verifyAttempts)]
  | .miss seed last now =>
    [.lease .notified, .lease (.read (clock.draw c.tried g.verifyAttempts)), .lease (.choose seed), .lease .check] ++
      if sh.pool.exhausted then [.lease (.read now), .lease (.choose last), .op now] else []
  | .probe =>
    match g.phase with
    | .probing p =>
      if out.probes p then [.lease (.probe true), .op (clock.bench c.tried g.verifyAttempts)]
      else [.lease (.probe false), .lease (.bench (clock.bench c.tried g.verifyAttempts))] ++
        (if Pool.unhealthy sh.pool.config p then [] else [.lease .notify]) ++
        (if Lease.verifyMaxAttempts ≤ g.verifyAttempts + 1 then [.op (clock.bench c.tried g.verifyAttempts)] else [])
    | _ => [.lease (.probe true)]
  | .dial => .io (.connect .connected) :: (c.held.elim [] out.answers).map fun i => .io (.connect (.negotiation i))
  | .put now => .op now :: if c.held.any (Pool.unhealthy sh.pool.config) then [] else [.op now]

/-- `connect` makes a call. -/
def alone (out : Outside) (clock : Clock) (w : Shared × Task) (call : Call) : Option (Shared × Task) :=
  match w.2.client with
  | .connecting c => run (fun w i => w.2.step w.1 i) w (call.inputs out clock w.1 c w.2.lease)
  | .serving _ _ => none

/-- `connect` has returned a stream. -/
def Connected (w : Shared × Task) : Prop := ∃ c, w.2.client = .connecting c ∧ c.phase = .finished .connected

variable {out : Outside} {clock : Clock} {sh : Shared} {c : State} {g : Lease.State} {acc : Account} {call : Call} {w : Shared × Task}

/-- A task that runs `connect`, and where its `get` stands. -/
def looking (c : State) (g : Lease.State) (acc : Account) : Task := ⟨.connecting c, g, acc⟩

/-- A task that runs `connect` and is not taking a lease. -/
def standing (c : State) (acc : Account) : Task := looking c Lease.fresh acc

theorem alone_eq (call : Call) : alone out clock (sh, looking c g acc) call =
    run (fun w i => w.2.step w.1 i) (sh, looking c g acc) (call.inputs out clock sh c g) := rfl

theorem not_connected (other : c.phase ≠ .finished .connected) : ¬ Connected (sh, looking c g acc) := by
  rintro ⟨c', client, connected⟩
  cases client
  exact other connected

/-- Where a call is made: the await of `connect`, and the phase of `get`. -/
def Call.Awaited (phase : Phase) (getting : Lease.Phase) : Call → Prop
  | .host => phase = .called
  | .resolve => phase = .resolving
  | .turn _ _ | .miss _ _ _ => phase = .getting ∧ getting = .enter
  | .probe => phase = .getting ∧ ∃ p, getting = .probing p
  | .dial => ∃ p proto, phase = .dialling p proto .connecting
  | .put _ => (∃ p failed again, phase = .putting p failed again) ∨ (∃ again, phase = .notifying again) ∨
      phase = .getting ∧ ∃ r, getting = .returned r

/-- The first step of a call. -/
theorem first_of_alone (moved : alone out clock (sh, looking c g acc) call = some w) :
    ∃ i is v, call.inputs out clock sh c g = i :: is ∧ Task.step sh (looking c g acc) i = some v := by
  rw [alone_eq] at moved
  cases inputs : call.inputs out clock sh c g with
  | nil =>
    cases call with
    | probe =>
      simp only [Call.inputs] at inputs
      split at inputs
      · split at inputs <;> cases inputs
      · cases inputs
    | _ => simp [Call.inputs] at inputs
  | cons i is =>
    rw [inputs] at moved
    obtain ⟨v, first, -⟩ := run_cons_iff.1 moved
    exact ⟨i, is, v, rfl, first⟩

theorem awaited_of_io {i : Input} {v : Shared × Task} (h : Task.step sh (looking c g acc) (.io (.connect i)) = some v) :
    ∃ d, step c i = some d := by
  obtain ⟨client, moved, -⟩ := Option.map_eq_some_iff.1 h
  have io : (Client.connecting c).io (.connect i) = some client := moved
  cases demand : (Client.connecting c).demand <;> simp only [Client.io, demand] at io
  case nothing =>
    obtain ⟨d, next, -⟩ := Option.map_eq_some_iff.1 io
    exact ⟨d, next⟩
  all_goals cases io

theorem awaited_of_lease {i : Lease.Input} {v : Shared × Task} (h : Task.step sh (looking c g acc) (.lease i) = some v) :
    c.phase = .getting ∧ ∃ r, Lease.step (scheme c.uri) key sh acc g i = some r := by
  cases at_c : c.phase <;> simp only [Task.step, looking, Client.demand, at_c] at h
  case getting =>
    obtain ⟨r, moved, -⟩ := Option.map_eq_some_iff.1 h
    exact ⟨rfl, r, moved⟩
  all_goals cases h

/-- **A call is made only where it is awaited.** -/
theorem awaited_of_alone (moved : alone out clock (sh, looking c g acc) call = some w) : call.Awaited c.phase g.phase := by
  obtain ⟨i, is, v, inputs, first⟩ := first_of_alone moved
  cases call with
  | host =>
    cases inputs
    obtain ⟨d, next⟩ := awaited_of_io first
    cases at_c : c.phase <;> simp only [step, at_c] at next <;> first | rfl | cases next
  | resolve =>
    cases inputs
    obtain ⟨d, next⟩ := awaited_of_io first
    cases at_c : c.phase <;> simp only [step, at_c] at next <;> first | rfl | cases next
  | dial =>
    cases inputs
    obtain ⟨d, next⟩ := awaited_of_io first
    cases at_c : c.phase <;> simp only [step, at_c] at next <;> try cases next
    rename_i p proto dial
    cases dial with
    | connecting => exact ⟨p, proto, rfl⟩
    | negotiating n => cases next
  | turn seed victim =>
    cases inputs
    obtain ⟨getting, r, entered⟩ := awaited_of_lease first
    refine ⟨getting, ?_⟩
    cases at_g : g.phase <;> simp only [Lease.step, at_g] at entered <;> first | rfl | cases entered
  | miss seed last now =>
    cases inputs
    obtain ⟨getting, r, entered⟩ := awaited_of_lease first
    refine ⟨getting, ?_⟩
    cases at_g : g.phase <;> simp only [Lease.step, at_g] at entered <;> first | rfl | cases entered
  | probe =>
    have probed : ∃ alive, i = .lease (.probe alive) := by
      simp only [Call.inputs] at inputs
      split at inputs
      · split at inputs <;> cases inputs <;> exact ⟨_, rfl⟩
      · cases inputs
        exact ⟨_, rfl⟩
    obtain ⟨alive, rfl⟩ := probed
    obtain ⟨getting, r, entered⟩ := awaited_of_lease first
    refine ⟨getting, ?_⟩
    cases at_g : g.phase <;> simp only [Lease.step, at_g] at entered <;> first | exact ⟨_, rfl⟩ | cases entered
  | put now =>
    cases inputs
    cases at_c : c.phase <;> simp only [Task.step, looking, Client.demand, at_c] at first
    case putting => exact Or.inl ⟨_, _, _, rfl⟩
    case notifying => exact Or.inr (Or.inl ⟨_, rfl⟩)
    case getting =>
      cases at_g : g.phase <;> simp only [at_g] at first <;> first | exact Or.inr (Or.inr ⟨rfl, _, rfl⟩) | cases first
    all_goals cases first

theorem alone_finished {o : Outcome} (at_c : c.phase = .finished o) (call : Call) : alone out clock (sh, looking c g acc) call = none := by
  cases moved : alone out clock (sh, looking c g acc) call with
  | none => rfl
  | some w =>
    have awaited := awaited_of_alone moved
    rw [at_c] at awaited
    cases call <;> simp [Call.Awaited] at awaited

/-- The state after the lease is handed over. -/
def taken (c : State) (p : Proxy) : State :=
  match tunnelProto p (scheme c.uri) with
  | none => { c with phase := .putting p false true }
  | some proto => { c with phase := .dialling p proto .connecting }

/-- The vector and the settings, whatever else the shared state holds. -/
structure Holds (sh : Shared) (config : PoolConfig) (l : List Pooled) : Prop where
  config : sh.pool.config = config
  state : sh.pool.state = l

variable {config : PoolConfig} {l rest : List Pooled} {e : Pooled}

/-- Whether `get` lends a drawn proxy. -/
def Outside.passes (out : Outside) (config : PoolConfig) (p : Proxy) : Bool := !config.verifyOnLease.isSome || out.probes p

/-- What a seed draws does not matter under `Strategy::Best`. -/
theorem takeChosen_eq (holds : Holds sh config l) (best : config.strategy = .best) {now : Instant} {sch : Scheme}
    (draws : (deckAt config sch now).Draws l e rest) (seed : UInt64) :
    sh.pool.takeChosen (sh.pool.selectCtx sch key now) seed = some (e.proxy, { sh.pool with state := rest }) := by
  obtain ⟨rfl, rfl⟩ := holds
  cases chosen : sh.pool.takeChosen (sh.pool.selectCtx sch key now) seed with
  | none =>
    have serves : e.proxy.servesScheme sch = true := draws.eligible
    have refuses : e.proxy.servesScheme sch = false := Pool.takeChosen_eq_none.1 chosen e draws.mem
    rw [serves] at refuses
    cases refuses
  | some r =>
    obtain ⟨p, after⟩ := r
    obtain ⟨e', rest', draws', rfl, rfl⟩ := takeChosen_draws best rfl chosen
    obtain ⟨rfl, rfl⟩ := draws.unique draws'
    rfl

/-- `connect` takes what `get` returns. -/
theorem step_got (at_c : c.phase = .getting) (p : Proxy) : step c (.got (some p)) = some (taken c p) := by
  unfold taken
  cases tunnel : tunnelProto p (scheme c.uri) <;> simp [step, at_c, tunnel]

/-- **A turn** draws; without `verify_on_lease` the proxy is lent. -/
theorem alone_turn (out : Outside) (clock : Clock) (acc : Account) (holds : Holds sh config l) (best : config.strategy = .best)
    (at_c : c.phase = .getting) {m : Nat} (draws : (deckAt config (scheme c.uri) (clock.draw c.tried m)).Draws l e rest) :
    (∃ w, alone out clock (sh, looking c ⟨m, .enter⟩ acc) (.turn 0 0) = some w) ∧
    ∀ call w, alone out clock (sh, looking c ⟨m, .enter⟩ acc) call = some w → ∃ sh' acc', Holds sh' config rest ∧
      w = (sh', if config.verifyOnLease.isSome then looking c ⟨m, .probing e.proxy⟩ acc' else standing (taken c e.proxy) acc') := by
  have drawn := takeChosen_eq holds best draws
  obtain ⟨rfl, rfl⟩ := holds
  have answered := step_got at_c e.proxy
  have turned (seed : UInt64) (victim : Nat) : ∃ sh' acc', Holds sh' sh.pool.config rest ∧
      alone out clock (sh, looking c ⟨m, .enter⟩ acc) (.turn seed victim) = some (sh',
        if sh.pool.config.verifyOnLease.isSome then looking c ⟨m, .probing e.proxy⟩ acc' else standing (taken c e.proxy) acc') := by
    cases verify : sh.pool.config.verifyOnLease with
    | none =>
      refine ⟨{ sh with pool := { sh.pool with state := rest }, handouts := sh.handouts ++ [e.proxy] },
        { acc with taken := acc.taken ++ [e.proxy.ident] }, ⟨rfl, rfl⟩, ?_⟩
      simp [alone, looking, standing, Call.inputs, run, Task.step, Client.demand, Client.answer, at_c, Lease.step, drawn,
        Pool.noteChosen, best, verify, answered]
    | some timeout =>
      refine ⟨{ sh with pool := { sh.pool with state := rest } }, { acc with taken := acc.taken ++ [e.proxy.ident] }, ⟨rfl, rfl⟩, ?_⟩
      simp [alone, looking, Call.inputs, run, Task.step, Client.demand, at_c, Lease.step, drawn, Pool.noteChosen, best, verify]
  refine ⟨?_, ?_⟩
  · obtain ⟨sh', acc', -, moved⟩ := turned 0 0
    exact ⟨_, moved⟩
  · intro call w moved
    have awaited := awaited_of_alone moved
    cases call with
    | turn seed victim =>
      obtain ⟨sh', acc', holds', moved'⟩ := turned seed victim
      rw [moved'] at moved
      cases moved
      exact ⟨sh', acc', holds', rfl⟩
    | miss seed last now =>
      simp [alone, looking, Call.inputs, run, Task.step, Client.demand, at_c, Lease.step, drawn] at moved
    | _ => simp [Call.Awaited, at_c] at awaited

/-- **A turn that finds nothing** is the end: `get` returns nothing, or waits. -/
theorem not_connected_of_none (out : Outside) (clock : Clock) (acc : Account) (at_c : c.phase = .getting) (m : Nat)
    (none_eligible : ∀ e ∈ sh.pool.state, e.proxy.servesScheme (scheme c.uri) = false) :
    ¬ Inevitably (alone out clock) Connected (sh, looking c ⟨m, .enter⟩ acc) := by
  have nothing (now : Instant) (seed : UInt64) : sh.pool.takeChosen (sh.pool.selectCtx (scheme c.uri) key now) seed = none :=
    Pool.takeChosen_eq_none.2 none_eligible
  let gone : State := { c with phase := .finished .noProxy }
  have missed (seed last : UInt64) (now : Instant) : alone out clock (sh, looking c ⟨m, .enter⟩ acc) (.miss seed last now) =
      some (sh, if sh.pool.exhausted then standing gone acc else looking c ⟨m, .parked sh.pool.epoch⟩ acc) := by
    cases exhausted : sh.pool.exhausted <;>
      simp [alone, looking, standing, Call.inputs, run, Task.step, Client.demand, Client.answer, at_c, Lease.step, nothing, exhausted,
        step, gone]
  rw [Inevitably.iff_next (R := False) (not_connected (by simp [at_c])) ⟨_, _, missed 0 0 0⟩]
  · exact id
  intro call w moved
  have awaited := awaited_of_alone moved
  have stuck : w = (sh, if sh.pool.exhausted then standing gone acc else looking c ⟨m, .parked sh.pool.epoch⟩ acc) := by
    cases call with
    | miss seed last now =>
      rw [missed] at moved
      cases moved
      rfl
    | turn seed victim =>
      simp [alone, looking, Call.inputs, run, Task.step, Client.demand, at_c, Lease.step, nothing] at moved
    | _ => simp [Call.Awaited, at_c] at awaited
  rw [stuck]
  refine iff_of_false ?_ id
  split
  · exact Inevitably.not_of_stuck (not_connected (by simp [gone])) (alone_finished (c := gone) rfl)
  · refine Inevitably.not_of_stuck (not_connected (by simp [at_c])) fun call => Option.eq_none_iff_forall_ne_some.2 fun v moves => ?_
    have awaited := awaited_of_alone moves
    cases call <;> simp [Call.Awaited, at_c] at awaited

/-- **A probe** ends the `get` with its proxy, or the turn. -/
theorem alone_probe (out : Outside) (clock : Clock) (acc : Account) (holds : Holds sh config l) (at_c : c.phase = .getting) {m : Nat}
    {p : Proxy} : (∃ w, alone out clock (sh, looking c ⟨m, .probing p⟩ acc) .probe = some w) ∧
    ∀ call w, alone out clock (sh, looking c ⟨m, .probing p⟩ acc) call = some w → ∃ sh' acc',
      if out.probes p then Holds sh' config l ∧ w = (sh', standing (taken c p) acc')
      else Holds sh' config (if Pool.unhealthy config p then l else l ++ [⟨p, some (clock.bench c.tried m + config.failTimeout)⟩]) ∧
        w = (sh', if Lease.verifyMaxAttempts ≤ m + 1 then standing { c with phase := .finished .noProxy } acc'
          else looking c ⟨m + 1, .enter⟩ acc') := by
  obtain ⟨rfl, rfl⟩ := holds
  have answered := step_got at_c p
  have probed : ∃ w sh' acc', alone out clock (sh, looking c ⟨m, .probing p⟩ acc) .probe = some w ∧
      if out.probes p then Holds sh' sh.pool.config sh.pool.state ∧ w = (sh', standing (taken c p) acc')
      else Holds sh' sh.pool.config (if Pool.unhealthy sh.pool.config p then sh.pool.state
          else sh.pool.state ++ [⟨p, some (clock.bench c.tried m + sh.pool.config.failTimeout)⟩]) ∧
        w = (sh', if Lease.verifyMaxAttempts ≤ m + 1 then standing { c with phase := .finished .noProxy } acc'
          else looking c ⟨m + 1, .enter⟩ acc') := by
    cases passes : out.probes p with
    | true =>
      refine ⟨_, { sh with handouts := sh.handouts ++ [p] }, acc, ?_, ⟨rfl, rfl⟩, rfl⟩
      simp [alone, looking, standing, Call.inputs, run, Task.step, Client.demand, Client.answer, at_c, Lease.step, passes, answered]
    | false =>
      let back : Shared := sh.putBack p true (clock.bench c.tried m)
      cases weak : Pool.unhealthy sh.pool.config p with
      | true =>
        refine ⟨_, back, { acc with returned := acc.returned ++ [p.ident] }, ?_, ⟨?_, ?_⟩, rfl⟩
        · by_cases last : Lease.verifyMaxAttempts ≤ m + 1 <;>
            simp [alone, looking, standing, Call.inputs, run, Task.step, Client.demand, Client.answer, at_c, Lease.step, Lease.redraw,
              passes, weak, last, step, back]
        · simp [back, Shared.putBack, Pool.putFailed, Pool.putInner, weak]
        · simp [back, Shared.putBack, Pool.putFailed, Pool.putInner, weak]
      | false =>
        refine ⟨_, { back with pool := back.pool.notifyWaiters }, { acc with returned := acc.returned ++ [p.ident] }, ?_, ⟨?_, ?_⟩, rfl⟩
        · by_cases last : Lease.verifyMaxAttempts ≤ m + 1 <;>
            simp [alone, looking, standing, Call.inputs, run, Task.step, Client.demand, Client.answer, at_c, Lease.step, Lease.redraw,
              passes, weak, last, step, back]
        · simp [back, Shared.putBack, Pool.putFailed, Pool.putInner, Pool.notifyWaiters, Pool.push, weak]
        · simp [back, Shared.putBack, Pool.putFailed, Pool.putInner, Pool.notifyWaiters, Pool.push, weak]
  obtain ⟨v, sh', acc', moved', after⟩ := probed
  refine ⟨⟨v, moved'⟩, ?_⟩
  intro call w moved
  cases call with
  | probe =>
    rw [moved'] at moved
    cases moved
    exact ⟨sh', acc', after⟩
  | _ =>
    have awaited := awaited_of_alone moved
    simp [Call.Awaited, at_c] at awaited

theorem continueWith_phase (c : State) (phase : Phase) (again : Bool) :
    continueWith { c with phase := phase } again = continueWith c again := by
  cases again <;> rfl

theorem negotiated_phase (c : State) (phase : Phase) (p : Proxy) (proto : Proto) (n : Negotiation) :
    negotiated { c with phase := phase } p proto n = negotiated c p proto n := by
  cases n <;> rfl

/-- **`pool.put_ok`** evicts the proxy, or pushes it. -/
theorem alone_put (out : Outside) (clock : Clock) (acc : Account) {p : Proxy} {again : Bool} (holds : Holds sh config l)
    (at_c : c.phase = .putting p false again) :
    (∃ w, alone out clock (sh, standing c acc) (.put 0) = some w) ∧
    ∀ call w, alone out clock (sh, standing c acc) call = some w → ∃ sh' acc', w = (sh', standing (continueWith c again) acc') ∧
      Holds sh' config (if Pool.unhealthy config p then l else l ++ [⟨p, none⟩]) := by
  obtain ⟨rfl, rfl⟩ := holds
  have put (now : Instant) : ∃ sh' acc', alone out clock (sh, standing c acc) (.put now) = some (sh', standing (continueWith c again) acc') ∧
      Holds sh' sh.pool.config (if Pool.unhealthy sh.pool.config p then sh.pool.state else sh.pool.state ++ [⟨p, none⟩]) := by
    cases weak : Pool.unhealthy sh.pool.config p with
    | true =>
      refine ⟨sh.putBack p false now, { acc with returned := acc.returned ++ [p.ident] }, ?_, ?_, ?_⟩
      · simp [alone, standing, looking, Call.inputs, State.held, run, Task.step, Client.demand, Client.answer, at_c, weak, step]
      · simp [Shared.putBack, Pool.putOk, Pool.putInner, weak]
      · simp [Shared.putBack, Pool.putOk, Pool.putInner, weak]
    | false =>
      refine ⟨{ sh.putBack p false now with pool := (sh.putBack p false now).pool.notifyWaiters },
        { acc with returned := acc.returned ++ [p.ident] }, ?_, ?_, ?_⟩
      · simp [alone, standing, looking, Call.inputs, State.held, run, Task.step, Client.demand, Client.answer, at_c, weak, step,
          continueWith_phase]
      · simp [Shared.putBack, Pool.putOk, Pool.putInner, Pool.notifyWaiters, Pool.push, weak]
      · simp [Shared.putBack, Pool.putOk, Pool.putInner, Pool.notifyWaiters, Pool.push, weak]
  refine ⟨?_, ?_⟩
  · obtain ⟨sh', acc', moved, -⟩ := put 0
    exact ⟨_, moved⟩
  · intro call w moved
    cases call with
    | put now =>
      obtain ⟨sh', acc', moved', holds⟩ := put now
      rw [moved'] at moved
      cases moved
      exact ⟨sh', acc', rfl, holds⟩
    | _ =>
      have awaited := awaited_of_alone moved
      simp [Call.Awaited, at_c] at awaited

/-- A negotiation that opens the stream ends the dial with it. -/
theorem negotiated_opens {p : Proxy} {proto : Proto} {n : Negotiation} {ns : List Negotiation.Input}
    (opens : run (Negotiation.step proto) n ns = some .opened) :
    run (fun w i => w.2.step w.1 i) (sh, standing (negotiated c p proto n) acc)
      (ns.map fun i => Task.Input.io (.connect (.negotiation i))) = some (sh, standing (dialled c p none) acc) := by
  induction ns generalizing n with
  | nil =>
    cases opens
    rfl
  | cons i ns ih =>
    obtain ⟨n', first, rest⟩ := run_cons_iff.1 opens
    have going : negotiated c p proto n = { c with phase := .dialling p proto (.negotiating n) } := by
      cases n <;> first | rfl | simp [Negotiation.step] at first
    rw [List.map_cons, run_cons_iff]
    refine ⟨(sh, standing (negotiated c p proto n') acc), ?_, ih rest⟩
    rw [going]
    simp [Task.step, standing, looking, Client.io, Client.demand, step, first, negotiated_phase]

/-- **`dial`** succeeds. -/
theorem alone_dial (sh : Shared) (acc : Account) {p : Proxy} {proto : Proto} (at_c : c.phase = .dialling p proto .connecting)
    (opens : run (Negotiation.step proto) (Negotiation.start proto c.target p.auth) (out.answers p) = some .opened) :
    (∃ w, alone out clock (sh, standing c acc) .dial = some w) ∧
    ∀ call w, alone out clock (sh, standing c acc) call = some w → w = (sh, standing (dialled c p none) acc) := by
  have dial : alone out clock (sh, standing c acc) .dial = some (sh, standing (dialled c p none) acc) := by
    have first : Task.step sh (standing c acc) (.io (.connect .connected)) =
        some (sh, standing (negotiated c p proto (Negotiation.start proto c.target p.auth)) acc) := by
      simp [Task.step, standing, looking, Client.io, Client.demand, step, at_c]
    have held : c.held = some p := by simp [State.held, at_c]
    have inputs : Call.inputs out clock sh c Lease.fresh .dial =
        .io (.connect .connected) :: (out.answers p).map fun i => .io (.connect (.negotiation i)) := by
      simp [Call.inputs, held]
    rw [standing, alone_eq, inputs, run_cons_iff]
    exact ⟨_, first, negotiated_opens opens⟩
  refine ⟨⟨_, dial⟩, ?_⟩
  intro call w moved
  cases call with
  | dial =>
    rw [dial] at moved
    cases moved
    rfl
  | _ =>
    have awaited := awaited_of_alone moved
    simp [Call.Awaited, at_c] at awaited

/-- Every eligible proxy that has a tunnel is dialled with success. -/
def Dials (out : Outside) (target : Target) (scheme : Scheme) (l : List Pooled) : Prop :=
  ∀ e ∈ l, e.proxy.servesScheme scheme = true → ∀ proto, tunnelProto e.proxy scheme = some proto →
    run (Negotiation.step proto) (Negotiation.start proto target e.proxy.auth) (out.answers e.proxy) = some .opened

/-- A drawn proxy that is put back can be dialled as before. -/
theorem Dials.putBack {target : Target} {sch : Scheme} {now : Instant} (dials : Dials out target sch l)
    (draws : (deckAt config sch now).Draws l e rest) (b : Option Instant) :
    Dials out target sch (if Pool.unhealthy config e.proxy then rest else rest ++ [⟨e.proxy, b⟩]) := by
  intro f mem
  have from_l : ∃ f' ∈ l, f'.proxy = f.proxy := by
    split at mem
    · exact ⟨f, draws.perm.subset (List.mem_cons_of_mem e mem), rfl⟩
    · rcases List.mem_append.1 mem with mem | mem
      · exact ⟨f, draws.perm.subset (List.mem_cons_of_mem e mem), rfl⟩
      · rw [List.mem_singleton.1 mem]
        exact ⟨e, draws.mem, rfl⟩
  obtain ⟨f', there, same⟩ := from_l
  rw [← same]
  exact dials f' there

/-- A dial that succeeds is the end. -/
theorem connected_of_dial {p : Proxy} {proto : Proto} (holds : Holds sh config l) (at_c : c.phase = .dialling p proto .connecting)
    (opens : run (Negotiation.step proto) (Negotiation.start proto c.target p.auth) (out.answers p) = some .opened) :
    Inevitably (alone out clock) Connected (sh, standing c acc) := by
  obtain ⟨moves, next⟩ := alone_dial sh acc at_c opens
  refine .later ⟨_, moves⟩ fun call w moved => ?_
  rw [next call w moved]
  obtain ⟨moves, next⟩ := alone_put (c := dialled c p none) out clock acc holds rfl
  refine .later ⟨_, moves⟩ fun call w moved => ?_
  obtain ⟨sh', acc', rfl, -⟩ := next call w moved
  exact .now ⟨_, rfl, rfl⟩

/-- With `n` tries left, the first of them in turn `m`, one of the proxies that `get` lends has a tunnel. A draw is the first
best-ranked of the eligible entries that are ready at the reading of its turn, or of all eligible ones when none is; it leaves
the vector by `swap_remove`. A proxy without a tunnel is pushed back unbenched, and one that fails its probe is pushed back
benched, unless it is evicted. -/
inductive TunnelComes (out : Outside) (config : PoolConfig) (sch : Scheme) (clock : Clock) : Nat → Nat → Nat → List Pooled → Prop
  | lent {i m n : Nat} {l rest : List Pooled} {e : Pooled} : (deckAt config sch (clock.draw i m)).Draws l e rest →
    out.passes config e.proxy = true → (tunnelProto e.proxy sch).isSome = true → TunnelComes out config sch clock i m (n + 1) l
  | skipped {i m n : Nat} {l rest : List Pooled} {e : Pooled} : (deckAt config sch (clock.draw i m)).Draws l e rest →
    out.passes config e.proxy = true →
    TunnelComes out config sch clock (i + 1) 0 n (if Pool.unhealthy config e.proxy then rest else rest ++ [⟨e.proxy, none⟩]) →
    TunnelComes out config sch clock i m (n + 1) l
  | benched {i m n : Nat} {l rest : List Pooled} {e : Pooled} : (deckAt config sch (clock.draw i m)).Draws l e rest →
    out.passes config e.proxy = false → m + 1 < Lease.verifyMaxAttempts →
    TunnelComes out config sch clock i (m + 1) (n + 1)
      (if Pool.unhealthy config e.proxy then rest else rest ++ [⟨e.proxy, some (clock.bench i m + config.failTimeout)⟩]) →
    TunnelComes out config sch clock i m (n + 1) l

section
variable {sch : Scheme} {i m n : Nat}

theorem not_tunnelComes_zero : ¬ TunnelComes out config sch clock i m 0 l := nofun

theorem not_tunnelComes_of_none (none_eligible : ∀ e ∈ l, e.proxy.servesScheme sch = false) :
    ¬ TunnelComes out config sch clock i m n l := by
  intro comes
  cases comes with
  | lent draws _ _ | skipped draws _ _ | benched draws _ _ _ =>
    have serves : _ = true := draws.eligible
    have refuses := none_eligible _ draws.mem
    exact absurd (serves.symm.trans refuses) (by decide)

/-- A proxy that is lent has a tunnel, or one comes in a later try. -/
theorem tunnelComes_iff_lent (draws : (deckAt config sch (clock.draw i m)).Draws l e rest) (passes : out.passes config e.proxy = true) :
    TunnelComes out config sch clock i m (n + 1) l ↔ (tunnelProto e.proxy sch).isSome = true ∨
      TunnelComes out config sch clock (i + 1) 0 n (if Pool.unhealthy config e.proxy then rest else rest ++ [⟨e.proxy, none⟩]) := by
  constructor
  · intro comes
    cases comes with
    | lent draws' _ tunnel =>
      obtain ⟨rfl, rfl⟩ := draws.unique draws'
      exact Or.inl tunnel
    | skipped draws' _ next =>
      obtain ⟨rfl, rfl⟩ := draws.unique draws'
      exact Or.inr next
    | benched draws' fails _ _ =>
      obtain ⟨rfl, rfl⟩ := draws.unique draws'
      exact absurd (passes.symm.trans fails) (by decide)
  · rintro (tunnel | next)
    · exact .lent draws passes tunnel
    · exact .skipped draws passes next

/-- After a proxy that fails its probe the next turn decides, if there is one. -/
theorem tunnelComes_iff_benched (draws : (deckAt config sch (clock.draw i m)).Draws l e rest)
    (fails : out.passes config e.proxy = false) :
    TunnelComes out config sch clock i m (n + 1) l ↔ m + 1 < Lease.verifyMaxAttempts ∧ TunnelComes out config sch clock i (m + 1) (n + 1)
      (if Pool.unhealthy config e.proxy then rest else rest ++ [⟨e.proxy, some (clock.bench i m + config.failTimeout)⟩]) := by
  constructor
  · intro comes
    cases comes with
    | lent draws' passes _ | skipped draws' passes _ =>
      obtain ⟨rfl, rfl⟩ := draws.unique draws'
      exact absurd (passes.symm.trans fails) (by decide)
    | benched draws' _ more next =>
      obtain ⟨rfl, rfl⟩ := draws.unique draws'
      exact ⟨more, next⟩
  · rintro ⟨more, next⟩
    exact .benched draws fails more next

theorem TunnelComes.mono {k : Nat} (comes : TunnelComes out config sch clock i m n l) (le : n ≤ k) :
    TunnelComes out config sch clock i m k l := by
  induction comes generalizing k with
  | lent draws passes tunnel =>
    cases k with
    | zero => omega
    | succ k => exact .lent draws passes tunnel
  | skipped draws passes _ ih =>
    cases k with
    | zero => omega
    | succ k => exact .skipped draws passes (ih (by omega))
  | benched draws fails more _ ih =>
    cases k with
    | zero => omega
    | succ k => exact .benched draws fails more (ih le)

/-- Where no probe fails, the draws are those of the deck. -/
theorem tunnelComes_iff_comes (pass : ∀ e ∈ l, e.proxy.servesScheme sch = true → out.passes config e.proxy = true) :
    TunnelComes out config sch clock i 0 n l ↔ Deck.Comes (fun i => deckAt config sch (clock.draw i 0)) unbench i n l := by
  induction n generalizing i l with
  | zero => exact iff_of_false not_tunnelComes_zero Deck.not_comes_zero
  | succ n ih =>
    by_cases some : ∃ b ∈ l, b.proxy.servesScheme sch = true
    · obtain ⟨b, mem, eligible⟩ := some
      obtain ⟨e, rest, draws⟩ := Deck.exists_draws (d := deckAt config sch (clock.draw i 0)) mem eligible
      rw [tunnelComes_iff_lent draws (pass e draws.mem draws.eligible),
        Deck.comes_succ_iff (fun i => deckAt config sch (clock.draw i 0)) draws]
      apply or_congr_right
      apply ih
      intro f mem serves
      split at mem
      · exact pass f (draws.perm.subset (List.mem_cons_of_mem e mem)) serves
      · rcases List.mem_append.1 mem with mem | mem
        · exact pass f (draws.perm.subset (List.mem_cons_of_mem e mem)) serves
        · obtain rfl := List.mem_singleton.1 mem
          exact pass e draws.mem serves
    · have none_eligible : ∀ b ∈ l, b.proxy.servesScheme sch = false := by
        intro b mem
        apply eq_false_of_ne_true
        intro serves
        exact some ⟨b, mem, serves⟩
      refine iff_of_false (not_tunnelComes_of_none none_eligible) ?_
      intro comes
      cases comes with
      | now draws _ | later draws _ _ => exact some ⟨_, draws.mem, draws.eligible⟩

end

/-- What `connect` comes to with `n` more tries after this one. -/
def Again (out : Outside) (clock : Clock) (config : PoolConfig) (c : State) (n : Nat) : Prop :=
  ∀ (sh : Shared) (acc : Account) (l : List Pooled), Holds sh config l → Dials out c.target (scheme c.uri) l →
    (Inevitably (alone out clock) Connected (sh, standing (loopHead { c with tried := c.tried + 1 }) acc) ↔
      TunnelComes out config (scheme c.uri) clock (c.tried + 1) 0 n l)

/-- **A lent proxy** is dialled, or put back. -/
theorem lent_iff {n m : Nat} (holds : Holds sh config rest) (dials : Dials out c.target (scheme c.uri) l)
    (draws : (deckAt config (scheme c.uri) (clock.draw c.tried m)).Draws l e rest) (again : Again out clock config c n) :
    Inevitably (alone out clock) Connected (sh, standing (taken c e.proxy) acc) ↔ (tunnelProto e.proxy (scheme c.uri)).isSome = true ∨
      TunnelComes out config (scheme c.uri) clock (c.tried + 1) 0 n
        (if Pool.unhealthy config e.proxy then rest else rest ++ [⟨e.proxy, none⟩]) := by
  cases tunnel : tunnelProto e.proxy (scheme c.uri) with
  | some proto =>
    have at_w : (taken c e.proxy).phase = .dialling e.proxy proto .connecting := by simp [taken, tunnel]
    refine iff_of_true (connected_of_dial holds at_w ?_) (Or.inl rfl)
    have target : (taken c e.proxy).target = c.target := by simp [taken, tunnel]
    rw [target]
    exact dials e draws.mem draws.eligible proto tunnel
  | none =>
    have at_w : (taken c e.proxy).phase = .putting e.proxy false true := by simp [taken, tunnel]
    obtain ⟨moves, next⟩ := alone_put out clock acc holds at_w
    rw [or_iff_right (by simp)]
    refine Inevitably.iff_next (not_connected (by simp [at_w])) ⟨_, moves⟩ fun call w moved => ?_
    obtain ⟨sh', acc', rfl, holds'⟩ := next call w moved
    have head : continueWith (taken c e.proxy) true = loopHead { c with tried := c.tried + 1 } := by
      simp [continueWith, taken, loopHead, tunnel]
    rw [head]
    exact again sh' acc' _ holds' (dials.putBack draws none)

/-- A proxy that is probed is lent, or benched before the next turn. -/
theorem probed_iff {n m : Nat} (holds : Holds sh config rest) (dials : Dials out c.target (scheme c.uri) l)
    (at_c : c.phase = .getting) (draws : (deckAt config (scheme c.uri) (clock.draw c.tried m)).Draws l e rest)
    (verify : config.verifyOnLease.isSome = true) (again : Again out clock config c n)
    (redraw : ∀ sh acc l, m + 1 < Lease.verifyMaxAttempts → Holds sh config l → Dials out c.target (scheme c.uri) l →
      (Inevitably (alone out clock) Connected (sh, looking c ⟨m + 1, .enter⟩ acc) ↔
        TunnelComes out config (scheme c.uri) clock c.tried (m + 1) (n + 1) l)) :
    Inevitably (alone out clock) Connected (sh, looking c ⟨m, .probing e.proxy⟩ acc) ↔
      TunnelComes out config (scheme c.uri) clock c.tried m (n + 1) l := by
  obtain ⟨moves, next⟩ := alone_probe out clock acc holds at_c (m := m) (p := e.proxy)
  refine Inevitably.iff_next (not_connected (by simp [at_c])) ⟨_, moves⟩ fun call w moved => ?_
  obtain ⟨sh', acc', after⟩ := next call w moved
  cases answer : out.probes e.proxy with
  | true =>
    rw [if_pos answer] at after
    obtain ⟨holds', rfl⟩ := after
    rw [tunnelComes_iff_lent draws (by simp [Outside.passes, answer])]
    exact lent_iff holds' dials draws again
  | false =>
    rw [if_neg (by simp [answer])] at after
    obtain ⟨holds', rfl⟩ := after
    rw [tunnelComes_iff_benched draws (by simp [Outside.passes, answer, verify])]
    split
    · refine iff_of_false (Inevitably.not_of_stuck (not_connected (by simp)) (alone_finished rfl)) ?_
      rintro ⟨more, -⟩
      omega
    · rename_i more
      rw [and_iff_right (not_le.1 more)]
      exact redraw sh' acc' _ (not_le.1 more) holds' (dials.putBack draws _)

/-- **A turn** of `get`. -/
theorem turn_iff {n m : Nat} (best : config.strategy = .best) (holds : Holds sh config l) (dials : Dials out c.target (scheme c.uri) l)
    (at_c : c.phase = .getting) (again : Again out clock config c n)
    (redraw : ∀ sh acc l, m + 1 < Lease.verifyMaxAttempts → Holds sh config l → Dials out c.target (scheme c.uri) l →
      (Inevitably (alone out clock) Connected (sh, looking c ⟨m + 1, .enter⟩ acc) ↔
        TunnelComes out config (scheme c.uri) clock c.tried (m + 1) (n + 1) l)) :
    Inevitably (alone out clock) Connected (sh, looking c ⟨m, .enter⟩ acc) ↔
      TunnelComes out config (scheme c.uri) clock c.tried m (n + 1) l := by
  by_cases some : ∃ b ∈ l, b.proxy.servesScheme (scheme c.uri) = true
  · obtain ⟨b, mem, eligible⟩ := some
    obtain ⟨e, rest, draws⟩ := Deck.exists_draws (d := deckAt config (scheme c.uri) (clock.draw c.tried m)) mem eligible
    obtain ⟨moves, next⟩ := alone_turn out clock acc holds best at_c draws
    refine Inevitably.iff_next (not_connected (by simp [at_c])) ⟨_, moves⟩ fun call w moved => ?_
    obtain ⟨sh', acc', holds', rfl⟩ := next call w moved
    cases verify : config.verifyOnLease.isSome with
    | true => exact probed_iff holds' dials at_c draws verify again redraw
    | false =>
      rw [tunnelComes_iff_lent draws (by simp [Outside.passes, verify])]
      exact lent_iff holds' dials draws again
  · have none_eligible : ∀ b ∈ l, b.proxy.servesScheme (scheme c.uri) = false := by
      intro b mem
      apply eq_false_of_ne_true
      intro serves
      exact some ⟨b, mem, serves⟩
    refine iff_of_false (not_connected_of_none out clock acc at_c m ?_) (not_tunnelComes_of_none none_eligible)
    rwa [holds.state]

/-- **The redraw loop** of a try. -/
theorem get_iff {n m k : Nat} (best : config.strategy = .best) (holds : Holds sh config l) (dials : Dials out c.target (scheme c.uri) l)
    (at_c : c.phase = .getting) (turns : m + k + 1 = Lease.verifyMaxAttempts) (again : Again out clock config c n) :
    Inevitably (alone out clock) Connected (sh, looking c ⟨m, .enter⟩ acc) ↔
      TunnelComes out config (scheme c.uri) clock c.tried m (n + 1) l := by
  induction k generalizing m sh acc l with
  | zero =>
    refine turn_iff best holds dials at_c again fun sh acc l more _ _ => ?_
    omega
  | succ k ih => exact turn_iff best holds dials at_c again fun sh acc l _ holds dials => ih holds dials (by omega)

/-- **The retry loop.** With `n` tries left `connect` returns a stream exactly when a proxy with a tunnel comes. -/
theorem connected_iff {n : Nat} (best : config.strategy = .best) (holds : Holds sh config l)
    (dials : Dials out c.target (scheme c.uri) l) (left : c.tried + n = c.maxTries) :
    Inevitably (alone out clock) Connected (sh, standing (loopHead c) acc) ↔
      TunnelComes out config (scheme c.uri) clock c.tried 0 n l := by
  induction n generalizing c sh acc l with
  | zero =>
    have exhausted : (loopHead c).phase = .finished (.failed c.last) := by
      show (if _ then _ else _) = _
      rw [if_neg (by omega)]
    refine iff_of_false (Inevitably.not_of_stuck (not_connected ?_) (alone_finished exhausted)) not_tunnelComes_zero
    rw [exhausted]
    simp
  | succ n ih =>
    have getting : (loopHead c).phase = .getting := by
      show (if _ then _ else _) = _
      rw [if_pos (by omega)]
    refine get_iff (c := loopHead c) (m := 0) (k := 7) best holds dials getting rfl ?_
    intro sh' acc' l' holds' dials'
    refine ih (c := { c with tried := c.tried + 1 }) holds' dials' ?_
    show c.tried + 1 + n = c.maxTries
    omega

/-- The target of a call, when the URI has a host. -/
def target (uri : Uri) (ip : Option IpAddr) : Target :=
  let raw := uri.host.getD []
  ⟨((stripPrefix ['['] raw).bind (stripSuffix [']'])).getD raw, ip, uri.port.getD (if scheme uri = .https then 443 else 80)⟩

/-- `connect` from its beginning. -/
theorem connect_iff (clock : Clock) {uri : Uri} (maxTries : Nat) (best : config.strategy = .best) (holds : Holds sh config l)
    (dials : Dials out (target uri out.ip) (scheme uri) l) :
    Inevitably (alone out clock) Connected (sh, Task.start (.connecting (start uri maxTries))) ↔
      uri.host.isSome = true ∧ TunnelComes out config (scheme uri) clock 0 0 maxTries l := by
  have only (call : Call) (w : Shared × Task)
      (moved : alone out clock (sh, Task.start (.connecting (start uri maxTries))) call = some w) : call = .host := by
    have awaited : call.Awaited .called .enter := awaited_of_alone (c := start uri maxTries) (g := Lease.fresh) moved
    cases call with
    | host => rfl
    | _ => simp [Call.Awaited] at awaited
  cases host : uri.host with
  | none =>
    have refused : alone out clock (sh, Task.start (.connecting (start uri maxTries))) .host =
        some (sh, standing { start uri maxTries with phase := .finished .noHost } ⟨[], []⟩) := by
      simp [alone, Task.start, start, Call.inputs, run, Task.step, Client.demand, Client.io, step, host, standing, looking]
    refine iff_of_false ?_ (by simp)
    refine (Inevitably.iff_next (R := False) (not_connected (by simp [start])) ⟨_, _, refused⟩ ?_).not.2 id
    intro call w moved
    obtain rfl := only call w moved
    cases moved.symm.trans refused
    exact iff_of_false (Inevitably.not_of_stuck (not_connected (by simp)) (alone_finished rfl)) id
  | some raw =>
    have called : alone out clock (sh, Task.start (.connecting (start uri maxTries))) .host =
        some (sh, standing { start uri maxTries with target := target uri none, phase := .resolving } ⟨[], []⟩) := by
      simp [alone, Task.start, start, Call.inputs, run, Task.step, Client.demand, Client.io, step, host, standing, looking, target]
    have resolved : alone out clock (sh, standing { start uri maxTries with target := target uri none, phase := .resolving } ⟨[], []⟩) .resolve =
        some (sh, standing (loopHead { start uri maxTries with target := target uri out.ip, phase := .resolving }) ⟨[], []⟩) := by
      simp [alone, start, Call.inputs, run, Task.step, Client.demand, Client.io, step, standing, looking, target]
    simp only [Option.isSome_some, true_and]
    refine Inevitably.iff_next (not_connected (by simp [start])) ⟨_, _, called⟩ fun call w moved => ?_
    obtain rfl := only call w moved
    cases moved.symm.trans called
    refine Inevitably.iff_next (not_connected (by simp)) ⟨_, _, resolved⟩ fun call w moved => ?_
    cases call with
    | resolve =>
      cases moved.symm.trans resolved
      exact connected_iff best holds dials (Nat.zero_add _)
    | _ =>
      have awaited := awaited_of_alone moved
      simp [Call.Awaited] at awaited

/-- The number of eligible proxies without a tunnel. -/
def unusable (l : List Pooled) (sch : Scheme) : Nat :=
  l.countP fun e => e.proxy.servesScheme sch && (tunnelProto e.proxy sch).isNone

/-- Apart from proxies without a tunnel that are evicted when they are put back, the best proxy has a tunnel, or
the next best ties with it and has one; in the second case `m` evictions cost two draws each. -/
def FirstOrTied (d : Deck Pooled (ℚ ×ₗ ℚ ×ₗ Nat)) (l : List Pooled) (k : Nat) : Prop :=
  ∃ e l' x rest, d.Clears l e l' ∧ d.Draws l' x rest ∧
    (d.useful x = true ∨ d.useful x = false ∧ d.weak x = false ∧ ∃ m, d.Ties rest x m ∧ e + 2 * m + 1 ≤ k)

theorem firstOrTied_iff {sch : Scheme} :
    FirstOrTied (deck config sch) l (unusable l sch) ↔ (deck config sch).Hits (unusable l sch + 1) l := by
  rw [Deck.hits_iff]
  constructor
  · rintro ⟨e, l', x, rest, clears, draws, found⟩
    refine ⟨e, l', x, rest, clears, draws, found.imp (fun useful => ⟨useful, ?_⟩) ?_⟩
    · have count := clears.count
      have all : unusable l sch = l.countP fun b => (deck config sch).eligible b && !(deck config sch).useful b := by
        simp [unusable, deck]
      omega
    · exact fun ⟨useless, strong, m, ties, le⟩ => ⟨useless, strong, m, ties, by omega⟩
  · rintro ⟨e, l', x, rest, clears, draws, found⟩
    refine ⟨e, l', x, rest, clears, draws, found.imp And.left ?_⟩
    exact fun ⟨useless, strong, m, ties, le⟩ => ⟨useless, strong, m, ties, by omega⟩

/-- **The rotating connector and unusable proxies.** A pool under `Strategy::Best` from which no dial fails: with every number of
tries above the number `k` of eligible proxies without a tunnel `connect` returns a stream, exactly when the URI has a host
and one of the first `k + 1` proxies that `get` lends has a tunnel. Where nothing is benched and no probe fails that is when
the best proxy, or one that ties with it, has a tunnel. -/
theorem skips_unusable_iff {uri : Uri} (out : Outside) (clock : Clock) (sh : Shared) (best : sh.pool.config.strategy = .best)
    (dials : Dials out (target uri out.ip) (scheme uri) sh.pool.state) :
    ((∀ maxTries, unusable sh.pool.state (scheme uri) < maxTries →
      Inevitably (alone out clock) Connected (sh, Task.start (.connecting (start uri maxTries)))) ↔
    uri.host.isSome = true ∧
      TunnelComes out sh.pool.config (scheme uri) clock 0 0 (unusable sh.pool.state (scheme uri) + 1) sh.pool.state) ∧
    (Unbenched sh.pool.state →
      (∀ e ∈ sh.pool.state, e.proxy.servesScheme (scheme uri) = true → out.passes sh.pool.config e.proxy = true) →
      (TunnelComes out sh.pool.config (scheme uri) clock 0 0 (unusable sh.pool.state (scheme uri) + 1) sh.pool.state ↔
        FirstOrTied (deck sh.pool.config (scheme uri)) sh.pool.state (unusable sh.pool.state (scheme uri)))) := by
  have returns (maxTries : Nat) := connect_iff clock maxTries best (⟨rfl, rfl⟩ : Holds sh sh.pool.config sh.pool.state) dials
  constructor
  · constructor
    · intro all
      exact (returns _).1 (all _ (Nat.lt_succ_self _))
    · rintro ⟨host, comes⟩ maxTries enough
      exact (returns maxTries).2 ⟨host, comes.mono enough⟩
  · intro unbenched pass
    rw [firstOrTied_iff, tunnelComes_iff_comes pass]
    exact Deck.comes_iff_hits (agrees_unbenched sh.pool.config (scheme uri) fun i => clock.draw i 0) unbenched

/-- A proxy that only terminates TLS. -/
def httpsOnly : Proxy := (Proxy.new (.v4 0) 80 []).addType .https none

/-- A SOCKS5 proxy with these response times. -/
def socksProxy (runtimes : List ℚ) : Proxy := { (Proxy.new (.v4 0) 81 []).addType .socks5 none with runtimes := runtimes }

/-- A pool of the two. -/
def twoKinds (runtimes : List ℚ) : Shared :=
  Sys.freshShared (Pool.fromProxies [httpsOnly, socksProxy runtimes] PoolConfig.default)

/-- Every handshake succeeds. -/
def willing : Outside := ⟨none, fun _ => true, fun _ => [.handshake .completed]⟩

/-- Everything is read at time `0`. -/
def stopped : Clock := ⟨fun _ _ => 0, fun _ _ => 0⟩

def secureUri : Uri := ⟨some "https".toList, some ['h'], none⟩

theorem scheme_secureUri : scheme secureUri = .https := by decide

theorem twoKinds_state (runtimes : List ℚ) : (twoKinds runtimes).pool.state = [⟨httpsOnly, none⟩, ⟨socksProxy runtimes, none⟩] := rfl

theorem unbenched_twoKinds (runtimes : List ℚ) : Unbenched (twoKinds runtimes).pool.state := by
  rw [twoKinds_state]
  simp [Unbenched]

theorem dials_twoKinds (runtimes : List ℚ) :
    Dials willing (target secureUri none) .https (twoKinds runtimes).pool.state := by
  have first : tunnelProto httpsOnly .https = none := by decide
  have second : tunnelProto (socksProxy runtimes) .https = some .socks5 := rfl
  intro e mem _ proto tunnel
  rw [twoKinds_state, List.mem_cons, List.mem_singleton] at mem
  rcases mem with rfl | rfl
  · rw [first] at tunnel
    cases tunnel
  · rw [second] at tunnel
    cases tunnel
    rfl

theorem tunnel_twoKinds (runtimes : List ℚ) : ∃ e ∈ (twoKinds runtimes).pool.state,
    e.proxy.servesScheme .https = true ∧ (tunnelProto e.proxy .https).isSome = true :=
  ⟨⟨socksProxy runtimes, none⟩, by simp [twoKinds_state], rfl, rfl⟩

/-- The proxy without a tunnel is drawn first when the other is not better. -/
theorem draws_httpsOnly {runtimes : List ℚ}
    (least : entryRank false ⟨httpsOnly, none⟩ ≤ entryRank false ⟨socksProxy runtimes, none⟩) :
    (deck PoolConfig.default .https).Draws (twoKinds runtimes).pool.state ⟨httpsOnly, none⟩ [⟨socksProxy runtimes, none⟩] := by
  refine ⟨[], [⟨socksProxy runtimes, none⟩], rfl, rfl, by decide, by simp, ?_⟩
  intro b mem _
  rw [List.mem_singleton.1 mem]
  exact least

theorem httpsOnly_useless : (deck PoolConfig.default .https).useful ⟨httpsOnly, none⟩ = false := by decide

theorem httpsOnly_strong : (deck PoolConfig.default .https).weak ⟨httpsOnly, none⟩ = false := by decide

/-- Of two proxies that tie, the one without a tunnel is skipped. -/
theorem skips_unusable_tied : unusable (twoKinds []).pool.state .https = 1 ∧ ∀ maxTries, 1 < maxTries →
    Inevitably (alone willing stopped) Connected (twoKinds [], Task.start (.connecting (start secureUri maxTries))) := by
  have one : unusable (twoKinds []).pool.state .https = 1 := by decide
  refine ⟨one, ?_⟩
  have dials : Dials willing (target secureUri none) (scheme secureUri) (twoKinds []).pool.state := by
    rw [scheme_secureUri]
    exact dials_twoKinds []
  obtain ⟨iff, closed⟩ := skips_unusable_iff willing stopped (twoKinds []) rfl dials
  have tie : entryRank false ⟨httpsOnly, none⟩ = entryRank false ⟨socksProxy [], none⟩ := rfl
  have second : (deck PoolConfig.default .https).Draws [⟨socksProxy [], none⟩] ⟨socksProxy [], none⟩ [] :=
    ⟨[], [], rfl, rfl, rfl, by simp, by simp⟩
  have ties : (deck PoolConfig.default .https).Ties [⟨socksProxy [], none⟩] ⟨httpsOnly, none⟩ 0 :=
    (Deck.ties_zero_iff second).2 ⟨rfl, tie.symm⟩
  have condition : FirstOrTied (deck PoolConfig.default .https) (twoKinds []).pool.state 1 :=
    ⟨0, _, _, _, .done _, draws_httpsOnly tie.le, Or.inr ⟨httpsOnly_useless, httpsOnly_strong, 0, ties, le_rfl⟩⟩
  rw [scheme_secureUri, one] at iff closed
  exact iff.2 ⟨rfl, (closed (unbenched_twoKinds []) fun _ _ _ => rfl).2 condition⟩

/-- A proxy without a tunnel that ranks first is drawn again and again: one such proxy, two tries, no stream. -/
theorem unusable_drawn_again :
    (twoKinds [1]).pool.config.strategy = .best ∧ Dials willing (target secureUri none) .https (twoKinds [1]).pool.state ∧
    (∃ e ∈ (twoKinds [1]).pool.state, e.proxy.servesScheme .https = true ∧ (tunnelProto e.proxy .https).isSome = true) ∧
    unusable (twoKinds [1]).pool.state .https = 1 ∧
    ¬ Inevitably (alone willing stopped) Connected (twoKinds [1], Task.start (.connecting (start secureUri 2))) := by
  refine ⟨rfl, dials_twoKinds [1], tunnel_twoKinds [1], by decide, ?_⟩
  have slower : entryRank false ⟨httpsOnly, none⟩ < entryRank false ⟨socksProxy [1], none⟩ := by decide +kernel
  have dials : Dials willing (target secureUri none) (scheme secureUri) (twoKinds [1]).pool.state := by
    rw [scheme_secureUri]
    exact dials_twoKinds [1]
  have holds : Holds (twoKinds [1]) PoolConfig.default (twoKinds [1]).pool.state := ⟨rfl, rfl⟩
  rw [connect_iff stopped 2 rfl holds dials, scheme_secureUri, tunnelComes_iff_comes fun _ _ _ => rfl,
    Deck.comes_iff_hits (agrees_unbenched PoolConfig.default .https fun i => stopped.draw i 0) (unbenched_twoKinds [1])]
  rintro ⟨-, hits⟩
  change (deck PoolConfig.default .https).Hits (1 + 1) _ at hits
  rw [Deck.hits_succ_iff (draws_httpsOnly slower.le), httpsOnly_useless, Deck.giveBack, if_neg (by simp [httpsOnly_strong]),
    Deck.hits_alone (by decide) httpsOnly_useless httpsOnly_strong] at hits
  · rcases hits with impossible | impossible
    · cases impossible
    · exact Deck.not_hits_zero impossible
  · intro b mem _
    rw [List.mem_singleton.1 mem]
    exact slower

end Connector

end ProxyBroker
