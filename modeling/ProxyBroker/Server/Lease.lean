import ProxyBroker.Server.HandleClient

/-!
# Taking a lease (`server.rs:Pool::get`)

`get` loops over `try_select`, an optional probe of the drawn proxy, and a wait. It is cut at every
lock, atomic and await, so that other tasks can run in between. `Shared` is the state the tasks share;
with the pool and the history it keeps an account that no function reads: which instances were
evicted, removed and handed out, and the proxies that `get` and `try_get` returned. `Account` is the
same for one task: the instances it took out of the vector and those it put back, in order.
-/

namespace ProxyBroker.Server
open Lib

structure Shared where
  pool : Pool
  history : History
  evicted : List Ident
  removed : List Ident
  handedOut : List Ident
  handouts : List Proxy

structure Account where
  taken : List Ident
  returned : List Ident
deriving DecidableEq, Repr

namespace Shared

/-- `put_ok` or `put_failed`, up to the notify. -/
def putBack (sh : Shared) (p : Proxy) (failed : Bool) (now : Instant) : Shared :=
  { sh with
    pool := if failed then sh.pool.putFailed p now else sh.pool.putOk p
    evicted := if Pool.unhealthy sh.pool.config p then sh.evicted ++ [p.ident] else sh.evicted }

/-- `Pool::remove`. -/
def remove (sh : Shared) (addr : Addr) : Shared :=
  { sh with
    pool := sh.pool.remove addr
    removed := sh.removed ++ (sh.pool.state.filter fun e => e.proxy.addr = addr).map fun e => e.proxy.ident }

/-- `Pool::try_get`. -/
def tryGet (sh : Shared) (scheme : Scheme) (country : Option Text) : Shared :=
  match sh.pool.tryGet scheme country with
  | some (p, pool) => { sh with pool := pool, handedOut := sh.handedOut ++ [p.ident], handouts := sh.handouts ++ [p] }
  | none => sh

/-- `try_get` takes from the vector, and writes nothing else of the pool. -/
theorem tryGet_frame (sh : Shared) (scheme : Scheme) (country : Option Text) :
    ∃ taken state, (taken ++ state).Perm sh.pool.state ∧ (sh.tryGet scheme country).pool = { sh.pool with state := state } ∧
      (sh.tryGet scheme country).history = sh.history := by
  unfold tryGet
  split
  · rename_i p pool took
    obtain ⟨e, -, perm, eq⟩ := Pool.tryGet_spec took
    exact ⟨[e], pool.state, perm, eq, rfl⟩
  · exact ⟨[], sh.pool.state, .refl _, rfl, rfl⟩

end Shared

namespace Lease

/-- `VERIFY_MAX_ATTEMPTS`. -/
def verifyMaxAttempts : Nat := 8

/-- Where `get` stands. `waker` is the epoch at which its `Notified` was made; `last` marks the look it
takes after the source is exhausted. -/
inductive Phase where
  | enter
  | reading (waker : Nat) (last : Bool)
  | choosing (waker : Nat) (last : Bool) (ctx : SelectCtx)
  | noting (last : Bool) (proxy : Proxy)
  | probing (proxy : Proxy)
  | benching (proxy : Proxy)
  | notifying
  | checking (waker : Nat)
  | parked (waker : Nat)
  | returned (proxy : Option Proxy)

structure State where
  verifyAttempts : Nat
  phase : Phase

def fresh : State := ⟨0, .enter⟩

/-- What `get` waits for: the clock, the generator state, the map's first key, the probe's result. -/
inductive Input where
  | notified
  | read (now : Instant)
  | choose (seed : UInt64)
  | note (victim : Nat)
  | probe (alive : Bool)
  | bench (now : Instant)
  | notify
  | check
  | wake

/-- After a drawn proxy failed its probe and is benched. -/
def redraw (g : State) : State :=
  if verifyMaxAttempts ≤ g.verifyAttempts + 1 then ⟨g.verifyAttempts + 1, .returned none⟩
  else ⟨g.verifyAttempts + 1, .enter⟩

/-- One step of `get(scheme, key)`. -/
def step (scheme : Scheme) (key : ClientKey) (sh : Shared) (acc : Account) (g : State) (i : Input) :
    Option (Shared × Account × State) :=
  match g.phase, i with
  | .enter, .notified => some (sh, acc, { g with phase := .reading sh.pool.epoch false })
  | .reading waker last, .read now => some (sh, acc, { g with phase := .choosing waker last (sh.pool.selectCtx scheme key now) })
  | .choosing waker last ctx, .choose seed =>
    match sh.pool.takeChosen ctx seed with
    | some (p, pool) =>
      some ({ sh with pool := pool }, { acc with taken := acc.taken ++ [p.ident] }, { g with phase := .noting last p })
    | none => some (sh, acc, { g with phase := if last then .returned none else .checking waker })
  | .noting last p, .note victim =>
    let next := if last = false ∧ sh.pool.config.verifyOnLease.isSome then Phase.probing p else .returned (some p)
    some ({ sh with pool := sh.pool.noteChosen key p victim }, acc, { g with phase := next })
  | .probing p, .probe alive => some (sh, acc, { g with phase := if alive then .returned (some p) else .benching p })
  | .benching p, .bench now =>
    some (sh.putBack p true now, { acc with returned := acc.returned ++ [p.ident] },
      if Pool.unhealthy sh.pool.config p then redraw g else { g with phase := .notifying })
  | .notifying, .notify => some ({ sh with pool := sh.pool.notifyWaiters }, acc, redraw g)
  | .checking waker, .check =>
    some (sh, acc, { g with phase := if sh.pool.exhausted then .reading waker true else .parked waker })
  | .parked waker, .wake => if waker < sh.pool.epoch then some (sh, acc, { g with phase := .enter }) else none
  | _, _ => none

/-- The steps of `get`, by what they do to the shared state, to the account and to the call. -/
inductive Move (scheme : Scheme) (key : ClientKey) (sh : Shared) (acc : Account) (g : State) :
    Input → Shared → Account → State → Prop
  | enter (at_g : g.phase = .enter) : Move scheme key sh acc g .notified sh acc { g with phase := .reading sh.pool.epoch false }
  | read {waker : Nat} {last : Bool} {now : Instant} (at_g : g.phase = .reading waker last) :
    Move scheme key sh acc g (.read now) sh acc { g with phase := .choosing waker last (sh.pool.selectCtx scheme key now) }
  | draw {waker : Nat} {last : Bool} {ctx : SelectCtx} {seed : UInt64} {p : Proxy} {pool : Pool}
    (at_g : g.phase = .choosing waker last ctx) (taken : sh.pool.takeChosen ctx seed = some (p, pool)) :
    Move scheme key sh acc g (.choose seed) { sh with pool := pool } { acc with taken := acc.taken ++ [p.ident] }
      { g with phase := .noting last p }
  | miss {waker : Nat} {last : Bool} {ctx : SelectCtx} {seed : UInt64} (at_g : g.phase = .choosing waker last ctx)
    (nothing : sh.pool.takeChosen ctx seed = none) :
    Move scheme key sh acc g (.choose seed) sh acc { g with phase := if last then .returned none else .checking waker }
  | note {last : Bool} {p : Proxy} {victim : Nat} (at_g : g.phase = .noting last p) :
    Move scheme key sh acc g (.note victim) { sh with pool := sh.pool.noteChosen key p victim } acc
      { g with phase := if last = false ∧ sh.pool.config.verifyOnLease.isSome then .probing p else .returned (some p) }
  | probe {p : Proxy} {alive : Bool} (at_g : g.phase = .probing p) :
    Move scheme key sh acc g (.probe alive) sh acc { g with phase := if alive then .returned (some p) else .benching p }
  | bench {p : Proxy} {now : Instant} (at_g : g.phase = .benching p) :
    Move scheme key sh acc g (.bench now) (sh.putBack p true now) { acc with returned := acc.returned ++ [p.ident] }
      (if Pool.unhealthy sh.pool.config p then redraw g else { g with phase := .notifying })
  | notify (at_g : g.phase = .notifying) :
    Move scheme key sh acc g .notify { sh with pool := sh.pool.notifyWaiters } acc (redraw g)
  | check {waker : Nat} (at_g : g.phase = .checking waker) :
    Move scheme key sh acc g .check sh acc
      { g with phase := if sh.pool.exhausted then .reading waker true else .parked waker }
  | wake {waker : Nat} (at_g : g.phase = .parked waker) (rung : waker < sh.pool.epoch) :
    Move scheme key sh acc g .wake sh acc { g with phase := .enter }

/-- **What a step of `get` is.** -/
theorem step_move {scheme : Scheme} {key : ClientKey} {sh sh' : Shared} {acc acc' : Account} {g g' : State} {i : Input}
    (h : step scheme key sh acc g i = some (sh', acc', g')) : Move scheme key sh acc g i sh' acc' g' := by
  unfold step at h
  split at h
  case h_1 at_g =>
    cases h
    exact .enter at_g
  case h_2 at_g =>
    cases h
    exact .read at_g
  case h_3 at_g =>
    split at h
    · cases h
      exact .draw at_g ‹_›
    · cases h
      exact .miss at_g ‹_›
  case h_4 at_g =>
    cases h
    exact .note at_g
  case h_5 at_g =>
    cases h
    exact .probe at_g
  case h_6 at_g =>
    cases h
    exact .bench at_g
  case h_7 at_g =>
    cases h
    exact .notify at_g
  case h_8 at_g =>
    cases h
    exact .check at_g
  case h_9 at_g =>
    split at h
    · cases h
      exact .wake at_g ‹_›
    · cases h
  case h_10 => cases h

/-- The drawn proxy that is neither returned to the caller nor put back. -/
def State.held (g : State) : Option Proxy :=
  match g.phase with
  | .noting _ p | .probing p | .benching p => some p
  | .returned r => r
  | _ => none

end Lease

end ProxyBroker.Server
