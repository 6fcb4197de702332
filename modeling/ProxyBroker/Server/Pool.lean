import ProxyBroker.Server.Select

/-!
# The pool (`server.rs:Pool`)

The operations that take a lock or touch an atomic once are functions on `Pool`. `try_select` takes
two locks and an atomic one after another, so it is cut at those points: `selectCtx` reads the pin,
the cursor and the clock, `takeChosen` is the critical section over the vector, `noteChosen` writes
the cursor or the session map. Other tasks may run between the parts (`Server/Lease.lean`);
`trySelect` is the three in a row.

`put_inner` and the importer push under the lock and call `notify_waiters` after it, so the push and
`notifyWaiters` are separate here; `add` notifies inside the lock. `epoch` counts the
`notify_waiters` calls: a `Notified` made at epoch `e` has fired once the epoch is above `e`.
-/

namespace ProxyBroker.Server
open Lib

/-- `server.rs:PoolConfig`. Durations are in the unit of `Instant`. With the countries comes `str::to_uppercase`, which
is applied to the code that is looked up in them. -/
structure PoolConfig where
  maxTries : Nat
  maxErrorRate : ℚ
  maxRespTime : ℚ
  minReq : UInt32
  countries : Option (List Text)
  toUppercase : Text → Text
  strategy : Strategy
  stickyHeader : Option Text
  maxSessions : Nat
  failTimeout : Nat
  preferConnect : Bool
  httpAllowedCodes : Option (List UInt16)
  verifyOnLease : Option Nat
  verifyTarget : Text × UInt16

/-- What `str::to_uppercase` does to a character of an ISO country code, which is ASCII. -/
def upperChar (c : Char) : Char := if 97 ≤ c.toNat ∧ c.toNat ≤ 122 then Char.ofNat (c.toNat - 32) else c

/-- `PoolConfig::default`, in milliseconds. -/
def PoolConfig.default : PoolConfig where
  maxTries := 3
  maxErrorRate := 1 / 2
  maxRespTime := 8
  minReq := 5
  countries := none
  toUppercase := List.map upperChar
  strategy := .best
  stickyHeader := none
  maxSessions := 10000
  failTimeout := 30000
  preferConnect := false
  httpAllowedCodes := none
  verifyOnLease := none
  verifyTarget := ("1.1.1.1".toList, 443)

/-- `server.rs:Pool`. -/
structure Pool where
  state : List Pooled
  sessions : List (ClientKey × Addr)
  roundRobin : UInt64
  epoch : Nat
  config : PoolConfig
  exhausted : Bool
  evictions : UInt64
  rotations : UInt64

namespace Pool

/-- `Pool::from_proxies`. -/
def fromProxies (proxies : List Proxy) (config : PoolConfig) : Pool where
  state := (proxies.filter fun p => countryOk config.toUppercase p config.countries).map fun p => ⟨p, none⟩
  sessions := []
  roundRobin := 0
  epoch := 0
  config := config
  exhausted := true
  evictions := 0
  rotations := 0

/-- `Pool::spawn`, before the importer runs. -/
def spawn (config : PoolConfig) : Pool := { fromProxies [] config with exhausted := false }

/-- `state.lock().push(..)`. -/
def push (pool : Pool) (e : Pooled) : Pool := { pool with state := pool.state ++ [e] }

/-- `notify.notify_waiters()`. -/
def notifyWaiters (pool : Pool) : Pool := { pool with epoch := pool.epoch + 1 }

/-- The importer's step for one proxy of the source, up to the notify. -/
def importProxy (pool : Pool) (proxy : Proxy) : Pool :=
  if countryOk pool.config.toUppercase proxy pool.config.countries then pool.push ⟨proxy, none⟩ else pool

/-! ## Selection -/

/-- The reads `try_select` makes before it locks the vector. -/
def selectCtx (pool : Pool) (scheme : Scheme) (key : ClientKey) (now : Instant) : SelectCtx where
  scheme := scheme
  strategy := pool.config.strategy
  sticky := if pool.config.strategy = .sticky then pool.sessions.lookup key else none
  roundRobinCursor := pool.roundRobin
  now := now
  preferConnect := pool.config.preferConnect

/-- The critical section of `try_select`: choose and `swap_remove`. -/
def takeChosen (pool : Pool) (ctx : SelectCtx) (seed : UInt64) : Option (Proxy × Pool) :=
  match bestFor pool.state ctx seed with
  | none => none
  | some i =>
    match pool.state[i]? with
    | none => none
    | some e => some (e.proxy, { pool with state := swapRemove pool.state i })

/-- `record_session`. The map's iteration order is arbitrary: `victim` says which key is its first. -/
def recordSession (pool : Pool) (key : ClientKey) (addr : Addr) (victim : Nat) : Pool :=
  let full := pool.config.maxSessions ≤ pool.sessions.length ∧ (pool.sessions.lookup key).isNone
  let kept := if full then pool.sessions.eraseIdx (victim % pool.sessions.length) else pool.sessions
  { pool with sessions := assocInsert key addr kept }

/-- What `try_select` writes after the vector is unlocked. -/
def noteChosen (pool : Pool) (key : ClientKey) (chosen : Proxy) (victim : Nat) : Pool :=
  match pool.config.strategy with
  | .roundRobin => { pool with roundRobin := pool.roundRobin + 1 }
  | .sticky => pool.recordSession key chosen.addr victim
  | _ => pool

/-- `try_select` with nothing in between its parts. -/
def trySelect (pool : Pool) (scheme : Scheme) (key : ClientKey) (now : Instant) (seed : UInt64) (victim : Nat) :
    Option (Proxy × Pool) :=
  (pool.takeChosen (pool.selectCtx scheme key now) seed).map fun r => (r.1, r.2.noteChosen key r.1 victim)

/-! ## Return, removal, addition -/

/-- The eviction test of `put_inner`. -/
def unhealthy (config : PoolConfig) (p : Proxy) : Bool :=
  config.minReq ≤ p.requests && (config.maxErrorRate < p.errorRate || config.maxRespTime < p.avgRespTime)

/-- `put_inner`, up to the notify. -/
def putInner (pool : Pool) (proxy : Proxy) (blockedUntil : Option Instant) : Pool :=
  if unhealthy pool.config proxy then { pool with evictions := pool.evictions + 1 }
  else pool.push ⟨proxy, blockedUntil⟩

/-- `put_ok`, up to the notify. -/
def putOk (pool : Pool) (proxy : Proxy) : Pool := pool.putInner proxy none

/-- `put_failed`, up to the notify. -/
def putFailed (pool : Pool) (proxy : Proxy) (now : Instant) : Pool :=
  pool.putInner proxy (some (now + pool.config.failTimeout))

/-- `Pool::remove`. -/
def remove (pool : Pool) (addr : Addr) : Pool :=
  { pool with state := pool.state.filter fun e => e.proxy.addr ≠ addr }

/-- The address is in the vector. -/
def holds (pool : Pool) (addr : Addr) : Bool := pool.state.any fun e => e.proxy.addr = addr

/-- `Pool::add`. -/
def add (pool : Pool) (proxy : Proxy) : Pool :=
  if pool.holds proxy.addr then pool else (pool.push ⟨proxy, none⟩).notifyWaiters

/-- `Pool::addrs`, as the addresses in vector order. -/
def addrs (pool : Pool) : List Addr := pool.state.map fun e => e.proxy.addr

/-- The instances in the vector, in order. -/
def tags (pool : Pool) : List Nat := pool.state.map fun e => e.proxy.tag

/-- The country test of `try_get`. -/
def inCountry (country : Option Text) (p : Proxy) : Bool :=
  match country with
  | none => true
  | some cc => p.geo.any fun g => eqIgnoreAsciiCase g.code cc

/-- `Pool::try_get`. -/
def tryGet (pool : Pool) (scheme : Scheme) (country : Option Text) : Option (Proxy × Pool) :=
  let eligible := (pool.state.zipIdx.filter fun e =>
    e.1.proxy.servesScheme scheme && inCountry country e.1.proxy).map Prod.snd
  match bestByPriority pool.state eligible pool.config.preferConnect with
  | none => none
  | some i =>
    match pool.state[i]? with
    | none => none
    | some e => some (e.proxy, { pool with state := pool.state.eraseIdx i })

/-! ## One lemma per operation -/

/-- What the critical section takes is an entry of the vector; the rest stays, in some order. -/
theorem takeChosen_spec {pool after : Pool} {ctx : SelectCtx} {seed : UInt64} {p : Proxy}
    (h : pool.takeChosen ctx seed = some (p, after)) :
    ∃ e, e.proxy = p ∧ (e :: after.state).Perm pool.state ∧ after = { pool with state := after.state } := by
  unfold takeChosen at h
  split at h
  · cases h
  · split at h
    · cases h
    · rename_i i _ e at_i
      cases h
      exact ⟨e, rfl, swapRemove_perm at_i, rfl⟩

/-- What is taken serves the scheme. -/
theorem takeChosen_serves {pool after : Pool} {ctx : SelectCtx} {seed : UInt64} {p : Proxy}
    (h : pool.takeChosen ctx seed = some (p, after)) : p.servesScheme ctx.scheme = true := by
  unfold takeChosen at h
  split at h
  · cases h
  · rename_i i chosen
    obtain ⟨e, at_i, serves⟩ := bestFor_entry chosen
    rw [at_i] at h
    cases h
    exact serves

/-- The critical section takes a ready entry when there is an eligible one. -/
theorem takeChosen_ready {pool after : Pool} {ctx : SelectCtx} {seed : UInt64} {p : Proxy}
    (h : pool.takeChosen ctx seed = some (p, after)) {e : Pooled} (mem : e ∈ pool.state)
    (serves : e.proxy.servesScheme ctx.scheme = true) (ready : e.ready ctx.now = true) :
    ∃ f, f.proxy = p ∧ f.ready ctx.now = true ∧ (f :: after.state).Perm pool.state ∧
      after = { pool with state := after.state } := by
  unfold takeChosen at h
  split at h
  · cases h
  · rename_i i chosen
    obtain ⟨f, at_i, isReady⟩ := bestFor_ready chosen mem serves ready
    rw [at_i] at h
    cases h
    exact ⟨f, rfl, isReady, swapRemove_perm at_i, rfl⟩

/-- The index is in range, so `swap_remove` does not panic: without a proxy to take there was none to
select. -/
theorem takeChosen_none {pool : Pool} {ctx : SelectCtx} {seed : UInt64} :
    pool.takeChosen ctx seed = none ↔ bestFor pool.state ctx seed = none := by
  unfold takeChosen
  cases chosen : bestFor pool.state ctx seed with
  | none => simp
  | some i =>
    obtain ⟨e, at_i, -⟩ := bestFor_entry chosen
    simp [at_i]

/-- Nothing is taken exactly when no entry, ready or benched, serves the scheme. -/
theorem takeChosen_eq_none {pool : Pool} {ctx : SelectCtx} {seed : UInt64} :
    pool.takeChosen ctx seed = none ↔ ∀ e ∈ pool.state, e.proxy.servesScheme ctx.scheme = false :=
  takeChosen_none.trans bestFor_eq_none

/-- What `try_get` takes is an entry of the vector; the rest stays. -/
theorem tryGet_spec {pool after : Pool} {scheme : Scheme} {country : Option Text} {p : Proxy}
    (h : pool.tryGet scheme country = some (p, after)) :
    ∃ e, e.proxy = p ∧ (e :: after.state).Perm pool.state ∧ after = { pool with state := after.state } := by
  simp only [tryGet] at h
  split at h
  · cases h
  · split at h
    · cases h
    · rename_i i _ e at_i
      cases h
      obtain ⟨hi, rfl⟩ := List.getElem?_eq_some_iff.1 at_i
      exact ⟨_, rfl, List.getElem_cons_eraseIdx_perm hi, rfl⟩

/-- A put evicts, or pushes the proxy with its bench stamp. -/
theorem putInner_cases (pool : Pool) (p : Proxy) (b : Option Instant) :
    (unhealthy pool.config p = true ∧ pool.putInner p b = { pool with evictions := pool.evictions + 1 }) ∨
    (unhealthy pool.config p = false ∧ pool.putInner p b = pool.push ⟨p, b⟩) := by
  unfold putInner
  cases h : unhealthy pool.config p with
  | true => exact Or.inl ⟨rfl, rfl⟩
  | false => exact Or.inr ⟨rfl, rfl⟩

/-- The cursor and the session map are all that `noteChosen` writes. -/
theorem noteChosen_eq (pool : Pool) (key : ClientKey) (p : Proxy) (victim : Nat) :
    ∃ s r, pool.noteChosen key p victim = { pool with sessions := s, roundRobin := r } := by
  unfold noteChosen
  split
  · exact ⟨_, _, rfl⟩
  · exact ⟨_, _, rfl⟩
  · exact ⟨_, _, rfl⟩

@[simp] theorem noteChosen_state (pool : Pool) (key : ClientKey) (p : Proxy) (victim : Nat) :
    (pool.noteChosen key p victim).state = pool.state := by
  obtain ⟨s, r, eq⟩ := noteChosen_eq pool key p victim
  rw [eq]

@[simp] theorem noteChosen_config (pool : Pool) (key : ClientKey) (p : Proxy) (victim : Nat) :
    (pool.noteChosen key p victim).config = pool.config := by
  obtain ⟨s, r, eq⟩ := noteChosen_eq pool key p victim
  rw [eq]

@[simp] theorem noteChosen_evictions (pool : Pool) (key : ClientKey) (p : Proxy) (victim : Nat) :
    (pool.noteChosen key p victim).evictions = pool.evictions := by
  obtain ⟨s, r, eq⟩ := noteChosen_eq pool key p victim
  rw [eq]

/-- An address that is pooled is not pooled again. -/
theorem add_state (pool : Pool) (p : Proxy) :
    (pool.add p).state = if pool.holds p.addr then pool.state else pool.state ++ [⟨p, none⟩] := by
  unfold add
  split <;> rfl

theorem holds_iff {pool : Pool} {addr : Addr} : pool.holds addr = true ↔ addr ∈ pool.addrs := by
  simp [holds, addrs]

end Pool

end ProxyBroker.Server
