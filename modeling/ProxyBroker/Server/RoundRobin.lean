import ProxyBroker.Lib.Rotation
import ProxyBroker.Server.Pool

/-!
# Round-robin leases

`Strategy::RoundRobin` picks the entry at `cursor % n` of the tier. A lease takes it out with
`swap_remove` and the return pushes it back, so a lease and its return requeue the entry
(`Lib/Rotation.lean`) and the cursor runs over a vector that each turn reorders. The documented
rotation "through the scheme-eligible proxies in pool order" therefore does not hold from two
proxies on: the lease at the last but one position moves the proxy to the end, where the next lease
finds it again.
-/

namespace ProxyBroker.Server
open Lib

/-- One sequential lease: the clock and the generator state it reads, and whether its holder records
a success before the return (`handle_client`, `connect` after a dial) or not (`connect`, when the
proxy offers no tunnel). -/
structure Turn where
  now : Instant
  seed : UInt64
  record : Bool

/-- The proxy as its holder returns it. -/
def Turn.handBack (t : Turn) (p : Proxy) : Proxy := if t.record then p.recordAttempt (some 0) none else p

/-- Lease and return with `put_ok`: the leased instance and the pool after the return. `none` when
nothing can be leased or the return evicts. -/
def turn (pool : Pool) (scheme : Scheme) (key : ClientKey) (t : Turn) : Option (Nat × Pool) :=
  match pool.trySelect scheme key t.now t.seed 0 with
  | none => none
  | some (p, leased) =>
    if Pool.unhealthy leased.config (t.handBack p) then none
    else some (p.tag, (leased.putOk (t.handBack p)).notifyWaiters)

/-- The instances leased in a sequence of turns. -/
def turns (pool : Pool) (scheme : Scheme) (key : ClientKey) : List Turn → Option (List Nat)
  | [] => some []
  | t :: ts =>
    match turn pool scheme key t with
    | none => none
    | some (tag, after) => (turns after scheme key ts).map (tag :: ·)

/-- A pool that rotates over entries that all serve `scheme`. -/
structure Rotating (pool : Pool) (scheme : Scheme) : Prop where
  strategy : pool.config.strategy = .roundRobin
  plain : pool.config.preferConnect = false
  nonempty : pool.state ≠ []
  eligible : ∀ e ∈ pool.state, e.proxy.servesScheme scheme = true

@[simp] theorem handBack_tag (t : Turn) (p : Proxy) : (t.handBack p).tag = p.tag := by
  unfold Turn.handBack; split <;> rfl

@[simp] theorem handBack_types (t : Turn) (p : Proxy) : (t.handBack p).types = p.types := by
  unfold Turn.handBack; split <;> rfl

/-- When every entry is eligible and ready, the tier is the whole vector. -/
theorem tier_all {pool : List Pooled} {ctx : SelectCtx} (eligible : ∀ e ∈ pool, e.proxy.servesScheme ctx.scheme = true)
    (ready : ∀ e ∈ pool, e.ready ctx.now = true) (nonempty : pool ≠ []) : tier pool ctx = List.range pool.length := by
  have all : tierOf pool ctx true = List.range pool.length := by
    rw [tierOf, List.filter_eq_self.2]
    · rw [List.zipIdx_map_snd, List.range_eq_range']
    · rintro ⟨e, i⟩ mem
      have inPool : e ∈ pool := List.fst_mem_of_mem_zipIdx mem
      simp [eligible e inPool, ready e inPool]
  have some : List.range pool.length ≠ [] := by simpa using nonempty
  rw [tier, all, if_neg some]

/-- The selected index is the cursor modulo the length. -/
theorem bestFor_rotating {pool : Pool} {scheme : Scheme} (rot : Rotating pool scheme) (key : ClientKey) {now : Instant}
    (ready : ∀ e ∈ pool.state, e.ready now = true) (seed : UInt64) :
    bestFor pool.state (pool.selectCtx scheme key now) seed = some (pool.roundRobin.toNat % pool.state.length) := by
  have pos : 0 < pool.state.length := List.length_pos_iff.2 rot.nonempty
  have all : tier pool.state (pool.selectCtx scheme key now) = List.range pool.state.length :=
    tier_all rot.eligible ready rot.nonempty
  have some : List.range pool.state.length ≠ [] := by simpa using rot.nonempty
  have idx : pool.roundRobin.toNat % pool.state.length < pool.state.length := Nat.mod_lt _ pos
  simp only [bestFor, all, if_neg some]
  simp only [Pool.selectCtx, rot.strategy, rot.plain, connectBiased, Bool.false_eq_true, not_false_eq_true, if_true,
    List.length_range, List.getElem?_range idx]

/-- One turn leases the instance under the cursor, requeues it and advances the cursor. -/
theorem turn_spec {pool after : Pool} {scheme : Scheme} {key : ClientKey} {t : Turn} {tag : Nat}
    (rot : Rotating pool scheme) (ready : ∀ e ∈ pool.state, e.ready t.now = true)
    (h : turn pool scheme key t = some (tag, after)) :
    pool.tags[pool.roundRobin.toNat % pool.tags.length]? = some tag ∧
      after.tags = requeue pool.tags (pool.roundRobin.toNat % pool.tags.length) ∧
      after.roundRobin = pool.roundRobin + 1 ∧ Rotating after scheme ∧
      ∀ e ∈ after.state, e ∈ pool.state ∨ e.blockedUntil = none := by
  have len : pool.tags.length = pool.state.length := List.length_map _
  have idx : pool.roundRobin.toNat % pool.state.length < pool.state.length := Nat.mod_lt _ (List.length_pos_iff.2 rot.nonempty)
  obtain ⟨e, at_i⟩ : ∃ e, pool.state[pool.roundRobin.toNat % pool.state.length]? = some e := ⟨_, List.getElem?_eq_getElem idx⟩
  simp only [turn, Pool.trySelect, Pool.takeChosen, bestFor_rotating rot key ready, at_i, Option.map_some, Pool.noteChosen,
    rot.strategy] at h
  split at h
  · cases h
  · rename_i healthy
    cases h
    simp only [Pool.putOk, Pool.putInner, healthy, Bool.false_eq_true, if_false, Pool.push, Pool.notifyWaiters]
    have inPool : e ∈ pool.state := List.mem_of_getElem? at_i
    have left : ∀ x ∈ swapRemove pool.state (pool.roundRobin.toNat % pool.state.length), x ∈ pool.state := fun x mem =>
      (swapRemove_perm at_i).subset (List.mem_cons_of_mem e mem)
    refine ⟨?_, ?_, trivial, ⟨rot.strategy, rot.plain, by simp, ?_⟩, ?_⟩
    · rw [len, Pool.tags, List.getElem?_map, at_i]; rfl
    · simp only [Pool.tags, List.map_append, List.map_cons, List.map_nil, handBack_tag, requeue, List.length_map,
        List.getElem?_map, at_i, Option.map_some, swapRemove_map]
    · intro x mem
      rcases List.mem_append.1 mem with old | new
      · exact rot.eligible x (left x old)
      · cases List.mem_singleton.1 new
        have serves := rot.eligible e inPool
        unfold Proxy.servesScheme Proxy.typeKeys Proxy.hasType at serves ⊢
        rw [handBack_types]
        exact serves
    · intro x mem
      rcases List.mem_append.1 mem with old | new
      · exact Or.inl (left x old)
      · cases List.mem_singleton.1 new; exact Or.inr rfl

/-- The leases of a run are what the cursor visits. -/
theorem turns_eq_visits {pool : Pool} {scheme : Scheme} {key : ClientKey} {ts : List Turn} {leased : List Nat}
    (rot : Rotating pool scheme) (ready : ∀ t ∈ ts, ∀ e ∈ pool.state, e.ready t.now = true)
    (unwrapped : pool.roundRobin.toNat + ts.length ≤ 2 ^ 64) (h : turns pool scheme key ts = some leased) :
    leased = visits pool.tags pool.roundRobin.toNat ts.length := by
  induction ts generalizing pool leased with
  | nil => cases h; rfl
  | cons t ts ih =>
    simp only [turns] at h
    split at h
    · cases h
    · rename_i tag after first
      obtain ⟨rest, later, rfl⟩ := Option.map_eq_some_iff.1 h
      obtain ⟨here, tags, cursor, rot', fresh⟩ := turn_spec rot (ready t List.mem_cons_self) first
      have ready' : ∀ t ∈ ts, ∀ e ∈ after.state, e.ready t.now = true := by
        intro u mem e inAfter
        rcases fresh e inAfter with old | free
        · exact ready u (List.mem_cons_of_mem t mem) e old
        · rw [Pooled.ready, free]
      rw [List.length_cons, visits, here]
      congr 1
      cases ts with
      | nil =>
        cases later
        rfl
      | cons u us =>
        -- another turn follows, so the cursor is not at its last value
        rw [List.length_cons, List.length_cons] at unwrapped
        have next : after.roundRobin.toNat = pool.roundRobin.toNat + 1 := by
          rw [cursor, UInt64.toNat_add, UInt64.toNat_one, Nat.mod_eq_of_lt (by omega)]
        rw [ih rot' ready' (by rw [next, List.length_cons]; omega) later, tags, next]

/-- **Round robin, exactly.** In a sequence of sequential leases, each returned with `put_ok` and
none evicted, every `n` consecutive leases contain each of the `n` proxies once if and only if there
is one proxy, or fewer leases than proxies, or exactly `n` leases and a cursor that starts at the
last position; as long as the 64-bit cursor does not wrap. -/
theorem round_robin_windows_iff {pool : Pool} {scheme : Scheme} {key : ClientKey} {ts : List Turn} {leased : List Nat}
    (rot : Rotating pool scheme) (distinct : pool.tags.Nodup) (ready : ∀ t ∈ ts, ∀ e ∈ pool.state, e.ready t.now = true)
    (unwrapped : pool.roundRobin.toNat + ts.length ≤ 2 ^ 64) (h : turns pool scheme key ts = some leased) :
    (∀ k, k + pool.state.length ≤ leased.length → ((leased.drop k).take pool.state.length).Perm pool.tags) ↔
      pool.state.length = 1 ∨ ts.length < pool.state.length ∨
        (ts.length = pool.state.length ∧ pool.roundRobin.toNat % pool.state.length = pool.state.length - 1) := by
  have len : pool.tags.length = pool.state.length := List.length_map _
  have nonempty : pool.tags ≠ [] := by simpa [Pool.tags] using rot.nonempty
  rw [turns_eq_visits rot ready unwrapped h, visits_length nonempty, ← len]
  exact visits_windows_iff nonempty distinct pool.roundRobin.toNat ts.length

/-- A ready HTTP proxy at `1.1.1.1:port`. -/
def httpEntry (port : UInt16) (tag : Nat) : Pooled :=
  ⟨{ httpProxy port with tag := tag }, none⟩

/-- Two ready HTTP proxies in a rotating pool. -/
def twoRotating : Pool :=
  Pool.fromProxies [(httpEntry 80 0).proxy, (httpEntry 81 1).proxy] { PoolConfig.default with strategy := .roundRobin }

/-- A client, and a lease at time 0 that is returned after a success. -/
def someClient : ClientKey := .ip (.v4 0)
def plainTurn : Turn := ⟨0, 0, true⟩

theorem twoRotating_rotating : Rotating twoRotating .http where
  strategy := rfl
  plain := rfl
  nonempty := by decide
  eligible := by decide

/-- Two proxies, two leases: the first proxy both times. -/
theorem round_robin_repeats :
    Rotating twoRotating .http ∧ twoRotating.tags.Nodup ∧ (∀ e ∈ twoRotating.state, e.ready 0 = true) ∧
      turns twoRotating .http someClient [plainTurn, plainTurn] = some [0, 0] ∧ ¬ [0, 0].Perm twoRotating.tags :=
  ⟨twoRotating_rotating, by decide, by decide, by decide, by decide⟩

/-- The exact condition at that input: two leases of two proxies from cursor 0 are no fair window. -/
theorem round_robin_windows_two :
    ¬ ∀ k, k + twoRotating.state.length ≤ [0, 0].length →
      (([0, 0].drop k).take twoRotating.state.length).Perm twoRotating.tags := by
  have leased : turns twoRotating .http someClient [plainTurn, plainTurn] = some [0, 0] := by decide
  rw [round_robin_windows_iff twoRotating_rotating (by decide) (by decide) (by decide) leased]
  decide

end ProxyBroker.Server
