import ProxyBroker.Lib.Vec
import ProxyBroker.Proxy

/-!
# Selecting a pooled proxy (`server.rs`: `best_for` and what it calls)

`bestFor` returns the index of the entry to lease. Two tiers: the ready entries, or the benched ones
when no eligible entry is ready. The strategy then picks inside the tier.
-/

namespace ProxyBroker.Server
open Lib

/-- A `tokio::time::Instant`. -/
abbrev Instant := Nat

/-- `server.rs:Strategy`. -/
inductive Strategy where
  | best | roundRobin | random | sticky
deriving DecidableEq, Repr

/-- `server.rs:ClientKey`. -/
inductive ClientKey where
  | ip (a : IpAddr)
  | header (v : Text)
deriving DecidableEq, Repr

/-- `server.rs:Pooled`: a proxy and until when it is benched. -/
structure Pooled where
  proxy : Proxy
  blockedUntil : Option Instant

/-- `server.rs:SelectCtx`. -/
structure SelectCtx where
  scheme : Scheme
  strategy : Strategy
  sticky : Option Addr
  roundRobinCursor : UInt64
  now : Instant
  preferConnect : Bool
deriving DecidableEq, Repr

/-- `blocked_until.is_none_or(|t| t <= now)`. -/
def Pooled.ready (e : Pooled) (now : Instant) : Bool :=
  match e.blockedUntil with
  | none => true
  | some t => t ≤ now

/-- `tier_of`: the indices of the eligible entries that are, or are not, ready. -/
def tierOf (pool : List Pooled) (ctx : SelectCtx) (ready : Bool) : List Nat :=
  (pool.zipIdx.filter fun e => e.1.proxy.servesScheme ctx.scheme && e.1.ready ctx.now == ready).map Prod.snd

/-- The ready tier, or the benched one when it is empty. -/
def tier (pool : List Pooled) (ctx : SelectCtx) : List Nat :=
  if tierOf pool ctx true = [] then tierOf pool ctx false else tierOf pool ctx true

/-- `has_connect`. -/
def hasConnect (pool : List Pooled) (i : Nat) : Bool := pool[i]?.any fun e => e.proxy.hasType .connect80

/-- `connect_biased`. -/
def connectBiased (pool : List Pooled) (tier : List Nat) (prefer : Bool) : List Nat :=
  if ¬ prefer then tier
  else if tier.filter (hasConnect pool) = [] then tier else tier.filter (hasConnect pool)

/-- The key `best_by_priority` compares entries by, lexicographically. -/
def priorityKey (pool : List Pooled) (preferConnect : Bool) (i : Nat) : ℚ × ℚ × Nat :=
  let (e, t) := (pool[i]?.map fun p => p.proxy.priority).getD (0, 0)
  (e, t, if preferConnect && !hasConnect pool i then 1 else 0)

/-- `ae.total_cmp(&be).then(at.total_cmp(&bt)).then(ac.cmp(&bc))` is `Less`. -/
def keyLt (a b : ℚ × ℚ × Nat) : Bool :=
  a.1 < b.1 || (a.1 == b.1 && (a.2.1 < b.2.1 || (a.2.1 == b.2.1 && a.2.2 < b.2.2)))

/-- `best_by_priority`. -/
def bestByPriority (pool : List Pooled) (eligible : List Nat) (preferConnect : Bool) : Option Nat :=
  minBy (fun a b => keyLt (priorityKey pool preferConnect a) (priorityKey pool preferConnect b)) eligible

/-- The xorshift step of `next_rand`. -/
def xorshift (x : UInt64) : UInt64 :=
  let x := x ^^^ (x <<< 13)
  let x := x ^^^ (x >>> 7)
  x ^^^ (x <<< 17)

/-- `next_rand(n)`, for the state `x` it loads: the state it stores and the index it returns. -/
def nextRand (x : UInt64) (n : Nat) : UInt64 × Nat :=
  (xorshift x, (xorshift x).toNat % max n 1)

theorem nextRand_lt (x : UInt64) {n : Nat} (pos : 0 < n) : (nextRand x n).2 < n := by
  rw [nextRand, Nat.max_eq_left pos]
  exact Nat.mod_lt _ pos

/-- `best_for`. `seed` is the generator state that a `Random` selection loads. -/
def bestFor (pool : List Pooled) (ctx : SelectCtx) (seed : UInt64) : Option Nat :=
  let tier := tier pool ctx
  if tier = [] then none
  else
    match ctx.strategy with
    | .best => bestByPriority pool tier ctx.preferConnect
    | .roundRobin =>
      let pick := connectBiased pool tier ctx.preferConnect
      pick[ctx.roundRobinCursor.toNat % pick.length]?
    | .random =>
      let pick := connectBiased pool tier ctx.preferConnect
      pick[(nextRand seed pick.length).2]?
    | .sticky =>
      match ctx.sticky.bind fun addr => tier.find? fun i => pool[i]?.any fun e => e.proxy.addr == addr with
      | some i => some i
      | none => bestByPriority pool tier ctx.preferConnect

/-! ## What is selected is in the pool -/

theorem mem_tierOf {pool : List Pooled} {ctx : SelectCtx} {ready : Bool} {i : Nat} :
    i ∈ tierOf pool ctx ready ↔
      ∃ e, pool[i]? = some e ∧ e.proxy.servesScheme ctx.scheme = true ∧ e.ready ctx.now = ready := by
  simp only [tierOf, List.mem_map, List.mem_filter, Bool.and_eq_true, beq_iff_eq, Prod.exists,
    List.mem_zipIdx_iff_getElem?]
  constructor
  · rintro ⟨e, k, ⟨at_k, serves, isReady⟩, rfl⟩
    exact ⟨e, at_k, serves, isReady⟩
  · rintro ⟨e, at_i, serves, isReady⟩
    exact ⟨e, i, ⟨at_i, serves, isReady⟩, rfl⟩

theorem mem_tier {pool : List Pooled} {ctx : SelectCtx} {i : Nat} (h : i ∈ tier pool ctx) :
    ∃ e, pool[i]? = some e ∧ e.proxy.servesScheme ctx.scheme = true := by
  unfold tier at h
  split at h
  · obtain ⟨e, at_i, serves, -⟩ := mem_tierOf.1 h; exact ⟨e, at_i, serves⟩
  · obtain ⟨e, at_i, serves, -⟩ := mem_tierOf.1 h; exact ⟨e, at_i, serves⟩

theorem mem_connectBiased {pool : List Pooled} {t : List Nat} {prefer : Bool} {i : Nat}
    (h : i ∈ connectBiased pool t prefer) : i ∈ t := by
  unfold connectBiased at h
  split at h
  · exact h
  · split at h
    · exact h
    · exact List.mem_of_mem_filter h

/-- Every strategy picks inside the tier. -/
theorem bestFor_mem_tier {pool : List Pooled} {ctx : SelectCtx} {seed : UInt64} {i : Nat}
    (h : bestFor pool ctx seed = some i) : i ∈ tier pool ctx := by
  simp only [bestFor] at h
  split at h
  · cases h
  · split at h
    · exact minBy_mem h
    · exact mem_connectBiased (List.mem_of_getElem? h)
    · exact mem_connectBiased (List.mem_of_getElem? h)
    · split at h
      · rename_i pinned
        obtain ⟨addr, -, found⟩ := Option.bind_eq_some_iff.1 pinned
        cases h
        exact List.mem_of_find?_eq_some found
      · exact minBy_mem h

/-- The selected index is an entry of the pool, and it serves the scheme. -/
theorem bestFor_entry {pool : List Pooled} {ctx : SelectCtx} {seed : UInt64} {i : Nat}
    (h : bestFor pool ctx seed = some i) : ∃ e, pool[i]? = some e ∧ e.proxy.servesScheme ctx.scheme = true :=
  mem_tier (bestFor_mem_tier h)

/-- A ready entry is selected when an eligible one is there. -/
theorem bestFor_ready {pool : List Pooled} {ctx : SelectCtx} {seed : UInt64} {i : Nat}
    (h : bestFor pool ctx seed = some i) {e : Pooled} (mem : e ∈ pool) (serves : e.proxy.servesScheme ctx.scheme = true)
    (ready : e.ready ctx.now = true) : ∃ f, pool[i]? = some f ∧ f.ready ctx.now = true := by
  obtain ⟨k, at_k⟩ := List.mem_iff_getElem?.1 mem
  have some : tierOf pool ctx true ≠ [] := List.ne_nil_of_mem (mem_tierOf.2 ⟨e, at_k, serves, ready⟩)
  have inside := bestFor_mem_tier h
  rw [tier, if_neg some] at inside
  obtain ⟨f, at_i, -, isReady⟩ := mem_tierOf.1 inside
  exact ⟨f, at_i, isReady⟩

/-! ## When something is selected -/

theorem tier_eq_nil {pool : List Pooled} {ctx : SelectCtx} :
    tier pool ctx = [] ↔ ∀ e ∈ pool, e.proxy.servesScheme ctx.scheme = false := by
  constructor
  · intro empty e mem
    obtain ⟨i, at_i⟩ := List.mem_iff_getElem?.1 mem
    apply eq_false_of_ne_true
    intro serves
    have there : i ∈ tierOf pool ctx (e.ready ctx.now) := mem_tierOf.2 ⟨e, at_i, serves, rfl⟩
    unfold tier at empty
    by_cases none : tierOf pool ctx true = []
    · rw [if_pos none] at empty
      cases ready : e.ready ctx.now with
      | true => rw [ready, none] at there; cases there
      | false => rw [ready, empty] at there; cases there
    · rw [if_neg none] at empty
      exact none empty
  · intro refuse
    apply List.eq_nil_iff_forall_not_mem.2
    intro i mem
    obtain ⟨e, at_i, serves⟩ := mem_tier mem
    rw [refuse e (List.mem_of_getElem? at_i)] at serves
    cases serves

theorem connectBiased_eq_nil {pool : List Pooled} {t : List Nat} {prefer : Bool} :
    connectBiased pool t prefer = [] ↔ t = [] := by
  unfold connectBiased
  split
  · exact Iff.rfl
  · split
    · exact Iff.rfl
    · rename_i some
      constructor
      · intro none
        exact absurd none some
      · rintro rfl
        exact List.filter_nil

/-- A selection fails exactly when no entry, ready or benched, serves the scheme. -/
theorem bestFor_eq_none {pool : List Pooled} {ctx : SelectCtx} {seed : UInt64} :
    bestFor pool ctx seed = none ↔ ∀ e ∈ pool, e.proxy.servesScheme ctx.scheme = false := by
  rw [← tier_eq_nil]
  simp only [bestFor]
  by_cases empty : tier pool ctx = []
  · simp [empty]
  · have picks : 0 < (connectBiased pool (tier pool ctx) ctx.preferConnect).length :=
      List.length_pos_of_ne_nil (mt connectBiased_eq_nil.1 empty)
    have best : bestByPriority pool (tier pool ctx) ctx.preferConnect ≠ none := mt minBy_eq_none.1 empty
    rw [if_neg empty]
    refine iff_of_false ?_ empty
    cases ctx.strategy with
    | best => exact best
    | roundRobin => simpa using Nat.mod_lt _ picks
    | random => simpa using nextRand_lt seed picks
    | sticky =>
      dsimp only
      split
      · simp
      · exact best

end ProxyBroker.Server
