import Mathlib.Data.Prod.Lex
import ProxyBroker.Server.Select

/-!
# What `best_for` selects

The candidates are the eligible entries that are ready, or all eligible ones when none is ready
(`mem_tier_iff`), in the order of the vector. `IsBest` is the choice of `Strategy::Best`: the first of the
candidates with the least key in the lexicographic order.
-/

namespace ProxyBroker.Server
open Lib

variable {pool : List Pooled} {ctx : SelectCtx} {seed : UInt64} {i j : Nat}

/-! ## Candidates -/

/-- Some eligible entry is ready. -/
def SomeReady (pool : List Pooled) (ctx : SelectCtx) : Prop :=
  ∃ e ∈ pool, e.proxy.servesScheme ctx.scheme = true ∧ e.ready ctx.now = true

theorem tierOf_true_eq_nil : tierOf pool ctx true = [] ↔ ¬ SomeReady pool ctx := by
  constructor
  · rintro none ⟨e, mem, serves, ready⟩
    obtain ⟨i, at_i⟩ := List.mem_iff_getElem?.1 mem
    have there : i ∈ tierOf pool ctx true := mem_tierOf.2 ⟨e, at_i, serves, ready⟩
    rw [none] at there
    cases there
  · intro none
    apply List.eq_nil_iff_forall_not_mem.2
    intro i mem
    obtain ⟨e, at_i, serves, ready⟩ := mem_tierOf.1 mem
    exact none ⟨e, List.mem_of_getElem? at_i, serves, ready⟩

/-- **The candidates.** -/
theorem mem_tier_iff : i ∈ tier pool ctx ↔
    ∃ e, pool[i]? = some e ∧ e.proxy.servesScheme ctx.scheme = true ∧ (SomeReady pool ctx → e.ready ctx.now = true) := by
  unfold tier
  by_cases none : tierOf pool ctx true = []
  · have unready := tierOf_true_eq_nil.1 none
    rw [if_pos none, mem_tierOf]
    constructor
    · rintro ⟨e, at_i, serves, -⟩
      exact ⟨e, at_i, serves, fun some => absurd some unready⟩
    · rintro ⟨e, at_i, serves, -⟩
      refine ⟨e, at_i, serves, Bool.eq_false_iff.2 fun ready => unready ?_⟩
      exact ⟨e, List.mem_of_getElem? at_i, serves, ready⟩
  · have some : SomeReady pool ctx := not_not.1 (mt tierOf_true_eq_nil.2 none)
    rw [if_neg none, mem_tierOf]
    constructor
    · rintro ⟨e, at_i, serves, ready⟩
      exact ⟨e, at_i, serves, fun _ => ready⟩
    · rintro ⟨e, at_i, serves, ready⟩
      exact ⟨e, at_i, serves, ready some⟩

/-- The candidates stand in the order of the vector. -/
theorem tier_sorted (pool : List Pooled) (ctx : SelectCtx) : (tier pool ctx).Pairwise (· < ·) := by
  have sorted (ready : Bool) : (tierOf pool ctx ready).Pairwise (· < ·) := by
    have indices : (pool.zipIdx.map Prod.snd).Pairwise (· < ·) := by
      rw [List.zipIdx_map_snd]
      exact List.pairwise_lt_range'
    exact indices.sublist (List.filter_sublist.map Prod.snd)
  unfold tier
  split
  · exact sorted false
  · exact sorted true

/-! ## The order of `best_by_priority` -/

/-- The priority error, the response time and the missing `CONNECT:80`, in the lexicographic order. -/
def rank (pool : List Pooled) (preferConnect : Bool) (i : Nat) : ℚ ×ₗ ℚ ×ₗ Nat :=
  toLex ((priorityKey pool preferConnect i).1, toLex (priorityKey pool preferConnect i).2)

theorem keyLt_iff_rank (pool : List Pooled) (prefer : Bool) (i j : Nat) :
    keyLt (priorityKey pool prefer i) (priorityKey pool prefer j) = true ↔ rank pool prefer i < rank pool prefer j := by
  simp only [keyLt, rank, Prod.Lex.toLex_lt_toLex, Bool.or_eq_true, Bool.and_eq_true, decide_eq_true_eq, beq_iff_eq]

/-- The choice of `Strategy::Best` among the candidates. -/
structure IsBest (pool : List Pooled) (ctx : SelectCtx) (i : Nat) : Prop where
  candidate : i ∈ tier pool ctx
  least : ∀ j ∈ tier pool ctx, rank pool ctx.preferConnect i ≤ rank pool ctx.preferConnect j
  first : ∀ j ∈ tier pool ctx, j < i → rank pool ctx.preferConnect i < rank pool ctx.preferConnect j

/-- What `best_by_priority` picks of indices in ascending order: the first of those with the least rank. -/
theorem bestByPriority_first {t : List Nat} {prefer : Bool} (sorted : t.Pairwise (· < ·)) (h : bestByPriority pool t prefer = some i) :
    (∀ j ∈ t, rank pool prefer i ≤ rank pool prefer j) ∧ ∀ j ∈ t, j < i → rank pool prefer i < rank pool prefer j := by
  obtain ⟨before, after, split, above, notBelow⟩ := minBy_spec (keyLt_iff_rank pool prefer) h
  rw [split, List.pairwise_append] at sorted
  obtain ⟨-, later, -⟩ := sorted
  constructor
  · intro j mem
    rw [split, List.mem_append, List.mem_cons] at mem
    rcases mem with mem | rfl | mem
    · exact (above j mem).le
    · exact le_rfl
    · exact notBelow j mem
  · intro j mem earlier
    rw [split, List.mem_append, List.mem_cons] at mem
    rcases mem with mem | rfl | mem
    · exact above j mem
    · exact absurd earlier (lt_irrefl j)
    · exact absurd earlier (List.rel_of_pairwise_cons later mem).le.not_gt

theorem IsBest.of_bestByPriority (h : bestByPriority pool (tier pool ctx) ctx.preferConnect = some i) :
    IsBest pool ctx i := by
  obtain ⟨least, first⟩ := bestByPriority_first (tier_sorted pool ctx) h
  exact ⟨minBy_mem h, least, first⟩

/-- The first of the least is one index. -/
theorem eq_of_first {κ : Type} [LinearOrder κ] {r : Nat → κ} {P : Nat → Prop} (at_i : P i) (at_j : P j)
    (least_i : ∀ k, P k → r i ≤ r k) (least_j : ∀ k, P k → r j ≤ r k) (first_i : ∀ k, P k → k < i → r i < r k)
    (first_j : ∀ k, P k → k < j → r j < r k) : i = j := by
  rcases lt_trichotomy i j with before | same | after
  · exact absurd (first_j i at_i before) (least_i j at_j).not_gt
  · exact same
  · exact absurd (first_i j at_j after) (least_j i at_i).not_gt

/-- The contract determines the index. -/
theorem IsBest.unique (a : IsBest pool ctx i) (b : IsBest pool ctx j) : i = j :=
  eq_of_first a.candidate b.candidate a.least b.least a.first b.first

/-! ## The other strategies -/

/-- The candidate stands at the pinned address. -/
def AtPin (pool : List Pooled) (ctx : SelectCtx) (i : Nat) : Prop :=
  ∃ e addr, pool[i]? = some e ∧ ctx.sticky = some addr ∧ e.proxy.addr = addr

theorem hasConnect_of_biased {t : List Nat} (h : i ∈ connectBiased pool t true) (mem : j ∈ t)
    (connects : hasConnect pool j = true) : hasConnect pool i = true := by
  have some : t.filter (hasConnect pool) ≠ [] := List.ne_nil_of_mem (List.mem_filter.2 ⟨mem, connects⟩)
  rw [connectBiased, if_neg (by simp), if_neg some] at h
  exact (List.mem_filter.1 h).2

/-- The pin is followed when a candidate stands at it, and the choice is that of `Best` when none does. -/
theorem bestFor_sticky (sticky : ctx.strategy = .sticky) (h : bestFor pool ctx seed = some i) :
    ((∃ j ∈ tier pool ctx, AtPin pool ctx j) → AtPin pool ctx i) ∧
    ((¬ ∃ j ∈ tier pool ctx, AtPin pool ctx j) → IsBest pool ctx i) := by
  simp only [bestFor, sticky] at h
  split at h
  · cases h
  · split at h
    · rename_i pinned
      obtain ⟨addr, pin, found⟩ := Option.bind_eq_some_iff.1 pinned
      cases h
      have here := List.find?_some found
      obtain ⟨e, at_i, same⟩ := (Option.any_eq_true _ _).1 here
      have at_pin : AtPin pool ctx i := ⟨e, addr, at_i, pin, by simpa using same⟩
      exact ⟨fun _ => at_pin, fun none => absurd ⟨i, List.mem_of_find?_eq_some found, at_pin⟩ none⟩
    · rename_i unpinned
      refine ⟨?_, fun _ => IsBest.of_bestByPriority h⟩
      rintro ⟨j, mem, e, addr, at_j, pin, same⟩
      rw [pin, Option.bind_some] at unpinned
      have other := List.find?_eq_none.1 unpinned j mem
      simp [at_j, same] at other

/-- Both rotating strategies pick among the `CONNECT:80` candidates when those are preferred and there are any. -/
theorem bestFor_connect (rotating : ctx.strategy = .roundRobin ∨ ctx.strategy = .random)
    (h : bestFor pool ctx seed = some i) (prefer : ctx.preferConnect = true) (mem : j ∈ tier pool ctx)
    (connects : hasConnect pool j = true) : hasConnect pool i = true := by
  simp only [bestFor] at h
  split at h
  · cases h
  · rw [prefer] at h
    rcases rotating with eq | eq
    · rw [eq] at h
      exact hasConnect_of_biased (List.mem_of_getElem? h) mem connects
    · rw [eq] at h
      exact hasConnect_of_biased (List.mem_of_getElem? h) mem connects

/-! ## Every index read is in range -/

/-- What `best_for` indexes, and with what: the candidates into the vector, and the two rotating picks. -/
structure InBounds (pool : List Pooled) (ctx : SelectCtx) (seed : UInt64) : Prop where
  entries : ∀ j ∈ tier pool ctx, j < pool.length
  cursor : tier pool ctx ≠ [] →
    ctx.roundRobinCursor.toNat % (connectBiased pool (tier pool ctx) ctx.preferConnect).length <
      (connectBiased pool (tier pool ctx) ctx.preferConnect).length
  random : tier pool ctx ≠ [] →
    (nextRand seed (connectBiased pool (tier pool ctx) ctx.preferConnect).length).2 <
      (connectBiased pool (tier pool ctx) ctx.preferConnect).length

theorem inBounds (pool : List Pooled) (ctx : SelectCtx) (seed : UInt64) : InBounds pool ctx seed := by
  have picks (some : tier pool ctx ≠ []) : 0 < (connectBiased pool (tier pool ctx) ctx.preferConnect).length :=
    List.length_pos_of_ne_nil (mt connectBiased_eq_nil.1 some)
  refine ⟨?_, fun some => Nat.mod_lt _ (picks some), fun some => nextRand_lt seed (picks some)⟩
  intro j mem
  obtain ⟨e, at_j, -⟩ := mem_tier mem
  exact (List.getElem?_eq_some_iff.1 at_j).1

theorem isBest_of_bestFor {pool : List Pooled} {ctx : SelectCtx} {seed : UInt64} {i : Nat} (best : ctx.strategy = .best)
    (h : bestFor pool ctx seed = some i) : IsBest pool ctx i := by
  simp only [bestFor, best] at h
  split at h
  · cases h
  · exact IsBest.of_bestByPriority h

/-- **The selection.** -/
theorem bestFor_spec (pool : List Pooled) (ctx : SelectCtx) (seed : UInt64) :
    ((bestFor pool ctx seed).isSome ↔ ∃ e ∈ pool, e.proxy.servesScheme ctx.scheme = true) ∧
    (∀ i, bestFor pool ctx seed = some i →
      (∃ e, pool[i]? = some e ∧ e.proxy.servesScheme ctx.scheme = true ∧
        (SomeReady pool ctx → e.ready ctx.now = true)) ∧
      (ctx.strategy = .best → IsBest pool ctx i) ∧
      (ctx.strategy = .roundRobin ∨ ctx.strategy = .random → ctx.preferConnect = true →
        (∃ j ∈ tier pool ctx, hasConnect pool j = true) → hasConnect pool i = true) ∧
      (ctx.strategy = .sticky →
        ((∃ j ∈ tier pool ctx, AtPin pool ctx j) → AtPin pool ctx i) ∧
        ((¬ ∃ j ∈ tier pool ctx, AtPin pool ctx j) → IsBest pool ctx i))) ∧
    InBounds pool ctx seed := by
  refine ⟨?_, ?_, inBounds pool ctx seed⟩
  · rw [Option.isSome_iff_ne_none, ne_eq, bestFor_eq_none]
    push Not
    simp only [ne_eq, Bool.not_eq_false]
  · intro i h
    refine ⟨mem_tier_iff.1 (bestFor_mem_tier h), ?_, ?_, fun sticky => bestFor_sticky sticky h⟩
    · intro best
      simp only [bestFor, best] at h
      split at h
      · cases h
      · exact IsBest.of_bestByPriority h
    · rintro rotating prefer ⟨j, mem, connects⟩
      exact bestFor_connect rotating h prefer mem connects

end ProxyBroker.Server
