import Mathlib.Data.Multiset.AddSub
import ProxyBroker.Server.Pool
import ProxyBroker.Server.Selection

/-!
# `try_get` beside `try_select`

`try_get` ranks all the eligible entries as `Strategy::Best` ranks its candidates, but it never asks whether an entry
is ready. So it differs from `try_select` when the entry that ranks first is benched and another one is ready.

The returned proxy is that of the entry that leaves the vector. `Leases` says which entry leaves: two entries can
hold equal proxies and differ in their bench stamps.
-/

namespace ProxyBroker.Server
open Lib

namespace Pool

variable {pool after : Pool} {scheme : Scheme} {country : Option Text} {key : ClientKey} {now : Instant} {seed : UInt64}
  {victim i j : Nat} {p : Proxy} {e f : Pooled}

/-! ## The entry that `try_get` takes -/

/-- Entry `i` passes the filters of `try_get`. -/
def Eligible (pool : Pool) (scheme : Scheme) (country : Option Text) (i : Nat) : Prop :=
  ∃ e, pool.state[i]? = some e ∧ e.proxy.servesScheme scheme = true ∧ inCountry country e.proxy = true

/-- The first of the eligible entries with the least rank, benched or not. -/
structure IsFirst (pool : Pool) (scheme : Scheme) (country : Option Text) (i : Nat) : Prop where
  eligible : pool.Eligible scheme country i
  least : ∀ j, pool.Eligible scheme country j → rank pool.state pool.config.preferConnect i ≤ rank pool.state pool.config.preferConnect j
  first : ∀ j, pool.Eligible scheme country j → j < i → rank pool.state pool.config.preferConnect i < rank pool.state pool.config.preferConnect j

/-- The indices that `try_get` ranks. -/
def eligibles (pool : Pool) (scheme : Scheme) (country : Option Text) : List Nat :=
  (pool.state.zipIdx.filter fun e => e.1.proxy.servesScheme scheme && inCountry country e.1.proxy).map Prod.snd

theorem mem_eligibles : i ∈ pool.eligibles scheme country ↔ pool.Eligible scheme country i := by
  simp only [eligibles, Eligible, List.mem_map, List.mem_filter, Bool.and_eq_true, Prod.exists, List.mem_zipIdx_iff_getElem?]
  constructor
  · rintro ⟨e, k, ⟨at_k, serves, there⟩, rfl⟩
    exact ⟨e, at_k, serves, there⟩
  · rintro ⟨e, at_i, serves, there⟩
    exact ⟨e, i, ⟨at_i, serves, there⟩, rfl⟩

theorem eligibles_sorted : (pool.eligibles scheme country).Pairwise (· < ·) := by
  have indices : (pool.state.zipIdx.map Prod.snd).Pairwise (· < ·) := by
    rw [List.zipIdx_map_snd]
    exact List.pairwise_lt_range'
  exact indices.sublist (List.filter_sublist.map Prod.snd)

theorem IsFirst.of_best (h : bestByPriority pool.state (pool.eligibles scheme country) pool.config.preferConnect = some i) :
    pool.IsFirst scheme country i := by
  obtain ⟨least, first⟩ := bestByPriority_first eligibles_sorted h
  exact ⟨mem_eligibles.1 (minBy_mem h), fun j eligible => least j (mem_eligibles.2 eligible),
    fun j eligible => first j (mem_eligibles.2 eligible)⟩

theorem IsFirst.unique (a : pool.IsFirst scheme country i) (b : pool.IsFirst scheme country j) : i = j :=
  eq_of_first a.eligible b.eligible a.least b.least a.first b.first

/-- **What `try_get` does.** It takes the entry that ranks first, or finds none. -/
theorem tryGet_cases (pool : Pool) (scheme : Scheme) (country : Option Text) :
    ((∀ i, ¬ pool.Eligible scheme country i) ∧ pool.tryGet scheme country = none) ∨
    ∃ i e, pool.IsFirst scheme country i ∧ pool.state[i]? = some e ∧
      pool.tryGet scheme country = some (e.proxy, { pool with state := pool.state.eraseIdx i }) := by
  have unfolded : pool.tryGet scheme country =
      (bestByPriority pool.state (pool.eligibles scheme country) pool.config.preferConnect).bind fun i =>
        pool.state[i]?.map fun e => (e.proxy, { pool with state := pool.state.eraseIdx i }) := by
    unfold tryGet eligibles
    dsimp only
    split
    · rename_i nothing
      rw [nothing]
      rfl
    · rename_i i here
      rw [here, Option.bind_some]
      cases pool.state[i]? <;> rfl
  rw [unfolded]
  cases best : bestByPriority pool.state (pool.eligibles scheme country) pool.config.preferConnect with
  | none =>
    refine Or.inl ⟨?_, rfl⟩
    intro i eligible
    have mem := mem_eligibles.2 eligible
    rw [minBy_eq_none.1 best] at mem
    cases mem
  | some i =>
    have first := IsFirst.of_best best
    obtain ⟨e, at_i, -, -⟩ := first.eligible
    exact Or.inr ⟨i, e, first, at_i, by simp only [Option.bind_some, at_i, Option.map_some]⟩

/-! ## The entry that `try_select` takes -/

/-- What `try_select` does under `Strategy::Best`. -/
theorem trySelect_cases (best : pool.config.strategy = .best) (scheme : Scheme) (key : ClientKey) (now : Instant) (seed : UInt64)
    (victim : Nat) :
    ((∀ i, ¬ pool.Eligible scheme none i) ∧ pool.trySelect scheme key now seed victim = none) ∨
    ∃ i e, IsBest pool.state (pool.selectCtx scheme key now) i ∧ pool.state[i]? = some e ∧
      pool.trySelect scheme key now seed victim = some (e.proxy, { pool with state := swapRemove pool.state i }) := by
  simp only [trySelect, takeChosen]
  cases chosen : bestFor pool.state (pool.selectCtx scheme key now) seed with
  | none =>
    refine Or.inl ⟨?_, rfl⟩
    rintro i ⟨e, at_i, serves, -⟩
    have refused := bestFor_eq_none.1 chosen e (List.mem_of_getElem? at_i)
    exact absurd (serves.symm.trans refused) (by decide)
  | some i =>
    have isBest := isBest_of_bestFor best chosen
    obtain ⟨e, at_i, -⟩ := bestFor_entry chosen
    refine Or.inr ⟨i, e, isBest, at_i, ?_⟩
    simp only [at_i, Option.map_some, noteChosen, best]

/-! ## Agreement -/

theorem eq_of_cons_perm {rest : List Pooled} (h : (e :: rest).Perm (f :: rest)) : e = f :=
  (Multiset.cons_inj_left (rest : Multiset Pooled)).1 (Multiset.coe_eq_coe.2 h)

/-- The result is the proxy of the entry `e`, which left the vector. -/
def Leases (pool : Pool) (r : Option (Proxy × Pool)) (e : Pooled) : Prop :=
  ∃ after, r = some (e.proxy, after) ∧ (e :: after.state).Perm pool.state

theorem leases_iff {rest : List Pooled} (perm : (e :: rest).Perm pool.state) :
    pool.Leases (some (e.proxy, { pool with state := rest })) f ↔ f = e := by
  constructor
  · rintro ⟨after, eq, leaves⟩
    obtain ⟨-, rfl⟩ := Prod.mk.inj (Option.some.inj eq)
    exact eq_of_cons_perm (leaves.trans perm.symm)
  · rintro rfl
    exact ⟨_, rfl, perm⟩

/-- A candidate of `try_select` is eligible. -/
theorem eligible_of_tier (h : i ∈ tier pool.state (pool.selectCtx scheme key now)) : pool.Eligible scheme none i := by
  obtain ⟨e, at_i, serves⟩ := mem_tier h
  exact ⟨e, at_i, serves, rfl⟩

/-- The entry that ranks first ranks first among the candidates if it is one. -/
theorem IsFirst.isBest (first : pool.IsFirst scheme none i) (candidate : i ∈ tier pool.state (pool.selectCtx scheme key now)) :
    IsBest pool.state (pool.selectCtx scheme key now) i :=
  ⟨candidate, fun j mem => first.least j (eligible_of_tier mem), fun j mem => first.first j (eligible_of_tier mem)⟩

/-- No eligible entry is ready, or the one that ranks first is. -/
def FirstReady (pool : Pool) (scheme : Scheme) (now : Instant) : Prop :=
  (∀ i e, pool.Eligible scheme none i → pool.state[i]? = some e → e.ready now = false) ∨
    ∃ i e, pool.IsFirst scheme none i ∧ pool.state[i]? = some e ∧ e.ready now = true

/-- The two entries are the same one exactly when the condition holds. -/
theorem firstReady_iff (first : pool.IsFirst scheme none i) (at_i : pool.state[i]? = some e)
    (best : IsBest pool.state (pool.selectCtx scheme key now) j) (at_j : pool.state[j]? = some f) :
    pool.FirstReady scheme now ↔ e = f := by
  obtain ⟨g, at_j', serves, ready⟩ := mem_tier_iff.1 best.candidate
  obtain rfl : f = g := Option.some.inj (at_j.symm.trans at_j')
  have same (candidate : i ∈ tier pool.state (pool.selectCtx scheme key now)) : e = f := by
    obtain rfl := (first.isBest candidate).unique best
    exact Option.some.inj (at_i.symm.trans at_j)
  obtain ⟨e', at_i', serves', -⟩ := first.eligible
  obtain rfl : e = e' := Option.some.inj (at_i.symm.trans at_i')
  constructor
  · rintro (none | ⟨k, g, first', at_k, isReady⟩)
    · refine same (mem_tier_iff.2 ⟨e, at_i, serves', ?_⟩)
      rintro ⟨g, mem, serves, isReady⟩
      obtain ⟨k, at_k⟩ := List.mem_iff_getElem?.1 mem
      exact absurd (isReady.symm.trans (none k g ⟨g, at_k, serves, rfl⟩ at_k)) (by decide)
    · obtain rfl := first.unique first'
      obtain rfl := Option.some.inj (at_i.symm.trans at_k)
      exact same (mem_tier_iff.2 ⟨e, at_i, serves', fun _ => isReady⟩)
  · rintro rfl
    by_cases some : SomeReady pool.state (pool.selectCtx scheme key now)
    · exact Or.inr ⟨i, e, first, at_i, ready some⟩
    · refine Or.inl fun k g eligible at_k => Bool.eq_false_iff.2 fun isReady => some ?_
      obtain ⟨g', at_k', serves'', -⟩ := eligible
      obtain rfl := Option.some.inj (at_k.symm.trans at_k')
      exact ⟨g, List.mem_of_getElem? at_k, serves'', isReady⟩

/-- With one entry for each instance, an entry is determined by its proxy. -/
theorem eq_of_proxy (nodup : pool.tags.Nodup) (at_i : pool.state[i]? = some e) (at_j : pool.state[j]? = some f)
    (same : e.proxy = f.proxy) : e = f := by
  have tag_i : pool.tags[i]? = some e.proxy.tag := by rw [tags, List.getElem?_map, at_i, Option.map_some]
  have tag_j : pool.tags[j]? = some e.proxy.tag := by rw [tags, List.getElem?_map, at_j, Option.map_some, same]
  obtain ⟨hi, -⟩ := List.getElem?_eq_some_iff.1 tag_i
  obtain rfl := (List.getElem?_inj hi nodup).1 (tag_i.trans tag_j.symm)
  exact Option.some.inj (at_i.symm.trans at_j)

/-- **`try_get` beside `try_select`.** They take the same entry exactly when no eligible entry is ready or the
eligible entry that ranks first is. Where every instance is pooled once, that is when they return the same proxy. -/
theorem tryGet_agrees_iff (pool : Pool) (best : pool.config.strategy = .best) (scheme : Scheme) (key : ClientKey) (now : Instant)
    (seed : UInt64) (victim : Nat) :
    ((∀ e, pool.Leases (pool.tryGet scheme none) e ↔ pool.Leases (pool.trySelect scheme key now seed victim) e) ↔
      pool.FirstReady scheme now) ∧
    (pool.tags.Nodup →
      ((pool.tryGet scheme none).map Prod.fst = (pool.trySelect scheme key now seed victim).map Prod.fst ↔
        pool.FirstReady scheme now)) := by
  rcases tryGet_cases pool scheme none with ⟨unserved, none⟩ | ⟨i, e, first, at_i, some⟩
  · have unready : pool.FirstReady scheme now := Or.inl fun i e eligible => absurd eligible (unserved i)
    rcases trySelect_cases best scheme key now seed victim with ⟨-, none'⟩ | ⟨j, f, isBest, -, -⟩
    · rw [none, none']
      exact ⟨iff_of_true (fun _ => Iff.rfl) unready, fun _ => iff_of_true rfl unready⟩
    · exact absurd (eligible_of_tier isBest.candidate) (unserved j)
  · rcases trySelect_cases best scheme key now seed victim with ⟨unserved, -⟩ | ⟨j, f, isBest, at_j, some'⟩
    · exact absurd first.eligible (unserved i)
    · obtain ⟨hi, at_i'⟩ := List.getElem?_eq_some_iff.1 at_i
      have leaves : (e :: pool.state.eraseIdx i).Perm pool.state := at_i' ▸ List.getElem_cons_eraseIdx_perm hi
      rw [some, some', firstReady_iff first at_i isBest at_j]
      constructor
      · simp only [leases_iff leaves, leases_iff (swapRemove_perm at_j)]
        exact ⟨fun all => (all e).1 rfl, fun same g => by rw [same]⟩
      · intro nodup
        simp only [Option.map_some, Option.some.injEq]
        exact ⟨eq_of_proxy nodup at_i at_j, congrArg Pooled.proxy⟩

/-- Two proxies that rank alike. The first one is benched at the time, the second one is not. -/
def halfBenched : Pool :=
  { fromProxies [] .default with state := [⟨{ httpProxy 80 with tag := 0 }, some 5⟩, ⟨{ httpProxy 81 with tag := 1 }, none⟩] }

/-- `try_get` takes the benched one and `try_select` the ready one. -/
theorem tryGet_takes_benched :
    (halfBenched.tryGet .http none).map Prod.fst ≠ (halfBenched.trySelect .http (.ip (.v4 0)) 0 0 0).map Prod.fst := by
  intro same
  have got : ((halfBenched.tryGet .http none).map Prod.fst).map Proxy.port = some 80 := by decide +kernel
  have selected : ((halfBenched.trySelect .http (.ip (.v4 0)) 0 0 0).map Prod.fst).map Proxy.port = some 81 := by decide +kernel
  rw [same, selected] at got
  cases got

/-- Once the bench has run out they take the same one. -/
theorem tryGet_agrees_late :
    (halfBenched.tryGet .http none).map Prod.fst = (halfBenched.trySelect .http (.ip (.v4 0)) 5 0 0).map Prod.fst := by
  have nodup : halfBenched.tags.Nodup := by decide
  refine ((tryGet_agrees_iff halfBenched rfl .http (.ip (.v4 0)) 5 0 0).2 nodup).2 (Or.inr ?_)
  rcases tryGet_cases halfBenched .http none with ⟨unserved, -⟩ | ⟨i, e, first, at_i, -⟩
  · exact absurd ⟨_, rfl, by decide, rfl⟩ (unserved 0)
  · refine ⟨i, e, first, at_i, ?_⟩
    have all : ∀ e ∈ halfBenched.state, e.ready 5 = true := by simp [halfBenched, Pooled.ready]
    exact all e (List.mem_of_getElem? at_i)

end Pool

end ProxyBroker.Server
