import ProxyBroker.Admission
import ProxyBroker.Lib.Firsts
import ProxyBroker.Ndjson
import ProxyBroker.Persist.Load

/-!
# The proxies of a warm start (`bin/proxybroker.rs:union_dedup`)

`serve --load` fills the pool with what the store remembers and with a saved file. `WarmStart` is what the
two should come to: one proxy for each address, and the store's where both have one. `warmUnion` is a list
of that kind for any history and any file.

`union_dedup` drops from the file what is in the history, and compares nothing else. The history of a store
has one proxy for an address; a file has what its lines say.
-/

namespace ProxyBroker
open Lib Server

/-- `union_dedup`. -/
def unionDedup (primary secondary : List Proxy) : List Proxy :=
  let seen := primary.map Proxy.addr
  primary ++ secondary.filter fun p => p.addr ∉ seen

/-- What the union of a history and a snapshot should be. -/
structure WarmStart (primary secondary union : List Proxy) : Prop where
  once : ∀ a, a ∈ primary.map Proxy.addr ∨ a ∈ secondary.map Proxy.addr → (union.map Proxy.addr).count a = 1
  noOther : ∀ a ∈ union.map Proxy.addr, a ∈ primary.map Proxy.addr ∨ a ∈ secondary.map Proxy.addr
  primaryWins : ∀ a ∈ primary.map Proxy.addr, a ∈ secondary.map Proxy.addr →
    ∃ p ∈ primary, p.addr = a ∧ p ∈ union ∧ ∀ q ∈ union, q.addr = a → q = p
  pool : ∀ config, (Pool.fromProxies union config).addrs.Nodup

/-- No two proxies of the history have one address, and no two of the snapshot have one that the history
lacks. -/
structure Unrepeated (primary secondary : List Proxy) : Prop where
  history : (primary.map Proxy.addr).Nodup
  added : ∀ a, a ∉ primary.map Proxy.addr → (secondary.map Proxy.addr).count a ≤ 1

/-- The first proxy of each address, the history before the snapshot. -/
def warmUnion (primary secondary : List Proxy) : List Proxy := firsts (fun p => some p.addr) [] (primary ++ secondary)

variable {primary secondary union : List Proxy}

theorem fromProxies_addrs (proxies : List Proxy) (config : PoolConfig) :
    (Pool.fromProxies proxies config).addrs = (proxies.filter fun p => countryOk config.toUppercase p config.countries).map Proxy.addr := by
  rw [Pool.addrs, Pool.fromProxies, List.map_map]
  rfl

/-- `from_proxies` keeps addresses distinct. -/
theorem fromProxies_distinct {proxies : List Proxy} (distinct : (proxies.map Proxy.addr).Nodup) (config : PoolConfig) :
    (Pool.fromProxies proxies config).addrs.Nodup := by
  rw [fromProxies_addrs]
  exact distinct.sublist (List.filter_sublist.map Proxy.addr)

theorem WarmStart.distinct (warm : WarmStart primary secondary union) : (union.map Proxy.addr).Nodup := by
  rw [List.nodup_iff_count_le_one]
  intro a
  by_cases there : a ∈ union.map Proxy.addr
  · exact (warm.once a (warm.noOther a there)).le
  · rw [List.count_eq_zero.2 there]
    exact Nat.zero_le 1

/-! ## The union that is asked for -/

theorem warmUnion_distinct : ((warmUnion primary secondary).map Proxy.addr).Nodup := by
  rw [List.Nodup, List.pairwise_map]
  refine firsts_pairwise.imp ?_
  intro p q differ same
  exact differ (congrArg some same)

theorem mem_warmUnion_addrs {a : Addr} :
    a ∈ (warmUnion primary secondary).map Proxy.addr ↔ a ∈ primary.map Proxy.addr ∨ a ∈ secondary.map Proxy.addr := by
  rw [warmUnion, mem_map_firsts, List.map_append, List.mem_append]
  exact and_iff_left List.not_mem_nil

/-- **The union can be made** for every history and every snapshot. -/
theorem warmStart_warmUnion (primary secondary : List Proxy) : WarmStart primary secondary (warmUnion primary secondary) where
  once a either := List.count_eq_one_of_mem warmUnion_distinct (mem_warmUnion_addrs.2 either)
  noOther a mem := mem_warmUnion_addrs.1 mem
  primaryWins := by
    intro a inPrimary _
    obtain ⟨p, found⟩ : ∃ p, primary.find? (fun p => some p.addr = some a) = some p := by
      obtain ⟨p, mem, at_a⟩ := List.mem_map.1 inPrimary
      apply Option.isSome_iff_exists.1
      rw [List.find?_isSome]
      exact ⟨p, mem, by simpa using at_a⟩
    have first : (primary ++ secondary).find? (fun p => some p.addr = some a) = some p := by
      rw [List.find?_append, found, Option.some_or]
    refine ⟨p, List.mem_of_find?_eq_some found, by simpa using List.find?_some found, ?_, ?_⟩
    · exact mem_firsts.2 ⟨a, List.not_mem_nil, first⟩
    · intro q mem at_a
      obtain ⟨b, -, firstOfB⟩ := mem_firsts.1 mem
      have at_b : some q.addr = some b := by simpa using List.find?_some firstOfB
      rw [at_a] at at_b
      cases at_b
      rw [first] at firstOfB
      exact (Option.some.inj firstOfB).symm
  pool := fromProxies_distinct warmUnion_distinct

/-! ## The union that is made -/

theorem unionDedup_addrs : (unionDedup primary secondary).map Proxy.addr =
    primary.map Proxy.addr ++ (secondary.filter fun p => p.addr ∉ primary.map Proxy.addr).map Proxy.addr := by
  rw [unionDedup, List.map_append]

/-- What the snapshot adds has distinct addresses when it repeats none that is new. -/
theorem added_distinct_iff : ((secondary.filter fun p => p.addr ∉ primary.map Proxy.addr).map Proxy.addr).Nodup ↔
    ∀ a, a ∉ primary.map Proxy.addr → (secondary.map Proxy.addr).count a ≤ 1 := by
  have addrs : (secondary.filter fun p => p.addr ∉ primary.map Proxy.addr).map Proxy.addr =
      (secondary.map Proxy.addr).filter (· ∉ primary.map Proxy.addr) := by
    rw [List.filter_map]
    rfl
  rw [addrs, List.nodup_iff_count_le_one]
  constructor
  · intro few a new
    rw [← List.count_filter (p := fun b => b ∉ primary.map Proxy.addr) (decide_eq_true new)]
    exact few a
  · intro few a
    by_cases new : a ∉ primary.map Proxy.addr
    · rw [List.count_filter (p := fun b => b ∉ primary.map Proxy.addr) (decide_eq_true new)]
      exact few a new
    · have dropped : a ∉ (secondary.map Proxy.addr).filter (· ∉ primary.map Proxy.addr) := by
        intro mem
        exact new (of_decide_eq_true (List.mem_filter.1 mem).2)
      rw [List.count_eq_zero.2 dropped]
      exact Nat.zero_le 1

/-- The two parts of `union_dedup` share no address. -/
theorem unionDedup_distinct_iff : ((unionDedup primary secondary).map Proxy.addr).Nodup ↔ Unrepeated primary secondary := by
  rw [unionDedup_addrs, List.nodup_append', added_distinct_iff]
  constructor
  · rintro ⟨history, added, -⟩
    exact ⟨history, added⟩
  · intro unrepeated
    refine ⟨unrepeated.history, unrepeated.added, ?_⟩
    intro a mem added
    obtain ⟨p, new, rfl⟩ := List.mem_map.1 added
    exact of_decide_eq_true (List.mem_filter.1 new).2 mem

/-- **Where nothing repeats, `union_dedup` makes that union.** -/
theorem unionDedup_eq_warmUnion (unrepeated : Unrepeated primary secondary) : unionDedup primary secondary = warmUnion primary secondary := by
  have fresh : ∀ p ∈ primary, p.addr ∉ ([] : List Addr) := fun _ _ => List.not_mem_nil
  have rest : firsts (fun p : Proxy => some p.addr) (primary.map Proxy.addr).reverse secondary =
      secondary.filter fun p => p.addr ∉ primary.map Proxy.addr := by
    have alone := firsts_distinct (m := []) (fun _ _ => List.not_mem_nil) (added_distinct_iff.2 unrepeated.added)
    rw [List.append_nil, firsts, List.append_nil] at alone
    rw [← List.nil_append (primary.map Proxy.addr).reverse, firsts_filter]
    simpa only [List.mem_reverse] using alone
  rw [warmUnion, firsts_distinct fresh unrepeated.history, List.append_nil, rest]
  rfl

/-- **The warm start**: `union_dedup` makes what it should exactly where no two proxies of the history share an
address, and no two of the snapshot share one that the history lacks. -/
theorem warm_start_iff (primary secondary : List Proxy) :
    WarmStart primary secondary (unionDedup primary secondary) ↔ Unrepeated primary secondary := by
  constructor
  · intro warm
    exact unionDedup_distinct_iff.1 warm.distinct
  · intro unrepeated
    rw [unionDedup_eq_warmUnion unrepeated]
    exact warmStart_warmUnion primary secondary

/-- A file with a proxy on two lines, and no history. -/
theorem warm_start_twice : ¬ WarmStart [] [httpProxy 80, httpProxy 80] (unionDedup [] [httpProxy 80, httpProxy 80]) := by
  intro warm
  have once := warm.once (httpProxy 80).addr (Or.inr List.mem_cons_self)
  have twice : ((unionDedup [] [httpProxy 80, httpProxy 80]).map Proxy.addr).count (httpProxy 80).addr = 2 := by decide
  rw [twice] at once
  cases once

/-! ## What the command loads -/

/-- A store remembers one proxy for an address. -/
theorem restored_distinct (pr : Precision) (ps : List Proxy) : ((Persist.restored pr ps).map Proxy.addr).Nodup := by
  have addrs : (Persist.restored pr ps).map Proxy.addr = (Persist.summaries pr ps).map Prod.fst := by
    rw [Persist.restored, List.map_map]
    rfl
  rw [addrs]
  exact nodup_tableOf ps

/-- With the history of a store, only the file can repeat an address. -/
theorem unrepeated_of_restored {pr : Precision} {ps : List Proxy} (history : primary.Perm (Persist.restored pr ps))
    (added : ∀ a, a ∉ primary.map Proxy.addr → (secondary.map Proxy.addr).count a ≤ 1) : Unrepeated primary secondary :=
  ⟨(history.map Proxy.addr).nodup_iff.2 (restored_distinct pr ps), added⟩

/-- **A saved pool is loaded without repeats**: a file that `write_ndjson` made of proxies with distinct
addresses, over the history of a store. -/
theorem unrepeated_of_saved {serde : SerdeJson} {pr : Precision} {ps saved : List Proxy} (history : primary.Perm (Persist.restored pr ps))
    (carries : ∀ p ∈ saved, serde.Carries p.toJson) (distinct : (saved.map Proxy.addr).Nodup)
    (read : readNdjson serde (writeNdjson serde saved) = some secondary) : Unrepeated primary secondary := by
  apply unrepeated_of_restored history
  intro a _
  rw [readNdjson_write carries] at read
  cases read
  have addrs : (saved.map Proxy.loaded).map Proxy.addr = saved.map Proxy.addr := by
    rw [List.map_map]
    rfl
  rw [addrs]
  exact List.nodup_iff_count_le_one.1 distinct a

/-- The system's pool over a list of distinct addresses. -/
theorem Sys.fromProxies_distinct {proxies : List Proxy} (distinct : (proxies.map Proxy.addr).Nodup) (auth : Option AuthExpect)
    (config : PoolConfig) : (Sys.fromProxies auth proxies config).pool.addrs.Nodup := by
  have tagged (l : List Proxy) : (l.mapIdx fun i p => { p with tag := i }).map Proxy.addr = l.map Proxy.addr := by
    apply List.ext_getElem?
    intro i
    rw [List.getElem?_map, List.getElem?_mapIdx, List.getElem?_map, Option.map_map]
    rfl
  apply ProxyBroker.fromProxies_distinct
  rw [tagged]
  exact distinct.sublist (List.filter_sublist.map Proxy.addr)

/-- **One entry for an address**, in every run of a server that begins with such a warm start and in which no
`add` pushes an address while a task holds a lease on it. -/
theorem Unrepeated.run_distinct (unrepeated : Unrepeated primary secondary) {auth : Option AuthExpect} {config : PoolConfig}
    {is : List Sys.Input} {t : Sys}
    (unleased : Along Sys.step Sys.Unleased (Sys.fromProxies auth (unionDedup primary secondary) config) is)
    (h : run Sys.step (Sys.fromProxies auth (unionDedup primary secondary) config) is = some t) : t.pool.addrs.Nodup := by
  have distinct := Sys.fromProxies_distinct (unionDedup_distinct_iff.2 unrepeated) auth config
  have start : (Sys.fromProxies auth (unionDedup primary secondary) config).Distinct := Sys.distinct_start rfl rfl distinct
  exact (run_preserves_along (fun _ _ _ inv ok next => Sys.distinct_step inv ok next) start unleased h).addrs

end ProxyBroker
