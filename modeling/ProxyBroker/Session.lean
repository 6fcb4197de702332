import ProxyBroker.Export
import ProxyBroker.Find
import ProxyBroker.WarmStart

/-!
# From `find` to `serve` (`bin/proxybroker.rs:find`, `write_stream`, `serve_cmd`)

`find --state S --save F` leaves its verdicts in a store and its proxies in a file, and `serve --state S --load F` begins with
both. `find_then_serve` says what it begins with at each address: what the store remembers, which is the earlier history with
the one verdict folded in, and else what `find` wrote to the file.
-/

namespace ProxyBroker
open Lib Server Persist

/-! ## Proxies by address -/

section Addresses

variable {ps qs : List Proxy} {a : Addr} {p : Proxy}

theorem find_addr_iff (distinct : (ps.map Proxy.addr).Nodup) : (ps.find? fun p => p.addr = a) = some p ↔ p ∈ ps ∧ p.addr = a := by
  constructor
  · intro found
    exact ⟨List.mem_of_find?_eq_some found, by simpa using List.find?_some found⟩
  · rintro ⟨mem, rfl⟩
    obtain ⟨q, found⟩ := Option.isSome_iff_exists.1 (List.find?_isSome (p := fun q : Proxy => q.addr = p.addr) |>.2 ⟨p, mem, decide_eq_true rfl⟩)
    have same : q.addr = p.addr := by simpa using List.find?_some found
    rw [found, List.inj_on_of_nodup_map distinct (List.mem_of_find?_eq_some found) mem same]

/-- With distinct addresses the order does not matter. -/
theorem find_addr_perm (distinct : (ps.map Proxy.addr).Nodup) (perm : qs.Perm ps) :
    (qs.find? fun p => p.addr = a) = ps.find? fun p => p.addr = a := by
  apply Option.ext
  intro p
  rw [find_addr_iff ((perm.map Proxy.addr).nodup_iff.2 distinct), find_addr_iff distinct, perm.mem_iff]

/-- The first place where `union_dedup` looks for an address is the history. -/
theorem find_unionDedup (primary secondary : List Proxy) (a : Addr) :
    ((unionDedup primary secondary).find? fun p => p.addr = a) =
      (primary.find? fun p => p.addr = a).or (secondary.find? fun p => p.addr = a) := by
  rw [unionDedup, List.find?_append]
  cases found : primary.find? fun p => p.addr = a with
  | some p => rfl
  | none =>
    rw [Option.none_or, Option.none_or, List.find?_filter]
    have new : a ∉ primary.map Proxy.addr := by
      intro mem
      obtain ⟨p, at_p, same⟩ := List.mem_map.1 mem
      have absent := List.find?_eq_none.1 found p at_p
      exact absent (decide_eq_true same)
    congr 1
    funext p
    apply Bool.decide_congr
    constructor
    · rintro ⟨-, same⟩
      exact of_decide_eq_true same
    · rintro rfl
      exact ⟨decide_eq_true new, decide_eq_true rfl⟩

/-- A history with every address of the file leaves nothing to add. -/
theorem unionDedup_covered (covered : qs.map Proxy.addr ⊆ ps.map Proxy.addr) : unionDedup ps qs = ps := by
  have nothing : (qs.filter fun p => p.addr ∉ ps.map Proxy.addr) = [] := by
    apply List.filter_eq_nil_iff.2
    intro q mem new
    exact of_decide_eq_true new (covered (List.mem_map_of_mem mem))
  rw [unionDedup, nothing, List.append_nil]

end Addresses

/-! ## What a store loads -/

namespace Persist

/-- What `Store::load` can return after the upserts `xs`: the store gives its records in any order. -/
inductive Backend.Loads : Backend → List (ℤ × Proxy) → List Proxy → Prop
  | sqlite {xs : List (ℤ × Proxy)} {rows : List (SqliteStore.Key × SqliteStore.Row)} {out : List Proxy}
    (perm : rows.Perm (SqliteStore.after .binary64 xs)) (loads : SqliteStore.load rows = some out) : Loads .sqlite xs out
  | memory {xs : List (ℤ × Proxy)} {entries : List (Addr × MemoryStore.Record)}
    (perm : entries.Perm (MemoryStore.after .binary64 (xs.map Prod.snd))) : Loads .memory xs (MemoryStore.load entries)
  | redis {xs : List (ℤ × Proxy)} {members : List Text} (perm : members.Perm (RedisStore.after .binary64 xs).members) :
    Loads .redis xs (RedisStore.load (RedisStore.after .binary64 xs).hashes members)

/-- The totals of every address fit `u32`. -/
def TotalsFit (ps : List Proxy) : Prop :=
  ∀ a, total (fun p => p.requests.toNat) (upsertsOf a ps) < 2 ^ 32 ∧ total (fun p => p.errorTotal.toNat) (upsertsOf a ps) < 2 ^ 32

variable {b : Backend} {xs : List (ℤ × Proxy)} {out : List Proxy} {a : Addr}

/-- Every store loads what the summaries restore. -/
theorem Backend.Loads.perm (loads : b.Loads xs out) (totals : TotalsFit (xs.map Prod.snd)) : out.Perm (restored .binary64 (xs.map Prod.snd)) := by
  have fits : ∀ r ∈ summaries .binary64 (xs.map Prod.snd), r.2.Fits := fun r mem => fits_of_mem (fun a => (totals a).1) (fun a => (totals a).2) mem
  cases loads with
  | sqlite perm loads =>
    obtain ⟨t, flipped, order⟩ := List.perm_comp_forall₂ perm (SqliteStore.holds_after xs).flip
    rw [SqliteStore.load_of_matches flipped.flip fun r mem => fits r (order.mem_iff.1 mem)] at loads
    cases loads
    exact order.map _
  | memory perm =>
    have all : MemoryStore.load (MemoryStore.after .binary64 (xs.map Prod.snd)) = restored .binary64 (xs.map Prod.snd) :=
      MemoryStore.load_of_matches (MemoryStore.holds_after .binary64 _) fits
    rw [← all]
    exact perm.map _
  | redis perm =>
    have all : RedisStore.load (RedisStore.after .binary64 xs).hashes (RedisStore.after .binary64 xs).members = restored .binary64 (xs.map Prod.snd) := by
      rw [RedisStore.members_after]
      exact RedisStore.load_members (fun r mem => RedisStore.hash_of_mem mem) fits
    rw [← all]
    exact perm.filterMap _

/-- What is restored at an address is its summary. -/
theorem find_restored (pr : Precision) (ps : List Proxy) (a : Addr) :
    ((restored pr ps).find? fun p => p.addr = a) = (summary pr (upsertsOf a ps)).map (·.restore a) := by
  rw [← rowOf_summaries, restored]
  induction summaries pr ps with
  | nil => rfl
  | cons r t ih =>
    obtain ⟨key, s⟩ := r
    have own : (s.restore key).addr = key := rfl
    rw [List.map_cons, List.find?_cons, own, rowOf]
    by_cases same : key = a
    · subst same
      rw [decide_eq_true rfl, if_pos rfl]
      rfl
    · rw [decide_eq_false same, if_neg same]
      exact ih

/-- **What a warm start finds at an address** is the summary of its upserts. -/
theorem Backend.Loads.find (loads : b.Loads xs out) (totals : TotalsFit (xs.map Prod.snd)) :
    (out.find? fun p => p.addr = a) = (summary .binary64 (upsertsOf a (xs.map Prod.snd))).map (·.restore a) := by
  rw [find_addr_perm (restored_distinct .binary64 _) (loads.perm totals), find_restored]

end Persist

/-! ## The two commands -/

open Broker in
/-- **From `find` to `serve`.** When `find --state --save` ended well, `serve --state --load` begins with one proxy for an
address: what the store remembers of it, which is the history before with the verdict of this `find` folded in where its
upsert came through, and else the proxy that was due there, if it was written. When every upsert came through, the file
adds nothing. -/
theorem find_then_serve {f : Search} {c : Checker} {net : Addr → Checker.Net} {is : List Input} {s : State} (on : f.onChecked = true)
    (checks : f.job.Checks c net) (h : run (step f.job) (start f.job) is = some s) (reading : s.shared.consumer = .reading)
    {serde : SerdeJson} {o : Export.Options} {first : Export.Written} {turns : List Export.Turn} (save : o.save = true)
    (stream : Export.streamed turns = s.shared.received.map Prod.snd) (done : (Export.writeStream serde o first turns).status = .finished)
    (carries : ∀ p ∈ Export.streamed turns, serde.Carries p.toJson) {b : Backend} {hs ws : List (ℤ × Proxy)} {history : List Proxy}
    (written : (ws.map Prod.snd).Sublist (s.shared.observations.map Prod.snd)) (totals : TotalsFit ((hs ++ ws).map Prod.snd))
    (loads : b.Loads (hs ++ ws) history) :
    ∃ loaded, readNdjson serde (Export.writeStream serde o first turns).saved = some loaded ∧
      (∀ auth config, (Sys.fromProxies auth (unionDedup history loaded) config).pool.addrs.Nodup) ∧
      (∀ a, ((unionDedup history loaded).find? fun p => p.addr = a) =
        ((if a ∈ (ws.map Prod.snd).map Proxy.addr then f.remembered .binary64 c net hs a else summary .binary64 (upsertsOf a (hs.map Prod.snd))).map
          (·.restore a)).or
        (if a ∈ (s.shared.received.map Prod.snd).map Proxy.addr then (f.dueAt c net a).map Proxy.loaded else none)) ∧
      (ws.map Prod.snd = s.shared.observations.map Prod.snd → unionDedup history loaded = history) := by
  have inv := run_invariant h
  have part : s.shared.received.Sublist s.shared.emissions := by
    rw [← inv.delivered reading]
    exact List.sublist_append_left _ _
  have distinct : ((s.shared.received.map Prod.snd).map Proxy.addr).Nodup := by
    rw [List.map_map]
    exact (Search.addresses_nodup inv.nodup fun k p mem => (Search.emitted_due checks inv mem).1).sublist (part.map _)
  have addrs : ((s.shared.received.map Prod.snd).map Proxy.loaded).map Proxy.addr = (s.shared.received.map Prod.snd).map Proxy.addr := by
    rw [List.map_map]
    rfl
  have perm := loads.perm totals
  have unrepeated : Unrepeated history ((s.shared.received.map Prod.snd).map Proxy.loaded) := by
    apply unrepeated_of_restored perm
    intro a _
    rw [addrs]
    exact List.nodup_iff_count_le_one.1 distinct a
  refine ⟨(s.shared.received.map Prod.snd).map Proxy.loaded, ?_, fun auth config => ?_, fun a => ?_, fun all => ?_⟩
  · rw [Export.saved_finished save done, readNdjson_write carries, stream]
  · exact Sys.fromProxies_distinct (unionDedup_distinct_iff.2 unrepeated) auth config
  · rw [find_unionDedup, loads.find totals, Search.summary_written .binary64 on checks inv written]
    congr 1
    split
    · rename_i sent
      obtain ⟨p, mem, rfl⟩ := List.mem_map.1 sent
      obtain ⟨⟨k, p⟩, received, rfl⟩ := List.mem_map.1 mem
      have due := (Search.emitted_due checks inv (part.subset received)).2
      rw [due]
      exact (find_addr_iff (by rwa [addrs])).2 ⟨List.mem_map_of_mem mem, rfl⟩
    · rename_i absent
      apply List.find?_eq_none.2
      intro p mem same
      apply absent
      rw [← addrs]
      exact List.mem_map.2 ⟨p, mem, of_decide_eq_true same⟩
  · apply unionDedup_covered
    rw [addrs]
    intro a sent
    obtain ⟨p, mem, rfl⟩ := List.mem_map.1 sent
    obtain ⟨e, received, rfl⟩ := List.mem_map.1 mem
    have observed := (inv.emitted_verdict (k := e.1) (p := e.2) (part.subset received)).2 _ (marks_observed on)
    have upserted : e.2 ∈ upsertsOf e.2.addr ((hs ++ ws).map Prod.snd) := by
      apply List.mem_filter.2
      rw [List.map_append, all]
      exact ⟨List.mem_append_right _ (List.mem_map.2 ⟨e, observed, rfl⟩), decide_eq_true rfl⟩
    obtain ⟨m, remembered⟩ := Option.ne_none_iff_exists'.1 fun missing : summary .binary64 (upsertsOf e.2.addr ((hs ++ ws).map Prod.snd)) = none => by
      rw [summary_eq_none.1 missing] at upserted
      cases upserted
    have found := loads.find (a := e.2.addr) totals
    rw [remembered] at found
    exact List.mem_map.2 ⟨_, List.mem_of_find?_eq_some found, rfl⟩

section
open Broker

/-- What the check of `twice` leaves. -/
def onlyFound : Proxy := (Checker.mixed.check (Checker.willingNet .transparent) (made ⟨none, none⟩ (.v4 7, 80) [])).proxy

theorem onlyFound_typesSorted : onlyFound.typesSorted = [(.socks5, none)] := by
  have pairs : onlyFound.typePairs = [(.socks5, none)] := by decide +kernel
  rw [Proxy.typesSorted, pairs, List.mergeSort_singleton]

theorem onlyFound_carries : (serdeOf [onlyFound.toJson]).Carries onlyFound.toJson where
  newline := by
    rw [Proxy.toJson, onlyFound_typesSorted]
    decide +kernel
  braces := ⟨_, rfl⟩
  inverse := by
    rw [serdeOf]
    dsimp only
    exact List.find?_cons_of_pos (decide_eq_true rfl)

theorem find_then_serve_twice : ∃ loaded,
    readNdjson (serdeOf [onlyFound.toJson]) (Export.writeStream (serdeOf [onlyFound.toJson]) ⟨.txt, none, true, false⟩ .whole
      [.proxy onlyFound .whole .whole, .done .whole]).saved = some loaded ∧
    unionDedup (MemoryStore.load (MemoryStore.after .binary64 [failedOnce, onlyFound])) loaded =
      MemoryStore.load (MemoryStore.after .binary64 [failedOnce, onlyFound]) := by
  obtain ⟨s, ran, received, observed, reading⟩ : ∃ s, run (step twice.job) (start twice.job) wholeCheck = some s ∧
      s.shared.received.map Prod.snd = [onlyFound] ∧ s.shared.observations.map Prod.snd = [onlyFound] ∧ s.shared.consumer = .reading :=
    ⟨_, rfl, rfl, rfl, rfl⟩
  have totals : TotalsFit (([((100 : ℤ), failedOnce)] ++ [((160 : ℤ), onlyFound)]).map Prod.snd) := fun a =>
    ⟨Nat.lt_of_le_of_lt (total_upsertsOf_le _ a _) (by decide +kernel), Nat.lt_of_le_of_lt (total_upsertsOf_le _ a _) (by decide +kernel)⟩
  have loads : Backend.memory.Loads ([((100 : ℤ), failedOnce)] ++ [((160 : ℤ), onlyFound)])
    (MemoryStore.load (MemoryStore.after .binary64 [failedOnce, onlyFound])) :=
    .memory (.refl _)
  have stream : Export.streamed [.proxy onlyFound .whole .whole, .done .whole] = s.shared.received.map Prod.snd := received.symm
  have carries : ∀ p ∈ Export.streamed [.proxy onlyFound .whole .whole, .done .whole], (serdeOf [onlyFound.toJson]).Carries p.toJson := by
    intro p mem
    obtain rfl : p = onlyFound := List.mem_singleton.1 mem
    exact onlyFound_carries
  have done : (Export.writeStream (serdeOf [onlyFound.toJson]) ⟨.txt, none, true, false⟩ .whole
      [.proxy onlyFound .whole .whole, .done .whole]).status = .finished := rfl
  obtain ⟨loaded, read, -, -, covered⟩ := find_then_serve rfl twice_checks ran reading rfl stream done carries
    (by rw [observed]; exact .refl _) totals loads
  exact ⟨loaded, read, covered observed.symm⟩

end

end ProxyBroker
