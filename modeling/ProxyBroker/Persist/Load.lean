import ProxyBroker.Persist.Refine

/-!
# What a warm start loads

`load` of each backend, over rows, entries or members in any order, is the summaries as proxies. The
totals are read as `u32`, so this needs the sums of an address below `2 ^ 32`.
-/

namespace ProxyBroker.Persist
open Lib

/-- What is remembered about an address, as a proxy. -/
def Summary.restore (a : Addr) (s : Summary) : Proxy :=
  (Proxy.restored a.1 a.2 s.types (UInt32.ofNat s.requests) (UInt32.ofNat s.errors) s.avgLatency).withEwma (some s.ewmaSuccess)

/-- The totals fit `u32`. -/
structure Summary.Fits (s : Summary) : Prop where
  requests : s.requests < 2 ^ 32
  errors : s.errors < 2 ^ 32

/-- The proxies that `ps` leave to a warm start. -/
def restored (pr : Precision) (ps : List Proxy) : List Proxy := (summaries pr ps).map fun r => r.2.restore r.1

section Bounded

variable {pr : Precision} {ps : List Proxy} (requests : ∀ a, total (fun p => p.requests.toNat) (upsertsOf a ps) < 2 ^ 32)
  (errors : ∀ a, total (fun p => p.errorTotal.toNat) (upsertsOf a ps) < 2 ^ 32)

theorem rowOf_summaries_of_mem {a : Addr} {s : Summary} (mem : (a, s) ∈ summaries pr ps) : rowOf a (summaries pr ps) = some s :=
  rowOf_of_mem (nodup_tableOf ps) mem

include requests errors in
theorem fits_of_mem {a : Addr} {s : Summary} (mem : (a, s) ∈ summaries pr ps) : s.Fits := by
  have found := rowOf_summaries_of_mem mem
  rw [rowOf_summaries] at found
  have totals := summary_totals found
  exact ⟨by rw [totals.requests]; exact requests a, by rw [totals.errors]; exact errors a⟩

end Bounded

/-! ## SQLite -/

namespace SqliteStore
variable {pr : Precision}

theorem ofInt_natCast {n : Nat} (lt : n < 2 ^ 32) : UInt32.ofInt n = UInt32.ofNat n := by
  rw [UInt32.ofInt, Int.emod_eq_of_lt (Int.natCast_nonneg n) (by exact_mod_cast lt), Int.toNat_natCast]

theorem ofInt_port (port : UInt16) : UInt16.ofInt port.toNat = port := by
  rw [UInt16.ofInt, Int.emod_eq_of_lt (Int.natCast_nonneg _) (by exact_mod_cast port.toNat_lt), Int.toNat_natCast,
    UInt16.ofNat_toNat]

theorem getI64_of_counts {c : SqlNum} {n : Nat} (counts : c.Counts pr n) (lt : n < 2 ^ 32) : c.getI64 = some (n : ℤ) := by
  rw [counts.whole (by omega)]
  rfl

theorem loadRow_of_holds {a : Addr} {s : Summary} {row : Row} (holds : Holds pr s row) (fits : s.Fits) :
    loadRow (key a, row) = some (some (s.restore a)) := by
  simp only [loadRow, key, getI64_of_counts holds.requests fits.requests, getI64_of_counts holds.errors fits.errors,
    parse_display, Option.bind_eq_bind, Option.bind_some, ofInt_port, ofInt_natCast fits.requests, ofInt_natCast fits.errors,
    holds.types, typesFromJson_typesToJson, holds.avgLatency, holds.ewmaSuccess]
  rfl

theorem load_of_matches {t : List (Addr × Summary)} {rows : List (Key × Row)} (hit : Matches key (fun _ => Holds pr) t rows)
    (fits : ∀ r ∈ t, r.2.Fits) : load rows = some (t.map fun r => r.2.restore r.1) := by
  induction hit with
  | nil => rfl
  | cons row rest ih =>
    rename_i r row' t rows
    obtain ⟨same, holds⟩ := row
    have entry : row' = (key r.1, row'.2) := Prod.ext same rfl
    have head := loadRow_of_holds (a := r.1) holds (fits r List.mem_cons_self)
    rw [entry, load, head, ih fun q mem => fits q (List.mem_cons_of_mem r mem)]
    rfl

end SqliteStore

/-! ## Memory -/

namespace MemoryStore

theorem eq_ofNat {c : UInt32} {n : Nat} (h : c.toNat = min n (2 ^ 32 - 1)) (lt : n < 2 ^ 32) : c = UInt32.ofNat n := by
  rw [← UInt32.toNat_inj, UInt32.toNat_ofNat_of_lt' lt, h]
  omega

theorem loadEntry_of_holds {a : Addr} {s : Summary} {r : Record} (holds : Holds s r) (fits : s.Fits) :
    loadEntry (a, r) = s.restore a := by
  simp only [loadEntry, Summary.restore, holds.types, eq_ofNat holds.requests fits.requests,
    eq_ofNat holds.errors fits.errors, holds.avgLatency, holds.ewmaSuccess]

theorem load_of_matches {t : List (Addr × Summary)} {entries : List (Addr × Record)}
    (hit : Matches id (fun _ => Holds) t entries) (fits : ∀ r ∈ t, r.2.Fits) :
    load entries = t.map fun r => r.2.restore r.1 := by
  induction hit with
  | nil => rfl
  | cons row rest ih =>
    rename_i r entry t entries
    obtain ⟨same, holds⟩ := row
    have head : loadEntry entry = r.2.restore r.1 := by
      rw [show entry = (r.1, entry.2) from Prod.ext same rfl]
      exact loadEntry_of_holds holds (fits r List.mem_cons_self)
    rw [load, List.map_cons, List.map_cons, head]
    exact congrArg _ (ih fun q mem => fits q (List.mem_cons_of_mem r mem))

end MemoryStore

/-! ## Redis -/

namespace RedisStore
variable {pr : Precision}

theorem parseU32_natCast {n : Nat} (lt : n < 2 ^ 32) : parseU32 n = some (UInt32.ofNat n) := by
  rw [parseU32, if_pos]
  · simp
  · simp only [Rat.den_natCast, Rat.num_natCast]
    exact ⟨trivial, Int.natCast_nonneg n, by exact_mod_cast lt⟩

theorem parse_of_counts {field : Option ℚ} {n : Nat} (counts : Counts pr field n) (lt : n < 2 ^ 32) :
    field.bind parseU32 = some (UInt32.ofNat n) := by
  rw [counts.set, counts.small (by omega), Option.bind_some, parseU32_natCast lt]

theorem loadHash_of_holds {a : Addr} {s : Summary} {h : Hash} (holds : Holds pr s h) (fits : s.Fits) :
    loadHash a.1 a.2 h = some (s.restore a) := by
  rw [loadHash, if_neg holds.ne_empty, holds.types, parse_of_counts holds.requests fits.requests,
    parse_of_counts holds.errors fits.errors, holds.avgLatency, holds.ewmaSuccess, Option.getD_some, typesFromJson_typesToJson]
  rfl

/-- A member is loaded out of the hash under its key. -/
theorem loadMember_eq {hashes : List (Text × Hash)} {a : Addr} {h : Hash} (found : rowOf (proxyKey a) hashes = some h) :
    loadMember hashes (hostColonPort a.1 a.2) = loadHash a.1 a.2 h := by
  have read : (rowOf (proxyKey (a.1, a.2)) hashes).getD .empty = h := by rw [found, Option.getD_some]
  rw [loadMember, rsplitOnce_hostColonPort]
  simp only [Option.bind_eq_bind, Option.bind_some, parse_display, parseU16_showNat, read]

theorem loadMember_of_holds {hashes : List (Text × Hash)} {a : Addr} {s : Summary} {h : Hash}
    (found : rowOf (proxyKey a) hashes = some h) (holds : Holds pr s h) (fits : s.Fits) :
    loadMember hashes (hostColonPort a.1 a.2) = some (s.restore a) := by
  rw [loadMember_eq found]
  exact loadHash_of_holds holds fits

theorem load_members {t : List (Addr × Summary)} {hashes : List (Text × Hash)}
    (found : ∀ r ∈ t, ∃ h, rowOf (proxyKey r.1) hashes = some h ∧ Holds pr r.2 h) (fits : ∀ r ∈ t, r.2.Fits) :
    load hashes (t.map fun r => hostColonPort r.1.1 r.1.2) = t.map fun r => r.2.restore r.1 := by
  induction t with
  | nil => rfl
  | cons r t ih =>
    obtain ⟨h, here, holds⟩ := found r List.mem_cons_self
    have head := loadMember_of_holds here holds (fits r List.mem_cons_self)
    rw [List.map_cons, List.map_cons, load, List.filterMap_cons_some head]
    exact congrArg _ (ih (fun q mem => found q (List.mem_cons_of_mem r mem)) fun q mem => fits q (List.mem_cons_of_mem r mem))

/-- Every summary is found under its key. -/
theorem hash_of_mem {xs : List (ℤ × Proxy)} {r : Addr × Summary} (mem : r ∈ summaries pr (xs.map Prod.snd)) :
    ∃ h, rowOf (proxyKey r.1) (after pr xs).hashes = some h ∧ Holds pr r.2 h := by
  have rel := (@holds_after pr xs).rowOf proxyKey_injective r.1
  rw [rowOf_summaries_of_mem mem] at rel
  exact exists_right_of_rel rel

end RedisStore

/-! ## The backends agree -/

/-- **One fold, three times.** After the same upserts, the three backends load the same proxies: those that
the summaries restore. The clocks of the stores may differ, and each store enumerates its records in its
own order. -/
theorem stores_load_the_same (pr : Precision) {ps : List Proxy} {xs ys : List (ℤ × Proxy)}
    (sqlite : xs.map Prod.snd = ps) (redis : ys.map Prod.snd = ps)
    (requests : ∀ a, total (fun p => p.requests.toNat) (upsertsOf a ps) < 2 ^ 32)
    (errors : ∀ a, total (fun p => p.errorTotal.toNat) (upsertsOf a ps) < 2 ^ 32)
    {rows : List (SqliteStore.Key × SqliteStore.Row)} (rowsPerm : rows.Perm (SqliteStore.after pr xs))
    {entries : List (Addr × MemoryStore.Record)} (entriesPerm : entries.Perm (MemoryStore.after pr ps))
    {members : List Text} (membersPerm : members.Perm (RedisStore.after pr ys).members) :
    ∃ out, SqliteStore.load rows = some out ∧ out.Perm (restored pr ps) ∧
      (MemoryStore.load entries).Perm out ∧ (RedisStore.load (RedisStore.after pr ys).hashes members).Perm out := by
  have fits : ∀ r ∈ summaries pr ps, r.2.Fits := fun r mem => fits_of_mem requests errors mem
  -- the rows come in the order of some permutation of the summaries
  obtain ⟨t, hit, perm⟩ : ∃ t, Matches SqliteStore.key (fun _ => SqliteStore.Holds pr) t rows ∧ t.Perm (summaries pr ps) := by
    have hit := @SqliteStore.holds_after pr xs
    rw [sqlite] at hit
    obtain ⟨t, flipped, perm⟩ := List.perm_comp_forall₂ rowsPerm hit.flip
    exact ⟨t, flipped.flip, perm⟩
  have loaded := SqliteStore.load_of_matches hit fun r mem => fits r (perm.mem_iff.1 mem)
  have out : (t.map fun r => r.2.restore r.1).Perm (restored pr ps) := perm.map _
  refine ⟨_, loaded, out, ?_, ?_⟩
  · have memory : MemoryStore.load (MemoryStore.after pr ps) = restored pr ps :=
      MemoryStore.load_of_matches (MemoryStore.holds_after pr ps) fits
    exact ((entriesPerm.map MemoryStore.loadEntry).trans (.of_eq memory)).trans out.symm
  · have stored : RedisStore.load (RedisStore.after pr ys).hashes (RedisStore.after pr ys).members = restored pr ps := by
      rw [RedisStore.members_after, redis]
      refine RedisStore.load_members (fun r mem => RedisStore.hash_of_mem ?_) fits
      rw [redis]
      exact mem
    exact ((membersPerm.filterMap _).trans (.of_eq stored)).trans out.symm

theorem stores_load_the_same_after_failure :
    ∃ out, SqliteStore.load (SqliteStore.after .binary64 [(100, workedOnce), (160, failedOnce), (190, httpProxy 80)]) = some out ∧
      out.Perm (restored .binary64 [workedOnce, failedOnce, httpProxy 80]) ∧
      (MemoryStore.load (MemoryStore.after .binary64 [workedOnce, failedOnce, httpProxy 80]).reverse).Perm out ∧
      (RedisStore.load (RedisStore.after .binary64 [(101, workedOnce), (161, failedOnce), (191, httpProxy 80)]).hashes
        (RedisStore.after .binary64 [(101, workedOnce), (161, failedOnce), (191, httpProxy 80)]).members.reverse).Perm out := by
  have small (f : Proxy → Nat) (lt : total f [workedOnce, failedOnce, httpProxy 80] < 2 ^ 32) (a : Addr) :
      total f (upsertsOf a [workedOnce, failedOnce, httpProxy 80]) < 2 ^ 32 :=
    Nat.lt_of_le_of_lt (total_upsertsOf_le f a _) lt
  have sqlite : [((100 : ℤ), workedOnce), (160, failedOnce), (190, httpProxy 80)].map Prod.snd =
      [workedOnce, failedOnce, httpProxy 80] := rfl
  have redis : [((101 : ℤ), workedOnce), (161, failedOnce), (191, httpProxy 80)].map Prod.snd =
      [workedOnce, failedOnce, httpProxy 80] := rfl
  exact stores_load_the_same .binary64 sqlite redis (small _ (by decide)) (small _ (by decide)) (.refl _) (List.reverse_perm _)
    (List.reverse_perm _)

end ProxyBroker.Persist
