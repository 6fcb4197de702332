import ProxyBroker.Persist.Stores

/-!
# The stores hold the summaries

Each backend keeps, under its own key and in its own encoding, what `summaries` remembers about an
address. A relation between a summary and a row says so; one upsert keeps it, and the rows of all
addresses follow by `matches_tableOf`. The relations need no bound: the totals of SQLite leave the
integers at `2 ^ 63`, those of Redis are rounded from `2 ^ 53` on, those of the memory store stay at
`u32::MAX`, and only `load` brings them together.
-/

namespace ProxyBroker.Persist
open Lib

variable {pr : Precision}

/-- The summaries of upserts that carry a time. -/
theorem summaries_snd (pr : Precision) (xs : List (ℤ × Proxy)) :
    summaries pr (xs.map Prod.snd) = tableOf (fun x => x.2.addr) (fun x => Summary.fold pr x.2) xs := by
  simp [summaries, tableOf, List.foldl_map]

/-! ## SQLite -/

namespace SqliteStore

/-- The row holds the summary. -/
structure Holds (pr : Precision) (s : Summary) (row : Row) : Prop where
  types : row.types = typesToJson s.types
  requests : row.requests.Counts pr s.requests
  errors : row.errors.Counts pr s.errors
  ewmaSuccess : row.ewmaSuccess = s.ewmaSuccess
  avgLatency : row.avgLatency = s.avgLatency
  uptimeChecks : row.uptimeChecks.Counts pr s.uptimeChecks

theorem Holds.first (x : ℤ × Proxy) : Holds pr (Summary.fold pr x.2 none) (fold pr x none) where
  types := rfl
  requests := .start pr _
  errors := .start pr _
  ewmaSuccess := rfl
  avgLatency := rfl
  uptimeChecks := .start pr _

theorem Holds.next {s : Summary} {row : Row} (holds : Holds pr s row) (x : ℤ × Proxy) :
    Holds pr (Summary.fold pr x.2 (some s)) (fold pr x (some row)) where
  types := by
    simp only [fold, update, values, Summary.fold, typesToJson_ne_nil, holds.types]
    split <;> rfl
  requests := holds.requests.add
  errors := holds.errors.add
  ewmaSuccess := by simp [fold, update, values, Summary.fold, holds.ewmaSuccess]
  avgLatency := by simp [fold, update, values, Summary.fold, holds.avgLatency]
  uptimeChecks := holds.uptimeChecks.add

theorem key_injective : Function.Injective key := by
  rintro ⟨h, p⟩ ⟨k, q⟩ same
  simp only [key, Prod.mk.injEq, Nat.cast_inj] at same
  rw [display_inj same.1, UInt16.toNat_inj.1 same.2]

/-- **The table holds the summaries.** -/
theorem holds_after (xs : List (ℤ × Proxy)) : Matches key (fun _ => Holds pr) (summaries pr (xs.map Prod.snd)) (after pr xs) := by
  rw [summaries_snd pr]
  refine matches_tableOf key_injective (fun x o o' rel => ?_) xs
  cases rel with
  | none => exact .first x
  | some holds => exact holds.next x

end SqliteStore

/-! ## Memory -/

namespace MemoryStore

structure Holds (s : Summary) (r : Record) : Prop where
  types : r.types = s.types
  requests : r.requests.toNat = min s.requests (2 ^ 32 - 1)
  errors : r.errors.toNat = min s.errors (2 ^ 32 - 1)
  ewmaSuccess : r.ewmaSuccess = s.ewmaSuccess
  avgLatency : r.avgLatency = s.avgLatency
  uptimeChecks : r.uptimeChecks.toNat = min s.uptimeChecks (2 ^ 64 - 1)

theorem toNat_eq_min (n : UInt32) : n.toNat = min n.toNat (2 ^ 32 - 1) := by
  have := n.toNat_lt
  omega

theorem toNat_saturatingAdd {a b : UInt32} {n : Nat} (h : a.toNat = min n (2 ^ 32 - 1)) :
    (saturatingAdd a b).toNat = min (n + b.toNat) (2 ^ 32 - 1) := by
  rw [saturatingAdd, UInt32.toNat_ofNat_of_lt' (by rw [UInt32.size]; omega), h]
  omega

theorem toNat_uptime (p : Proxy) : (UInt64.ofNat (uptime p)).toNat = uptime p := by
  unfold uptime
  split <;> rfl

theorem toNat_saturatingAdd64 {a b : UInt64} {n : Nat} (h : a.toNat = min n (2 ^ 64 - 1)) :
    (saturatingAdd64 a b).toNat = min (n + b.toNat) (2 ^ 64 - 1) := by
  rw [saturatingAdd64, UInt64.toNat_ofNat_of_lt' (by rw [UInt64.size]; omega), h]
  omega

theorem Holds.first (p : Proxy) : Holds (Summary.fold pr p none) (fold pr p none) where
  types := rfl
  requests := toNat_eq_min p.requests
  errors := toNat_eq_min p.errorTotal
  ewmaSuccess := rfl
  avgLatency := rfl
  uptimeChecks := by
    have small : uptime p ≤ 1 := by
      unfold uptime
      split <;> decide
    rw [fold, toNat_uptime]
    exact (min_eq_left (small.trans (by decide))).symm

theorem Holds.next {s : Summary} {r : Record} (holds : Holds s r) (p : Proxy) :
    Holds (Summary.fold pr p (some s)) (fold pr p (some r)) where
  types := by simp [fold, Summary.fold, Proxy.isWorking, holds.types]
  requests := toNat_saturatingAdd holds.requests
  errors := toNat_saturatingAdd holds.errors
  ewmaSuccess := by simp [fold, Summary.fold, holds.ewmaSuccess]
  avgLatency := by simp [fold, Summary.fold, holds.avgLatency]
  uptimeChecks := by
    have sum := toNat_saturatingAdd64 (b := UInt64.ofNat (uptime p)) holds.uptimeChecks
    rwa [toNat_uptime] at sum

/-- **The map holds the summaries.** -/
theorem holds_after (pr : Precision) (ps : List Proxy) : Matches id (fun _ => Holds) (summaries pr ps) (after pr ps) := by
  refine matches_tableOf Function.injective_id (fun p o o' rel => ?_) ps
  cases rel with
  | none => exact .first p
  | some holds => exact holds.next p

end MemoryStore

/-! ## Redis -/

namespace RedisStore

structure Holds (pr : Precision) (s : Summary) (h : Hash) : Prop where
  types : h.types = some (typesToJson s.types)
  requests : Counts pr h.requests s.requests
  errors : Counts pr h.errors s.errors
  ewmaSuccess : h.ewmaSuccess = some s.ewmaSuccess
  avgLatency : h.avgLatency = some s.avgLatency
  uptimeChecks : Counts pr h.uptimeChecks s.uptimeChecks

/-- Such a hash is not read as a missing one. -/
theorem Holds.ne_empty {s : Summary} {h : Hash} (holds : Holds pr s h) : h ≠ .empty := by
  rintro rfl
  cases holds.types

theorem Holds.first (x : ℤ × Proxy) : Holds pr (Summary.fold pr x.2 none) (fold pr x none) where
  types := by simp [fold, Hash.empty, Summary.fold]
  requests := .start pr _
  errors := .start pr _
  ewmaSuccess := rfl
  avgLatency := rfl
  uptimeChecks := .start pr _

theorem Holds.next {s : Summary} {h : Hash} (holds : Holds pr s h) (x : ℤ × Proxy) :
    Holds pr (Summary.fold pr x.2 (some s)) (fold pr x (some h)) where
  types := by
    simp only [fold, Option.getD_some, Summary.fold, typesToJson_ne_nil, holds.types]
    split <;> rfl
  requests := holds.requests.next
  errors := holds.errors.next
  ewmaSuccess := by simp [fold, num, Summary.fold, holds.ewmaSuccess, holds.ne_empty]
  avgLatency := by simp [fold, num, Summary.fold, holds.avgLatency, holds.ne_empty]
  uptimeChecks := holds.uptimeChecks.next

theorem hostColonPort_injective : Function.Injective fun a : Addr => hostColonPort a.1 a.2 := by
  rintro ⟨h, p⟩ ⟨k, q⟩ same
  obtain ⟨rfl, rfl⟩ := hostColonPort_inj same
  rfl

theorem proxyKey_injective : Function.Injective proxyKey := fun _ _ same =>
  hostColonPort_injective (List.append_cancel_left same)

theorem after_concat (xs : List (ℤ × Proxy)) (x : ℤ × Proxy) : after pr (xs ++ [x]) = eval pr x (after pr xs) := by
  simp [after]

theorem hashes_after (xs : List (ℤ × Proxy)) : (after pr xs).hashes = tableOf (fun x => proxyKey x.2.addr) (fold pr) xs := by
  induction xs using List.reverseRecOn with
  | nil => rfl
  | append_singleton xs x ih => rw [after_concat, tableOf_concat, eval, ih]

/-- **The hashes hold the summaries.** -/
theorem holds_after (xs : List (ℤ × Proxy)) :
    Matches proxyKey (fun _ => Holds pr) (summaries pr (xs.map Prod.snd)) (after pr xs).hashes := by
  rw [summaries_snd pr, hashes_after]
  refine matches_tableOf proxyKey_injective (fun x o o' rel => ?_) xs
  cases rel with
  | none => exact .first x
  | some holds => exact holds.next x

/-- **The members of the set** are the addresses of the summaries. -/
theorem members_after (xs : List (ℤ × Proxy)) :
    (after pr xs).members = (summaries pr (xs.map Prod.snd)).map fun r => hostColonPort r.1.1 r.1.2 := by
  have keyed (t : List (Addr × Summary)) : (t.map fun r => hostColonPort r.1.1 r.1.2) =
      (t.map Prod.fst).map fun a => hostColonPort a.1 a.2 := by simp
  rw [summaries_snd pr]
  induction xs using List.reverseRecOn with
  | nil => rfl
  | append_singleton xs x ih =>
    have known (as : List Addr) : hostColonPort x.2.host x.2.port ∈ as.map (fun a => hostColonPort a.1 a.2) ↔ x.2.addr ∈ as :=
      List.mem_map_of_injective hostColonPort_injective (a := x.2.addr)
    rw [after_concat, eval, ih, tableOf_concat, keyed, keyed, keys_upsert, sadd]
    split
    · rename_i old
      rw [if_pos ((known _).1 old)]
    · rename_i new
      rw [if_neg (mt (known _).2 new), List.map_append]
      rfl

end RedisStore

end ProxyBroker.Persist
