import ProxyBroker.Persist.Refine

/-!
# The record of an address

A record out of the encoding of its backend. After any upserts it is the summary of those of its address,
with the counters as the backend keeps them, and with the times of the first and of the last of them where
the backend has a clock. In binary64 this is so while the totals are below `2 ^ 53`, where doubles count exactly.
-/

namespace ProxyBroker.Persist
open Lib

inductive Backend where
  | sqlite | memory | redis
deriving DecidableEq, Repr

/-- The record of an address, out of the encoding of its backend. -/
structure Durable where
  types : TypeMap
  requests : ℚ
  errors : ℚ
  ewmaSuccess : ℚ
  avgLatency : ℚ
  firstSeen : Option ℤ
  lastSeen : Option ℤ
  uptimeChecks : ℚ

def SqliteStore.Row.durable (r : Row) : Durable :=
  ⟨typesFromJson r.types, r.requests.value, r.errors.value, r.ewmaSuccess, r.avgLatency, some r.firstSeen, some r.lastSeen,
    r.uptimeChecks.value⟩

def MemoryStore.Record.durable (r : Record) : Durable :=
  ⟨r.types, r.requests.toNat, r.errors.toNat, r.ewmaSuccess, r.avgLatency, none, none, r.uptimeChecks.toNat⟩

def RedisStore.Hash.durable (h : Hash) : Durable :=
  ⟨typesFromJson (h.types.getD []), num h.requests, num h.errors, num h.ewmaSuccess, num h.avgLatency, h.firstSeen, h.lastSeen,
    num h.uptimeChecks⟩

/-- What a backend stores about an address after the upserts `xs`. -/
def Backend.stored (b : Backend) (pr : Precision) (a : Addr) (xs : List (ℤ × Proxy)) : Option Durable :=
  match b with
  | .sqlite => (rowOf (SqliteStore.key a) (SqliteStore.after pr xs)).map SqliteStore.Row.durable
  | .memory => (rowOf a (MemoryStore.after pr (xs.map Prod.snd))).map MemoryStore.Record.durable
  | .redis => (rowOf (RedisStore.proxyKey a) (RedisStore.after pr xs).hashes).map RedisStore.Hash.durable

/-! ## What is to be stored -/

/-- A counter at `n`: those of the memory store stay at the largest value of their type. -/
def Backend.keeps (b : Backend) (most n : Nat) : Nat :=
  match b with
  | .memory => min n most
  | _ => n

theorem Backend.keeps_mono (b : Backend) {most n m : Nat} (le : n ≤ m) : b.keeps most n ≤ b.keeps most m := by
  cases b with
  | memory => exact min_le_min_right most le
  | sqlite => exact le
  | redis => exact le

/-- The times of the upserts of an address. -/
def timesOf (a : Addr) (xs : List (ℤ × Proxy)) : List ℤ := (xs.filter fun x => x.2.addr = a).map Prod.fst

/-- A time that the backend keeps: the memory store keeps none. -/
def Backend.clock (b : Backend) (time : Option ℤ) : Option ℤ :=
  match b with
  | .memory => none
  | _ => time

/-- The record that stands for a summary of upserts at `times`. -/
def Backend.shown (b : Backend) (times : List ℤ) (s : Summary) : Durable where
  types := s.types
  requests := b.keeps (2 ^ 32 - 1) s.requests
  errors := b.keeps (2 ^ 32 - 1) s.errors
  ewmaSuccess := s.ewmaSuccess
  avgLatency := s.avgLatency
  firstSeen := b.clock times.head?
  lastSeen := b.clock times.getLast?
  uptimeChecks := b.keeps (2 ^ 64 - 1) s.uptimeChecks

/-! ## Every backend stores it -/

section
variable {pr : Precision} {a : Addr} {xs : List (ℤ × Proxy)} {s : Summary}

namespace SqliteStore

theorem rowOf_after (a : Addr) (xs : List (ℤ × Proxy)) :
    rowOf (key a) (after pr xs) = foldRow (fold pr) (xs.filter fun x => x.2.addr = a) :=
  rowOf_tableOf_comp key_injective xs a

/-- The first upsert of an address sets `first_seen`. -/
theorem firstSeen_after {row : Row} (found : rowOf (key a) (after pr xs) = some row) : (timesOf a xs).head? = some row.firstSeen := by
  rw [rowOf_after] at found
  have keeps (x : ℤ × Proxy) (o : Option Row) : some (fold pr x o).firstSeen = some ((o.bind fun r => some r.firstSeen).getD x.1) := by
    cases o <;> rfl
  have first := foldRow_first (fun r : Row => some r.firstSeen) keeps (xs.filter fun x => x.2.addr = a)
  rw [found] at first
  exact first.symm

/-- Every upsert of an address sets `last_seen`. -/
theorem lastSeen_after {row : Row} (found : rowOf (key a) (after pr xs) = some row) : (timesOf a xs).getLast? = some row.lastSeen := by
  rw [rowOf_after] at found
  have writes (x : ℤ × Proxy) (o : Option Row) : some (fold pr x o).lastSeen = some x.1 := by
    cases o <;> rfl
  have last := foldRow_last (fun r : Row => some r.lastSeen) writes (xs.filter fun x => x.2.addr = a)
  rw [found] at last
  exact last.symm

theorem value_of_counts {c : SqlNum} {n : Nat} (counts : c.Counts pr n) (room : pr = .binary64 → n < 2 ^ 53) : c.value = n := by
  cases pr with
  | exact => exact counts.value rfl
  | binary64 =>
    rw [counts.whole ((room rfl).trans (by norm_num))]
    exact SqlNum.value_int n

theorem durable_eq {row : Row} (found : rowOf (key a) (after pr xs) = some row) (holds : Holds pr s row)
    (room : pr = .binary64 → s.Below (2 ^ 53)) : row.durable = Backend.sqlite.shown (timesOf a xs) s := by
  rw [Row.durable, Backend.shown, holds.types, typesFromJson_typesToJson,
    value_of_counts holds.requests fun binary64 => (room binary64).requests,
    value_of_counts holds.errors fun binary64 => (room binary64).errors, holds.ewmaSuccess, holds.avgLatency,
    value_of_counts holds.uptimeChecks fun binary64 => (room binary64).uptimeChecks, firstSeen_after found, lastSeen_after found]
  rfl

end SqliteStore

namespace MemoryStore

theorem durable_eq {r : Record} (times : List ℤ) (holds : Holds s r) : r.durable = Backend.memory.shown times s := by
  rw [Record.durable, Backend.shown, holds.types, holds.requests, holds.errors, holds.ewmaSuccess, holds.avgLatency,
    holds.uptimeChecks]
  rfl

end MemoryStore

namespace RedisStore

theorem rowOf_after (a : Addr) (xs : List (ℤ × Proxy)) :
    rowOf (proxyKey a) (after pr xs).hashes = foldRow (fold pr) (xs.filter fun x => x.2.addr = a) := by
  rw [hashes_after]
  exact rowOf_tableOf_comp proxyKey_injective xs a

theorem firstSeen_after {h : Hash} (found : rowOf (proxyKey a) (after pr xs).hashes = some h) : (timesOf a xs).head? = h.firstSeen := by
  rw [rowOf_after] at found
  have keeps (x : ℤ × Proxy) (o : Option Hash) : (fold pr x o).firstSeen = some ((o.bind Hash.firstSeen).getD x.1) := by
    cases o with
    | none => rfl
    | some h =>
      by_cases missing : h = .empty
      · subst missing
        rfl
      · simp [fold, missing]
  have first := foldRow_first Hash.firstSeen keeps (xs.filter fun x => x.2.addr = a)
  rw [found] at first
  exact first.symm

theorem lastSeen_after {h : Hash} (found : rowOf (proxyKey a) (after pr xs).hashes = some h) : (timesOf a xs).getLast? = h.lastSeen := by
  rw [rowOf_after] at found
  have writes (x : ℤ × Proxy) (o : Option Hash) : (fold pr x o).lastSeen = some x.1 := rfl
  have last := foldRow_last Hash.lastSeen writes (xs.filter fun x => x.2.addr = a)
  rw [found] at last
  exact last.symm

theorem num_of_counts {field : Option ℚ} {n : Nat} (counts : Counts pr field n) (room : pr = .binary64 → n < 2 ^ 53) :
    num field = n := by
  cases pr with
  | exact => exact counts.exact rfl
  | binary64 => exact counts.small (room rfl).le

theorem durable_eq {h : Hash} (found : rowOf (proxyKey a) (after pr xs).hashes = some h) (holds : Holds pr s h)
    (room : pr = .binary64 → s.Below (2 ^ 53)) : h.durable = Backend.redis.shown (timesOf a xs) s := by
  rw [Hash.durable, Backend.shown, holds.types, Option.getD_some, typesFromJson_typesToJson,
    num_of_counts holds.requests fun binary64 => (room binary64).requests,
    num_of_counts holds.errors fun binary64 => (room binary64).errors, holds.ewmaSuccess, holds.avgLatency,
    num_of_counts holds.uptimeChecks fun binary64 => (room binary64).uptimeChecks, firstSeen_after found, lastSeen_after found]
  rfl

end RedisStore

theorem map_of_rel {α β γ : Type} {R : α → β → Prop} {f : β → γ} {g : α → γ} {o : Option α} {o' : Option β} (rel : Option.Rel R o o')
    (same : ∀ x y, o = some x → o' = some y → R x y → f y = g x) : o'.map f = o.map g := by
  cases rel with
  | none => rfl
  | some related => exact congrArg some (same _ _ rfl rfl related)

/-- **Every backend stores the summary** of the upserts of an address. -/
theorem Backend.stored_eq (b : Backend) (pr : Precision) (a : Addr) (xs : List (ℤ × Proxy))
    (room : pr = .binary64 → TotalsBelow (2 ^ 53) (upsertsOf a (xs.map Prod.snd))) :
    b.stored pr a xs = (summary pr (upsertsOf a (xs.map Prod.snd))).map (b.shown (timesOf a xs)) := by
  rw [← rowOf_summaries]
  have below {s : Summary} (remembered : rowOf a (summaries pr (xs.map Prod.snd)) = some s) (binary64 : pr = .binary64) :
      s.Below (2 ^ 53) := by
    rw [rowOf_summaries] at remembered
    exact (summary_totals remembered).below (room binary64)
  cases b with
  | sqlite =>
    exact map_of_rel ((SqliteStore.holds_after xs).rowOf SqliteStore.key_injective a) fun _ _ remembered found holds =>
      SqliteStore.durable_eq found holds (below remembered)
  | memory =>
    exact map_of_rel ((MemoryStore.holds_after pr _).rowOf Function.injective_id a) fun _ _ _ _ holds => MemoryStore.durable_eq _ holds
  | redis =>
    exact map_of_rel ((RedisStore.holds_after xs).rowOf RedisStore.proxyKey_injective a) fun _ _ remembered found holds =>
      RedisStore.durable_eq found holds (below remembered)

end

end ProxyBroker.Persist
