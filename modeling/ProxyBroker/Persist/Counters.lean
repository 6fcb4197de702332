import ProxyBroker.Persist.Load
import ProxyBroker.Persist.Sanity

/-!
# The durable counters of one address

The stores keep sums, and `load` reads them as `u32`: SQLite with `as u32`, which wraps, the memory store out
of a `u32` that saturates, Redis with `parse`, which fails above `u32::MAX` and then counts as `0`. `read` is
this reading of a sum. The saturating one never falls; the other two fall exactly when a sum first passes
`u32::MAX`.
-/

namespace ProxyBroker.Persist
open Lib

/-- The first proxy that `load` returns after the upserts `xs`. -/
def Backend.loaded : Backend → List (ℤ × Proxy) → Option Proxy
  | .sqlite, xs => (SqliteStore.load (SqliteStore.after .binary64 xs)).bind List.head?
  | .memory, xs => (MemoryStore.load (MemoryStore.after .binary64 (xs.map Prod.snd))).head?
  | .redis, xs => (RedisStore.load (RedisStore.after .binary64 xs).hashes (RedisStore.after .binary64 xs).members).head?

/-- No upsert of `xs` lowers `requests()` or the errors of the loaded proxy. -/
def Backend.NeverBackwards (b : Backend) (xs : List (ℤ × Proxy)) : Prop :=
  ∀ before x rest, xs = before ++ x :: rest → ∀ p, b.loaded before = some p →
    ∃ p', b.loaded (before ++ [x]) = some p' ∧ p.requests ≤ p'.requests ∧ p.errorTotal ≤ p'.errorTotal

/-- The `u32` that is read where the sum is `n`. -/
def Backend.read : Backend → ℕ → ℕ
  | .sqlite, n => n % 2 ^ 32
  | .memory, n => min n (2 ^ 32 - 1)
  | .redis, n => if n < 2 ^ 32 then n else 0

theorem Backend.read_of_lt (b : Backend) {n : ℕ} (lt : n < 2 ^ 32) : b.read n = n := by
  cases b with
  | sqlite => exact Nat.mod_eq_of_lt lt
  | memory => exact min_eq_left (by omega)
  | redis => exact if_pos lt

theorem Backend.read_memory_mono {n m : ℕ} (le : n ≤ m) : Backend.memory.read n ≤ Backend.memory.read m :=
  min_le_min_right _ le

/-- Past `u32::MAX` the reading falls, unless it saturates. -/
theorem Backend.read_lt {b : Backend} (wraps : b ≠ .memory) {n k : ℕ} (lt : n < 2 ^ 32) (small : k < 2 ^ 32)
    (past : 2 ^ 32 ≤ n + k) : b.read (n + k) < n := by
  cases b with
  | sqlite =>
    rw [Backend.read, Nat.mod_eq_sub_mod past, Nat.mod_eq_of_lt (by omega)]
    omega
  | memory => exact absurd rfl wraps
  | redis =>
    rw [Backend.read, if_neg (by omega)]
    omega

/-- What `load` makes of a row, as counters. -/
structure Reads (b : Backend) (s : Summary) (p : Proxy) : Prop where
  requests : p.requests.toNat = b.read s.requests
  errors : p.errorTotal.toNat = b.read s.errors

theorem errorTotal_restored (host : IpAddr) (port : UInt16) (types : TypeMap) (requests errorsTotal : UInt32) (avgRespTime : ℚ) :
    (Proxy.restored host port types requests errorsTotal avgRespTime).errorTotal = errorsTotal := by
  rw [Proxy.restored, Proxy.errorTotal]
  split
  · simp
  · rename_i zero
    simp only [List.foldl_nil]
    exact UInt32.toNat_inj.1 (by simpa [UInt32.lt_iff_toNat_lt, eq_comm] using zero)

theorem reads_restored {b : Backend} {s : Summary} {requests errorsTotal : UInt32} (requestsRead : requests.toNat = b.read s.requests)
    (errorsRead : errorsTotal.toNat = b.read s.errors) (host : IpAddr) (port : UInt16) (types : TypeMap) (avgRespTime : ℚ)
    (ewmaSuccess : Option ℚ) :
    Reads b s ((Proxy.restored host port types requests errorsTotal avgRespTime).withEwma ewmaSuccess) where
  requests := requestsRead
  errors := by
    have same := congrArg UInt32.toNat (errorTotal_restored host port types requests errorsTotal avgRespTime)
    exact same.trans errorsRead

/-! ## One row -/

/-- The upserts of one address leave one summary. -/
theorem summaries_of_one {a : Addr} {ps : List Proxy} {s : Summary} (one : ∀ p ∈ ps, p.addr = a) (h : summary .binary64 ps = some s) :
    summaries .binary64 ps = [(a, s)] := by
  refine summary_induction (P := fun ps s => (∀ p ∈ ps, p.addr = a) → summaries .binary64 ps = [(a, s)]) ?_ ?_ h one
  · intro p one
    simp [summaries, tableOf, upsert, one p]
  · intro ps s p _ ih one
    have before := ih fun q mem => one q (List.mem_append_left _ mem)
    rw [summaries] at before
    rw [summaries, tableOf_concat, before, one p (by simp)]
    simp [upsert]

variable {a : Addr} {xs : List (ℤ × Proxy)} {s : Summary}

theorem sqlite_loaded (table : summaries .binary64 (xs.map Prod.snd) = [(a, s)]) (requests : s.requests < 2 ^ 63) (errors : s.errors < 2 ^ 63) :
    ∃ p, Backend.sqlite.loaded xs = some p ∧ Reads .sqlite s p := by
  have hit := @SqliteStore.holds_after .binary64 xs
  rw [table] at hit
  obtain ⟨row, rows, ⟨key, holds⟩, none_left, after⟩ := List.forall₂_cons_left_iff.1 hit
  rw [List.forall₂_nil_left_iff.1 none_left] at after
  have wrapped (n : ℕ) : (UInt32.ofInt n).toNat = n % 2 ^ 32 := by
    have lt : n % 2 ^ 32 < 2 ^ 32 := Nat.mod_lt _ (by norm_num)
    rw [UInt32.ofInt, show (n : ℤ) % 2 ^ 32 = ((n % 2 ^ 32 : ℕ) : ℤ) by norm_cast, Int.toNat_natCast,
      UInt32.toNat_ofNat_of_lt' lt]
  have one : SqliteStore.load [row] = some [(Proxy.restored a.1 a.2 s.types (UInt32.ofInt s.requests) (UInt32.ofInt s.errors)
      s.avgLatency).withEwma (some s.ewmaSuccess)] := by
    have entry : row = (SqliteStore.key a, row.2) := Prod.ext key rfl
    rw [entry]
    simp only [SqliteStore.load, SqliteStore.loadRow, SqliteStore.key, holds.requests.whole requests, holds.errors.whole errors,
      SqlNum.getI64, parse_display, Option.bind_eq_bind, Option.bind_some, SqliteStore.ofInt_port, holds.types,
      typesFromJson_typesToJson, holds.avgLatency, holds.ewmaSuccess]
    rfl
  refine ⟨_, ?_, reads_restored (wrapped s.requests) (wrapped s.errors) a.1 a.2 s.types s.avgLatency (some s.ewmaSuccess)⟩
  rw [Backend.loaded, after, one]
  rfl

theorem memory_loaded (table : summaries .binary64 (xs.map Prod.snd) = [(a, s)]) :
    ∃ p, Backend.memory.loaded xs = some p ∧ Reads .memory s p := by
  have hit := MemoryStore.holds_after .binary64 (xs.map Prod.snd)
  rw [table] at hit
  obtain ⟨entry, entries, ⟨-, holds⟩, none_left, after⟩ := List.forall₂_cons_left_iff.1 hit
  rw [List.forall₂_nil_left_iff.1 none_left] at after
  refine ⟨MemoryStore.loadEntry entry, ?_, reads_restored holds.requests holds.errors ..⟩
  rw [Backend.loaded, after]
  rfl

theorem parseU32_of_le {x : ℚ} (le : 2 ^ 32 ≤ x) : RedisStore.parseU32 x = none := by
  rw [RedisStore.parseU32, if_neg]
  rintro ⟨whole, -, lt⟩
  have value : (x.num : ℚ) = x := Rat.coe_int_num_of_den_eq_one whole
  rw [← value] at le
  exact absurd lt (not_lt.2 (by exact_mod_cast le))

/-- A sum past `2 ^ 53` may be rounded, and does not fit either way. -/
theorem toNat_parse {field : Option ℚ} {n : ℕ} (counts : RedisStore.Counts .binary64 field n) :
    ((field.bind RedisStore.parseU32).getD 0).toNat = Backend.redis.read n := by
  rcases lt_or_ge n (2 ^ 32) with lt | le
  · rw [RedisStore.parse_of_counts counts lt, Option.getD_some, Backend.read_of_lt _ lt, UInt32.toNat_ofNat_of_lt' lt]
  · have past : 2 ^ 32 ≤ RedisStore.num field := by
      rcases le_or_gt n (2 ^ 53) with small | large
      · rw [counts.small small]
        exact_mod_cast le
      · exact le_trans (by norm_num) (counts.large large)
    rw [counts.set, Option.bind_some, parseU32_of_le past, Option.getD_none, Backend.read, if_neg (not_lt.2 le), UInt32.toNat_zero]

theorem reads_of_holds {host : IpAddr} {port : UInt16} {h : RedisStore.Hash} (holds : RedisStore.Holds .binary64 s h) :
    ∃ p, RedisStore.loadHash host port h = some p ∧ Reads .redis s p := by
  rw [RedisStore.loadHash, if_neg holds.ne_empty]
  exact ⟨_, rfl, reads_restored (toNat_parse holds.requests) (toNat_parse holds.errors) ..⟩

theorem redis_loaded (table : summaries .binary64 (xs.map Prod.snd) = [(a, s)]) :
    ∃ p, Backend.redis.loaded xs = some p ∧ Reads .redis s p := by
  obtain ⟨h, found, holds⟩ := @RedisStore.hash_of_mem .binary64 xs (a, s) (by rw [table]; exact List.mem_singleton_self _)
  obtain ⟨p, loaded, reads⟩ := @reads_of_holds s a.1 a.2 h holds
  have one : RedisStore.loadMember (RedisStore.after .binary64 xs).hashes (hostColonPort a.1 a.2) = some p :=
    (RedisStore.loadMember_eq found).trans loaded
  refine ⟨p, ?_, reads⟩
  rw [Backend.loaded, RedisStore.members_after, table, List.map_singleton, RedisStore.load, List.filterMap_cons_some one,
    List.head?_cons]

/-- **What is loaded** for one address: its sums, as the backend reads them. -/
theorem loaded_reads (b : Backend) (one : ∀ x ∈ xs, x.2.addr = a) (h : summary .binary64 (xs.map Prod.snd) = some s)
    (fits : b = .sqlite → s.requests < 2 ^ 63 ∧ s.errors < 2 ^ 63) : ∃ p, b.loaded xs = some p ∧ Reads b s p := by
  have table : summaries .binary64 (xs.map Prod.snd) = [(a, s)] := by
    apply summaries_of_one _ h
    intro p mem
    obtain ⟨x, there, rfl⟩ := List.mem_map.1 mem
    exact one x there
  cases b with
  | sqlite => exact sqlite_loaded table (fits rfl).1 (fits rfl).2
  | memory => exact memory_loaded table
  | redis => exact redis_loaded table

theorem loaded_nil (b : Backend) : b.loaded [] = none := by
  cases b <;> rfl

/-! ## A run of upserts -/

/-- The sums of the requests and of the errors of `xs`. -/
def requestsOf (xs : List (ℤ × Proxy)) : ℕ := total (fun p => p.requests.toNat) (xs.map Prod.snd)

def errorsOf (xs : List (ℤ × Proxy)) : ℕ := total (fun p => p.errorTotal.toNat) (xs.map Prod.snd)

theorem total_append (f : Proxy → Nat) (ps qs : List Proxy) : total f (ps ++ qs) = total f ps + total f qs := by
  simp [total]

theorem requestsOf_concat (xs : List (ℤ × Proxy)) (x : ℤ × Proxy) : requestsOf (xs ++ [x]) = requestsOf xs + x.2.requests.toNat := by
  simp [requestsOf, total]

theorem errorsOf_concat (xs : List (ℤ × Proxy)) (x : ℤ × Proxy) : errorsOf (xs ++ [x]) = errorsOf xs + x.2.errorTotal.toNat := by
  simp [errorsOf, total]

theorem requestsOf_append (xs ys : List (ℤ × Proxy)) : requestsOf xs ≤ requestsOf (xs ++ ys) := by
  simp [requestsOf, total_append]

theorem errorsOf_append (xs ys : List (ℤ × Proxy)) : errorsOf xs ≤ errorsOf (xs ++ ys) := by
  simp [errorsOf, total_append]

/-- What is loaded after at least one upsert, over the sums of the run. -/
theorem exists_loaded (b : Backend) (nonempty : xs ≠ []) (one : ∀ x ∈ xs, x.2.addr = a)
    (fits : b = .sqlite → requestsOf xs < 2 ^ 63 ∧ errorsOf xs < 2 ^ 63) :
    ∃ p, b.loaded xs = some p ∧ p.requests.toNat = b.read (requestsOf xs) ∧ p.errorTotal.toNat = b.read (errorsOf xs) := by
  have some_summary : summary .binary64 (xs.map Prod.snd) ≠ none := by
    rw [Ne, summary_eq_none, List.map_eq_nil_iff]
    exact nonempty
  obtain ⟨s, found⟩ := Option.ne_none_iff_exists'.1 some_summary
  have totals := summary_totals found
  obtain ⟨p, loaded, reads⟩ := loaded_reads b one found fun sqlite => by rw [totals.requests, totals.errors]; exact fits sqlite
  exact ⟨p, loaded, by rw [reads.requests, totals.requests]; rfl, by rw [reads.errors, totals.errors]; rfl⟩

/-- **One more upsert** does not lower what is loaded, where the reading of the sums does not fall. -/
theorem step_up {b : Backend} {x : ℤ × Proxy} {p : Proxy} (one : ∀ y ∈ xs ++ [x], y.2.addr = a)
    (fits : b = .sqlite → requestsOf (xs ++ [x]) < 2 ^ 63 ∧ errorsOf (xs ++ [x]) < 2 ^ 63)
    (requests : b.read (requestsOf xs) ≤ b.read (requestsOf (xs ++ [x])))
    (errors : b.read (errorsOf xs) ≤ b.read (errorsOf (xs ++ [x]))) (loaded : b.loaded xs = some p) :
    ∃ p', b.loaded (xs ++ [x]) = some p' ∧ p.requests ≤ p'.requests ∧ p.errorTotal ≤ p'.errorTotal := by
  have nonempty : xs ≠ [] := by
    rintro rfl
    rw [loaded_nil] at loaded
    cases loaded
  have smaller (sqlite : b = .sqlite) : requestsOf xs < 2 ^ 63 ∧ errorsOf xs < 2 ^ 63 :=
    ⟨(requestsOf_append xs [x]).trans_lt (fits sqlite).1, (errorsOf_append xs [x]).trans_lt (fits sqlite).2⟩
  obtain ⟨q, loaded', requestsRead, errorsRead⟩ :=
    exists_loaded b nonempty (fun y mem => one y (List.mem_append_left _ mem)) smaller
  obtain ⟨p', next, requestsRead', errorsRead'⟩ := exists_loaded b (by simp) one fits
  rw [loaded] at loaded'
  cases loaded'
  refine ⟨p', next, ?_, ?_⟩
  · rw [UInt32.le_iff_toNat_le, requestsRead, requestsRead']
    exact requests
  · rw [UInt32.le_iff_toNat_le, errorsRead, errorsRead']
    exact errors

/-- Where no upsert lowers the counters, the sums of every prefix stay in `u32`. -/
theorem small_of_neverBackwards {b : Backend} (wraps : b ≠ .memory) (one : ∀ x ∈ xs, x.2.addr = a) (never : b.NeverBackwards xs)
    {before rest : List (ℤ × Proxy)} (split : xs = before ++ rest) : requestsOf before < 2 ^ 32 ∧ errorsOf before < 2 ^ 32 := by
  induction before using List.reverseRecOn generalizing rest with
  | nil => exact ⟨by decide, by decide⟩
  | append_singleton before x ih =>
    rw [List.append_assoc, List.singleton_append] at split
    obtain ⟨requests, errors⟩ := ih split
    have requests_lt := x.2.requests.toNat_lt
    have errors_lt := x.2.errorTotal.toNat_lt
    rw [requestsOf_concat, errorsOf_concat]
    have one_before (y) (mem : y ∈ before ++ [x]) : y.2.addr = a := by
      apply one
      rw [split]
      rcases List.mem_append.1 mem with old | new
      · exact List.mem_append_left _ old
      · exact List.mem_append_right _ (by simp_all)
    by_cases empty : before = []
    · subst empty
      exact ⟨by simpa [requestsOf, total] using requests_lt, by simpa [errorsOf, total] using errors_lt⟩
    · obtain ⟨p, loaded, requestsRead, errorsRead⟩ :=
        exists_loaded b empty (fun y mem => one_before y (List.mem_append_left _ mem)) fun _ => by omega
      obtain ⟨p', next, requests_le, errors_le⟩ := never before x rest split p loaded
      obtain ⟨q, next', requestsRead', errorsRead'⟩ := exists_loaded b (by simp) one_before fun _ => by
        rw [requestsOf_concat, errorsOf_concat]
        omega
      rw [next] at next'
      cases next'
      rw [UInt32.le_iff_toNat_le, requestsRead, requestsRead', b.read_of_lt requests, requestsOf_concat] at requests_le
      rw [UInt32.le_iff_toNat_le, errorsRead, errorsRead', b.read_of_lt errors, errorsOf_concat] at errors_le
      -- past `u32::MAX` the reading would have fallen
      constructor
      · by_contra past
        have falls := Backend.read_lt wraps requests requests_lt (not_lt.1 past)
        omega
      · by_contra past
        have falls := Backend.read_lt wraps errors errors_lt (not_lt.1 past)
        omega

/-- **When durable counters never run backwards**: always in the memory store, and in SQLite and in Redis
exactly when the sums of the run stay in `u32`. -/
theorem neverBackwards_iff (a : Addr) (xs : List (ℤ × Proxy)) (one : ∀ x ∈ xs, x.2.addr = a) :
    ∀ b : Backend, b.NeverBackwards xs ↔ b = .memory ∨ (requestsOf xs < 2 ^ 32 ∧ errorsOf xs < 2 ^ 32) := by
  intro b
  constructor
  · intro never
    by_cases memory : b = .memory
    · exact Or.inl memory
    · exact Or.inr (small_of_neverBackwards memory one never (List.append_nil xs).symm)
  · intro holds before x rest split p loaded
    have one_before (y) (mem : y ∈ before ++ [x]) : y.2.addr = a := by
      apply one
      rw [split, ← List.singleton_append, ← List.append_assoc]
      exact List.mem_append_left _ mem
    have requests := requestsOf_append before [x]
    have errors := errorsOf_append before [x]
    rcases holds with rfl | ⟨requests_lt, errors_lt⟩
    · refine step_up one_before ?_ (Backend.read_memory_mono requests) (Backend.read_memory_mono errors) loaded
      intro sqlite
      cases sqlite
    · rw [split, ← List.singleton_append, ← List.append_assoc] at requests_lt errors_lt
      have requests_small := (requestsOf_append (before ++ [x]) rest).trans_lt requests_lt
      have errors_small := (errorsOf_append (before ++ [x]) rest).trans_lt errors_lt
      apply step_up one_before _ _ _ loaded
      · intro _
        omega
      · rw [b.read_of_lt requests_small, b.read_of_lt (by omega)]
        exact requests
      · rw [b.read_of_lt errors_small, b.read_of_lt (by omega)]
        exact errors

theorem neverBackwards_iff_twice :
    Backend.sqlite.NeverBackwards [(100, workedOnce), (160, failedOnce)] ↔
      Backend.sqlite = .memory ∨ (requestsOf [(100, workedOnce), (160, failedOnce)] < 2 ^ 32 ∧
        errorsOf [(100, workedOnce), (160, failedOnce)] < 2 ^ 32) :=
  neverBackwards_iff workedOnce.addr [(100, workedOnce), (160, failedOnce)]
    (by simp [workedOnce, failedOnce, Proxy.addr, Proxy.addType, Proxy.restored, Proxy.new]) .sqlite

/-- A check with `2 ^ 31` requests. -/
def busy : Proxy := Proxy.restored (.v4 0x01010101) 8080 (fun _ => none) 0x80000000 0 0

/-- After two such checks SQLite loads `0` requests, and so does Redis. -/
theorem two_busy_checks_run_backwards :
    ¬ Backend.sqlite.NeverBackwards [(100, busy), (160, busy)] ∧ ¬ Backend.redis.NeverBackwards [(100, busy), (160, busy)] := by
  have one : ∀ x ∈ [((100 : ℤ), busy), (160, busy)], x.2.addr = busy.addr := by simp
  have past : requestsOf [(100, busy), (160, busy)] = 2 ^ 32 := by decide
  constructor
  · intro never
    have small := (small_of_neverBackwards (by decide) one never (List.append_nil _).symm).1
    omega
  · intro never
    have small := (small_of_neverBackwards (by decide) one never (List.append_nil _).symm).1
    omega

end ProxyBroker.Persist
