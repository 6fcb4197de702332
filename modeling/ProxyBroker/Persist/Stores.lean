import ProxyBroker.Lib.IpText
import ProxyBroker.Lib.Precision
import ProxyBroker.Persist.Record

/-!
# The three stores (`persist.rs`)

Each backend as its statements do it: the `INSERT .. ON CONFLICT` of SQLite with its storage classes, the
Lua script over Redis hashes, and the Rust fold over a `HashMap`. Doubles are computed in a `Precision`, which is
binary64 in the source: the averages, the counters of SQLite that leave `i64`, and all the numbers of Lua.

A query without an order, the members of a Redis set and a `HashMap` come in any order: `load` is given
its rows, members or entries in the order in which they came.
-/

namespace ProxyBroker.Persist
open Lib

/-! ## SQLite -/

/-- A value of the storage class INTEGER or REAL. -/
inductive SqlNum where
  | int (n : ℤ)
  | real (x : ℚ)
deriving DecidableEq

namespace SqlNum

def value : SqlNum → ℚ
  | int n => n
  | real x => x

/-- The integers of SQLite are `i64`. -/
def Fits (n : ℤ) : Prop := -2 ^ 63 ≤ n ∧ n < 2 ^ 63

instance (n : ℤ) : Decidable (Fits n) := inferInstanceAs (Decidable (_ ∧ _))

/-- `+`. A sum of integers that does not fit is that of the integers as REALs. -/
def add (pr : Precision) : SqlNum → SqlNum → SqlNum
  | int a, int b => if Fits (a + b) then int (a + b) else real (pr.add (pr.round a) (pr.round b))
  | a, b => real (pr.add (pr.round a.value) (pr.round b.value))

/-- The INTEGER affinity of a column: a REAL is stored as the integer it is. -/
def toInteger : SqlNum → SqlNum
  | int n => int n
  | real x => if x.den = 1 ∧ Fits x.num then int x.num else real x

/-- `row.get::<_, i64>`, which refuses a REAL. -/
def getI64 : SqlNum → Option ℤ
  | int n => some n
  | real _ => none

@[simp] theorem value_int (n : ℤ) : (int n).value = n := rfl

theorem value_add (a b : SqlNum) : (a.add .exact b).value = a.value + b.value := by
  cases a with
  | int m =>
    cases b with
    | int n =>
      rw [add]
      split
      · simp [value]
      · rfl
    | real y => rfl
  | real x => rfl

theorem value_toInteger (a : SqlNum) : a.toInteger.value = a.value := by
  cases a with
  | int n => rfl
  | real x =>
    simp only [toInteger]
    split
    · rename_i whole
      exact Rat.coe_int_num_of_den_eq_one whole.1
    · rfl

/-- A column that counts to `n`: as an integer while `n` fits, and beyond that where REALs are exact. -/
structure Counts (pr : Precision) (c : SqlNum) (n : Nat) : Prop where
  value : pr = .exact → c.value = n
  whole : n < 2 ^ 63 → c = int n

theorem Counts.start (pr : Precision) (k : Nat) : Counts pr (int k) k := ⟨fun _ => by simp, fun _ => rfl⟩

theorem Counts.add {pr : Precision} {c : SqlNum} {n k : Nat} (counts : Counts pr c n) :
    Counts pr (c.add pr (int k)).toInteger (n + k) where
  value exact := by
    have before := counts.value exact
    subst exact
    rw [value_toInteger, value_add, before, value_int]
    push_cast
    ring
  whole lt := by
    have fits : Fits ((n : ℤ) + k) := by
      rw [Fits]
      norm_num at lt ⊢
      omega
    rw [counts.whole (Nat.lt_of_le_of_lt (Nat.le_add_right n k) lt)]
    rw [SqlNum.add, if_pos fits, toInteger, Nat.cast_add]

end SqlNum

namespace SqliteStore

/-- The primary key `(host, port)`. -/
abbrev Key := Text × ℤ

def key (a : Addr) : Key := (a.1.display, a.2.toNat)

/-- The other columns. -/
structure Row where
  types : Json
  requests : SqlNum
  errors : SqlNum
  ewmaSuccess : ℚ
  avgLatency : ℚ
  firstSeen : ℤ
  lastSeen : ℤ
  uptimeChecks : SqlNum

/-- The `VALUES` row. -/
def values (now : ℤ) (p : Proxy) : Row where
  types := typesToJson p.types
  requests := .int p.requests.toNat
  errors := .int p.errorTotal.toNat
  ewmaSuccess := sample p
  avgLatency := p.avgRespTime
  firstSeen := now
  lastSeen := now
  uptimeChecks := .int (uptime p)

section
variable (pr : Precision)

/-- `DO UPDATE SET`. -/
def update (excluded row : Row) : Row where
  types := if excluded.types ≠ [] then excluded.types else row.types
  requests := (row.requests.add pr excluded.requests).toInteger
  errors := (row.errors.add pr excluded.errors).toInteger
  ewmaSuccess := pr.ewma excluded.ewmaSuccess row.ewmaSuccess
  avgLatency := if 0 < excluded.avgLatency then pr.ewma excluded.avgLatency row.avgLatency else row.avgLatency
  firstSeen := row.firstSeen
  lastSeen := excluded.lastSeen
  uptimeChecks := (row.uptimeChecks.add pr excluded.uptimeChecks).toInteger

/-- The row after the statement, out of the row before it. -/
def fold (x : ℤ × Proxy) : Option Row → Row
  | none => values x.1 x.2
  | some row => update pr (values x.1 x.2) row

/-- The statement, on the table. -/
def execute (x : ℤ × Proxy) (db : List (Key × Row)) : List (Key × Row) := upsert (key x.2.addr) (fold pr x) db

/-- The table after the upserts `xs`, each with the time of its clock. -/
def after (xs : List (ℤ × Proxy)) : List (Key × Row) := xs.foldl (fun db x => execute pr x db) []

end

/-- One row of the query. `port as u16` and `requests as u32` wrap; a host that does not parse is skipped. -/
def loadRow (r : Key × Row) : Option (Option Proxy) := do
  let requests ← r.2.requests.getI64
  let errors ← r.2.errors.getI64
  match parseIpAddr r.1.1 with
  | none => return none
  | some host =>
    return some ((Proxy.restored host (UInt16.ofInt r.1.2) (typesFromJson r.2.types)
      (UInt32.ofInt requests) (UInt32.ofInt errors) r.2.avgLatency).withEwma (some r.2.ewmaSuccess))

/-- `SqliteStore::load`; the first row that fails fails the load. -/
def load : List (Key × Row) → Option (List Proxy)
  | [] => some []
  | r :: rows => do
    let p ← loadRow r
    let out ← load rows
    return p.toList ++ out

end SqliteStore

/-! ## Memory -/

namespace MemoryStore

/-- `u32::saturating_add`. -/
def saturatingAdd (a b : UInt32) : UInt32 := UInt32.ofNat (min (a.toNat + b.toNat) (2 ^ 32 - 1))

/-- `u64::saturating_add`. -/
def saturatingAdd64 (a b : UInt64) : UInt64 := UInt64.ofNat (min (a.toNat + b.toNat) (2 ^ 64 - 1))

structure Record where
  types : TypeMap
  requests : UInt32
  errors : UInt32
  ewmaSuccess : ℚ
  avgLatency : ℚ
  uptimeChecks : UInt64

/-- `and_modify` and `or_insert_with`. -/
def fold (pr : Precision) (p : Proxy) : Option Record → Record
  | none =>
    { types := p.types
      requests := p.requests
      errors := p.errorTotal
      ewmaSuccess := sample p
      avgLatency := p.avgRespTime
      uptimeChecks := UInt64.ofNat (uptime p) }
  | some r =>
    { types := if !p.typeKeys.isEmpty then p.types else r.types
      requests := saturatingAdd r.requests p.requests
      errors := saturatingAdd r.errors p.errorTotal
      ewmaSuccess := pr.ewma (sample p) r.ewmaSuccess
      avgLatency := if 0 < p.avgRespTime then pr.ewma p.avgRespTime r.avgLatency else r.avgLatency
      uptimeChecks := saturatingAdd64 r.uptimeChecks (UInt64.ofNat (uptime p)) }

/-- The map after the upserts `ps`. -/
def after (pr : Precision) (ps : List Proxy) : List (Addr × Record) := ps.foldl (fun map p => upsert p.addr (fold pr p) map) []

/-- The proxy of one entry. -/
def loadEntry (e : Addr × Record) : Proxy :=
  (Proxy.restored e.1.1 e.1.2 e.2.types e.2.requests e.2.errors e.2.avgLatency).withEwma (some e.2.ewmaSuccess)

/-- `MemoryStore::load`. -/
def load (entries : List (Addr × Record)) : List Proxy := entries.map loadEntry

end MemoryStore

/-! ## Redis -/

namespace RedisStore

/-- A hash. A field that is a Lua number is stored as its text with 17 digits, which `tonumber` and `parse` read back. -/
structure Hash where
  host : Option Text
  port : Option Text
  types : Option Json
  requests : Option ℚ
  errors : Option ℚ
  ewmaSuccess : Option ℚ
  avgLatency : Option ℚ
  firstSeen : Option ℤ
  lastSeen : Option ℤ
  uptimeChecks : Option ℚ
deriving DecidableEq

/-- A key without a hash reads as an empty hash. -/
def Hash.empty : Hash := ⟨none, none, none, none, none, none, none, none, none, none⟩

/-- `proxy_key`. -/
def proxyKey (a : Addr) : Text := "proxybroker:proxy:".toList ++ hostColonPort a.1 a.2

/-- The hashes and the set `proxybroker:proxies`, which is the key of no hash. -/
structure Store where
  hashes : List (Text × Hash)
  members : List Text

/-- `num(x)` of the script. -/
def num (x : Option ℚ) : ℚ := x.getD 0

/-- A counter of the script at `n`: `n` itself up to `2 ^ 53`, and not below that later. -/
structure Counts (pr : Precision) (field : Option ℚ) (n : Nat) : Prop where
  set : field = some (num field)
  exact : pr = .exact → num field = n
  small : n ≤ 2 ^ 53 → num field = n
  large : 2 ^ 53 < n → 2 ^ 53 ≤ num field

/-- A number that counts to `n` has `k` added to it. -/
theorem Counts.of_add {pr : Precision} {x : ℚ} {n k : Nat} (value : pr = .exact ∨ n ≤ 2 ^ 53 → x = n) (large : 2 ^ 53 < n → 2 ^ 53 ≤ x) :
    Counts pr (some (pr.add x k)) (n + k) := by
  refine ⟨rfl, fun exact => ?_, fun small => ?_, fun past => ?_⟩
  · have same := value (.inl exact)
    subst exact
    show x + k = _
    rw [same, Nat.cast_add]
  · show pr.round (x + k) = _
    rw [value (.inr (by omega)), ← Nat.cast_add, pr.round_natCast small]
  · have reached : ((2 ^ 53 : ℕ) : ℚ) ≤ x + k := by
      rcases le_or_gt n (2 ^ 53) with small | before
      · rw [value (.inr small), ← Nat.cast_add]
        exact_mod_cast past.le
      · have kept : ((2 ^ 53 : ℕ) : ℚ) ≤ x := by exact_mod_cast large before
        exact kept.trans (le_add_of_nonneg_right (Nat.cast_nonneg k))
    have rounded := pr.round_mono (Nat.cast_nonneg _) reached
    rw [pr.round_natCast le_rfl] at rounded
    exact_mod_cast rounded

theorem Counts.start (pr : Precision) (k : Nat) : Counts pr (some (pr.add (num none) k)) k := by
  have counts := @Counts.of_add pr (num none) 0 k (fun _ => rfl) (fun large => absurd large (by norm_num))
  rwa [Nat.zero_add] at counts

theorem Counts.next {pr : Precision} {field : Option ℚ} {n k : Nat} (counts : Counts pr field n) :
    Counts pr (some (pr.add (num field) k)) (n + k) :=
  .of_add (fun either => either.elim counts.exact counts.small) counts.large

/-- `HSET` of the script, out of what `HGETALL` returned. A number is true in Lua, `0` included. -/
def fold (pr : Precision) (x : ℤ × Proxy) (found : Option Hash) : Hash :=
  let now := x.1
  let p := x.2
  let cur := found.getD .empty
  let first := cur = .empty
  { host := some p.host.display
    port := some (showNat p.port.toNat)
    types := if typesToJson p.types ≠ [] then some (typesToJson p.types) else some (cur.types.getD (typesToJson p.types))
    requests := some (pr.add (num cur.requests) p.requests.toNat)
    errors := some (pr.add (num cur.errors) p.errorTotal.toNat)
    ewmaSuccess := some (if first then sample p else pr.ewma (sample p) (num cur.ewmaSuccess))
    avgLatency := some (if first then p.avgRespTime
      else if 0 < p.avgRespTime then pr.ewma p.avgRespTime (num cur.avgLatency) else num cur.avgLatency)
    firstSeen := some (if first then now else cur.firstSeen.getD now)
    lastSeen := some now
    uptimeChecks := some (pr.add (num cur.uptimeChecks) (uptime p)) }

/-- `SADD`. -/
def sadd (member : Text) (members : List Text) : List Text := if member ∈ members then members else members ++ [member]

/-- The script. -/
def eval (pr : Precision) (x : ℤ × Proxy) (s : Store) : Store :=
  ⟨upsert (proxyKey x.2.addr) (fold pr x) s.hashes, sadd (hostColonPort x.2.host x.2.port) s.members⟩

/-- The keys after the upserts `xs`, each with the time of its clock. -/
def after (pr : Precision) (xs : List (ℤ × Proxy)) : Store := xs.foldl (fun s x => eval pr x s) ⟨[], []⟩

/-- `parse::<u32>` of the text of a number. An integer below `10 ^ 17` is printed without a point or
an exponent, and a larger one is out of range in any case. -/
def parseU32 (x : ℚ) : Option UInt32 :=
  if x.den = 1 ∧ 0 ≤ x.num ∧ x.num < 2 ^ 32 then some (UInt32.ofNat x.num.toNat) else none

/-- The proxy of a hash; a member without a hash is skipped. -/
def loadHash (host : IpAddr) (port : UInt16) (hash : Hash) : Option Proxy :=
  if hash = .empty then none
  else some ((Proxy.restored host port (typesFromJson (hash.types.getD [])) ((hash.requests.bind parseU32).getD 0)
    ((hash.errors.bind parseU32).getD 0) (hash.avgLatency.getD 0)).withEwma hash.ewmaSuccess)

/-- One member of the set; `none` where it is skipped. -/
def loadMember (hashes : List (Text × Hash)) (member : Text) : Option Proxy := do
  let (hostS, portS) ← rsplitOnce ':' member
  let host ← parseIpAddr hostS
  let port ← parseU16 portS
  loadHash host port ((rowOf (proxyKey (host, port)) hashes).getD .empty)

/-- `RedisStore::load`. -/
def load (hashes : List (Text × Hash)) (members : List Text) : List Proxy := members.filterMap (loadMember hashes)

end RedisStore

end ProxyBroker.Persist
