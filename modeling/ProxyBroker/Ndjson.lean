import Mathlib.Data.List.Forall2
import ProxyBroker.Lib.IpText
import ProxyBroker.Proxy

/-!
# Saved proxies (`proxy.rs`: `Serialize`, `Deserialize`, `write_ndjson`, `read_ndjson`)

A pool is saved as one JSON object per line. `toJson` is the hand-written serializer; `fromJson` is the
deserializer, with the defaults of its `Raw` structures. The computed statistics are written and not read.

`serde_json` turns a value into text and back. It is a parameter (`SerdeJson`), and `Carries` is what is
asked of it for a value that is written: no raw line feed, an object's braces, and a parser that inverts the
printer.
-/

namespace ProxyBroker
open Lib

/-- `serde_json::Value`. -/
inductive Json where
  | null
  | bool (b : Bool)
  | int (n : Int)
  | float (x : ℚ)
  | string (t : Text)
  | array (vs : List Json)
  | object (fields : List (Text × Json))

/-! ## `Serialize` -/

/-- `Proto::display_order_key`. -/
def Proto.displayOrderKey (p : Proto) : Nat × Nat := ((utf8 p.asStr).length, ((utf8 p.asStr).getLastD 0).toNat)

/-- The derived order of the keys. -/
def displayLe (a b : Proto) : Bool :=
  a.displayOrderKey.1 < b.displayOrderKey.1 ||
    a.displayOrderKey.1 == b.displayOrderKey.1 && a.displayOrderKey.2 ≤ b.displayOrderKey.2

namespace Proxy

/-- `types.iter()`. -/
def typePairs (p : Proxy) : List (Proto × Option AnonLevel) := Proto.all.filterMap fun q => (p.types q).map fun l => (q, l)

/-- `Proxy::types_sorted`. -/
def typesSorted (p : Proxy) : List (Proto × Option AnonLevel) := p.typePairs.mergeSort fun a b => displayLe a.1 b.1

end Proxy

/-- `{ "code": code, "name": name }`. -/
def placeJson (code name : Text) : Json := .object [("code".toList, .string code), ("name".toList, .string name)]

/-- The field `geo`. The maps of `json!` are ordered by key. -/
def geoJson (geo : Option Country) : Json :=
  let (code, name) := match geo with
    | some c => (c.code, c.name)
    | none => ([], [])
  let region := geo.bind Country.region
  let city := match geo.bind Country.city with
    | some t => .string t
    | none => .null
  .object [("city".toList, city), ("country".toList, placeJson code name),
    ("region".toList, placeJson (region.elim [] Region.code) (region.elim [] Region.name))]

/-- The field `asn`. -/
def asnJson : Option Asn → Json
  | some a =>
    let org := match a.org with
      | some t => .string t
      | none => .null
    .object [("number".toList, .int a.number.toNat), ("org".toList, org)]
  | none => .null

/-- An element of the field `types`. -/
def typeJson (t : Proto × Option AnonLevel) : Json :=
  .object [("level".toList, .string (t.2.elim [] AnonLevel.asStr)), ("type".toList, .string t.1.asStr)]

/-- `Proxy::serialize`. -/
def Proxy.toJson (p : Proxy) : Json :=
  .object [("host".toList, .string p.host.display), ("port".toList, .int p.port.toNat), ("geo".toList, geoJson p.geo),
    ("asn".toList, asnJson p.asn), ("types".toList, .array (p.typesSorted.map typeJson)),
    ("avg_resp_time".toList, .float p.avgRespTime), ("error_rate".toList, .float p.errorRate)]

/-! ## `Deserialize` -/

/-- The fields of an object. -/
def Json.fields : Json → Option (List (Text × Json))
  | .object fields => some fields
  | _ => none

/-- A field of a structure: absent, or there once. Twice is an error, and a field that is not asked for is
ignored. -/
def fieldOf (fields : List (Text × Json)) (name : Text) : Option (Option Json) :=
  match fields.filter fun f => f.1 = name with
  | [] => some none
  | [f] => some (some f.2)
  | _ => none

/-- A field without a default. -/
def required {α : Type} (read : Json → Option α) (fields : List (Text × Json)) (name : Text) : Option α :=
  (fieldOf fields name).bind fun v => v.bind read

/-- A field with `#[serde(default)]`. -/
def defaulted {α : Type} (default : α) (read : Json → Option α) (fields : List (Text × Json)) (name : Text) : Option α :=
  (fieldOf fields name).bind fun v =>
    match v with
    | some v => read v
    | none => some default

/-- A `String`. -/
def readString : Json → Option Text
  | .string t => some t
  | _ => none

/-- An unsigned integer below `bound`. -/
def readUnsigned (bound : Nat) : Json → Option Nat
  | .int n => if 0 ≤ n ∧ n < bound then some n.toNat else none
  | _ => none

/-- An `Option`, which is `null` when absent. -/
def readOption {α : Type} (read : Json → Option α) : Json → Option (Option α)
  | .null => some none
  | v => (read v).map some

/-- `RawCountry` and `RawRegion`. -/
structure RawPlace where
  code : Text
  name : Text

structure RawGeo where
  country : RawPlace
  region : RawPlace
  city : Option Text

structure RawAsn where
  number : Nat
  org : Option Text

structure RawType where
  proto : Text
  level : Text

structure Raw where
  host : Text
  port : Nat
  geo : RawGeo
  asn : Option RawAsn
  types : List RawType

def RawPlace.read (v : Json) : Option RawPlace := do
  let fields ← v.fields
  let code ← defaulted [] readString fields "code".toList
  let name ← defaulted [] readString fields "name".toList
  return ⟨code, name⟩

def RawGeo.read (v : Json) : Option RawGeo := do
  let fields ← v.fields
  let country ← defaulted ⟨[], []⟩ RawPlace.read fields "country".toList
  let region ← defaulted ⟨[], []⟩ RawPlace.read fields "region".toList
  let city ← defaulted none (readOption readString) fields "city".toList
  return ⟨country, region, city⟩

def RawAsn.read (v : Json) : Option RawAsn := do
  let fields ← v.fields
  let number ← defaulted 0 (readUnsigned (2 ^ 32)) fields "number".toList
  let org ← defaulted none (readOption readString) fields "org".toList
  return ⟨number, org⟩

def RawType.read (v : Json) : Option RawType := do
  let fields ← v.fields
  let proto ← required readString fields "type".toList
  let level ← defaulted [] readString fields "level".toList
  return ⟨proto, level⟩

/-- A `Vec<RawType>`. -/
def readTypes : Json → Option (List RawType)
  | .array vs => vs.mapM RawType.read
  | _ => none

def Raw.read (v : Json) : Option Raw := do
  let fields ← v.fields
  let host ← required readString fields "host".toList
  let port ← required (readUnsigned (2 ^ 16)) fields "port".toList
  let geo ← defaulted ⟨⟨[], []⟩, ⟨[], []⟩, none⟩ RawGeo.read fields "geo".toList
  let asn ← defaulted none (readOption RawAsn.read) fields "asn".toList
  let types ← defaulted [] readTypes fields "types".toList
  return ⟨host, port, geo, asn, types⟩

/-- The country of a loaded proxy. -/
def RawGeo.country? (geo : RawGeo) : Option Country :=
  if geo.country.code = [] then none
  else
    some {
      code := geo.country.code
      name := geo.country.name
      region := if geo.region.code = [] ∧ geo.region.name = [] then none else some ⟨geo.region.code, geo.region.name⟩
      city := geo.city.filter (· ≠ []) }

/-- The key and value that a `RawType` puts into the map. -/
def RawType.entry (t : RawType) : Option (Proto × Option AnonLevel) := do
  let proto ← Proto.fromStr t.proto
  if t.level = [] then return (proto, none)
  else
    let level ← AnonLevel.fromStr t.level
    return (proto, some level)

/-- `types.insert`, for each in turn. -/
def insertTypes (entries : List (Proto × Option AnonLevel)) : TypeMap :=
  entries.foldl (fun types e q => if q = e.1 then some e.2 else types q) fun _ => none

/-- `Proxy::deserialize`. -/
def Proxy.fromJson (v : Json) : Option Proxy := do
  let raw ← Raw.read v
  let host ← parseIpAddr raw.host
  let entries ← raw.types.mapM RawType.entry
  return { Proxy.new host (UInt16.ofNat raw.port) [] with
    geo := raw.geo.country?
    asn := raw.asn.map fun a => ⟨UInt32.ofNat a.number, a.org⟩
    types := insertTypes entries }

/-! ## Lines -/

/-- `serde_json::to_writer` and `serde_json::from_str`. -/
structure SerdeJson where
  toWriter : Json → Text
  fromStr : Text → Option Json

/-- What `serde_json` does with a value that is written as an object. -/
structure SerdeJson.Carries (serde : SerdeJson) (v : Json) : Prop where
  newline : '\n' ∉ serde.toWriter v
  braces : ∃ body, serde.toWriter v = ['\x7b'] ++ body ++ ['\x7d']
  inverse : serde.fromStr (serde.toWriter v) = some v

section
variable (serde : SerdeJson)

/-- `write_ndjson`, to a writer that does not fail. -/
def writeNdjson (proxies : List Proxy) : Bytes := proxies.flatMap fun p => utf8 (serde.toWriter p.toJson) ++ [10]

/-- The bytes of a line without its terminator, as `BufRead::lines` cuts them. -/
def lineBytes (l : Bytes) : Bytes :=
  match stripSuffix [10] l with
  | some l => (stripSuffix [13] l).getD l
  | none => l

/-- The loop of `read_ndjson`. -/
def readLines : List Bytes → Option (List Proxy)
  | [] => some []
  | l :: ls => do
    let line ← fromUtf8 l
    if trim line = [] then readLines ls
    else
      let p ← (serde.fromStr line).bind Proxy.fromJson
      let out ← readLines ls
      return p :: out

/-- `read_ndjson`. -/
def readNdjson (bs : Bytes) : Option (List Proxy) := readLines serde ((splitInclusive 10 bs).map lineBytes)

end

/-! ## One object -/

/-- What is left of a country: nothing without a code, no region without a code and a name, no empty city. -/
def normalGeo (geo : Option Country) : Option Country :=
  geo.bind fun c =>
    if c.code = [] then none
    else
      some { c with
        region := c.region.bind fun r => if r.code = [] ∧ r.name = [] then none else some r
        city := c.city.filter (· ≠ []) }

/-- The proxy that is read back. -/
def Proxy.loaded (p : Proxy) : Proxy :=
  { Proxy.new p.host p.port [] with geo := normalGeo p.geo, asn := p.asn, types := p.types }

theorem geo_back (geo : Option Country) : ∃ raw, RawGeo.read (geoJson geo) = some raw ∧ raw.country? = normalGeo geo := by
  cases geo with
  | none => exact ⟨_, rfl, rfl⟩
  | some c =>
    obtain ⟨code, name, region, city⟩ := c
    cases region with
    | none =>
      cases city with
      | none => exact ⟨_, rfl, rfl⟩
      | some t => exact ⟨_, rfl, rfl⟩
    | some r =>
      obtain ⟨regionCode, regionName⟩ := r
      cases city with
      | none => exact ⟨_, rfl, rfl⟩
      | some t => exact ⟨_, rfl, rfl⟩

theorem readUnsigned_nat {bound n : Nat} (lt : n < bound) : readUnsigned bound (.int n) = some n := by
  rw [readUnsigned, if_pos ⟨by omega, by omega⟩, Int.toNat_natCast]

theorem asn_back (asn : Option Asn) : ∃ raw, readOption RawAsn.read (asnJson asn) = some raw ∧
    (raw.map fun a => (⟨UInt32.ofNat a.number, a.org⟩ : Asn)) = asn := by
  cases asn with
  | none => exact ⟨_, rfl, rfl⟩
  | some a =>
    obtain ⟨number, org⟩ := a
    have read : readUnsigned (2 ^ 32) (.int number.toNat) = some number.toNat := readUnsigned_nat number.toNat_lt
    have parts (v w : Json) : RawAsn.read (.object [("number".toList, v), ("org".toList, w)]) =
        (readUnsigned (2 ^ 32) v).bind fun n => (readOption readString w).bind fun org => some ⟨n, org⟩ := rfl
    refine ⟨some ⟨number.toNat, org⟩, ?_, by simp⟩
    cases org with
    | none =>
      show (RawAsn.read (.object [("number".toList, .int number.toNat), ("org".toList, .null)])).map some = _
      rw [parts, read]
      rfl
    | some t =>
      show (RawAsn.read (.object [("number".toList, .int number.toNat), ("org".toList, .string t)])).map some = _
      rw [parts, read]
      rfl

/-- The strings that a protocol and its level are written as. -/
def rawType (t : Proto × Option AnonLevel) : RawType := ⟨t.1.asStr, t.2.elim [] AnonLevel.asStr⟩

theorem rawType_entry (t : Proto × Option AnonLevel) : (rawType t).entry = some t := by
  obtain ⟨proto, level⟩ := t
  rw [RawType.entry, rawType]
  dsimp only
  rw [Proto.fromStr_asStr]
  cases level with
  | none => rfl
  | some l =>
    have text : l.asStr ≠ [] := by cases l <;> decide
    simp [text, AnonLevel.fromStr_asStr]

theorem readTypes_back (ts : List (Proto × Option AnonLevel)) : readTypes (.array (ts.map typeJson)) = some (ts.map rawType) := by
  rw [readTypes]
  induction ts with
  | nil => rfl
  | cons t ts ih =>
    have one : RawType.read (typeJson t) = some (rawType t) := rfl
    rw [List.map_cons, List.mapM_cons, one, ih]
    rfl

theorem entries_back (ts : List (Proto × Option AnonLevel)) : (ts.map rawType).mapM RawType.entry = some ts := by
  induction ts with
  | nil => rfl
  | cons t ts ih =>
    rw [List.map_cons, List.mapM_cons, rawType_entry, ih]
    rfl

theorem mem_typePairs {p : Proxy} {q : Proto} {l : Option AnonLevel} : (q, l) ∈ p.typePairs ↔ p.types q = some l := by
  have all : q ∈ Proto.all := by cases q <;> decide
  rw [Proxy.typePairs, List.mem_filterMap]
  constructor
  · rintro ⟨r, -, pair⟩
    obtain ⟨l', found, eq⟩ := Option.map_eq_some_iff.1 pair
    cases eq
    exact found
  · intro found
    exact ⟨q, all, by rw [found]; rfl⟩

/-- Entries that agree with a map, and name all its keys, make it again. -/
theorem insertTypes_eq {types : TypeMap} {entries : List (Proto × Option AnonLevel)}
    (agree : ∀ q l, (q, l) ∈ entries ↔ types q = some l) : insertTypes entries = types := by
  have fold {entries : List (Proto × Option AnonLevel)} (sound : ∀ q l, (q, l) ∈ entries → types q = some l) (m : TypeMap) (q : Proto) :
      entries.foldl (fun types e q => if q = e.1 then some e.2 else types q) m q =
        if q ∈ entries.map Prod.fst then types q else m q := by
    induction entries generalizing m with
    | nil => simp
    | cons e entries ih =>
      obtain ⟨r, l⟩ := e
      rw [List.foldl_cons, ih fun q l mem => sound q l (List.mem_cons_of_mem _ mem)]
      by_cases later : q ∈ entries.map Prod.fst
      · rw [if_pos later, if_pos (by simp [later])]
      · by_cases here : q = r
        · subst here
          rw [if_neg later, if_pos rfl, if_pos (by simp)]
          exact (sound q l List.mem_cons_self).symm
        · rw [if_neg later, if_neg here, if_neg]
          rw [List.map_cons, List.mem_cons, not_or]
          exact ⟨here, later⟩
  funext q
  rw [insertTypes, fold fun q l => (agree q l).1]
  split
  · rfl
  · rename_i absent
    cases found : types q with
    | none => rfl
    | some l => exact absurd (List.mem_map.2 ⟨(q, l), (agree q l).2 found, rfl⟩) absent

/-- **One object**: what the deserializer makes of what the serializer writes. -/
theorem fromJson_toJson (p : Proxy) : Proxy.fromJson p.toJson = some p.loaded := by
  obtain ⟨geo, readGeo, country⟩ := geo_back p.geo
  obtain ⟨asn, readAsn, network⟩ := asn_back p.asn
  have parts (host port geo asn types x y : Json) : Raw.read (.object [("host".toList, host), ("port".toList, port),
      ("geo".toList, geo), ("asn".toList, asn), ("types".toList, types), ("avg_resp_time".toList, x), ("error_rate".toList, y)]) =
        (readString host).bind fun host => (readUnsigned (2 ^ 16) port).bind fun port => (RawGeo.read geo).bind fun geo =>
        (readOption RawAsn.read asn).bind fun asn => (readTypes types).bind fun types => some ⟨host, port, geo, asn, types⟩ := rfl
  have raw : Raw.read p.toJson = some ⟨p.host.display, p.port.toNat, geo, asn, p.typesSorted.map rawType⟩ := by
    rw [Proxy.toJson, parts, readString, readUnsigned_nat p.port.toNat_lt, readGeo, readAsn, readTypes_back]
    rfl
  have types : insertTypes p.typesSorted = p.types := by
    refine insertTypes_eq fun q l => ?_
    rw [Proxy.typesSorted, (List.mergeSort_perm _ _).mem_iff, mem_typePairs]
  rw [Proxy.fromJson, raw]
  simp only [Option.bind_eq_bind, Option.bind_some, parse_display, entries_back, Option.pure_def, country, network, types,
    UInt16.ofNat_toNat]
  rfl

/-! ## The file -/

variable {serde : SerdeJson}

/-- A written line is read back as its text. -/
theorem lineBytes_written {v : Json} (carries : serde.Carries v) :
    lineBytes (utf8 (serde.toWriter v) ++ [10]) = utf8 (serde.toWriter v) := by
  obtain ⟨body, braces⟩ := carries.braces
  have ends : utf8 (serde.toWriter v) = utf8 (['\x7b'] ++ body) ++ [125] := by
    rw [braces, utf8_append]
    rfl
  rw [lineBytes, stripSuffix_some.2 rfl]
  cases more : stripSuffix [13] (utf8 (serde.toWriter v)) with
  | none =>
    dsimp only
    rw [more]
    rfl
  | some l =>
    have last := stripSuffix_some.1 more
    rw [ends] at last
    have bytes := (List.append_inj' last rfl).2
    cases bytes

theorem readNdjson_write {ps : List Proxy} (carries : ∀ p ∈ ps, serde.Carries p.toJson) :
    readNdjson serde (writeNdjson serde ps) = some (ps.map Proxy.loaded) := by
  induction ps with
  | nil => rfl
  | cons p ps ih =>
    have first : serde.Carries p.toJson := carries p List.mem_cons_self
    have rest := ih fun q mem => carries q (List.mem_cons_of_mem p mem)
    have clean : (10 : UInt8) ∉ utf8 (serde.toWriter p.toJson) := by
      rw [feed_mem_utf8]
      exact first.newline
    have text : trim (serde.toWriter p.toJson) ≠ [] := by
      obtain ⟨body, braces⟩ := first.braces
      rw [braces]
      exact trim_ne_nil (by decide)
    have written : writeNdjson serde (p :: ps) = utf8 (serde.toWriter p.toJson) ++ 10 :: writeNdjson serde ps := by
      rw [writeNdjson, List.flatMap_cons, List.append_assoc]
      rfl
    rw [readNdjson] at rest ⊢
    rw [written, splitInclusive_piece clean, List.map_cons, lineBytes_written first, readLines, fromUtf8_utf8, rest]
    have parsed : (serde.fromStr (serde.toWriter p.toJson)).bind Proxy.fromJson = some p.loaded := by
      rw [first.inverse, Option.bind_some, fromJson_toJson]
    rw [Option.bind_eq_bind, Option.bind_some, if_neg text, parsed]
    rfl

theorem normalGeo_idem (geo : Option Country) : normalGeo (normalGeo geo) = normalGeo geo := by
  cases geo with
  | none => rfl
  | some c =>
    obtain ⟨code, name, region, city⟩ := c
    by_cases empty : code = []
    · simp [normalGeo, empty]
    · have regions : (region.bind fun r => if r.code = [] ∧ r.name = [] then none else some r).bind
          (fun r => if r.code = [] ∧ r.name = [] then none else some r) =
          region.bind fun r => if r.code = [] ∧ r.name = [] then none else some r := by
        cases region with
        | none => rfl
        | some r =>
          by_cases blank : r.code = [] ∧ r.name = []
          · rw [Option.bind_some, if_pos blank, Option.bind_none]
          · rw [Option.bind_some, if_neg blank, Option.bind_some, if_neg blank]
      have cities : (city.filter (· ≠ [])).filter (· ≠ []) = city.filter (· ≠ []) := by simp [Option.filter_filter]
      simp only [normalGeo, Option.bind_some, if_neg empty, regions, cities]

theorem loaded_loaded (p : Proxy) : p.loaded.loaded = p.loaded := by
  rw [Proxy.loaded, Proxy.loaded]
  simp only [normalGeo_idem]
  rfl

/-- What a proxy and the one that is read back have in common: the identity and the confirmed types, and the
country but for its empty parts. The rest starts empty. -/
structure Restored (p q : Proxy) : Prop where
  host : q.host = p.host
  port : q.port = p.port
  asn : q.asn = p.asn
  types : q.types = p.types
  geo : q.geo = normalGeo p.geo
  statistics : q.requests = 0 ∧ q.errors = [] ∧ q.runtimes = [] ∧ q.probeRuntimes = []
  expected : q.expectedTypes = []
  auth : q.auth = none
  caps : q.caps = ⟨false, false⟩
  trust : q.trust = []
  ewma : q.ewmaSuccess = none

theorem restored_loaded (p : Proxy) : Restored p p.loaded where
  host := rfl
  port := rfl
  asn := rfl
  types := rfl
  geo := rfl
  statistics := ⟨rfl, rfl, rfl, rfl⟩
  expected := rfl
  auth := rfl
  caps := rfl
  trust := rfl
  ewma := rfl

/-- **Save and load.** Every list of proxies is read back, one for one and in order, with its identity, its
confirmed types and its country but for empty parts; and what was read back is read back identically. -/
theorem ndjson_round_trip {ps : List Proxy} (carries : ∀ p ∈ ps, serde.Carries p.toJson ∧ serde.Carries p.loaded.toJson) :
    ∃ qs, readNdjson serde (writeNdjson serde ps) = some qs ∧ List.Forall₂ Restored ps qs ∧
      readNdjson serde (writeNdjson serde qs) = some qs := by
  refine ⟨ps.map Proxy.loaded, readNdjson_write fun p mem => (carries p mem).1, ?_, ?_⟩
  · rw [List.forall₂_map_right_iff]
    exact List.forall₂_same.2 fun p _ => restored_loaded p
  · have again : ∀ q ∈ ps.map Proxy.loaded, serde.Carries q.toJson := by
      intro q mem
      obtain ⟨p, at_p, rfl⟩ := List.mem_map.1 mem
      exact (carries p at_p).2
    rw [readNdjson_write again, List.map_map]
    refine congrArg some (List.map_congr_left fun p _ => ?_)
    exact loaded_loaded p

/-! ## A saved proxy

The text that `serde_json` writes, for the numbers that a proxy has: integers, and quotients of two decimals. -/

/-- A character inside a JSON string. -/
def escapeChar (c : Char) : Text :=
  if c = '"' then ['\\', '"']
  else if c = '\\' then ['\\', '\\']
  else if c = '\n' then ['\\', 'n']
  else if c = '\r' then ['\\', 'r']
  else if c = '\t' then ['\\', 't']
  else if c.toNat = 8 then ['\\', 'b']
  else if c.toNat = 12 then ['\\', 'f']
  else if c.toNat < 32 then "\\u00".toList ++ [Nat.digitChar (c.toNat / 16), Nat.digitChar (c.toNat % 16)]
  else [c]

def quoted (t : Text) : Text := ['"'] ++ t.flatMap escapeChar ++ ['"']

/-- A non-negative number of two decimals. -/
def floatText (x : ℚ) : Text :=
  let cents := (x * 100).floor.toNat
  let digits := if cents % 10 = 0 then [Nat.digitChar (cents % 100 / 10)]
    else [Nat.digitChar (cents % 100 / 10), Nat.digitChar (cents % 10)]
  showNat (cents / 100) ++ ['.'] ++ digits

mutual

/-- `CompactFormatter`. -/
def compact : Json → Text
  | .null => "null".toList
  | .bool b => if b then "true".toList else "false".toList
  | .int n => if n < 0 then '-' :: showNat n.natAbs else showNat n.natAbs
  | .float x => floatText x
  | .string t => quoted t
  | .array vs => ['['] ++ joinText [','] (compactItems vs) ++ [']']
  | .object fields => ['\x7b'] ++ joinText [','] (compactFields fields) ++ ['\x7d']

def compactItems : List Json → List Text
  | [] => []
  | v :: vs => compact v :: compactItems vs

def compactFields : List (Text × Json) → List Text
  | [] => []
  | (name, v) :: fields => (quoted name ++ [':'] ++ compact v) :: compactFields fields

end

/-- `serde_json` on the values of a list. -/
def serdeOf (vs : List Json) : SerdeJson := ⟨compact, fun t => vs.find? fun v => compact v = t⟩

/-- A proxy of two attempts, with a region and a city that are empty. -/
def savedProxy : Proxy :=
  { (Proxy.new (.v4 0x01020304) 8080 [.http]).addType .http (some .high) with
    geo := some ⟨"SE".toList, "Sweden".toList, some ⟨[], []⟩, some []⟩
    asn := some ⟨15169, some "Google \"LLC\"".toList⟩
    requests := 2
    errors := [(.timeout, 1)]
    runtimes := [1 / 2] }

def savedSerde : SerdeJson := serdeOf [savedProxy.toJson, savedProxy.loaded.toJson]

theorem savedProxy_typesSorted : savedProxy.typesSorted = [(.http, some .high)] := by
  have pairs : savedProxy.typePairs = [(.http, some .high)] := by decide
  rw [Proxy.typesSorted, pairs, List.mergeSort_singleton]

theorem savedSerde_carries : savedSerde.Carries savedProxy.toJson where
  newline := by
    rw [Proxy.toJson, savedProxy_typesSorted]
    decide +kernel
  braces := ⟨_, rfl⟩
  inverse := by
    rw [savedSerde, serdeOf]
    dsimp only
    exact List.find?_cons_of_pos (decide_eq_true rfl)

theorem savedSerde_carries_loaded : savedSerde.Carries savedProxy.loaded.toJson where
  newline := by
    rw [Proxy.toJson, show savedProxy.loaded.typesSorted = _ from savedProxy_typesSorted]
    decide +kernel
  braces := ⟨_, rfl⟩
  inverse := by
    have differ : compact savedProxy.toJson ≠ compact savedProxy.loaded.toJson := by
      rw [Proxy.toJson, Proxy.toJson, savedProxy_typesSorted, show savedProxy.loaded.typesSorted = _ from savedProxy_typesSorted]
      decide +kernel
    rw [savedSerde, serdeOf]
    dsimp only
    rw [List.find?_cons_of_neg (by simpa using differ)]
    exact List.find?_cons_of_pos (decide_eq_true rfl)

theorem ndjson_round_trip_saved : (∀ p ∈ [savedProxy], savedSerde.Carries p.toJson ∧ savedSerde.Carries p.loaded.toJson) ∧
    ∃ qs, readNdjson savedSerde (writeNdjson savedSerde [savedProxy]) = some qs ∧ List.Forall₂ Restored [savedProxy] qs ∧
      readNdjson savedSerde (writeNdjson savedSerde qs) = some qs := by
  have carries : ∀ p ∈ [savedProxy], savedSerde.Carries p.toJson ∧ savedSerde.Carries p.loaded.toJson := by
    intro p mem
    obtain rfl := List.mem_singleton.1 mem
    exact ⟨savedSerde_carries, savedSerde_carries_loaded⟩
  exact ⟨carries, ndjson_round_trip carries⟩

end ProxyBroker
