import Mathlib.Algebra.Order.BigOperators.Group.List
import ProxyBroker.Lib.Precision
import ProxyBroker.Lib.Upsert
import ProxyBroker.Proxy

/-!
# A durable record (`persist.rs`)

`Summary` says what the stores remember about an address, apart from any of them: the first upsert starts
it, every further upsert folds one checked proxy into it. The backends write this fold three times, in
SQL, in Lua and in Rust (`Persist/Stores.lean`).

The confirmed types are stored as the text of a JSON array. `serde_json` parses what it prints, so the
model keeps the array.
-/

namespace ProxyBroker.Persist
open Lib

/-! ## The types column -/

/-- The array: `{"type": .., "level": ..}` for each confirmed type. -/
abbrev Json := List (Text × Text)

/-- The object of one type. -/
def typeEntry (types : TypeMap) (p : Proto) : Option (Text × Text) :=
  (types p).map fun level => (p.asStr, (level.map AnonLevel.asStr).getD [])

/-- `types_to_json`, in the order of the `BTreeMap`. -/
def typesToJson (types : TypeMap) : Json := Proto.all.filterMap (typeEntry types)

/-- `map.insert(proto, level)` for one object of the array; an unknown type is skipped. -/
def insertEntry (types : TypeMap) (entry : Text × Text) : TypeMap :=
  match Proto.fromStr entry.1 with
  | none => types
  | some proto =>
    let level := if entry.2 = [] then none else AnonLevel.fromStr entry.2
    fun p => if p = proto then some level else types p

/-- `types_from_json`. -/
def typesFromJson (json : Json) : TypeMap := json.foldl insertEntry fun _ => none

theorem insertEntry_level (m : TypeMap) (p : Proto) (level : Option AnonLevel) :
    insertEntry m (p.asStr, (level.map AnonLevel.asStr).getD []) = fun q => if q = p then some level else m q := by
  have back : (if (level.map AnonLevel.asStr).getD [] = [] then none else AnonLevel.fromStr ((level.map AnonLevel.asStr).getD [])) = level := by
    cases level with
    | none => rfl
    | some l =>
      have named : l.asStr ≠ [] := by cases l <;> decide
      simp [named, AnonLevel.fromStr_asStr]
  simp only [insertEntry, Proto.fromStr_asStr, back]

/-- The array is read back. -/
theorem typesFromJson_typesToJson (types : TypeMap) : typesFromJson (typesToJson types) = types := by
  have each (ps : List Proto) (m : TypeMap) : (ps.filterMap (typeEntry types)).foldl insertEntry m =
      fun q => if q ∈ ps ∧ types q ≠ none then types q else m q := by
    induction ps generalizing m with
    | nil => simp
    | cons p ps ih =>
      cases confirmed : types p with
      | none =>
        have entry : typeEntry types p = none := by simp [typeEntry, confirmed]
        rw [List.filterMap_cons_none entry, ih]
        funext q
        by_cases same : q = p
        · simp [same, confirmed]
        · simp [same]
      | some level =>
        have entry : typeEntry types p = some (p.asStr, (level.map AnonLevel.asStr).getD []) := by simp [typeEntry, confirmed]
        rw [List.filterMap_cons_some entry, List.foldl_cons, insertEntry_level, ih]
        funext q
        by_cases same : q = p
        · simp [same, confirmed]
        · simp [same]
  funext p
  have known : p ∈ Proto.all := by cases p <;> decide
  rw [typesFromJson, typesToJson, each]
  by_cases absent : types p = none
  · simp [absent]
  · simp [known, absent]

/-- The text is `[]` exactly when nothing is confirmed. -/
theorem typesToJson_eq_nil (p : Proxy) : typesToJson p.types = [] ↔ p.isWorking = false := by
  have working : p.isWorking = false ↔ Proto.all.filter p.hasType = [] := by
    simp [Proxy.isWorking, Proxy.typeKeys]
  rw [working, typesToJson, List.filterMap_eq_nil_iff, List.filter_eq_nil_iff]
  refine forall_congr' fun q => forall_congr' fun _ => ?_
  cases confirmed : p.types q <;> simp [typeEntry, Proxy.hasType, confirmed]

theorem typesToJson_ne_nil (p : Proxy) : typesToJson p.types ≠ [] ↔ p.isWorking = true := by
  rw [Ne, typesToJson_eq_nil, Bool.not_eq_false]

/-! ## The fold -/

/-- `f64::from(u8::from(proxy.is_working()))`. -/
def sample (p : Proxy) : ℚ := if p.isWorking then 1 else 0

/-- `u64::from(proxy.is_working())`. -/
def uptime (p : Proxy) : Nat := if p.isWorking then 1 else 0

/-- What is remembered about an address. -/
structure Summary where
  types : TypeMap
  requests : Nat
  errors : Nat
  ewmaSuccess : ℚ
  avgLatency : ℚ
  uptimeChecks : Nat

/-- One checked proxy is folded in. The averages are `fold_ewma` with the `alpha` of the stores. -/
def Summary.fold (pr : Precision) (p : Proxy) : Option Summary → Summary
  | none => ⟨p.types, p.requests.toNat, p.errorTotal.toNat, sample p, p.avgRespTime, uptime p⟩
  | some s =>
    { types := if p.isWorking then p.types else s.types
      requests := s.requests + p.requests.toNat
      errors := s.errors + p.errorTotal.toNat
      ewmaSuccess := pr.ewma (sample p) s.ewmaSuccess
      avgLatency := if 0 < p.avgRespTime then pr.ewma p.avgRespTime s.avgLatency else s.avgLatency
      uptimeChecks := s.uptimeChecks + uptime p }

/-- What is remembered about every address after the upserts `ps`. -/
def summaries (pr : Precision) (ps : List Proxy) : List (Addr × Summary) := tableOf Proxy.addr (Summary.fold pr) ps

/-- The upserts of one address. -/
def upsertsOf (a : Addr) (ps : List Proxy) : List Proxy := ps.filter fun p => p.addr = a

/-- A sum over upserts. -/
def total (f : Proxy → Nat) (ps : List Proxy) : Nat := (ps.map f).sum

theorem total_upsertsOf_le (f : Proxy → Nat) (a : Addr) (ps : List Proxy) : total f (upsertsOf a ps) ≤ total f ps :=
  List.Sublist.sum_le_sum (List.filter_sublist.map f) fun _ _ => Nat.zero_le _

/-- What is remembered about one address. -/
def summary (pr : Precision) (ps : List Proxy) : Option Summary := foldRow (Summary.fold pr) ps

variable {pr : Precision}

theorem rowOf_summaries (ps : List Proxy) (a : Addr) : rowOf a (summaries pr ps) = summary pr (upsertsOf a ps) :=
  rowOf_tableOf ps a

theorem summary_concat (ps : List Proxy) (p : Proxy) : summary pr (ps ++ [p]) = some (Summary.fold pr p (summary pr ps)) :=
  foldRow_concat ps p

theorem summary_eq_none {ps : List Proxy} : summary pr ps = none ↔ ps = [] := by
  induction ps using List.reverseRecOn with
  | nil => simp [summary, foldRow]
  | append_singleton ps p ih => simp [summary_concat]

/-- **Induction over a history**: its first upsert, and each further one. -/
theorem summary_induction {P : List Proxy → Summary → Prop} (first : ∀ p, P [p] (Summary.fold pr p none))
    (next : ∀ ps s p, summary pr ps = some s → P ps s → P (ps ++ [p]) (Summary.fold pr p (some s)))
    {ps : List Proxy} {s : Summary} (h : summary pr ps = some s) : P ps s := by
  induction ps using List.reverseRecOn generalizing s with
  | nil => cases h
  | append_singleton ps p ih =>
    rw [summary_concat, Option.some.injEq] at h
    subst h
    cases before : summary pr ps with
    | none =>
      rw [summary_eq_none.1 before]
      exact first p
    | some s => exact next ps s p before (ih before)

/-- The counters are sums over the upserts. -/
structure Summary.Totals (ps : List Proxy) (s : Summary) : Prop where
  requests : s.requests = total (fun p => p.requests.toNat) ps
  errors : s.errors = total (fun p => p.errorTotal.toNat) ps
  uptimeChecks : s.uptimeChecks = total uptime ps

theorem summary_totals {ps : List Proxy} {s : Summary} (h : summary pr ps = some s) : s.Totals ps := by
  refine summary_induction (P := fun ps s => s.Totals ps) (fun p => ?_) (fun ps s p _ totals => ?_) h
  · constructor <;> simp [Summary.fold, total]
  · constructor
    · simp [Summary.fold, total, totals.requests]
    · simp [Summary.fold, total, totals.errors]
    · simp [Summary.fold, total, totals.uptimeChecks]

/-- The totals of upserts stay below a bound. -/
structure TotalsBelow (bound : Nat) (ps : List Proxy) : Prop where
  requests : total (fun p => p.requests.toNat) ps < bound
  errors : total (fun p => p.errorTotal.toNat) ps < bound
  uptimeChecks : total uptime ps < bound

theorem TotalsBelow.upsertsOf {bound : Nat} {ps : List Proxy} (room : TotalsBelow bound ps) (a : Addr) :
    TotalsBelow bound (upsertsOf a ps) where
  requests := (total_upsertsOf_le _ a ps).trans_lt room.requests
  errors := (total_upsertsOf_le _ a ps).trans_lt room.errors
  uptimeChecks := (total_upsertsOf_le _ a ps).trans_lt room.uptimeChecks

/-- The counters of a summary stay below a bound. -/
structure Summary.Below (bound : Nat) (s : Summary) : Prop where
  requests : s.requests < bound
  errors : s.errors < bound
  uptimeChecks : s.uptimeChecks < bound

theorem Summary.Totals.below {bound : Nat} {ps : List Proxy} {s : Summary} (totals : s.Totals ps) (room : TotalsBelow bound ps) :
    s.Below bound where
  requests := totals.requests ▸ room.requests
  errors := totals.errors ▸ room.errors
  uptimeChecks := totals.uptimeChecks ▸ room.uptimeChecks

/-- A proxy at `1.1.1.1:8080` that spoke HTTP. -/
def workedOnce : Proxy := (Proxy.restored (.v4 0x01010101) 8080 (fun _ => none) 3 1 250).addType .http (some .high)

/-- The same address, failing. -/
def failedOnce : Proxy := Proxy.restored (.v4 0x01010101) 8080 (fun _ => none) 2 2 0

end ProxyBroker.Persist
