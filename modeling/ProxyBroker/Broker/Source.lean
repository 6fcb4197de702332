import ProxyBroker.Broker.CheckStream
import ProxyBroker.Lib.Firsts

/-!
# Where proxies come from (`broker.rs:grab_task`, `find_task`)

Providers return batches of candidates. `grab_task` walks over them in two nested loops, drops what it
has seen, attaches what the databases say, filters by country and sends until the limit; `find_task`
does the same in a chain of stream combinators and hands the result to `check_stream`. `grabTask` and
`findSource` are these two, and `grabTask_eq` says that the first sends what the second yields, cut at the
limit.

The databases are a third party's, so they are functions here, and so is `str::to_uppercase`, whose table
no result reads.
-/

namespace ProxyBroker.Broker
open Lib

/-- `provider.rs:Candidate`. -/
structure Candidate where
  host : Text
  port : UInt16
  protocols : List Proto
deriving DecidableEq, Repr

/-- `broker.rs:GrabQuery`. -/
structure GrabQuery where
  countries : Option (List Text)
  limit : Option Nat

/-- The databases of a `Broker`: `GeoDb::lookup` of `geo` and `GeoDb::lookup_asn` of `asn`. -/
structure Databases where
  geo : Option (IpAddr → Option Country)
  asn : Option (IpAddr → Option Asn)

/-- `Broker::attach_geo`. -/
def attachGeo (dbs : Databases) (proxy : Proxy) : Proxy :=
  let proxy := match dbs.geo with
    | some lookup => { proxy with geo := lookup proxy.host }
    | none => proxy
  match dbs.asn with
  | some lookupAsn => { proxy with asn := lookupAsn proxy.host }
  | none => proxy

/-- `uppercase_set`. -/
def uppercaseSet (toUppercase : Text → Text) (countries : Option (List Text)) : Option (List Text) :=
  countries.map fun cs => cs.map toUppercase

/-! ## `grab_task` -/

/-- The variables of `grab_task`, what it has sent, and whether it has returned. -/
structure Grab where
  seen : List Addr
  sent : Nat
  emitted : List Proxy
  returned : Bool

section
variable (toUppercase : Text → Text) (dbs : Databases) (countries : Option (List Text)) (limit dropped : Option Nat)

/-- One turn of the inner loop of `grab_task`. The receiver is dropped after `dropped` proxies, if ever. -/
def grabTurn (g : Grab) (cand : Candidate) : Grab :=
  if g.returned then g
  else if limit.any (· ≤ g.sent) then { g with returned := true }
  else
    match parseIpAddr cand.host with
    | none => g
    | some host =>
      if (host, cand.port) ∈ g.seen then g
      else
        let g := { g with seen := (host, cand.port) :: g.seen }
        let proxy := attachGeo dbs (Proxy.new host cand.port cand.protocols)
        if countryOk toUppercase proxy countries then
          if dropped.any (· ≤ g.sent) then { g with returned := true }
          else { g with sent := g.sent + 1, emitted := g.emitted ++ [proxy] }
        else g

/-- `filter_map` with the closure of `find_task`, which owns `seen`. -/
def sourceFrom : List Addr → List Candidate → List Proxy
  | _, [] => []
  | seen, cand :: cands =>
    match parseIpAddr cand.host with
    | some host =>
      if (host, cand.port) ∈ seen then sourceFrom seen cands
      else
        let proxy := attachGeo dbs (Proxy.new host cand.port cand.protocols)
        let keep := if countryOk toUppercase proxy countries then [proxy] else []
        keep ++ sourceFrom ((host, cand.port) :: seen) cands
    | none => sourceFrom seen cands

end

/-- `grab_task`, on the batches in the order in which they come in: what it sends. -/
def grabTask (toUppercase : Text → Text) (dbs : Databases) (query : GrabQuery) (dropped : Option Nat)
    (batches : List (List Candidate)) : List Proxy :=
  let countries := uppercaseSet toUppercase query.countries
  let turn := grabTurn toUppercase dbs countries query.limit dropped
  (batches.foldl (fun (g : Grab) candidates => candidates.foldl turn g) ⟨[], 0, [], false⟩).emitted

/-- The source of `find_task`: the batches flattened, and what the closure keeps. -/
def findSource (toUppercase : Text → Text) (dbs : Databases) (countries : Option (List Text)) (batches : List (List Candidate)) :
    List Proxy :=
  sourceFrom toUppercase dbs (uppercaseSet toUppercase countries) [] batches.flatten

/-- `find_task`: the call of `check_stream`. -/
def findTask (toUppercase : Text → Text) (dbs : Databases) (countries : Option (List Text)) (batches : List (List Candidate))
    (check : Nat → Proxy → Verdict) (maxConn : Nat) (limit : Option Nat) (caps : CapsFilter) (onChecked : Bool) : Job where
  source := Stream'.Seq.ofList (findSource toUppercase dbs countries batches)
  check := check
  maxConn := maxConn
  limit := limit
  caps := caps
  onChecked := onChecked

/-! ## What the source yields -/

/-- The address of a candidate, if its host is one. -/
def Candidate.addr (cand : Candidate) : Option Addr := (parseIpAddr cand.host).map fun host => (host, cand.port)

/-- What is made of a candidate at `addr`. -/
def made (dbs : Databases) (addr : Addr) (protocols : List Proto) : Proxy := attachGeo dbs (Proxy.new addr.1 addr.2 protocols)

/-- An address that the country filter lets through. -/
def passes (toUppercase : Text → Text) (dbs : Databases) (countries : Option (List Text)) (addr : Addr) : Bool :=
  countryOk toUppercase (made dbs addr []) countries

variable {toUppercase : Text → Text} {dbs : Databases} {countries : Option (List Text)} {limit dropped : Option Nat} {seen : List Addr}
  {cands : List Candidate}

@[simp] theorem made_addr (addr : Addr) (protocols : List Proto) : (made dbs addr protocols).addr = addr := by
  obtain ⟨geo, asn⟩ := dbs
  cases geo <;> cases asn <;> rfl

@[simp] theorem made_expectedTypes (addr : Addr) (protocols : List Proto) : (made dbs addr protocols).expectedTypes = protocols := by
  obtain ⟨geo, asn⟩ := dbs
  cases geo <;> cases asn <;> rfl

/-- The filter reads the country only, and that depends on the host only. -/
theorem countryOk_made (toUppercase : Text → Text) (addr : Addr) (protocols : List Proto) :
    countryOk toUppercase (made dbs addr protocols) countries = passes toUppercase dbs countries addr := by
  obtain ⟨geo, asn⟩ := dbs
  cases geo <;> cases asn <;> rfl

/-- What the filter leaves of a candidate. -/
def admitted (toUppercase : Text → Text) (dbs : Databases) (countries : Option (List Text)) (cand : Candidate) : Option Proxy :=
  cand.addr.bind fun addr => if passes toUppercase dbs countries addr then some (made dbs addr cand.protocols) else none

theorem admitted_some {cand : Candidate} {p : Proxy} : admitted toUppercase dbs countries cand = some p ↔
    ∃ addr, cand.addr = some addr ∧ passes toUppercase dbs countries addr = true ∧ p = made dbs addr cand.protocols := by
  rw [admitted, Option.bind_eq_some_iff]
  refine exists_congr fun addr => and_congr_right fun _ => ?_
  split
  · rename_i ok
    simp [ok, eq_comm]
  · rename_i other
    simp [other]

/-- **The source**: the first candidate of each address, made into a proxy if it passes. -/
theorem sourceFrom_eq : sourceFrom toUppercase dbs countries seen cands =
    (firsts Candidate.addr seen cands).filterMap (admitted toUppercase dbs countries) := by
  induction cands generalizing seen with
  | nil => rfl
  | cons cand cands ih =>
    unfold sourceFrom firsts
    cases host : parseIpAddr cand.host with
    | none =>
      have keyless : cand.addr = none := by rw [Candidate.addr, host]; rfl
      rw [keyless]
      exact ih
    | some ip =>
      have keyed : cand.addr = some (ip, cand.port) := by rw [Candidate.addr, host]; rfl
      have ok : countryOk toUppercase (made dbs (ip, cand.port) cand.protocols) countries = passes toUppercase dbs countries (ip, cand.port) :=
        countryOk_made toUppercase (ip, cand.port) cand.protocols
      rw [made] at ok
      rw [keyed]
      dsimp only at ok ⊢
      by_cases old : (ip, cand.port) ∈ seen
      · rw [if_pos old, if_pos old]
        exact ih
      · rw [if_neg old, if_neg old, List.filterMap_cons, admitted, keyed, Option.bind_some, ih, ok]
        cases passes toUppercase dbs countries (ip, cand.port) <;> rfl

theorem mem_sourceFrom {p : Proxy} : p ∈ sourceFrom toUppercase dbs countries seen cands ↔ ∃ cand ∈ firsts Candidate.addr seen cands,
    ∃ addr, cand.addr = some addr ∧ passes toUppercase dbs countries addr = true ∧ p = made dbs addr cand.protocols := by
  rw [sourceFrom_eq, List.mem_filterMap]
  exact exists_congr fun cand => and_congr_right fun _ => admitted_some

theorem sourceFrom_nodup : ((sourceFrom toUppercase dbs countries seen cands).map Proxy.addr).Nodup := by
  rw [sourceFrom_eq, List.Nodup, List.pairwise_map, List.pairwise_filterMap]
  refine firsts_pairwise.imp ?_
  intro c d other p made_p q made_q same
  obtain ⟨a, at_a, -, rfl⟩ := admitted_some.1 made_p
  obtain ⟨b, at_b, -, rfl⟩ := admitted_some.1 made_q
  rw [made_addr, made_addr] at same
  rw [at_a, at_b, same] at other
  exact other rfl

/-- The source yields the address of every candidate that passes. -/
theorem sourceFrom_complete {cand : Candidate} {addr : Addr} (mem : cand ∈ cands) (at_addr : cand.addr = some addr)
    (new : addr ∉ seen) (ok : passes toUppercase dbs countries addr = true) :
    ∃ p ∈ sourceFrom toUppercase dbs countries seen cands, p.addr = addr := by
  obtain ⟨first, found⟩ := Option.isSome_iff_exists.1
    (List.find?_isSome (p := fun b => decide (Candidate.addr b = some addr)) |>.2 ⟨cand, mem, by simpa using at_addr⟩)
  have keyed : first.addr = some addr := by simpa using List.find?_some found
  exact ⟨_, mem_sourceFrom.2 ⟨first, mem_firsts.2 ⟨addr, new, found⟩, addr, keyed, ok, rfl⟩, made_addr _ _⟩

/-! ## The two tasks -/

/-- What a bound of `cap` leaves of a list when `n` elements are gone. -/
def left (cap : Option Nat) (n : Nat) (l : List Proxy) : List Proxy :=
  match cap with
  | some c => l.take (c - n)
  | none => l

theorem left_nil {cap : Option Nat} {n : Nat} (full : cap.any (· ≤ n) = true) (l : List Proxy) : left cap n l = [] := by
  cases cap with
  | none => cases full
  | some c =>
    have le : c ≤ n := by simpa using full
    rw [left, Nat.sub_eq_zero_of_le le, List.take_zero]

theorem left_cons {cap : Option Nat} {n : Nat} (room : cap.any (· ≤ n) = false) (p : Proxy) (l : List Proxy) :
    left cap n (p :: l) = p :: left cap (n + 1) l := by
  cases cap with
  | none => rfl
  | some c =>
    have lt : n < c := by simpa using room
    rw [left, left, show c - n = c - (n + 1) + 1 by omega, List.take_succ_cons]

theorem left_of_nil (cap : Option Nat) (n : Nat) : left cap n [] = [] := by
  cases cap with
  | none => rfl
  | some c => exact List.take_nil

theorem grab_returned {g : Grab} (returned : g.returned = true) :
    cands.foldl (grabTurn toUppercase dbs countries limit dropped) g = g := by
  induction cands with
  | nil => rfl
  | cons cand cands ih =>
    rw [List.foldl_cons, grabTurn, if_pos returned]
    exact ih

/-- **The loop** from any of its states: it sends what the source yields from here, cut at what is left of the
limit and of the receiver's patience. -/
theorem grab_loop {g : Grab} (going : g.returned = false) :
    (cands.foldl (grabTurn toUppercase dbs countries limit dropped) g).emitted =
      g.emitted ++ left dropped g.sent (left limit g.sent (sourceFrom toUppercase dbs countries g.seen cands)) := by
  induction cands generalizing g with
  | nil => rw [List.foldl_nil, sourceFrom, left_of_nil, left_of_nil, List.append_nil]
  | cons cand cands ih =>
    rw [List.foldl_cons]
    cases full : limit.any (· ≤ g.sent) with
    | true =>
      have stops : grabTurn toUppercase dbs countries limit dropped g cand = { g with returned := true } := by
        rw [grabTurn, if_neg (by simp [going]), if_pos full]
      rw [stops, grab_returned rfl, left_nil full, left_of_nil, List.append_nil]
    | false =>
      unfold sourceFrom
      cases host : parseIpAddr cand.host with
      | none =>
        have skips : grabTurn toUppercase dbs countries limit dropped g cand = g := by
          rw [grabTurn, if_neg (by simp [going]), if_neg (by simp [full]), host]
        rw [skips]
        exact ih going
      | some ip =>
        dsimp only
        by_cases old : (ip, cand.port) ∈ g.seen
        · have skips : grabTurn toUppercase dbs countries limit dropped g cand = g := by
            rw [grabTurn, if_neg (by simp [going]), if_neg (by simp [full]), host]
            exact if_pos old
          rw [skips, if_pos old]
          exact ih going
        · rw [if_neg old]
          by_cases ok : countryOk toUppercase (attachGeo dbs (Proxy.new ip cand.port cand.protocols)) countries = true
          · rw [if_pos ok, List.singleton_append, left_cons full]
            cases closed : dropped.any (· ≤ g.sent) with
            | true =>
              have stops : grabTurn toUppercase dbs countries limit dropped g cand =
                  { g with seen := (ip, cand.port) :: g.seen, returned := true } := by
                rw [grabTurn, if_neg (by simp [going]), if_neg (by simp [full]), host]
                simp only [if_neg old, if_pos ok, closed, if_true]
              rw [stops, grab_returned rfl, left_nil closed, List.append_nil]
            | false =>
              have sends : grabTurn toUppercase dbs countries limit dropped g cand =
                  { g with
                    seen := (ip, cand.port) :: g.seen, sent := g.sent + 1,
                    emitted := g.emitted ++ [attachGeo dbs (Proxy.new ip cand.port cand.protocols)] } := by
                rw [grabTurn, if_neg (by simp [going]), if_neg (by simp [full]), host]
                simp only [if_neg old, if_pos ok, closed, Bool.false_eq_true, if_false]
              rw [sends, left_cons closed]
              refine (ih (by exact going)).trans ?_
              rw [List.append_assoc, List.singleton_append]
          · have skips : grabTurn toUppercase dbs countries limit dropped g cand = { g with seen := (ip, cand.port) :: g.seen } := by
              rw [grabTurn, if_neg (by simp [going]), if_neg (by simp [full]), host]
              simp only [if_neg old, if_neg ok]
            rw [skips, if_neg ok, List.nil_append]
            exact ih (by exact going)

/-- What `grab_task` sends to a receiver that takes `dropped` proxies. -/
theorem grabTask_eq (toUppercase : Text → Text) (dbs : Databases) (query : GrabQuery) (dropped : Option Nat)
    (batches : List (List Candidate)) : grabTask toUppercase dbs query dropped batches =
      left dropped 0 (left query.limit 0 (findSource toUppercase dbs query.countries batches)) := by
  rw [grabTask, ← List.foldl_flatten, grab_loop rfl]
  rfl

/-- **`grab` and `find` see the same candidates.** For every order of batches, every country filter and every
limit, `grab_task` sends the first proxies of the source that `find_task` checks; these have distinct
addresses, all pass the filter, and every candidate that passes it is among them by its address. -/
theorem grab_sees_source (toUppercase : Text → Text) (dbs : Databases) (countries : Option (List Text)) (limit : Option Nat)
    (batches : List (List Candidate)) :
    grabTask toUppercase dbs ⟨countries, limit⟩ none batches =
      (match limit with
      | some l => (findSource toUppercase dbs countries batches).take l
      | none => findSource toUppercase dbs countries batches) ∧
    ((findSource toUppercase dbs countries batches).map Proxy.addr).Nodup ∧
    (∀ p ∈ findSource toUppercase dbs countries batches, countryOk toUppercase p (uppercaseSet toUppercase countries) = true) ∧
    ∀ candidates ∈ batches, ∀ cand ∈ candidates, ∀ host, parseIpAddr cand.host = some host →
      countryOk toUppercase (attachGeo dbs (Proxy.new host cand.port cand.protocols)) (uppercaseSet toUppercase countries) = true →
      ∃ p ∈ findSource toUppercase dbs countries batches, p.addr = (host, cand.port) := by
  refine ⟨?_, sourceFrom_nodup, ?_, ?_⟩
  · rw [grabTask_eq]
    cases limit with
    | none => rfl
    | some l => rfl
  · intro p mem
    obtain ⟨cand, -, addr, -, ok, rfl⟩ := mem_sourceFrom.1 mem
    rw [countryOk_made]
    exact ok
  · intro candidates at_batch cand at_cand host parsed ok
    have keyed : cand.addr = some (host, cand.port) := by rw [Candidate.addr, parsed]; rfl
    refine sourceFrom_complete (List.mem_flatten_of_mem at_batch at_cand) keyed (by simp) ?_
    rw [← countryOk_made toUppercase (host, cand.port) cand.protocols]
    exact ok

end ProxyBroker.Broker
