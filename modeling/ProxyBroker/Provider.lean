import ProxyBroker.Lib.Firsts
import ProxyBroker.Utils.Addresses

/-!
# Providers (`provider.rs`)

`ProviderSpec.extract` makes candidates of the pairs that a scanner or a custom expression finds on a page. The `regex`
crate is given: what it makes of a pattern, and the captures it finds.

The filters rest on each other: a host that `canonicalizeIp` accepts is taken to be an address from there on. A host with
a zone is not one, so the candidates are clean exactly when no pair with a port has such a host (`extract_clean_iff`).
-/

namespace ProxyBroker
open Lib

/-- One match of a custom expression: all of it, and its first two groups. -/
structure Captures where
  whole : Text
  first : Option Text
  second : Option Text
deriving DecidableEq, Repr

/-- The part of `provider.rs:ProviderSpec` that the extraction reads. -/
structure ProviderSpec where
  protocols : List Proto
  pattern : Option Text
deriving DecidableEq, Repr

/-- `provider.rs:Candidate`. -/
structure Candidate where
  host : Text
  port : UInt16
  protocols : List Proto
deriving DecidableEq, Repr

/-- What the loop of `extract_with_pattern` pushes for a match. -/
def Captures.pair (caps : Captures) : Option (Text × Text) :=
  match caps.first, caps.second with
  | some h, some p => some (h, p)
  | _, _ => rsplitOnce ':' caps.whole

/-- `provider.rs:extract_with_pattern`. -/
def extractWithPattern (compile : Text → Option (Text → List Captures)) (pattern body : Text) : List (Text × Text) :=
  match compile pattern with
  | none => []
  | some captures => (captures body).filterMap Captures.pair

/-- The body of the loop of `extract`, up to the test for duplicates. -/
def candidate (protocols : List Proto) : Text × Text → Option Candidate
  | (rawHost, rawPort) =>
    match parseU16 rawPort with
    | none => none
    | some port =>
      if port = 0 then none
      else
        match canonicalizeIp rawHost with
        | none => none
        | some host => if (parseIpAddr host).any IpAddr.isUnspecified then none else some ⟨host, port, protocols⟩

namespace ProviderSpec

variable (d : Parse.DigitClass) (compile : Text → Option (Text → List Captures))

/-- The pairs found on a page. -/
def pairs (spec : ProviderSpec) (body : Text) : List (Text × Text) :=
  match spec.pattern with
  | some pat => extractWithPattern compile pat body
  | none => Parse.findAddrsGlobal d body

/-- `ProviderSpec::extract`. -/
def extract (spec : ProviderSpec) (body : Text) : List Candidate :=
  let protocols := Proto.all.filter (spec.protocols.contains ·)
  firsts (fun cand : Candidate => some (cand.host, cand.port)) [] ((spec.pairs d compile body).filterMap (candidate protocols))

end ProviderSpec

/-! ## Clean candidates -/

/-- The host and the port that a pair stands for: an address that is not the unspecified one, in its canonical text, and a
port from 1 on. -/
def validPair : Text × Text → Option (Text × UInt16)
  | (rawHost, rawPort) => do
    let port ← parseU16 rawPort
    let ip ← parseIpAddr rawHost
    if port = 0 ∨ ip.isUnspecified then none else some (ip.display, port)

/-- The candidates are the valid pairs, each at its first place. -/
structure Clean (pairs : List (Text × Text)) (cands : List Candidate) : Prop where
  distinct : cands.Pairwise fun a b => (a.host, a.port) ≠ (b.host, b.port)
  port : ∀ cand ∈ cands, 1 ≤ cand.port.toNat
  host : ∀ cand ∈ cands, ∃ ip, parseIpAddr cand.host = some ip ∧ cand.host = ip.display ∧ ip.isUnspecified = false
  firsts : cands.map (fun cand => (cand.host, cand.port)) = (pairs.filterMap validPair).eraseDups

/-- A pair with a port from 1 on, and a zone. -/
def ZonedPair (pair : Text × Text) : Prop := Zoned pair.1 ∧ ∃ port, parseU16 pair.2 = some port ∧ port ≠ 0

section Extract

variable {protocols : List Proto} {pair : Text × Text} {cand : Candidate}

/-- Without a zone, a pair becomes a candidate exactly when it is valid. -/
theorem candidate_unzoned (unzoned : ¬ ZonedPair pair) :
    candidate protocols pair = (validPair pair).map fun v => ⟨v.1, v.2, protocols⟩ := by
  obtain ⟨rawHost, rawPort⟩ := pair
  unfold candidate validPair
  dsimp only
  cases number : parseU16 rawPort with
  | none => rfl
  | some port =>
    by_cases zero : port = 0
    · subst zero
      cases parseIpAddr rawHost <;> simp
    · have plain : ¬ Zoned rawHost := fun zoned => unzoned ⟨zoned, port, number, zero⟩
      rw [canonicalizeIp_plain plain]
      cases parsed : parseIpAddr rawHost with
      | none => simp [zero]
      | some ip =>
        cases sentinel : ip.isUnspecified with
        | true => simp [zero, sentinel, parse_display]
        | false => simp [zero, sentinel, parse_display]

/-- A pair with a zone becomes a candidate that is no address. -/
theorem candidate_zoned (zoned : ZonedPair pair) : ∃ cand, candidate protocols pair = some cand ∧ parseIpAddr cand.host = none := by
  obtain ⟨rawHost, rawPort⟩ := pair
  obtain ⟨⟨base, zone, bits, split, address⟩, port, number, some_port⟩ := zoned
  have no_address : parseIpAddr ((IpAddr.v6 bits).display ++ ['%'] ++ zone) = none := by
    cases parsed : parseIpAddr ((IpAddr.v6 bits).display ++ ['%'] ++ zone) with
    | none => rfl
    | some ip => exact absurd (by simp) (percent_not_mem parsed)
  refine ⟨⟨(IpAddr.v6 bits).display ++ ['%'] ++ zone, port, protocols⟩, ?_, no_address⟩
  have canonical : canonicalizeIp rawHost = some ((IpAddr.v6 bits).display ++ ['%'] ++ zone) := canonicalizeIp_zoned split address
  have read : parseU16 rawPort = some port := number
  unfold candidate
  dsimp only
  rw [read]
  dsimp only
  rw [if_neg some_port, canonical]
  dsimp only
  rw [no_address]
  rfl

theorem validPair_some {v : Text × UInt16} (h : validPair pair = some v) :
    v.2 ≠ 0 ∧ ∃ ip, parseIpAddr v.1 = some ip ∧ v.1 = ip.display ∧ ip.isUnspecified = false := by
  obtain ⟨rawHost, rawPort⟩ := pair
  simp only [validPair, Option.bind_eq_bind, Option.bind_eq_some_iff] at h
  obtain ⟨port, -, ip, -, h⟩ := h
  split at h
  · cases h
  · rename_i valid
    rw [not_or, Bool.not_eq_true] at valid
    cases h
    exact ⟨valid.1, ip, parse_display ip, rfl, valid.2⟩

/-! ## Extraction -/

variable {d : Parse.DigitClass} {compile : Text → Option (Text → List Captures)} {spec : ProviderSpec} {body : Text}

theorem mem_extract (mem : cand ∈ spec.extract d compile body) :
    ∃ pair ∈ spec.pairs d compile body, candidate (Proto.all.filter (spec.protocols.contains ·)) pair = some cand := by
  obtain ⟨k, -, found⟩ := mem_firsts.1 mem
  exact List.mem_filterMap.1 (List.mem_of_find?_eq_some found)

/-- For each candidate of a pair, one with its host and port comes out. -/
theorem exists_extract (listed : pair ∈ spec.pairs d compile body)
    (made : candidate (Proto.all.filter (spec.protocols.contains ·)) pair = some cand) :
    ∃ other ∈ spec.extract d compile body, other.host = cand.host ∧ other.port = cand.port := by
  have mem : cand ∈ (spec.pairs d compile body).filterMap (candidate (Proto.all.filter (spec.protocols.contains ·))) :=
    List.mem_filterMap.2 ⟨pair, listed, made⟩
  have somewhere : ((List.filterMap (candidate (Proto.all.filter (spec.protocols.contains ·))) (spec.pairs d compile body)).find?
      fun b : Candidate => decide (some (b.host, b.port) = some (cand.host, cand.port))).isSome := by
    rw [List.find?_isSome]
    exact ⟨cand, mem, by simp⟩
  obtain ⟨other, found⟩ := Option.isSome_iff_exists.1 somewhere
  have same := List.find?_some found
  rw [decide_eq_true_eq, Option.some.injEq, Prod.mk.injEq] at same
  exact ⟨other, mem_firsts.2 ⟨(cand.host, cand.port), List.not_mem_nil, found⟩, same⟩

/-- Without zones, the valid pairs come out. -/
theorem clean_of_unzoned (unzoned : ∀ pair ∈ spec.pairs d compile body, ¬ ZonedPair pair) :
    Clean (spec.pairs d compile body) (spec.extract d compile body) := by
  have valid : ∀ cand ∈ spec.extract d compile body, ∃ pair, validPair pair = some (cand.host, cand.port) := by
    intro cand mem
    obtain ⟨pair, listed, made⟩ := mem_extract mem
    rw [candidate_unzoned (unzoned pair listed)] at made
    obtain ⟨v, valid, rfl⟩ := Option.map_eq_some_iff.1 made
    exact ⟨pair, valid⟩
  refine ⟨?_, ?_, ?_, ?_⟩
  · refine firsts_pairwise.imp ?_
    intro a b other same
    exact other (congrArg some same)
  · intro cand mem
    obtain ⟨pair, pair_valid⟩ := valid cand mem
    have some_port : cand.port ≠ 0 := (validPair_some pair_valid).1
    rw [Nat.one_le_iff_ne_zero]
    intro zero
    exact some_port (UInt16.toNat_inj.1 zero)
  · intro cand mem
    obtain ⟨pair, pair_valid⟩ := valid cand mem
    exact (validPair_some pair_valid).2
  · have keys : ((spec.pairs d compile body).filterMap (candidate (Proto.all.filter (spec.protocols.contains ·)))).map
        (fun cand => (cand.host, cand.port)) = (spec.pairs d compile body).filterMap validPair := by
      rw [List.map_filterMap]
      refine List.filterMap_congr fun pair listed => ?_
      rw [candidate_unzoned (unzoned pair listed), Option.map_map]
      exact Option.map_id_apply
    rw [ProviderSpec.extract, map_firsts, keys, List.filter_eq_self.2 (by simp)]
    congr 1
    exact lawful_beq_subsingleton _ _

/-- **The candidates are clean** exactly when no pair with a port from 1 on has a host with a zone. -/
theorem extract_clean_iff (d : Parse.DigitClass) (compile : Text → Option (Text → List Captures)) (spec : ProviderSpec) (body : Text) :
    Clean (spec.pairs d compile body) (spec.extract d compile body) ↔ ∀ pair ∈ spec.pairs d compile body, ¬ ZonedPair pair := by
  constructor
  · intro clean pair listed zoned
    obtain ⟨cand, made, no_address⟩ := candidate_zoned zoned
    obtain ⟨other, mem, same, -⟩ := exists_extract listed made
    obtain ⟨ip, address, -, -⟩ := clean.host other mem
    rw [same, no_address] at address
    cases address
  · exact clean_of_unzoned

/-- The pattern `(fe80::[0-9a-f]+%\w+):(\d+)` on a page with one match. -/
theorem zone_comes_out :
    let pattern := "(fe80::[0-9a-f]+%\\w+):(\\d+)".toList
    let page := "fe80::1%eth0:8080".toList
    let compile := fun p => if p = pattern then some fun body => if body = page then
      [⟨page, some "fe80::1%eth0".toList, some "8080".toList⟩] else [] else none
    let spec : ProviderSpec := ⟨[], some pattern⟩
    ¬ Clean (spec.pairs .least compile page) (spec.extract .least compile page) := by
  intro pattern page compile spec clean
  have out : ⟨"fe80::1%eth0".toList, 8080, []⟩ ∈ spec.extract .least compile page := by decide
  obtain ⟨ip, address, -⟩ := clean.host _ out
  have no_address : parseIpAddr "fe80::1%eth0".toList = none := by decide
  rw [no_address] at address
  cases address

/-! ## The scanner -/

/-- The scanner finds digits and dots. -/
theorem scanned_chars : ∀ pair ∈ Parse.findAddrsGlobal d body, ∀ c ∈ pair.1, v4Char d c := by
  generalize length : body.length = n
  induction n using Nat.strongRecOn generalizing body with
  | ind n ih =>
    rw [Parse.findAddrsGlobal]
    split
    · simp
    · rename_i ip found
      have shorter := Regex.find_shorter (Parse.plain_ipv4 d) Parse.ipv4_shorter found
      intro pair mem
      rcases List.mem_append.1 mem with here | later
      · obtain ⟨port, -, rfl⟩ := Option.map_eq_some_iff.1 (Option.mem_toList.1 here)
        exact within_ipv4.matched found
      · exact ih ip.rest.length (length ▸ shorter) rfl pair later

/-- **Without a pattern the candidates are always clean.** -/
theorem extract_clean_of_scanner (scanner : spec.pattern = none) :
    Clean (spec.pairs d compile body) (spec.extract d compile body) := by
  apply clean_of_unzoned
  intro pair listed zoned
  rw [ProviderSpec.pairs, scanner] at listed
  obtain ⟨⟨base, zone, bits, split, -⟩, -⟩ := zoned
  have percent : '%' ∈ pair.1 := by
    rw [splitOnceAt_some split]
    simp
  have inside := scanned_chars pair listed '%' percent
  rw [v4Char, d.ascii '%' (by decide)] at inside
  cases inside

end Extract

end ProxyBroker
