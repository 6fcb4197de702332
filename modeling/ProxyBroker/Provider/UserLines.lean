import ProxyBroker.Parse.OneLine
import ProxyBroker.Provider

/-!
# A line of a user and a line of a provider (`parse.rs`, `provider.rs`)

`parse_proxy_lines` and `ProviderSpec::extract` read lines of the form `a.b.c.d:p`. Both scanners find the same address on
such a line (`AddrLine.scanned`). What is found is then read leniently for a user and strictly for a provider, who also
drops port 0 and the unspecified address, so the two agree on the lines that are `Ordinary` and on no others.
-/

namespace ProxyBroker
open Lib Parse

/-- A line `a.b.c.e:p`, with a port of two to five digits. -/
structure AddrLine where
  (a b c e p : Text)
  octetA : Octet a
  octetB : Octet b
  octetC : Octet c
  octetE : Octet e
  digits : ∀ x ∈ p, x.isDigit
  ports : 2 ≤ p.length ∧ p.length ≤ 5

/-- No zero leads. -/
def Leadless (w : Text) : Prop := ¬ (w.head? = some '0' ∧ 1 < w.length)

instance (w : Text) : Decidable (Leadless w) := inferInstanceAs (Decidable (¬ _))

/-! ## Reading the address -/

section Reading

variable {w b c e rest : Text}

theorem toDigit_isDigit {x : Char} (digit : x.isDigit) : toDigit 10 x = some (x.toNat - '0'.toNat) := by
  have range := isDigit_range digit
  unfold toDigit
  dsimp only
  rw [if_pos range, if_pos (by omega)]
  rfl

theorem takeWhile_digits (digits : ∀ x ∈ w, x.isDigit) (ends : Ends 10 rest) :
    (w ++ rest).takeWhile (fun x => (toDigit 10 x).isSome) = w := by
  have stops : rest.takeWhile (fun x => (toDigit 10 x).isSome) = [] := by
    cases rest with
    | nil => rfl
    | cons x rest => simp [ends x rfl]
  have all : ∀ x ∈ w, (toDigit 10 x).isSome = true := fun x mem => by rw [toDigit_isDigit (digits x mem)]; rfl
  rw [List.takeWhile_append_of_pos all, stops, List.append_nil]

theorem foldl_toDigit (digits : ∀ x ∈ w, x.isDigit) (start : Nat) :
    w.foldl (fun n x => n * 10 + (toDigit 10 x).getD 0) start = w.foldl (fun n c => n * 10 + (c.toNat - '0'.toNat)) start := by
  induction w generalizing start with
  | nil => rfl
  | cons x w ih =>
    rw [List.foldl_cons, List.foldl_cons, toDigit_isDigit (digits x List.mem_cons_self)]
    exact ih (fun y mem => digits y (List.mem_cons_of_mem x mem)) _

/-- A strict octet. -/
theorem readNumber_octet (octet : Octet w) (small : value w < 256) (ends : Ends 10 rest) :
    readNumber 10 3 256 false (w ++ rest) = if Leadless w then some (value w, rest) else none := by
  have some_digit : w.length ≠ 0 := (List.length_pos_iff.2 octet.nonempty).ne'
  have short := octet.short
  have number : w.foldl (fun n x => n * 10 + (toDigit 10 x).getD 0) 0 = value w := foldl_toDigit octet.digits 0
  unfold readNumber
  dsimp only
  rw [takeWhile_digits octet.digits ends, number, if_neg (by omega), List.drop_left]
  by_cases leads : w.head? = some '0' ∧ 1 < w.length
  · rw [if_pos ⟨by decide, leads⟩]
    exact (if_neg (not_not.2 leads)).symm
  · rw [if_neg (fun h => leads h.2), if_neg (Nat.not_le.2 small)]
    exact (if_pos leads).symm

/-- The address of four octets. -/
def address (w b c e : Text) : IpAddr := .v4 (BitVec.ofNat 32 (joinFields 8 [value w, value b, value c, value e]))

/-- Four octets with no leading zero. -/
def AllLeadless (w b c e : Text) : Prop := Leadless w ∧ Leadless b ∧ Leadless c ∧ Leadless e

instance (w b c e : Text) : Decidable (AllLeadless w b c e) := inferInstanceAs (Decidable (_ ∧ _))

theorem colon_not_mem_dotted (ow : Octet w) (ob : Octet b) (oc : Octet c) (oe : Octet e) : ':' ∉ dotted w b c e := by
  have missing {v : Text} (ov : Octet v) : ':' ∉ v := not_mem_of_isDigit ov.digits (by decide)
  simp [dotted, missing ow, missing ob, missing oc, missing oe]

/-- `str::parse` on digits. -/
theorem parseUnsigned_value {bound : Nat} (digits : ∀ x ∈ w, x.isDigit) (nonempty : w ≠ []) :
    parseUnsigned bound w = if value w < bound then some (value w) else none :=
  parseUnsigned_digits digits nonempty

theorem parseU8_octet (octet : Octet w) (small : value w < 256) : Parse.parseU8 w = some (UInt8.ofNat (value w)) := by
  have bound : value w < 2 ^ 8 := small
  rw [Parse.parseU8, parseUnsigned_value octet.digits octet.nonempty, if_pos bound, Option.map_some]

section Parsed

variable (ow : Octet w) (ob : Octet b) (oc : Octet c) (oe : Octet e)
variable (small : value w < 256 ∧ value b < 256 ∧ value c < 256 ∧ value e < 256)

include ow ob oc oe small

theorem readV4_dotted :
    readV4 (dotted w b c e) = if AllLeadless w b c e then some ([value w, value b, value c, value e], []) else none := by
  have dot (t : Text) : Ends 10 ('.' :: t) := by
    intro x head
    cases head
    decide
  have first := readNumber_octet ow small.1 (dot (b ++ '.' :: (c ++ '.' :: e)))
  have second := readNumber_octet ob small.2.1 (dot (c ++ '.' :: e))
  have third := readNumber_octet oc small.2.2.1 (dot e)
  have fourth := readNumber_octet oe small.2.2.2 (show Ends 10 [] by simp [Ends])
  rw [List.append_nil] at fourth
  simp only [readV4, readV4Octets, readSeparator, readChar, dotted, if_true, Option.bind_eq_bind, Option.bind_some, first]
  by_cases lw : Leadless w
  · by_cases lb : Leadless b
    · by_cases lc : Leadless c
      · by_cases le : Leadless e <;> simp [AllLeadless, second, third, fourth, lw, lb, lc, le]
      · simp [AllLeadless, second, third, lw, lb, lc]
    · simp [AllLeadless, second, lw, lb]
  · simp [AllLeadless, lw]

theorem parseIpAddr_dotted : parseIpAddr (dotted w b c e) = if AllLeadless w b c e then some (address w b c e) else none := by
  rw [parseIpAddr, readV6_eq_none (colon_not_mem_dotted ow ob oc oe), readV4_dotted ow ob oc oe small]
  by_cases all : AllLeadless w b c e
  · simp only [if_pos all]
    rfl
  · simp only [if_neg all]

theorem parseIpLenient_dotted : Parse.parseIpLenient (dotted w b c e) = some (address w b c e) := by
  have some_text : dotted w b c e ≠ [] := by simp [dotted]
  have dots : '.' ∈ dotted w b c e := by simp [dotted]
  have no_dot {v : Text} (ov : Octet v) : '.' ∉ v := not_mem_of_isDigit ov.digits (by decide)
  have parts : splitOn '.' (dotted w b c e) = [w, b, c, e] := by
    rw [dotted, splitOn_append (no_dot ow), splitOn_append (no_dot ob), splitOn_append (no_dot oc), splitOn_clean (no_dot oe)]
  rw [Parse.parseIpLenient, if_neg some_text, parseIpAddr_dotted ow ob oc oe small]
  by_cases all : AllLeadless w b c e
  · rw [if_pos all]
  · rw [if_neg all]
    dsimp only
    have numbers : [w, b, c, e].mapM Parse.parseU8 =
        some [UInt8.ofNat (value w), UInt8.ofNat (value b), UInt8.ofNat (value c), UInt8.ofNat (value e)] := by
      simp [parseU8_octet ow small.1, parseU8_octet ob small.2.1, parseU8_octet oc small.2.2.1, parseU8_octet oe small.2.2.2]
    have four : [w, b, c, e].length = 4 := rfl
    have back {n : Nat} (low : n < 256) : (UInt8.ofNat n).toNat = n := by rw [UInt8.toNat_ofNat', Nat.mod_eq_of_lt low]
    rw [if_pos ⟨dots, colon_not_mem_dotted ow ob oc oe⟩, parts, if_pos four, numbers, Option.map_some, IpAddr.ofOctets4]
    simp only [List.map_cons, List.map_nil, back small.1, back small.2.1, back small.2.2.1, back small.2.2.2]
    rfl

end Parsed

end Reading

/-! ## The two readers -/

namespace AddrLine

variable (l : AddrLine)

/-- The text of the line. -/
def text : Text := dotted l.a l.b l.c (l.e ++ ':' :: l.p)

/-- What the scanners take of it. -/
def found : Text := dotted (frontOctet l.a) l.b l.c (backOctet l.e)

/-- The address of that. -/
def ip : IpAddr := address (frontOctet l.a) l.b l.c (backOctet l.e)

/-- The octets in the middle are at most 255. -/
def Middle : Prop := value l.b < 256 ∧ value l.c < 256

instance : Decidable l.Middle := inferInstanceAs (Decidable (_ ∧ _))

/-- No octet that is taken has a leading zero. -/
def Strict : Prop := AllLeadless (frontOctet l.a) l.b l.c (backOctet l.e)

instance : Decidable l.Strict := inferInstanceAs (Decidable (AllLeadless _ _ _ _))

variable {l} {d : Parse.DigitClass} {compile : Text → Option (Text → List Captures)} {spec : ProviderSpec}

theorem one_line (l : AddrLine) : splitOn '\n' l.text = [l.text] := by
  have missing {v : Text} (digits : ∀ x ∈ v, x.isDigit) : '\n' ∉ v := not_mem_of_isDigit digits (by decide)
  apply splitOn_clean
  simp [text, dotted, missing l.octetA.digits, missing l.octetB.digits, missing l.octetC.digits, missing l.octetE.digits,
    missing l.digits]

/-- Both scanners find the same. -/
theorem scanned (middle : l.Middle) : Parse.findAddrsLine d l.text = [(l.found, l.p)] ∧ Parse.findAddrsGlobal d l.text = [(l.found, l.p)] := by
  have stop : Parse.NoDigit d (':' :: l.p) := Parse.noDigit_cons (by decide) (by decide)
  obtain ⟨n, r, short, found⟩ := find_dotted l.octetA l.octetB l.octetC l.octetE middle stop
  obtain ⟨k, port⟩ := find_port (d := d) short l.digits l.ports
  constructor
  · have line : Parse.scanLine d l.text = some (l.found, l.p) := by
      rw [Parse.scanLine, text, found, Option.bind_eq_bind, Option.bind_some, port]
      rfl
    rw [Parse.findAddrsLine, one_line, List.filterMap_cons, line, List.filterMap_nil]
  · have nowhere : (Parse.ipv4 d).find (r ++ ':' :: l.p) = none := by
      apply find_few_dots
      have left := List.count_le_length (a := '.') (l := r)
      have right : (':' :: l.p).count '.' = 0 := by
        rw [List.count_cons_of_ne (by decide), count_digits l.digits]
      rw [List.count_append, right]
      omega
    have next : Parse.nextPort d (r ++ ':' :: l.p) = some l.p := by
      rw [Parse.nextPort, port, nowhere]
    have whole : (Parse.ipv4 d).find l.text = some ⟨n, l.found, r ++ ':' :: l.p⟩ := found
    rw [Parse.findAddrsGlobal_some whole, next, Parse.findAddrsGlobal_none nowhere]
    rfl

theorem scanned_nothing (large : ¬ l.Middle) : Parse.findAddrsLine d l.text = [] ∧ Parse.findAddrsGlobal d l.text = [] := by
  have no_dots : (l.e ++ ':' :: l.p).count '.' = 0 := by
    rw [List.count_append, count_digits l.octetE.digits, List.count_cons_of_ne (by decide), count_digits l.digits]
  have nowhere : (Parse.ipv4 d).find l.text = none := find_large l.octetA l.octetB l.octetC no_dots large
  refine ⟨?_, Parse.findAddrsGlobal_none nowhere⟩
  have line : Parse.scanLine d l.text = none := by
    rw [Parse.scanLine, nowhere]
    rfl
  rw [Parse.findAddrsLine, one_line, List.filterMap_cons, line, List.filterMap_nil]

theorem small_found (middle : l.Middle) :
    value (frontOctet l.a) < 256 ∧ value l.b < 256 ∧ value l.c < 256 ∧ value (backOctet l.e) < 256 :=
  ⟨(octet_front l.octetA).2, middle.1, middle.2, (octet_back l.octetE).2⟩

theorem parseU16_port (l : AddrLine) : parseU16 l.p = if value l.p < 65536 then some (UInt16.ofNat (value l.p)) else none := by
  have some_digit : l.p ≠ [] := by
    intro empty
    have two := l.ports.1
    rw [empty] at two
    exact absurd two (by decide)
  have bound : 2 ^ 16 = 65536 := rfl
  rw [parseU16, parseUnsigned_value l.digits some_digit, bound]
  by_cases low : value l.p < 65536
  · rw [if_pos low, if_pos low, Option.map_some]
  · rw [if_neg low, if_neg low, Option.map_none]

/-- The pairs of `parse_proxy_lines`. -/
def userPairs (d : Parse.DigitClass) (text : Text) : List (IpAddr × UInt16) := (Parse.parseProxyLines d text).map Proxy.addr

/-- The pairs of `extract`, with the hosts parsed. -/
def providerPairs (d : Parse.DigitClass) (compile : Text → Option (Text → List Captures)) (spec : ProviderSpec) (text : Text) :
    List (IpAddr × UInt16) :=
  (spec.extract d compile text).filterMap fun cand => (parseIpAddr cand.host).map fun ip => (ip, cand.port)

theorem userPairs_eq (l : AddrLine) : userPairs d l.text =
    if l.Middle ∧ value l.p < 65536 then [(l.ip, UInt16.ofNat (value l.p))] else [] := by
  by_cases middle : l.Middle
  · have lenient : Parse.parseIpLenient l.found = some l.ip :=
      parseIpLenient_dotted (octet_front l.octetA).1 l.octetB l.octetC (octet_back l.octetE).1 (small_found middle)
    rw [userPairs, Parse.parseProxyLines, (scanned middle).1, List.filterMap_cons, List.filterMap_nil]
    simp only [lenient, parseU16_port, Option.bind_eq_bind, Option.bind_some]
    by_cases low : value l.p < 65536
    · rw [if_pos low, if_pos ⟨middle, low⟩]
      rfl
    · rw [if_neg low, if_neg fun both => low both.2]
      rfl
  · rw [userPairs, Parse.parseProxyLines, (scanned_nothing middle).1, if_neg fun both => middle both.1]
    rfl

/-- The address is `0.0.0.0` where all octets are zero. -/
theorem isUnspecified_address {w b c e : Text} (small : value w < 256 ∧ value b < 256 ∧ value c < 256 ∧ value e < 256) :
    (address w b c e).isUnspecified ↔ value w = 0 ∧ value b = 0 ∧ value c = 0 ∧ value e = 0 := by
  rw [address, IpAddr.isUnspecified, decide_eq_true_eq, ← BitVec.toNat_inj, BitVec.toNat_ofNat]
  have zero : (0 : BitVec 32).toNat = 0 := rfl
  simp only [joinFields, List.foldl_cons, List.foldl_nil, zero]
  omega

theorem percent_not_mem_found (l : AddrLine) : '%' ∉ l.found := by
  have missing {v : Text} (ov : Octet v) : '%' ∉ v := not_mem_of_isDigit ov.digits (by decide)
  simp [found, dotted, missing (octet_front l.octetA).1, missing l.octetB, missing l.octetC, missing (octet_back l.octetE).1]

theorem validPair_found (middle : l.Middle) : validPair (l.found, l.p) =
    if value l.p < 65536 ∧ value l.p ≠ 0 ∧ l.Strict ∧ l.ip.isUnspecified = false then some (l.ip.display, UInt16.ofNat (value l.p)) else none := by
  have strict : parseIpAddr l.found = if l.Strict then some l.ip else none :=
    parseIpAddr_dotted (octet_front l.octetA).1 l.octetB l.octetC (octet_back l.octetE).1 (small_found middle)
  rw [validPair, parseU16_port, strict]
  by_cases low : value l.p < 65536
  · have zero : UInt16.ofNat (value l.p) = 0 ↔ value l.p = 0 := by
      rw [← UInt16.toNat_inj, UInt16.toNat_ofNat', Nat.mod_eq_of_lt low, UInt16.toNat_zero]
    by_cases all : l.Strict
    · rw [if_pos low, if_pos all]
      by_cases valid : value l.p ≠ 0 ∧ l.ip.isUnspecified = false
      · simp [zero, low, all, valid]
      · rw [if_neg fun h => valid ⟨h.2.1, h.2.2.2⟩]
        simp only [Option.bind_eq_bind, Option.bind_some, zero]
        rw [if_pos]
        rw [not_and_or, not_ne_iff, Bool.not_eq_false] at valid
        exact valid
    · rw [if_pos low, if_neg all, if_neg fun h => all h.2.2.1]
      rfl
  · have invalid : ¬ (value l.p < 65536 ∧ value l.p ≠ 0 ∧ l.Strict ∧ l.ip.isUnspecified = false) := fun h => low h.1
    rw [if_neg low, if_neg invalid]
    rfl

theorem providerPairs_eq (default : spec.pattern = none) (l : AddrLine) : providerPairs d compile spec l.text =
    if l.Middle ∧ value l.p < 65536 ∧ value l.p ≠ 0 ∧ l.Strict ∧ l.ip.isUnspecified = false
    then [(l.ip, UInt16.ofNat (value l.p))] else [] := by
  have pairs : spec.pairs d compile l.text = Parse.findAddrsGlobal d l.text := by rw [ProviderSpec.pairs, default]
  rw [providerPairs, ProviderSpec.extract, pairs]
  by_cases middle : l.Middle
  · have unzoned : ¬ ZonedPair (l.found, l.p) := by
      rintro ⟨⟨base, zone, bits, split, -⟩, -⟩
      have whole : l.found = base ++ ['%'] ++ zone := splitOnceAt_some split
      exact percent_not_mem_found l (by rw [whole]; simp)
    rw [(scanned middle).2, List.filterMap_cons, candidate_unzoned unzoned, validPair_found middle]
    by_cases valid : value l.p < 65536 ∧ value l.p ≠ 0 ∧ l.Strict ∧ l.ip.isUnspecified = false
    · rw [if_pos valid, if_pos ⟨middle, valid⟩]
      simp [firsts, parse_display]
    · rw [if_neg valid, if_neg fun h => valid h.2]
      rfl
  · rw [(scanned_nothing middle).2, if_neg fun h => middle h.1]
    rfl

end AddrLine

/-- What makes both readers agree on a line: nothing to be read, or a port other than 0 and a strict address other than
`0.0.0.0`. -/
def AddrLine.Ordinary (l : AddrLine) : Prop :=
  256 ≤ value l.b ∨ 256 ≤ value l.c ∨ 65536 ≤ value l.p ∨
    (value l.p ≠ 0 ∧ l.Strict ∧ ¬ (value (frontOctet l.a) = 0 ∧ value l.b = 0 ∧ value l.c = 0 ∧ value (backOctet l.e) = 0))

/-- **A line of a user and a line of a provider** are read alike exactly when the line is ordinary. -/
theorem user_and_provider_agree_iff (d : Parse.DigitClass) (compile : Text → Option (Text → List Captures)) (spec : ProviderSpec)
    (default : spec.pattern = none) (l : AddrLine) :
    AddrLine.userPairs d l.text = AddrLine.providerPairs d compile spec l.text ↔ l.Ordinary := by
  rw [AddrLine.userPairs_eq, AddrLine.providerPairs_eq default]
  by_cases read : l.Middle ∧ value l.p < 65536
  · have unspecified : l.ip.isUnspecified ↔ _ := AddrLine.isUnspecified_address (AddrLine.small_found read.1)
    have beyond : ¬ 256 ≤ value l.b ∧ ¬ 256 ≤ value l.c ∧ ¬ 65536 ≤ value l.p :=
      ⟨Nat.not_le.2 read.1.1, Nat.not_le.2 read.1.2, Nat.not_le.2 read.2⟩
    rw [if_pos read, AddrLine.Ordinary, or_iff_right beyond.1, or_iff_right beyond.2.1, or_iff_right beyond.2.2, ← unspecified, Bool.not_eq_true]
    by_cases valid : value l.p ≠ 0 ∧ l.Strict ∧ l.ip.isUnspecified = false
    · rw [if_pos ⟨read.1, read.2, valid⟩]
      exact iff_of_true rfl valid
    · rw [if_neg fun h => valid h.2.2]
      exact iff_of_false (List.cons_ne_nil _ _) valid
  · rw [if_neg read, if_neg fun h => read ⟨h.1, h.2.1⟩]
    refine iff_of_true rfl ?_
    rw [AddrLine.Middle, not_and_or, not_and_or, Nat.not_lt, Nat.not_lt, Nat.not_lt, or_assoc] at read
    rcases read with large | large | large
    · exact Or.inl large
    · exact Or.inr (Or.inl large)
    · exact Or.inr (Or.inr (Or.inl large))

/-- `1.2.3.4:80`. -/
def plainLine : AddrLine where
  a := "1".toList
  b := "2".toList
  c := "3".toList
  e := "4".toList
  p := "80".toList
  octetA := ⟨List.all_eq_true.1 (by decide), by decide, by decide⟩
  octetB := ⟨List.all_eq_true.1 (by decide), by decide, by decide⟩
  octetC := ⟨List.all_eq_true.1 (by decide), by decide, by decide⟩
  octetE := ⟨List.all_eq_true.1 (by decide), by decide, by decide⟩
  digits := List.all_eq_true.1 (by decide)
  ports := by decide

theorem user_and_provider_agree_plain : AddrLine.userPairs .least plainLine.text =
    AddrLine.providerPairs .least (fun _ => none) ⟨[], none⟩ plainLine.text ↔ plainLine.Ordinary :=
  user_and_provider_agree_iff .least (fun _ => none) ⟨[], none⟩ rfl plainLine

/-- `010.1.1.1:8080`. -/
def zeroLine : AddrLine := { plainLine with
  a := "010".toList
  p := "8080".toList
  octetA := ⟨List.all_eq_true.1 (by decide), by decide, by decide⟩
  digits := List.all_eq_true.1 (by decide)
  ports := by decide }

/-- A user's line with a leading zero is read, and a provider's is dropped. -/
theorem leading_zero_parts : AddrLine.userPairs .least zeroLine.text ≠
    AddrLine.providerPairs .least (fun _ => none) ⟨[], none⟩ zeroLine.text := by
  rw [AddrLine.userPairs_eq, AddrLine.providerPairs_eq rfl, if_pos (by decide), if_neg (by decide)]
  exact List.cons_ne_nil _ _

end ProxyBroker
