import Mathlib.Data.Finset.Union
import Mathlib.Data.List.DropRight
import ProxyBroker.Lib.IpLiteral
import ProxyBroker.Lib.Tokens
import ProxyBroker.Parse.AddrLines

/-!
# Addresses in a text (`utils.rs`)

`canonicalizeIp` gives an address its canonical text and leaves the zone of an address of IPv6 as it is. `getAllIp` takes
the addresses of a page with two expressions, one for each family. `mem_getAllIp` is what both have to find: an address
in its canonical text, between characters that no address is written with (`Delimiter`).
-/

namespace ProxyBroker
open Lib

/-- `IpAddr::is_unspecified`. -/
def Lib.IpAddr.isUnspecified : IpAddr → Bool
  | .v4 bits => bits = 0
  | .v6 bits => bits = 0

/-- `utils.rs:canonicalize_ip`. -/
def canonicalizeIp (s : Text) : Option Text :=
  match splitOnce '%' s with
  | some (base, zone) =>
    match parseIpAddr base with
    | some (.v6 bits) => some ((IpAddr.v6 bits).display ++ ['%'] ++ zone)
    | _ => none
  | none => (parseIpAddr s).map IpAddr.display

/-- An address of IPv6 with a zone. -/
def Zoned (s : Text) : Prop := ∃ base zone bits, splitOnce '%' s = some (base, zone) ∧ parseIpAddr base = some (.v6 bits)

variable {s host base zone : Text} {bits : BitVec 128}

theorem percent_not_mem {ip : IpAddr} (h : parseIpAddr s = some ip) : '%' ∉ s := by
  intro mem
  have literal := literalChar_of_parse h '%' mem
  unfold LiteralChar at literal
  revert literal
  decide

theorem canonicalizeIp_zoned (split : splitOnce '%' s = some (base, zone)) (address : parseIpAddr base = some (.v6 bits)) :
    canonicalizeIp s = some ((IpAddr.v6 bits).display ++ ['%'] ++ zone) := by
  rw [canonicalizeIp, split]
  show (match parseIpAddr base with | some (.v6 bits) => some ((IpAddr.v6 bits).display ++ ['%'] ++ zone) | _ => none) = _
  rw [address]

/-- Without a zone the address is parsed, and printed. -/
theorem canonicalizeIp_plain (plain : ¬ Zoned s) : canonicalizeIp s = (parseIpAddr s).map IpAddr.display := by
  rw [canonicalizeIp]
  rcases splitOnce_cases '%' s with ⟨unsplit, -⟩ | ⟨l, r, split, eq, -⟩
  · rw [unsplit]
  · have no_address : parseIpAddr s = none := by
      cases parsed : parseIpAddr s with
      | none => rfl
      | some ip =>
        have missing := percent_not_mem parsed
        rw [eq] at missing
        exact absurd (List.mem_append_right l List.mem_cons_self) missing
    rw [split, no_address]
    dsimp only
    split
    · rename_i bits address
      exact absurd ⟨l, r, bits, split, address⟩ plain
    · rfl

theorem not_zoned_of_parse {ip : IpAddr} (h : parseIpAddr s = some ip) : ¬ Zoned s := by
  rintro ⟨base, zone, bits, split, -⟩
  rcases splitOnce_cases '%' s with ⟨unsplit, -⟩ | ⟨l, r, -, eq, -⟩
  · rw [unsplit] at split
    cases split
  · have missing := percent_not_mem h
    rw [eq] at missing
    exact missing (List.mem_append_right l List.mem_cons_self)

theorem canonicalizeIp_display (ip : IpAddr) : canonicalizeIp ip.display = some ip.display := by
  rw [canonicalizeIp_plain (not_zoned_of_parse (parse_display ip)), parse_display, Option.map_some]

/-! ## All addresses of a page -/

/-- `[0-9A-Fa-f:]`. -/
def v6Start (c : Char) : Bool := c.isDigit || (decide ('A' ≤ c) && decide (c ≤ 'F')) || (decide ('a' ≤ c) && decide (c ≤ 'f')) || c == ':'

/-- `[0-9A-Fa-f:.]`. -/
def v6More (c : Char) : Bool := v6Start c || c == '.'

/-- `[A-Za-z0-9_.\-]`. -/
def zoneChar (c : Char) : Bool := c.isAlpha || c.isDigit || c == '_' || c == '.' || c == '-'

/-- `utils.rs:IPV6_CANDIDATE_RE`. -/
def ipv6Candidate : Regex Char :=
  .seq (.char v6Start) (.seq (.star true v6More) (.opt (.seq (Parse.literal '%') (.seq (.char zoneChar) (.star true zoneChar)))))

/-- `utils.rs:get_all_ip`. -/
def getAllIp (d : Parse.DigitClass) (page : Text) : Finset Text :=
  ((Parse.ipv4 d).findIter page).toFinset ∪ (((ipv6Candidate.findIter page).filterMap fun tok =>
    if ':' ∈ tok then canonicalizeIp (tok.rdropWhile (· = '.')) else none)).toFinset

/-! ## What is found -/

/-- A character next to an address: no digit, and none of `A` to `Z`, `a` to `z`, `_`, `.`, `:`, `%` and `-`. -/
def Delimiter (d : Parse.DigitClass) (c : Char) : Prop :=
  d.has c = false ∧ c.isAlpha = false ∧ c ∉ ['_', '.', ':', '%', '-']

instance (d : Parse.DigitClass) (c : Char) : Decidable (Delimiter d c) := inferInstanceAs (Decidable (_ ∧ _))

section Found

variable {d : Parse.DigitClass} {c : Char} {before after : Text}

/-- What the expression for IPv4 is written with. -/
def v4Char (d : Parse.DigitClass) (c : Char) : Bool := d.has c || c == '.'

/-- What the expression for IPv6 is written with. -/
def v6Char (c : Char) : Bool := v6More c || zoneChar c || c == '%'

theorem within_octet : (Parse.octet d).Within (v4Char d) := by
  have one {a b : Char} (lo : 48 ≤ a.toNat) (hi : b.toNat ≤ 57) (c : Char) (is : decide (a ≤ c) && decide (c ≤ b)) : v4Char d c := by
    rw [v4Char, Parse.has_between lo hi (by simpa using is)]
    rfl
  have single {l : Char} (lo : 48 ≤ l.toNat) (hi : l.toNat ≤ 57) (c : Char) (is : c == l) : v4Char d c :=
    one (a := l) (b := l) lo hi c (by rw [eq_of_beq is]; simp)
  have any (c : Char) (is : d.has c) : v4Char d c := by
    rw [v4Char, is]
    rfl
  exact ⟨⟨single (by decide) (by decide), single (by decide) (by decide), one (by decide) (by decide)⟩,
    ⟨single (by decide) (by decide), one (by decide) (by decide), any⟩, ⟨one (by decide) (by decide), trivial⟩, any, any, trivial⟩

theorem within_ipv4 : (Parse.ipv4 d).Within (v4Char d) := by
  refine ⟨Regex.Within.times ⟨within_octet, ?_⟩, within_octet⟩
  intro c dot
  rw [eq_of_beq dot, v4Char]
  exact Bool.or_true _

theorem within_ipv6 : ipv6Candidate.Within v6Char := by
  have start (c : Char) (is : v6Start c) : v6Char c := by simp [v6Char, v6More, is]
  have more (c : Char) (is : v6More c) : v6Char c := by simp [v6Char, is]
  have zone (c : Char) (is : zoneChar c) : v6Char c := by simp [v6Char, is]
  refine ⟨start, more, ⟨?_, zone, zone⟩, trivial⟩
  intro c percent
  rw [eq_of_beq percent]
  rfl

theorem Delimiter.not_v4Char (outside : Delimiter d c) : v4Char d c = false := by
  obtain ⟨no_digit, -, no_symbol⟩ := outside
  simp only [List.mem_cons, List.not_mem_nil, or_false, not_or] at no_symbol
  simp [v4Char, no_digit, no_symbol]

theorem Delimiter.not_v6Char (outside : Delimiter d c) : v6Char c = false := by
  obtain ⟨no_digit, no_letter, no_symbol⟩ := outside
  simp only [List.mem_cons, List.not_mem_nil, or_false, not_or] at no_symbol
  have not_digit : c.isDigit = false := by
    cases digit : c.isDigit with
    | false => rfl
    | true =>
      rw [Parse.has_of_isDigit digit] at no_digit
      cases no_digit
  have not_hex : ('A' ≤ c → 'F' < c) ∧ ('a' ≤ c → 'f' < c) := by
    obtain ⟨no_upper, no_lower⟩ := Bool.or_eq_false_iff.1 no_letter
    have no_upper : ¬ (c.val ≥ 'A'.val ∧ c.val ≤ 'Z'.val) := of_decide_eq_false no_upper
    have no_lower : ¬ (c.val ≥ 'a'.val ∧ c.val ≤ 'z'.val) :=
      of_decide_eq_false ((Bool.decide_and _ _).trans no_lower)
    simp only [Char.le_def, Char.lt_def, ge_iff_le, UInt32.le_iff_toNat_le, UInt32.lt_iff_toNat_lt] at no_upper no_lower ⊢
    simp only [Char.reduceVal, UInt32.reduceToNat] at no_upper no_lower ⊢
    omega
  simpa [v6Char, v6More, v6Start, zoneChar, not_digit, no_letter, no_symbol] using not_hex

theorem ipv6_shorter (x : Text) : x ∉ ipv6Candidate.rests x := by
  intro mem
  cases x with
  | nil =>
    rw [ipv6Candidate, Regex.rests_char_seq_nil] at mem
    cases mem
  | cons c x =>
    rw [ipv6Candidate, Regex.rests_char_seq_cons] at mem
    split at mem
    · have part := (Regex.rests_suffix mem).length_le
      rw [List.length_cons] at part
      omega
    · cases mem

theorem v6More_display {a : IpAddr} (mem : c ∈ a.display) : v6More c := by
  rcases mem_display mem with rfl | rfl | ⟨n, lt, rfl⟩
  · rfl
  · rfl
  · have digits : ∀ n < 16, v6More n.digitChar := by decide
    exact digits n lt

/-- The expression for IPv6 takes an address whole. -/
theorem ipv6_showV6 (bits : BitVec 128) (right : ∀ c ∈ after.head?, Delimiter d c) :
    (ipv6Candidate.rests ((IpAddr.v6 bits).display ++ after)).head? = some after := by
  have colon := colon_mem_of_parse (parse_display (.v6 bits))
  have no_dot : (IpAddr.v6 bits).display.head? ≠ some '.' := head?_showV6 bits.toNat
  have chars : ∀ c ∈ (IpAddr.v6 bits).display, v6More c := fun c mem => v6More_display mem
  generalize (IpAddr.v6 bits).display = t at colon no_dot chars
  cases t with
  | nil => cases colon
  | cons c t =>
    have start : v6Start c := by
      have more := chars c List.mem_cons_self
      rw [v6More, Bool.or_eq_true, beq_iff_eq] at more
      apply more.resolve_right
      rintro rfl
      exact no_dot rfl
    have stop : ∀ e ∈ after.head?, v6More e = false := by
      intro e next
      have outside := (right e next).not_v6Char
      simp only [v6Char, Bool.or_eq_false_iff] at outside
      exact outside.1.1
    have no_zone : (((Parse.literal '%').seq ((Regex.char zoneChar).seq (.star true zoneChar))).opt.rests after).head? = some after := by
      cases after with
      | nil => rfl
      | cons e after =>
        have other : (e == '%') = false := by
          have outside := (right e rfl).not_v6Char
          simp only [v6Char, Bool.or_eq_false_iff] at outside
          exact outside.2
        rw [Regex.rests_opt, Parse.literal, Regex.rests_char_seq_cons, other]
        rfl
    rw [ipv6Candidate, List.cons_append, Regex.rests_char_seq_cons, if_pos start]
    exact Regex.head?_rests_seq (Regex.head?_rests_star (fun e mem => chars e (List.mem_cons_of_mem c mem)) stop) no_zone

/-- **An address between delimiters is found**, whatever else is on the page. -/
theorem mem_getAllIp (ip : IpAddr) (left : ∀ c ∈ before.getLast?, Delimiter d c) (right : ∀ c ∈ after.head?, Delimiter d c) :
    ip.display ∈ getAllIp d (before ++ (ip.display ++ after)) := by
  have some_text : ip.display ≠ [] := by
    intro empty
    have parsed := parse_display ip
    rw [empty] at parsed
    cases parsed
  rw [getAllIp, Finset.mem_union, List.mem_toFinset, List.mem_toFinset]
  cases ip with
  | v4 bits =>
    left
    have stop : Parse.NoDigit d after := fun c next => (right c next).1
    refine Regex.mem_findIter_of_fenced within_ipv4 ?_ some_text (Parse.ipv4_showV4 bits.toNat stop) ?_
    · intro x mem
      exact Nat.lt_irrefl _ (Parse.ipv4_shorter x x mem)
    · exact fun c last => (left c last).not_v4Char
  | v6 bits =>
    right
    refine List.mem_filterMap.2 ⟨(IpAddr.v6 bits).display, ?_, ?_⟩
    · exact Regex.mem_findIter_of_fenced within_ipv6 ipv6_shorter some_text (ipv6_showV6 bits right) fun c last => (left c last).not_v6Char
    · have trimmed : (IpAddr.v6 bits).display.rdropWhile (· = '.') = (IpAddr.v6 bits).display := by
        rw [List.rdropWhile_eq_self_iff]
        intro some_text
        have last : (IpAddr.v6 bits).display.getLast? ≠ some '.' := getLast?_showV6 bits.toNat
        rw [List.getLast?_eq_some_getLast some_text] at last
        simpa using last
      rw [if_pos (colon_mem_of_parse (parse_display (.v6 bits))), trimmed, canonicalizeIp_display]

end Found

end ProxyBroker
