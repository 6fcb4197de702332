import ProxyBroker.Parse

/-!
# Address lists are read back (`parse.rs:parse_proxy_lines`)

`parseProxyLines_addrs`: a list of IPv4 proxies printed one to a line comes back with the same addresses, when every
port has two digits at least. An octet below 256 is taken whole (`octet_showNat`), and so is a port (`port_showNat`).
-/

namespace ProxyBroker.Parse
open Lib

variable {d : DigitClass} {x y t w : Text} {n : Nat}

/-- What a line ends with. -/
inductive LineEnd where
  | lf | crlf
deriving DecidableEq, Repr

/-- The text of it before the line feed. -/
def LineEnd.before : LineEnd → Text
  | lf => []
  | crlf => ['\r']

/-- The addresses, one to a line. -/
def addrLines (ps : List (Proxy × LineEnd)) : Text := ps.flatMap fun p => p.1.addrText ++ p.2.before ++ ['\n']

/-- No digit is next. -/
def NoDigit (d : DigitClass) (y : Text) : Prop := ∀ c ∈ y.head?, d.has c = false

/-- A match after which no digit is next comes first. -/
theorem octet_whole (mem : y ∈ (octet d).rests (w ++ y)) (stop : NoDigit d y) :
    ((octet d).rests (w ++ y)).head? = some y := by
  obtain ⟨z, head⟩ := Regex.exists_first mem
  obtain ⟨u, whole, digits, -, ends⟩ := octet_ends head
  obtain ⟨v, more, rfl, -, eq⟩ := (ends y).1 mem
  rcases more with _ | ⟨c, more⟩
  · rw [head, eq, List.nil_append]
  · have digit : d.has c := digits c (by simp)
    rw [stop c (by rw [eq]; rfl)] at digit
    cases digit

theorem has_of_isDigit {c : Char} (digit : c.isDigit) : d.has c := by
  have range := isDigit_range digit
  rw [d.ascii c (by omega)]
  exact digit

theorem has_showNat (n : Nat) : ∀ c ∈ showNat n, d.has c := fun c mem => has_of_isDigit (showNat_isDigit n c mem)

/-- Three digits that one of the alternatives takes. -/
def hundreds (a b c : Char) : Bool :=
  (a == '2' && b == '5' && decide ('0' ≤ c) && decide (c ≤ '5')) || (a == '2' && decide ('0' ≤ b) && decide (b ≤ '4')) ||
    (decide ('0' ≤ a) && decide (a ≤ '1'))

theorem showNat_octet (small : n < 256) : (showNat n).length ≤ 2 ∨ ∃ a b c, showNat n = [a, b, c] ∧ hundreds a b c := by
  have all : ∀ n < 256, (showNat n).length ≤ 2 ∨ (showNat n).length = 3 ∧
      hundreds ((showNat n).getD 0 '0') ((showNat n).getD 1 '0') ((showNat n).getD 2 '0') := by decide +kernel
  rcases all n small with short | ⟨three, shape⟩
  · exact Or.inl short
  · obtain ⟨a, b, c, eq⟩ := List.length_eq_three.1 three
    rw [eq] at shape
    exact Or.inr ⟨a, b, c, eq, shape⟩

theorem mem_octet_hundreds {a b c : Char} (shape : hundreds a b c) (has : ∀ e ∈ [a, b, c], d.has e) :
    y ∈ (octet d).rests ([a, b, c] ++ y) := by
  have two : d.has b := has b (by simp)
  have three : d.has c := has c (by simp)
  rw [rests_alternatives]
  simp only [hundreds, Bool.or_eq_true, Bool.and_eq_true, beq_iff_eq, decide_eq_true_eq] at shape
  rcases shape with (⟨⟨⟨rfl, rfl⟩, lo⟩, hi⟩ | ⟨⟨rfl, lo⟩, hi⟩) | ⟨lo, hi⟩
  · simp [literal, between, lo, hi]
  · simp [literal, between, digit, lo, hi, three]
  · simp [literal, between, digit, lo, hi, two, three, Regex.rests_opt]

/-- **An octet is taken whole.** -/
theorem octet_showNat (small : n < 256) (stop : NoDigit d y) : ((octet d).rests (showNat n ++ y)).head? = some y := by
  refine octet_whole ?_ stop
  rcases showNat_octet small with short | ⟨a, b, c, eq, shape⟩
  · exact mem_octet Nat.toDigits_ne_nil short (has_showNat n) y
  · have has := has_showNat (d := d) n
    rw [eq] at has ⊢
    exact mem_octet_hundreds shape has

theorem noDigit_cons {c : Char} (ascii : c.toNat < 128) (other : c.isDigit = false) : NoDigit d (c :: y) := by
  intro e next
  rw [← Option.some.inj next, d.ascii c ascii]
  exact other

theorem ipv4_showV4 (bits : Nat) (stop : NoDigit d y) : ((ipv4 d).rests (showV4 bits ++ y)).head? = some y := by
  have four : (fields 8 4 bits).length = 4 := fields_length
  have small : ∀ o ∈ fields 8 4 bits, o < 256 := fields_lt
  rw [showV4]
  generalize fields 8 4 bits = os at four small
  obtain ⟨a, b, c, e, rfl⟩ := List.length_eq_four.1 four
  have dotted {n : Nat} (lt : n < 256) (t : Text) :
      ((Regex.seq (octet d) (literal '.')).rests (showNat n ++ '.' :: t)).head? = some t := by
    refine Regex.head?_rests_seq (octet_showNat lt (noDigit_cons (by decide) (by decide))) ?_
    simp [literal]
  simp only [List.map_cons, List.map_nil, joinText, List.append_assoc, List.cons_append]
  refine Regex.head?_rests_seq ?_ (octet_showNat (small e (by simp)) stop)
  refine Regex.head?_rests_seq (dotted (small a (by simp)) _) (Regex.head?_rests_seq (dotted (small b (by simp)) _)
    (Regex.head?_rests_seq (dotted (small c (by simp)) _) ?_))
  rfl

/-- **A port of two to five digits is taken whole.** -/
theorem portRe_digits (long : 1 < w.length) (short : w.length ≤ 5) (has : ∀ c ∈ w, d.has c) (stop : NoDigit d y) :
    ((portRe d).rests (w ++ y)).head? = some y := by
  rcases w with _ | ⟨a, _ | ⟨b, w⟩⟩
  · cases long
  · exact absurd long (by simp)
  · have one : d.has a := has a (by simp)
    have another : d.has b := has b (by simp)
    refine Regex.head?_rests_seq (y := w ++ y) ?_ (Regex.head?_rests_atMost ?_ ?_ stop)
    · simp [Regex.times, digit, one, another]
    · exact fun c mem => has c (by simp [mem])
    · simp only [List.length_cons] at short
      omega

theorem portRe_showNat (two : 10 ≤ n) (five : n < 2 ^ 16) (stop : NoDigit d y) : ((portRe d).rests (showNat n ++ y)).head? = some y := by
  have long : 1 < (showNat n).length := by
    by_contra short
    have bound := (Nat.length_toDigits_le_iff (b := 10) (n := n) (k := 1) (by decide) (by decide)).1 (Nat.le_of_not_lt short)
    omega
  have short : (showNat n).length ≤ 5 := (Nat.length_toDigits_le_iff (by decide) (by decide)).2 (by omega)
  exact portRe_digits long short (has_showNat n) stop

/-- A printed proxy is scanned as its two parts. -/
theorem scanLine_addr (bits : Nat) (two : 10 ≤ n) (five : n < 2 ^ 16) (stop : NoDigit d y) :
    scanLine d (showV4 bits ++ ':' :: (showNat n ++ y)) = some (showV4 bits, showNat n) := by
  have colon : NoDigit d (':' :: (showNat n ++ y)) := noDigit_cons (by decide) (by decide)
  have port := Regex.find_here (plain_portRe d) (portRe_showNat two five stop)
  have passed : (portRe d).rests (':' :: (showNat n ++ y)) = [] := by
    simp [portRe, Regex.times, digit, Regex.rests_seq, colon ':' rfl]
  rw [scanLine, Regex.find_here (plain_ipv4 d) (ipv4_showV4 bits colon), Option.bind_eq_bind, Option.bind_some,
    Regex.find_cons (plain_portRe d) passed, port]
  simp only [Option.map_some, Option.bind_some, Regex.upTo_append]
  rfl

/-- The loop over the lines. -/
theorem findAddrsLine_append {line : Text} (clean : '\n' ∉ line) (text : Text) :
    findAddrsLine d (line ++ '\n' :: text) = (scanLine d line).toList ++ findAddrsLine d text := by
  rw [findAddrsLine, splitOn_append clean, List.filterMap_cons]
  cases scanLine d line <;> rfl

theorem parseIpLenient_display (a : IpAddr) : parseIpLenient a.display = some a := by
  have some_text : a.display ≠ [] := by
    intro none
    have back := parse_display a
    rw [none] at back
    cases back
  rw [parseIpLenient, if_neg some_text, parse_display]

theorem feed_not_mem_line (host : IpAddr) (port : UInt16) (e : LineEnd) : '\n' ∉ hostColonPort host port ++ e.before := by
  intro mem
  rcases List.mem_append.1 mem with mem | mem
  · rcases List.mem_append.1 mem with mem | mem
    · exact not_mem_display (by decide) host mem
    · rcases List.mem_cons.1 mem with eq | mem
      · cases eq
      · exact not_mem_showNat (by decide) port.toNat mem
  · cases e with
    | lf => cases mem
    | crlf => cases List.mem_singleton.1 mem

theorem noDigit_before (e : LineEnd) : NoDigit d e.before := by
  cases e with
  | lf => exact fun c next => nomatch next
  | crlf => exact noDigit_cons (by decide) (by decide)

/-- The first line of the list, and the others. -/
theorem parseProxyLines_cons {p : Proxy} {bits : BitVec 32} (host : p.host = .v4 bits) (two : 10 ≤ p.port.toNat) (e : LineEnd)
    (ps : List (Proxy × LineEnd)) :
      parseProxyLines d (addrLines ((p, e) :: ps)) = Proxy.new p.host p.port [] :: parseProxyLines d (addrLines ps) := by
  have text : addrLines ((p, e) :: ps) = (hostColonPort p.host p.port ++ e.before) ++ '\n' :: addrLines ps := by
    simp [addrLines, Proxy.addrText, host]
  have line : scanLine d (hostColonPort p.host p.port ++ e.before) = some (p.host.display, showNat p.port.toNat) := by
    rw [hostColonPort, host, List.append_assoc]
    exact scanLine_addr bits.toNat two p.port.toNat_lt (noDigit_before e)
  rw [text, parseProxyLines, findAddrsLine_append (feed_not_mem_line p.host p.port e), line, Option.toList_some, List.singleton_append,
    List.filterMap_cons]
  simp only [parseIpLenient_display, parseU16_showNat, Option.bind_eq_bind, Option.bind_some]
  rfl

/-- **Round trip.** IPv4 proxies, printed one to a line, come back with their addresses, in order and with duplicates. -/
theorem parseProxyLines_addrs (d : DigitClass) (ps : List (Proxy × LineEnd)) (hosts : ∀ p ∈ ps, ∃ bits, p.1.host = .v4 bits)
    (ports : ∀ p ∈ ps, 10 ≤ p.1.port.toNat) : (parseProxyLines d (addrLines ps)).map Proxy.addr = ps.map fun p => p.1.addr := by
  induction ps with
  | nil => rfl
  | cons p ps ih =>
    obtain ⟨bits, host⟩ := hosts p List.mem_cons_self
    have others := ih (fun q mem => hosts q (List.mem_cons_of_mem p mem)) fun q mem => ports q (List.mem_cons_of_mem p mem)
    rw [parseProxyLines_cons host (ports p List.mem_cons_self), List.map_cons, others]
    rfl

theorem parseProxyLines_addrs_twice : (parseProxyLines .least (addrLines
      [(Proxy.new (.v4 0x0100FF09) 8080 [], .lf), (Proxy.new (.v4 0x0100FF09) 8080 [], .crlf), (Proxy.new (.v4 0xC8640A63) 65535 [], .lf)])).map
      Proxy.addr = [(.v4 0x0100FF09, 8080), (.v4 0x0100FF09, 8080), (.v4 0xC8640A63, 65535)] :=
  parseProxyLines_addrs .least [(Proxy.new (.v4 0x0100FF09) 8080 [], .lf), (Proxy.new (.v4 0x0100FF09) 8080 [], .crlf),
    (Proxy.new (.v4 0xC8640A63) 65535 [], .lf)] (by simp [Proxy.new]) (by simp [Proxy.new])

end ProxyBroker.Parse
