import ProxyBroker.Lib.Regex
import ProxyBroker.Proxy

/-!
# Scanning for `IP:port` (`parse.rs`)

Both scanners search for the address pattern first and for a port in what follows the match. `DigitClass` is the class
`\d` of the two engines, which goes beyond ASCII.
-/

namespace ProxyBroker.Parse
open Lib

/-- The class `\d`. It follows Unicode; on ASCII it is `0` to `9`. -/
structure DigitClass where
  has : Char → Bool
  ascii : ∀ c, c.toNat < 128 → has c = c.isDigit

/-- The ASCII digits alone. -/
def DigitClass.least : DigitClass := ⟨Char.isDigit, fun _ _ => rfl⟩

/-- One character. -/
def literal (c : Char) : Regex Char := .char (· == c)

/-- `[a-b]`. -/
def between (a b : Char) : Regex Char := .char fun c => decide (a ≤ c) && decide (c ≤ b)

section Patterns

variable (d : DigitClass)

/-- `\d`. -/
def digit : Regex Char := .char d.has

/-- `25[0-5]|2[0-4]\d|[01]?\d\d?`. -/
def octet : Regex Char :=
  .alt (.seq (literal '2') (.seq (literal '5') (between '0' '5')))
    (.alt (.seq (literal '2') (.seq (between '0' '4') (digit d)))
      (.seq (.opt (between '0' '1')) (.seq (digit d) (.opt (digit d)))))

/-- `parse.rs:IPV4`. -/
def ipv4 : Regex Char := .seq (.times (.seq (octet d) (literal '.')) 3) (octet d)

/-- `parse.rs:PORT_RE`, `\d{2,5}`. -/
def portRe : Regex Char := .seq (.times (digit d) 2) (.atMost (digit d) 3)

theorem plain_octet : (octet d).Plain := by simp [octet, literal, between, digit, Regex.opt, Regex.Plain]

theorem plain_ipv4 : (ipv4 d).Plain := ⟨Regex.plain_times ⟨plain_octet d, trivial⟩, plain_octet d⟩

theorem plain_portRe : (portRe d).Plain := ⟨Regex.plain_times (r := digit d) trivial, Regex.plain_atMost (r := digit d) trivial⟩

variable {d} {x y t : Text} {k : Nat}

/-! ## The octet -/

theorem has_between {a b c : Char} (lo : 48 ≤ a.toNat) (hi : b.toNat ≤ 57) (h : a ≤ c ∧ c ≤ b) : d.has c := by
  have low : a.toNat ≤ c.toNat := h.1
  have high : c.toNat ≤ b.toNat := h.2
  have ascii : c.toNat < 128 := by omega
  rw [d.ascii c ascii, Char.isDigit, Bool.and_eq_true, decide_eq_true_eq, decide_eq_true_eq]
  exact ⟨lo.trans low, high.trans hi⟩

/-- The first `k` characters are digits. -/
def Digits (d : DigitClass) (x : Text) (k : Nat) : Prop := k ≤ x.length ∧ ∀ c ∈ x.take k, d.has c

theorem digits_zero : Digits d x 0 := ⟨Nat.zero_le _, by simp⟩

theorem digits_cons {a : Char} : Digits d (a :: x) (k + 1) ↔ d.has a ∧ Digits d x k := by
  simp only [Digits, List.length_cons, Nat.add_le_add_iff_right, List.take_succ_cons, List.forall_mem_cons]
  exact and_left_comm

/-- Three classes of digits take three digits. -/
theorem rests_three {p q r : Char → Bool} (hp : ∀ c, p c → d.has c) (hq : ∀ c, q c → d.has c) (hr : ∀ c, r c → d.has c) (x : Text) :
    ∃ ks : List Nat, (Regex.seq (.char p) (.seq (.char q) (.char r))).rests x = ks.map x.drop ∧ ∀ k ∈ ks, k = 3 ∧ Digits d x k := by
  rcases x with _ | ⟨a, _ | ⟨b, _ | ⟨c, x⟩⟩⟩
  · exact ⟨[], by simp, by simp⟩
  · exact ⟨[], by simp, by simp⟩
  · exact ⟨[], by simp, by simp⟩
  · rw [Regex.rests_char_seq_cons, Regex.rests_char_seq_cons, Regex.rests_char_cons]
    by_cases three : p a ∧ q b ∧ r c
    · obtain ⟨one, two, three⟩ := three
      rw [if_pos one, if_pos two, if_pos three]
      refine ⟨[3], rfl, ?_⟩
      simp [digits_cons, digits_zero, hp a one, hq b two, hr c three]
    · refine ⟨[], ?_, by simp⟩
      split
      · split
        · split
          · exact absurd ⟨‹_›, ‹_›, ‹_›⟩ three
          · rfl
        · rfl
      · rfl

/-- `\d\d?` takes two digits or one. -/
theorem rests_pair (x : Text) : ∃ ks : List Nat, (Regex.seq (digit d) (.opt (digit d))).rests x = ks.map x.drop ∧
    (ks = [] ∨ ks = [1] ∨ ks = [2, 1]) ∧ ∀ k ∈ ks, Digits d x k := by
  rcases x with _ | ⟨a, x⟩
  · exact ⟨[], Regex.rests_char_seq_nil, Or.inl rfl, by simp⟩
  · rw [digit, Regex.rests_char_seq_cons, Regex.rests_opt]
    by_cases one : d.has a
    · rw [if_pos one]
      rcases x with _ | ⟨b, x⟩
      · exact ⟨[1], rfl, Or.inr (Or.inl rfl), by simp [digits_cons, digits_zero, one]⟩
      · rw [Regex.rests_char_cons]
        by_cases two : d.has b
        · rw [if_pos two]
          exact ⟨[2, 1], rfl, Or.inr (Or.inr rfl), by simp [digits_cons, digits_zero, one, two]⟩
        · rw [if_neg two]
          exact ⟨[1], rfl, Or.inr (Or.inl rfl), by simp [digits_cons, digits_zero, one]⟩
    · rw [if_neg one]
      exact ⟨[], rfl, Or.inl rfl, by simp⟩

/-- `[01]\d\d?` takes three digits or two. -/
theorem rests_led (x : Text) : ∃ ks : List Nat,
    ((between '0' '1').rests x).flatMap (Regex.seq (digit d) (.opt (digit d))).rests = ks.map x.drop ∧
      (ks = [] ∨ ks = [2] ∨ ks = [3, 2]) ∧ ∀ k ∈ ks, Digits d x k := by
  rcases x with _ | ⟨a, x⟩
  · exact ⟨[], rfl, Or.inl rfl, by simp⟩
  · obtain ⟨ks, eq, shape, digits⟩ := rests_pair (d := d) x
    rw [between, Regex.rests_char_cons]
    split
    · rename_i low
      simp only [Bool.and_eq_true, decide_eq_true_eq] at low
      have here : d.has a := has_between (by decide) (by decide) low
      refine ⟨ks.map (· + 1), ?_, ?_, ?_⟩
      · rw [List.flatMap_singleton, eq, List.map_map]
        rfl
      · rcases shape with rfl | rfl | rfl <;> simp
      · intro k mem
        obtain ⟨j, at_j, rfl⟩ := List.mem_map.1 mem
        exact digits_cons.2 ⟨here, digits j at_j⟩
    · exact ⟨[], rfl, Or.inl rfl, by simp⟩

/-- `25[0-5]` and `2[0-4]\d` take three digits. -/
theorem rests_high (x : Text) : ∃ ks : List Nat, (Regex.seq (literal '2') (.seq (literal '5') (between '0' '5'))).rests x ++
    (Regex.seq (literal '2') (.seq (between '0' '4') (digit d))).rests x = ks.map x.drop ∧ ∀ k ∈ ks, k = 3 ∧ Digits d x k := by
  have literal_has {l : Char} (lo : 48 ≤ l.toNat) (hi : l.toNat ≤ 57) (c : Char) (is : c == l) : d.has c :=
    has_between lo hi (by rw [eq_of_beq is]; exact ⟨Char.le_refl l, Char.le_refl l⟩)
  have between_has {a b : Char} (lo : 48 ≤ a.toNat) (hi : b.toNat ≤ 57) (c : Char) (is : decide (a ≤ c) && decide (c ≤ b)) : d.has c :=
    has_between lo hi (by simpa using is)
  obtain ⟨high, eq_high, three_high⟩ := rests_three (d := d) (literal_has (l := '2') (by decide) (by decide))
    (literal_has (l := '5') (by decide) (by decide)) (between_has (a := '0') (b := '5') (by decide) (by decide)) x
  obtain ⟨mid, eq_mid, three_mid⟩ := rests_three (d := d) (literal_has (l := '2') (by decide) (by decide))
    (between_has (a := '0') (b := '4') (by decide) (by decide)) (fun _ is => is) x
  refine ⟨high ++ mid, ?_, ?_⟩
  · rw [literal, literal, between, between, digit, eq_high, eq_mid, List.map_append]
  · intro k mem
    rcases List.mem_append.1 mem with mem | mem
    · exact three_high k mem
    · exact three_mid k mem

/-- The alternatives of the octet one after another; the last one with a leading `0` or `1` and without. -/
theorem rests_alternatives (x : Text) : (octet d).rests x =
    ((Regex.seq (literal '2') (.seq (literal '5') (between '0' '5'))).rests x ++
      (Regex.seq (literal '2') (.seq (between '0' '4') (digit d))).rests x) ++
        (((between '0' '1').rests x).flatMap (Regex.seq (digit d) (.opt (digit d))).rests ++
          (Regex.seq (digit d) (.opt (digit d))).rests x) := by
  rw [octet, Regex.rests_alt, Regex.rests_alt, Regex.rests_seq (a := .opt (between '0' '1')), Regex.rests_opt, List.flatMap_append,
    List.flatMap_singleton, List.append_assoc]

/-- The octet takes one to three digits, as many as it can first. -/
theorem rests_octet (x : Text) : ∃ ks : List Nat, (octet d).rests x = ks.map x.drop ∧ ks.Pairwise (· ≥ ·) ∧
    ∀ k ∈ ks, 1 ≤ k ∧ k ≤ 3 ∧ Digits d x k := by
  obtain ⟨high, eq_high, three⟩ := rests_high (d := d) x
  obtain ⟨led, eq_led, shape_led, digits_led⟩ := rests_led (d := d) x
  obtain ⟨ks, eq, shape, digits⟩ := rests_pair (d := d) x
  have two_three : ∀ k ∈ led, 2 ≤ k ∧ k ≤ 3 := by rcases shape_led with rfl | rfl | rfl <;> simp
  have one_two : ∀ k ∈ ks, 1 ≤ k ∧ k ≤ 2 := by rcases shape with rfl | rfl | rfl <;> simp
  refine ⟨high ++ (led ++ ks), ?_, ?_, ?_⟩
  · rw [rests_alternatives, eq_high, eq_led, eq, List.map_append, List.map_append]
  · refine List.pairwise_append.2 ⟨?_, List.pairwise_append.2 ⟨?_, ?_, ?_⟩, ?_⟩
    · refine List.pairwise_of_forall_mem_list fun j at_j k at_k => ?_
      rw [(three j at_j).1, (three k at_k).1]
    · rcases shape_led with rfl | rfl | rfl <;> simp
    · rcases shape with rfl | rfl | rfl <;> simp
    · exact fun j at_j k at_k => (one_two k at_k).2.trans (two_three j at_j).1
    · intro j at_j k at_k
      rw [(three j at_j).1]
      rcases List.mem_append.1 at_k with at_k | at_k
      · exact (two_three k at_k).2
      · exact (one_two k at_k).2.trans (by decide)
  · intro k mem
    rcases List.mem_append.1 mem with mem | mem
    · obtain ⟨rfl, taken⟩ := three k mem
      exact ⟨by decide, le_rfl, taken⟩
    · rcases List.mem_append.1 mem with mem | mem
      · exact ⟨(by decide : 1 ≤ 2).trans (two_three k mem).1, (two_three k mem).2, digits_led k mem⟩
      · exact ⟨(one_two k mem).1, (one_two k mem).2.trans (by decide), digits k mem⟩

/-- One digit or two are always taken as well. -/
theorem mem_octet {v : Text} (some_taken : v ≠ []) (short : v.length ≤ 2) (has : ∀ c ∈ v, d.has c) (y : Text) :
    y ∈ (octet d).rests (v ++ y) := by
  have pair : y ∈ (Regex.seq (digit d) (.opt (digit d))).rests (v ++ y) := by
    rcases v with _ | ⟨a, _ | ⟨b, _ | ⟨c, v⟩⟩⟩
    · exact absurd rfl some_taken
    · have one : d.has a := has a (by simp)
      simp [digit, Regex.rests_opt, one]
    · have one : d.has a := has a (by simp)
      have two : d.has b := has b (by simp)
      simp [digit, Regex.rests_opt, one, two]
    · simp only [List.length_cons] at short
      omega
  rw [rests_alternatives]
  exact List.mem_append_right _ (List.mem_append_right _ pair)

/-- The match that comes first takes one to three digits, and the others take fewer of them, down to one. -/
theorem octet_ends (head : ((octet d).rests x).head? = some y) : ∃ w, x = w ++ y ∧ (∀ c ∈ w, d.has c) ∧ w.length ≤ 3 ∧
    ∀ t, t ∈ (octet d).rests x ↔ ∃ v z, w = v ++ z ∧ v ≠ [] ∧ t = z ++ y := by
  obtain ⟨ks, eq, longest, digits⟩ := rests_octet (d := d) x
  have first := head
  rw [eq, List.head?_map] at first
  cases ks with
  | nil => cases first
  | cons k ks =>
    obtain rfl := Option.some.inj first
    obtain ⟨-, three, inside, has⟩ := digits k List.mem_cons_self
    have length : (x.take k).length = k := List.length_take_of_le inside
    refine ⟨x.take k, (List.take_append_drop k x).symm, has, length.trans_le three, fun t => ?_⟩
    constructor
    · intro mem
      rw [eq] at mem
      obtain ⟨j, at_j, rfl⟩ := List.mem_map.1 mem
      have some_taken : 1 ≤ j := (digits j at_j).1
      have fewer : j ≤ k := by
        rcases List.mem_cons.1 at_j with rfl | at_j
        · exact le_rfl
        · exact (List.pairwise_cons.1 longest).1 j at_j
      refine ⟨(x.take k).take j, (x.take k).drop j, (List.take_append_drop j _).symm, ?_, ?_⟩
      · apply List.ne_nil_of_length_pos
        rw [List.length_take_of_le (length.symm ▸ fewer)]
        exact some_taken
      · rw [← List.drop_append_of_le_length (length.symm ▸ fewer), List.take_append_drop]
    · rintro ⟨v, z, cut, some_left, rfl⟩
      have whole : x = v ++ (z ++ x.drop k) := by rw [← List.append_assoc, ← cut, List.take_append_drop]
      have short : v.length + z.length ≤ 3 := by rw [← List.length_append, ← cut, length]; exact three
      rw [cut] at has
      rcases z with _ | ⟨c, z⟩
      · exact List.mem_of_mem_head? head
      · rw [List.length_cons] at short
        have there : c :: z ++ x.drop k ∈ (octet d).rests (v ++ (c :: z ++ x.drop k)) :=
          mem_octet some_left (by omega) (fun e mem => has e (List.mem_append_left _ mem)) _
        rwa [← whole] at there

/-- An octet takes digits. -/
theorem octet_taken (mem : t ∈ (octet d).rests x) : ∃ w, x = w ++ t ∧ w ≠ [] ∧ ∀ c ∈ w, d.has c := by
  obtain ⟨y, head⟩ := Regex.exists_first mem
  obtain ⟨w, rfl, has, -, ends⟩ := octet_ends head
  obtain ⟨v, z, rfl, some_taken, rfl⟩ := (ends t).1 mem
  exact ⟨v, List.append_assoc v z y, some_taken, fun c mem => has c (List.mem_append_left z mem)⟩

/-! ## The dots -/

theorem not_has_dot : d.has '.' = false := d.ascii '.' (by decide)

/-- `y` follows the `n`-th dot of `x`, with digits alone before each of the dots. -/
inductive Dots (d : DigitClass) : Nat → Text → Text → Prop
  | zero (u : Text) : Dots d 0 u u
  | succ {n : Nat} {w u v : Text} : w ≠ [] → (∀ c ∈ w, d.has c) → Dots d n u v → Dots d (n + 1) (w ++ '.' :: u) v

theorem rests_dotted {n : Nat} (mem : y ∈ (Regex.times (.seq (octet d) (literal '.')) n).rests x) : Dots d n x y := by
  induction n generalizing x with
  | zero =>
    rw [List.mem_singleton.1 mem]
    exact .zero _
  | succ n ih =>
    rw [Regex.times, Regex.rests_seq, Regex.rests_seq] at mem
    obtain ⟨u, here, later⟩ := List.mem_flatMap.1 mem
    obtain ⟨t, first, dot⟩ := List.mem_flatMap.1 here
    obtain ⟨w, rfl, some_taken, has⟩ := octet_taken first
    rcases t with _ | ⟨c, t⟩
    · cases dot
    · rw [literal, Regex.rests_char_cons] at dot
      split at dot
      · rename_i is
        rw [eq_of_beq is, ← List.mem_singleton.1 dot]
        exact .succ some_taken has (ih later)
      · cases dot

/-- Digits that a dot ends are cut off in one way. -/
theorem digits_dot_inj {v w : Text} (hv : ∀ c ∈ v, d.has c) (hw : ∀ c ∈ w, d.has c) : v ++ '.' :: x = w ++ '.' :: y ↔ v = w ∧ x = y :=
  append_sep_inj (fun mem => absurd (hv _ mem) (by rw [not_has_dot]; decide)) (fun mem => absurd (hw _ mem) (by rw [not_has_dot]; decide))

theorem Dots.unique {n : Nat} (hy : Dots d n x y) (ht : Dots d n x t) : y = t := by
  induction hy with
  | zero u =>
    cases ht
    rfl
  | @succ n w u v some_taken has later ih =>
    generalize whole : w ++ '.' :: u = text at ht
    cases ht with
    | succ _ has' later' =>
      obtain ⟨-, rfl⟩ := (digits_dot_inj has has').1 whole
      exact ih later'

/-- An address has one end of its dots; where it can end is up to its last octet. -/
theorem ipv4_ends (head : ((ipv4 d).rests x).head? = some y) : ∃ u, Dots d 3 x u ∧ ((octet d).rests u).head? = some y ∧
    ∀ t, t ∈ (ipv4 d).rests x ↔ t ∈ (octet d).rests u := by
  have same : ∀ u ∈ (Regex.times (.seq (octet d) (literal '.')) 3).rests x, Dots d 3 x u := fun u mem => rests_dotted mem
  rw [ipv4, Regex.rests_seq]
  rw [ipv4, Regex.rests_seq, List.head?_flatMap] at head
  obtain ⟨u, mem, last⟩ := List.exists_of_findSome?_eq_some head
  have dots := same u mem
  refine ⟨u, dots, last, fun t => ?_⟩
  rw [List.mem_flatMap]
  constructor
  · rintro ⟨v, mem', there⟩
    rwa [(same v mem').unique dots] at there
  · exact fun there => ⟨u, mem, there⟩

theorem Dots.length_le {n : Nat} (dots : Dots d n x y) : y.length ≤ x.length := by
  induction dots with
  | zero u => exact le_rfl
  | succ some_taken has later ih =>
    rw [List.length_append, List.length_cons]
    omega

/-- An address is not empty. -/
theorem ipv4_shorter (x t : Text) (mem : t ∈ (ipv4 d).rests x) : t.length < x.length := by
  obtain ⟨y, head⟩ := Regex.exists_first mem
  obtain ⟨u, dots, -, ends⟩ := ipv4_ends head
  obtain ⟨w, rfl, some_taken, -⟩ := octet_taken ((ends t).1 mem)
  have less := dots.length_le
  have pos := List.length_pos_iff.2 some_taken
  rw [List.length_append] at less
  omega

end Patterns

/-! ## The scanners -/

section Scanners

variable (d : DigitClass)

/-- What `find_addrs_line` takes from one line. -/
def scanLine (line : Text) : Option (Text × Text) := do
  let ip ← (ipv4 d).find line
  let port ← (portRe d).find ip.rest
  return (ip.matched, port.matched)

/-- `parse.rs:find_addrs_line`. -/
def findAddrsLine (text : Text) : List (Text × Text) := (splitOn '\n' text).filterMap (scanLine d)

/-- The `port` that `find_addrs_global` gives an address, by what follows the address. -/
def nextPort (after : Text) : Option Text :=
  match (portRe d).find after, (ipv4 d).find after with
  | some p, some i => if p.skipped < i.skipped then some p.matched else some []
  | some p, none => some p.matched
  | none, some _ => some []
  | none, none => none

/-- `parse.rs:find_addrs_global`. -/
def findAddrsGlobal (text : Text) : List (Text × Text) :=
  match h : (ipv4 d).find text with
  | none => []
  | some ip =>
    have : ip.rest.length < text.length := Regex.find_shorter (plain_ipv4 d) ipv4_shorter h
    ((nextPort d ip.rest).map fun port => (ip.matched, port)).toList ++ findAddrsGlobal ip.rest
termination_by text.length

/-- `u8::from_str`. -/
def parseU8 (t : Text) : Option UInt8 := (parseUnsigned (2 ^ 8) t).map UInt8.ofNat

/-- `resolver.rs:parse_ip_lenient`. -/
def parseIpLenient (host : Text) : Option IpAddr :=
  if host = [] then none
  else
    match parseIpAddr host with
    | some ip => some ip
    | none =>
      if '.' ∈ host ∧ ':' ∉ host then
        let octets := splitOn '.' host
        if octets.length = 4 then (octets.mapM parseU8).map IpAddr.ofOctets4 else none
      else none

/-- `parse.rs:parse_proxy_lines`. -/
def parseProxyLines (text : Text) : List Proxy :=
  (findAddrsLine d text).filterMap fun (ipStr, portStr) => do
    let ip ← parseIpLenient ipStr
    let port ← parseU16 portStr
    return Proxy.new ip port []

end Scanners

end ProxyBroker.Parse
