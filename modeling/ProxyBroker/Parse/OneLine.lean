import ProxyBroker.Parse.AddrLines
import ProxyBroker.Parse.Findall

/-!
# The address on a line `a.b.c.d:p` (`parse.rs`)

Three octets of at most 255, with their dots, are taken whole (`ipv4_dotted`). Of a first octet above 255 the scanner takes
the last two digits, of a last octet above 255 the first two (`find_dotted`), and where an octet in the middle is above
255 it finds nothing (`find_large`). The port is found behind the colon.
-/

namespace ProxyBroker.Parse
open Lib

/-- One to three ASCII digits. -/
structure Octet (w : Text) : Prop where
  digits : ∀ x ∈ w, x.isDigit
  nonempty : w ≠ []
  short : w.length ≤ 3

/-- The value of digits. -/
def value (w : Text) : Nat := w.foldl (fun n c => n * 10 + (c.toNat - '0'.toNat)) 0

/-! ## Octets -/

section Octets

variable {d : DigitClass} {w y u t : Text}

theorem Octet.has (o : Octet w) : ∀ x ∈ w, d.has x := fun x mem => has_of_isDigit (o.digits x mem)

theorem hundreds_iff {a b c : Char} (digits : ∀ x ∈ [a, b, c], x.isDigit) : hundreds a b c ↔ value [a, b, c] < 256 := by
  have one := isDigit_range (digits a (by simp))
  have two := isDigit_range (digits b (by simp))
  have three := isDigit_range (digits c (by simp))
  have below (x y : Char) : x ≤ y ↔ x.toNat ≤ y.toNat := Iff.rfl
  have same (x y : Char) : x = y ↔ x.toNat = y.toNat := Char.toNat_inj.symm
  simp only [hundreds, Bool.or_eq_true, Bool.and_eq_true, beq_iff_eq, decide_eq_true_eq, below, same, value, List.foldl_cons,
    List.foldl_nil, Char.reduceToNat]
  omega

theorem value_short (digits : ∀ x ∈ w, x.isDigit) (short : w.length ≤ 2) : value w < 256 := by
  rcases w with _ | ⟨a, _ | ⟨b, _ | ⟨c, w⟩⟩⟩
  · decide
  · have one := isDigit_range (digits a (by simp))
    simp only [value, List.foldl_cons, List.foldl_nil, Char.reduceToNat]
    omega
  · have one := isDigit_range (digits a (by simp))
    have two := isDigit_range (digits b (by simp))
    simp only [value, List.foldl_cons, List.foldl_nil, Char.reduceToNat]
    omega
  · simp only [List.length_cons] at short
    omega

/-- An octet can be taken whole exactly when it is at most 255. -/
theorem mem_octet_iff (o : Octet w) : y ∈ (octet d).rests (w ++ y) ↔ value w < 256 := by
  by_cases two : w.length ≤ 2
  · exact iff_of_true (mem_octet o.nonempty two o.has y) (value_short o.digits two)
  · have three : w.length = 3 := Nat.le_antisymm o.short (Nat.lt_of_not_le two)
    obtain ⟨a, b, c, rfl⟩ := List.length_eq_three.1 three
    have has := o.has (d := d)
    rw [← hundreds_iff o.digits]
    refine ⟨?_, fun shape => mem_octet_hundreds shape has⟩
    intro mem
    have has_b : d.has b := has b (by simp)
    have has_c : d.has c := has c (by simp)
    rw [rests_alternatives] at mem
    simp only [literal, between, digit, Regex.rests_opt, List.cons_append, List.nil_append,
      Regex.rests_char_seq_cons, Regex.rests_char_cons, has_b, has_c, if_true] at mem
    -- each alternative takes its three digits under its own conditions
    have has_a : d.has a := has a (by simp)
    have longer : ¬ y = b :: c :: y := by
      intro same
      have length := congrArg List.length same
      simp only [List.length_cons] at length
      omega
    simp only [hundreds, Bool.and_assoc, has_a, if_true] at mem ⊢
    generalize (a == '2') = two' at mem ⊢
    generalize (b == '5') = five at mem ⊢
    generalize (decide ('0' ≤ c) && decide (c ≤ '5')) = last at mem ⊢
    generalize (decide ('0' ≤ b) && decide (b ≤ '4')) = middle at mem ⊢
    generalize (decide ('0' ≤ a) && decide (a ≤ '1')) = low at mem ⊢
    cases low with
    | true => simp
    | false => cases two' <;> cases five <;> cases last <;> cases middle <;> simp [longer] at mem ⊢

/-- A match of an octet and a dot. -/
theorem dotted_iff (o : Octet w) :
    t ∈ (Regex.seq (octet d) (literal '.')).rests (w ++ '.' :: u) ↔ value w < 256 ∧ t = u := by
  rw [Regex.rests_seq, List.mem_flatMap]
  constructor
  · rintro ⟨v, taken, dot⟩
    cases v with
    | nil => cases dot
    | cons x v =>
      rw [literal, Regex.rests_char_cons] at dot
      split at dot
      · rename_i is
        obtain rfl := List.mem_singleton.1 dot
        obtain rfl := eq_of_beq is
        obtain ⟨w', whole, -, has'⟩ := octet_taken taken
        obtain ⟨rfl, rfl⟩ := (digits_dot_inj o.has has').1 whole
        exact ⟨(mem_octet_iff o).1 taken, rfl⟩
      · cases dot
  · rintro ⟨small, rfl⟩
    exact ⟨'.' :: t, (mem_octet_iff o).2 small, by simp [literal]⟩

end Octets

/-! ## The address on a line -/

section Line

variable {d : DigitClass} {w b c e p t u y z : Text}

/-- Three octets and their dots. -/
def dotted (w b c : Text) (y : Text) : Text := w ++ '.' :: (b ++ '.' :: (c ++ '.' :: y))

theorem ipv4_dotted (ow : Octet w) (ob : Octet b) (oc : Octet c) :
    t ∈ (ipv4 d).rests (dotted w b c y) ↔ (value w < 256 ∧ value b < 256 ∧ value c < 256) ∧ t ∈ (octet d).rests y := by
  rw [ipv4, Regex.rests_seq, List.mem_flatMap]
  simp only [Regex.times]
  constructor
  · rintro ⟨v, three, last⟩
    rw [Regex.rests_seq] at three
    obtain ⟨v', one, three⟩ := List.mem_flatMap.1 three
    obtain ⟨small, rfl⟩ := (dotted_iff ow).1 one
    rw [Regex.rests_seq] at three
    obtain ⟨v', two, three⟩ := List.mem_flatMap.1 three
    obtain ⟨small', rfl⟩ := (dotted_iff ob).1 two
    rw [Regex.rests_seq] at three
    obtain ⟨v', third, nothing⟩ := List.mem_flatMap.1 three
    obtain ⟨small'', rfl⟩ := (dotted_iff oc).1 third
    rw [Regex.rests_empty, List.mem_singleton] at nothing
    exact ⟨⟨small, small', small''⟩, nothing ▸ last⟩
  · rintro ⟨⟨small, small', small''⟩, last⟩
    refine ⟨y, ?_, last⟩
    rw [Regex.rests_seq]
    refine List.mem_flatMap.2 ⟨_, (dotted_iff ow).2 ⟨small, rfl⟩, ?_⟩
    rw [Regex.rests_seq]
    refine List.mem_flatMap.2 ⟨_, (dotted_iff ob).2 ⟨small', rfl⟩, ?_⟩
    rw [Regex.rests_seq]
    exact List.mem_flatMap.2 ⟨y, (dotted_iff oc).2 ⟨small'', rfl⟩, by simp⟩

/-- Where the first three octets are small, an address starts there, and ends where its last octet does. -/
theorem ipv4_head (ow : Octet w) (ob : Octet b) (oc : Octet c) (small : value w < 256 ∧ value b < 256 ∧ value c < 256)
    (last : ((octet d).rests y).head? = some z) : ((ipv4 d).rests (dotted w b c y)).head? = some z := by
  obtain ⟨z', head⟩ := Regex.exists_first ((ipv4_dotted ow ob oc).2 ⟨small, List.mem_of_mem_head? last⟩)
  obtain ⟨u, dots, last', -⟩ := ipv4_ends head
  have here : Dots d 3 (dotted w b c y) y :=
    .succ ow.nonempty ow.has (.succ ob.nonempty ob.has (.succ oc.nonempty oc.has (.zero y)))
  rw [dots.unique here, last] at last'
  rw [head, ← last']

/-- Without three dots there is no address. -/
theorem dots_count {n : Nat} (dots : Dots d n t u) : n ≤ t.count '.' := by
  induction dots with
  | zero u => exact Nat.zero_le _
  | succ some_taken has later ih =>
    rw [List.count_append, List.count_cons_self]
    omega

theorem rests_few_dots (few : t.count '.' < 3) : (ipv4 d).rests t = [] := by
  by_contra some_match
  obtain ⟨z, head⟩ := Option.isSome_iff_exists.1 (List.isSome_head?.2 some_match)
  obtain ⟨u, dots, -, -⟩ := ipv4_ends head
  exact absurd (dots_count dots) (Nat.not_le.2 few)

theorem find_few_dots (few : t.count '.' < 3) : (ipv4 d).find t = none := by
  by_contra found
  obtain ⟨v, part, there⟩ := (Regex.isSome_find (plain_ipv4 d)).1 (Option.ne_none_iff_isSome.1 found)
  exact there (rests_few_dots ((part.sublist.count_le '.').trans_lt few))

/-- No address starts with a dot. -/
theorem rests_dot : (ipv4 d).rests ('.' :: t) = [] := by
  by_contra some_match
  obtain ⟨z, head⟩ := Option.isSome_iff_exists.1 (List.isSome_head?.2 some_match)
  obtain ⟨u, dots, -, -⟩ := ipv4_ends head
  generalize whole : '.' :: t = text at dots
  cases dots with
  | @succ _ w _ _ some_taken has later =>
    cases w with
    | nil => exact some_taken rfl
    | cons x w =>
      have dot : d.has x := has x List.mem_cons_self
      rw [← (List.cons.inj whole).1, not_has_dot] at dot
      cases dot

/-- Digits have no dot. -/
theorem count_digits (digits : ∀ x ∈ w, x.isDigit) : w.count '.' = 0 :=
  List.count_eq_zero.2 (not_mem_of_isDigit digits (by decide))

/-- An octet that is too large in the middle leaves no address. -/
theorem find_large (ow : Octet w) (ob : Octet b) (oc : Octet c) (few : y.count '.' = 0) (large : ¬ (value b < 256 ∧ value c < 256)) :
    (ipv4 d).find (dotted w b c y) = none := by
  have behind : (ipv4 d).find (b ++ '.' :: (c ++ '.' :: y)) = none := by
    apply find_few_dots
    simp only [List.count_append, List.count_cons_self, count_digits ob.digits, count_digits oc.digits, few]
    decide
  have digits := ow.digits
  have short := ow.short
  clear ow
  rw [dotted]
  induction w with
  | nil => rw [List.nil_append, Regex.find_cons (plain_ipv4 d) rests_dot, behind, Option.map_none]
  | cons x w ih =>
    have none_here : (ipv4 d).rests (x :: (w ++ '.' :: (b ++ '.' :: (c ++ '.' :: y)))) = [] := by
      by_contra some_match
      obtain ⟨t, mem⟩ := List.exists_mem_of_ne_nil _ some_match
      have ow : Octet (x :: w) := ⟨digits, List.cons_ne_nil x w, short⟩
      exact large ((ipv4_dotted ow ob oc).1 mem).1.2
    have rest := ih (fun c mem => digits c (List.mem_cons_of_mem x mem)) (Nat.le_of_succ_le short)
    rw [List.cons_append, Regex.find_cons (plain_ipv4 d) none_here, rest, Option.map_none]

/-- What is taken of the first octet: of one above 255 the last two digits. -/
def frontOctet (w : Text) : Text := if value w < 256 then w else w.drop 1

/-- What is taken of the last octet: of one above 255 the first two digits. -/
def backOctet (e : Text) : Text := if value e < 256 then e else e.take 2

/-- An octet above 255 has three digits. -/
theorem Octet.three (o : Octet w) (large : ¬ value w < 256) : ∃ x y z, w = [x, y, z] := by
  apply List.length_eq_three.1
  by_contra other
  have short := o.short
  exact large (value_short o.digits (by omega))

theorem octet_front (o : Octet w) : Octet (frontOctet w) ∧ value (frontOctet w) < 256 := by
  rw [frontOctet]
  split
  · rename_i small
    exact ⟨o, small⟩
  · rename_i large
    obtain ⟨x, y, z, rfl⟩ := o.three large
    have digits : ∀ c ∈ [y, z], c.isDigit := fun c mem => o.digits c (List.mem_cons_of_mem x mem)
    exact ⟨⟨digits, by simp, by simp⟩, value_short digits (by simp)⟩

theorem octet_back (o : Octet e) : Octet (backOctet e) ∧ value (backOctet e) < 256 := by
  rw [backOctet]
  split
  · rename_i small
    exact ⟨o, small⟩
  · rename_i large
    obtain ⟨x, y, z, rfl⟩ := o.three large
    have digits : ∀ c ∈ [x, y], c.isDigit := fun c mem => o.digits c (List.mem_append_left [z] mem)
    exact ⟨⟨digits, by simp, by simp⟩, value_short digits (by simp)⟩

/-- The last octet, with at most one digit left before the colon. -/
theorem octet_head (o : Octet e) (stop : NoDigit d y) : ∃ r, e = backOctet e ++ r ∧ r.length ≤ 1 ∧
    ((octet d).rests (e ++ y)).head? = some (r ++ y) := by
  rw [backOctet]
  split
  · rename_i small
    exact ⟨[], by simp, by simp, octet_whole ((mem_octet_iff o).2 small) stop⟩
  · rename_i large
    obtain ⟨a, b, c, rfl⟩ := o.three large
    refine ⟨[c], rfl, by simp, ?_⟩
    have two : c :: y ∈ (octet d).rests ([a, b] ++ (c :: y)) :=
      mem_octet (by simp) (by simp) (fun x mem => o.has x (List.mem_append_left [c] mem)) _
    obtain ⟨z, head⟩ := Regex.exists_first two
    obtain ⟨v, whole, has, three, ends⟩ := octet_ends head
    obtain ⟨v', r, rfl, -, eq⟩ := (ends _).1 two
    rcases r with _ | ⟨x, r⟩
    · have whole_rest : c :: y = z := eq
      rw [← whole_rest] at head
      exact head
    · -- a third digit is not taken, and the text behind it starts with none
      obtain ⟨rfl, behind⟩ := List.cons.inj eq
      cases r with
      | nil =>
        have whole_rest : y = z := behind
        rw [← whole_rest] at head
        exact absurd ((mem_octet_iff o).1 (List.mem_of_mem_head? head)) large
      | cons x r =>
        have digit : d.has x := has x (by simp)
        rw [stop x (by rw [behind]; rfl)] at digit
        cases digit

theorem dotted_append (w b c x y : Text) : dotted w b c (x ++ y) = dotted w b c x ++ y := by simp [dotted]

/-- The address that is found, and what follows it. -/
theorem find_dotted (ow : Octet w) (ob : Octet b) (oc : Octet c) (oe : Octet e) (small : value b < 256 ∧ value c < 256)
    (stop : NoDigit d y) : ∃ n r, r.length ≤ 1 ∧
      (ipv4 d).find (dotted w b c (e ++ y)) = some ⟨n, dotted (frontOctet w) b c (backOctet e), r ++ y⟩ := by
  obtain ⟨r, whole, short, last⟩ := octet_head oe stop
  have here {w : Text} (ow : Octet w) (low : value w < 256) :
      (ipv4 d).find (dotted w b c (e ++ y)) = some ⟨0, dotted w b c (backOctet e), r ++ y⟩ := by
    have text : dotted w b c (e ++ y) = dotted w b c (backOctet e) ++ (r ++ y) := by
      rw [← dotted_append, ← List.append_assoc, ← whole]
    rw [Regex.find_here (plain_ipv4 d) (ipv4_head ow ob oc ⟨low, small⟩ last), text, Regex.upTo_append]
  by_cases low : value w < 256
  · rw [frontOctet, if_pos low]
    exact ⟨0, r, short, here ow low⟩
  · obtain ⟨x, x', x'', rfl⟩ := ow.three low
    have none_here : (ipv4 d).rests (x :: dotted [x', x''] b c (e ++ y)) = [] := by
      by_contra some_match
      obtain ⟨t, mem⟩ := List.exists_mem_of_ne_nil _ some_match
      exact low ((ipv4_dotted ow ob oc).1 mem).1.1
    have front := octet_front ow
    rw [frontOctet, if_neg low] at front ⊢
    have moved : dotted [x, x', x''] b c (e ++ y) = x :: dotted [x', x''] b c (e ++ y) := rfl
    have later : (ipv4 d).find (dotted [x', x''] b c (e ++ y)) = some ⟨0, dotted [x', x''] b c (backOctet e), r ++ y⟩ :=
      here front.1 front.2
    refine ⟨1, r, short, ?_⟩
    rw [moved, Regex.find_cons (plain_ipv4 d) none_here, later]
    rfl

/-- The port is found behind the colon, past a digit that is left over. -/
theorem find_port {r p : Text} (short : r.length ≤ 1) (digits : ∀ x ∈ p, x.isDigit) (ports : 2 ≤ p.length ∧ p.length ≤ 5) :
    ∃ n, (portRe d).find (r ++ ':' :: p) = some ⟨n, p, []⟩ := by
  have colon : d.has ':' = false := d.ascii ':' (by decide)
  have port : (portRe d).find p = some ⟨0, p, []⟩ := by
    have head := portRe_digits (d := d) (y := []) ports.1 ports.2 (fun x mem => has_of_isDigit (digits x mem)) (by simp [NoDigit])
    rw [List.append_nil] at head
    have whole := Regex.find_here (plain_portRe d) head
    rw [whole]
    simp [Regex.upTo]
  have passed : (portRe d).find (':' :: p) = some ⟨1, p, []⟩ := by
    have none_here : (portRe d).rests (':' :: p) = [] := by
      simp [portRe, Regex.times, digit, Regex.rests_seq, colon]
    rw [Regex.find_cons (plain_portRe d) none_here, port]
    rfl
  rcases r with _ | ⟨x, _ | ⟨x', r⟩⟩
  · exact ⟨1, passed⟩
  · have none_here : (portRe d).rests (x :: ':' :: p) = [] := by
      by_cases has : d.has x <;> simp [portRe, Regex.times, digit, Regex.rests_seq, colon, has]
    refine ⟨2, ?_⟩
    rw [List.singleton_append, Regex.find_cons (plain_portRe d) none_here, passed]
    rfl
  · simp only [List.length_cons] at short
    omega

end Line

end ProxyBroker.Parse
