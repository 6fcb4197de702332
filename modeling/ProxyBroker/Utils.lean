import ProxyBroker.Lib.Text

/-!
# Shared helpers (`utils.rs`)

`base64Encode` packs up to three bytes into a 24-bit group and emits four sextets, as the source
does. `base64Decode` is the decoder of RFC 4648 with required padding; it is not in the source and
serves to state that the encoder loses nothing.
-/

namespace ProxyBroker
open Lib

/-- `ALPHABET`. -/
def alphabet : Text := "ABCDEFGHIJKLMNOPQRSTUVWXYZabcdefghijklmnopqrstuvwxyz0123456789+/".toList

/-- The 24-bit group of three bytes. -/
def group (a b c : UInt8) : Nat := (a.toNat <<< 16) ||| (b.toNat <<< 8) ||| c.toNat

/-- `ALPHABET[(n >> shift) as usize & 0x3f]`. -/
def sextet (n shift : Nat) : Char := alphabet.getD ((n >>> shift) &&& 0x3f) 'A'

/-- `utils.rs:base64_encode`. -/
def base64Encode : Bytes → Text
  | [] => []
  | [a] => let n := group a 0 0; [sextet n 18, sextet n 12, '=', '=']
  | [a, b] => let n := group a b 0; [sextet n 18, sextet n 12, sextet n 6, '=']
  | a :: b :: c :: t => let n := group a b c; sextet n 18 :: sextet n 12 :: sextet n 6 :: sextet n 0 :: base64Encode t

/-- The value of an alphabet character. -/
def sextetValue (c : Char) : Option Nat := if c ∈ alphabet then some (alphabet.idxOf c) else none

/-- The bytes of a quantum of `k + 1` bytes with 24-bit value `n`. -/
def quantum (n : Nat) (k : Nat) : Bytes := ([n / 2 ^ 16, n / 2 ^ 8, n].take (k + 1)).map UInt8.ofNat

/-- RFC 4648 decoding; the unused bits of a padded quantum must be zero, and padding ends the text. -/
def base64Decode : Text → Option Bytes
  | [] => some []
  | w :: x :: y :: z :: t =>
    if z ≠ '=' then do
      let n := (← sextetValue w) * 2 ^ 18 + (← sextetValue x) * 2 ^ 12 + (← sextetValue y) * 2 ^ 6 + (← sextetValue z)
      let rest ← base64Decode t
      return quantum n 2 ++ rest
    else if t ≠ [] then none
    else if y ≠ '=' then do
      let n := (← sextetValue w) * 2 ^ 18 + (← sextetValue x) * 2 ^ 12 + (← sextetValue y) * 2 ^ 6
      if n % 2 ^ 8 = 0 then some (quantum n 1) else none
    else do
      let n := (← sextetValue w) * 2 ^ 18 + (← sextetValue x) * 2 ^ 12
      if n % 2 ^ 16 = 0 then some (quantum n 0) else none
  | _ => none

theorem group_eq (a b c : UInt8) : group a b c = a.toNat * 2 ^ 16 + b.toNat * 2 ^ 8 + c.toNat := by
  have hb := b.toNat_lt
  have hc := c.toNat_lt
  rw [group, Nat.or_assoc, ← Nat.shiftLeft_add_eq_or_of_lt (by omega : c.toNat < 2 ^ 8), Nat.shiftLeft_eq, Nat.shiftLeft_eq,
    ← Nat.shiftLeft_eq a.toNat, ← Nat.shiftLeft_add_eq_or_of_lt (by omega : b.toNat * 2 ^ 8 + c.toNat < 2 ^ 16),
    Nat.shiftLeft_eq, Nat.add_assoc]

theorem alphabet_getD (i : Nat) (hi : i < 64) : sextetValue (alphabet.getD i 'A') = some i ∧ alphabet.getD i 'A' ≠ '=' := by
  revert i
  decide +kernel

theorem sextet_getD (n shift : Nat) : sextet n shift = alphabet.getD (n / 2 ^ shift % 64) 'A' := by
  rw [sextet, Nat.shiftRight_eq_div_pow, show 0x3f = 2 ^ 6 - 1 from rfl, Nat.and_two_pow_sub_one_eq_mod]

/-- A sextet decodes to the six bits it stands for, and is not the padding character. -/
theorem sextetValue_sextet (n shift : Nat) :
    sextetValue (sextet n shift) = some (n / 2 ^ shift % 64) ∧ sextet n shift ≠ '=' := by
  rw [sextet_getD]
  exact alphabet_getD _ (Nat.mod_lt _ (by decide))

theorem sextet_ne_pad (n shift : Nat) : sextet n shift ≠ '=' := (sextetValue_sextet n shift).2

theorem sextet_mem (n shift : Nat) : sextet n shift ∈ alphabet := by
  have value := (sextetValue_sextet n shift).1
  unfold sextetValue at value
  by_contra outside
  rw [if_neg outside] at value
  cases value

theorem mem_base64Encode {bs : Bytes} {c : Char} (mem : c ∈ base64Encode bs) : c ∈ alphabet ∨ c = '=' := by
  induction bs using base64Encode.induct with
  | case1 => cases mem
  | case2 a =>
    simp only [base64Encode, List.mem_cons, List.not_mem_nil, or_false] at mem
    rcases mem with rfl | rfl | rfl | rfl
    · exact Or.inl (sextet_mem _ _)
    · exact Or.inl (sextet_mem _ _)
    · exact Or.inr rfl
    · exact Or.inr rfl
  | case3 a b =>
    simp only [base64Encode, List.mem_cons, List.not_mem_nil, or_false] at mem
    rcases mem with rfl | rfl | rfl | rfl
    · exact Or.inl (sextet_mem _ _)
    · exact Or.inl (sextet_mem _ _)
    · exact Or.inl (sextet_mem _ _)
    · exact Or.inr rfl
  | case4 a b d t ih =>
    simp only [base64Encode, List.mem_cons] at mem
    rcases mem with rfl | rfl | rfl | rfl | mem
    · exact Or.inl (sextet_mem _ _)
    · exact Or.inl (sextet_mem _ _)
    · exact Or.inl (sextet_mem _ _)
    · exact Or.inl (sextet_mem _ _)
    · exact ih mem

/-- The bytes packed into a group come out of it. -/
theorem quantum_group (a b c : UInt8) (k : Nat) : quantum (group a b c) k = [a, b, c].take (k + 1) := by
  have ha := a.toNat_lt
  have hb := b.toNat_lt
  have hc := c.toNat_lt
  have first : UInt8.ofNat (group a b c / 2 ^ 16) = a := by
    apply UInt8.toNat_inj.1
    rw [UInt8.toNat_ofNat', group_eq]; omega
  have second : UInt8.ofNat (group a b c / 2 ^ 8) = b := by
    apply UInt8.toNat_inj.1
    rw [UInt8.toNat_ofNat', group_eq]; omega
  have third : UInt8.ofNat (group a b c) = c := by
    apply UInt8.toNat_inj.1
    rw [UInt8.toNat_ofNat', group_eq]; omega
  rw [quantum, List.map_take]
  simp only [List.map_cons, List.map_nil, first, second, third]

theorem decode_three {w x y z : Char} {t : Text} {i j k l : Nat} {rest : Bytes} (hw : sextetValue w = some i)
    (hx : sextetValue x = some j) (hy : sextetValue y = some k) (hz : sextetValue z = some l) (full : z ≠ '=')
    (ht : base64Decode t = some rest) :
    base64Decode (w :: x :: y :: z :: t) = some (quantum (i * 2 ^ 18 + j * 2 ^ 12 + k * 2 ^ 6 + l) 2 ++ rest) := by
  rw [base64Decode, if_pos full, hw, hx, hy, hz, ht]
  rfl

theorem decode_two {w x y : Char} {i j k : Nat} (hw : sextetValue w = some i) (hx : sextetValue x = some j)
    (hy : sextetValue y = some k) (full : y ≠ '=') (unused : (i * 2 ^ 18 + j * 2 ^ 12 + k * 2 ^ 6) % 2 ^ 8 = 0) :
    base64Decode [w, x, y, '='] = some (quantum (i * 2 ^ 18 + j * 2 ^ 12 + k * 2 ^ 6) 1) := by
  rw [base64Decode, if_neg (by decide), if_neg (by decide), if_pos full, hw, hx, hy,
    Option.bind_eq_bind, Option.bind_some, Option.bind_some, Option.bind_some, if_pos unused]

theorem decode_one {w x : Char} {i j : Nat} (hw : sextetValue w = some i) (hx : sextetValue x = some j)
    (unused : (i * 2 ^ 18 + j * 2 ^ 12) % 2 ^ 16 = 0) :
    base64Decode [w, x, '=', '='] = some (quantum (i * 2 ^ 18 + j * 2 ^ 12) 0) := by
  rw [base64Decode, if_neg (by decide), if_neg (by decide), if_neg (by decide), hw, hx,
    Option.bind_eq_bind, Option.bind_some, Option.bind_some, if_pos unused]

/-- **The decoder inverts the encoder.** -/
theorem decode_encode (bs : Bytes) : base64Decode (base64Encode bs) = some bs := by
  induction bs using base64Encode.induct with
  | case1 => rfl
  | case2 a =>
    have ha := a.toNat_lt
    have whole : group a 0 0 / 2 ^ 18 % 64 * 2 ^ 18 + group a 0 0 / 2 ^ 12 % 64 * 2 ^ 12 = group a 0 0 := by
      rw [group_eq]; simp only [UInt8.toNat_zero]; omega
    have unused : group a 0 0 % 2 ^ 16 = 0 := by rw [group_eq]; simp only [UInt8.toNat_zero]; omega
    rw [base64Encode, decode_one (sextetValue_sextet _ _).1 (sextetValue_sextet _ _).1 (by rw [whole]; exact unused), whole,
      quantum_group]
    rfl
  | case3 a b =>
    have ha := a.toNat_lt
    have hb := b.toNat_lt
    have whole : group a b 0 / 2 ^ 18 % 64 * 2 ^ 18 + group a b 0 / 2 ^ 12 % 64 * 2 ^ 12 + group a b 0 / 2 ^ 6 % 64 * 2 ^ 6 =
        group a b 0 := by
      rw [group_eq]; simp only [UInt8.toNat_zero]; omega
    have unused : group a b 0 % 2 ^ 8 = 0 := by rw [group_eq]; simp only [UInt8.toNat_zero]; omega
    rw [base64Encode, decode_two (sextetValue_sextet _ _).1 (sextetValue_sextet _ _).1 (sextetValue_sextet _ _).1
      (sextet_ne_pad _ _) (by rw [whole]; exact unused), whole, quantum_group]
    rfl
  | case4 a b c t ih =>
    have ha := a.toNat_lt
    have hb := b.toNat_lt
    have hc := c.toNat_lt
    have whole : group a b c / 2 ^ 18 % 64 * 2 ^ 18 + group a b c / 2 ^ 12 % 64 * 2 ^ 12 + group a b c / 2 ^ 6 % 64 * 2 ^ 6 +
        group a b c / 2 ^ 0 % 64 = group a b c := by
      rw [group_eq]; omega
    rw [base64Encode, decode_three (sextetValue_sextet _ _).1 (sextetValue_sextet _ _).1 (sextetValue_sextet _ _).1
      (sextetValue_sextet _ _).1 (sextet_ne_pad _ _) ih, whole, quantum_group]
    rfl

theorem base64Encode_inj {xs ys : Bytes} (h : base64Encode xs = base64Encode ys) : xs = ys := by
  have := decode_encode xs
  rw [h, decode_encode ys] at this
  exact (Option.some.inj this).symm

/-- `4 * ⌈n / 3⌉` characters. -/
theorem length_base64Encode (bs : Bytes) : (base64Encode bs).length = 4 * ((bs.length + 2) / 3) := by
  induction bs using base64Encode.induct with
  | case1 => rfl
  | case2 a => simp only [base64Encode, List.length_cons, List.length_nil]
  | case3 a b => simp only [base64Encode, List.length_cons, List.length_nil]
  | case4 a b c t ih =>
    simp only [base64Encode, List.length_cons, ih]
    omega

/-- **RFC 4648.** The decoder gives the bytes back, there are four characters for every three bytes begun, and no
two byte strings have one encoding. -/
theorem base64_rfc4648 : (∀ bs, base64Decode (base64Encode bs) = some bs) ∧
    (∀ bs, (base64Encode bs).length = 4 * ((bs.length + 2) / 3)) ∧ Function.Injective base64Encode :=
  ⟨decode_encode, length_base64Encode, fun _ _ => base64Encode_inj⟩

/-! ## What the decoder accepts -/

theorem sextetValue_some {c : Char} {i : Nat} (value : sextetValue c = some i) : i < 64 ∧ alphabet.getD i 'A' = c := by
  unfold sextetValue at value
  split at value
  · rename_i mem
    cases value
    have lt := List.idxOf_lt_length_of_mem mem
    refine ⟨lt, ?_⟩
    rw [List.getD_eq_getElem?_getD, List.getElem?_eq_getElem lt, Option.getD_some, List.getElem_idxOf]
  · cases value

theorem sextet_eq {c : Char} {i n shift : Nat} (value : sextetValue c = some i) (bits : n / 2 ^ shift % 64 = i) : sextet n shift = c := by
  rw [sextet_getD, bits]
  exact (sextetValue_some value).2

/-- A group comes out of its bytes. -/
theorem group_quantum {n : Nat} (lt : n < 2 ^ 24) : group (UInt8.ofNat (n / 2 ^ 16)) (UInt8.ofNat (n / 2 ^ 8)) (UInt8.ofNat n) = n := by
  rw [group_eq, UInt8.toNat_ofNat', UInt8.toNat_ofNat', UInt8.toNat_ofNat']
  omega

theorem ofNat_eq_zero {n : Nat} (unused : n % 2 ^ 8 = 0) : UInt8.ofNat n = 0 := by
  apply UInt8.toNat_inj.1
  rw [UInt8.toNat_ofNat', unused]
  rfl

theorem encode_three {n : Nat} (lt : n < 2 ^ 24) (rest : Bytes) :
    base64Encode (quantum n 2 ++ rest) = sextet n 18 :: sextet n 12 :: sextet n 6 :: sextet n 0 :: base64Encode rest := by
  show base64Encode (_ :: _ :: _ :: rest) = _
  rw [base64Encode, group_quantum lt]

theorem encode_two {n : Nat} (lt : n < 2 ^ 24) (unused : n % 2 ^ 8 = 0) :
    base64Encode (quantum n 1) = [sextet n 18, sextet n 12, sextet n 6, '='] := by
  have whole := group_quantum lt
  rw [ofNat_eq_zero unused] at whole
  show base64Encode [_, _] = _
  rw [base64Encode, whole]

theorem encode_one {n : Nat} (lt : n < 2 ^ 24) (unused : n % 2 ^ 16 = 0) :
    base64Encode (quantum n 0) = [sextet n 18, sextet n 12, '=', '='] := by
  have whole := group_quantum lt
  rw [ofNat_eq_zero (by omega : n % 2 ^ 8 = 0), ofNat_eq_zero (by omega : n / 2 ^ 8 % 2 ^ 8 = 0)] at whole
  show base64Encode [_] = _
  rw [base64Encode, whole]

/-- **The decoder accepts nothing else**: a text that decodes is the encoding of what it decodes to. -/
theorem encode_decode {t : Text} {bs : Bytes} (h : base64Decode t = some bs) : base64Encode bs = t := by
  induction t using base64Decode.induct generalizing bs with
  | case1 =>
    cases h
    rfl
  | case2 w x y z t full ih =>
    rw [base64Decode, if_pos full] at h
    simp only [Option.bind_eq_bind, Option.bind_eq_some_iff, Option.pure_def, Option.some.injEq] at h
    obtain ⟨i, hw, j, hx, k, hy, l, hz, rest, decoded, rfl⟩ := h
    obtain ⟨hi, -⟩ := sextetValue_some hw
    obtain ⟨hj, -⟩ := sextetValue_some hx
    obtain ⟨hk, -⟩ := sextetValue_some hy
    obtain ⟨hl, -⟩ := sextetValue_some hz
    rw [encode_three (by omega), ih decoded, sextet_eq hw (by omega), sextet_eq hx (by omega), sextet_eq hy (by omega),
      sextet_eq hz (by omega)]
  | case3 w x y z t padded more =>
    rw [base64Decode, if_neg padded, if_pos more] at h
    cases h
  | case4 w x y z t padded last two =>
    obtain rfl : z = '=' := not_not.1 padded
    obtain rfl : t = [] := not_not.1 last
    rw [base64Decode, if_neg padded, if_neg last, if_pos two] at h
    simp only [Option.bind_eq_bind, Option.bind_eq_some_iff, Option.ite_none_right_eq_some, Option.some.injEq] at h
    obtain ⟨i, hw, j, hx, k, hy, unused, rfl⟩ := h
    obtain ⟨hi, -⟩ := sextetValue_some hw
    obtain ⟨hj, -⟩ := sextetValue_some hx
    obtain ⟨hk, -⟩ := sextetValue_some hy
    rw [encode_two (by omega) unused, sextet_eq hw (by omega), sextet_eq hx (by omega), sextet_eq hy (by omega)]
  | case5 w x y z t padded last one =>
    obtain rfl : z = '=' := not_not.1 padded
    obtain rfl : t = [] := not_not.1 last
    obtain rfl : y = '=' := not_not.1 one
    rw [base64Decode, if_neg padded, if_neg last, if_neg one] at h
    simp only [Option.bind_eq_bind, Option.bind_eq_some_iff, Option.ite_none_right_eq_some, Option.some.injEq] at h
    obtain ⟨i, hw, j, hx, unused, rfl⟩ := h
    obtain ⟨hi, -⟩ := sextetValue_some hw
    obtain ⟨hj, -⟩ := sextetValue_some hx
    rw [encode_one (by omega) unused, sextet_eq hw (by omega), sextet_eq hx (by omega)]
  | case6 t short odd =>
    rw [base64Decode] at h
    · cases h
    · exact short
    · exact odd

/-- The texts that the decoder accepts are the encodings. -/
theorem base64Decode_iff {t : Text} {bs : Bytes} : base64Decode t = some bs ↔ base64Encode bs = t := by
  constructor
  · exact encode_decode
  · rintro rfl
    exact decode_encode bs

/-! ## Status codes -/

/-- `utils.rs:get_status_code`. -/
def getStatusCode (resp : Bytes) (start stop : Nat) : UInt16 :=
  let stop := min stop resp.length
  if stop ≤ start then 400
  else
    match fromUtf8 ((resp.take stop).drop start) with
    | some t => (parseU16 (trim t)).getD 400
    | none => 400

end ProxyBroker
