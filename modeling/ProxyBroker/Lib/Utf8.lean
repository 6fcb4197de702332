import Mathlib.Algebra.Group.Nat.Defs
import Mathlib.Data.List.Basic

/-!
# Bytes and text

`chunks` is the decoder behind Rust's `from_utf8` and `from_utf8_lossy`, as a machine that takes one
byte at a time: `some c` for a decoded character, `none` for a maximal ill-formed piece. A byte that
breaks a started sequence ends that piece and is read again from the start. `fromUtf8Lossy` puts
U+FFFD for each piece, `fromUtf8` refuses when there is one, `utf8` encodes.

An ASCII byte never belongs to a longer sequence, so decoding splits at it (`lossy_append_ascii`).
This is what lets a scan of the text be compared with a scan of the bytes.
-/

namespace ProxyBroker.Lib

abbrev Bytes := List UInt8
abbrev Text := List Char

/-- The bytes of an ASCII literal. -/
def ascii (s : String) : Bytes := s.toList.map fun c => c.toNat.toUInt8

/-- `str::as_bytes`. -/
def utf8 (t : Text) : Bytes := t.flatMap String.utf8EncodeChar

theorem utf8_inj {a b : Text} : utf8 a = utf8 b ↔ a = b := by
  constructor
  · intro same
    have bytes : a.utf8Encode = b.utf8Encode := congrArg List.toByteArray same
    have decoded := congrArg ByteArray.utf8Decode? bytes
    rw [List.utf8Decode?_utf8Encode, List.utf8Decode?_utf8Encode] at decoded
    simpa using decoded
  · rintro rfl
    rfl

/-- A started multi-byte sequence: the range of the next byte, the bits read so far, and how many
bytes are still due after the next one. -/
structure Pending where
  low : UInt8
  high : UInt8
  bits : Nat
  due : Nat

/-- What a byte read from the start begins. -/
inductive Lead where
  | char (c : Char)
  | bad
  | more (p : Pending)

/-- The first byte of a sequence (RFC 3629). `0xE0`, `0xED`, `0xF0` and `0xF4` narrow the second. -/
def lead (b : UInt8) : Lead :=
  if b < 0x80 then .char (Char.ofNat b.toNat)
  else if b < 0xC2 then .bad
  else if b < 0xE0 then .more ⟨0x80, 0xBF, b.toNat % 0x20, 0⟩
  else if b = 0xE0 then .more ⟨0xA0, 0xBF, 0, 1⟩
  else if b = 0xED then .more ⟨0x80, 0x9F, 0x0D, 1⟩
  else if b < 0xF0 then .more ⟨0x80, 0xBF, b.toNat % 0x10, 1⟩
  else if b = 0xF0 then .more ⟨0x90, 0xBF, 0, 2⟩
  else if b < 0xF4 then .more ⟨0x80, 0xBF, b.toNat % 0x08, 2⟩
  else if b = 0xF4 then .more ⟨0x80, 0x8F, 4, 2⟩
  else .bad

/-- The decoder: characters and maximal ill-formed pieces (`none`), in order. -/
def chunks : Option Pending → Bytes → List (Option Char)
  | none, [] => []
  | some _, [] => [none]
  | none, b :: t =>
    match lead b with
    | .char c => some c :: chunks none t
    | .bad => none :: chunks none t
    | .more p => chunks (some p) t
  | some p, b :: t =>
    if p.low ≤ b ∧ b ≤ p.high then
      match p.due with
      | 0 => some (Char.ofNat (p.bits * 64 + b.toNat % 64)) :: chunks none t
      | d + 1 => chunks (some ⟨0x80, 0xBF, p.bits * 64 + b.toNat % 64, d⟩) t
    else
      -- the piece ends before `b`, which starts afresh
      match lead b with
      | .char c => none :: some c :: chunks none t
      | .bad => none :: none :: chunks none t
      | .more q => none :: chunks (some q) t

/-- `String::from_utf8_lossy`. -/
def fromUtf8Lossy (bs : Bytes) : Text := (chunks none bs).map fun c => c.getD '\uFFFD'

/-- `std::str::from_utf8`. -/
def fromUtf8 (bs : Bytes) : Option Text := (chunks none bs).mapM id

/-- The least code point a started sequence can still end in. -/
def Pending.least (p : Pending) : Nat := (p.bits * 64 + p.low.toNat % 64) * 64 ^ p.due

/-- A bound above every code point a started sequence can still end in. -/
def Pending.bound (p : Pending) : Nat := (p.bits * 64 + p.high.toNat % 64 + 1) * 64 ^ p.due

/-- A started sequence waits for continuation bytes only and ends in a scalar value above ASCII. -/
structure Pending.Wide (p : Pending) : Prop where
  low : 0x80 ≤ p.low
  high : p.high ≤ 0xBF
  least : 0x80 ≤ p.least
  scalar : p.bound ≤ 0xD800 ∨ 0xE000 ≤ p.least ∧ p.bound ≤ 0x110000

theorem lead_ascii {b : UInt8} (h : b < 0x80) : lead b = .char (Char.ofNat b.toNat) := by
  simp [lead, h]

theorem lead_wide {b : UInt8} {p : Pending} (h : lead b = .more p) : p.Wide := by
  unfold lead at h
  simp only [UInt8.lt_iff_toNat_lt, ← UInt8.toNat_inj, UInt8.reduceToNat] at h
  repeat' split at h
  all_goals cases h
  all_goals
    constructor
    · exact UInt8.le_iff_toNat_le.2 (by simp only [UInt8.reduceToNat]; omega)
    · exact UInt8.le_iff_toNat_le.2 (by simp only [UInt8.reduceToNat]; omega)
    · simp only [Pending.least, UInt8.reduceToNat]; omega
    · simp only [Pending.least, Pending.bound, UInt8.reduceToNat]; omega

/-- A continuation byte narrows a started sequence. -/
theorem Pending.Wide.next {p : Pending} (w : p.Wide) {b : UInt8} (lo : p.low ≤ b) (hi : b ≤ p.high) {d : Nat}
    (due : p.due = d + 1) : (⟨0x80, 0xBF, p.bits * 64 + b.toNat % 64, d⟩ : Pending).Wide := by
  have low := w.low
  have high := w.high
  simp only [UInt8.le_iff_toNat_le, UInt8.reduceToNat] at low high lo hi
  have least : p.least ≤ ((p.bits * 64 + b.toNat % 64) * 64 + 0) * 64 ^ d := by
    rw [Pending.least, due, Nat.pow_succ', ← Nat.mul_assoc]
    exact Nat.mul_le_mul_right _ (by omega)
  have bound : ((p.bits * 64 + b.toNat % 64) * 64 + 63 + 1) * 64 ^ d ≤ p.bound := by
    rw [Pending.bound, due, Nat.pow_succ', ← Nat.mul_assoc]
    exact Nat.mul_le_mul_right _ (by omega)
  have pl := w.least
  have ps := w.scalar
  refine ⟨UInt8.le_refl _, UInt8.le_refl _, ?_, ?_⟩
  all_goals simp only [Pending.least, Pending.bound, UInt8.reduceToNat, Nat.reduceMod]; omega

/-- The last byte of a started sequence gives a character above ASCII. -/
theorem Pending.Wide.char {p : Pending} (w : p.Wide) {b : UInt8} (lo : p.low ≤ b) (hi : b ≤ p.high)
    (due : p.due = 0) : 0x80 ≤ (Char.ofNat (p.bits * 64 + b.toNat % 64)).toNat := by
  have low := w.low
  have high := w.high
  have pl := w.least
  have ps := w.scalar
  simp only [Pending.least, Pending.bound, due, Nat.pow_zero, Nat.mul_one] at pl ps
  simp only [UInt8.le_iff_toNat_le, UInt8.reduceToNat] at low high lo hi
  have valid : (p.bits * 64 + b.toNat % 64).isValidChar := by unfold Nat.isValidChar; omega
  have code : (Char.ofNat (p.bits * 64 + b.toNat % 64)).toNat = p.bits * 64 + b.toNat % 64 := by
    rw [Char.ofNat, dif_pos valid]; rfl
  omega

theorem chunks_append_ascii {a : UInt8} (ha : a < 0x80) (ys : Bytes) (xs : Bytes) :
    ∀ st : Option Pending, (∀ p ∈ st, p.Wide) →
      chunks st (xs ++ a :: ys) = chunks st xs ++ some (Char.ofNat a.toNat) :: chunks none ys := by
  induction xs with
  | nil =>
    intro st wide
    cases st with
    | none => simp [chunks, lead_ascii ha]
    | some p =>
      have out : ¬ (p.low ≤ a ∧ a ≤ p.high) := by
        intro inside
        exact absurd (UInt8.lt_of_le_of_lt (UInt8.le_trans (wide p rfl).low inside.1) ha) (by decide)
      simp [chunks, out, lead_ascii ha]
  | cons b xs ih =>
    intro st wide
    have fresh := ih none (by simp)
    have started : ∀ q, lead b = .more q → ∀ p ∈ some q, p.Wide := by
      rintro q hq p ⟨⟩
      exact lead_wide hq
    cases st with
    | none =>
      simp only [List.cons_append, chunks]
      cases hb : lead b with
      | char c => simp only [List.cons_append, fresh]
      | bad => simp only [List.cons_append, fresh]
      | more q => exact ih (some q) (started q hb)
    | some p =>
      simp only [List.cons_append, chunks]
      split
      · rename_i inside
        cases due : p.due with
        | zero => simp only [List.cons_append, fresh]
        | succ d => exact ih (some _) (by rintro q ⟨⟩; exact (wide p rfl).next inside.1 inside.2 due)
      · cases hb : lead b with
        | char c => simp only [List.cons_append, fresh]
        | bad => simp only [List.cons_append, fresh]
        | more q => simp only [List.cons_append, ih (some q) (started q hb)]

/-- **Decoding splits at an ASCII byte.** -/
theorem lossy_append_ascii {a : UInt8} (ha : a < 0x80) (xs ys : Bytes) :
    fromUtf8Lossy (xs ++ a :: ys) = fromUtf8Lossy xs ++ Char.ofNat a.toNat :: fromUtf8Lossy ys := by
  simp [fromUtf8Lossy, chunks_append_ascii ha ys xs none (by simp)]

@[simp] theorem lossy_nil : fromUtf8Lossy [] = [] := rfl

theorem lossy_cons_ascii {a : UInt8} (ha : a < 0x80) (ys : Bytes) :
    fromUtf8Lossy (a :: ys) = Char.ofNat a.toNat :: fromUtf8Lossy ys :=
  lossy_append_ascii ha [] ys

/-- A started sequence yields an ill-formed piece or a character above ASCII before anything else. -/
theorem chunks_pending_head (xs : Bytes) : ∀ p : Pending, p.Wide →
    ∃ c t, chunks (some p) xs = c :: t ∧ ∀ ch ∈ c, 0x80 ≤ ch.toNat := by
  induction xs with
  | nil => intro p _; exact ⟨none, [], rfl, by simp⟩
  | cons b xs ih =>
    intro p wide
    simp only [chunks]
    split
    · rename_i inside
      cases due : p.due with
      | zero => exact ⟨_, _, rfl, by rintro ch ⟨⟩; exact wide.char inside.1 inside.2 due⟩
      | succ d => exact ih _ (wide.next inside.1 inside.2 due)
    · cases lead b <;> exact ⟨none, _, rfl, by simp⟩

theorem lead_high {b : UInt8} (high : ¬ b < 0x80) (c : Char) : lead b ≠ .char c := by
  intro hb
  unfold lead at hb
  rw [if_neg high] at hb
  repeat' split at hb
  all_goals cases hb

/-- A byte outside ASCII decodes to a character outside ASCII. -/
theorem lossy_cons_high {a : UInt8} (ha : ¬ a < 0x80) (ys : Bytes) :
    ∃ c t, fromUtf8Lossy (a :: ys) = c :: t ∧ 0x80 ≤ c.toNat := by
  have replaced : 0x80 ≤ (Option.none.getD '\uFFFD').toNat := by decide
  simp only [fromUtf8Lossy, chunks]
  cases hb : lead a with
  | char c => exact absurd hb (lead_high ha c)
  | bad => exact ⟨_, _, rfl, replaced⟩
  | more p =>
    obtain ⟨c, t, eq, wide⟩ := chunks_pending_head ys p (lead_wide hb)
    refine ⟨c.getD '\uFFFD', t.map fun c => c.getD '\uFFFD', congrArg (List.map _) eq, ?_⟩
    cases c with
    | none => exact replaced
    | some ch => exact wide ch rfl

/-! ## ASCII stays where it is -/

/-- A translation of texts that takes the symbols of a class `A` one by one, and makes their images from
nothing else. -/
structure Cuts {α β : Type} (f : List α → List β) (φ : α → β) (A : α → Prop) : Prop where
  append : ∀ {x y : List α} {a : α}, A a → f (x ++ a :: y) = f x ++ φ a :: f y
  split : ∀ {l : List α} {u v : List β} {a : α}, A a → f l = u ++ φ a :: v → ∃ x y, l = x ++ a :: y ∧ f x = u ∧ f y = v
  eq_nil_iff : ∀ {l : List α}, f l = [] ↔ l = []

section Cuts
variable {α β : Type} {f : List α → List β} {φ : α → β} {A : α → Prop} {l p : List α}

theorem Cuts.prefix_iff (cuts : Cuts f φ A) (all : ∀ a ∈ p, A a) : p.map φ <+: f l ↔ p <+: l := by
  induction p generalizing l with
  | nil => simp
  | cons a p ih =>
    have first : A a := all a List.mem_cons_self
    have rest {l : List α} : p.map φ <+: f l ↔ p <+: l := ih fun b mem => all b (List.mem_cons_of_mem a mem)
    have next (y : List α) : f (a :: y) = φ a :: f y := by
      have cut := cuts.append (x := []) (y := y) first
      rwa [cuts.eq_nil_iff.2 rfl] at cut
    constructor
    · rintro ⟨v, eq⟩
      obtain ⟨x, y, rfl, before, after⟩ := cuts.split (u := []) first eq.symm
      obtain rfl := cuts.eq_nil_iff.1 before
      rw [List.nil_append, List.cons_prefix_cons]
      exact ⟨rfl, rest.1 ⟨v, after.symm⟩⟩
    · rintro ⟨y, rfl⟩
      rw [List.cons_append, next, List.map_cons, List.cons_prefix_cons]
      exact ⟨rfl, rest.2 (List.prefix_append p y)⟩

theorem Cuts.infix_iff (cuts : Cuts f φ A) (all : ∀ a ∈ p, A a) : p.map φ <:+: f l ↔ p <:+: l := by
  cases p with
  | nil => simp
  | cons a p =>
    have first : A a := all a List.mem_cons_self
    have rest {l : List α} : p.map φ <+: f l ↔ p <+: l := cuts.prefix_iff fun b mem => all b (List.mem_cons_of_mem a mem)
    constructor
    · rintro ⟨u, v, eq⟩
      obtain ⟨x, y, rfl, -, after⟩ := cuts.split (u := u) (v := p.map φ ++ v) first (by rw [← eq]; simp)
      obtain ⟨z, rfl⟩ := rest.1 ⟨v, after.symm⟩
      exact ⟨x, z, by simp⟩
    · rintro ⟨x, y, rfl⟩
      obtain ⟨v, eq⟩ := rest.2 (List.prefix_append p y)
      refine ⟨f x, v, ?_⟩
      rw [List.append_assoc x, List.cons_append, cuts.append first, ← eq]
      simp

theorem Cuts.mem_iff (cuts : Cuts f φ A) {a : α} (class_a : A a) : φ a ∈ f l ↔ a ∈ l := by
  constructor
  · intro mem
    obtain ⟨u, v, eq⟩ := List.append_of_mem mem
    obtain ⟨x, y, rfl, -, -⟩ := cuts.split class_a eq
    simp
  · intro mem
    obtain ⟨x, y, rfl⟩ := List.append_of_mem mem
    rw [cuts.append class_a]
    simp

end Cuts

theorem encode_ascii {c : Char} (small : c.toNat < 0x80) : String.utf8EncodeChar c = [c.toNat.toUInt8] := by
  unfold String.utf8EncodeChar
  exact if_pos (Nat.le_of_lt_succ small)

theorem encode_high {c : Char} (high : ¬ c.toNat < 0x80) : ∀ b ∈ String.utf8EncodeChar c, ¬ b < 0x80 := by
  have above (n : Nat) (lo : 0x80 ≤ n) (hi : n < 0x100) : ¬ UInt8.ofNat n < 0x80 := by
    rw [UInt8.lt_iff_toNat_lt, UInt8.toNat_ofNat', Nat.mod_eq_of_lt hi]
    exact Nat.not_lt.2 lo
  have notAscii : ¬ c.val.toNat ≤ 0x7f := fun le => high (Nat.lt_succ_of_le le)
  intro b mem
  simp only [String.utf8EncodeChar, if_neg notAscii] at mem
  split at mem
  · simp only [List.mem_cons, List.not_mem_nil, or_false] at mem
    rcases mem with rfl | rfl
    · exact above _ (by omega) (by omega)
    · exact above _ (by omega) (by omega)
  · split at mem
    · simp only [List.mem_cons, List.not_mem_nil, or_false] at mem
      rcases mem with rfl | rfl | rfl
      · exact above _ (by omega) (by omega)
      · exact above _ (by omega) (by omega)
      · exact above _ (by omega) (by omega)
    · simp only [List.mem_cons, List.not_mem_nil, or_false] at mem
      rcases mem with rfl | rfl | rfl | rfl
      · exact above _ (by omega) (by omega)
      · exact above _ (by omega) (by omega)
      · exact above _ (by omega) (by omega)
      · exact above _ (by omega) (by omega)

theorem toNat_byte {c : Char} (small : c.toNat < 0x80) : c.toNat.toUInt8.toNat = c.toNat := by
  rw [Nat.toUInt8, UInt8.toNat_ofNat', Nat.mod_eq_of_lt (by omega)]

theorem byte_ascii {c : Char} (small : c.toNat < 0x80) : c.toNat.toUInt8 < 0x80 := by
  rw [UInt8.lt_iff_toNat_lt, toNat_byte small]
  exact small

theorem utf8_cons (c : Char) (t : Text) : utf8 (c :: t) = String.utf8EncodeChar c ++ utf8 t := rfl

theorem utf8_append (s t : Text) : utf8 (s ++ t) = utf8 s ++ utf8 t := List.flatMap_append

/-- **Encoding** keeps ASCII characters apart from the rest. -/
theorem cuts_utf8 : Cuts utf8 (fun c => c.toNat.toUInt8) (fun c => c.toNat < 0x80) where
  append small := by rw [utf8_append, utf8_cons, encode_ascii small, List.singleton_append]
  eq_nil_iff {t} := by
    constructor
    · intro empty
      exact utf8_inj.1 empty
    · rintro rfl
      rfl
  split {t u v a} small := by
    induction t generalizing u with
    | nil => intro eq; simp [utf8] at eq
    | cons c t ih =>
      intro eq
      rw [utf8_cons] at eq
      by_cases ascii : c.toNat < 0x80
      · rw [encode_ascii ascii, List.singleton_append] at eq
        cases u with
        | nil =>
          obtain ⟨same, rest⟩ := List.cons.inj eq
          obtain rfl : c = a := by
            have nat := congrArg UInt8.toNat same
            rw [toNat_byte ascii, toNat_byte small] at nat
            exact Char.ext (UInt32.toNat.inj nat)
          exact ⟨[], t, rfl, rfl, rest⟩
        | cons b u =>
          obtain ⟨same, rest⟩ := List.cons.inj eq
          obtain ⟨x, y, rfl, before, after⟩ := ih rest
          exact ⟨c :: x, y, rfl, by rw [utf8_cons, encode_ascii ascii, before, same]; rfl, after⟩
      · -- no byte of `c` is the one that is looked for
        rcases List.append_eq_append_iff.1 eq with ⟨u', rfl, rest⟩ | ⟨w, split, rest⟩
        · obtain ⟨x, y, rfl, before, after⟩ := ih rest
          exact ⟨c :: x, y, rfl, by rw [utf8_cons, before], after⟩
        · cases w with
          | nil =>
            rw [List.append_nil] at split
            obtain ⟨x, y, rfl, before, after⟩ := ih (u := []) rest.symm
            exact ⟨c :: x, y, rfl, by rw [utf8_cons, before, List.append_nil, split], after⟩
          | cons b w =>
            obtain ⟨rfl, -⟩ := List.cons.inj rest
            exact absurd (byte_ascii small) (encode_high ascii _ (by rw [split]; simp))

/-- Bytes outside ASCII decode to nothing in ASCII. -/
theorem chunks_high {bs : Bytes} (high : ∀ b ∈ bs, ¬ b < 0x80) :
    ∀ st : Option Pending, (∀ p ∈ st, p.Wide) → ∀ c ∈ chunks st bs, ∀ ch ∈ c, 0x80 ≤ ch.toNat := by
  induction bs with
  | nil =>
    intro st wide c mem
    cases st with
    | none => cases mem
    | some p =>
      obtain rfl := List.mem_singleton.1 mem
      simp
  | cons b bs ih =>
    intro st wide c mem
    have rest := ih fun b mem => high b (List.mem_cons_of_mem _ mem)
    have fresh := rest none (by simp)
    have started (q : Pending) (hq : lead b = .more q) := rest (some q) (by rintro p ⟨⟩; exact lead_wide hq)
    have noChar (ch : Char) : lead b ≠ .char ch := lead_high (high b List.mem_cons_self) ch
    cases st with
    | none =>
      simp only [chunks] at mem
      cases hb : lead b with
      | char ch => exact absurd hb (noChar ch)
      | bad =>
        rw [hb] at mem
        rcases List.mem_cons.1 mem with rfl | mem
        · simp
        · exact fresh c mem
      | more q => exact started q hb c (by rwa [hb] at mem)
    | some p =>
      simp only [chunks] at mem
      split at mem
      · rename_i inside
        cases due : p.due with
        | zero =>
          rw [due] at mem
          rcases List.mem_cons.1 mem with rfl | mem
          · rintro ch ⟨⟩
            exact (wide p rfl).char inside.1 inside.2 due
          · exact fresh c mem
        | succ d =>
          rw [due] at mem
          exact rest (some _) (by rintro q ⟨⟩; exact (wide p rfl).next inside.1 inside.2 due) c mem
      · cases hb : lead b with
        | char ch => exact absurd hb (noChar ch)
        | bad =>
          rw [hb] at mem
          rcases List.mem_cons.1 mem with rfl | mem
          · simp
          · rcases List.mem_cons.1 mem with rfl | mem
            · simp
            · exact fresh c mem
        | more q =>
          rw [hb] at mem
          rcases List.mem_cons.1 mem with rfl | mem
          · simp
          · exact started q hb c mem

theorem lossy_high {bs : Bytes} (high : ∀ b ∈ bs, ¬ b < 0x80) : ∀ c ∈ fromUtf8Lossy bs, 0x80 ≤ c.toNat := by
  intro c mem
  obtain ⟨chunk, at_chunk, rfl⟩ := List.mem_map.1 mem
  cases chunk with
  | none => decide
  | some ch => exact chunks_high high none (by simp) _ at_chunk ch rfl

theorem toNat_ofNat_byte {n : Nat} (small : n < 0x100) : (Char.ofNat n).toNat = n := by
  have valid : n.isValidChar := Or.inl (by omega)
  rw [Char.ofNat, dif_pos valid]
  rfl

/-- **Decoding** keeps ASCII bytes apart from the rest. -/
theorem cuts_lossy : Cuts fromUtf8Lossy (fun b => Char.ofNat b.toNat) (fun b => b < 0x80) where
  append small := lossy_append_ascii small _ _
  eq_nil_iff {bs} := by
    cases bs with
    | nil => simp
    | cons b bs =>
      by_cases small : b < 0x80
      · simp [lossy_cons_ascii small]
      · obtain ⟨c, t, eq, -⟩ := lossy_cons_high small bs
        simp [eq]
  split {bs u v a} small := by
    induction len : bs.length using Nat.strongRecOn generalizing bs u with
    | ind n ih =>
      intro eq
      have code : (Char.ofNat a.toNat).toNat = a.toNat := toNat_ofNat_byte a.toNat_lt
      have lt : a.toNat < 0x80 := UInt8.lt_iff_toNat_lt.1 small
      cases found : bs.find? fun b => decide (b < 0x80) with
      | none =>
        have none : ∀ b ∈ bs, ¬ b < 0x80 := by simpa using found
        have high := lossy_high none (Char.ofNat a.toNat) (by rw [eq]; simp)
        omega
      | some b =>
        obtain ⟨ascii, x, y, rfl, first⟩ := List.find?_eq_some_iff_append.1 found
        have ascii : b < 0x80 := by simpa using ascii
        have none : ∀ b ∈ x, ¬ b < 0x80 := by simpa using first
        have high := lossy_high none
        rw [lossy_append_ascii ascii] at eq
        have here (same : Char.ofNat b.toNat = Char.ofNat a.toNat) : b = a := by
          have nat := congrArg Char.toNat same
          rwa [toNat_ofNat_byte b.toNat_lt, code, UInt8.toNat_inj] at nat
        -- the first ASCII byte is the one that is looked for, or it is before it
        rcases List.append_eq_append_iff.1 eq with ⟨u', rfl, rest⟩ | ⟨w, split, rest⟩
        · cases u' with
          | nil =>
            obtain ⟨same, tail⟩ := List.cons.inj rest
            obtain rfl := here same
            exact ⟨x, y, rfl, (List.append_nil _).symm, tail⟩
          | cons d u' =>
            obtain ⟨same, rest⟩ := List.cons.inj rest
            obtain ⟨x', y', rfl, before, after⟩ := ih y.length (by rw [← len]; simp; omega) rfl rest
            refine ⟨x ++ b :: x', y', by simp, ?_, after⟩
            rw [lossy_append_ascii ascii, before, same]
        · cases w with
          | nil =>
            rw [List.append_nil] at split
            obtain ⟨same, tail⟩ := List.cons.inj rest
            obtain rfl := here same.symm
            exact ⟨x, y, rfl, split, tail.symm⟩
          | cons d w =>
            obtain ⟨rfl, -⟩ := List.cons.inj rest
            have above := high (Char.ofNat a.toNat) (by rw [split]; simp)
            omega

/-! ## The decoder inverts the encoder -/

/-- One continuation byte of a started sequence. -/
theorem chunks_pending {p : Pending} {v : Nat} {bs : Bytes} (low : p.low.toNat ≤ v) (high : v ≤ p.high.toNat) (byte : v < 256) :
    chunks (some p) (UInt8.ofNat v :: bs) =
      match p.due with
      | 0 => some (Char.ofNat (p.bits * 64 + v % 64)) :: chunks none bs
      | d + 1 => chunks (some ⟨0x80, 0xBF, p.bits * 64 + v % 64, d⟩) bs := by
  have toNat : (UInt8.ofNat v).toNat = v := by rw [UInt8.toNat_ofNat', Nat.mod_eq_of_lt byte]
  have inside : p.low ≤ UInt8.ofNat v ∧ UInt8.ofNat v ≤ p.high := by
    rw [UInt8.le_iff_toNat_le, UInt8.le_iff_toNat_le, toNat]
    exact ⟨low, high⟩
  rw [chunks, if_pos inside, toNat]

theorem lead_ofNat {v : Nat} (byte : v < 256) : lead (UInt8.ofNat v) =
    if v < 0x80 then .char (Char.ofNat v)
    else if v < 0xC2 then .bad
    else if v < 0xE0 then .more ⟨0x80, 0xBF, v % 0x20, 0⟩
    else if v = 0xE0 then .more ⟨0xA0, 0xBF, 0, 1⟩
    else if v = 0xED then .more ⟨0x80, 0x9F, 0x0D, 1⟩
    else if v < 0xF0 then .more ⟨0x80, 0xBF, v % 0x10, 1⟩
    else if v = 0xF0 then .more ⟨0x90, 0xBF, 0, 2⟩
    else if v < 0xF4 then .more ⟨0x80, 0xBF, v % 0x08, 2⟩
    else if v = 0xF4 then .more ⟨0x80, 0x8F, 4, 2⟩
    else .bad := by
  have toNat : (UInt8.ofNat v).toNat = v := by rw [UInt8.toNat_ofNat', Nat.mod_eq_of_lt byte]
  unfold lead
  simp only [UInt8.lt_iff_toNat_lt, ← UInt8.toNat_inj, UInt8.reduceToNat, toNat]

theorem lead_three {v : Nat} (low : 0x7ff < v) (high : v ≤ 0xffff) (valid : v < 0xD800 ∨ 0xDFFF < v) :
    ∃ p, lead (UInt8.ofNat (v / 4096 % 0x10 + 0xe0)) = .more p ∧ p.low.toNat ≤ v / 64 % 0x40 + 0x80 ∧
      v / 64 % 0x40 + 0x80 ≤ p.high.toNat ∧ p.bits = v / 4096 ∧ p.due = 1 := by
  rw [lead_ofNat (by omega), if_neg (by omega), if_neg (by omega), if_neg (by omega)]
  split
  · exact ⟨_, rfl, by simp only [UInt8.reduceToNat]; omega, by simp only [UInt8.reduceToNat]; omega, by dsimp only; omega, rfl⟩
  · split
    · exact ⟨_, rfl, by simp only [UInt8.reduceToNat]; omega, by simp only [UInt8.reduceToNat]; omega, by dsimp only; omega, rfl⟩
    · rw [if_pos (by omega)]
      exact ⟨_, rfl, by simp only [UInt8.reduceToNat]; omega, by simp only [UInt8.reduceToNat]; omega, by dsimp only; omega, rfl⟩

theorem lead_four {v : Nat} (low : 0xffff < v) (high : v < 0x110000) :
    ∃ p, lead (UInt8.ofNat (v / 262144 % 0x08 + 0xf0)) = .more p ∧ p.low.toNat ≤ v / 4096 % 0x40 + 0x80 ∧
      v / 4096 % 0x40 + 0x80 ≤ p.high.toNat ∧ p.bits = v / 262144 ∧ p.due = 2 := by
  rw [lead_ofNat (by omega), if_neg (by omega), if_neg (by omega), if_neg (by omega), if_neg (by omega), if_neg (by omega),
    if_neg (by omega)]
  split
  · exact ⟨_, rfl, by simp only [UInt8.reduceToNat]; omega, by simp only [UInt8.reduceToNat]; omega, by dsimp only; omega, rfl⟩
  · split
    · exact ⟨_, rfl, by simp only [UInt8.reduceToNat]; omega, by simp only [UInt8.reduceToNat]; omega, by dsimp only; omega, rfl⟩
    · rw [if_pos (by omega)]
      exact ⟨_, rfl, by simp only [UInt8.reduceToNat]; omega, by simp only [UInt8.reduceToNat]; omega, by dsimp only; omega, rfl⟩

/-- An encoded character is decoded, and nothing of what follows. -/
theorem chunks_encode (c : Char) (bs : Bytes) : chunks none (String.utf8EncodeChar c ++ bs) = some c :: chunks none bs := by
  have back : Char.ofNat c.val.toNat = c := Char.ofNat_toNat c
  have valid : c.val.toNat < 0xD800 ∨ 0xDFFF < c.val.toNat ∧ c.val.toNat < 0x110000 := c.valid
  unfold String.utf8EncodeChar
  generalize c.val.toNat = v at back valid
  dsimp only
  split
  · rw [List.singleton_append, chunks, lead_ofNat (by omega), if_pos (by omega), back]
  · split
    · simp only [List.cons_append, List.nil_append]
      rw [chunks, lead_ofNat (by omega), if_neg (by omega), if_neg (by omega), if_pos (by omega)]
      dsimp only
      rw [chunks_pending (by simp only [UInt8.reduceToNat]; omega) (by simp only [UInt8.reduceToNat]; omega) (by omega)]
      dsimp only
      rw [show (v / 64 % 0x20 + 0xc0) % 0x20 * 64 + (v % 0x40 + 0x80) % 64 = v by omega, back]
    · split
      · obtain ⟨p, first, low, high, bits, due⟩ := lead_three (v := v) (by omega) (by omega) (by omega)
        simp only [List.cons_append, List.nil_append]
        rw [chunks, first]
        dsimp only
        rw [chunks_pending low high (by omega), due]
        dsimp only
        rw [chunks_pending (by simp only [UInt8.reduceToNat]; omega) (by simp only [UInt8.reduceToNat]; omega) (by omega), bits]
        dsimp only
        rw [show (v / 4096 * 64 + (v / 64 % 0x40 + 0x80) % 64) * 64 + (v % 0x40 + 0x80) % 64 = v by omega, back]
      · obtain ⟨p, first, low, high, bits, due⟩ := lead_four (v := v) (by omega) (by omega)
        simp only [List.cons_append, List.nil_append]
        rw [chunks, first]
        dsimp only
        rw [chunks_pending low high (by omega), due]
        dsimp only
        rw [chunks_pending (by simp only [UInt8.reduceToNat]; omega) (by simp only [UInt8.reduceToNat]; omega) (by omega)]
        dsimp only
        rw [chunks_pending (by simp only [UInt8.reduceToNat]; omega) (by simp only [UInt8.reduceToNat]; omega) (by omega), bits]
        dsimp only
        rw [show ((v / 262144 * 64 + (v / 4096 % 0x40 + 0x80) % 64) * 64 + (v / 64 % 0x40 + 0x80) % 64) * 64 +
          (v % 0x40 + 0x80) % 64 = v by omega, back]

theorem chunks_utf8 (t : Text) : chunks none (utf8 t) = t.map some := by
  induction t with
  | nil => rfl
  | cons c t ih => rw [utf8_cons, chunks_encode, ih, List.map_cons]

theorem lossy_utf8 (t : Text) : fromUtf8Lossy (utf8 t) = t := by
  rw [fromUtf8Lossy, chunks_utf8, List.map_map]
  exact List.map_id t

/-- **The bytes of a text decode to it.** -/
theorem fromUtf8_utf8 (t : Text) : fromUtf8 (utf8 t) = some t := by
  rw [fromUtf8, chunks_utf8]
  induction t with
  | nil => rfl
  | cons c t ih => rw [List.map_cons, List.mapM_cons, ih]; rfl

/-! ## Decoding around ASCII bytes -/

theorem isSome_mapM_id {α : Type} (l : List (Option α)) : (l.mapM id).isSome ↔ none ∉ l := by
  induction l with
  | nil => simp
  | cons o l ih =>
    cases o with
    | none => simp [List.mapM_cons]
    | some a =>
      rw [List.mapM_cons]
      simp only [id, Option.bind_eq_bind, Option.bind_some, List.mem_cons, reduceCtorEq, false_or, ← ih]
      cases l.mapM id with
      | none => simp
      | some t => simp

theorem isSome_fromUtf8 (bs : Bytes) : (fromUtf8 bs).isSome ↔ none ∉ chunks none bs := isSome_mapM_id _

/-- UTF-8 on both sides of an ASCII byte. -/
theorem isSome_fromUtf8_append {a : UInt8} (ascii : a < 0x80) (xs ys : Bytes) :
    (fromUtf8 (xs ++ a :: ys)).isSome ↔ (fromUtf8 xs).isSome ∧ (fromUtf8 ys).isSome := by
  simp only [isSome_fromUtf8, chunks_append_ascii ascii ys xs none (by simp), List.mem_append, List.mem_cons, reduceCtorEq,
    false_or, not_or]

/-- ASCII bytes at the front are decoded one by one. -/
theorem fromUtf8_append {xs : Bytes} (ascii : ∀ b ∈ xs, b < 0x80) (ys : Bytes) :
    fromUtf8 (xs ++ ys) = (fromUtf8 ys).map fun t => xs.map (fun b => Char.ofNat b.toNat) ++ t := by
  induction xs with
  | nil => simp
  | cons b xs ih =>
    have first := chunks_append_ascii (ascii b List.mem_cons_self) (xs ++ ys) [] none (by simp)
    have rest := ih fun c mem => ascii c (List.mem_cons_of_mem b mem)
    rw [fromUtf8] at rest
    rw [List.cons_append, fromUtf8, ← List.nil_append (b :: (xs ++ ys)), first, chunks, List.nil_append, List.mapM_cons, rest]
    cases fromUtf8 ys with
    | none => rfl
    | some t => rfl

end ProxyBroker.Lib
