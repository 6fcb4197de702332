import Mathlib.Data.List.TakeWhile
import ProxyBroker.Lib.Utf8

/-!
# The string functions of the Rust standard library

Text is a list of characters. Each definition follows the documented behaviour of the function it is
named after. `lines` cuts at `\n` and drops one `\r` before it; `crlfLines` is the scan the server
makes with `windows(2)`, which cuts at `\r\n` only. The two disagree on a bare `\n`.

`crlfLines` works on any element type that has a byte, so that the same scan can be run over bytes
that remember where they came from.
-/

namespace ProxyBroker.Lib

/-! ## Characters -/

/-- `char::is_whitespace`: the Unicode property `White_Space`. -/
def isWhitespace (c : Char) : Bool :=
  let n := c.toNat
  (9 ≤ n && n ≤ 13) || n == 0x20 || n == 0x85 || n == 0xA0 || n == 0x1680 || (0x2000 ≤ n && n ≤ 0x200A) ||
    n == 0x2028 || n == 0x2029 || n == 0x202F || n == 0x205F || n == 0x3000

/-- `to_ascii_lowercase` on one character. -/
def lowerChar (c : Char) : Char := if 65 ≤ c.toNat ∧ c.toNat ≤ 90 then Char.ofNat (c.toNat + 32) else c

/-- `str::to_ascii_lowercase`. -/
def toAsciiLowercase (t : Text) : Text := t.map lowerChar

/-- `u8::to_ascii_lowercase`. -/
def lowerByte (b : UInt8) : UInt8 := if 65 ≤ b ∧ b ≤ 90 then b + 32 else b

/-- `str::eq_ignore_ascii_case`. -/
def eqIgnoreAsciiCase (s t : Text) : Bool := toAsciiLowercase s == toAsciiLowercase t

/-! ## Cutting -/

section Cut
variable {α : Type} [DecidableEq α]

/-- `str::split_inclusive(c)`. -/
def splitInclusive (c : α) : List α → List (List α)
  | [] => []
  | x :: t =>
    if x = c then [x] :: splitInclusive c t
    else
      match splitInclusive c t with
      | [] => [[x]]
      | l :: ls => (x :: l) :: ls

/-- `str::strip_prefix`. -/
def stripPrefix : List α → List α → Option (List α)
  | [], t => some t
  | _ :: _, [] => none
  | p :: ps, x :: t => if p = x then stripPrefix ps t else none

/-- `str::strip_suffix`. -/
def stripSuffix (s t : List α) : Option (List α) := (stripPrefix s.reverse t.reverse).map List.reverse

/-- `str::split_once(sep)`: around the first occurrence of a separator. -/
def splitOnceAt (sep : List α) : List α → Option (List α × List α)
  | [] => if sep = [] then some ([], []) else none
  | x :: t =>
    match stripPrefix sep (x :: t) with
    | some rest => some ([], rest)
    | none => (splitOnceAt sep t).map fun r => (x :: r.1, r.2)

/-- `str::split_once(c)`. -/
def splitOnce (c : α) (t : List α) : Option (List α × List α) := splitOnceAt [c] t

/-- `str::rsplit_once(c)`: around the last occurrence. -/
def rsplitOnce (c : α) (t : List α) : Option (List α × List α) :=
  (splitOnce c t.reverse).map fun r => (r.2.reverse, r.1.reverse)

/-- `str::split(c)`. -/
def splitOn (c : α) : List α → List (List α)
  | [] => [[]]
  | x :: t =>
    if x = c then [] :: splitOn c t
    else
      match splitOn c t with
      | [] => [[x]]
      | l :: ls => (x :: l) :: ls

/-- `str::splitn(n, c)`: at most `n` pieces, the last holding the rest. -/
def splitN (c : α) : Nat → List α → List (List α)
  | 0, _ => []
  | 1, t => [t]
  | n + 2, t =>
    match splitOnce c t with
    | some (l, r) => l :: splitN c (n + 1) r
    | none => [t]

theorem stripPrefix_some {p t r : List α} : stripPrefix p t = some r ↔ t = p ++ r := by
  induction p generalizing t with
  | nil => simp [stripPrefix, eq_comm]
  | cons x p ih =>
    cases t with
    | nil => simp [stripPrefix]
    | cons y t =>
      rw [stripPrefix, List.cons_append, List.cons.injEq]
      by_cases same : x = y
      · rw [if_pos same, ih]
        simp [same]
      · rw [if_neg same]
        simp [Ne.symm same]

theorem stripSuffix_some {s t r : List α} : stripSuffix s t = some r ↔ t = r ++ s := by
  rw [stripSuffix, Option.map_eq_some_iff]
  constructor
  · rintro ⟨r', stripped, rfl⟩
    rw [← List.reverse_inj, List.reverse_append, List.reverse_reverse]
    exact stripPrefix_some.1 stripped
  · rintro rfl
    exact ⟨r.reverse, stripPrefix_some.2 List.reverse_append, List.reverse_reverse r⟩

theorem splitOnceAt_some {sep t l r : List α} (h : splitOnceAt sep t = some (l, r)) : t = l ++ sep ++ r := by
  induction t generalizing l with
  | nil =>
    simp only [splitOnceAt] at h
    split at h
    · rename_i empty
      cases h
      rw [empty]
      rfl
    · cases h
  | cons x t ih =>
    simp only [splitOnceAt] at h
    split at h
    · rename_i rest stripped
      cases h
      exact stripPrefix_some.1 stripped
    · obtain ⟨⟨l', r'⟩, found, eq⟩ := Option.map_eq_some_iff.1 h
      cases eq
      rw [ih found]
      rfl

/-- Only the last symbol of a piece can be the separator. -/
theorem splitInclusive_clean {c : α} {t l : List α} (mem : l ∈ splitInclusive c t) : c ∉ l.dropLast := by
  induction t generalizing l with
  | nil => cases mem
  | cons x t ih =>
    rw [splitInclusive] at mem
    split at mem
    · rcases List.mem_cons.1 mem with rfl | mem
      · simp
      · exact ih mem
    · rename_i other
      split at mem
      · obtain rfl := List.mem_singleton.1 mem
        simp
      · rename_i l' ls pieces
        rcases List.mem_cons.1 mem with rfl | mem
        · have clean := ih (l := l') (by rw [pieces]; exact List.mem_cons_self)
          cases l' with
          | nil => simp
          | cons y l' =>
            rw [List.dropLast_cons_cons, List.mem_cons, not_or]
            exact ⟨fun eq => other eq.symm, clean⟩
        · exact ih (by rw [pieces]; exact List.mem_cons_of_mem l' mem)

/-- A piece ends at the first separator. -/
theorem splitInclusive_piece {c : α} {x : List α} (clean : c ∉ x) (rest : List α) :
    splitInclusive c (x ++ c :: rest) = (x ++ [c]) :: splitInclusive c rest := by
  induction x with
  | nil => rw [List.nil_append, splitInclusive, if_pos rfl, List.nil_append]
  | cons y x ih =>
    rw [List.mem_cons, not_or] at clean
    rw [List.cons_append, splitInclusive, if_neg (Ne.symm clean.1), ih clean.2]
    rfl

/-- Pieces as `split_inclusive` cuts them: the separator ends each of them, but perhaps the last. -/
inductive Pieces (c : α) : List (List α) → Prop
  | nil : Pieces c []
  | last {x : List α} (some : x ≠ []) (clean : c ∉ x) : Pieces c [x]
  | cons {x : List α} {ls : List (List α)} (clean : c ∉ x) (rest : Pieces c ls) : Pieces c ((x ++ [c]) :: ls)

/-- What has no separator is one piece. -/
theorem splitInclusive_one {c : α} {x : List α} (some : x ≠ []) (clean : c ∉ x) : splitInclusive c x = [x] := by
  induction x with
  | nil => exact absurd rfl some
  | cons y x ih =>
    rw [List.mem_cons, not_or] at clean
    rw [splitInclusive, if_neg (Ne.symm clean.1)]
    cases x with
    | nil => rfl
    | cons z x => rw [ih (by simp) clean.2]

theorem pieces_splitInclusive (c : α) (t : List α) : Pieces c (splitInclusive c t) ∧ (splitInclusive c t).flatten = t := by
  generalize size : t.length = n
  induction n using Nat.strongRecOn generalizing t with
  | ind n ih =>
    by_cases mem : c ∈ t
    · obtain ⟨x, r, rfl, clean⟩ := List.eq_append_cons_of_mem mem
      have shorter : r.length < n := by
        rw [← size, List.length_append, List.length_cons]
        omega
      obtain ⟨rest, flat⟩ := ih r.length shorter r rfl
      rw [splitInclusive_piece clean]
      exact ⟨.cons clean rest, by rw [List.flatten_cons, flat, List.append_assoc]; rfl⟩
    · cases t with
      | nil => exact ⟨.nil, rfl⟩
      | cons y t =>
        rw [splitInclusive_one (by simp) mem]
        exact ⟨.last (by simp) mem, by simp⟩

theorem Pieces.split {c : α} {ls : List (List α)} (pieces : Pieces c ls) : splitInclusive c ls.flatten = ls := by
  induction pieces with
  | nil => rfl
  | last some clean => simpa using splitInclusive_one some clean
  | cons clean _ ih =>
    rw [List.flatten_cons, List.append_assoc, List.singleton_append, splitInclusive_piece clean, ih]

/-- What ends in the separator is cut apart from what follows. -/
theorem splitInclusive_append {c : α} {x : List α} (ends : x.getLast? = some c) (y : List α) :
    splitInclusive c (x ++ y) = splitInclusive c x ++ splitInclusive c y := by
  obtain ⟨pieces, flat⟩ := pieces_splitInclusive c x
  generalize splitInclusive c x = ls at pieces flat
  induction pieces generalizing x with
  | nil =>
    subst flat
    cases ends
  | last _ clean =>
    rw [List.flatten_singleton] at flat
    subst flat
    exact absurd (List.mem_of_getLast? ends) clean
  | @cons p ls clean rest ih =>
    subst flat
    rw [List.flatten_cons, List.append_assoc, List.append_assoc, List.singleton_append, splitInclusive_piece clean,
      List.cons_append]
    refine congrArg (List.cons _) ?_
    cases more : ls.flatten with
    | nil =>
      have empty : ls = [] := by rw [← rest.split, more]; rfl
      rw [empty]
      rfl
    | cons b r =>
      rw [← more]
      refine ih ?_ rfl
      rw [List.flatten_cons, more, List.getLast?_append, List.getLast?_cons] at ends
      rw [more, List.getLast?_cons]
      simpa using ends

omit [DecidableEq α] in
theorem Pieces.sublist {c : α} {ls ls' : List (List α)} (pieces : Pieces c ls) (sub : ls'.Sublist ls) : Pieces c ls' := by
  induction pieces generalizing ls' with
  | nil => rw [List.sublist_nil.1 sub]; exact .nil
  | last some clean =>
    rcases List.sublist_singleton.1 sub with rfl | rfl
    · exact .nil
    · exact .last some clean
  | cons clean _ ih =>
    rcases List.sublist_cons_iff.1 sub with rest | ⟨r, rfl, rest⟩
    · exact ih rest
    · exact .cons clean (ih rest)

/-- The first piece is what stands before the first separator. -/
theorem splitOn_head (c : α) (t : List α) : (splitOn c t).head? = some (t.takeWhile (· ≠ c)) := by
  induction t with
  | nil => rfl
  | cons x t ih =>
    rw [splitOn]
    split
    · rename_i here
      simp [here]
    · rename_i other
      split
      · rename_i pieces
        rw [pieces] at ih
        cases ih
      · rename_i l ls pieces
        rw [pieces, List.head?_cons, Option.some.injEq] at ih
        simp [other, ih]

theorem splitOn_clean {c : α} {l : List α} (clean : c ∉ l) : splitOn c l = [l] := by
  induction l with
  | nil => rfl
  | cons x l ih =>
    have other : x ≠ c := fun same => clean (same ▸ List.mem_cons_self)
    rw [splitOn, if_neg other, ih fun mem => clean (List.mem_cons_of_mem x mem)]

theorem splitOn_append {c : α} {l : List α} (clean : c ∉ l) (t : List α) : splitOn c (l ++ c :: t) = l :: splitOn c t := by
  induction l with
  | nil => rw [List.nil_append, splitOn, if_pos rfl]
  | cons x l ih =>
    have other : x ≠ c := fun same => clean (same ▸ List.mem_cons_self)
    rw [List.cons_append, splitOn, if_neg other, ih fun mem => clean (List.mem_cons_of_mem x mem)]

/-- `split_once` cuts at the first separator, if there is one. -/
theorem splitOnce_cases (c : α) (t : List α) :
    (splitOnce c t = none ∧ c ∉ t) ∨ ∃ l r, splitOnce c t = some (l, r) ∧ t = l ++ c :: r ∧ c ∉ l := by
  induction t with
  | nil => exact Or.inl ⟨by simp [splitOnce, splitOnceAt], by simp⟩
  | cons x t ih =>
    by_cases here : x = c
    · subst here
      exact Or.inr ⟨[], t, by simp [splitOnce, splitOnceAt, stripPrefix], rfl, by simp⟩
    · have later : splitOnce c (x :: t) = (splitOnce c t).map fun r => (x :: r.1, r.2) := by
        simp [splitOnce, splitOnceAt, stripPrefix, Ne.symm here]
      rcases ih with ⟨eq, absent⟩ | ⟨l, r, eq, split, absent⟩
      · exact Or.inl ⟨by rw [later, eq]; rfl, by simp [absent, Ne.symm here]⟩
      · exact Or.inr ⟨x :: l, r, by rw [later, eq]; rfl, by rw [split]; rfl, by simp [absent, Ne.symm here]⟩

end Cut

/-- There is one way to cut at the first separator. -/
theorem append_sep_inj {α : Type} {c : α} {u v p q : List α} (hu : c ∉ u) (hv : c ∉ v) :
    u ++ c :: p = v ++ c :: q ↔ u = v ∧ p = q := by
  constructor
  · intro same
    induction u generalizing v with
    | nil =>
      cases v with
      | nil => simpa using same
      | cons y v =>
        simp only [List.nil_append, List.cons_append, List.cons.injEq] at same
        exact absurd (by rw [same.1]; exact List.mem_cons_self) hv
    | cons x u ih =>
      cases v with
      | nil =>
        simp only [List.nil_append, List.cons_append, List.cons.injEq] at same
        exact absurd (by rw [same.1]; exact List.mem_cons_self) hu
      | cons y v =>
        simp only [List.mem_cons, not_or] at hu hv
        simp only [List.cons_append, List.cons.injEq] at same
        obtain ⟨rfl, rfl⟩ := ih hu.2 hv.2 same.2
        exact ⟨by rw [same.1], rfl⟩
  · rintro ⟨rfl, rfl⟩
    rfl

/-- A line without its terminator: one `\n`, and one `\r` before it. -/
def stripEol (l : Text) : Text :=
  match stripSuffix ['\n'] l with
  | some l => (stripSuffix ['\r'] l).getD l
  | none => l

/-- `str::lines`. -/
def lines (t : Text) : List Text := (splitInclusive '\n' t).map stripEol

/-- `str::trim`. -/
def trim (t : Text) : Text := ((t.dropWhile isWhitespace).reverse.dropWhile isWhitespace).reverse

/-- `str::split_whitespace`. -/
def splitWhitespace : Text → List Text
  | [] => []
  | x :: t =>
    if isWhitespace x then splitWhitespace t
    else
      match t, splitWhitespace t with
      | y :: _, w :: ws => if isWhitespace y then [x] :: w :: ws else (x :: w) :: ws
      | _, ws => [x] :: ws

theorem lines_clean {t l : Text} (mem : l ∈ lines t) : '\n' ∉ l := by
  obtain ⟨piece, at_piece, rfl⟩ := List.mem_map.1 mem
  have clean : '\n' ∉ piece.dropLast := splitInclusive_clean at_piece
  unfold stripEol
  cases stripped : stripSuffix ['\n'] piece with
  | some body =>
    rw [stripSuffix_some.1 stripped, List.dropLast_concat] at clean
    dsimp only
    cases more : stripSuffix ['\r'] body with
    | none => exact clean
    | some text =>
      rw [stripSuffix_some.1 more, List.mem_append, not_or] at clean
      exact clean.1
  | none =>
    intro feed
    rcases List.eq_nil_or_concat piece with rfl | ⟨body, last, rfl⟩
    · cases feed
    · rw [List.concat_eq_append, List.dropLast_concat] at clean
      rw [List.concat_eq_append, List.mem_append, List.mem_singleton] at feed
      have ends := stripSuffix_some.2 (show body.concat last = body ++ ['\n'] by rw [← feed.resolve_left clean, List.concat_eq_append])
      rw [stripped] at ends
      cases ends

theorem trim_part (t : Text) : trim t <:+: t := by
  have front : t.dropWhile isWhitespace <:+ t := List.dropWhile_suffix _
  have back : trim t <+: t.dropWhile isWhitespace := by
    rw [trim, ← List.reverse_suffix, List.reverse_reverse]
    exact List.dropWhile_suffix _
  exact back.isInfix.trans front.isInfix

theorem trim_ne_nil {c : Char} {t : Text} (black : isWhitespace c = false) : trim (c :: t) ≠ [] := by
  intro empty
  rw [trim, List.dropWhile_cons_of_neg (by simp [black]), List.reverse_eq_nil_iff, List.dropWhile_eq_nil_iff] at empty
  have white := empty c (by simp)
  rw [black] at white
  cases white

theorem splitWhitespace_clean {t w : Text} (mem : w ∈ splitWhitespace t) : ∀ c ∈ w, isWhitespace c = false := by
  induction t generalizing w with
  | nil => cases mem
  | cons x t ih =>
    unfold splitWhitespace at mem
    split at mem
    · exact ih mem
    · rename_i black
      have head : ∀ c ∈ [x], isWhitespace c = false := by
        intro c here
        obtain rfl := List.mem_singleton.1 here
        exact Bool.eq_false_iff.2 black
      split at mem
      · rename_i y t' v ws words
        have word := ih (w := v) (by rw [words]; exact List.mem_cons_self)
        have rest (old : w ∈ ws) : ∀ c ∈ w, isWhitespace c = false := ih (by rw [words]; exact List.mem_cons_of_mem v old)
        split at mem
        · rcases List.mem_cons.1 mem with rfl | mem
          · exact head
          · rcases List.mem_cons.1 mem with rfl | mem
            · exact word
            · exact rest mem
        · rcases List.mem_cons.1 mem with rfl | mem
          · intro c here
            rcases List.mem_cons.1 here with rfl | here
            · exact head c List.mem_cons_self
            · exact word c here
          · exact rest mem
      · rcases List.mem_cons.1 mem with rfl | mem
        · exact head
        · exact ih mem

theorem splitWhitespace_white {c : Char} (white : isWhitespace c = true) (t : Text) : splitWhitespace (c :: t) = splitWhitespace t := by
  conv_lhs => unfold splitWhitespace
  exact if_pos white

/-- The last character of a word. -/
theorem splitWhitespace_last {x c : Char} (black : isWhitespace x = false) (white : isWhitespace c = true) (t : Text) :
    splitWhitespace (x :: c :: t) = [x] :: splitWhitespace t := by
  rw [← splitWhitespace_white white t]
  conv_lhs => unfold splitWhitespace
  rw [black]
  cases splitWhitespace (c :: t) with
  | nil => rfl
  | cons v ws => simp [white]

/-- A character before the last of a word. -/
theorem splitWhitespace_more {x c : Char} {t w : Text} {ws : List Text} (black : isWhitespace x = false)
    (more : isWhitespace c = false) (words : splitWhitespace (c :: t) = w :: ws) :
    splitWhitespace (x :: c :: t) = (x :: w) :: ws := by
  conv_lhs => unfold splitWhitespace
  rw [black, words]
  simp [more]

/-- A word, white space, and the words after it. -/
theorem splitWhitespace_word {w : Text} {c : Char} (nonempty : w ≠ []) (black : ∀ x ∈ w, isWhitespace x = false)
    (white : isWhitespace c = true) (t : Text) : splitWhitespace (w ++ c :: t) = w :: splitWhitespace t := by
  induction w with
  | nil => exact absurd rfl nonempty
  | cons x w ih =>
    have first := black x List.mem_cons_self
    cases w with
    | nil => exact splitWhitespace_last first white t
    | cons y w =>
      have rest := ih (by simp) fun z mem => black z (List.mem_cons_of_mem x mem)
      exact splitWhitespace_more first (black y (by simp)) rest

/-- `str::parse` for an unsigned integer below `bound`: an optional `+`, then digits only. -/
def parseUnsigned (bound : Nat) (t : Text) : Option Nat :=
  let digits := match t with
    | '+' :: r => r
    | r => r
  if digits = [] ∨ ¬ digits.all Char.isDigit then none
  else
    let n := digits.foldl (fun n c => n * 10 + (c.toNat - '0'.toNat)) 0
    if n < bound then some n else none

theorem isDigit_range {c : Char} (digit : c.isDigit) : 48 ≤ c.toNat ∧ c.toNat ≤ 57 := by
  rw [Char.isDigit, Bool.and_eq_true, decide_eq_true_eq, decide_eq_true_eq] at digit
  exact digit

/-- Digits hold no other symbol. -/
theorem not_mem_of_isDigit {w : Text} {c : Char} (digits : ∀ x ∈ w, x.isDigit) (other : c.isDigit = false) : c ∉ w := by
  intro mem
  rw [digits c mem] at other
  cases other

/-- Digits are read as the number that they write. -/
theorem parseUnsigned_digits {w : Text} {bound : Nat} (digits : ∀ x ∈ w, x.isDigit) (nonempty : w ≠ []) :
    parseUnsigned bound w =
      let n := w.foldl (fun n c => n * 10 + (c.toNat - '0'.toNat)) 0
      if n < bound then some n else none := by
  have all : w.all Char.isDigit = true := List.all_eq_true.2 digits
  have plus : '+' ∉ w := not_mem_of_isDigit digits (by decide)
  unfold parseUnsigned
  split
  · exact absurd List.mem_cons_self plus
  · rw [if_neg (by simp [nonempty, all])]

/-- `u16::from_str`. -/
def parseU16 (t : Text) : Option UInt16 := (parseUnsigned (2 ^ 16) t).map UInt16.ofNat

/-- `u64::from_str`. -/
def parseU64 (t : Text) : Option UInt64 := (parseUnsigned (2 ^ 64) t).map UInt64.ofNat

/-- Decimal digits, as `Display` prints an unsigned integer. -/
def showNat (n : Nat) : Text := Nat.toDigits 10 n

/-! ## Case-insensitive prefixes -/

/-- Only the bytes of an ASCII text decode to it. -/
theorem eq_of_lossy_ascii {bs : Bytes} {t : Text} (small : ∀ c ∈ t, c.toNat < 0x80) (h : fromUtf8Lossy bs = t) :
    bs = t.map fun c => c.toNat.toUInt8 := by
  induction bs generalizing t with
  | nil =>
    cases h
    rfl
  | cons b bs ih =>
    by_cases low : b < 0x80
    · rw [lossy_cons_ascii low] at h
      subst h
      rw [List.map_cons, toNat_ofNat_byte (Nat.lt_of_lt_of_le b.toNat_lt (by decide)),
        ← ih (fun c mem => small c (List.mem_cons_of_mem _ mem)) rfl]
      simp
    · -- a byte outside ASCII gives a character outside it
      obtain ⟨c, more, eq, wide⟩ := lossy_cons_high low bs
      rw [eq] at h
      subst h
      exact absurd (small c List.mem_cons_self) (by omega)

theorem lowerChar_ofNat {b : UInt8} (small : b < 0x80) : lowerChar (Char.ofNat b.toNat) = Char.ofNat (lowerByte b).toNat := by
  have hb : b.toNat < 0x80 := UInt8.lt_iff_toNat_lt.1 small
  unfold lowerChar lowerByte
  rw [toNat_ofNat_byte (by omega)]
  simp only [UInt8.le_iff_toNat_le, UInt8.reduceToNat]
  split
  · rw [UInt8.toNat_add]; congr 1; simp; omega
  · rfl

/-- An ASCII prefix of the lower-cased decoded text is one of the lower-cased bytes. -/
theorem lower_lossy_prefix {name : Text} (small : ∀ c ∈ name, c.toNat < 0x80) (bs : Bytes) :
    name.isPrefixOf (toAsciiLowercase (fromUtf8Lossy bs)) = true ↔
      (name.map fun c => c.toNat.toUInt8) <+: bs.map lowerByte := by
  induction name generalizing bs with
  | nil => simp
  | cons c name ih =>
    have rest := ih fun d mem => small d (List.mem_cons_of_mem c mem)
    have hc : c.toNat < 0x80 := small c List.mem_cons_self
    have byte : c.toNat.toUInt8.toNat = c.toNat := by simp; omega
    cases bs with
    | nil => simp [toAsciiLowercase]
    | cons b bs =>
      by_cases hb : b < 0x80
      · have head : c = lowerChar (Char.ofNat b.toNat) ↔ c.toNat.toUInt8 = lowerByte b := by
          have low : (lowerByte b).toNat < 0x100 := (lowerByte b).toNat_lt
          rw [lowerChar_ofNat hb, ← UInt8.toNat_inj, byte]
          constructor
          · intro eq; rw [eq, toNat_ofNat_byte low]
          · intro eq; rw [← eq, Char.ofNat_toNat]
        rw [lossy_cons_ascii hb]
        simp only [toAsciiLowercase, List.map_cons, List.isPrefixOf_cons_cons, Bool.and_eq_true, beq_iff_eq, List.cons_prefix_cons,
          head]
        exact and_congr_right fun _ => rest bs
      · -- a byte outside ASCII starts neither
        obtain ⟨d, t, eq, wide⟩ := lossy_cons_high hb bs
        have hb' : 0x80 ≤ b.toNat := by simpa [UInt8.lt_iff_toNat_lt] using hb
        have kept : lowerChar d = d := if_neg (by omega)
        have keptByte : lowerByte b = b := by
          apply if_neg
          simp only [UInt8.le_iff_toNat_le, UInt8.reduceToNat]
          omega
        have left : c ≠ d := by rintro rfl; omega
        have right : c.toNat.toUInt8 ≠ b := by
          intro same
          rw [same] at byte
          omega
        rw [eq]
        simp [toAsciiLowercase, kept, keptByte, left, right]

/-! ## Line feeds in encoded text -/

/-- **The lines of a decoded text** are the decoded lines of its bytes. -/
theorem splitInclusive_lossy (bs : Bytes) :
    splitInclusive '\n' (fromUtf8Lossy bs) = (splitInclusive 10 bs).map fromUtf8Lossy := by
  obtain ⟨pieces, flat⟩ := pieces_splitInclusive 10 bs
  rw [← flat, pieces.split]
  generalize splitInclusive 10 bs = ls at pieces
  clear flat
  have feed (x : Bytes) : '\n' ∈ fromUtf8Lossy x ↔ 10 ∈ x := cuts_lossy.mem_iff (a := (10 : UInt8)) (by decide)
  induction pieces with
  | nil => rfl
  | @last x nonempty clean =>
    have text : fromUtf8Lossy x ≠ [] := by
      cases x with
      | nil => exact absurd rfl nonempty
      | cons b x =>
        by_cases small : b < 0x80
        · rw [lossy_cons_ascii small]
          simp
        · obtain ⟨c, t, eq, -⟩ := lossy_cons_high small x
          simp [eq]
    rw [List.flatten_singleton, splitInclusive_one text (mt (feed x).1 clean)]
    rfl
  | @cons x ls clean _ ih =>
    have decoded : fromUtf8Lossy (x ++ [10] ++ ls.flatten) = fromUtf8Lossy x ++ '\n' :: fromUtf8Lossy ls.flatten := by
      rw [List.append_assoc]
      exact lossy_append_ascii (by decide) x ls.flatten
    have line : fromUtf8Lossy (x ++ [10]) = fromUtf8Lossy x ++ ['\n'] := lossy_append_ascii (by decide) x []
    rw [List.flatten_cons, decoded, splitInclusive_piece (mt (feed x).1 clean), ih, List.map_cons, line]

theorem feed_mem_utf8 (t : Text) : 10 ∈ utf8 t ↔ '\n' ∈ t := cuts_utf8.mem_iff (a := '\n') (by decide)

/-! ## Lines that end in CRLF -/

/-- A pair that stands in neither of two texts stands in their concatenation only across the joint. -/
theorem pair_not_infix_append {α : Type} {c d : α} {x y : List α} (left : ¬ [c, d] <:+: x) (right : ¬ [c, d] <:+: y)
    (joint : x.getLast? ≠ some c ∨ y.head? ≠ some d) : ¬ [c, d] <:+: x ++ y := by
  rintro ⟨u, v, eq⟩
  rw [List.append_assoc] at eq
  rcases List.append_eq_append_iff.1 eq with ⟨w, rfl, rest⟩ | ⟨w, rfl, rest⟩
  · cases w with
    | nil => exact right ⟨[], v, by simpa using rest⟩
    | cons e w =>
      obtain ⟨rfl, tail⟩ := List.cons.inj rest
      cases w with
      | nil =>
        have begins : y = d :: v := tail.symm
        rw [begins] at joint
        simp at joint
      | cons f w =>
        obtain ⟨rfl, -⟩ := List.cons.inj tail
        exact left ⟨u, w, by simp⟩
  · exact right ⟨w, v, by rw [rest]; simp⟩

section Crlf
variable {α β : Type} (val : α → UInt8)

/-- The lines a scan for `\r\n` cuts off, each with its terminator, and the bytes after the last. -/
def crlfLines : List α → List (List α) × List α
  | [] => ([], [])
  | [a] => ([], [a])
  | a :: b :: t =>
    if val a = 13 ∧ val b = 10 then ([a, b] :: (crlfLines t).1, (crlfLines t).2)
    else
      match crlfLines (b :: t) with
      | (l :: ls, rest) => ((a :: l) :: ls, rest)
      | ([], rest) => ([], a :: rest)

/-- The bytes of a line without its two terminator bytes. -/
def lineText (l : List α) : Bytes := (l.take (l.length - 2)).map val

variable {val}

/-- The lines and the rest are the scanned bytes. -/
theorem crlfLines_flatten (l : List α) : (crlfLines val l).1.flatten ++ (crlfLines val l).2 = l := by
  induction l using crlfLines.induct val with
  | case1 => rfl
  | case2 a => rfl
  | case3 a b t crlf ih => simp only [crlfLines, if_pos crlf, List.flatten_cons, List.append_assoc, ih]; rfl
  | case4 a b t plain l ls rest eq ih =>
    rw [eq] at ih
    simp only [crlfLines, if_neg plain, eq, List.flatten_cons, List.append_assoc, List.cons_append] at ih ⊢
    rw [ih]
  | case5 a b t plain rest eq ih =>
    rw [eq] at ih
    simp only [crlfLines, if_neg plain, eq, List.flatten_nil, List.nil_append] at ih ⊢
    rw [ih]

/-- The scan finds a line exactly when there is a `\r\n`. -/
theorem crlfLines_eq_nil_iff (l : List α) : (crlfLines val l).1 = [] ↔ ¬ [13, 10] <:+: l.map val := by
  induction l using crlfLines.induct val with
  | case1 => simp [crlfLines]
  | case2 a => simp [crlfLines, List.infix_cons_iff]
  | case3 a b t crlf ih => simp [crlfLines, crlf, List.infix_cons_iff]
  | case4 a b t plain l ls rest eq ih =>
    rw [eq] at ih
    have found : [13, 10] <:+: (b :: t).map val := by simpa using ih
    simp only [crlfLines, if_neg plain, eq, reduceCtorEq, false_iff, not_not]
    exact found.trans (List.suffix_cons (val a) _).isInfix
  | case5 a b t plain rest eq ih =>
    rw [eq] at ih
    have none : ¬ [13, 10] <:+: val b :: t.map val := by simpa using ih
    have here : ¬ [13, 10] <+: val a :: val b :: t.map val := by
      rw [List.cons_prefix_cons, List.cons_prefix_cons]
      rintro ⟨ha, hb, -⟩
      exact plain ⟨ha.symm, hb.symm⟩
    simp only [crlfLines, if_neg plain, eq, List.map_cons, true_iff]
    rw [List.infix_cons_iff]
    exact not_or.2 ⟨here, none⟩

/-- Every line ends in `\r\n`. -/
theorem mem_crlfLines {l line : List α} (h : line ∈ (crlfLines val l).1) :
    ∃ p c d, line = p ++ [c, d] ∧ val c = 13 ∧ val d = 10 := by
  induction l using crlfLines.induct val generalizing line with
  | case1 => cases h
  | case2 a => cases h
  | case3 a b t crlf ih =>
    simp only [crlfLines, if_pos crlf, List.mem_cons] at h
    rcases h with rfl | later
    · exact ⟨[], a, b, rfl, crlf⟩
    · exact ih later
  | case4 a b t plain l ls rest eq ih =>
    simp only [crlfLines, if_neg plain, eq, List.mem_cons] at h
    rw [eq] at ih
    rcases h with rfl | later
    · obtain ⟨p, c, d, rfl, ends⟩ := ih List.mem_cons_self
      exact ⟨a :: p, c, d, rfl, ends⟩
    · exact ih (List.mem_cons_of_mem l later)
  | case5 a b t plain rest eq ih =>
    simp only [crlfLines, if_neg plain, eq] at h
    cases h

/-- A line that the scan cuts off is cut off whatever follows it. -/
theorem crlfLines_first {l first : List α} {ls : List (List α)} (h : (crlfLines val l).1 = first :: ls) (x : List α) :
    crlfLines val (first ++ x) = (first :: (crlfLines val x).1, (crlfLines val x).2) := by
  induction l using crlfLines.induct val generalizing first ls with
  | case1 => cases h
  | case2 a => cases h
  | case3 a b t crlf ih =>
    simp only [crlfLines, if_pos crlf] at h
    cases h
    simp only [List.cons_append, List.nil_append, crlfLines, if_pos crlf]
  | case4 a b t plain l ls rest eq ih =>
    simp only [crlfLines, if_neg plain, eq] at h
    cases h
    -- the first line of `b :: t` starts with `b`
    obtain ⟨l', rfl⟩ : ∃ l', l = b :: l' := by
      obtain ⟨p, c, d, split, -⟩ : ∃ p c d, l = p ++ [c, d] ∧ _ := mem_crlfLines (by rw [eq]; exact List.mem_cons_self)
      have whole : (l :: ls).flatten ++ rest = b :: t := by
        have flat : (crlfLines val (b :: t)).1.flatten ++ _ = b :: t := crlfLines_flatten (b :: t)
        rwa [eq] at flat
      cases l with
      | nil => simp at split
      | cons b' l' =>
        simp only [List.flatten_cons, List.cons_append, List.cons.injEq] at whole
        exact ⟨l', by rw [whole.1]⟩
    have tail := ih (by rw [eq])
    simp only [List.cons_append] at tail ⊢
    simp only [crlfLines, if_neg plain, tail]
  | case5 a b t plain rest eq ih =>
    simp only [crlfLines, if_neg plain, eq] at h
    cases h

/-- What holds no `\r\n` is one line up to the next. -/
theorem crlfLines_line {l : List α} {c d : α} (plain : ¬ [13, 10] <:+: l.map val) (cr : val c = 13) (lf : val d = 10) (x : List α) :
    crlfLines val (l ++ [c, d] ++ x) = ((l ++ [c, d]) :: (crlfLines val x).1, (crlfLines val x).2) := by
  have no_feed : ¬ val c = 10 := by rw [cr]; decide
  induction l with
  | nil => simp only [List.nil_append, List.cons_append, crlfLines, cr, lf, and_self, if_true]
  | cons a l ih =>
    have rest := ih fun found => plain (List.infix_cons found)
    cases l with
    | nil =>
      simp only [List.nil_append, List.cons_append] at rest ⊢
      simp only [crlfLines, no_feed, and_false, if_false] at rest ⊢
      rw [rest]
    | cons b l =>
      have head : ¬ (val a = 13 ∧ val b = 10) := by
        rintro ⟨ha, hb⟩
        refine plain (List.IsPrefix.isInfix ⟨l.map val, ?_⟩)
        simp [ha, hb]
      simp only [List.cons_append] at rest ⊢
      simp only [crlfLines, if_neg head, rest]

/-- The scan cuts off again what it has cut off, whatever is left out and whatever follows. -/
theorem crlfLines_kept {l : List α} {ls : List (List α)} (kept : ls ⊆ (crlfLines val l).1) :
    crlfLines val (ls.flatten ++ (crlfLines val l).2) = (ls, (crlfLines val l).2) := by
  -- the first line is cut off whatever follows, and the others are those of the rest
  have all : (∀ line ∈ (crlfLines val l).1, ∀ x, crlfLines val (line ++ x) = (line :: (crlfLines val x).1, (crlfLines val x).2)) ∧
      crlfLines val (crlfLines val l).2 = ([], (crlfLines val l).2) := by
    clear kept
    generalize scan : (crlfLines val l).1 = lines
    induction lines generalizing l with
    | nil =>
      have flat : (crlfLines val l).1.flatten ++ _ = l := crlfLines_flatten l
      rw [scan, List.flatten_nil, List.nil_append] at flat
      refine ⟨by simp, ?_⟩
      rw [flat]
      exact Prod.ext scan flat
    | cons first lines ih =>
      have whole : first ++ (lines.flatten ++ (crlfLines val l).2) = l := by
        have flat : (crlfLines val l).1.flatten ++ _ = l := crlfLines_flatten l
        rwa [scan, List.flatten_cons, List.append_assoc] at flat
      have again := crlfLines_first scan (lines.flatten ++ (crlfLines val l).2)
      rw [whole] at again
      have tail := congrArg Prod.fst again
      rw [scan, List.cons.injEq] at tail
      obtain ⟨later, plain⟩ := ih tail.2.symm
      refine ⟨?_, ?_⟩
      · intro line mem
        rcases List.mem_cons.1 mem with rfl | mem
        · exact crlfLines_first scan
        · exact later line mem
      · rw [show (crlfLines val l).2 = _ from congrArg Prod.snd again]
        exact plain
  induction ls with
  | nil => exact all.2
  | cons line ls ih =>
    rw [List.flatten_cons, List.append_assoc, all.1 line (kept List.mem_cons_self),
      ih fun l mem => kept (List.mem_cons_of_mem line mem)]

/-- How many lines a scan cuts off, by its first two bytes. -/
theorem crlfLines_length (a b : α) (t : List α) : (crlfLines val (a :: b :: t)).1.length =
    if val a = 13 ∧ val b = 10 then (crlfLines val t).1.length + 1 else (crlfLines val (b :: t)).1.length := by
  rw [crlfLines]
  split
  · rfl
  · rcases crlfLines val (b :: t) with ⟨_ | ⟨l, ls⟩, rest⟩
    · rfl
    · rfl

theorem crlfLines_length_cons (a : α) (t : List α) : (crlfLines val t).1.length ≤ (crlfLines val (a :: t)).1.length := by
  cases t with
  | nil => exact Nat.zero_le _
  | cons b t =>
    rw [crlfLines_length]
    split
    · rename_i crlf
      cases t with
      | nil => exact Nat.zero_le _
      | cons c t =>
        have single : ¬ (val b = 13 ∧ val c = 10) := by
          rw [crlf.2]
          exact fun both => absurd both.1 (by decide)
        rw [crlfLines_length b, if_neg single]
        omega
    · exact Nat.le_refl _

/-- A scan of two texts in a row finds the lines of both. -/
theorem crlfLines_length_append (x y : List α) :
    (crlfLines val x).1.length + (crlfLines val y).1.length ≤ (crlfLines val (x ++ y)).1.length := by
  induction x using crlfLines.induct val with
  | case1 => exact Nat.le_of_eq (Nat.zero_add _)
  | case2 a =>
    have more : (crlfLines val y).1.length ≤ (crlfLines val (a :: y)).1.length := crlfLines_length_cons a y
    have none : (crlfLines val [a]).1.length = 0 := rfl
    rw [none, Nat.zero_add]
    exact more
  | case3 a b t crlf ih =>
    rw [List.cons_append, List.cons_append, crlfLines_length, crlfLines_length, if_pos crlf, if_pos crlf]
    omega
  | case4 a b t single l ls rest eq ih =>
    rw [List.cons_append, List.cons_append, crlfLines_length, crlfLines_length, if_neg single, if_neg single]
    exact ih
  | case5 a b t single rest eq ih =>
    rw [List.cons_append, List.cons_append, crlfLines_length, crlfLines_length, if_neg single, if_neg single]
    exact ih

/-- The scan commutes with a change of elements that keeps their bytes. -/
theorem crlfLines_map {val' : β → UInt8} (f : α → β) (same : ∀ a, val' (f a) = val a) (l : List α) :
    crlfLines val' (l.map f) = ((crlfLines val l).1.map (List.map f), (crlfLines val l).2.map f) := by
  induction l using crlfLines.induct val with
  | case1 => rfl
  | case2 a => rfl
  | case3 a b t crlf ih =>
    have crlf' : val' (f a) = 13 ∧ val' (f b) = 10 := by rw [same, same]; exact crlf
    simp only [List.map_cons, crlfLines, if_pos crlf, if_pos crlf', ih, List.map_nil]
  | case4 a b t plain l ls rest eq ih =>
    have plain' : ¬ (val' (f a) = 13 ∧ val' (f b) = 10) := by rw [same, same]; exact plain
    rw [List.map_cons, eq] at ih
    simp only [List.map_cons, crlfLines, if_neg plain, if_neg plain', eq, ih]
  | case5 a b t plain rest eq ih =>
    have plain' : ¬ (val' (f a) = 13 ∧ val' (f b) = 10) := by rw [same, same]; exact plain
    rw [List.map_cons, eq] at ih
    simp only [List.map_cons, crlfLines, if_neg plain, if_neg plain', eq, ih, List.map_nil]

end Crlf

end ProxyBroker.Lib
