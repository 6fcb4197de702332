import ProxyBroker.Server.RelayFlow
import ProxyBroker.Utils

/-!
# Two parsers of a status line (`server.rs`, `utils.rs`)

The rotating server takes a status code out of what `read_status_line` peeked: it decodes the bytes as UTF-8 and
takes the second word. The negotiator and the checker slice the bytes `9..12`. On a status line of RFC 7230 the
slice is always the code. The decoding fails where the peeked part of the reason phrase is not UTF-8: a byte of
ISO 8859-1, or a character that the limit of 256 bytes cuts.
-/

namespace ProxyBroker.Server
open Lib

/-- The byte of a digit. -/
def digitByte (d : Fin 10) : UInt8 := UInt8.ofNat (48 + d)

/-- A status line of RFC 7230. The reason phrase is of tabs, blanks, visible characters and `obs-text`. -/
structure ResponseLine where
  major : Fin 10
  minor : Fin 10
  hundreds : Fin 10
  tens : Fin 10
  units : Fin 10
  reason : Bytes
  printable : ∀ b ∈ reason, b = 9 ∨ (0x20 ≤ b ∧ b ≠ 0x7F)

namespace ResponseLine

def version (l : ResponseLine) : Bytes := ascii "HTTP/" ++ [digitByte l.major, 46, digitByte l.minor]

def digits (l : ResponseLine) : Bytes := [digitByte l.hundreds, digitByte l.tens, digitByte l.units]

/-- The line up to its reason phrase. -/
def front (l : ResponseLine) : Bytes := l.version ++ 32 :: (l.digits ++ [32])

/-- The line on the wire. -/
def bytes (l : ResponseLine) : Bytes := l.front ++ (l.reason ++ [13, 10])

/-- The status code on the line. -/
def code (l : ResponseLine) : UInt16 := UInt16.ofNat (100 * l.hundreds + 10 * l.tens + l.units)

variable (l : ResponseLine)

theorem length_front : l.front.length = 13 := rfl

theorem digitByte_ascii (d : Fin 10) : digitByte d < 0x80 ∧ digitByte d ≠ 10 ∧ isWhitespace (Char.ofNat (digitByte d).toNat) = false := by
  revert d
  decide

theorem mem_front {b : UInt8} (mem : b ∈ l.front) : b < 0x80 ∧ b ≠ 10 := by
  have digit (d : Fin 10) : digitByte d < 0x80 ∧ digitByte d ≠ 10 := ⟨(digitByte_ascii d).1, (digitByte_ascii d).2.1⟩
  have all : (ascii "HTTP/").all (fun b => decide (b < 0x80 ∧ b ≠ 10)) = true := by decide
  have name : ∀ b ∈ ascii "HTTP/", b < 0x80 ∧ b ≠ 10 := fun b mem => of_decide_eq_true (List.all_eq_true.1 all b mem)
  simp only [front, version, digits, List.mem_append, List.mem_cons, List.not_mem_nil, or_false] at mem
  rcases mem with (here | rfl | rfl | rfl) | rfl | (rfl | rfl | rfl) | rfl
  · exact name b here
  · exact digit _
  · decide
  · exact digit _
  · decide
  · exact digit _
  · exact digit _
  · exact digit _
  · decide

end ResponseLine

/-! ## What is read -/

/-- A line feed ends the line, if the limit does not. -/
theorem statusLineUpTo_line {xs : Bytes} (one_line : 10 ∉ xs) (ys : Bytes) (n : Nat) :
    statusLineUpTo n (xs ++ 10 :: ys) = (xs ++ [10]).take n := by
  induction xs generalizing n with
  | nil =>
    cases n with
    | zero => rfl
    | succ n => simp [statusLineUpTo]
  | cons b xs ih =>
    rw [List.mem_cons, not_or] at one_line
    cases n with
    | zero => rfl
    | succ n => rw [List.cons_append, statusLineUpTo, if_neg (Ne.symm one_line.1), ih one_line.2, List.cons_append, List.take_succ_cons]

/-- Of a status line, the first 13 bytes are read and up to 243 more. -/
theorem statusLine_bytes (l : ResponseLine) (rest : Bytes) :
    statusLine (l.bytes ++ rest) = l.front ++ (l.reason ++ [13, 10]).take 243 := by
  have one_line : (10 : UInt8) ∉ l.front ++ (l.reason ++ [13]) := by
    rw [List.mem_append, List.mem_append, not_or, not_or]
    refine ⟨fun mem => (l.mem_front mem).2 rfl, fun mem => ?_, by decide⟩
    rcases l.printable 10 mem with tab | ⟨visible, -⟩
    · exact absurd tab (by decide)
    · exact absurd visible (by decide)
  have line : l.bytes ++ rest = l.front ++ (l.reason ++ [13]) ++ 10 :: rest := by simp [ResponseLine.bytes]
  have whole : l.front ++ (l.reason ++ [13]) ++ [10] = l.front ++ (l.reason ++ [13, 10]) := by simp
  rw [line, statusLine, statusLineUpTo_line one_line, whole, List.take_append, l.length_front, List.take_of_length_le (by simp [l.length_front])]

/-- The line end does not matter to the decoding. -/
theorem isSome_fromUtf8_reason (reason : Bytes) :
    (fromUtf8 ((reason ++ [13, 10]).take 243)).isSome ↔ (fromUtf8 (reason.take 243)).isSome := by
  rcases Nat.lt_or_ge reason.length 243 with short | long
  · obtain ⟨k, left⟩ : ∃ k, 243 - reason.length = k + 1 := ⟨243 - reason.length - 1, by omega⟩
    have feed : (fromUtf8 ([10].take k)).isSome := by
      cases k with
      | zero => decide
      | succ k => simp only [List.take_succ_cons, List.take_nil]; decide
    rw [List.take_append, List.take_of_length_le (by omega), left, List.take_succ_cons, isSome_fromUtf8_append (by decide)]
    exact and_iff_left feed
  · rw [List.take_append_of_le_length long]

/-! ## The result -/

theorem parseU16_digits (h t u : Fin 10) :
    parseU16 ([digitByte h, digitByte t, digitByte u].map fun b => Char.ofNat b.toNat) = some (UInt16.ofNat (100 * h + 10 * t + u)) := by
  revert h t u
  decide +kernel

/-- The text of bytes that are ASCII. -/
def asciiText (bs : Bytes) : Text := bs.map fun b => Char.ofNat b.toNat

theorem trim_digits (h t u : Fin 10) :
    trim (asciiText [digitByte h, digitByte t, digitByte u]) = asciiText [digitByte h, digitByte t, digitByte u] := by
  revert h t u
  decide +kernel

/-- The slice is the code. -/
theorem getStatusCode_bytes (l : ResponseLine) (rest : Bytes) : getStatusCode (l.bytes ++ rest) 9 12 = l.code := by
  have slice : ((l.bytes ++ rest).take 12).drop 9 = l.digits := rfl
  have stop : min 12 (l.bytes ++ rest).length = 12 := by
    rw [ResponseLine.bytes, List.length_append, List.length_append, l.length_front]
    omega
  have decoded : fromUtf8 l.digits = some (asciiText l.digits) := by
    have ascii : ∀ b ∈ l.digits, b < 0x80 := fun b mem => (l.mem_front (by simp [ResponseLine.front, mem])).1
    have split := fromUtf8_append ascii []
    rw [List.append_nil] at split
    rw [split]
    exact congrArg some (List.append_nil _)
  simp only [getStatusCode, stop, slice, decoded]
  rw [if_neg (by decide), ResponseLine.digits, trim_digits, asciiText, parseU16_digits]
  rfl

/-- The second word is the code, if there are words. -/
theorem parseHttpStatus_front (l : ResponseLine) (tail : Bytes) :
    parseHttpStatus (l.front ++ tail) = if (fromUtf8 tail).isSome then l.code else 0 := by
  have decoded := fromUtf8_append (fun b mem => (l.mem_front mem).1) tail
  have digit (d : Fin 10) : isWhitespace (Char.ofNat (digitByte d).toNat) = false := (ResponseLine.digitByte_ascii d).2.2
  have all : (asciiText (ascii "HTTP/")).all (fun c => !isWhitespace c) = true := by decide
  have name : ∀ c ∈ asciiText (ascii "HTTP/"), isWhitespace c = false := fun c mem => by simpa using List.all_eq_true.1 all c mem
  have first_black : ∀ c ∈ asciiText l.version, isWhitespace c = false := by
    intro c mem
    rw [ResponseLine.version, asciiText, List.map_append, List.mem_append] at mem
    rcases mem with here | here
    · exact name c here
    · simp only [List.map_cons, List.map_nil, List.mem_cons, List.not_mem_nil, or_false] at here
      rcases here with rfl | rfl | rfl
      · exact digit _
      · decide
      · exact digit _
  have second_black : ∀ c ∈ asciiText l.digits, isWhitespace c = false := by
    intro c mem
    simp only [ResponseLine.digits, asciiText, List.map_cons, List.map_nil, List.mem_cons, List.not_mem_nil, or_false] at mem
    rcases mem with rfl | rfl | rfl
    · exact digit _
    · exact digit _
    · exact digit _
  rw [parseHttpStatus, decoded]
  cases fromUtf8 tail with
  | none => rfl
  | some t =>
    have words : splitWhitespace (l.front.map (fun b => Char.ofNat b.toNat) ++ t) =
        asciiText l.version :: asciiText l.digits :: splitWhitespace t := by
      have spelled : l.front.map (fun b => Char.ofNat b.toNat) ++ t =
          asciiText l.version ++ ' ' :: (asciiText l.digits ++ ' ' :: t) := by
        simp [ResponseLine.front, asciiText]
      rw [spelled, splitWhitespace_word (by simp [asciiText, ResponseLine.version]) first_black (by decide),
        splitWhitespace_word (by simp [asciiText, ResponseLine.digits]) second_black (by decide)]
    have parsed : parseU16 (asciiText l.digits) = some l.code := parseU16_digits _ _ _
    simp [words, parsed]

/-- **When the two parsers agree.** The slice gives the code of every status line. The decoding parser gives it
exactly where the first 243 bytes of the reason phrase are UTF-8, or where the code is the `000` it falls
back to. What follows the line does not matter. -/
theorem status_parsers_agree_iff (l : ResponseLine) (rest : Bytes) :
    getStatusCode (l.bytes ++ rest) 9 12 = l.code ∧
      (parseHttpStatus (statusLine (l.bytes ++ rest)) = l.code ↔ l.code = 0 ∨ (fromUtf8 (l.reason.take 243)).isSome) := by
  refine ⟨getStatusCode_bytes l rest, ?_⟩
  have peeked := isSome_fromUtf8_reason l.reason
  rw [statusLine_bytes, parseHttpStatus_front]
  split
  · rename_i decoded
    exact iff_of_true rfl (Or.inr (peeked.1 decoded))
  · rename_i broken
    rw [peeked] at broken
    rw [or_iff_left broken, eq_comm]

theorem latin_printable : ∀ b ∈ ascii "R" ++ [0xE9] ++ ascii "ussi", b = 9 ∨ (0x20 ≤ b ∧ b ≠ 0x7F) := by
  have all : (ascii "R" ++ [0xE9] ++ ascii "ussi").all (fun b => decide (b = 9 ∨ (0x20 ≤ b ∧ b ≠ 0x7F))) = true := by decide
  exact fun b mem => of_decide_eq_true (List.all_eq_true.1 all b mem)

/-- `200` with a reason phrase in ISO 8859-1. -/
def latinLine : ResponseLine := ⟨1, 1, 2, 0, 0, ascii "R" ++ [0xE9] ++ ascii "ussi", latin_printable⟩

/-- The rotating server sees no code. -/
theorem latinLine_refused : parseHttpStatus (statusLine latinLine.bytes) = 0 ∧ getStatusCode latinLine.bytes 9 12 = 200 := by
  constructor
  · decide
  · decide

end ProxyBroker.Server
