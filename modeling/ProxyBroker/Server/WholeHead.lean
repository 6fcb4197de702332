import ProxyBroker.Server.Headers
import ProxyBroker.Server.Request

/-!
# Whole heads (`server.rs:parse_client_request`)

The byte loop stops at a blank line, and it also stops when the buffer is longer than 65536 bytes. What follows takes
the buffer for a whole head in both cases. So a stream without a blank line in its first 65537 bytes is refused if it
ends there, or if these bytes do not name a target, and is accepted otherwise (`wholeHeadsOnly_iff`).
-/

namespace ProxyBroker.Server
open Lib

variable {expected : Option AuthExpect} {buf head rest stream out : Bytes} {budget : Option Nat} {s t : Socket} {req : ClientRequest}

/-! ## The loop -/

/-- The loop takes a head that is buffered. -/
theorem readHead_of_buffered {more : Bytes} (longer : more ≠ []) (buffered : Buffered (buf ++ more)) (rest : Bytes) :
    readHead buf (more ++ rest) = some (buf ++ more, rest) := by
  induction more generalizing buf with
  | nil => exact absurd rfl longer
  | cons b more ih =>
    have whole : buf ++ b :: more = buf ++ [b] ++ more := by simp
    rw [whole] at buffered ⊢
    rw [List.cons_append, readHead]
    cases more with
    | nil =>
      have stop : crlfCrlf.isSuffixOf (buf ++ [b]) || 65536 < (buf ++ [b]).length := by
        rw [List.append_nil] at buffered
        rcases buffered.ends with blank | long
        · simp [blank]
        · rw [long]
          simp
      rw [if_pos (by simpa using stop), List.append_nil, List.nil_append]
    | cons c more =>
      have proper : buf ++ [b] ≠ buf ++ [b] ++ c :: more := by simp
      have unfinished := buffered.first (buf ++ [b]) (List.prefix_append _ _) proper
      have limit := buffered.limit
      rw [List.length_append, List.length_cons] at limit
      have going : ¬ (crlfCrlf.isSuffixOf (buf ++ [b]) || decide (65536 < (buf ++ [b]).length)) = true := by
        simp only [Bool.or_eq_true, List.isSuffixOf_iff_suffix, decide_eq_true_iff, not_or]
        exact ⟨unfinished, by omega⟩
      rw [if_neg going]
      exact ih (by simp) buffered

/-- What becomes of a buffered head. -/
theorem parseClientRequest_buffered (expected : Option AuthExpect) (buffered : Buffered head) (other : head.head? ≠ some 0x05)
    (rest out : Bytes) (budget : Option Nat) :
    parseClientRequest expected ⟨head ++ rest, out, budget⟩ = (parseHead head, ⟨rest, out, budget⟩) := by
  cases head with
  | nil => exact absurd buffered.ends (by simp [crlfCrlf])
  | cons b more =>
    have longer : more ≠ [] := by
      rintro rfl
      rcases buffered.ends with blank | long
      · have le := blank.length_le
        simp [crlfCrlf] at le
      · simp at long
    have ran : readHead [b] (more ++ rest) = some (b :: more, rest) := @readHead_of_buffered [b] more longer buffered rest
    unfold parseClientRequest
    refine (SocketM.bind_eq (@SocketM.readExact_append 1 [b] rfl (more ++ rest) out budget)).trans ?_
    have http : ¬ [b] = [0x05] := by simpa using other
    rw [if_neg http]
    refine (SocketM.bind_eq (a := b :: more) (t := ⟨rest, out, budget⟩) (by simp only [ran])).trans ?_
    unfold SocketM.ofOption
    rfl

/-! ## What names a target -/

/-- The first line has a method and a target, and the method is `CONNECT`, the target is absolute or there is
a `Host` header. -/
def NamesTarget (head : Bytes) : Prop :=
  ∃ first later method uri more, lines (fromUtf8Lossy head) = first :: later ∧ splitWhitespace first = method :: uri :: more ∧
    (eqIgnoreAsciiCase method "CONNECT".toList = true ∨ "http://".toList <+: uri ∨
      ∃ l ∈ later, "host:".toList <+: toAsciiLowercase l)

theorem hostHeader_isSome {ls : List Text} : (hostHeader ls).isSome ↔ ∃ l ∈ ls, "host:".toList <+: toAsciiLowercase l := by
  rw [hostHeader, Option.isSome_map, List.find?_isSome]
  simp only [List.isPrefixOf_iff_prefix]

theorem absolute_isSome {uri : Text} : ((stripPrefix "http://".toList uri).bind fun r => (splitOn '/' r).head?).isSome ↔
    "http://".toList <+: uri := by
  simp only [splitOn_head]
  constructor
  · intro some
    obtain ⟨host, named⟩ := Option.isSome_iff_exists.1 some
    obtain ⟨r, stripped, -⟩ := Option.bind_eq_some_iff.1 named
    exact ⟨r, (stripPrefix_some.1 stripped).symm⟩
  · rintro ⟨r, rfl⟩
    rw [stripPrefix_some.2 rfl]
    rfl

theorem parseHead_isSome_iff : (parseHead head).isSome ↔ NamesTarget head := by
  unfold parseHead NamesTarget
  cases ls : lines (fromUtf8Lossy head) with
  | nil => simp
  | cons first later =>
    cases words : splitWhitespace first with
    | nil => simp [words]
    | cons method others =>
      cases others with
      | nil => simp [words]
      | cons uri more =>
        have named : (∃ first' later' method' uri' more', first :: later = first' :: later' ∧
            splitWhitespace first' = method' :: uri' :: more' ∧ (eqIgnoreAsciiCase method' "CONNECT".toList = true ∨
              "http://".toList <+: uri' ∨ ∃ l ∈ later', "host:".toList <+: toAsciiLowercase l)) ↔
            eqIgnoreAsciiCase method "CONNECT".toList = true ∨ "http://".toList <+: uri ∨
              ∃ l ∈ later, "host:".toList <+: toAsciiLowercase l := by
          constructor
          · rintro ⟨first', later', method', uri', more', same, words', names⟩
            obtain ⟨rfl, rfl⟩ := List.cons.inj same
            obtain ⟨rfl, rest⟩ := List.cons.inj (words.symm.trans words')
            obtain ⟨rfl, -⟩ := List.cons.inj rest
            exact names
          · intro names
            exact ⟨first, later, method, uri, more, rfl, words, names⟩
        rw [named]
        simp only [words]
        by_cases connect : eqIgnoreAsciiCase method "CONNECT".toList = true
        · rw [if_pos connect]
          exact iff_of_true rfl (Or.inl connect)
        · rw [if_neg connect, or_iff_right connect, ← absolute_isSome, ← hostHeader_isSome, ← Bool.or_eq_true, ← Option.isSome_or]
          split
          · rename_i none
            rw [none]
            exact Iff.rfl
          · rename_i hostPort some
            rw [some]
            exact Iff.rfl

/-! ## What is accepted -/

/-- A head that ends at its first blank line. -/
structure Whole (head : Bytes) : Prop where
  ends : crlfCrlf <:+ head
  first : ∀ p, p <+: head → p ≠ head → ¬ crlfCrlf <:+ p

/-- No blank line ends within the limit of the loop. -/
def Unterminated (stream : Bytes) : Prop := ∀ p, p <+: stream → p.length ≤ 65537 → ¬ crlfCrlf <:+ p

/-- An HTTP request is made of a whole head, and a stream without one is refused. -/
structure WholeHeadsOnly (expected : Option AuthExpect) (s : Socket) : Prop where
  accepts : ∀ req t, parseClientRequest expected s = (some req, t) → req.frontend ≠ .socks5 →
    ∃ head, s.input = head ++ t.input ∧ Whole head
  refuses : s.input.head? ≠ some 0x05 → Unterminated s.input → (parseClientRequest expected s).1 = none

/-- A stream whose buffer fills up, and the buffer names a target. -/
structure Runaway (stream : Bytes) : Prop where
  http : stream.head? ≠ some 0x05
  long : 65537 ≤ stream.length
  unterminated : Unterminated stream
  names : NamesTarget (stream.take 65537)

/-- The buffer of a stream that fills it up. -/
theorem Runaway.buffered (runaway : Runaway stream) : Buffered (stream.take 65537) := by
  have length : (stream.take 65537).length = 65537 := List.length_take_of_le runaway.long
  refine ⟨length.le, Or.inr length, ?_⟩
  intro p part _
  exact runaway.unterminated p (part.trans (List.take_prefix _ _)) (length ▸ part.length_le)

/-- A buffered head that is not whole has filled the buffer. -/
theorem runaway_of_buffered (buffered : Buffered head) (other : head.head? ≠ some 0x05) (ok : parseHead head = some req)
    (cut : ¬ Whole head) : Runaway (head ++ rest) := by
  have unended : ¬ crlfCrlf <:+ head := fun ends => cut ⟨ends, buffered.first⟩
  have full : head.length = 65537 := buffered.ends.resolve_left unended
  have taken : (head ++ rest).take 65537 = head := by rw [← full, List.take_left]
  refine ⟨?_, ?_, ?_, ?_⟩
  · cases head with
    | nil => cases full
    | cons b more => exact other
  · rw [List.length_append, full]
    omega
  · intro p part short blank
    have inside : p <+: head := List.prefix_of_prefix_length_le part (List.prefix_append _ _) (full ▸ short)
    by_cases same : p = head
    · exact unended (same ▸ blank)
    · exact buffered.first p inside same blank
  · rw [taken, ← parseHead_isSome_iff, ok]
    rfl

/-- **Whole heads only.** The parser accepts whole heads only, exactly when the stream does not fill the buffer with
bytes that have no blank line and name a target. -/
theorem wholeHeadsOnly_iff (expected : Option AuthExpect) (s : Socket) : WholeHeadsOnly expected s ↔ ¬ Runaway s.input := by
  constructor
  · intro whole runaway
    have split : s.input = s.input.take 65537 ++ s.input.drop 65537 := (List.take_append_drop _ _).symm
    have other : (s.input.take 65537).head? ≠ some 0x05 := by
      rw [List.head?_take, if_neg (by decide)]
      exact runaway.http
    have ran := parseClientRequest_buffered expected runaway.buffered other (s.input.drop 65537) s.output s.budget
    rw [← split] at ran
    have refused := whole.refuses runaway.http runaway.unterminated
    have accepted := parseHead_isSome_iff.2 runaway.names
    rw [show s = ⟨s.input, s.output, s.budget⟩ from rfl, ran] at refused
    rw [show parseHead (s.input.take 65537) = none from refused] at accepted
    cases accepted
  · intro tame
    have whole {req : ClientRequest} {t : Socket} (parsed : parseClientRequest expected s = (some req, t))
        (http : s.input.head? ≠ some 0x05 ∨ req.frontend ≠ .socks5) : ∃ head, s.input = head ++ t.input ∧ Buffered head ∧ Whole head := by
      rcases parseClientRequest_cases parsed with ⟨rest, input, socks, -⟩ | ⟨head, input, other, buffered, ok, -⟩
      · rcases http with http | http
        · rw [input] at http
          exact absurd rfl http
        · exact absurd socks http
      · refine ⟨head, input, buffered, ?_⟩
        by_contra cut
        exact tame (input ▸ runaway_of_buffered buffered other ok cut)
    constructor
    · intro req t parsed http
      obtain ⟨head, input, -, ends⟩ := whole parsed (Or.inr http)
      exact ⟨head, input, ends⟩
    · intro http unterminated
      cases parsed : parseClientRequest expected s with
      | mk result t =>
        cases result with
        | none => rfl
        | some req =>
          obtain ⟨head, input, buffered, ends⟩ := whole parsed (Or.inl http)
          exact absurd ends.ends (unterminated head ⟨t.input, input.symm⟩ buffered.limit)

/-- A request line, and no other end of a line within the limit. -/
theorem runaway_of_tail {tail : Bytes} (long : 65537 ≤ tail.length) (open_ended : 13 ∉ tail) :
    Runaway (ascii "GET http://h/ HTTP/1.1\r\n" ++ tail) := by
  refine ⟨by simp [ascii], ?_, ?_, ?_⟩
  · rw [List.length_append]
    omega
  · intro p part _ blank
    have twice : 2 ≤ p.count 13 := blank.sublist.count_le 13
    have once : (ascii "GET http://h/ HTTP/1.1\r\n" ++ tail).count 13 = 1 := by
      rw [List.count_append, List.count_eq_zero.2 open_ended]
      rfl
    have fewer := part.sublist.count_le 13
    omega
  · have first : (ascii "GET http://h/ HTTP/1.1\r\n" ++ tail).take 65537 =
        ascii "GET http://h/ HTTP/1.1\r\n" ++ tail.take (65537 - 24) := by
      rw [List.take_append]
      rfl
    have line : splitInclusive 10 (ascii "GET http://h/ HTTP/1.1\r\n") = [ascii "GET http://h/ HTTP/1.1\r\n"] := by decide
    have cut : lines (fromUtf8Lossy (ascii "GET http://h/ HTTP/1.1\r\n" ++ tail.take (65537 - 24))) =
        "GET http://h/ HTTP/1.1".toList :: ((splitInclusive 10 (tail.take (65537 - 24))).map fromUtf8Lossy).map stripEol := by
      rw [lines, splitInclusive_lossy, splitInclusive_append (by decide), line]
      rfl
    rw [first]
    exact ⟨_, _, "GET".toList, "http://h/".toList, ["HTTP/1.1".toList], cut, by decide, Or.inr (Or.inl ⟨"h/".toList, rfl⟩)⟩

/-- A header that does not end is taken for a request. -/
theorem endless_header_accepted :
    ¬ WholeHeadsOnly none ⟨ascii "GET http://h/ HTTP/1.1\r\n" ++ List.replicate 65537 97, [], none⟩ := by
  rw [wholeHeadsOnly_iff, not_not]
  refine runaway_of_tail ?_ ?_
  · rw [List.length_replicate]
  · intro mem
    cases List.eq_of_mem_replicate mem

end ProxyBroker.Server
