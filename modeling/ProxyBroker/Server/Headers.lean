import ProxyBroker.Lib.Vec
import ProxyBroker.Types
import ProxyBroker.Utils

/-!
# Buffered HTTP heads (`server.rs`: `inject_header`, `strip_header`, `header_value` and the parsers)

`strip_header` and `inject_header` cut a head at `\r\n` (`crlfLines`), `header_value` reads it with
`str::lines`. The first two only move bytes, so they are written over any element type that has a
byte: at `UInt8` they are the functions of the source, and at bytes that carry their origin the same
functions say which bytes were forwarded (`Server/Forward.lean`).
-/

namespace ProxyBroker.Server
open Lib

/-- The name under which a client's or an upstream's credentials travel. -/
def proxyAuthorization : Text := "Proxy-Authorization".toList

/-- A line whose lower-cased text starts with `name:` in lower case. -/
def isHeader (name line : Text) : Bool := (toAsciiLowercase name ++ [':']).isPrefixOf (toAsciiLowercase line)

section Scan
variable {α β : Type} (val : α → UInt8)

/-- The test `strip_header` makes on one `\r\n` line. -/
def isHeaderLine (name : Text) (l : List α) : Bool := isHeader name (fromUtf8Lossy (lineText val l))

/-- `strip_header`: the first line stays, every other `name:` line goes, the bytes after the last
`\r\n` stay. -/
def stripHeader (raw : List α) (name : Text) : List α :=
  match crlfLines val raw with
  | ([], rest) => rest
  | (first :: ls, rest) => first ++ (ls.filter fun l => !isHeaderLine val name l).flatten ++ rest

/-- `inject_header`: after the first `\r\n`, if there is one. -/
def injectHeader (raw headerLine : List α) : List α :=
  match (crlfLines val raw).1 with
  | [] => raw
  | first :: _ => first ++ headerLine ++ raw.drop first.length

variable {val}

theorem isHeaderLine_map {val' : β → UInt8} (f : α → β) (same : ∀ a, val' (f a) = val a) (name : Text) (l : List α) :
    isHeaderLine val' name (l.map f) = isHeaderLine val name l := by
  have bytes : lineText val' (l.map f) = lineText val l := by
    simp only [lineText, List.length_map, ← List.map_take, List.map_map]
    exact List.map_congr_left fun a _ => same a
  simp only [isHeaderLine, bytes]

/-- Injecting adds nothing but the line. -/
theorem mem_injectHeader {raw line : List α} {a : α} (mem : a ∈ injectHeader val raw line) : a ∈ raw ∨ a ∈ line := by
  have flat : (crlfLines val raw).1.flatten ++ _ = raw := crlfLines_flatten raw
  unfold injectHeader at mem
  split at mem
  · exact Or.inl mem
  · rename_i first ls split
    rcases List.mem_append.1 mem with before | after
    · rcases List.mem_append.1 before with here | inLine
      · rw [← flat, split]
        exact Or.inl (by simp [here])
      · exact Or.inr inLine
    · exact Or.inl (List.mem_of_mem_drop after)

/-- Stripping commutes with a change of elements that keeps their bytes. -/
theorem stripHeader_map {val' : β → UInt8} (f : α → β) (same : ∀ a, val' (f a) = val a) (raw : List α) (name : Text) :
    (stripHeader val raw name).map f = stripHeader val' (raw.map f) name := by
  unfold stripHeader
  rw [crlfLines_map f same]
  rcases crlfLines val raw with ⟨_ | ⟨first, ls⟩, rest⟩
  · rfl
  · simp only [List.map_cons, List.map_append, List.map_flatten, List.filter_map, Function.comp_def, isHeaderLine_map f same]

/-- Injecting commutes with a change of elements that keeps their bytes. -/
theorem injectHeader_map {val' : β → UInt8} (f : α → β) (same : ∀ a, val' (f a) = val a) (raw line : List α) :
    (injectHeader val raw line).map f = injectHeader val' (raw.map f) (line.map f) := by
  unfold injectHeader
  rw [crlfLines_map f same]
  rcases crlfLines val raw with ⟨_ | ⟨first, ls⟩, rest⟩
  · rfl
  · simp only [List.map_cons, List.map_append, List.map_drop, List.length_map]

variable (val) in
/-- Position `k` lies in a line that `strip_header` removes: a `name:` line that is not the first. -/
def DroppedAt (raw : List α) (name : Text) (k : Nat) : Prop :=
  ∃ before line, Covers (crlfLines val raw).1 k before line ∧ before ≠ [] ∧ isHeaderLine val name line = true

theorem droppedAt_map {val' : β → UInt8} (f : α → β) (same : ∀ a, val' (f a) = val a) {raw : List α} {name : Text} {k : Nat} :
    DroppedAt val' (raw.map f) name k ↔ DroppedAt val raw name k := by
  unfold DroppedAt
  rw [crlfLines_map f same]
  constructor
  · rintro ⟨before, line, covers, later, header⟩
    obtain ⟨b, l, covers', rfl, rfl⟩ := (covers_map f).1 covers
    exact ⟨b, l, covers', by simpa using later, by rwa [isHeaderLine_map f same] at header⟩
  · rintro ⟨b, l, covers, later, header⟩
    refine ⟨b.map (List.map f), l.map f, (covers_map f).2 ⟨b, l, covers, rfl, rfl⟩, by simpa using later, ?_⟩
    rwa [isHeaderLine_map f same]

theorem mem_keptLines {p : List α → Bool} {ls : List (List α)} {rest : List α} {a : α} :
    (a ∈ match (ls, rest) with
      | ([], rest) => rest
      | (first :: ls, rest) => first ++ (ls.filter p).flatten ++ rest) ↔
    (∃ before line after, ls = before ++ line :: after ∧ (before = [] ∨ p line = true) ∧ a ∈ line) ∨ a ∈ rest := by
  cases ls with
  | nil => simp
  | cons first ls =>
    simp only [List.mem_append, List.mem_flatten, List.mem_filter]
    apply or_congr_left
    constructor
    · rintro (here | ⟨line, ⟨mem, keep⟩, here⟩)
      · exact ⟨[], first, ls, rfl, Or.inl rfl, here⟩
      · obtain ⟨before, after, rfl⟩ := List.append_of_mem mem
        exact ⟨first :: before, line, after, rfl, Or.inr keep, here⟩
    · rintro ⟨before, line, after, split, stays, here⟩
      cases before with
      | nil => cases split; exact Or.inl here
      | cons x before =>
        cases split
        exact Or.inr ⟨line, ⟨by simp, stays.resolve_left (by simp)⟩, here⟩

/-- **What `strip_header` keeps**: exactly the elements at positions it does not drop. -/
theorem mem_stripHeader_iff {raw : List α} {name : Text} {a : α} :
    a ∈ stripHeader val raw name ↔ ∃ k, raw[k]? = some a ∧ ¬ DroppedAt val raw name k := by
  have flat : (crlfLines val raw).1.flatten ++ (crlfLines val raw).2 = raw := crlfLines_flatten raw
  unfold stripHeader DroppedAt
  generalize crlfLines val raw = scan at flat ⊢
  obtain ⟨ls, rest⟩ := scan
  dsimp only at flat
  subst flat
  rw [mem_keptLines]
  constructor
  · rintro (⟨before, line, after, split, stays, mem⟩ | mem)
    · obtain ⟨j, hj, rfl⟩ := List.getElem_of_mem mem
      have covers : Covers ls (before.flatten.length + j) before line := ⟨after, split, by omega, by omega⟩
      refine ⟨before.flatten.length + j, ?_, ?_⟩
      · rw [List.getElem?_append_left covers.lt, covers.getElem?, Nat.add_sub_cancel_left]
        exact List.getElem?_eq_getElem hj
      · rintro ⟨before', line', covers', later, header⟩
        obtain ⟨rfl, rfl⟩ := covers.unique covers'
        rcases stays with first | other
        · exact later first
        · rw [header] at other; cases other
    · obtain ⟨j, hj, rfl⟩ := List.getElem_of_mem mem
      refine ⟨ls.flatten.length + j, ?_, ?_⟩
      · rw [List.getElem?_append_right (by omega), Nat.add_sub_cancel_left]
        exact List.getElem?_eq_getElem hj
      · rintro ⟨before', line', covers', -, -⟩
        have short : _ < ls.flatten.length := covers'.lt
        omega
  · rintro ⟨k, at_k, stays⟩
    by_cases inLines : k < ls.flatten.length
    · obtain ⟨before, line, covers⟩ := exists_covers inLines
      rw [List.getElem?_append_left inLines, covers.getElem?] at at_k
      have ⟨after, split, low, high⟩ := covers
      refine Or.inl ⟨before, line, after, split, ?_, List.mem_of_getElem? at_k⟩
      by_contra dropped
      rw [not_or, Bool.not_eq_true, Bool.not_eq_false'] at dropped
      exact stays ⟨before, line, covers, dropped⟩
    · rw [List.getElem?_append_right (by omega)] at at_k
      exact Or.inr (List.mem_of_getElem? at_k)

end Scan

/-- `header_value`: the first `name:` line after the first line, trimmed. -/
def headerValue (raw : Bytes) (name : Text) : Option Text :=
  ((lines (fromUtf8Lossy raw)).drop 1).find? (isHeader name) |>.map fun l => trim (l.drop (name.length + 1))

/-- `parse_http_status`. -/
def parseHttpStatus (head : Bytes) : UInt16 :=
  ((fromUtf8 head).bind fun t => (splitWhitespace t)[1]?.bind parseU16).getD 0

/-- `request_has_body`. -/
def requestHasBody (raw : Bytes) : Bool :=
  if (headerValue raw "Transfer-Encoding".toList).isSome then true
  else
    match headerValue raw "Content-Length".toList with
    | some v =>
      match parseU64 (trim v) with
      | some n => 0 < n
      | none => true
    | none => false

/-- `split_host_port`. -/
def splitHostPort (s : Text) (default : UInt16) : Text × UInt16 :=
  let bracketed := (stripPrefix ['['] s).bind fun rest =>
    match splitOnceAt "]:".toList rest with
    | some (h, p) => some (h, (parseU16 p).getD default)
    | none => (stripSuffix [']'] rest).map fun h => (h, default)
  match bracketed with
  | some r => r
  | none =>
    match rsplitOnce ':' s with
    | some (h, p) => if h ≠ [] then (h, (parseU16 p).getD default) else (s, default)
    | none => (s, default)

example : splitHostPort "[2001:db8::1]:8080".toList 80 = ("2001:db8::1".toList, 8080) := by decide
example : splitHostPort "example.com".toList 80 = ("example.com".toList, 80) := by decide
example : parseHttpStatus (ascii "HTTP/1.1 403 Forbidden\r\n") = 403 := by decide

end ProxyBroker.Server
