import ProxyBroker.Server.Request

/-!
# What a header line is (`server.rs`: `strip_header` against `header_value`)

`header_value` reads a head line by line as `str::lines` cuts it, at every `\n`. `strip_header` removes
lines that end in `\r\n`. `withoutLines` is what the reader's lines make of a removal. The two agree exactly
when no line of the remover mixes matching and other lines of the reader (`Unmixed`).
-/

namespace ProxyBroker.Server
open Lib

/-! ## The lines of the reader -/

/-- The lines of a head up to each `\n`. -/
def lfLines (raw : Bytes) : List Bytes := splitInclusive 10 raw

/-- The test `header_value` makes on a line. -/
def matchesName (name : Text) (l : Bytes) : Bool := isHeader name (stripEol (fromUtf8Lossy l))

/-- A head without the lines that `header_value` would match. -/
def withoutLines (raw : Bytes) (name : Text) : Bytes :=
  match lfLines raw with
  | [] => []
  | first :: ls => first ++ (ls.filter fun l => !matchesName name l).flatten

variable {raw : Bytes} {name : Text}

theorem headerValue_eq_none : headerValue raw name = none ↔ ∀ l ∈ (lfLines raw).drop 1, matchesName name l = false := by
  rw [headerValue, Option.map_eq_none_iff, List.find?_eq_none, lines, splitInclusive_lossy, List.map_map, ← List.map_drop]
  constructor
  · intro none l mem
    exact Bool.eq_false_iff.2 (none _ (List.mem_map_of_mem mem))
  · intro none t mem
    obtain ⟨l, here, rfl⟩ := List.mem_map.1 mem
    exact Bool.eq_false_iff.1 (none l here)

theorem lfLines_flatten (raw : Bytes) : (lfLines raw).flatten = raw := (pieces_splitInclusive 10 raw).2

/-- Lines that are left out leave the others as they are. -/
theorem lfLines_sublist {ls : List Bytes} (sub : ls.Sublist (lfLines raw)) : lfLines ls.flatten = ls :=
  ((pieces_splitInclusive 10 raw).1.sublist sub).split

/-- The reader's lines of a head without some of them. -/
theorem lfLines_withoutLines : lfLines (withoutLines raw name) =
    (lfLines raw).take 1 ++ ((lfLines raw).drop 1).filter fun l => !matchesName name l := by
  unfold withoutLines
  cases split : lfLines raw with
  | nil => rfl
  | cons first ls =>
    have sub : (first :: ls.filter fun l => !matchesName name l).Sublist (lfLines raw) := by
      rw [split]
      exact List.filter_sublist.cons_cons first
    exact lfLines_sublist sub

theorem lfLines_append {x : Bytes} (ends : x.getLast? = some 10) (y : Bytes) : lfLines (x ++ y) = lfLines x ++ lfLines y :=
  splitInclusive_append ends y

/-- The reader cuts wherever the remover does. -/
theorem lfLines_lines {ls : List Bytes} (ends : ∀ l ∈ ls, l.getLast? = some 10) (rest : Bytes) :
    lfLines (ls.flatten ++ rest) = ls.flatMap lfLines ++ lfLines rest := by
  induction ls with
  | nil => rfl
  | cons l ls ih =>
    rw [List.flatten_cons, List.append_assoc, lfLines_append (ends l List.mem_cons_self),
      ih fun l mem => ends l (List.mem_cons_of_mem _ mem), List.flatMap_cons, List.append_assoc]

theorem crlfLines_ends {line : Bytes} (mem : line ∈ (crlfLines id raw).1) : line.getLast? = some 10 := by
  obtain ⟨p, c, d, rfl, -, feed⟩ := mem_crlfLines mem
  rw [show d = 10 from feed]
  simp

/-! ## The lines of the remover -/

/-- No `\r\n` line mixes lines that the reader matches with others, and the lines that are never removed
have none that it matches. -/
def Unmixed (raw : Bytes) (name : Text) : Prop :=
  match crlfLines id raw with
  | ([], rest) => ∀ l ∈ (lfLines rest).drop 1, matchesName name l = false
  | (first :: ls, rest) =>
    (∀ l ∈ (lfLines first).drop 1, matchesName name l = false) ∧
    (∀ line ∈ ls, ∀ l ∈ lfLines line, matchesName name l = isHeaderLine id name line) ∧
    ∀ l ∈ lfLines rest, matchesName name l = false

/-- Stripping twice strips nothing more: the lines that are kept are cut as before. -/
theorem stripHeader_idem (raw : Bytes) (name : Text) :
    stripHeader id (stripHeader id raw name) name = stripHeader id raw name := by
  unfold stripHeader
  cases scan : crlfLines id raw with
  | mk ls rest =>
    cases ls with
    | nil =>
      have again : crlfLines id rest = ([], rest) := by
        have kept : crlfLines id ([].flatten ++ (crlfLines id raw).2) = ([], _) := crlfLines_kept (by simp)
        rwa [scan] at kept
      simp only [again]
    | cons first ls =>
      have again : crlfLines id (first ++ (ls.filter fun l => !isHeaderLine id name l).flatten ++ rest) =
          (first :: ls.filter fun l => !isHeaderLine id name l, rest) := by
        have sub : (first :: ls.filter fun l => !isHeaderLine id name l) ⊆ (crlfLines id raw).1 := by
          rw [scan]
          exact List.cons_subset_cons first (List.filter_subset_self _)
        have kept := crlfLines_kept sub
        rwa [scan] at kept
      simp only [again, List.filter_filter, Bool.and_self]

/-! ## When they agree -/

theorem lfLines_inj {x y : Bytes} : lfLines x = lfLines y ↔ x = y := by
  constructor
  · intro same
    rw [← lfLines_flatten x, same, lfLines_flatten]
  · rintro rfl
    rfl

/-- **The remover removes the reader's lines** exactly when they are unmixed. -/
theorem stripHeader_eq_iff (raw : Bytes) (name : Text) : stripHeader id raw name = withoutLines raw name ↔ Unmixed raw name := by
  have flat : (crlfLines id raw).1.flatten ++ (crlfLines id raw).2 = raw := crlfLines_flatten raw
  have kept (l : Bytes) : (!matchesName name l) = true ↔ matchesName name l = false := by simp
  rw [← lfLines_inj, lfLines_withoutLines, stripHeader, Unmixed]
  cases scan : crlfLines id raw with
  | mk ls rest =>
    rw [scan] at flat
    cases ls with
    | nil =>
      obtain rfl : rest = raw := flat
      dsimp only
      conv_lhs => lhs; rw [← List.take_append_drop 1 (lfLines rest)]
      rw [List.append_cancel_left_eq, eq_comm, List.filter_eq_self]
      exact forall₂_congr fun l _ => kept l
    | cons first ls =>
      have ends : ∀ l ∈ first :: ls, l.getLast? = some 10 := by
        intro l mem
        exact crlfLines_ends (show l ∈ (crlfLines id raw).1 by rwa [scan])
      have whole : lfLines raw = lfLines first ++ (ls.flatMap lfLines ++ lfLines rest) := by
        rw [← flat]
        exact (lfLines_lines ends rest).trans (by rw [List.flatMap_cons, List.append_assoc])
      have left : lfLines (first ++ (ls.filter fun l => !isHeaderLine id name l).flatten ++ rest) =
          lfLines first ++ ((ls.filter fun l => !isHeaderLine id name l).flatMap lfLines ++ lfLines rest) := by
        have some : ∀ l ∈ first :: ls.filter fun l => !isHeaderLine id name l, l.getLast? = some 10 :=
          fun l mem => ends l (List.cons_subset_cons first (List.filter_subset_self _) mem)
        exact (lfLines_lines some rest).trans (by rw [List.flatMap_cons, List.append_assoc])
      -- the first of the reader's lines is the request line
      obtain ⟨line, more, first_eq⟩ : ∃ line more, lfLines first = line :: more := by
        cases lines : lfLines first with
        | nil =>
          have empty : first = [] := by rw [← lfLines_flatten first, lines]; rfl
          have last := ends first List.mem_cons_self
          rw [empty] at last
          cases last
        | cons line more => exact ⟨line, more, rfl⟩
      dsimp only
      rw [left, whole, first_eq, List.cons_append, List.cons_append, List.take_succ_cons, List.take_zero, List.drop_succ_cons,
        List.drop_zero, List.singleton_append, List.cons.injEq, ← List.append_assoc, ← List.append_assoc, filter_between_iff,
        filter_blocks_iff]
      simp only [true_and, kept, Bool.not_eq_eq_eq_not, Bool.not_not, List.drop_succ_cons, List.drop_zero]

/-- What the reader's lines leave has none that the reader matches. -/
theorem headerValue_withoutLines (raw : Bytes) (name : Text) : headerValue (withoutLines raw name) name = none := by
  rw [headerValue_eq_none, lfLines_withoutLines]
  intro l mem
  cases lines : lfLines raw with
  | nil =>
    rw [lines] at mem
    cases mem
  | cons first ls =>
    rw [lines] at mem
    have here : l ∈ ls.filter fun l => !matchesName name l := mem
    simpa using (List.mem_filter.1 here).2

/-- **Reader and remover.** For every head and every name: after the removal the reader finds nothing, the
removal takes exactly the lines that the reader would match, and a second removal takes nothing more, exactly
when no line of the remover mixes lines that the reader matches with others. -/
theorem header_lines_agree_iff (raw : Bytes) (name : Text) :
    (headerValue (stripHeader id raw name) name = none ∧ stripHeader id raw name = withoutLines raw name ∧
      stripHeader id (stripHeader id raw name) name = stripHeader id raw name) ↔ Unmixed raw name := by
  rw [← stripHeader_eq_iff]
  constructor
  · rintro ⟨-, same, -⟩
    exact same
  · intro same
    refine ⟨?_, same, stripHeader_idem raw name⟩
    rw [same]
    exact headerValue_withoutLines raw name

/-- A request whose header line is ended by a bare line feed. -/
def bareFeedHead : Bytes := ascii "GET http://h/ HTTP/1.1\nProxy-Authorization: x\r\n\r\n"

/-- It is forwarded with the header that was read from it. -/
theorem header_lines_differ : ¬ ∀ expected client after req name, parseClientRequest expected client = (some req, after) →
    headerValue (stripHeader id req.raw name) name = none ∧ stripHeader id req.raw name = withoutLines req.raw name ∧
      stripHeader id (stripHeader id req.raw name) name = stripHeader id req.raw name := by
  intro general
  have parsed : ∃ req after, parseClientRequest none ⟨bareFeedHead, [], none⟩ = (some req, after) ∧ req.raw = bareFeedHead :=
    ⟨_, _, rfl, rfl⟩
  obtain ⟨req, after, parsed, raw⟩ := parsed
  have absent := (general none _ after req proxyAuthorization parsed).1
  rw [raw] at absent
  have there : headerValue (stripHeader id bareFeedHead proxyAuthorization) proxyAuthorization = some ['x'] := by decide +kernel
  rw [there] at absent
  cases absent

end ProxyBroker.Server
