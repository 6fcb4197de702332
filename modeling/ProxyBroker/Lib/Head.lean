import ProxyBroker.Lib.Text

/-!
# Message heads

A head is a list of lines, each followed by the terminator `c d`, and one empty line. When no line is empty and none
has the last symbol of the terminator in it, the blank line that ends the head is its first one (`head_first`), so a
reader that stops at a blank line takes the head and nothing of what follows.
-/

namespace ProxyBroker.Lib

section
variable {α : Type} {c d : α} {ls : List (List α)} {l p q x y : List α}

/-- The lines of a head with their terminators, and the blank line. -/
def headOf (c d : α) : List (List α) → List α
  | [] => [c, d]
  | l :: ls => l ++ [c, d] ++ headOf c d ls

/-- A line that can stand in a head. -/
def HeadLine (d : α) (l : List α) : Prop := l ≠ [] ∧ d ∉ l

/-- A head ends in a blank line, if it has a line at all. -/
theorem headOf_ends (some : ls ≠ []) : [c, d, c, d] <:+ headOf c d ls := by
  induction ls with
  | nil => exact absurd rfl some
  | cons l ls ih =>
    rw [headOf]
    cases ls with
    | nil => exact ⟨l, by simp [headOf]⟩
    | cons m ms => exact (ih (by simp)).trans (List.suffix_append _ _)

/-- A head does not begin with the last symbol of the terminator, and begins with the terminator only when it is
nothing else. -/
theorem headOf_front (other : c ≠ d) (lines : ∀ l ∈ ls, HeadLine d l) :
    (∀ r, headOf c d ls ≠ d :: r) ∧ ∀ r, headOf c d ls = c :: d :: r → ls = [] := by
  cases ls with
  | nil =>
    refine ⟨?_, fun _ _ => rfl⟩
    intro r same
    exact other (List.cons.inj same).1
  | cons l ls =>
    obtain ⟨nonempty, clean⟩ := lines l List.mem_cons_self
    cases l with
    | nil => exact absurd rfl nonempty
    | cons a l =>
      rw [List.mem_cons, not_or] at clean
      constructor
      · intro r same
        exact clean.1 (List.cons.inj same).1.symm
      · intro r same
        have second := (List.cons.inj same).2
        cases l with
        | nil => exact absurd (List.cons.inj second).1 other
        | cons b l => exact absurd (List.cons.inj second).1 fun eq => clean.2 (eq ▸ List.mem_cons_self)

/-- A line with its terminator has one blank line's half. -/
theorem blank_not_in_line [DecidableEq α] (other : c ≠ d) (clean : d ∉ l) : ¬ [c, d, c, d].Sublist (l ++ [c, d]) := by
  intro inside
  have count := inside.count_le d
  simp [List.count_eq_zero.2 clean, other] at count

/-- **The blank line at the end is the first.** -/
theorem headOf_first [DecidableEq α] (other : c ≠ d) (lines : ∀ l ∈ ls, HeadLine d l) (part : p <+: headOf c d ls)
    (blank : [c, d, c, d] <:+ p) : p = headOf c d ls := by
  induction ls generalizing p with
  | nil =>
    have le := part.length_le
    have ge := blank.length_le
    simp only [headOf, List.length_cons, List.length_nil] at le ge
    omega
  | cons l ls ih =>
    have later : ∀ m ∈ ls, HeadLine d m := fun m mem => lines m (List.mem_cons_of_mem l mem)
    have alone := blank_not_in_line other (lines l List.mem_cons_self).2
    obtain ⟨notLast, onlyEnd⟩ := headOf_front other later
    rw [headOf] at part ⊢
    rcases List.prefix_or_prefix_of_prefix part (List.prefix_append (l ++ [c, d]) (headOf c d ls)) with inside | ⟨r, rfl⟩
    · exact absurd (blank.sublist.trans inside.sublist) alone
    · -- the blank line ends in what follows the first line
      have rest : r <+: headOf c d ls := (List.prefix_append_right_inj _).1 part
      obtain ⟨more, whole⟩ := rest
      by_cases long : 4 ≤ r.length
      · have ends : [c, d, c, d] <:+ r := List.suffix_of_suffix_length_le blank (List.suffix_append _ r) long
        rw [ih later ⟨more, whole⟩ ends]
      · obtain ⟨q, split⟩ := blank
        have first (t : List α) (front : r = d :: t) : False := notLast (t ++ more) (by rw [← whole, front]; rfl)
        rcases r with _ | ⟨a, _ | ⟨b, _ | ⟨e, _ | ⟨f, r⟩⟩⟩⟩
        · rw [List.append_nil] at split
          exact absurd (split ▸ (List.suffix_append q _).sublist) alone
        · have last : q ++ [c, d, c] ++ [d] = l ++ [c, d] ++ [a] := by simpa using split
          obtain rfl := List.singleton_inj.1 (List.append_inj_right' last rfl)
          exact (first [] rfl).elim
        · have last : q ++ [c, d] ++ [c, d] = l ++ [c, d] ++ [a, b] := by simpa using split
          obtain ⟨rfl, rfl⟩ : c = a ∧ d = b := by simpa using List.append_inj_right' last rfl
          obtain rfl := onlyEnd more whole.symm
          rfl
        · have last : q ++ [c] ++ [d, c, d] = l ++ [c, d] ++ [a, b, e] := by simpa using split
          obtain ⟨rfl, -⟩ := List.cons.inj (List.append_inj_right' last rfl)
          exact (first [b, e] rfl).elim
        · simp at long

/-- `str::split_once` cuts at the first occurrence. -/
theorem splitOnceAt_first [DecidableEq α] {sep t u v : List α} (here : t = u ++ sep ++ v) :
    ∃ l r, splitOnceAt sep t = some (l, r) ∧ l.length ≤ u.length := by
  induction u generalizing t with
  | nil =>
    have front : stripPrefix sep t = some v := stripPrefix_some.2 here
    cases t with
    | nil =>
      have empty : sep = [] := by
        have both := here.symm
        simp only [List.nil_append, List.append_eq_nil_iff] at both
        exact both.1
      exact ⟨[], [], if_pos empty, Nat.le_refl 0⟩
    | cons a t => exact ⟨[], v, by rw [splitOnceAt, front], Nat.le_refl 0⟩
  | cons a u ih =>
    obtain rfl : t = a :: (u ++ sep ++ v) := here
    rw [splitOnceAt]
    cases now : stripPrefix sep (a :: (u ++ sep ++ v)) with
    | some rest => exact ⟨[], rest, rfl, Nat.zero_le _⟩
    | none =>
      obtain ⟨l, r, cut, le⟩ := ih rfl
      exact ⟨a :: l, r, by rw [cut]; rfl, Nat.succ_le_succ le⟩

/-- What does not contain the symbol that separates two texts is in one of them. -/
theorem infix_separated {t u v : List α} (clean : d ∉ t) : t <:+: u ++ d :: v ↔ t <:+: u ∨ t <:+: v := by
  constructor
  · rintro ⟨before, after, whole⟩
    rcases List.append_eq_append_iff.1 whole with ⟨x, left, -⟩ | ⟨x, left, right⟩
    · exact .inl ⟨before, x, left.symm⟩
    · cases x with
      | nil => exact .inl ⟨before, [], by simpa using left⟩
      | cons e x =>
        obtain ⟨rfl, rfl⟩ := List.cons.inj right
        -- the separator is not in the text, so it comes before it
        rcases List.append_eq_append_iff.1 left with ⟨y, -, inside⟩ | ⟨y, -, inside⟩
        · exact absurd (inside ▸ List.mem_append_right y List.mem_cons_self) clean
        · cases y with
          | nil => exact absurd (show d ∈ t from (show d :: x = t from inside) ▸ List.mem_cons_self) clean
          | cons f y =>
            right
            have rest : x = y ++ t := (List.cons.inj inside).2
            subst rest
            exact ⟨y, after, rfl⟩
  · rintro (left | right)
    · exact left.trans (List.prefix_append u _).isInfix
    · exact right.trans ((List.suffix_cons d v).trans (List.suffix_append u _)).isInfix

/-- A text of one line is in one of the lines. -/
theorem infix_lines {ls : List (List α)} {t : List α} (nonempty : ls ≠ []) (clean : d ∉ t) :
    t <:+: (ls.flatMap fun l => l ++ [d]) ↔ ∃ l ∈ ls, t <:+: l := by
  by_cases empty : t = []
  · subst empty
    obtain ⟨l, mem⟩ := List.exists_mem_of_ne_nil ls nonempty
    exact ⟨fun _ => ⟨l, mem, List.nil_infix⟩, fun _ => List.nil_infix⟩
  · clear nonempty
    induction ls with
    | nil => simp [empty]
    | cons l ls ih =>
      rw [List.flatMap_cons, List.append_assoc, List.singleton_append, infix_separated clean, ih]
      simp

/-- What has not the first symbol of the separator in it stands before the first separator. -/
theorem splitOnceAt_fresh [DecidableEq α] {u sep : List α} (fresh : c ∉ u) (v : List α) :
    splitOnceAt (c :: sep) (u ++ c :: sep ++ v) = some (u, v) := by
  induction u with
  | nil =>
    have front : stripPrefix (c :: sep) (c :: (sep ++ v)) = some v := stripPrefix_some.2 rfl
    rw [List.nil_append, List.cons_append, splitOnceAt, front]
  | cons a u ih =>
    rw [List.mem_cons, not_or] at fresh
    have other : stripPrefix (c :: sep) (a :: (u ++ c :: sep ++ v)) = none := if_neg fresh.1
    rw [List.cons_append, List.cons_append, splitOnceAt, other, ih fresh.2]
    rfl

/-- **A head is cut off at its end.** -/
theorem splitOnceAt_headOf [DecidableEq α] (other : c ≠ d) (lines : ∀ l ∈ ls, HeadLine d l) (nonempty : ls ≠ []) (body : List α) :
    ∃ head, headOf c d ls = head ++ [c, d, c, d] ∧
      splitOnceAt [c, d, c, d] (headOf c d ls ++ body) = some (head, body) := by
  obtain ⟨head, whole⟩ := headOf_ends (c := c) (d := d) nonempty
  have here : headOf c d ls ++ body = head ++ [c, d, c, d] ++ body := by rw [whole]
  obtain ⟨l, r, cut, le⟩ := splitOnceAt_first here
  have split := splitOnceAt_some cut
  have inside : l ++ [c, d, c, d] <+: headOf c d ls := by
    have left : l ++ [c, d, c, d] <+: headOf c d ls ++ body := ⟨r, split.symm⟩
    apply List.prefix_of_prefix_length_le left (List.prefix_append _ _)
    rw [← whole, List.length_append, List.length_append]
    omega
  have same := headOf_first other lines inside (List.suffix_append l _)
  have first : l = head := List.append_cancel_right (same.trans whole.symm)
  have rest : r = body := by
    rw [same] at split
    exact (List.append_cancel_left split).symm
  exact ⟨head, whole.symm, by rw [cut, first, rest]⟩

end

/-! ## Heads as text -/

/-- The bytes of an ASCII literal. -/
theorem ascii_utf8 {s : String} (small : (s.toList.all fun c => decide (c.toNat < 0x80)) = true) : ascii s = utf8 s.toList := by
  have all (t : Text) (small : ∀ c ∈ t, c.toNat < 0x80) : t.map (fun c => c.toNat.toUInt8) = utf8 t := by
    induction t with
    | nil => rfl
    | cons c t ih =>
      rw [List.map_cons, utf8_cons, encode_ascii (small c List.mem_cons_self), ih fun x mem => small x (List.mem_cons_of_mem c mem)]
      rfl
  exact all s.toList fun c mem => of_decide_eq_true (List.all_eq_true.1 small c mem)

theorem length_utf8_le (t : Text) : (utf8 t).length ≤ 4 * t.length := by
  induction t with
  | nil => exact Nat.zero_le _
  | cons c t ih =>
    have one : (String.utf8EncodeChar c).length ≤ 4 := by
      rw [String.length_utf8EncodeChar]
      exact Char.utf8Size_le_four c
    rw [utf8_cons, List.length_append, List.length_cons]
    omega

theorem utf8_headOf (ls : List Text) : utf8 (headOf '\r' '\n' ls) = headOf 13 10 (ls.map utf8) := by
  induction ls with
  | nil => rfl
  | cons l ls ih =>
    rw [headOf, List.map_cons, headOf, utf8_append, utf8_append, ih]
    rfl

/-- Lines that can stand in a head, as bytes. -/
theorem headLines_utf8 {ls : List Text} (lines : ∀ l ∈ ls, HeadLine '\n' l) : ∀ l ∈ ls.map utf8, HeadLine (10 : UInt8) l := by
  intro l mem
  obtain ⟨t, at_t, rfl⟩ := List.mem_map.1 mem
  obtain ⟨nonempty, clean⟩ := lines t at_t
  refine ⟨?_, by rwa [feed_mem_utf8]⟩
  intro empty
  exact nonempty (utf8_inj.1 empty)

/-- `str::lines` gives back the lines and the empty one. -/
theorem lines_headOf {ls : List Text} (clean : ∀ l ∈ ls, '\n' ∉ l) : lines (headOf '\r' '\n' ls) = ls ++ [[]] := by
  have line (l : Text) : stripEol (l ++ ['\r'] ++ ['\n']) = l := by
    rw [stripEol, stripSuffix_some.2 rfl]
    dsimp only
    rw [stripSuffix_some.2 rfl, Option.getD_some]
  induction ls with
  | nil => rfl
  | cons l ls ih =>
    have noFeed : '\n' ∉ l ++ ['\r'] := by
      rw [List.mem_append, not_or]
      exact ⟨clean l List.mem_cons_self, by decide⟩
    have cut : headOf '\r' '\n' (l :: ls) = l ++ ['\r'] ++ '\n' :: headOf '\r' '\n' ls := by simp [headOf]
    rw [cut, lines, splitInclusive_piece noFeed, List.map_cons, line]
    exact congrArg (List.cons l) (ih fun m mem => clean m (List.mem_cons_of_mem l mem))

/-- A header value as it is written after the colon. -/
theorem trim_spaced {t : Text} (first : ∀ c ∈ t.head?, isWhitespace c = false) (last : ∀ c ∈ t.getLast?, isWhitespace c = false) :
    trim (' ' :: t) = t := by
  have front : (' ' :: t).dropWhile isWhitespace = t := by
    rw [List.dropWhile_cons_of_pos (by decide)]
    cases t with
    | nil => rfl
    | cons c t => exact List.dropWhile_cons_of_neg (by simp [first c rfl])
  have back : t.reverse.dropWhile isWhitespace = t.reverse := by
    cases rev : t.reverse with
    | nil => rfl
    | cons c r =>
      have ends : t.getLast? = some c := by rw [← List.head?_reverse, rev]; rfl
      exact List.dropWhile_cons_of_neg (by simp [last c ends])
  rw [trim, front, back, List.reverse_reverse]

end ProxyBroker.Lib
