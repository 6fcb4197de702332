import Mathlib.Data.List.Basic
import Mathlib.Data.List.Infix
import Mathlib.Logic.Function.Basic

/-!
# Regular expressions under backtracking

`Regex.run` lists all ways in which an expression matches at a place, in the order in which a backtracking matcher tries
them: the left alternative before the right one, a greedy repetition the long way first. The match is the first of
them, at the leftmost place that has any (`Regex.find`), and `Regex.findAll` goes on where a match ends. Only a single
class is repeated without a bound.

A place is what follows it. `Plain` expressions have neither groups nor assertions, so `rests` tells all about them.
An expression that `StopsAt` an element never looks past it (`run_stopsAt`).
-/

namespace ProxyBroker.Lib

variable {α : Type}

/-- A regular expression over `α`. `behind` and `next` test the neighbour on one side, if there is one. -/
inductive Regex (α : Type) where
  | empty
  | char (p : α → Bool)
  | seq (a b : Regex α)
  | alt (a b : Regex α)
  | star (greedy : Bool) (p : α → Bool)
  | group (k : Nat) (a : Regex α)
  | ahead (a : Regex α)
  | behind (p : Option α → Bool)
  | next (p : Option α → Bool)

/-- What follows a place, and the groups that are set. -/
structure Place (α : Type) where
  rest : List α
  groups : Nat → Option (List α)

/-- What follows after the elements of a class, the short ways first. -/
def skips (p : α → Bool) : List α → List (List α)
  | [] => [[]]
  | c :: t => (c :: t) :: if p c then skips p t else []

namespace Regex

/-- The element before a place. -/
def previous (subject rest : List α) : Option α := (subject.take (subject.length - rest.length)).getLast?

/-- The part of `text` before `rest`. -/
def upTo (text rest : List α) : List α := text.take (text.length - rest.length)

/-- Where a match from a place can end, in the order of backtracking. -/
def run (subject : List α) : Regex α → Place α → List (Place α)
  | empty, s => [s]
  | char p, s =>
    match s.rest with
    | [] => []
    | c :: t => if p c then [{ s with rest := t }] else []
  | seq a b, s => (run subject a s).flatMap (run subject b)
  | alt a b, s => run subject a s ++ run subject b s
  | star greedy p, s => (if greedy then (skips p s.rest).reverse else skips p s.rest).map fun t => { s with rest := t }
  | group k a, s => (run subject a s).map fun t => { t with groups := Function.update t.groups k (some (upTo s.rest t.rest)) }
  | ahead a, s => ((run subject a s).head?.map fun t => { s with groups := t.groups }).toList
  | behind p, s => if p (previous subject s.rest) then [s] else []
  | next p, s => if p s.rest.head? then [s] else []

/-- `r?`. -/
def opt (r : Regex α) : Regex α := .alt r .empty

/-- `r{n}`. -/
def times (r : Regex α) : Nat → Regex α
  | 0 => .empty
  | n + 1 => .seq r (times r n)

/-- `r{0,n}`. -/
def atMost (r : Regex α) : Nat → Regex α
  | 0 => .empty
  | n + 1 => opt (.seq r (atMost r n))

/-! ## Searching -/

/-- The match at a place. -/
def first (r : Regex α) (subject rest : List α) : Option (Place α) := (r.run subject ⟨rest, fun _ => none⟩).head?

end Regex

/-- A match: how many elements were passed before it, what it matched, and what follows. -/
structure Found (α : Type) where
  skipped : Nat
  matched : List α
  rest : List α
deriving DecidableEq, Repr

namespace Regex

/-- The leftmost match from a place on. -/
def findFrom (r : Regex α) (subject : List α) : List α → Option (Found α)
  | [] => (r.first subject []).map fun s => ⟨0, [], s.rest⟩
  | c :: t =>
    match r.first subject (c :: t) with
    | some s => some ⟨0, upTo (c :: t) s.rest, s.rest⟩
    | none => (findFrom r subject t).map fun f => { f with skipped := f.skipped + 1 }

/-- The leftmost match. -/
def find (r : Regex α) (text : List α) : Option (Found α) := r.findFrom text text

/-- The groups of all matches from a place on, after `skip` elements that belong to the last match. -/
def findAllFrom (r : Regex α) (subject : List α) : Nat → List α → List (Nat → Option (List α))
  | skip, [] => if skip = 0 then ((r.first subject []).map Place.groups).toList else []
  | skip + 1, _ :: t => findAllFrom r subject skip t
  | 0, c :: t =>
    match r.first subject (c :: t) with
    | some s => s.groups :: findAllFrom r subject (t.length - s.rest.length) t
    | none => findAllFrom r subject 0 t

/-- The groups of all matches, each search from where the last match ends. An empty match is followed by a search one
element later. -/
def findAll (r : Regex α) (text : List α) : List (Nat → Option (List α)) := r.findAllFrom text 0 text

variable {r a b : Regex α} {subject subject' text rest x y : List α} {s t : Place α} {p : α → Bool} {c : α}

/-! ## One lemma per constructor -/

@[simp] theorem run_empty : run subject .empty s = [s] := rfl

theorem run_seq : run subject (.seq a b) s = (run subject a s).flatMap (run subject b) := rfl

theorem run_alt : run subject (.alt a b) s = run subject a s ++ run subject b s := rfl

theorem run_group {k : Nat} : run subject (.group k a) s =
    (run subject a s).map fun t => { t with groups := Function.update t.groups k (some (upTo s.rest t.rest)) } := rfl

theorem run_star {greedy : Bool} : run subject (.star greedy p) s =
    (if greedy then (skips p s.rest).reverse else skips p s.rest).map fun t => { s with rest := t } := rfl

theorem run_ahead : run subject (.ahead a) s = ((run subject a s).head?.map fun t => { s with groups := t.groups }).toList := rfl

/-- The first match of a sequence: the first way of its first part that its second part can go on from. -/
theorem head?_run_seq : (run subject (.seq a b) s).head? = (run subject a s).findSome? fun t => (run subject b t).head? :=
  List.head?_flatMap

theorem upTo_append (x y : List α) : upTo (x ++ y) y = x := by
  rw [upTo, List.length_append, Nat.add_sub_cancel, List.take_left]

/-! ## Matches are parts of the text -/

theorem skips_suffix : ∀ t ∈ skips p x, t <:+ x := by
  induction x with
  | nil => simp [skips]
  | cons c x ih =>
    intro t mem
    rw [skips] at mem
    rcases List.mem_cons.1 mem with rfl | mem
    · exact List.suffix_rfl
    · split at mem
      · exact (ih t mem).trans (List.suffix_cons c x)
      · cases mem

/-- What follows a match is an end of what followed its start. -/
theorem run_suffix (mem : t ∈ run subject r s) : t.rest <:+ s.rest := by
  induction r generalizing s t with
  | empty =>
    rw [List.mem_singleton.1 mem]
  | char p =>
    unfold run at mem
    split at mem
    · cases mem
    · rename_i c rest eq
      split at mem
      · rw [List.mem_singleton.1 mem, eq]
        exact List.suffix_cons c rest
      · cases mem
  | seq a b iha ihb =>
    obtain ⟨u, first, second⟩ := List.mem_flatMap.1 mem
    exact (ihb second).trans (iha first)
  | alt a b iha ihb =>
    rcases List.mem_append.1 mem with left | right
    · exact iha left
    · exact ihb right
  | star greedy p =>
    obtain ⟨u, skipped, rfl⟩ := List.mem_map.1 mem
    apply skips_suffix
    cases greedy with
    | true => exact List.mem_reverse.1 skipped
    | false => exact skipped
  | group k a ih =>
    obtain ⟨u, inner, rfl⟩ := List.mem_map.1 mem
    have part : u.rest <:+ s.rest := ih inner
    exact part
  | ahead a ih =>
    obtain ⟨u, -, rfl⟩ := Option.map_eq_some_iff.1 (Option.mem_toList.1 mem)
    exact List.suffix_rfl
  | behind p =>
    unfold run at mem
    split at mem
    · rw [List.mem_singleton.1 mem]
    · cases mem
  | next p =>
    unfold run at mem
    split at mem
    · rw [List.mem_singleton.1 mem]
    · cases mem

theorem first_suffix (h : r.first subject x = some s) : s.rest <:+ x := run_suffix (List.mem_of_mem_head? h)

/-! ## Plain expressions -/

/-- Neither groups nor assertions. -/
def Plain : Regex α → Prop
  | empty | char _ | star _ _ => True
  | seq a b | alt a b => a.Plain ∧ b.Plain
  | group _ _ | ahead _ | behind _ | next _ => False

/-- What can follow a match. -/
def rests (r : Regex α) (text : List α) : List (List α) := (r.run [] ⟨text, fun _ => none⟩).map Place.rest

/-- A plain expression sees what follows and nothing else. -/
theorem run_plain (plain : r.Plain) : run subject r s = (r.rests s.rest).map fun t => ⟨t, s.groups⟩ := by
  have blind (r : Regex α) (plain : r.Plain) (subject' : List α) (groups : Nat → Option (List α)) (s : Place α) :
      run subject r s = (run subject' r ⟨s.rest, groups⟩).map fun t => ⟨t.rest, s.groups⟩ := by
    induction r generalizing s groups with
    | empty => rfl
    | char p =>
      unfold run
      dsimp only
      split
      · rfl
      · split <;> rfl
    | seq a b iha ihb =>
      rw [run_seq, run_seq, iha plain.1 groups, List.flatMap_map, List.map_flatMap]
      congr 1
      funext t
      exact ihb plain.2 t.groups ⟨t.rest, s.groups⟩
    | alt a b iha ihb => rw [run_alt, run_alt, iha plain.1 groups, ihb plain.2 groups, List.map_append]
    | star greedy p =>
      rw [run_star, run_star, List.map_map]
      rfl
    | group k a => exact plain.elim
    | ahead a => exact plain.elim
    | behind p => exact plain.elim
    | next p => exact plain.elim
  rw [blind r plain [] (fun _ => none) s, rests, List.map_map]
  rfl

theorem first_plain (plain : r.Plain) : r.first subject x = (r.rests x).head?.map fun t => ⟨t, fun _ => none⟩ := by
  rw [first, run_plain plain, List.head?_map]

@[simp] theorem rests_empty : (empty : Regex α).rests x = [x] := rfl

@[simp] theorem rests_char_nil : (char p).rests [] = [] := rfl

@[simp] theorem rests_char_cons : (char p).rests (c :: x) = if p c then [x] else [] := by
  unfold rests run
  dsimp only
  split <;> rfl

theorem rests_alt : (alt a b).rests x = a.rests x ++ b.rests x := by
  rw [rests, run_alt, List.map_append]
  rfl

theorem rests_opt : (opt r).rests x = r.rests x ++ [x] := by
  rw [opt, rests_alt, rests_empty]

/-- Groups do not matter for what can follow. -/
theorem map_rest_run (s : Place α) : (run subject r s).map Place.rest = (run subject r ⟨s.rest, fun _ => none⟩).map Place.rest := by
  induction r generalizing s with
  | empty => rfl
  | char p =>
    unfold run
    dsimp only
    split
    · rfl
    · split <;> rfl
  | seq a b iha ihb =>
    have parted (s : Place α) : (run subject (.seq a b) s).map Place.rest =
        ((run subject a s).map Place.rest).flatMap fun t => (run subject b ⟨t, fun _ => none⟩).map Place.rest := by
      rw [run_seq, List.map_flatMap, List.flatMap_map]
      congr 1
      funext t
      exact ihb t
    rw [parted, parted, iha s]
  | alt a b iha ihb => rw [run_alt, run_alt, List.map_append, List.map_append, iha s, ihb s]
  | star greedy p =>
    rw [run_star, run_star, List.map_map, List.map_map]
    rfl
  | group k a ih =>
    rw [run_group, run_group, List.map_map, List.map_map]
    exact ih s
  | ahead a ih =>
    have heads := congrArg List.head? (ih s)
    rw [List.head?_map, List.head?_map] at heads
    rw [run_ahead, run_ahead]
    revert heads
    cases (run subject a s).head? <;> cases (run subject a ⟨s.rest, fun _ => none⟩).head? <;> simp
  | behind p =>
    unfold run
    split <;> rfl
  | next p =>
    unfold run
    split <;> rfl

theorem rests_seq : (seq a b).rests x = (a.rests x).flatMap b.rests := by
  rw [rests, run_seq, List.map_flatMap, rests, List.flatMap_map]
  congr 1
  funext t
  exact map_rest_run t

theorem head?_rests_seq (first : (a.rests x).head? = some y) (second : (b.rests y).head? = some rest) :
    ((seq a b).rests x).head? = some rest := by
  obtain ⟨others, eq⟩ := List.head?_eq_some_iff.1 first
  rw [rests_seq, eq, List.flatMap_cons, List.head?_append, second]
  rfl

@[simp] theorem rests_char_seq_nil : (seq (char p) b).rests [] = [] := by
  rw [rests_seq]
  rfl

@[simp] theorem rests_char_seq_cons : (seq (char p) b).rests (c :: x) = if p c then b.rests x else [] := by
  rw [rests_seq, rests_char_cons]
  split
  · exact List.flatMap_singleton _ _
  · rfl

@[simp] theorem plain_times {n : Nat} (plain : r.Plain) : (times r n).Plain := by
  induction n with
  | zero => trivial
  | succ n ih => exact ⟨plain, ih⟩

@[simp] theorem plain_atMost {n : Nat} (plain : r.Plain) : (atMost r n).Plain := by
  induction n with
  | zero => trivial
  | succ n ih => exact ⟨⟨plain, ih⟩, trivial⟩

/-- Up to `n` elements of a class, as many as there are. -/
theorem head?_rests_atMost {n : Nat} (all : ∀ c ∈ x, p c) (short : x.length ≤ n) (ends : ∀ c ∈ y.head?, p c = false) :
    ((atMost (.char p) n).rests (x ++ y)).head? = some y := by
  induction n generalizing x with
  | zero =>
    have nothing : x = [] := List.length_eq_zero_iff.1 (Nat.le_zero.1 short)
    rw [nothing]
    rfl
  | succ n ih =>
    rw [atMost, rests_opt]
    cases x with
    | nil =>
      cases y with
      | nil => simp
      | cons c y => simp [ends c rfl]
    | cons c x =>
      have here : p c := all c List.mem_cons_self
      have more := ih (fun d mem => all d (List.mem_cons_of_mem c mem)) (Nat.le_of_succ_le_succ short)
      rw [List.head?_append, List.cons_append, rests_char_seq_cons, if_pos here, more]
      rfl

theorem rests_suffix (mem : y ∈ r.rests x) : y <:+ x := by
  obtain ⟨t, there, rfl⟩ := List.mem_map.1 mem
  exact run_suffix there

/-- Where there is a match, one comes first. -/
theorem exists_first (mem : y ∈ r.rests x) : ∃ z, (r.rests x).head? = some z :=
  Option.isSome_iff_exists.1 (List.isSome_head?.2 (List.ne_nil_of_mem mem))

/-! ## Sequences that start with a repetition or a group -/

theorem skips_all (all : ∀ c ∈ x, p c) : skips p x = x.tails := by
  induction x with
  | nil => rfl
  | cons c x ih =>
    have here : p c := all c List.mem_cons_self
    rw [skips, if_pos here, List.tails_cons, ih fun d mem => all d (List.mem_cons_of_mem c mem)]

theorem skips_append (stop : p c = false) (x y : List α) : skips p (x ++ c :: y) = (skips p x).map (· ++ c :: y) := by
  induction x with
  | nil => simp [skips, stop]
  | cons d x ih =>
    rw [List.cons_append, skips, skips, List.map_cons, ih]
    split <;> rfl

/-- A lazy repetition goes on where the rest first succeeds. -/
theorem head?_lazy : (run subject (.seq (.star false p) b) s).head? =
    (skips p s.rest).findSome? fun t => (run subject b ⟨t, s.groups⟩).head? := by
  rw [head?_run_seq, run_star, List.findSome?_map]
  rfl

/-- A greedy repetition that takes everything, with a rest that succeeds there. -/
theorem head?_greedy (all : ∀ c ∈ s.rest, p c) (last : (run subject b ⟨[], s.groups⟩).head? = some t) :
    (run subject (.seq (.star true p) b) s).head? = some t := by
  have longest : s.rest.tails.reverse.head? = some [] := by
    rw [List.head?_reverse]
    induction s.rest with
    | nil => rfl
    | cons c x ih => rw [List.tails_cons, List.getLast?_cons, ih, Option.getD_some]
  obtain ⟨shorter, eq⟩ : ∃ l, s.rest.tails.reverse = [] :: l := List.head?_eq_some_iff.1 longest
  rw [head?_run_seq, run_star, if_pos rfl, skips_all all, eq, List.map_cons, List.findSome?_cons_of_isSome]
  · exact last
  · rw [last]
    rfl

/-- A group around a plain expression. -/
theorem head?_group {k : Nat} (plain : a.Plain) : (run subject (.seq (.group k a) b) s).head? = (a.rests s.rest).findSome? fun t =>
    (run subject b ⟨t, Function.update s.groups k (some (upTo s.rest t))⟩).head? := by
  rw [head?_run_seq, run_group, run_plain plain, List.map_map, List.findSome?_map]
  rfl

/-! ## Texts in pieces -/

/-- No class accepts `c`, and nothing tells a `c` that follows from the end of the text. -/
def StopsAt (c : α) : Regex α → Prop
  | empty => True
  | char p | star _ p => p c = false
  | seq a b | alt a b => a.StopsAt c ∧ b.StopsAt c
  | group _ a | ahead a => a.StopsAt c
  | behind _ => False
  | next p => p (some c) = p none

theorem upTo_append_right (x t y : List α) (part : t <:+ x) : upTo (x ++ y) (t ++ y) = upTo x t := by
  obtain ⟨w, rfl⟩ := part
  rw [List.append_assoc, upTo_append, upTo_append]

/-- Before `c` the expression matches as if the text ended there. -/
theorem run_stopsAt (stops : r.StopsAt c) (groups : Nat → Option (List α)) :
    run subject r ⟨x ++ c :: y, groups⟩ = (run subject' r ⟨x, groups⟩).map fun t => ⟨t.rest ++ c :: y, t.groups⟩ := by
  induction r generalizing x groups with
  | empty => rfl
  | char p =>
    cases x with
    | nil =>
      have refused : p c = false := stops
      simp [run, refused]
    | cons d x =>
      unfold run
      dsimp only [List.cons_append]
      split <;> rfl
  | seq a b iha ihb =>
    rw [run_seq, run_seq, iha stops.1, List.flatMap_map, List.map_flatMap]
    congr 1
    funext t
    exact ihb stops.2 t.groups
  | alt a b iha ihb => rw [run_alt, run_alt, iha stops.1, ihb stops.2, List.map_append]
  | star greedy p =>
    rw [run_star, run_star, skips_append stops, List.map_map]
    cases greedy with
    | true => rw [if_pos rfl, if_pos rfl, ← List.map_reverse, List.map_map]; rfl
    | false => rw [if_neg Bool.false_ne_true, if_neg Bool.false_ne_true, List.map_map]; rfl
  | group k a ih =>
    rw [run_group, run_group, ih stops, List.map_map, List.map_map]
    refine List.map_congr_left fun t mem => ?_
    have part : t.rest <:+ x := run_suffix mem
    simp only [Function.comp_apply, upTo_append_right x t.rest (c :: y) part]
  | ahead a ih =>
    rw [run_ahead, run_ahead, ih stops, List.head?_map]
    cases (run subject' a ⟨x, groups⟩).head? <;> rfl
  | behind p => exact stops.elim
  | next p =>
    have blind : p (x ++ c :: y).head? = p x.head? := by
      cases x with
      | nil => exact stops
      | cons d x => rfl
    unfold run
    rw [blind]
    cases p x.head? <;> rfl

theorem previous_append (x y : List α) : previous (x ++ y) y = x.getLast? := by
  rw [previous, List.length_append, Nat.add_sub_cancel, List.take_left]

/-! ## Finding -/

theorem findSome?_congr {β : Type} {f g : List α → Option β} {l : List (List α)} (same : ∀ t ∈ l, f t = g t) :
    l.findSome? f = l.findSome? g := by
  induction l with
  | nil => rfl
  | cons t l ih =>
    rw [List.findSome?_cons, List.findSome?_cons, same t List.mem_cons_self, ih fun u mem => same u (List.mem_cons_of_mem t mem)]

/-- A search is the match at the first end of the text that has one. -/
theorem findFrom_eq : r.findFrom subject x =
    x.tails.findSome? fun t => (r.first subject t).map fun s => ⟨x.length - t.length, upTo t s.rest, s.rest⟩ := by
  induction x with
  | nil =>
    simp [findFrom, upTo]
  | cons c x ih =>
    rw [findFrom, List.tails_cons, List.findSome?_cons]
    cases r.first subject (c :: x) with
    | some s => simp
    | none =>
      dsimp only [Option.map_none]
      rw [ih, List.map_findSome?]
      refine findSome?_congr fun t mem => ?_
      have shorter : t.length ≤ x.length := ((List.mem_tails t x).1 mem).length_le
      rw [Function.comp_apply, Option.map_map]
      congr 1
      funext s
      simp only [Function.comp_apply, List.length_cons, Found.mk.injEq, and_true]
      omega

/-- A search for a plain expression. -/
theorem findFrom_plain (plain : r.Plain) : r.findFrom subject x =
    x.tails.findSome? fun t => (r.rests t).head?.map fun u => ⟨x.length - t.length, upTo t u, u⟩ := by
  rw [findFrom_eq]
  congr 1
  funext t
  rw [first_plain plain, Option.map_map]
  rfl

theorem find_here (plain : r.Plain) (here : (r.rests x).head? = some y) : r.find x = some ⟨0, upTo x y, y⟩ := by
  have tails : ∃ l, x.tails = x :: l := by cases x <;> exact ⟨_, rfl⟩
  obtain ⟨l, eq⟩ := tails
  rw [find, findFrom_plain plain, eq, List.findSome?_cons_of_isSome, here]
  · simp
  · rw [here]
    rfl

theorem find_nil (plain : r.Plain) (none_here : r.rests [] = []) : r.find [] = none := by
  rw [find, findFrom, first_plain plain, none_here]
  rfl

theorem find_cons (plain : r.Plain) (none_here : r.rests (c :: x) = []) :
    r.find (c :: x) = (r.find x).map fun f => { f with skipped := f.skipped + 1 } := by
  rw [find, findFrom, first_plain plain, none_here, List.head?_nil, Option.map_none, findFrom_plain plain, find, findFrom_plain plain]

theorem isSome_find (plain : r.Plain) : (r.find x).isSome ↔ ∃ t, t <:+ x ∧ r.rests t ≠ [] := by
  rw [find, findFrom_plain plain, List.findSome?_isSome_iff]
  simp only [List.mem_tails, Option.isSome_map, List.isSome_head?, ne_eq]

/-- Where no match is empty, a search leaves less. -/
theorem find_shorter {f : Found α} (plain : r.Plain) (taken : ∀ x y, y ∈ r.rests x → y.length < x.length) (h : r.find x = some f) :
    f.rest.length < x.length := by
  rw [find, findFrom_plain plain] at h
  obtain ⟨t, tail, found⟩ := List.exists_of_findSome?_eq_some h
  obtain ⟨u, here, rfl⟩ := Option.map_eq_some_iff.1 found
  have less : u.length < t.length := taken t u (List.mem_of_mem_head? here)
  exact less.trans_le ((List.mem_tails t x).1 tail).length_le

/-! ## Finding all -/

theorem findAllFrom_skip (w x : List α) : r.findAllFrom subject w.length (w ++ x) = r.findAllFrom subject 0 x := by
  induction w with
  | nil => rfl
  | cons c w ih =>
    rw [List.length_cons, List.cons_append, findAllFrom]
    exact ih

theorem findAllFrom_none (h : r.first subject (c :: x) = none) : r.findAllFrom subject 0 (c :: x) = r.findAllFrom subject 0 x := by
  rw [findAllFrom, h]

theorem findAllFrom_some (h : r.first subject x = some s) (some_taken : s.rest ≠ x) :
    r.findAllFrom subject 0 x = s.groups :: r.findAllFrom subject 0 s.rest := by
  have part := first_suffix h
  cases x with
  | nil => exact absurd (List.suffix_nil.1 part) some_taken
  | cons c x =>
    obtain ⟨w, rfl⟩ := (List.suffix_cons_iff.1 part).resolve_left some_taken
    rw [findAllFrom, h]
    dsimp only
    rw [List.length_append, Nat.add_sub_cancel, findAllFrom_skip]

theorem findAllFrom_eq_nil : r.findAllFrom subject 0 x = [] ↔ ∀ t, t <:+ x → r.first subject t = none := by
  induction x with
  | nil =>
    simp only [findAllFrom, if_true, List.suffix_nil, forall_eq]
    cases r.first subject [] <;> simp
  | cons c x ih =>
    cases here : r.first subject (c :: x) with
    | some s =>
      simp only [findAllFrom, here]
      refine iff_of_false (List.cons_ne_nil _ _) fun none_there => ?_
      rw [none_there _ List.suffix_rfl] at here
      cases here
    | none =>
      rw [findAllFrom_none here, ih]
      simp only [List.suffix_cons_iff, forall_eq_or_imp, here, true_and]

end Regex

end ProxyBroker.Lib
