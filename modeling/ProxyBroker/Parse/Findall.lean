import Mathlib.Data.List.DropRight
import ProxyBroker.Parse

/-!
# The scanners and the expressions they replace (`parse.rs`, `tests/ip_scan.rs`)

`pythonLine` and `pythonGlobal` are the expressions that the scanners are to reproduce. Where nothing follows an address,
a backtracking match gives up digits of the last octet, one or two, and finds them again as a port or as the start of an
address; the scanners keep the address they have. `Settled` says that this cannot happen, and
`scanners_agree_iff` that a scanner agrees with its expression exactly when all addresses it comes upon are settled.
-/

namespace ProxyBroker.Parse
open Lib

variable (d : DigitClass)

/-! ## The expressions -/

/-- `.` without `DOTALL`. -/
def notFeed (c : Char) : Bool := c != '\n'

/-- `^` looks back at this and `$` ahead, under `MULTILINE`. -/
def boundary : Option Char → Bool
  | none => true
  | some c => c == '\n'

/-- `.*?(IP).*?(\d{2,5}).*$`. -/
def lineBody : Regex Char :=
  .seq (.star false notFeed) (.seq (.group 1 (ipv4 d)) (.seq (.star false notFeed) (.seq (.group 2 (portRe d))
    (.seq (.star true notFeed) (.next boundary)))))

/-- `IPPortPatternLine`: `^.*?(IP).*?(\d{2,5}).*$` with `MULTILINE`. -/
def pythonLine : Regex Char := .seq (.behind boundary) (lineBody d)

/-- `IPPortPatternGlobal`: `(IP)(?=.*?(?:IP|(\d{2,5})))` with `DOTALL`. -/
def pythonGlobal : Regex Char :=
  .seq (.group 1 (ipv4 d)) (.ahead (.seq (.star false fun _ => true) (.alt (ipv4 d) (.group 2 (portRe d)))))

/-- The two groups of a match; one that is not set is empty. -/
def pair (groups : Nat → Option Text) : Text × Text := ((groups 1).getD [], (groups 2).getD [])

/-- Python's `findall`. -/
def findall (r : Regex Char) (text : Text) : List (Text × Text) := (r.findAll text).map pair

/-- What the lookahead of `pythonGlobal` searches for. -/
def token : Regex Char := .alt (ipv4 d) (portRe d)

/-! ## The condition -/

/-- What follows the last dot. -/
def lastOctet (ip : Text) : Text := ip.rtakeWhile (· ≠ '.')

/-- An address that is followed by a token, or whose last octet cannot give one up: it has one digit, or it has two and
no token starts at the second of them. -/
def Settled (token : Regex Char) (ip rest : Text) : Prop :=
  (token.find rest).isSome ∨ (lastOctet ip).length = 1 ∨ ∃ a b, lastOctet ip = [a, b] ∧ token.rests (b :: rest) = []

/-- The searches for addresses, each from the end of the last, come upon `ip` with `rest` after it. -/
inductive Scanned : Text → Text → Text → Prop
  | here {text : Text} {ip : Found Char} : (ipv4 d).find text = some ip → Scanned text ip.matched ip.rest
  | later {text m r : Text} {ip : Found Char} : (ipv4 d).find text = some ip → Scanned ip.rest m r → Scanned text m r

section Backtracking

variable {d} {x y t u v r rest : Text} {tok : Regex Char} {n : Nat}

/-! ## Addresses that start later -/

theorem dots_step {w w' x' y' : Text} (has : ∀ c ∈ w, d.has c) (has' : ∀ c ∈ w', d.has c) (some_taken : w' ≠ [])
    (part : w' ++ '.' :: y' <:+ w ++ '.' :: x') : y' = x' ∨ w' ++ '.' :: y' <:+ x' := by
  obtain ⟨z, eq⟩ := part
  rcases List.append_eq_append_iff.1 eq.symm with ⟨a, rfl, tail⟩ | ⟨a, rfl, tail⟩
  · -- the later start lies behind the dot
    rcases a with _ | ⟨c, a⟩
    · obtain ⟨b, w', rfl⟩ := List.exists_cons_of_ne_nil some_taken
      have dot : d.has b := has' b List.mem_cons_self
      rw [← (List.cons.inj tail).1, not_has_dot] at dot
      cases dot
    · exact Or.inr ⟨a, ((List.cons.inj tail).2).symm⟩
  · have digits : ∀ c ∈ a, d.has c := fun c mem => has c (List.mem_append_right z mem)
    exact Or.inl ((digits_dot_inj has' digits).1 tail).2

/-- With one dot more, and starting later, one comes past a dot. -/
theorem Dots.past (dots : Dots d n x u) (part : y <:+ x) (more : Dots d (n + 1) y v) : ∃ m, u = m ++ '.' :: v := by
  induction dots generalizing y with
  | zero u =>
    cases more with
    | @succ _ w' _ _ some_taken has' later =>
      cases later
      obtain ⟨z, rfl⟩ := part
      exact ⟨z ++ w', (List.append_assoc z w' _).symm⟩
  | succ some_taken has later ih =>
    cases more with
    | @succ _ w' y' _ some_taken' has' later' =>
      have inside : y' <:+ w' ++ '.' :: y' := ⟨w' ++ ['.'], by simp⟩
      rcases dots_step has has' some_taken' part with rfl | part'
      · exact ih List.suffix_rfl later'
      · exact ih (inside.trans part') later'

/-- An address that starts later has its last octet at the same place, or behind the next dot. -/
theorem Dots.later (dots : Dots d (n + 1) x u) (part : y <:+ x) (dots' : Dots d (n + 1) y v) : v = u ∨ ∃ m, u = m ++ '.' :: v := by
  cases dots with
  | succ some_taken has later =>
    cases dots' with
    | succ some_taken' has' later' =>
      rcases dots_step has has' some_taken' part with rfl | part'
      · exact Or.inl (later'.unique later)
      · exact Or.inr (later.past part' (.succ some_taken' has' later'))

theorem find_mono (plain : tok.Plain) (part : y <:+ x) (found : (tok.find y).isSome) : (tok.find x).isSome := by
  obtain ⟨t, inside, there⟩ := (Regex.isSome_find plain).1 found
  exact (Regex.isSome_find plain).2 ⟨t, inside.trans part, there⟩

/-- The address that is found leaves the most: one that starts later leaves what a shorter match leaves, or less than
the match. -/
theorem ipv4_later (head : ((ipv4 d).rests x).head? = some rest) (part : t <:+ x) (mem : r ∈ (ipv4 d).rests t) :
    r ∈ (ipv4 d).rests x ∨ r <:+ rest := by
  obtain ⟨u, dots, last, ends⟩ := ipv4_ends head
  obtain ⟨first, head'⟩ := Regex.exists_first mem
  obtain ⟨v, dots', -, ends'⟩ := ipv4_ends head'
  rcases dots.later part dots' with rfl | ⟨m, past⟩
  · exact Or.inl ((ends r).2 ((ends' r).1 mem))
  · right
    obtain ⟨w, rfl, has, -⟩ := octet_ends last
    obtain ⟨w', rfl, -, -⟩ := octet_taken ((ends' r).1 mem)
    rcases List.append_eq_append_iff.1 past with ⟨a, rfl, eq⟩ | ⟨a, rfl, eq⟩
    · exact ⟨a ++ '.' :: w', by rw [eq]; simp⟩
    · rcases a with _ | ⟨c, a⟩
      · exact ⟨'.' :: w', eq⟩
      · have dot : d.has c := has c (by simp)
        rw [← (List.cons.inj eq).1, not_has_dot] at dot
        cases dot

/-! ## Giving up digits -/

theorem Dots.last (dots : Dots d (n + 1) x u) : ∃ p, x = p ++ '.' :: u := by
  induction n generalizing x with
  | zero =>
    cases dots with
    | @succ _ w _ _ _ _ later =>
      cases later
      exact ⟨w, rfl⟩
  | succ n ih =>
    cases dots with
    | @succ _ w x' _ _ _ later =>
      obtain ⟨p, rfl⟩ := ih later
      exact ⟨w ++ '.' :: p, by simp⟩

theorem lastOctet_append {p w : Text} (has : ∀ c ∈ w, d.has c) : lastOctet (p ++ '.' :: w) = w := by
  have digits : ∀ c ∈ w.reverse, decide (c ≠ '.') = true := by
    intro c mem
    apply decide_eq_true
    rintro rfl
    have dot : d.has '.' := has '.' (List.mem_reverse.1 mem)
    rw [not_has_dot] at dot
    cases dot
  rw [lastOctet, List.rtakeWhile, List.reverse_append, List.reverse_cons, List.append_assoc, List.takeWhile_append_of_pos digits,
    List.singleton_append, List.takeWhile_cons_of_neg (by simp), List.append_nil, List.reverse_reverse]

/-- The address that is found, cut at its last dot; another match at its start gives up digits behind it. -/
theorem ipv4_parts (head : ((ipv4 d).rests x).head? = some rest) : ∃ p w, x = p ++ '.' :: (w ++ rest) ∧ w ≠ [] ∧ (∀ c ∈ w, d.has c) ∧
    w.length ≤ 3 ∧ ∀ t, t ∈ (ipv4 d).rests x ↔ ∃ v z, w = v ++ z ∧ v ≠ [] ∧ t = z ++ rest := by
  obtain ⟨u, dots, last, ends⟩ := ipv4_ends head
  obtain ⟨w, rfl, has, short, fewer⟩ := octet_ends last
  obtain ⟨p, rfl⟩ := dots.last
  obtain ⟨v, z, cut, some_taken, -⟩ := (fewer rest).1 (List.mem_of_mem_head? last)
  refine ⟨p, w, rfl, ?_, has, short, fun t => (ends t).trans (fewer t)⟩
  rw [cut]
  exact List.append_ne_nil_of_left_ne_nil some_taken z

/-- Giving up digits helps unless there is one alone, or two and no token starts at the second. -/
theorem given_up_iff {w : Text} (plain : tok.Plain) (pairs : ∀ a b x, d.has a → d.has b → tok.rests (a :: b :: x) ≠ [])
    (nothing : tok.find rest = none) (some_taken : w ≠ []) (has : ∀ c ∈ w, d.has c) (short : w.length ≤ 3) :
    (∀ v z, w = v ++ z → v ≠ [] → tok.find (z ++ rest) = none) ↔ w.length = 1 ∨ ∃ a b, w = [a, b] ∧ tok.rests (b :: rest) = [] := by
  rcases w with _ | ⟨a, _ | ⟨b, _ | ⟨c, _ | ⟨e, w⟩⟩⟩⟩
  · exact absurd rfl some_taken
  · refine iff_of_true ?_ (Or.inl rfl)
    intro v z cut some_left
    obtain ⟨_, -, tail⟩ := (List.cons_eq_append_iff.1 cut).resolve_left fun h => some_left h.1
    rw [(List.append_eq_nil_iff.1 tail.symm).2]
    exact nothing
  · have second : tok.find (b :: rest) = none ↔ tok.rests (b :: rest) = [] := by
      constructor
      · intro none_there
        by_contra there
        have found := (Regex.isSome_find plain).2 ⟨b :: rest, List.suffix_rfl, there⟩
        rw [none_there] at found
        cases found
      · intro none_here
        rw [Regex.find_cons plain none_here, nothing]
        rfl
    constructor
    · intro none_there
      exact Or.inr ⟨a, b, rfl, second.1 (none_there [a] [b] rfl (by simp))⟩
    · rintro (one | ⟨a', b', eq, none_here⟩) v z cut some_left
      · cases one
      · obtain ⟨-, rfl⟩ : a = a' ∧ b = b' := by simpa using eq
        obtain ⟨_, -, tail⟩ := (List.cons_eq_append_iff.1 cut).resolve_left fun h => some_left h.1
        rcases List.cons_eq_append_iff.1 tail with ⟨-, whole⟩ | ⟨_, -, tail⟩
        · rw [whole]
          exact second.2 none_here
        · rw [(List.append_eq_nil_iff.1 tail.symm).2]
          exact nothing
  · refine iff_of_false ?_ ?_
    · intro none_there
      have two : d.has b := has b (by simp)
      have three : d.has c := has c (by simp)
      have found := (Regex.isSome_find plain).2 ⟨b :: c :: rest, List.suffix_rfl, pairs b c rest two three⟩
      have none_here : tok.find (b :: c :: rest) = none := none_there [a] [b, c] rfl (by simp)
      rw [none_here] at found
      cases found
    · rintro (one | ⟨a', b', eq, -⟩)
      · cases one
      · cases eq
  · simp only [List.length_cons] at short
    omega

/-- Where nothing follows an address, no other match at its start or later is followed by anything exactly when the
address is settled. -/
theorem settled_iff (plain : tok.Plain) (pairs : ∀ a b x, d.has a → d.has b → tok.rests (a :: b :: x) ≠ [])
    (head : ((ipv4 d).rests x).head? = some rest) (nothing : tok.find rest = none) :
    (∀ t, t <:+ x → ∀ r ∈ (ipv4 d).rests t, tok.find r = none) ↔ Settled tok (Regex.upTo x rest) rest := by
  obtain ⟨p, w, rfl, some_taken, has, short, ends⟩ := ipv4_parts head
  have matched : Regex.upTo (p ++ '.' :: (w ++ rest)) rest = p ++ '.' :: w := by
    rw [← List.cons_append, ← List.append_assoc, Regex.upTo_append]
  rw [matched, Settled, lastOctet_append has, nothing, ← given_up_iff plain pairs nothing some_taken has short]
  constructor
  · intro none_there
    exact Or.inr fun v z cut some_left => none_there _ List.suffix_rfl _ ((ends _).2 ⟨v, z, cut, some_left, rfl⟩)
  · rintro (found | none_there) t part r mem
    · cases found
    · rcases ipv4_later head part mem with same | less
      · obtain ⟨v, z, cut, some_left, rfl⟩ := (ends r).1 same
        exact none_there v z cut some_left
      · by_contra found
        have more := find_mono plain less (Option.ne_none_iff_isSome.1 found)
        rw [nothing] at more
        cases more

/-! ## A line -/

/-- What the line expression takes from a line: of the places in order, and of the matches there in order of
backtracking, the first address that a port follows. -/
def lineMatch (d : DigitClass) (line : Text) : Option (Text × Text) :=
  line.tails.findSome? fun t => ((ipv4 d).rests t).findSome? fun r =>
    ((portRe d).find r).map fun port => (Regex.upTo t r, port.matched)

/-- The groups of a pair. -/
def groupsOf (p : Text × Text) : Nat → Option Text :=
  Function.update (Function.update (fun _ => none) 1 (some p.1)) 2 (some p.2)

theorem pair_groupsOf (p : Text × Text) : pair (groupsOf p) = p := by simp [pair, groupsOf]

/-- Where every element gives a result, the first one does. -/
theorem findSome?_some {β : Type} {f : Text → Option β} {g : Text → β} {l : List Text} (all : ∀ t ∈ l, f t = some (g t)) :
    l.findSome? f = l.head?.map g := by
  cases l with
  | nil => rfl
  | cons t l =>
    rw [List.findSome?_cons, all t List.mem_cons_self]
    rfl

theorem head?_lineBody {line subject : Text} (clean : '\n' ∉ line) :
    (Regex.run subject (lineBody d) ⟨line, fun _ => none⟩).head? = (lineMatch d line).map fun p => ⟨[], groupsOf p⟩ := by
  have inside {t : Text} (part : t <:+ line) : ∀ c ∈ t, notFeed c := by
    intro c mem
    rw [notFeed, bne_iff_ne]
    rintro rfl
    exact clean (part.subset mem)
  have port {u : Text} (part : u <:+ line) (groups : Nat → Option Text) :
      (Regex.run subject (.seq (.group 2 (portRe d)) (.seq (.star true notFeed) (.next boundary))) ⟨u, groups⟩).head? =
        ((portRe d).rests u).head?.map fun v => ⟨[], Function.update groups 2 (some (Regex.upTo u v))⟩ := by
    rw [Regex.head?_group (plain_portRe d)]
    refine findSome?_some fun v mem => ?_
    have all : ∀ c ∈ v, notFeed c := inside ((Regex.rests_suffix mem).trans part)
    exact Regex.head?_greedy all rfl
  rw [lineBody, Regex.head?_lazy, Regex.skips_all (inside List.suffix_rfl), lineMatch, List.map_findSome?]
  refine Regex.findSome?_congr fun t tail => ?_
  have at_t : t <:+ line := (List.mem_tails t line).1 tail
  rw [Regex.head?_group (plain_ipv4 d), Function.comp_apply, List.map_findSome?]
  refine Regex.findSome?_congr fun r mem => ?_
  have at_r : r <:+ line := (Regex.rests_suffix mem).trans at_t
  rw [Regex.head?_lazy, Regex.skips_all (inside at_r), Function.comp_apply, Regex.find, Regex.findFrom_plain (plain_portRe d),
    Option.map_map, List.map_findSome?]
  refine Regex.findSome?_congr fun u tail => ?_
  rw [port (((List.mem_tails u r).1 tail).trans at_r), Function.comp_apply, Option.map_map]
  rfl

theorem portRe_pair (a b : Char) (x : Text) (one : d.has a) (two : d.has b) : (portRe d).rests (a :: b :: x) ≠ [] := by
  simp [portRe, Regex.times, Regex.atMost, Regex.rests_seq, Regex.rests_opt, digit, one, two]

theorem ipv4_nil : (ipv4 d).rests [] = [] := by
  cases head : ((ipv4 d).rests []).head? with
  | none => exact List.head?_eq_none_iff.1 head
  | some y => exact absurd (ipv4_shorter [] y (List.mem_of_mem_head? head)) (Nat.not_lt_zero _)

theorem lineMatch_eq_none : lineMatch d x = none ↔ ∀ t, t <:+ x → ∀ r ∈ (ipv4 d).rests t, (portRe d).find r = none := by
  simp only [lineMatch, List.findSome?_eq_none_iff, List.mem_tails, Option.map_eq_none_iff]

/-- The scanner takes from a line what the expression takes, or nothing because nothing follows the address; then the
expression takes nothing exactly when the address is settled. -/
theorem lineMatch_cases (line : Text) : ((ipv4 d).find line = none ∧ lineMatch d line = none) ∨
    ∃ ip, (ipv4 d).find line = some ip ∧
      ((∃ port, (portRe d).find ip.rest = some port ∧ lineMatch d line = some (ip.matched, port.matched)) ∨
        (portRe d).find ip.rest = none ∧ (lineMatch d line = none ↔ Settled (portRe d) ip.matched ip.rest)) := by
  induction line with
  | nil => exact Or.inl ⟨Regex.find_nil (plain_ipv4 d) ipv4_nil, by simp [lineMatch, ipv4_nil]⟩
  | cons c x ih =>
    cases head : ((ipv4 d).rests (c :: x)).head? with
    | none =>
      have none_here := List.head?_eq_none_iff.1 head
      have same : lineMatch d (c :: x) = lineMatch d x := by
        rw [lineMatch, List.tails_cons, List.findSome?_cons, none_here]
        rfl
      rw [Regex.find_cons (plain_ipv4 d) none_here, same]
      rcases ih with ⟨nowhere, nothing⟩ | ⟨ip, found, cases⟩
      · exact Or.inl ⟨by rw [nowhere]; rfl, nothing⟩
      · exact Or.inr ⟨{ ip with skipped := ip.skipped + 1 }, by rw [found]; rfl, cases⟩
    | some rest =>
      refine Or.inr ⟨_, Regex.find_here (plain_ipv4 d) head, ?_⟩
      cases follows : (portRe d).find rest with
      | some port =>
        refine Or.inl ⟨port, rfl, ?_⟩
        obtain ⟨others, eq⟩ := List.head?_eq_some_iff.1 head
        rw [lineMatch, List.tails_cons, List.findSome?_cons, eq, List.findSome?_cons, follows]
        rfl
      | none =>
        refine Or.inr ⟨rfl, ?_⟩
        rw [lineMatch_eq_none]
        exact settled_iff (plain_portRe d) portRe_pair head follows

theorem scanLine_le (line : Text) : scanLine d line = none ∨ scanLine d line = lineMatch d line := by
  rcases lineMatch_cases (d := d) line with ⟨nowhere, -⟩ | ⟨ip, found, ⟨port, follows, taken⟩ | ⟨nothing, -⟩⟩
  · exact Or.inl (by rw [scanLine, nowhere]; rfl)
  · exact Or.inr (by rw [scanLine, found, taken, Option.bind_eq_bind, Option.bind_some, follows]; rfl)
  · exact Or.inl (by rw [scanLine, found, Option.bind_eq_bind, Option.bind_some, nothing]; rfl)

theorem scanLine_eq_iff (line : Text) :
    scanLine d line = lineMatch d line ↔ ∀ ip, (ipv4 d).find line = some ip → Settled (portRe d) ip.matched ip.rest := by
  rcases lineMatch_cases (d := d) line with ⟨nowhere, nothing⟩ | ⟨ip, found, ⟨port, follows, taken⟩ | ⟨nothing, settled⟩⟩
  · rw [scanLine, nowhere, nothing]
    exact iff_of_true rfl fun _ found => nomatch found
  · rw [scanLine, found, taken, Option.bind_eq_bind, Option.bind_some, follows]
    refine iff_of_true rfl fun f same => ?_
    obtain rfl := Option.some.inj same
    exact Or.inl (by rw [follows]; rfl)
  · have none_taken : scanLine d line = none := by
      rw [scanLine, found, Option.bind_eq_bind, Option.bind_some, nothing]
      rfl
    rw [none_taken, eq_comm, settled, found]
    simp only [Option.some.injEq, forall_eq']

/-! ## All lines -/

theorem stopsAt_octet : (octet d).StopsAt '\n' := by
  have feed : d.has '\n' = false := d.ascii '\n' (by decide)
  simp [octet, literal, between, digit, Regex.opt, Regex.StopsAt, feed]

theorem stopsAt_lineBody : (lineBody d).StopsAt '\n' := by
  have feed : d.has '\n' = false := d.ascii '\n' (by decide)
  have dot : (literal '.').StopsAt '\n' := by simp [literal, Regex.StopsAt]
  have ip : (ipv4 d).StopsAt '\n' := by simp [ipv4, Regex.times, Regex.StopsAt, stopsAt_octet, dot]
  have port : (portRe d).StopsAt '\n' := by simp [portRe, Regex.times, Regex.atMost, Regex.opt, digit, Regex.StopsAt, feed]
  exact ⟨rfl, ip, rfl, port, rfl, rfl⟩

variable {subject pre q z : Text}

/-- Within a line the line expression matches nowhere. -/
theorem first_inside (whole : subject = pre ++ x) (inside : ∃ c ∈ pre.getLast?, c ≠ '\n') : (pythonLine d).first subject x = none := by
  obtain ⟨c, last, other⟩ := inside
  have passed : boundary (Regex.previous subject x) = false := by
    rw [whole, Regex.previous_append, last, boundary]
    exact beq_eq_false_iff_ne.2 other
  rw [Regex.first, pythonLine, Regex.head?_run_seq, Regex.run, if_neg (by rw [passed]; decide)]
  rfl

/-- At the start of a line it matches what `lineMatch` says, to the end of the line. -/
theorem first_start (whole : subject = pre ++ x) (start : boundary pre.getLast?) {line after : Text} (clean : '\n' ∉ line)
    (eq : x = line ++ after) (ends : after = [] ∨ ∃ y, after = '\n' :: y) :
    (pythonLine d).first subject x = (lineMatch d line).map fun p => ⟨after, groupsOf p⟩ := by
  have here : boundary (Regex.previous subject x) := by rw [whole, Regex.previous_append]; exact start
  rw [Regex.first, pythonLine, Regex.head?_run_seq, Regex.run, if_pos here, List.findSome?_singleton, eq]
  rcases ends with rfl | ⟨y, rfl⟩
  · rw [List.append_nil]
    exact head?_lineBody clean
  · have body : Regex.run subject (lineBody d) ⟨line ++ '\n' :: y, fun _ => none⟩ =
        (Regex.run line (lineBody d) ⟨line, fun _ => none⟩).map fun t => ⟨t.rest ++ '\n' :: y, t.groups⟩ :=
      Regex.run_stopsAt stopsAt_lineBody _
    rw [body, List.head?_map, head?_lineBody clean, Option.map_map]
    rfl

/-- At the end of the text it matches nowhere. -/
theorem first_end : (pythonLine d).first subject [] = none := by
  have whole : subject = subject ++ [] := (List.append_nil subject).symm
  cases start : boundary subject.getLast? with
  | true =>
    rw [first_start whole start List.not_mem_nil rfl (Or.inl rfl), lineMatch, List.tails, List.findSome?_singleton, ipv4_nil]
    rfl
  | false =>
    cases last : subject.getLast? with
    | none =>
      rw [last] at start
      cases start
    | some c =>
      rw [last] at start
      exact first_inside whole ⟨c, last, beq_eq_false_iff_ne.1 start⟩

/-- The rest of a line is passed, and the line feed after it. -/
theorem findAll_inside {after : Text} (whole : subject = pre ++ (z ++ after)) (inside : ∃ c ∈ pre.getLast?, c ≠ '\n') (clean : '\n' ∉ z) :
    (pythonLine d).findAllFrom subject 0 (z ++ after) = (pythonLine d).findAllFrom subject 0 after.tail := by
  induction z generalizing pre with
  | nil =>
    rcases after with _ | ⟨c, y⟩
    · rfl
    · exact Regex.findAllFrom_none (first_inside whole inside)
  | cons c z ih =>
    have other : c ≠ '\n' := fun same => clean (same ▸ List.mem_cons_self)
    have step : (pythonLine d).findAllFrom subject 0 (c :: (z ++ after)) = (pythonLine d).findAllFrom subject 0 (z ++ after) :=
      Regex.findAllFrom_none (first_inside whole inside)
    rw [List.cons_append, step]
    exact @ih (pre ++ [c]) (by rw [whole]; simp) ⟨c, by simp, other⟩ fun mem => clean (List.mem_cons_of_mem c mem)

/-- One line of the text. -/
theorem findAll_line {line after : Text} (whole : subject = pre ++ (line ++ after)) (start : boundary pre.getLast?)
    (clean : '\n' ∉ line) (ends : after = [] ∨ ∃ y, after = '\n' :: y) :
    (pythonLine d).findAllFrom subject 0 (line ++ after) =
      ((lineMatch d line).map groupsOf).toList ++ (pythonLine d).findAllFrom subject 0 after.tail := by
  have first := first_start (d := d) whole start clean rfl ends
  cases taken : lineMatch d line with
  | some p =>
    rw [taken] at first
    have some_text : line ≠ [] := by
      rintro rfl
      simp [lineMatch, ipv4_nil] at taken
    have shorter : after ≠ line ++ after := fun same => some_text (List.self_eq_append_left.1 same)
    obtain ⟨front, c, rfl⟩ : ∃ front c, line = front ++ [c] := ⟨_, _, (List.dropLast_append_getLast some_text).symm⟩
    have other : c ≠ '\n' := by
      rintro rfl
      exact clean (by simp)
    have passed : subject = (pre ++ (front ++ [c])) ++ ([] ++ after) := by rw [whole]; simp
    have rest : (pythonLine d).findAllFrom subject 0 after = (pythonLine d).findAllFrom subject 0 after.tail :=
      findAll_inside passed ⟨c, by simp, other⟩ (by simp)
    rw [Regex.findAllFrom_some first shorter]
    dsimp only
    rw [rest]
    rfl
  | none =>
    rw [taken] at first
    rw [Option.map_none, Option.toList_none, List.nil_append]
    rcases line with _ | ⟨c, z⟩
    · rcases after with _ | ⟨c, y⟩
      · rfl
      · exact Regex.findAllFrom_none first
    · have other : c ≠ '\n' := fun same => clean (same ▸ List.mem_cons_self)
      have step : (pythonLine d).findAllFrom subject 0 (c :: (z ++ after)) = (pythonLine d).findAllFrom subject 0 (z ++ after) :=
        Regex.findAllFrom_none first
      have passed : subject = (pre ++ [c]) ++ (z ++ after) := by rw [whole]; simp
      rw [List.cons_append, step]
      exact findAll_inside passed ⟨c, by simp, other⟩ fun mem => clean (List.mem_cons_of_mem c mem)

/-- The line expression takes from the lines what `lineMatch` says. -/
theorem findAll_lines (whole : subject = pre ++ x) (start : boundary pre.getLast?) :
    (pythonLine d).findAllFrom subject 0 x = ((splitOn '\n' x).filterMap (lineMatch d)).map groupsOf := by
  generalize length : x.length = n
  induction n using Nat.strongRecOn generalizing pre x with
  | ind n ih =>
    rcases splitOnce_cases '\n' x with ⟨-, clean⟩ | ⟨line, y, -, rfl, clean⟩
    · have line : (pythonLine d).findAllFrom subject 0 (x ++ []) =
          ((lineMatch d x).map groupsOf).toList ++ (pythonLine d).findAllFrom subject 0 [] :=
        findAll_line (by rw [whole, List.append_nil]) start clean (Or.inl rfl)
      have at_end : (pythonLine d).findAllFrom subject 0 [] = [] :=
        Regex.findAllFrom_eq_nil.2 fun t part => by rw [List.suffix_nil.1 part]; exact first_end
      rw [List.append_nil, at_end, List.append_nil] at line
      rw [line, splitOn_clean clean, List.filterMap_cons]
      cases lineMatch d x <;> rfl
    · have shorter : y.length < n := by
        rw [← length, List.length_append, List.length_cons]
        omega
      have passed : subject = (pre ++ (line ++ ['\n'])) ++ y := by rw [whole]; simp
      have rest := ih y.length shorter passed (by simp [boundary]) rfl
      rw [findAll_line whole start clean (Or.inr ⟨y, rfl⟩), List.tail_cons, rest, splitOn_append clean, List.filterMap_cons]
      cases lineMatch d line <;> rfl

theorem findall_pythonLine (text : Text) : findall (pythonLine d) text = (splitOn '\n' text).filterMap (lineMatch d) := by
  have whole : text = [] ++ text := rfl
  rw [findall, Regex.findAll, findAll_lines whole rfl, List.map_map]
  exact (List.map_congr_left fun p _ => pair_groupsOf p).trans (List.map_id _)

/-- Where each result is dropped or the same, the results agree when each of them does. -/
theorem filterMap_eq_iff {α β : Type} {f g : α → Option β} {l : List α} (le : ∀ a, f a = none ∨ f a = g a) :
    l.filterMap f = l.filterMap g ↔ ∀ a ∈ l, f a = g a := by
  have shorter (l : List α) : (l.filterMap f).length ≤ (l.filterMap g).length := by
    induction l with
    | nil => exact le_rfl
    | cons a l ih =>
      rw [List.filterMap_cons, List.filterMap_cons]
      rcases le a with dropped | same
      · rw [dropped]
        cases g a with
        | none => exact ih
        | some b => exact ih.trans (Nat.le_succ _)
      · rw [same]
        cases g a with
        | none => exact ih
        | some b => exact Nat.succ_le_succ ih
  induction l with
  | nil => simp
  | cons a l ih =>
    rw [List.forall_mem_cons, List.filterMap_cons, List.filterMap_cons]
    rcases le a with dropped | same
    · rw [dropped]
      cases taken : g a with
      | none => simpa using ih
      | some b =>
        refine iff_of_false ?_ fun h => nomatch h.1
        intro same
        have lengths : (l.filterMap f).length = (l.filterMap g).length + 1 := congrArg List.length same
        have bound := shorter l
        omega
    · rw [same]
      cases g a with
      | none => simpa using ih
      | some b => simpa using ih

theorem findAddrsLine_eq_iff (text : Text) : findAddrsLine d text = findall (pythonLine d) text ↔
    ∀ line ∈ splitOn '\n' text, ∀ ip, (ipv4 d).find line = some ip → Settled (portRe d) ip.matched ip.rest := by
  rw [findall_pythonLine, findAddrsLine, filterMap_eq_iff scanLine_le]
  simp only [scanLine_eq_iff]

/-! ## The whole text -/

/-- The lookahead, place by place. -/
theorem nextPort_eq (after : Text) : nextPort d after = after.tails.findSome? fun u =>
    if (ipv4 d).rests u ≠ [] then some [] else ((portRe d).rests u).head?.map fun v => Regex.upTo u v := by
  induction after with
  | nil =>
    have no_port : (portRe d).rests [] = [] := by simp [portRe, Regex.times, digit, Regex.rests_seq]
    rw [nextPort, Regex.find_nil (plain_portRe d) no_port, Regex.find_nil (plain_ipv4 d) ipv4_nil, List.tails, List.findSome?_singleton,
      if_neg (not_not.2 ipv4_nil), no_port]
    rfl
  | cons c x ih =>
    rw [List.tails_cons, List.findSome?_cons, nextPort]
    cases ip : ((ipv4 d).rests (c :: x)).head? with
    | some rest =>
      have here : (ipv4 d).rests (c :: x) ≠ [] := List.ne_nil_of_mem (List.mem_of_mem_head? ip)
      rw [Regex.find_here (plain_ipv4 d) ip, if_pos here]
      cases (portRe d).find (c :: x) <;> rfl
    | none =>
      have none_here := List.head?_eq_none_iff.1 ip
      rw [Regex.find_cons (plain_ipv4 d) none_here, if_neg (not_not.2 none_here)]
      cases port : ((portRe d).rests (c :: x)).head? with
      | some rest =>
        rw [Regex.find_here (plain_portRe d) port]
        cases (ipv4 d).find x with
        | none => rfl
        | some ip => exact if_pos (Nat.succ_pos _)
      | none =>
        rw [Regex.find_cons (plain_portRe d) (List.head?_eq_none_iff.1 port), Option.map_none]
        dsimp only
        rw [← ih, nextPort]
        cases (portRe d).find x <;> cases (ipv4 d).find x <;> simp

/-- What the global expression takes at one place. -/
theorem first_global (subject x : Text) : ((pythonGlobal d).first subject x).map (fun t => (t.rest, pair t.groups)) =
    ((ipv4 d).rests x).findSome? fun r => (nextPort d r).map fun port => (r, (Regex.upTo x r, port)) := by
  rw [Regex.first, pythonGlobal, Regex.head?_group (plain_ipv4 d), List.map_findSome?]
  refine Regex.findSome?_congr fun r _ => ?_
  rw [nextPort_eq, Function.comp_apply, Regex.run_ahead, Option.head?_toList, Regex.head?_lazy, Regex.skips_all (fun _ _ => rfl),
    Option.map_map, List.map_findSome?, List.map_findSome?]
  refine Regex.findSome?_congr fun u _ => ?_
  rw [Function.comp_apply, Function.comp_apply, Regex.run_alt, List.head?_append, Regex.run_plain (plain_ipv4 d), List.head?_map]
  cases ip : ((ipv4 d).rests u).head? with
  | some rest =>
    rw [if_pos (List.ne_nil_of_mem (List.mem_of_mem_head? ip))]
    rfl
  | none =>
    rw [if_neg (not_not.2 (List.head?_eq_none_iff.1 ip)), Regex.run_group, Regex.run_plain (plain_portRe d), List.map_map, List.head?_map]
    cases ((portRe d).rests u).head? <;> rfl

theorem plain_token : (token d).Plain := ⟨plain_ipv4 d, plain_portRe d⟩

theorem token_pair (a b : Char) (x : Text) (one : d.has a) (two : d.has b) : (token d).rests (a :: b :: x) ≠ [] := by
  rw [token, Regex.rests_alt]
  exact List.append_ne_nil_of_right_ne_nil _ (portRe_pair a b x one two)

/-- The scanner drops an address exactly where no token follows. -/
theorem nextPort_eq_none (after : Text) : nextPort d after = none ↔ (token d).find after = none := by
  rw [nextPort_eq, List.findSome?_eq_none_iff, ← Option.not_isSome_iff_eq_none, Regex.isSome_find plain_token]
  simp only [List.mem_tails, token, Regex.rests_alt, not_exists, not_and, not_not, List.append_eq_nil_iff]
  refine forall₂_congr fun u _ => ?_
  by_cases ip : (ipv4 d).rests u = []
  · rw [if_neg (not_not.2 ip), Option.map_eq_none_iff, List.head?_eq_none_iff]
    exact (and_iff_right ip).symm
  · rw [if_pos ip]
    exact iff_of_false (fun h => nomatch h) fun h => ip h.1

theorem findAddrsGlobal_none (nowhere : (ipv4 d).find x = none) : findAddrsGlobal d x = [] := by
  rw [findAddrsGlobal]
  split
  · rfl
  · rename_i found
    rw [nowhere] at found
    cases found

theorem findAddrsGlobal_some {ip : Found Char} (found : (ipv4 d).find x = some ip) :
    findAddrsGlobal d x = ((nextPort d ip.rest).map fun port => (ip.matched, port)).toList ++ findAddrsGlobal d ip.rest := by
  rw [findAddrsGlobal]
  split
  · rename_i nowhere
    rw [nowhere] at found
    cases found
  · rename_i ip' found'
    obtain rfl := Option.some.inj (found'.symm.trans found)
    rfl

theorem scanned_iff {ip : Found Char} {m : Text} (found : (ipv4 d).find x = some ip) :
    Scanned d x m r ↔ (m = ip.matched ∧ r = ip.rest) ∨ Scanned d ip.rest m r := by
  constructor
  · intro scanned
    cases scanned with
    | here found' =>
      obtain rfl := Option.some.inj (found'.symm.trans found)
      exact Or.inl ⟨rfl, rfl⟩
    | later found' later =>
      obtain rfl := Option.some.inj (found'.symm.trans found)
      exact Or.inr later
  · rintro (⟨rfl, rfl⟩ | later)
    · exact .here found
    · exact .later found later

theorem not_scanned {m : Text} (nowhere : (ipv4 d).find x = none) : ¬ Scanned d x m r := by
  intro scanned
  cases scanned with
  | here found => rw [nowhere] at found; cases found
  | later found _ => rw [nowhere] at found; cases found

/-- The search passes a character at which no address starts. -/
theorem global_cons {c : Char} (none_here : (ipv4 d).rests (c :: x) = []) :
    findAddrsGlobal d (c :: x) = findAddrsGlobal d x ∧ ∀ m r, Scanned d (c :: x) m r ↔ Scanned d x m r := by
  have moved := Regex.find_cons (plain_ipv4 d) none_here
  cases found : (ipv4 d).find x with
  | none =>
    rw [found] at moved
    exact ⟨(findAddrsGlobal_none moved).trans (findAddrsGlobal_none found).symm,
      fun m r => iff_of_false (not_scanned moved) (not_scanned found)⟩
  | some ip =>
    rw [found] at moved
    exact ⟨(findAddrsGlobal_some moved).trans (findAddrsGlobal_some found).symm,
      fun m r => (scanned_iff moved).trans (scanned_iff found).symm⟩

/-- A place where no address starts is no match of the global expression. -/
theorem first_global_none (subject : Text) (none_here : (ipv4 d).rests x = []) : (pythonGlobal d).first subject x = none := by
  have at_x := first_global (d := d) subject x
  rw [none_here, List.findSome?_nil, Option.map_eq_none_iff] at at_x
  exact at_x

/-- Where a token follows the address at `x`, the expression takes what the scanner takes. -/
theorem findAll_global_some {subject port : Text} (head : ((ipv4 d).rests x).head? = some rest) (follows : nextPort d rest = some port) :
    ((pythonGlobal d).findAllFrom subject 0 x).map pair =
      (Regex.upTo x rest, port) :: ((pythonGlobal d).findAllFrom subject 0 rest).map pair := by
  obtain ⟨others, eq⟩ := List.head?_eq_some_iff.1 head
  have at_x := first_global (d := d) subject x
  rw [eq, List.findSome?_cons, follows, Option.map_some] at at_x
  obtain ⟨s, first, there⟩ := Option.map_eq_some_iff.1 at_x
  obtain ⟨rfl, taken⟩ := Prod.mk.inj there
  have shorter := ipv4_shorter x s.rest (List.mem_of_mem_head? head)
  rw [Regex.findAllFrom_some first (fun same => by rw [same] at shorter; exact Nat.lt_irrefl _ shorter), List.map_cons, taken]

/-- An address that nothing follows is the last one. -/
theorem find_none_of_nextPort {after : Text} (nothing : nextPort d after = none) : (ipv4 d).find after = none := by
  by_contra found
  obtain ⟨t, part, there⟩ := (Regex.isSome_find (plain_ipv4 d)).1 (Option.ne_none_iff_isSome.1 found)
  have either : (token d).rests t ≠ [] := by
    rw [token, Regex.rests_alt]
    exact List.append_ne_nil_of_left_ne_nil there _
  have token_found := (Regex.isSome_find plain_token).2 ⟨t, part, either⟩
  rw [(nextPort_eq_none after).1 nothing] at token_found
  cases token_found

/-- Where nothing follows the address at `x`, the expression takes nothing exactly when the address is settled. -/
theorem findAll_global_last {subject : Text} (head : ((ipv4 d).rests x).head? = some rest) (nothing : nextPort d rest = none) :
    (pythonGlobal d).findAllFrom subject 0 x = [] ↔ Settled (token d) (Regex.upTo x rest) rest := by
  rw [← settled_iff plain_token token_pair head ((nextPort_eq_none rest).1 nothing), Regex.findAllFrom_eq_nil]
  refine forall₂_congr fun t _ => ?_
  have at_t := congrArg (· = none) (first_global (d := d) subject t)
  simp only [Option.map_eq_none_iff, List.findSome?_eq_none_iff, nextPort_eq_none] at at_t
  rw [at_t]

/-- Both lists are equal as long as the addresses are settled, and part at the first that is not. -/
theorem findAll_global (subject x : Text) : ((pythonGlobal d).findAllFrom subject 0 x).map pair = findAddrsGlobal d x ↔
    ∀ m r, Scanned d x m r → Settled (token d) m r := by
  generalize length : x.length = n
  induction n using Nat.strongRecOn generalizing x with
  | ind n ih =>
    cases head : ((ipv4 d).rests x).head? with
    | none =>
      have none_here := List.head?_eq_none_iff.1 head
      have first := first_global_none subject none_here
      rcases x with _ | ⟨c, x⟩
      · have nowhere := Regex.find_nil (plain_ipv4 d) none_here
        have nothing : (pythonGlobal d).findAllFrom subject 0 [] = [] :=
          Regex.findAllFrom_eq_nil.2 fun t part => by rw [List.suffix_nil.1 part]; exact first
        rw [nothing, findAddrsGlobal_none nowhere]
        exact iff_of_true rfl fun m r scanned => absurd scanned (not_scanned nowhere)
      · have shorter : x.length < n := by rw [← length, List.length_cons]; exact Nat.lt_succ_self _
        obtain ⟨code, scanned⟩ := global_cons none_here
        rw [Regex.findAllFrom_none first, code, ih x.length shorter x rfl]
        simp only [scanned]
    | some rest =>
      have found := Regex.find_here (plain_ipv4 d) head
      have shorter := ipv4_shorter x rest (List.mem_of_mem_head? head)
      rw [findAddrsGlobal_some found]
      simp only [scanned_iff found]
      cases follows : nextPort d rest with
      | some port =>
        have settled : Settled (token d) (Regex.upTo x rest) rest := by
          refine Or.inl (Option.ne_none_iff_isSome.1 fun nothing => ?_)
          rw [(nextPort_eq_none rest).2 nothing] at follows
          cases follows
        rw [findAll_global_some head follows, Option.map_some, Option.toList_some, List.singleton_append, List.cons_inj_right,
          ih rest.length (length ▸ shorter) rest rfl]
        constructor
        · rintro others m r (⟨rfl, rfl⟩ | later)
          · exact settled
          · exact others m r later
        · exact fun all m r later => all m r (Or.inr later)
      | none =>
        have nowhere := find_none_of_nextPort follows
        rw [findAddrsGlobal_none nowhere, Option.map_none, Option.toList_none, List.nil_append, List.map_eq_nil_iff,
          findAll_global_last head follows]
        constructor
        · rintro settled m r (⟨rfl, rfl⟩ | later)
          · exact settled
          · exact absurd later (not_scanned nowhere)
        · exact fun all => all _ _ (Or.inl ⟨rfl, rfl⟩)

end Backtracking

/-- **The scanners and their expressions.** `find_addrs_line` agrees with the line expression exactly when the first
address of every line is settled for a port, and `find_addrs_global` with the global expression exactly when every address
it comes upon is settled for a port or an address. -/
theorem scanners_agree_iff (text : Text) :
    (findAddrsLine d text = findall (pythonLine d) text ↔
      ∀ line ∈ splitOn '\n' text, ∀ ip, (ipv4 d).find line = some ip → Settled (portRe d) ip.matched ip.rest) ∧
    (findAddrsGlobal d text = findall (pythonGlobal d) text ↔ ∀ m r, Scanned d text m r → Settled (token d) m r) := by
  constructor
  · exact findAddrsLine_eq_iff text
  · rw [eq_comm, findall, Regex.findAll]
    exact findAll_global text text

theorem scanners_agree_one : findAddrsLine .least "1.2.3.4:80".toList = findall (pythonLine .least) "1.2.3.4:80".toList ∧
    findAddrsGlobal .least "1.2.3.4:80".toList = findall (pythonGlobal .least) "1.2.3.4:80".toList := by
  have found : (ipv4 .least).find "1.2.3.4:80".toList = some ⟨0, "1.2.3.4".toList, ":80".toList⟩ := by decide +kernel
  have nowhere : (ipv4 .least).find ":80".toList = none := by decide +kernel
  have port : ((portRe .least).find ":80".toList).isSome := by decide +kernel
  have either : ((token .least).find ":80".toList).isSome := by decide +kernel
  have clean : '\n' ∉ "1.2.3.4:80".toList := by decide +kernel
  obtain ⟨line, whole⟩ := scanners_agree_iff .least "1.2.3.4:80".toList
  refine ⟨line.2 ?_, whole.2 ?_⟩
  · intro l mem ip there
    rw [splitOn_clean clean] at mem
    rw [List.mem_singleton.1 mem, found] at there
    obtain rfl := Option.some.inj there
    exact Or.inl port
  · intro m r scanned
    rcases (scanned_iff found).1 scanned with ⟨rfl, rfl⟩ | later
    · exact Or.inl either
    · exact absurd later (not_scanned nowhere)

/-- Nothing follows `1.2.3.45` but one digit, and the expressions give up two. -/
theorem last_octet_given_up : findAddrsLine .least "1.2.3.456".toList = [] ∧
    findall (pythonLine .least) "1.2.3.456".toList = [("1.2.3.4".toList, "56".toList)] ∧
    findAddrsGlobal .least "1.2.3.456".toList = [] ∧
    findall (pythonGlobal .least) "1.2.3.456".toList = [("1.2.3.4".toList, "56".toList)] := by
  have found : (ipv4 .least).find "1.2.3.456".toList = some ⟨0, "1.2.3.45".toList, "6".toList⟩ := by decide +kernel
  have nowhere : (ipv4 .least).find "6".toList = none := by decide +kernel
  have port : nextPort .least "6".toList = none := by decide +kernel
  refine ⟨by decide +kernel, by decide +kernel, ?_, by decide +kernel⟩
  rw [findAddrsGlobal_some found, findAddrsGlobal_none nowhere, port]
  rfl

end ProxyBroker.Parse
