import ProxyBroker.Lib.Regex

/-!
# The matches of an expression, one after another

`Regex.findIter` lists what an expression matches, each match from where the last one ends. An expression whose classes
are all inside one class (`Within`) never matches across an element outside of it, so a text between two such elements is
found whenever it is what the expression takes there (`mem_findIter_of_fenced`), whatever the matches before it are.
-/

namespace ProxyBroker.Lib.Regex

variable {α : Type} {r a b : Regex α} {p : α → Bool} {x y t w subject : List α} {c : α}

/-- The matches of `find_iter`. -/
def findIter (r : Regex α) (text : List α) : List (List α) := ((group 0 r).findAll text).filterMap (· 0)

/-- A plain expression with all its classes inside `p`. -/
def Within (p : α → Bool) : Regex α → Prop
  | empty => True
  | char q | star _ q => ∀ c, q c → p c
  | seq a b | alt a b => a.Within p ∧ b.Within p
  | group _ _ | ahead _ | behind _ | next _ => False

theorem Within.plain (within : r.Within p) : r.Plain := by
  induction r with
  | empty => trivial
  | char q => trivial
  | star greedy q => trivial
  | seq a b iha ihb => exact ⟨iha within.1, ihb within.2⟩
  | alt a b iha ihb => exact ⟨iha within.1, ihb within.2⟩
  | group k a => exact within.elim
  | ahead a => exact within.elim
  | behind q => exact within.elim
  | next q => exact within.elim

theorem Within.times {n : Nat} (within : r.Within p) : (r.times n).Within p := by
  induction n with
  | zero => trivial
  | succ n ih => exact ⟨within, ih⟩

theorem skips_taken {q : α → Bool} (mem : y ∈ skips q x) : ∃ v, x = v ++ y ∧ ∀ c ∈ v, q c := by
  induction x with
  | nil => exact ⟨[], List.mem_singleton.1 mem |>.symm, by simp⟩
  | cons c x ih =>
    rw [skips] at mem
    rcases List.mem_cons.1 mem with rfl | mem
    · exact ⟨[], rfl, by simp⟩
    · split at mem
      · rename_i here
        obtain ⟨v, rfl, all⟩ := ih mem
        exact ⟨c :: v, rfl, List.forall_mem_cons.2 ⟨here, all⟩⟩
      · cases mem

theorem rests_star {greedy : Bool} {q : α → Bool} :
    (star greedy q).rests x = if greedy then (skips q x).reverse else skips q x := by
  rw [rests, run_star, List.map_map]
  exact List.map_id _

/-- What a match takes is inside the class. -/
theorem Within.taken (within : r.Within p) (mem : y ∈ r.rests x) : ∃ v, x = v ++ y ∧ ∀ c ∈ v, p c := by
  induction r generalizing x y with
  | empty => exact ⟨[], (List.mem_singleton.1 mem).symm, by simp⟩
  | char q =>
    cases x with
    | nil => cases mem
    | cons c x =>
      rw [rests_char_cons] at mem
      split at mem
      · rename_i here
        exact ⟨[c], by rw [List.mem_singleton.1 mem]; rfl, by simpa using within c here⟩
      · cases mem
  | seq a b iha ihb =>
    rw [rests_seq] at mem
    obtain ⟨u, first, second⟩ := List.mem_flatMap.1 mem
    obtain ⟨v, rfl, left⟩ := iha within.1 first
    obtain ⟨v', rfl, right⟩ := ihb within.2 second
    refine ⟨v ++ v', (List.append_assoc v v' y).symm, ?_⟩
    intro c at_c
    rcases List.mem_append.1 at_c with at_c | at_c
    · exact left c at_c
    · exact right c at_c
  | alt a b iha ihb =>
    rw [rests_alt] at mem
    rcases List.mem_append.1 mem with mem | mem
    · exact iha within.1 mem
    · exact ihb within.2 mem
  | star greedy q =>
    rw [rests_star] at mem
    have skipped : y ∈ skips q x := by
      cases greedy with
      | true => exact List.mem_reverse.1 mem
      | false => exact mem
    obtain ⟨v, eq, all⟩ := skips_taken skipped
    exact ⟨v, eq, fun c at_c => within c (all c at_c)⟩
  | group k a => exact within.elim
  | ahead a => exact within.elim
  | behind q => exact within.elim
  | next q => exact within.elim

/-- What a search finds is inside the class. -/
theorem Within.matched {f : Found α} (within : r.Within p) (h : r.find x = some f) : ∀ c ∈ f.matched, p c := by
  rw [find, findFrom_plain within.plain] at h
  obtain ⟨t, -, found⟩ := List.exists_of_findSome?_eq_some h
  obtain ⟨u, here, rfl⟩ := Option.map_eq_some_iff.1 found
  obtain ⟨v, rfl, all⟩ := within.taken (List.mem_of_mem_head? here)
  dsimp only
  rwa [upTo_append]

/-- A greedy repetition takes all there is. -/
theorem head?_rests_star (all : ∀ c ∈ x, p c) (ends : ∀ c ∈ y.head?, p c = false) :
    ((star true p).rests (x ++ y)).head? = some y := by
  rw [rests_star, if_pos rfl, List.head?_reverse]
  induction x with
  | nil =>
    cases y with
    | nil => rfl
    | cons c y =>
      rw [List.nil_append, skips, ends c rfl]
      rfl
  | cons c x ih =>
    have here : p c := all c List.mem_cons_self
    rw [List.cons_append, skips, if_pos here, List.getLast?_cons, ih fun d mem => all d (List.mem_cons_of_mem c mem), Option.getD_some]

/-! ## One match after another -/

/-- The matches from a place on. -/
def matchesFrom (r : Regex α) (subject x : List α) : List (List α) := ((group 0 r).findAllFrom subject 0 x).filterMap (· 0)

theorem first_group_zero (plain : r.Plain) :
    (group 0 r).first subject x = (r.rests x).head?.map fun t => ⟨t, Function.update (fun _ => none) 0 (some (upTo x t))⟩ := by
  rw [first, run_group, run_plain plain, List.map_map, List.head?_map]
  rfl

theorem matchesFrom_none (plain : r.Plain) (none_here : r.rests (c :: x) = []) :
    r.matchesFrom subject (c :: x) = r.matchesFrom subject x := by
  have first : (group 0 r).first subject (c :: x) = none := by
    rw [first_group_zero plain, none_here]
    rfl
  rw [matchesFrom, findAllFrom_none first]
  rfl

theorem matchesFrom_some (plain : r.Plain) (here : (r.rests (w ++ y)).head? = some y) (some_taken : w ≠ []) :
    r.matchesFrom subject (w ++ y) = w :: r.matchesFrom subject y := by
  have first : (group 0 r).first subject (w ++ y) = some ⟨y, Function.update (fun _ => none) 0 (some w)⟩ := by
    rw [first_group_zero plain, here, Option.map_some, upTo_append]
  have moved : y ≠ w ++ y := by
    intro same
    exact some_taken (List.self_eq_append_left.1 same)
  rw [matchesFrom, findAllFrom_some first moved, List.filterMap_cons_some (b := w) (by simp)]
  rfl

/-- **A fenced text is found**: the element before it is outside of the class, and what the expression takes at its start
is the text. -/
theorem mem_matchesFrom_of_fenced (within : r.Within p) (some_taken : ∀ x, x ∉ r.rests x) (some_text : t ≠ [])
    (here : (r.rests (t ++ y)).head? = some y) (fence : ∀ c ∈ w.getLast?, p c = false) :
    t ∈ r.matchesFrom subject (w ++ (t ++ y)) := by
  generalize length : w.length = n
  induction n using Nat.strongRecOn generalizing w with
  | ind n ih =>
    cases w with
    | nil =>
      rw [List.nil_append, matchesFrom_some within.plain here some_text]
      exact List.mem_cons_self
    | cons c w =>
      cases head : (r.rests (c :: w ++ (t ++ y))).head? with
      | none =>
        rw [List.cons_append] at head
        rw [List.cons_append, matchesFrom_none within.plain (List.head?_eq_none_iff.1 head)]
        refine ih w.length (by rw [← length]; exact Nat.lt_succ_self _) ?_ rfl
        intro e last
        apply fence
        rw [List.getLast?_cons, Option.mem_def.1 last]
        rfl
      | some z =>
        obtain ⟨v, eq, all⟩ := within.taken (List.mem_of_mem_head? head)
        rcases List.append_eq_append_iff.1 eq with ⟨u, past, -⟩ | ⟨u, before, after⟩
        · -- a match that ends behind the fence holds the fence
          have outside : p ((c :: w).getLast (List.cons_ne_nil c w)) = false := fence _ (List.getLast?_eq_some_getLast _)
          have inside := all ((c :: w).getLast (List.cons_ne_nil c w)) (by
            rw [past]
            exact List.mem_append_left u (List.getLast_mem _))
          rw [outside] at inside
          cases inside
        · have some_match : v ≠ [] := by
            rintro rfl
            rw [List.nil_append] at eq
            rw [← eq] at head
            exact some_taken _ (List.mem_of_mem_head? head)
          have shorter : u.length < n := by
            have pos := List.length_pos_iff.2 some_match
            have total := congrArg List.length before
            rw [List.length_append] at total
            omega
          rw [eq] at head ⊢
          rw [matchesFrom_some within.plain head some_match, after]
          apply List.mem_cons_of_mem
          refine ih u.length shorter ?_ rfl
          intro e last
          apply fence
          rw [before, List.getLast?_append, Option.mem_def.1 last]
          rfl

theorem mem_findIter_of_fenced (within : r.Within p) (some_taken : ∀ x, x ∉ r.rests x) (some_text : t ≠ [])
    (here : (r.rests (t ++ y)).head? = some y) (fence : ∀ c ∈ w.getLast?, p c = false) : t ∈ r.findIter (w ++ (t ++ y)) :=
  mem_matchesFrom_of_fenced within some_taken some_text here fence

end ProxyBroker.Lib.Regex
