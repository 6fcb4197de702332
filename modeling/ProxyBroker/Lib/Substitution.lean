import Mathlib.Algebra.BigOperators.Group.List.Basic
import Mathlib.Data.List.Infix
import Mathlib.Data.List.Nodup
import Mathlib.Tactic.Ring

/-!
# Replacing tokens

`substitute rules` is one pass from left to right that replaces each token by its value and copies the rest.
`replace` is the pass with one rule. A chain of `replace` re-reads what earlier ones wrote, so it is the one
pass only where they formed no later token. `NothingFormed` says so about the input, `NothingReread` about the
chain, and `chain_iff` ties them together, for tokens that are `Separate`: none overlaps another.
-/

namespace ProxyBroker.Lib

variable {α : Type}

section One

variable [DecidableEq α]

/-- The pass, where `skip` symbols of a replaced token are still to be dropped. -/
def substituteFrom (rules : List (List α × List α)) : ℕ → List α → List α
  | _, [] => []
  | skip + 1, _ :: s => substituteFrom rules skip s
  | 0, c :: s =>
    match rules.find? fun r => r.1.isPrefixOf (c :: s) with
    | some r => r.2 ++ substituteFrom rules (r.1.length - 1) s
    | none => c :: substituteFrom rules 0 s

/-- Each token replaced by its value, in one pass from left to right. -/
def substitute (rules : List (List α × List α)) (s : List α) : List α := substituteFrom rules 0 s

/-- `str::replace`. -/
def replace (token value s : List α) : List α := substitute [(token, value)] s

/-- How often `t` occurs in a list. -/
def occurrences (t : List α) : List α → ℕ
  | [] => 0
  | c :: s => (if t <+: c :: s then 1 else 0) + occurrences t s

variable {rules : List (List α × List α)} {t v s w : List α} {c : α}

theorem substituteFrom_append (rules : List (List α × List α)) (w s : List α) :
    substituteFrom rules w.length (w ++ s) = substitute rules s := by
  induction w with
  | nil => rfl
  | cons c w ih => exact ih

@[simp] theorem substitute_nil (rules : List (List α × List α)) : substitute rules [] = [] := rfl

/-- A token at the front. -/
theorem substitute_token (nonempty : t ≠ []) (found : rules.find? (fun r => r.1.isPrefixOf (t ++ s)) = some (t, v)) :
    substitute rules (t ++ s) = v ++ substitute rules s := by
  cases t with
  | nil => exact absurd rfl nonempty
  | cons c t =>
    rw [List.cons_append] at found ⊢
    rw [substitute, substituteFrom, found]
    exact congrArg (v ++ ·) (substituteFrom_append rules t s)

/-- No token at the front. -/
theorem substitute_copy (none_here : ∀ r ∈ rules, ¬ r.1 <+: c :: s) : substitute rules (c :: s) = c :: substitute rules s := by
  have found : rules.find? (fun r => r.1.isPrefixOf (c :: s)) = none := by
    rw [List.find?_eq_none]
    intro r mem
    simpa using none_here r mem
  rw [substitute, substituteFrom, found]
  rfl

theorem replace_token (nonempty : t ≠ []) (v s : List α) : replace t v (t ++ s) = v ++ replace t v s :=
  substitute_token nonempty (by simp)

theorem replace_copy (v : List α) (not_here : ¬ t <+: c :: s) : replace t v (c :: s) = c :: replace t v s :=
  substitute_copy (by simpa using not_here)

theorem occurrences_le_append (t w s : List α) : occurrences t s ≤ occurrences t (w ++ s) := by
  induction w with
  | nil => exact le_rfl
  | cons c w ih => exact ih.trans (Nat.le_add_left _ _)

/-- Where no occurrence starts in `w`, it is copied. -/
theorem replace_append (v : List α) (same : occurrences t (w ++ s) = occurrences t s) :
    replace t v (w ++ s) = w ++ replace t v s := by
  induction w with
  | nil => rfl
  | cons c w ih =>
    rw [List.cons_append, occurrences] at same
    have rest := occurrences_le_append t w s
    have not_here : ¬ t <+: c :: (w ++ s) := by
      intro here
      rw [if_pos here] at same
      omega
    rw [if_neg not_here, Nat.zero_add] at same
    rw [List.cons_append, replace_copy v not_here, ih same, List.cons_append]

theorem occurrences_token_le (nonempty : t ≠ []) (s : List α) : 1 + occurrences t s ≤ occurrences t (t ++ s) := by
  cases t with
  | nil => exact absurd rfl nonempty
  | cons c t =>
    rw [List.cons_append, occurrences, if_pos (by rw [← List.cons_append]; exact List.prefix_append _ _)]
    exact Nat.add_le_add_left (occurrences_le_append _ t s) 1

end One

/-! ## Tokens that do not overlap -/

/-- No token starts in another one, and none is empty. -/
structure Separate (tokens : List (List α)) : Prop where
  nodup : tokens.Nodup
  nonempty : [] ∉ tokens
  apart : ∀ t ∈ tokens, ∀ t' ∈ tokens, ∀ i < t.length, t' <+: t.drop i ∨ t.drop i <+: t' → i = 0 ∧ t = t'

namespace Separate

variable {tokens : List (List α)} (separate : Separate tokens) {t t' s : List α}
include separate

theorem ne_nil (mem : t ∈ tokens) : t ≠ [] := fun nil => separate.nonempty (nil ▸ mem)

/-- A token at the front is the only one there. -/
theorem eq_of_prefix (mem : t ∈ tokens) (mem' : t' ∈ tokens) (h : t' <+: t ++ s) : t = t' := by
  have pos : 0 < t.length := List.length_pos_iff.2 (separate.ne_nil mem)
  refine (separate.apart t mem t' mem' 0 pos ?_).2
  rw [List.drop_zero]
  exact List.prefix_or_prefix_of_prefix h (List.prefix_append t s)

/-- An occurrence in a token and what follows is that token, or follows it. -/
theorem occurrences_append [DecidableEq α] (mem : t ∈ tokens) (mem' : t' ∈ tokens) (s : List α) :
    occurrences t' (t ++ s) = (if t = t' then 1 else 0) + occurrences t' s := by
  -- from the second symbol of the token on, nothing starts
  have inside (i : ℕ) (pos : 0 < i) : occurrences t' (t.drop i ++ s) = occurrences t' s := by
    generalize left : t.length - i = n
    induction n generalizing i with
    | zero => rw [List.drop_eq_nil_of_le (by omega), List.nil_append]
    | succ n ih =>
      have lt : i < t.length := by omega
      rw [List.drop_eq_getElem_cons lt, List.cons_append, occurrences, ih (i + 1) (by omega) (by omega), if_neg, Nat.zero_add]
      intro here
      rw [← List.cons_append, ← List.drop_eq_getElem_cons lt] at here
      have overlap := List.prefix_or_prefix_of_prefix here (List.prefix_append (t.drop i) s)
      exact absurd (separate.apart t mem t' mem' i lt overlap).1 (by omega)
  have rest := inside 1 Nat.one_pos
  cases t with
  | nil => exact absurd rfl (separate.ne_nil mem)
  | cons c t =>
    rw [List.drop_one, List.tail_cons] at rest
    rw [List.cons_append, occurrences, rest]
    by_cases same : c :: t = t'
    · rw [if_pos same, if_pos (by rw [← same, ← List.cons_append]; exact List.prefix_append _ _)]
    · have not_here : ¬ t' <+: c :: (t ++ s) := fun here => same (separate.eq_of_prefix (s := s) mem mem' here)
      rw [if_neg same, if_neg not_here]

/-- **Induction over a text**: a token at the front, or a symbol where none starts. -/
theorem token_induction {P : List α → Prop} (nil : P []) (token : ∀ t ∈ tokens, ∀ s, P s → P (t ++ s))
    (copy : ∀ c s, (∀ t ∈ tokens, ¬ t <+: c :: s) → P s → P (c :: s)) (s : List α) : P s := by
  generalize bound : s.length = n
  induction n using Nat.strongRecOn generalizing s with
  | ind n ih =>
    cases s with
    | nil => exact nil
    | cons c s =>
      by_cases none_here : ∀ t ∈ tokens, ¬ t <+: c :: s
      · exact copy c s none_here (ih s.length (by rw [← bound, List.length_cons]; omega) s rfl)
      · push Not at none_here
        obtain ⟨t, mem, r, front⟩ := none_here
        have pos := List.length_pos_iff.2 (separate.ne_nil mem)
        have length := congrArg List.length front
        rw [List.length_append] at length
        rw [← front]
        exact token t mem r (ih r.length (by omega) r rfl)

end Separate

/-! ## A chain of replacements -/

variable [DecidableEq α]

/-- One replacement after another. -/
def chain (rules : List (List α × List α)) (s : List α) : List α := rules.foldl (fun s r => replace r.1 r.2 s) s

/-- Rules that leave their tokens as they are. -/
def kept (rules : List (List α × List α)) : List (List α × List α) := rules.map fun r => (r.1, r.1)

/-- Of the input: the pass with the earlier rules leaves each token as often as the input has it. No value,
and no text that values form with what is around them, holds a later token. -/
def NothingFormed (rules : List (List α × List α)) (s : List α) : Prop :=
  ∀ done t v todo, rules = done ++ (t, v) :: todo →
    occurrences t (substitute (done ++ kept ((t, v) :: todo)) s) = occurrences t s

/-- Of the chain: each replacement finds its token as often as the input has it. -/
def NothingReread (rules : List (List α × List α)) (s : List α) : Prop :=
  ∀ done t v todo, rules = done ++ (t, v) :: todo → occurrences t (chain done s) = occurrences t s

section Chain

variable {rules done todo : List (List α × List α)} {t v w : List α}

theorem chain_concat (done : List (List α × List α)) (t v s : List α) : chain (done ++ [(t, v)]) s = replace t v (chain done s) := by
  simp [chain]

omit [DecidableEq α] in
theorem keys_kept (todo : List (List α × List α)) : (kept todo).map Prod.fst = todo.map Prod.fst := by
  simp [kept]

/-- A token at the front is replaced by its value. -/
theorem substitute_rule (separate : Separate (rules.map Prod.fst)) (mem : (t, v) ∈ rules) (s : List α) :
    substitute rules (t ++ s) = v ++ substitute rules s := by
  have key : t ∈ rules.map Prod.fst := List.mem_map_of_mem mem
  apply substitute_token (separate.ne_nil key)
  obtain ⟨before, after, rfl⟩ := List.append_of_mem mem
  have none_before : before.find? (fun r => r.1.isPrefixOf (t ++ s)) = none := by
    rw [List.find?_eq_none]
    intro r earlier
    have key' : r.1 ∈ (before ++ (t, v) :: after).map Prod.fst :=
      List.mem_map_of_mem (List.mem_append_left _ earlier)
    have ne : r.1 ≠ t := by
      have nodup := separate.nodup
      rw [List.map_append, List.map_cons] at nodup
      have apart := (List.nodup_append.1 nodup).2.2
      exact apart r.1 (List.mem_map_of_mem earlier) t List.mem_cons_self
    intro here
    exact ne (separate.eq_of_prefix key key' (List.isPrefixOf_iff_prefix.1 here)).symm
  rw [List.find?_append, none_before, Option.none_or, List.find?_cons, List.isPrefixOf_iff_prefix.2 (List.prefix_append t s)]

/-- Where no token starts, the symbol is copied. -/
theorem substitute_other {c : α} {s : List α} (none_here : ∀ t ∈ rules.map Prod.fst, ¬ t <+: c :: s) :
    substitute rules (c :: s) = c :: substitute rules s :=
  substitute_copy fun r mem => none_here r.1 (List.mem_map_of_mem mem)

theorem substitute_kept (separate : Separate (rules.map Prod.fst)) (s : List α) : substitute (kept rules) s = s := by
  have separate' : Separate ((kept rules).map Prod.fst) := by rwa [keys_kept]
  induction s using separate'.token_induction with
  | nil => rfl
  | token t mem s ih =>
    obtain ⟨r, rule, rfl⟩ := List.mem_map.1 mem
    obtain ⟨q, -, rfl⟩ := List.mem_map.1 rule
    rw [substitute_rule separate' rule, ih]
  | copy c s none_here ih => rw [substitute_other none_here, ih]

omit [DecidableEq α] in
/-- The rules with `t` still to be replaced, and with `t` replaced, agree on every other token. -/
theorem exists_value (mem : w ∈ (done ++ (t, v) :: todo).map Prod.fst) (ne : w ≠ t) :
    ∃ u, (w, u) ∈ done ++ kept ((t, v) :: todo) ∧ (w, u) ∈ done ++ [(t, v)] ++ kept todo := by
  obtain ⟨⟨w', u⟩, rule, rfl⟩ := List.mem_map.1 mem
  rcases List.mem_append.1 rule with earlier | later
  · exact ⟨u, by simp [earlier], by simp [earlier]⟩
  · rcases List.mem_cons.1 later with same | later
    · cases same
      exact absurd rfl ne
    · have there : (w', w') ∈ kept todo := List.mem_map.2 ⟨(w', u), later, rfl⟩
      exact ⟨w', by simp [kept] at there ⊢; simp [there], by simp [there]⟩

/-- **One replacement.** The pass with the earlier rules has `t` at least as often as the input; where it has it
no more often, `replace` makes of it the pass with `t` replaced too. -/
theorem replace_substitute (separate : Separate ((done ++ (t, v) :: todo).map Prod.fst)) (s : List α) :
    occurrences t s ≤ occurrences t (substitute (done ++ kept ((t, v) :: todo)) s) ∧
      (occurrences t (substitute (done ++ kept ((t, v) :: todo)) s) = occurrences t s →
        replace t v (substitute (done ++ kept ((t, v) :: todo)) s) = substitute (done ++ [(t, v)] ++ kept todo) s) := by
  have key : t ∈ (done ++ (t, v) :: todo).map Prod.fst := by simp
  have nonempty := separate.ne_nil key
  have before : Separate ((done ++ kept ((t, v) :: todo)).map Prod.fst) := by
    rwa [List.map_append, keys_kept, ← List.map_append]
  have after : Separate ((done ++ [(t, v)] ++ kept todo).map Prod.fst) := by
    rwa [List.map_append, keys_kept, ← List.map_append, List.append_assoc, List.singleton_append]
  induction s using separate.token_induction with
  | nil => exact ⟨le_rfl, fun _ => rfl⟩
  | token w mem s ih =>
    obtain ⟨le, step⟩ := ih
    rw [separate.occurrences_append mem key]
    by_cases same : w = t
    · subst same
      have rule : (w, w) ∈ done ++ kept ((w, v) :: todo) := by simp [kept]
      have rule' : (w, v) ∈ done ++ [(w, v)] ++ kept todo := by simp
      have more := occurrences_token_le nonempty (substitute (done ++ kept ((w, v) :: todo)) s)
      rw [substitute_rule before rule, substitute_rule after rule', replace_token nonempty, if_pos rfl]
      refine ⟨by omega, fun same => ?_⟩
      rw [step (by omega)]
    · obtain ⟨u, rule, rule'⟩ := exists_value mem same
      have more := occurrences_le_append t u (substitute (done ++ kept ((t, v) :: todo)) s)
      rw [substitute_rule before rule, substitute_rule after rule', if_neg same, Nat.zero_add]
      refine ⟨by omega, fun same => ?_⟩
      rw [replace_append v (by omega), step (by omega)]
  | copy c s none_here ih =>
    obtain ⟨le, step⟩ := ih
    have none_before : ∀ t' ∈ (done ++ kept ((t, v) :: todo)).map Prod.fst, ¬ t' <+: c :: s := by
      rwa [List.map_append, keys_kept, ← List.map_append]
    have none_after : ∀ t' ∈ (done ++ [(t, v)] ++ kept todo).map Prod.fst, ¬ t' <+: c :: s := by
      rwa [List.map_append, keys_kept, ← List.map_append, List.append_assoc, List.singleton_append]
    have more := occurrences_le_append t [c] (substitute (done ++ kept ((t, v) :: todo)) s)
    rw [substitute_other none_before, substitute_other none_after, occurrences, if_neg (none_here t key), Nat.zero_add,
      ← List.singleton_append]
    refine ⟨by omega, fun same => ?_⟩
    rw [replace_append v (by omega), step (by omega), List.singleton_append]

variable (separate : Separate (rules.map Prod.fst)) {s : List α}
include separate

/-- **The chain, rule by rule**, where every replacement so far met the input's own tokens. -/
theorem chain_eq_of (split : rules = done ++ todo)
    (clean : ∀ before t v after, done = before ++ (t, v) :: after →
      chain before s = substitute (before ++ kept ((t, v) :: after ++ todo)) s → occurrences t (chain before s) = occurrences t s) :
    chain done s = substitute (done ++ kept todo) s := by
  induction done using List.reverseRecOn generalizing todo with
  | nil =>
    rw [List.nil_append] at split
    subst split
    exact (substitute_kept separate s).symm
  | append_singleton before r ih =>
    obtain ⟨t, v⟩ := r
    have split' : rules = before ++ (t, v) :: todo := by rw [split, List.append_assoc, List.singleton_append]
    have earlier : chain before s = substitute (before ++ kept ((t, v) :: todo)) s := by
      apply ih split'
      intro before' t' v' after' eq holds
      apply clean before' t' v' (after' ++ [(t, v)])
      · rw [eq, List.append_assoc, List.cons_append]
      · rw [holds]
        simp
    have same := clean before t v [] rfl (by rw [earlier]; rfl)
    subst split'
    rw [earlier] at same
    rw [chain_concat, earlier]
    exact (replace_substitute separate s).2 same

/-- **The chain is the one pass, and re-reads nothing, exactly where nothing is formed.** -/
theorem chain_iff : (chain rules s = substitute rules s ∧ NothingReread rules s) ↔ NothingFormed rules s := by
  constructor
  · rintro ⟨-, nothingReread⟩ done t v todo split
    have stage : chain done s = substitute (done ++ kept ((t, v) :: todo)) s := by
      apply chain_eq_of separate split
      intro before t' v' after eq _
      exact nothingReread before t' v' (after ++ (t, v) :: todo) (by rw [split, eq]; simp)
    rw [← stage]
    exact nothingReread done t v todo split
  · intro nothingFormed
    have stage (done todo) (split : rules = done ++ todo) : chain done s = substitute (done ++ kept todo) s := by
      apply chain_eq_of separate split
      intro before t v after eq holds
      rw [holds]
      exact nothingFormed before t v (after ++ todo) (by rw [split, eq]; simp)
    constructor
    · have all := stage rules [] (List.append_nil rules).symm
      rwa [kept, List.map_nil, List.append_nil] at all
    · intro done t v todo split
      rw [stage done ((t, v) :: todo) split]
      exact nothingFormed done t v todo split

end Chain

/-! ## A symbol that only tokens have

Where every token holds `m` of a symbol and no value holds it, each replacement takes `m` of them away. The
chain takes away no fewer than the one pass, and as many only if it re-reads nothing. -/

omit [DecidableEq α] in
theorem Separate.sublist {tokens tokens' : List (List α)} (separate : Separate tokens) (sub : tokens'.Sublist tokens) : Separate tokens' where
  nodup := separate.nodup.sublist sub
  nonempty mem := separate.nonempty (sub.subset mem)
  apart t mem t' mem' := separate.apart t (sub.subset mem) t' (sub.subset mem')

/-- Another token is not destroyed. -/
theorem Separate.occurrences_replace {tokens : List (List α)} (separate : Separate tokens) {t t' : List α} (mem : t ∈ tokens)
    (mem' : t' ∈ tokens) (ne : t ≠ t') (v s : List α) : occurrences t' s ≤ occurrences t' (replace t v s) := by
  induction s using separate.token_induction with
  | nil => exact le_rfl
  | token w key s ih =>
    rw [separate.occurrences_append key mem']
    by_cases here : w = t
    · subst here
      have more := occurrences_le_append t' v (replace w v s)
      rw [replace_token (separate.ne_nil mem), if_neg ne]
      omega
    · have none_inside : occurrences t (w ++ s) = occurrences t s := by
        rw [separate.occurrences_append key mem, if_neg here, Nat.zero_add]
      rw [replace_append v none_inside]
      by_cases there : w = t'
      · subst there
        have more := occurrences_token_le (separate.ne_nil key) (replace t v s)
        rw [if_pos rfl]
        omega
      · have more := occurrences_le_append t' w (replace t v s)
        rw [if_neg there]
        omega
  | copy c s none_here ih =>
    have more := occurrences_le_append t' [c] (replace t v s)
    rw [List.singleton_append] at more
    rw [replace_copy v (none_here t mem), occurrences, if_neg (none_here t' mem')]
    omega

section Count

variable {rules : List (List α × List α)} {c : α} {m : ℕ}

/-- The input's tokens. -/
def tokensOf (rules : List (List α × List α)) (s : List α) : ℕ := (rules.map fun r => occurrences r.1 s).sum

/-- The tokens that the chain replaces. -/
def replaced : List (List α × List α) → List α → ℕ
  | [], _ => 0
  | r :: rest, s => occurrences r.1 s + replaced rest (replace r.1 r.2 s)

theorem sum_eq_count (t : List α) (rules : List (List α × List α)) :
    (rules.map fun r => if t = r.1 then 1 else 0).sum = (rules.map Prod.fst).count t := by
  induction rules with
  | nil => rfl
  | cons r rules ih =>
    rw [List.map_cons, List.sum_cons, ih, List.map_cons, List.count_cons]
    by_cases here : t = r.1
    · simp [here, Nat.add_comm]
    · simp [here, Ne.symm here]

theorem count_substitute (separate : Separate (rules.map Prod.fst)) (tokens : ∀ r ∈ rules, r.1.count c = m)
    (values : ∀ r ∈ rules, r.2.count c = 0) (s : List α) : (substitute rules s).count c + m * tokensOf rules s = s.count c := by
  induction s using separate.token_induction with
  | nil => simp [tokensOf, occurrences]
  | token t mem s ih =>
    obtain ⟨⟨t', v⟩, rule, rfl⟩ := List.mem_map.1 mem
    have one : (rules.map fun r => if t' = r.1 then 1 else 0).sum = 1 :=
      (sum_eq_count t' rules).trans (List.count_eq_one_of_mem separate.nodup mem)
    have more : tokensOf rules (t' ++ s) = 1 + tokensOf rules s := by
      have each : (rules.map fun r => occurrences r.1 (t' ++ s)) = rules.map fun r => (if t' = r.1 then 1 else 0) + occurrences r.1 s :=
        List.map_congr_left fun r there => separate.occurrences_append mem (List.mem_map_of_mem there) s
      rw [tokensOf, each, List.sum_map_add, one]
      rfl
    rw [substitute_rule separate rule, more, List.count_append, List.count_append, tokens _ rule, values _ rule, ← ih]
    ring
  | copy c' s none_here ih =>
    have same : tokensOf rules (c' :: s) = tokensOf rules s := by
      have each : (rules.map fun r => occurrences r.1 (c' :: s)) = rules.map fun r => occurrences r.1 s := by
        refine List.map_congr_left fun r there => ?_
        rw [occurrences, if_neg (none_here r.1 (List.mem_map_of_mem there)), Nat.zero_add]
      rw [tokensOf, each]
      rfl
    rw [substitute_other none_here, same, List.count_cons, List.count_cons, ← ih]
    omega

theorem count_chain (separate : Separate (rules.map Prod.fst)) (tokens : ∀ r ∈ rules, r.1.count c = m)
    (values : ∀ r ∈ rules, r.2.count c = 0) (s : List α) : (chain rules s).count c + m * replaced rules s = s.count c := by
  induction rules generalizing s with
  | nil => simp [chain, replaced]
  | cons r rest ih =>
    have one : (replace r.1 r.2 s).count c + m * occurrences r.1 s = s.count c := by
      have single : Separate ([r].map Prod.fst) := separate.sublist (by simp)
      have step := count_substitute single (c := c) (m := m) (by simpa using tokens r List.mem_cons_self)
        (by simpa using values r List.mem_cons_self) s
      have sum : tokensOf [r] s = occurrences r.1 s := by simp [tokensOf]
      rwa [sum] at step
    have rest_step := ih (separate.sublist (List.sublist_cons_self _ _)) (fun q mem => tokens q (List.mem_cons_of_mem r mem))
      (fun q mem => values q (List.mem_cons_of_mem r mem)) (replace r.1 r.2 s)
    rw [← one, ← rest_step, replaced, Nat.mul_add]
    change (chain rest (replace r.1 r.2 s)).count c + _ = _
    omega

/-- The chain replaces every token of the input; nothing else only if it re-reads nothing. -/
theorem tokensOf_le_replaced (separate : Separate (rules.map Prod.fst)) {base s : List α}
    (there : ∀ r ∈ rules, occurrences r.1 base ≤ occurrences r.1 s) :
    tokensOf rules base ≤ replaced rules s ∧
      (replaced rules s = tokensOf rules base →
        ∀ done t v todo, rules = done ++ (t, v) :: todo → occurrences t (chain done s) = occurrences t base) := by
  induction rules generalizing s with
  | nil => exact ⟨le_rfl, fun _ done t v todo split => by simp at split⟩
  | cons r rest ih =>
    have first := there r List.mem_cons_self
    have rest_there (q) (mem : q ∈ rest) : occurrences q.1 base ≤ occurrences q.1 (replace r.1 r.2 s) := by
      have key : r.1 ∈ (r :: rest).map Prod.fst := List.mem_cons_self
      have key' : q.1 ∈ (r :: rest).map Prod.fst := List.mem_cons_of_mem _ (List.mem_map_of_mem mem)
      have ne : r.1 ≠ q.1 := by
        intro same
        have nodup := separate.nodup
        rw [List.map_cons, List.nodup_cons, same] at nodup
        exact nodup.1 (List.mem_map_of_mem mem)
      exact (there q (List.mem_cons_of_mem r mem)).trans (separate.occurrences_replace key key' ne r.2 s)
    obtain ⟨le, equal⟩ := ih (separate.sublist (List.sublist_cons_self _ _)) rest_there
    have sum : tokensOf (r :: rest) base = occurrences r.1 base + tokensOf rest base := rfl
    have sum' : replaced (r :: rest) s = occurrences r.1 s + replaced rest (replace r.1 r.2 s) := rfl
    refine ⟨by omega, ?_⟩
    intro all done t v todo split
    cases done with
    | nil =>
      cases split
      change occurrences (t, v).1 s = occurrences (t, v).1 base
      omega
    | cons r' done =>
      rw [List.cons_append, List.cons.injEq] at split
      obtain ⟨rfl, split⟩ := split
      exact equal (by omega) done t v todo split

/-- Where the results agree, nothing was re-read. -/
theorem nothingReread_of_eq (separate : Separate (rules.map Prod.fst)) (pos : 0 < m) (tokens : ∀ r ∈ rules, r.1.count c = m)
    (values : ∀ r ∈ rules, r.2.count c = 0) {s : List α} (same : chain rules s = substitute rules s) : NothingReread rules s := by
  apply (tokensOf_le_replaced separate fun _ _ => le_rfl).2
  have pass := count_substitute separate tokens values s
  have steps := count_chain separate tokens values s
  rw [same] at steps
  apply Nat.eq_of_mul_eq_mul_left pos
  omega

end Count

end ProxyBroker.Lib
