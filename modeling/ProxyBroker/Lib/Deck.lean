import Mathlib.Data.List.Induction
import Mathlib.Order.Lattice
import ProxyBroker.Lib.Vec

/-!
# Drawing the best of a vector until a useful one comes

A draw takes the first of the eligible entries with the least key out of the vector with `swap_remove`. A useful
one ends the drawing. Of the others a weak one is dropped, and any other is pushed back, and the next draw sees
it again.

Two entries that are neither useful nor weak and have the least key are drawn by turns for ever, because
`swap_remove` puts the one that was pushed back last into the place of the one that is drawn (`hits_behind_iff`).
`hits_iff` is what is left: apart from weak entries a useful one must be the first or tie with the first.

The deck may also change from draw to draw, and an entry may change when it is pushed back (`Comes`). Where neither
matters to the order this is the drawing from one deck (`comes_iff_hits`).
-/

namespace ProxyBroker.Lib

variable {α κ : Type} [LinearOrder κ]

/-- What a drawing looks at in an entry. -/
structure Deck (α κ : Type) where
  eligible : α → Bool
  key : α → κ
  useful : α → Bool
  weak : α → Bool

namespace Deck

variable (d : Deck α κ)

/-- A draw from `l` takes `a` and leaves `rest`. -/
def Draws (l : List α) (a : α) (rest : List α) : Prop :=
  ∃ before after, l = before ++ a :: after ∧ rest = swapRemove l before.length ∧ d.eligible a = true ∧
    (∀ b ∈ before, d.eligible b = true → d.key a < d.key b) ∧ ∀ b ∈ after, d.eligible b = true → d.key a ≤ d.key b

/-- The vector after an entry that is of no use is given back. -/
def giveBack (a : α) (rest : List α) : List α := if d.weak a then rest else rest ++ [a]

/-- One of the next `n` draws is useful. -/
inductive Hits : Nat → List α → Prop
  | now {n : Nat} {l rest : List α} {a : α} : d.Draws l a rest → d.useful a = true → Hits (n + 1) l
  | later {n : Nat} {l rest : List α} {a : α} : d.Draws l a rest → d.useful a = false → Hits n (d.giveBack a rest) →
      Hits (n + 1) l

/-- The next `m` draws take weak entries that are of no use, and leave `l'`. -/
inductive Clears : List α → Nat → List α → Prop
  | done (l : List α) : Clears l 0 l
  | next {m : Nat} {l rest l' : List α} {a : α} : d.Draws l a rest → d.useful a = false → d.weak a = true →
      Clears rest m l' → Clears l (m + 1) l'

variable {d} {l l' rest rest' before after : List α} {a b x : α} {m n : Nat}

theorem swapRemove_split (before after : List α) (a : α) :
    swapRemove (before ++ a :: after) before.length =
      match after.getLast? with
      | some z => before ++ z :: after.dropLast
      | none => before := by
  induction after using List.reverseRecOn with
  | nil => rw [swapRemove_last]; rfl
  | append_singleton after z _ => simp [swapRemove_mid]

/-- What `swap_remove` leaves does not depend on what it takes. -/
theorem swapRemove_replace (before after : List α) (a b : α) :
    swapRemove (before ++ a :: after) before.length = swapRemove (before ++ b :: after) before.length := by
  rw [swapRemove_split, swapRemove_split]

theorem Draws.perm (h : d.Draws l a rest) : (a :: rest).Perm l := by
  obtain ⟨before, after, split, left, -⟩ := h
  rw [left]
  apply swapRemove_perm
  rw [split]
  simp

theorem Draws.eligible (h : d.Draws l a rest) : d.eligible a = true := by
  obtain ⟨_, _, -, -, eligible, -⟩ := h
  exact eligible

theorem Draws.mem (h : d.Draws l a rest) : a ∈ l := h.perm.subset List.mem_cons_self

/-- The drawn entry has the least key. -/
theorem Draws.least (h : d.Draws l a rest) (mem : b ∈ l) (eligible : d.eligible b = true) : d.key a ≤ d.key b := by
  obtain ⟨before, after, split, -, -, above, notBelow⟩ := h
  rw [split, List.mem_append, List.mem_cons] at mem
  rcases mem with mem | rfl | mem
  · exact (above b mem eligible).le
  · exact le_rfl
  · exact notBelow b mem eligible

/-- A draw is determined. -/
theorem Draws.unique (h : d.Draws l a rest) (h' : d.Draws l b rest') : a = b ∧ rest = rest' := by
  obtain ⟨before, after, split, left, eligible, above, notBelow⟩ := h
  obtain ⟨before', after', split', left', eligible', above', notBelow'⟩ := h'
  rcases List.append_eq_append_iff.1 (split.symm.trans split') with ⟨between, eq, eq'⟩ | ⟨between, eq, eq'⟩
  · cases between with
    | nil =>
      obtain ⟨rfl, -⟩ := List.cons.inj eq'
      rw [List.append_nil] at eq
      exact ⟨rfl, by rw [left, left', eq]⟩
    | cons c between =>
      obtain ⟨rfl, rfl⟩ := List.cons.inj eq'
      exact absurd (above' a (by simp [eq]) eligible) (notBelow b (by simp) eligible').not_gt
  · cases between with
    | nil =>
      obtain ⟨rfl, -⟩ := List.cons.inj eq'
      rw [List.append_nil] at eq
      exact ⟨rfl, by rw [left, left', eq]⟩
    | cons c between =>
      obtain ⟨rfl, rfl⟩ := List.cons.inj eq'
      exact absurd (above b (by simp [eq]) eligible') (notBelow' a (by simp) eligible).not_gt

/-- Something is drawn when an entry is eligible. -/
theorem exists_draws (mem : b ∈ l) (eligible : d.eligible b = true) : ∃ a rest, d.Draws l a rest := by
  have first : ∃ a before after, l = before ++ a :: after ∧ d.eligible a = true ∧
      (∀ b ∈ before, d.eligible b = true → d.key a < d.key b) ∧ ∀ b ∈ after, d.eligible b = true → d.key a ≤ d.key b := by
    induction l generalizing b with
    | nil => cases mem
    | cons c l ih =>
      by_cases later : ∃ b ∈ l, d.eligible b = true
      · obtain ⟨e, there, also⟩ := later
        obtain ⟨a, before, after, rfl, here, above, notBelow⟩ := ih there also
        by_cases less : d.eligible c = true ∧ d.key c ≤ d.key a
        · refine ⟨c, [], before ++ a :: after, rfl, less.1, by simp, ?_⟩
          intro e mem also
          rw [List.mem_append, List.mem_cons] at mem
          rcases mem with mem | rfl | mem
          · exact less.2.trans (above e mem also).le
          · exact less.2
          · exact less.2.trans (notBelow e mem also)
        · refine ⟨a, c :: before, after, rfl, here, ?_, notBelow⟩
          intro e mem also
          rcases List.mem_cons.1 mem with rfl | mem
          · exact not_le.1 fun le => less ⟨also, le⟩
          · exact above e mem also
      · have rare : ∀ e ∈ l, d.eligible e = true → d.key c ≤ d.key e := fun e there also => absurd ⟨e, there, also⟩ later
        rcases List.mem_cons.1 mem with rfl | mem
        · exact ⟨b, [], l, rfl, eligible, by simp, rare⟩
        · exact absurd ⟨b, mem, eligible⟩ later
  obtain ⟨a, before, after, split, here, above, notBelow⟩ := first
  exact ⟨a, _, before, after, split, rfl, here, above, notBelow⟩

/-- How `n + 1` draws go on after the first. -/
theorem hits_succ_iff (h : d.Draws l a rest) : d.Hits (n + 1) l ↔ d.useful a = true ∨ d.Hits n (d.giveBack a rest) := by
  constructor
  · rintro (⟨h', useful⟩ | ⟨h', -, later⟩)
    · obtain ⟨rfl, rfl⟩ := h.unique h'
      exact Or.inl useful
    · obtain ⟨rfl, rfl⟩ := h.unique h'
      exact Or.inr later
  · intro next
    cases useful : d.useful a with
    | true => exact .now h useful
    | false => exact .later h useful (next.resolve_left (by simp [useful]))

theorem not_hits_zero : ¬ d.Hits 0 l := nofun

/-- How `m + 1` draws of weak entries go on after the first. -/
theorem clears_succ_iff (h : d.Draws l a rest) :
    d.Clears l (m + 1) l' ↔ d.useful a = false ∧ d.weak a = true ∧ d.Clears rest m l' := by
  constructor
  · intro clears
    cases clears with
    | next h' useless weak later =>
      obtain ⟨rfl, rfl⟩ := h.unique h'
      exact ⟨useless, weak, later⟩
  · rintro ⟨useless, weak, later⟩
    exact .next h useless weak later

theorem Clears.subset (h : d.Clears l m l') : ∀ b ∈ l', b ∈ l := by
  induction h with
  | done l => exact fun _ mem => mem
  | next draws _ _ _ ih => exact fun b mem => draws.perm.subset (List.mem_cons_of_mem _ (ih b mem))

/-- The entries that were taken were of no use. -/
theorem Clears.count (h : d.Clears l m l') :
    (l.countP fun b => d.eligible b && !d.useful b) = m + l'.countP fun b => d.eligible b && !d.useful b := by
  induction h with
  | done l => simp
  | next draws useless _ _ ih =>
    rw [← draws.perm.countP_eq, List.countP_cons, ih]
    simp [draws.eligible, useless]
    omega

/-! ## A least entry at the end -/

/-- An entry at the end is drawn when its key is below all others. -/
theorem draws_end (eligible : d.eligible x = true) (below : ∀ b ∈ l, d.eligible b = true → d.key x < d.key b) :
    d.Draws (l ++ [x]) x l :=
  ⟨l, [], rfl, (swapRemove_last l x).symm, eligible, below, by simp⟩

/-- What is drawn when an entry at the end is as good: the entry at the end takes its place. -/
theorem draws_tie (h : d.Draws l a rest) (eligible : d.eligible x = true) (tie : d.key a = d.key x) :
    ∃ before after, l = before ++ a :: after ∧ rest = swapRemove l before.length ∧
      d.Draws (l ++ [x]) a (before ++ x :: after) ∧
      ∀ back, (∀ b ∈ back, d.key x ≤ d.key b) →
        d.Draws (before ++ x :: (after ++ back)) x (swapRemove (before ++ x :: (after ++ back)) before.length) := by
  obtain ⟨before, after, split, left, here, above, notBelow⟩ := h
  refine ⟨before, after, split, left, ⟨before, after ++ [x], by rw [split]; simp, ?_, here, above, ?_⟩, ?_⟩
  · rw [split, List.append_assoc, List.cons_append, swapRemove_mid]
  · intro b mem also
    rw [List.mem_append, List.mem_singleton] at mem
    rcases mem with mem | rfl
    · exact notBelow b mem also
    · exact tie.le
  · intro back least
    refine ⟨before, after ++ back, rfl, rfl, eligible, ?_, ?_⟩
    · rw [← tie]
      exact above
    · intro b mem also
      rw [List.mem_append] at mem
      rcases mem with mem | mem
      · rw [← tie]
        exact notBelow b mem also
      · exact least b mem

/-- A useful entry ties with `x` and is drawn from `l` after `m` weak ones. -/
def Ties (d : Deck α κ) (l : List α) (x : α) (m : Nat) : Prop :=
  ∃ l' z rest, d.Clears l m l' ∧ d.Draws l' z rest ∧ d.useful z = true ∧ d.key z = d.key x

theorem ties_zero_iff (h : d.Draws l a rest) : d.Ties l x 0 ↔ d.useful a = true ∧ d.key a = d.key x := by
  constructor
  · rintro ⟨l', z, rest', clears, draws, useful, tie⟩
    cases clears
    obtain ⟨rfl, -⟩ := h.unique draws
    exact ⟨useful, tie⟩
  · rintro ⟨useful, tie⟩
    exact ⟨l, a, rest, .done l, h, useful, tie⟩

theorem ties_succ_iff (h : d.Draws l a rest) :
    d.Ties l x (m + 1) ↔ d.useful a = false ∧ d.weak a = true ∧ d.Ties rest x m := by
  constructor
  · rintro ⟨l', z, rest', clears, found⟩
    obtain ⟨useless, weak, later⟩ := (clears_succ_iff h).1 clears
    exact ⟨useless, weak, l', z, rest', later, found⟩
  · rintro ⟨useless, weak, l', z, rest', later, found⟩
    exact ⟨l', z, rest', (clears_succ_iff h).2 ⟨useless, weak, later⟩, found⟩

/-- What ties with `x` is an eligible entry of the vector. -/
theorem Ties.exists (h : d.Ties l x m) : ∃ z ∈ l, d.eligible z = true ∧ d.key z = d.key x := by
  obtain ⟨l', z, rest, clears, draws, -, tie⟩ := h
  exact ⟨z, clears.subset z draws.mem, draws.eligible, tie⟩

section Behind
variable (eligible : d.eligible x = true) (useless : d.useful x = false) (strong : d.weak x = false)
include eligible useless strong

/-- Nothing ties with `x`: it is drawn again. -/
theorem hits_alone (above : ∀ b ∈ l, d.eligible b = true → d.key x < d.key b) :
    d.Hits (n + 1) (l ++ [x]) ↔ d.Hits n (l ++ [x]) := by
  rw [hits_succ_iff (draws_end eligible above)]
  simp [useless, giveBack, strong]

/-- A weak entry that ties with `x` is drawn and dropped, and `x` is drawn again. -/
theorem hits_weak (draws : d.Draws l a rest) (tie : d.key a = d.key x) (useless' : d.useful a = false) (weak : d.weak a = true) :
    d.Hits (n + 2) (l ++ [x]) ↔ d.Hits n (rest ++ [x]) := by
  obtain ⟨before, after, split, left, first, again⟩ := draws_tie draws eligible tie
  have second := again [] (by simp)
  rw [List.append_nil, swapRemove_replace before after x a, ← split, ← left] at second
  rw [hits_succ_iff first, giveBack, if_pos weak, hits_succ_iff second, giveBack, if_neg (by simp [strong])]
  simp [useless, useless']

/-- Another entry of no use that ties with `x`, and is not dropped: the two are drawn by turns. -/
theorem hits_turns (draws : d.Draws l a rest) (tie : d.key a = d.key x) (useless' : d.useful a = false)
    (strong' : d.weak a = false) : d.Hits (n + 2) (l ++ [x]) ↔ d.Hits n (l ++ [x]) := by
  obtain ⟨before, after, split, -, first, again⟩ := draws_tie draws eligible tie
  have second := again [a] (by simp [tie])
  rw [swapRemove_mid before after x a, ← split] at second
  rw [hits_succ_iff first, giveBack, if_neg (by simp [strong']), List.append_assoc, List.cons_append, hits_succ_iff second,
    giveBack, if_neg (by simp [strong])]
  simp [useless, useless']

/-- **Behind an entry of no use.** `x` is of no use, is not dropped and has the least key. While it waits at the
end, a useful entry is drawn exactly when one ties with `x`, after weak ones only; every weak one costs two
draws. -/
theorem hits_behind_iff (least : ∀ b ∈ l, d.eligible b = true → d.key x ≤ d.key b) :
    d.Hits n (l ++ [x]) ↔ ∃ m, d.Ties l x m ∧ 2 * m + 1 ≤ n := by
  induction n using Nat.strongRecOn generalizing l with
  | ind n ih =>
    cases n with
    | zero => exact iff_of_false not_hits_zero (by rintro ⟨m, -, le⟩; omega)
    | succ n =>
      by_cases tied : ∃ b ∈ l, d.eligible b = true ∧ d.key b = d.key x
      · obtain ⟨b, mem, also, same⟩ := tied
        obtain ⟨y, rest, draws⟩ := exists_draws mem also
        have tie : d.key y = d.key x := le_antisymm (same ▸ draws.least mem also) (least y draws.mem draws.eligible)
        have least' : ∀ b ∈ rest, d.eligible b = true → d.key x ≤ d.key b :=
          fun b there => least b (draws.perm.subset (List.mem_cons_of_mem y there))
        obtain ⟨before, after, -, -, first, -⟩ := draws_tie draws eligible tie
        cases useful : d.useful y with
        | true =>
          refine iff_of_true ((hits_succ_iff first).2 (Or.inl useful)) ⟨0, (ties_zero_iff draws).2 ⟨useful, tie⟩, by omega⟩
        | false =>
          have notFirst : ¬ d.Ties l x 0 := by simp [ties_zero_iff draws, useful]
          cases n with
          | zero =>
            refine iff_of_false ?_ ?_
            · simp [hits_succ_iff first, useful, not_hits_zero]
            · rintro ⟨m, ties, le⟩
              obtain rfl : m = 0 := by omega
              exact notFirst ties
          | succ n =>
            cases weak : d.weak y with
            | true =>
              rw [hits_weak eligible useless strong draws tie useful weak, ih n (by omega) least']
              constructor
              · rintro ⟨m, ties, le⟩
                exact ⟨m + 1, (ties_succ_iff draws).2 ⟨useful, weak, ties⟩, by omega⟩
              · rintro ⟨m, ties, le⟩
                cases m with
                | zero => exact absurd ties notFirst
                | succ m => exact ⟨m, ((ties_succ_iff draws).1 ties).2.2, by omega⟩
            | false =>
              have never (m : Nat) : ¬ d.Ties l x m := by
                cases m with
                | zero => exact notFirst
                | succ m => simp [ties_succ_iff draws, weak]
              rw [hits_turns eligible useless strong draws tie useful weak, ih n (by omega) least]
              simp [never]
      · have above : ∀ b ∈ l, d.eligible b = true → d.key x < d.key b :=
          fun b mem also => lt_of_le_of_ne (least b mem also) fun same => tied ⟨b, mem, also, same.symm⟩
        have never (m : Nat) : ¬ d.Ties l x m := fun ties => tied ties.exists
        rw [hits_alone eligible useless strong above, ih n (by omega) least]
        simp [never]

end Behind

/-- **When one of the next `n` draws is useful.** After `e` weak entries of no use comes `x`. It is useful; or it
is pushed back, and a useful entry ties with it, after `m` further weak ones. -/
theorem hits_iff : d.Hits n l ↔ ∃ e l' x rest, d.Clears l e l' ∧ d.Draws l' x rest ∧
    (d.useful x = true ∧ e + 1 ≤ n ∨
      d.useful x = false ∧ d.weak x = false ∧ ∃ m, d.Ties rest x m ∧ e + 2 * m + 2 ≤ n) := by
  induction n generalizing l with
  | zero =>
    refine iff_of_false not_hits_zero ?_
    rintro ⟨e, l', x, rest, -, -, ⟨-, le⟩ | ⟨-, -, m, -, le⟩⟩
    · omega
    · omega
  | succ n ih =>
    by_cases some : ∃ a rest, d.Draws l a rest
    · obtain ⟨a, rest, draws⟩ := some
      rw [hits_succ_iff draws]
      cases useful : d.useful a with
      | true => exact iff_of_true (Or.inl rfl) ⟨0, l, a, rest, .done l, draws, Or.inl ⟨useful, by omega⟩⟩
      | false =>
        cases weak : d.weak a with
        | true =>
          rw [giveBack, if_pos weak, ih]
          constructor
          · rintro (impossible | ⟨e, l', x, rest', clears, draws', found⟩)
            · cases impossible
            · refine ⟨e + 1, l', x, rest', .next draws useful weak clears, draws', found.imp ?_ ?_⟩
              · exact fun ⟨useful', le⟩ => ⟨useful', by omega⟩
              · exact fun ⟨useless, strong, m, ties, le⟩ => ⟨useless, strong, m, ties, by omega⟩
          · rintro ⟨e, l', x, rest', clears, draws', found⟩
            cases e with
            | zero =>
              cases clears
              obtain ⟨rfl, rfl⟩ := draws.unique draws'
              rcases found with ⟨useful', -⟩ | ⟨-, strong, -⟩
              · simp [useful] at useful'
              · simp [weak] at strong
            | succ e =>
              refine Or.inr ⟨e, l', x, rest', ((clears_succ_iff draws).1 clears).2.2, draws', found.imp ?_ ?_⟩
              · exact fun ⟨useful', le⟩ => ⟨useful', by omega⟩
              · exact fun ⟨useless, strong, m, ties, le⟩ => ⟨useless, strong, m, ties, by omega⟩
        | false =>
          have least : ∀ b ∈ rest, d.eligible b = true → d.key a ≤ d.key b :=
            fun b mem => draws.least (draws.perm.subset (List.mem_cons_of_mem a mem))
          rw [giveBack, if_neg (by simp [weak]), hits_behind_iff draws.eligible useful weak least]
          constructor
          · rintro (impossible | ⟨m, ties, le⟩)
            · cases impossible
            · exact ⟨0, l, a, rest, .done l, draws, Or.inr ⟨useful, weak, m, ties, by omega⟩⟩
          · rintro ⟨e, l', x, rest', clears, draws', found⟩
            cases e with
            | zero =>
              cases clears
              obtain ⟨rfl, rfl⟩ := draws.unique draws'
              rcases found with ⟨useful', -⟩ | ⟨-, -, m, ties, le⟩
              · simp [useful] at useful'
              · exact Or.inr ⟨m, ties, by omega⟩
            | succ e =>
              have strong := ((clears_succ_iff draws).1 clears).2.1
              simp [weak] at strong
    · refine iff_of_false ?_ ?_
      · rintro (⟨draws, -⟩ | ⟨draws, -, -⟩)
        · exact some ⟨_, _, draws⟩
        · exact some ⟨_, _, draws⟩
      · rintro ⟨e, l', x, rest', clears, draws', -⟩
        cases clears with
        | done => exact some ⟨_, _, draws'⟩
        | next draws _ _ _ => exact some ⟨_, _, draws⟩

theorem Hits.mono {k : Nat} (hits : d.Hits n l) (le : n ≤ k) : d.Hits k l := by
  rw [hits_iff] at hits ⊢
  obtain ⟨e, l', x, rest, clears, draws, found⟩ := hits
  refine ⟨e, l', x, rest, clears, draws, found.imp ?_ ?_⟩
  · exact fun ⟨useful, within⟩ => ⟨useful, by omega⟩
  · exact fun ⟨useless, strong, m, ties, within⟩ => ⟨useless, strong, m, ties, by omega⟩

/-! ## A deck that changes -/

/-- One of the next `n` draws is useful, when the `i`-th draw is from the `i`-th deck and `f` says how an entry is
pushed back. -/
inductive Comes (decks : Nat → Deck α κ) (f : α → α) : Nat → Nat → List α → Prop
  | now {i n : Nat} {l rest : List α} {a : α} : (decks i).Draws l a rest → (decks i).useful a = true → Comes decks f i (n + 1) l
  | later {i n : Nat} {l rest : List α} {a : α} : (decks i).Draws l a rest → (decks i).useful a = false →
      Comes decks f (i + 1) n (if (decks i).weak a then rest else rest ++ [f a]) → Comes decks f i (n + 1) l

variable {decks : Nat → Deck α κ} {f : α → α} {i : Nat}

/-- How `n + 1` draws go on after the first. -/
theorem comes_succ_iff (decks : Nat → Deck α κ) (h : (decks i).Draws l a rest) : Comes decks f i (n + 1) l ↔
    (decks i).useful a = true ∨ Comes decks f (i + 1) n (if (decks i).weak a then rest else rest ++ [f a]) := by
  constructor
  · rintro (⟨h', useful⟩ | ⟨h', -, later⟩)
    · obtain ⟨rfl, rfl⟩ := h.unique h'
      exact Or.inl useful
    · obtain ⟨rfl, rfl⟩ := h.unique h'
      exact Or.inr later
  · intro next
    cases useful : (decks i).useful a with
    | true => exact .now h useful
    | false => exact .later h useful (next.resolve_left (by simp [useful]))

theorem not_comes_zero : ¬ Comes decks f i 0 l := nofun

theorem Comes.mono {k : Nat} (comes : Comes decks f i n l) (le : n ≤ k) : Comes decks f i k l := by
  induction comes generalizing k with
  | now draws useful =>
    cases k with
    | zero => omega
    | succ k => exact .now draws useful
  | later draws useless _ ih =>
    cases k with
    | zero => omega
    | succ k => exact .later draws useless (ih (by omega))

/-- On entries of a kind the decks agree with one deck, in what they look at and in the order of the keys. -/
structure Agrees {κ' : Type} [LinearOrder κ'] (decks : Nat → Deck α κ') (f : α → α) (d : Deck α κ) (kind : α → Prop) : Prop where
  eligible : ∀ i a, kind a → (decks i).eligible a = d.eligible a
  useful : ∀ i a, kind a → (decks i).useful a = d.useful a
  weak : ∀ i a, kind a → (decks i).weak a = d.weak a
  less : ∀ i a b, kind a → kind b → (d.key a < d.key b ↔ (decks i).key a < (decks i).key b)
  fixed : ∀ a, kind a → f a = a

section Agrees
variable {κ' : Type} [LinearOrder κ'] {decks : Nat → Deck α κ'} {kind : α → Prop}

theorem Agrees.draws (agrees : Agrees decks f d kind) (all : ∀ b ∈ l, kind b) (h : d.Draws l a rest) : (decks i).Draws l a rest := by
  obtain ⟨before, after, split, left, eligible, above, notBelow⟩ := h
  have kinds : kind a ∧ (∀ b ∈ before, kind b) ∧ ∀ b ∈ after, kind b := by
    rw [split] at all
    exact ⟨all a (by simp), fun b mem => all b (by simp [mem]), fun b mem => all b (by simp [mem])⟩
  refine ⟨before, after, split, left, (agrees.eligible i a kinds.1).trans eligible, ?_, ?_⟩
  · intro b mem also
    rw [agrees.eligible i b (kinds.2.1 b mem)] at also
    exact (agrees.less i a b kinds.1 (kinds.2.1 b mem)).1 (above b mem also)
  · intro b mem also
    rw [agrees.eligible i b (kinds.2.2 b mem)] at also
    exact not_lt.1 fun less => (notBelow b mem also).not_gt ((agrees.less i b a (kinds.2.2 b mem) kinds.1).2 less)

/-- **A drawing in which only one deck matters.** -/
theorem comes_iff_hits (agrees : Agrees decks f d kind) (all : ∀ b ∈ l, kind b) : Comes decks f i n l ↔ d.Hits n l := by
  induction n generalizing l i with
  | zero => exact iff_of_false not_comes_zero not_hits_zero
  | succ n ih =>
    by_cases some : ∃ b ∈ l, d.eligible b = true
    · obtain ⟨b, mem, eligible⟩ := some
      obtain ⟨a, rest, draws⟩ := exists_draws mem eligible
      have here : kind a := all a draws.mem
      have left : ∀ b ∈ rest, kind b := fun b mem => all b (draws.perm.subset (List.mem_cons_of_mem a mem))
      rw [comes_succ_iff _ (agrees.draws all draws), hits_succ_iff draws, agrees.useful i a here, agrees.weak i a here, agrees.fixed a here]
      apply or_congr_right
      apply ih
      intro b mem
      split at mem
      · exact left b mem
      · rcases List.mem_append.1 mem with mem | mem
        · exact left b mem
        · rw [List.mem_singleton.1 mem]
          exact here
    · refine iff_of_false ?_ ?_
      · rintro (⟨draws, -⟩ | ⟨draws, -, -⟩)
        all_goals exact some ⟨_, draws.mem, (agrees.eligible i _ (all _ draws.mem)).symm.trans draws.eligible⟩
      · rintro (⟨draws, -⟩ | ⟨draws, -, -⟩)
        all_goals exact some ⟨_, draws.mem, draws.eligible⟩

end Agrees

end Deck

end ProxyBroker.Lib
