import Mathlib.Logic.Function.Basic
import Mathlib.Data.List.Basic

/-!
# Pins that selections read and write

A map from keys to values, and processes that select under a key: a selection reads the pin of its key,
takes a value, and writes that value as the pin. The three are separate steps, and other processes run in
between. A write may drop the pins of other keys.

`Tracks` says what the pins are while no two selections under one key overlap: the pin of a key is the value
taken last under it, apart from a value that is taken and not written yet.
-/

namespace ProxyBroker.Lib.Pins

variable {κ α : Type}

/-- Where a selection stands: with the pin it read, or with the value it took. -/
inductive Stage (α : Type) where
  | choosing (pin : Option α)
  | noting (a : α)

/-- The pins, and the selection each process is in the middle of. -/
structure State (κ α : Type) where
  pins : κ → Option α
  sel : Nat → Option (κ × Stage α)

/-- A step, with the value it takes under a key. -/
inductive Step (s : State κ α) : Option (κ × α) → State κ α → Prop
  | quiet : Step s none s
  | enter (n : Nat) (k : κ) : s.sel n = none → Step s none ⟨s.pins, Function.update s.sel n (some (k, .choosing (s.pins k)))⟩
  | leave (n : Nat) : (∀ k a, s.sel n ≠ some (k, .noting a)) → Step s none ⟨s.pins, Function.update s.sel n none⟩
  | take (n : Nat) (k : κ) (pin : Option α) (a : α) : s.sel n = some (k, .choosing pin) →
      Step s (some (k, a)) ⟨s.pins, Function.update s.sel n (some (k, .noting a))⟩
  | note (n : Nat) (k : κ) (a : α) (pins : κ → Option α) : s.sel n = some (k, .noting a) → pins k = some a →
      (∀ j b, j ≠ k → pins j = some b → s.pins j = some b) → Step s none ⟨pins, Function.update s.sel n none⟩

/-- No two selections under one key overlap. -/
def Apart (s : State κ α) : Prop := ∀ n m k x y, s.sel n = some (k, x) → s.sel m = some (k, y) → n = m

variable {s t : State κ α} {js : List (κ × α)} {e : Option (κ × α)}

theorem sel_update {n m : Nat} {x : Option (κ × Stage α)} {y : κ × Stage α} (h : Function.update s.sel n x m = some y) :
    m = n ∧ x = some y ∨ m ≠ n ∧ s.sel m = some y := by
  by_cases same : m = n
  · subst same
    rw [Function.update_self] at h
    exact Or.inl ⟨rfl, h⟩
  · rw [Function.update_of_ne same] at h
    exact Or.inr ⟨same, h⟩

/-- A key that nothing is being noted under after a step was one before it, or the step noted it. -/
theorem not_noting_of_update {n : Nat} {k : κ} {x : Option (κ × Stage α)}
    (none : ∀ m b, Function.update s.sel n x m ≠ some (k, .noting b)) (here : ∀ b, s.sel n ≠ some (k, .noting b)) :
    ∀ m b, s.sel m ≠ some (k, .noting b) := by
  intro m b noting
  by_cases same : m = n
  · subst same
    exact here b noting
  · apply none m b
    rw [Function.update_of_ne same]
    exact noting

variable [DecidableEq κ]

/-- The values taken under a key, in order. -/
def under (k : κ) (js : List (κ × α)) : List α := (js.filter fun j => j.1 = k).map Prod.snd

theorem under_concat (k : κ) (js : List (κ × α)) (j : κ × α) :
    under k (js ++ [j]) = if j.1 = k then under k js ++ [j.2] else under k js := by
  unfold under
  rw [List.filter_append, List.map_append]
  by_cases here : j.1 = k <;> simp [here]

/-- The pins after the values `js` were taken. -/
structure Tracks (js : List (κ × α)) (s : State κ α) : Prop where
  read : ∀ n k pin a, s.sel n = some (k, .choosing pin) → s.pins k = some a → pin = some a
  settled : ∀ k a, (∀ n b, s.sel n ≠ some (k, .noting b)) → s.pins k = some a → (under k js).getLast? = some a
  pending : ∀ n k b, s.sel n = some (k, .noting b) →
    ∃ older, under k js = older ++ [b] ∧ ∀ a, s.pins k = some a → older.getLast? = some a

/-- A process that notes nothing starts a selection or gives one up. -/
theorem Tracks.turn {n : Nat} {x : Option (κ × Stage α)} (tracks : Tracks js s) (idle : ∀ k b, s.sel n ≠ some (k, .noting b))
    (silent : ∀ k b, x ≠ some (k, .noting b)) (reads : ∀ k pin a, x = some (k, .choosing pin) → s.pins k = some a → pin = some a) :
    Tracks js ⟨s.pins, Function.update s.sel n x⟩ := by
  refine ⟨?_, ?_, ?_⟩
  · intro m j pin a choosing pinned
    rcases sel_update choosing with ⟨-, new⟩ | ⟨-, old⟩
    · exact reads j pin a new pinned
    · exact tracks.read m j pin a old pinned
  · intro j a none pinned
    exact tracks.settled j a (not_noting_of_update none (idle j)) pinned
  · intro m j b noting
    rcases sel_update noting with ⟨-, new⟩ | ⟨-, old⟩
    · exact absurd new (silent j b)
    · exact tracks.pending m j b old

/-- A selection takes its value. -/
theorem Tracks.take {n : Nat} {k : κ} {pin : Option α} (tracks : Tracks js s) (apart : Apart s)
    (choosing : s.sel n = some (k, .choosing pin)) (a : α) :
    Tracks (js ++ [(k, a)]) ⟨s.pins, Function.update s.sel n (some (k, .noting a))⟩ := by
  refine ⟨?_, ?_, ?_⟩
  · intro m j pin' b at_m pinned
    rcases sel_update at_m with ⟨-, new⟩ | ⟨-, old⟩
    · cases new
    · exact tracks.read m j pin' b old pinned
  · intro j b none pinned
    have other : k ≠ j := by
      rintro rfl
      exact none n a (Function.update_self n _ s.sel)
    rw [under_concat, if_neg other]
    exact tracks.settled j b (not_noting_of_update none (by simp [choosing])) pinned
  · intro m j b noting
    rw [under_concat]
    rcases sel_update noting with ⟨-, new⟩ | ⟨away, old⟩
    · cases new
      rw [if_pos rfl]
      -- the selection that takes is the only one under its key
      refine ⟨under k js, rfl, fun c pinned => tracks.settled k c ?_ pinned⟩
      intro l d noting'
      obtain rfl := apart l n k _ _ noting' choosing
      rw [choosing] at noting'
      cases noting'
    · have other : k ≠ j := by
        rintro rfl
        exact away (apart m n k _ _ old choosing)
      rw [if_neg other]
      exact tracks.pending m j b old

/-- A selection writes the pin of the value it took. -/
theorem Tracks.note {n : Nat} {k : κ} {a : α} {pins : κ → Option α} (tracks : Tracks js s) (apart : Apart s)
    (noting : s.sel n = some (k, .noting a)) (pinned : pins k = some a) (others : ∀ j b, j ≠ k → pins j = some b → s.pins j = some b) :
    Tracks js ⟨pins, Function.update s.sel n none⟩ := by
  have elsewhere {m : Nat} {j : κ} {x : Stage α} (away : m ≠ n) (at_m : s.sel m = some (j, x)) : j ≠ k := by
    rintro rfl
    exact away (apart m n j _ _ at_m noting)
  refine ⟨?_, ?_, ?_⟩
  · intro m j pin b at_m there
    rcases sel_update at_m with ⟨-, new⟩ | ⟨away, old⟩
    · cases new
    · exact tracks.read m j pin b old (others j b (elsewhere away old) there)
  · intro j b none there
    by_cases same : j = k
    · subst same
      obtain ⟨older, log, -⟩ := tracks.pending n j a noting
      obtain rfl : a = b := Option.some.inj (pinned.symm.trans there)
      rw [log, List.getLast?_concat]
    · refine tracks.settled j b (not_noting_of_update none ?_) (others j b same there)
      intro c noting'
      rw [noting] at noting'
      cases noting'
      exact same rfl
  · intro m j b noting'
    rcases sel_update noting' with ⟨-, new⟩ | ⟨away, old⟩
    · cases new
    · obtain ⟨older, log, last⟩ := tracks.pending m j b old
      exact ⟨older, log, fun c there => last c (others j c (elsewhere away old) there)⟩

/-- **One step.** -/
theorem Tracks.step (tracks : Tracks js s) (apart : Apart s) (h : Step s e t) : Tracks (js ++ e.toList) t := by
  cases h with
  | quiet =>
    rw [Option.toList_none, List.append_nil]
    exact tracks
  | enter n k free =>
    rw [Option.toList_none, List.append_nil]
    refine tracks.turn (by simp [free]) (by simp) ?_
    intro j pin a new pinned
    cases new
    exact pinned
  | leave n choosing =>
    rw [Option.toList_none, List.append_nil]
    exact tracks.turn choosing (by simp) (by simp)
  | take n k pin a choosing =>
    rw [Option.toList_some]
    exact tracks.take apart choosing a
  | note n k a pins noting pinned others =>
    rw [Option.toList_none, List.append_nil]
    exact tracks.note apart noting pinned others

/-- `a` is the value taken last under `k`, apart from one that is taken and not written yet. -/
def Latest (js : List (κ × α)) (s : State κ α) (k : κ) (a : α) : Prop :=
  ∃ older newer, under k js = older ++ newer ∧ older.getLast? = some a ∧
    (newer = [] ∨ ∃ n b, s.sel n = some (k, .noting b) ∧ newer = [b])

theorem Tracks.latest {k : κ} {a : α} (tracks : Tracks js s) (pinned : s.pins k = some a) : Latest js s k a := by
  by_cases noting : ∃ n b, s.sel n = some (k, .noting b)
  · obtain ⟨n, b, at_n⟩ := noting
    obtain ⟨older, log, last⟩ := tracks.pending n k b at_n
    exact ⟨older, [b], log, last a pinned, Or.inr ⟨n, b, at_n, rfl⟩⟩
  · have settled := tracks.settled k a (fun n b at_n => noting ⟨n, b, at_n⟩) pinned
    exact ⟨under k js, [], by simp, settled, Or.inl rfl⟩

end ProxyBroker.Lib.Pins
