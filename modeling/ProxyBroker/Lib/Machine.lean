import Mathlib.Data.List.Basic

/-!
# Machines driven by their environment

A component is a step function `step : σ → ι → Option σ`: `step s i` is the state after the
environment answers `i`, and `none` when `s` does not wait for that answer. A run is a list of
answers. Every order of events, every failure and every schedule is one such list, so a property of
all runs is a property of all lists.

`run_preserves` is the invariant rule. `Along` says that every step of a run is taken in a state
that meets a condition, and `run_preserves_along` is the invariant rule for such runs.

`noting` adds a history variable that no step reads. `Inevitably step P s` says that whatever the
environment answers, the machine does not stop before it meets `P`, and meets it.
-/

namespace ProxyBroker.Lib

variable {σ ι : Type}

/-- The state after the answers `is`, in order; `none` once one of them is refused. -/
def run (step : σ → ι → Option σ) : σ → List ι → Option σ
  | s, [] => some s
  | s, i :: is =>
    match step s i with
    | some t => run step t is
    | none => none

/-- Every step of the run `is` from `s` is taken in a state, and on an answer, that meets `ok`. -/
def Along (step : σ → ι → Option σ) (ok : σ → ι → Prop) : σ → List ι → Prop
  | _, [] => True
  | s, i :: is => ok s i ∧ ∀ t, step s i = some t → Along step ok t is

variable {step : σ → ι → Option σ} {ok : σ → ι → Prop} {s t u : σ} {i : ι} {is js : List ι}

@[simp] theorem run_nil : run step s [] = some s := rfl

theorem run_cons_iff : run step s (i :: is) = some u ↔ ∃ t, step s i = some t ∧ run step t is = some u := by
  simp only [run]
  cases h : step s i with
  | none => simp
  | some t => simp

theorem run_append (before : run step s is = some t) : run step s (is ++ js) = run step t js := by
  induction is generalizing s with
  | nil => cases before; rfl
  | cons i is ih =>
    obtain ⟨r, first, rest⟩ := run_cons_iff.1 before
    simp only [List.cons_append, run, first]
    exact ih rest

/-- **Invariant rule.** What holds at the start and is kept by every step holds after every run. -/
theorem run_preserves {P : σ → Prop} (keep : ∀ s i t, P s → step s i = some t → P t) (start : P s)
    (h : run step s is = some t) : P t := by
  induction is generalizing s with
  | nil => cases h; exact start
  | cons i is ih =>
    obtain ⟨r, first, rest⟩ := run_cons_iff.1 h
    exact ih (keep s i r start first) rest

/-- **Invariant rule with a history.** As `run_preserves`, for an invariant that reads the answers so far. -/
theorem run_history {P : List ι → σ → Prop} (keep : ∀ is s i t, P is s → step s i = some t → P (is ++ [i]) t)
    (start : P [] s) (h : run step s is = some t) : P is t := by
  have from_here (js : List ι) (here : P js s) : P (js ++ is) t := by
    clear start
    induction is generalizing s js with
    | nil =>
      cases h
      rwa [List.append_nil]
    | cons i is ih =>
      obtain ⟨r, first, rest⟩ := run_cons_iff.1 h
      rw [List.append_cons]
      exact ih rest (js ++ [i]) (keep js s i r here first)
  exact from_here [] start

/-- As `run_history`, where a step may use that the answers so far lead to its state. -/
theorem run_reached {P : List ι → σ → Prop}
    (keep : ∀ is u i t, run step s is = some u → P is u → step u i = some t → P (is ++ [i]) t) (start : P [] s)
    (h : run step s is = some t) : P is t := by
  have both : run step s is = some t ∧ P is t := by
    refine run_history (P := fun is t => run step s is = some t ∧ P is t) ?_ ⟨rfl, start⟩ h
    rintro is u i t ⟨reached, here⟩ next
    refine ⟨?_, keep is u i t reached here next⟩
    rw [run_append reached, run_cons_iff]
    exact ⟨t, next, rfl⟩
  exact both.2

/-- **Guarded invariant rule.** As `run_preserves`, where a step keeps the invariant only if it
meets `ok`, for runs whose steps all do. -/
theorem run_preserves_along {P : σ → Prop} (keep : ∀ s i t, P s → ok s i → step s i = some t → P t)
    (start : P s) (meets : Along step ok s is) (h : run step s is = some t) : P t := by
  induction is generalizing s with
  | nil => cases h; exact start
  | cons i is ih =>
    obtain ⟨r, first, rest⟩ := run_cons_iff.1 h
    exact ih (keep s i r start meets.1 first) (meets.2 r first) rest

/-- A run whose steps all meet a condition has prefixes whose steps all meet it. -/
theorem Along.left (meets : Along step ok s (is ++ js)) : Along step ok s is := by
  induction is generalizing s with
  | nil => trivial
  | cons i is ih => exact ⟨meets.1, fun t first => ih (meets.2 t first)⟩

/-- A run meets a condition when its answers meet it in every state of an invariant. -/
theorem along_of_invariant {P : σ → Prop} (keep : ∀ s i t, P s → step s i = some t → P t) (start : P s)
    (all : ∀ i ∈ is, ∀ s, P s → ok s i) : Along step ok s is := by
  induction is generalizing s with
  | nil => trivial
  | cons i is ih =>
    refine ⟨all i List.mem_cons_self s start, ?_⟩
    intro t first
    exact ih (keep s i t start first) fun j mem => all j (List.mem_cons_of_mem i mem)

/-- A run meets a condition when its answers meet it in every state. -/
theorem along_of_forall (all : ∀ i ∈ is, ∀ s, ok s i) : Along step ok s is :=
  along_of_invariant (P := fun _ => True) (fun _ _ _ _ _ => trivial) trivial fun i mem s _ => all i mem s

theorem Along.append (left : Along step ok s is) (right : ∀ t, run step s is = some t → Along step ok t js) :
    Along step ok s (is ++ js) := by
  induction is generalizing s with
  | nil => exact right s rfl
  | cons i is ih =>
    refine ⟨left.1, ?_⟩
    intro t first
    exact ih (left.2 t first) fun u rest => right u (run_cons_iff.2 ⟨t, first, rest⟩)

/-- A run with one more step. -/
theorem along_concat_iff (h : run step s is = some t) : Along step ok s (is ++ [i]) ↔ Along step ok s is ∧ ok t i := by
  induction is generalizing s with
  | nil =>
    cases h
    exact ⟨fun meets => ⟨trivial, meets.1⟩, fun meets => ⟨meets.2, fun _ _ => trivial⟩⟩
  | cons j is ih =>
    obtain ⟨r, first, rest⟩ := run_cons_iff.1 h
    constructor
    · intro meets
      obtain ⟨left, last⟩ := (ih rest).1 (meets.2 r first)
      refine ⟨⟨meets.1, ?_⟩, last⟩
      intro u next
      rw [first] at next
      cases next
      exact left
    · rintro ⟨meets, last⟩
      refine ⟨meets.1, ?_⟩
      intro u next
      rw [first] at next
      cases next
      exact (ih rest).2 ⟨meets.2 r first, last⟩

/-! ## History variables -/

section Noting
variable {γ : Type} {note : γ → σ → ι → σ → γ} {g : γ}

/-- The machine with a history variable: `note g s i t` is its value after the step from `s` to `t`. -/
def noting (step : σ → ι → Option σ) (note : γ → σ → ι → σ → γ) (w : σ × γ) (i : ι) : Option (σ × γ) :=
  (step w.1 i).map fun t => (t, note w.2 w.1 i t)

theorem noting_eq {w x : σ × γ} (h : noting step note w i = some x) :
    step w.1 i = some x.1 ∧ x.2 = note w.2 w.1 i x.1 := by
  obtain ⟨t, next, rfl⟩ := Option.map_eq_some_iff.1 h
  exact ⟨next, rfl⟩

/-- A history variable takes part in every run. -/
theorem run_noting (h : run step s is = some t) (note : γ → σ → ι → σ → γ) (g : γ) :
    ∃ g', run (noting step note) (s, g) is = some (t, g') := by
  induction is generalizing s g with
  | nil =>
    cases h
    exact ⟨g, rfl⟩
  | cons i is ih =>
    obtain ⟨r, first, rest⟩ := run_cons_iff.1 h
    obtain ⟨g', ran⟩ := ih rest (note g s i r)
    refine ⟨g', run_cons_iff.2 ⟨(r, note g s i r), ?_, ran⟩⟩
    rw [noting, first]
    rfl

/-- No step reads a history variable. -/
theorem run_of_noting {w x : σ × γ} (h : run (noting step note) w is = some x) : run step w.1 is = some x.1 := by
  induction is generalizing w with
  | nil =>
    cases h
    rfl
  | cons i is ih =>
    obtain ⟨y, first, rest⟩ := run_cons_iff.1 h
    exact run_cons_iff.2 ⟨y.1, (noting_eq first).1, ih rest⟩

/-- A history variable does not change which conditions a run meets. -/
theorem Along.noting (meets : Along step ok s is) : Along (noting step note) (fun w i => ok w.1 i) (s, g) is := by
  induction is generalizing s g with
  | nil => trivial
  | cons i is ih =>
    refine ⟨meets.1, ?_⟩
    rintro ⟨t, g'⟩ next
    exact ih (meets.2 t (noting_eq next).1)

end Noting

/-! ## What must happen -/

/-- Every run from `s` meets `P`, and none gets stuck before. -/
inductive Inevitably (step : σ → ι → Option σ) (P : σ → Prop) : σ → Prop
  | now {s : σ} : P s → Inevitably step P s
  | later {s : σ} : (∃ i t, step s i = some t) → (∀ i t, step s i = some t → Inevitably step P t) → Inevitably step P s

/-- What must happen is what must happen after the next step. -/
theorem Inevitably.iff_next {P : σ → Prop} {R : Prop} (notYet : ¬ P s) (moves : ∃ i t, step s i = some t)
    (all : ∀ i t, step s i = some t → (Inevitably step P t ↔ R)) : Inevitably step P s ↔ R := by
  constructor
  · intro must
    obtain ⟨i, t, next⟩ := moves
    cases must with
    | now here => exact absurd here notYet
    | later _ after => exact (all i t next).1 (after i t next)
  · intro holds
    exact .later moves fun i t next => (all i t next).2 holds

theorem Inevitably.not_of_stuck {P : σ → Prop} (notYet : ¬ P s) (stuck : ∀ i, step s i = none) : ¬ Inevitably step P s := by
  intro must
  cases must with
  | now here => exact notYet here
  | later moves _ =>
    obtain ⟨i, t, next⟩ := moves
    rw [stuck i] at next
    cases next

/-- Where `P` ends a run, a run that has stopped has met it. -/
theorem Inevitably.stopped {P : σ → Prop} (all : Inevitably step P s) (ends : ∀ u, P u → ∀ i, step u i = none)
    (h : run step s is = some t) (stuck : ∀ i, step t i = none) : P t := by
  induction all generalizing is with
  | now here =>
    cases is with
    | nil => cases h; exact here
    | cons i is =>
      obtain ⟨r, first, -⟩ := run_cons_iff.1 h
      rw [ends _ here i] at first
      cases first
  | later moves _ ih =>
    cases is with
    | nil =>
      cases h
      obtain ⟨i, t, next⟩ := moves
      rw [stuck i] at next
      cases next
    | cons i is =>
      obtain ⟨r, first, rest⟩ := run_cons_iff.1 h
      exact ih i r first rest

/-- **Termination rule.** A machine meets `P` if it can move until it does and every move lowers a measure. -/
theorem Inevitably.of_measure {P Q : σ → Prop} (μ : σ → Nat) (keep : ∀ s i t, Q s → step s i = some t → Q t)
    (less : ∀ s i t, Q s → step s i = some t → μ t < μ s) (moves : ∀ s, Q s → ¬ P s → ∃ i t, step s i = some t) (start : Q s) :
    Inevitably step P s := by
  generalize size : μ s = n
  induction n using Nat.strongRecOn generalizing s with
  | ind n ih =>
    by_cases here : P s
    · exact .now here
    · refine .later (moves s start here) ?_
      intro i t next
      exact ih (μ t) (size ▸ less s i t start next) (keep s i t start next) rfl

end ProxyBroker.Lib
