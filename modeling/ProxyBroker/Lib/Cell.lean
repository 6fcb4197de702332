import Mathlib.Data.List.Basic
import ProxyBroker.Lib.Machine

/-!
# A shared value without a lock

Threads call an operation that loads a shared value, computes from it and from an argument the next value
and an answer, and stores the next value. The load and the store are two steps, so calls overlap, and of two
that overlap one store can undo the other.

`held` lists the values there have been, the latest first. A relaxed load is answered with one of them, not
always with the latest: `back` says with which. `Cell.run_holds` is the invariant rule for what the operation
keeps; it needs nothing of the schedule.
-/

namespace ProxyBroker.Lib

/-- The shared value, the calls that are between their load and their store, and the answers given. -/
structure Cell (α ρ β : Type) where
  held : List α
  loaded : Nat → Option (α × ρ)
  answers : List (ρ × β)

namespace Cell

variable {α ρ β : Type}

/-- A thread makes a step of its call. -/
inductive Event (ρ : Type) where
  | load (thread : Nat) (arg : ρ) (back : Nat)
  | store (thread : Nat)

/-- Nothing has been called. -/
def init (x : α) : Cell α ρ β := ⟨[x], fun _ => none, []⟩

/-- A thread has loaded `x` for the argument `arg`. -/
def begin (c : Cell α ρ β) (thread : Nat) (x : α) (arg : ρ) : Cell α ρ β :=
  { c with loaded := fun t => if t = thread then some (x, arg) else c.loaded t }

/-- A thread stores what comes next and answers. -/
def finish (c : Cell α ρ β) (thread : Nat) (arg : ρ) (r : α × β) : Cell α ρ β where
  held := r.1 :: c.held
  loaded t := if t = thread then none else c.loaded t
  answers := (arg, r.2) :: c.answers

/-- A step; `none` where the thread is not at it, or where there is no value so far back. -/
def step (next : α → ρ → α × β) (c : Cell α ρ β) : Event ρ → Option (Cell α ρ β)
  | .load thread arg back =>
    match c.loaded thread with
    | some _ => none
    | none => c.held[back]?.map fun x => c.begin thread x arg
  | .store thread => (c.loaded thread).map fun call => c.finish thread call.2 (next call.1 call.2)

/-- What a step does. -/
inductive Move (next : α → ρ → α × β) (c : Cell α ρ β) : Event ρ → Cell α ρ β → Prop
  | load {thread back : Nat} {arg : ρ} {x : α} : c.loaded thread = none → x ∈ c.held →
      Move next c (.load thread arg back) (c.begin thread x arg)
  | store {thread : Nat} {arg : ρ} {x : α} : c.loaded thread = some (x, arg) →
      Move next c (.store thread) (c.finish thread arg (next x arg))

variable {next : α → ρ → α × β} {c d : Cell α ρ β} {i : Event ρ} {is : List (Event ρ)} {P : α → Prop}

theorem step_move (h : step next c i = some d) : Move next c i d := by
  cases i with
  | load thread arg back =>
    simp only [step] at h
    split at h
    · cases h
    · rename_i idle
      obtain ⟨x, there, rfl⟩ := Option.map_eq_some_iff.1 h
      exact .load idle (List.mem_of_getElem? there)
  | store thread =>
    obtain ⟨⟨x, arg⟩, inside, rfl⟩ := Option.map_eq_some_iff.1 h
    exact .store inside

/-! ## What the operation keeps -/

/-- `P` holds of every value there has been, and every answer was computed from such a value. -/
structure Holds (next : α → ρ → α × β) (P : α → Prop) (c : Cell α ρ β) : Prop where
  held : ∀ x ∈ c.held, P x
  loaded : ∀ thread x arg, c.loaded thread = some (x, arg) → P x
  answers : ∀ r ∈ c.answers, ∃ x, P x ∧ r.2 = (next x r.1).2

theorem holds_init {x : α} (start : P x) : Holds next P (init x : Cell α ρ β) where
  held y mem := by rw [List.mem_singleton.1 mem]; exact start
  loaded _ _ _ inside := nomatch inside
  answers _ mem := nomatch mem

theorem step_holds (closed : ∀ x arg, P x → P (next x arg).1) (holds : Holds next P c) (h : step next c i = some d) :
    Holds next P d := by
  cases step_move h with
  | @load thread back arg x idle mem =>
    refine ⟨holds.held, ?_, holds.answers⟩
    intro t y a inside
    by_cases same : t = thread
    · simp only [begin, if_pos same] at inside
      cases inside
      exact holds.held x mem
    · simp only [begin, if_neg same] at inside
      exact holds.loaded t y a inside
  | @store thread arg x inside =>
    have old : P x := holds.loaded thread x arg inside
    refine ⟨?_, ?_, ?_⟩
    · intro y mem
      rcases List.mem_cons.1 mem with rfl | before
      · exact closed x arg old
      · exact holds.held y before
    · intro t y a still
      by_cases same : t = thread
      · simp only [finish, if_pos same] at still
        cases still
      · simp only [finish, if_neg same] at still
        exact holds.loaded t y a still
    · intro r mem
      rcases List.mem_cons.1 mem with rfl | before
      · exact ⟨x, old, rfl⟩
      · exact holds.answers r before

/-- **Invariant rule.** What the operation keeps holds of every value, whatever the order of loads and stores. -/
theorem run_holds {x : α} (closed : ∀ x arg, P x → P (next x arg).1) (start : P x)
    (h : run (step next) (init x) is = some c) : Holds next P c :=
  run_preserves (fun _ _ _ holds moved => step_holds closed holds moved) (holds_init start) h

/-! ## Calls that do not overlap -/

/-- A call of one thread that loads the latest value. -/
def call (thread : Nat) (arg : ρ) : List (Event ρ) := [.load thread arg 0, .store thread]

/-- **One call after the other**: the value is stepped once by each. -/
theorem run_calls {x : α} {older : List α} (calls : List (Nat × ρ)) (latest : c.held = x :: older)
    (idle : ∀ thread, c.loaded thread = none) :
    ∃ d newer, run (step next) c (calls.flatMap fun k => call k.1 k.2) = some d ∧ (∀ thread, d.loaded thread = none) ∧
      d.held = calls.foldl (fun x k => (next x k.2).1) x :: newer := by
  induction calls generalizing c x older with
  | nil => exact ⟨c, older, rfl, idle, latest⟩
  | cons k calls ih =>
    have loads : step next c (.load k.1 k.2 0) = some (c.begin k.1 x k.2) := by
      simp only [step, idle, latest, List.getElem?_cons_zero, Option.map_some]
    have stores : step next (c.begin k.1 x k.2) (.store k.1) =
        some ((c.begin k.1 x k.2).finish k.1 k.2 (next x k.2)) := by
      simp only [step, begin, if_true, Option.map_some]
    have back : ∀ thread, ((c.begin k.1 x k.2).finish k.1 k.2 (next x k.2)).loaded thread = none := by
      intro thread
      by_cases same : thread = k.1
      · simp only [finish, if_pos same]
      · simp only [finish, begin, if_neg same, idle]
    obtain ⟨d, newer, ran, quiet, held⟩ := ih (c := (c.begin k.1 x k.2).finish k.1 k.2 (next x k.2)) rfl back
    refine ⟨d, newer, ?_, quiet, held⟩
    exact run_cons_iff.2 ⟨_, loads, run_cons_iff.2 ⟨_, stores, ran⟩⟩

end Cell

end ProxyBroker.Lib
