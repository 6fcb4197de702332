import Mathlib.Logic.Basic
import Mathlib.Order.Nat

/-!
# Waiting for a broadcast

A bell with a counter: a broadcast raises `epoch`, and a notification made at epoch `waker` has fired
once `waker < epoch`. A waiter makes its notification, looks, and waits when it finds nothing.
`pending` says that somebody is about to broadcast, `found` that a look would succeed.

`Alert` is what such a waiter may rely on. It survives every step that announces what it makes findable.
-/

namespace ProxyBroker.Lib

/-- The notification has fired, a broadcast is due, or there is nothing to find. -/
structure Alert (epoch : Nat) (pending found : Prop) (waker : Nat) : Prop where
  made : waker ≤ epoch
  unfired : waker = epoch → pending ∨ ¬ found

/-- A step announces what it makes findable: it broadcasts, or it leaves a broadcast due that was due and
for all that can be found afterwards and could not before. -/
structure Announces (epoch epoch' : Nat) (pending pending' found found' : Prop) : Prop where
  mono : epoch ≤ epoch'
  kept : pending → epoch < epoch' ∨ pending'
  found : found' → found ∨ epoch < epoch' ∨ pending'

variable {epoch epoch' waker : Nat} {pending pending' found found' set : Prop}

/-- **A waiter stays alert** over every step that announces what it makes findable. -/
theorem Alert.step (alert : Alert epoch pending found waker)
    (announces : Announces epoch epoch' pending pending' found found') : Alert epoch' pending' found' waker := by
  refine ⟨Nat.le_trans alert.made announces.mono, ?_⟩
  rintro rfl
  obtain rfl : waker = epoch := le_antisymm alert.made announces.mono
  rcases alert.unfired rfl with due | nothing
  · exact Or.inl ((announces.kept due).resolve_left (lt_irrefl waker))
  · by_cases due : pending'
    · exact Or.inl due
    · refine Or.inr fun there => ?_
      rcases announces.found there with before | rung | due'
      · exact nothing before
      · exact lt_irrefl waker rung
      · exact due due'

/-- A look that finds nothing, after the notification was made. -/
theorem Alert.look (made : waker ≤ epoch) (nothing : ¬ found) : Alert epoch pending found waker :=
  ⟨made, fun _ => Or.inr nothing⟩

/-- A second look, at a flag that is not set. -/
theorem Alert.flag (alert : Alert epoch pending found waker) (unset : ¬ set) : Alert epoch pending (set ∨ found) waker := by
  refine ⟨alert.made, fun same => (alert.unfired same).imp_right ?_⟩
  rintro nothing (isSet | there)
  · exact unset isSet
  · exact nothing there

/-- A notification that has not fired while no broadcast is due: there is nothing to find. -/
theorem Alert.nothing (alert : Alert epoch pending found waker) (quiet : ¬ pending) (unfired : ¬ waker < epoch) : ¬ found :=
  (alert.unfired (le_antisymm alert.made (not_lt.1 unfired))).resolve_left quiet

end ProxyBroker.Lib
