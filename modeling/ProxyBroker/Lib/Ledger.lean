import Mathlib.Algebra.Order.Group.Multiset
import Mathlib.Tactic.Abel

/-!
# A ledger of items that are lent out

Items are admitted to a pool, lent to holders, and come back or leave for good. `Ledger` keeps, as
multisets, the items at each place and all that were ever admitted. `Step` is one movement; its index
is the item that the movement admits, if it admits one. Two facts carry every use: nothing is lost or
duplicated (`Step.conserves`), and what is in the pool or lent out was there before or has just been
admitted (`Step.live_le`).
-/

namespace ProxyBroker.Lib

/-- A list that grows at its end, as a multiset. -/
theorem coe_concat {ι : Type} (l : List ι) (x : ι) : ((l ++ [x] : List ι) : Multiset ι) = x ::ₘ (l : Multiset ι) :=
  Multiset.coe_eq_coe.2 (List.perm_append_singleton x l)

/-- Where the items are. -/
structure Ledger (ι : Type) where
  pooled : Multiset ι
  held : Multiset ι
  evicted : Multiset ι
  removed : Multiset ι
  handed : Multiset ι
  admitted : Multiset ι

namespace Ledger
variable {ι : Type} {l m : Ledger ι} {new : Option ι}

/-- One movement of an item. -/
inductive Step : Option ι → Ledger ι → Ledger ι → Prop
  | idle {l : Ledger ι} : Step none l l
  | enroll {l : Ledger ι} (x : ι) : Step (some x) l { l with pooled := x ::ₘ l.pooled, admitted := x ::ₘ l.admitted }
  | take {l : Ledger ι} (x : ι) (rest : Multiset ι) : l.pooled = x ::ₘ rest →
      Step none l { l with pooled := rest, held := x ::ₘ l.held }
  | put {l : Ledger ι} (x : ι) (rest : Multiset ι) : l.held = x ::ₘ rest →
      Step none l { l with pooled := x ::ₘ l.pooled, held := rest }
  | evict {l : Ledger ι} (x : ι) (rest : Multiset ι) : l.held = x ::ₘ rest →
      Step none l { l with held := rest, evicted := x ::ₘ l.evicted }
  | remove {l : Ledger ι} (gone kept : Multiset ι) : l.pooled = gone + kept →
      Step none l { l with pooled := kept, removed := gone + l.removed }
  | handOut {l : Ledger ι} (x : ι) (rest : Multiset ι) : l.pooled = x ::ₘ rest →
      Step none l { l with pooled := rest, handed := x ::ₘ l.handed }

/-- Every item is at one place. -/
def Conserved (l : Ledger ι) : Prop := l.pooled + l.held + l.evicted + l.removed + l.handed = l.admitted

/-- The items that are in the pool or may come back to it. -/
def live (l : Ledger ι) : Multiset ι := l.pooled + l.held

/-- **Conservation.** -/
theorem Step.conserves (step : Step new l m) (conserved : l.Conserved) : m.Conserved := by
  unfold Conserved at conserved ⊢
  cases step with
  | idle => exact conserved
  | enroll x => simp only [Multiset.cons_add, conserved]
  | take x rest eq =>
    rw [← conserved, eq]
    simp only [Multiset.cons_add, Multiset.add_cons]
  | put x rest eq =>
    rw [← conserved, eq]
    simp only [Multiset.cons_add, Multiset.add_cons]
  | evict x rest eq =>
    rw [← conserved, eq]
    simp only [Multiset.cons_add, Multiset.add_cons]
  | remove gone kept eq =>
    show kept + l.held + l.evicted + (gone + l.removed) + l.handed = l.admitted
    rw [← conserved, eq]
    abel
  | handOut x rest eq =>
    rw [← conserved, eq]
    simp only [Multiset.cons_add, Multiset.add_cons]

/-- **Nothing comes alive but by admission.** -/
theorem Step.live_le (step : Step new l m) : m.live ≤ (new.toList : Multiset ι) + l.live := by
  unfold live
  cases step with
  | idle => simp
  | enroll x => simp [Multiset.cons_add]
  | take x rest eq => simp [eq, Multiset.cons_add, Multiset.add_cons]
  | put x rest eq => simp [eq, Multiset.cons_add, Multiset.add_cons]
  | evict x rest eq =>
    simp only [eq, Option.toList_none, Multiset.coe_nil, zero_add, Multiset.add_cons]
    exact Multiset.le_cons_self _ x
  | remove gone kept eq =>
    simp only [eq, Option.toList_none, Multiset.coe_nil, zero_add, add_assoc]
    exact Multiset.le_add_left _ gone
  | handOut x rest eq =>
    simp only [eq, Option.toList_none, Multiset.coe_nil, zero_add, Multiset.cons_add]
    exact Multiset.le_cons_self _ x

/-- A live item stays of a kind when every admitted one is. -/
theorem Step.forall_live {P : ι → Prop} (step : Step new l m) (all : ∀ x ∈ l.live, P x) (ok : ∀ x ∈ new, P x) :
    ∀ x ∈ m.live, P x := by
  intro x mem
  rcases Multiset.mem_add.1 (Multiset.mem_of_le step.live_le mem) with fresh | old
  · exact ok x (by simpa [Option.mem_toList] using fresh)
  · exact all x old

/-- A label stays unique among the live items when every admitted one brings a new label. -/
theorem Step.nodup_live {β : Type} {label : ι → β} (step : Step new l m) (distinct : (l.live.map label).Nodup)
    (ok : ∀ x ∈ new, label x ∉ l.live.map label) : (m.live.map label).Nodup := by
  apply Multiset.nodup_of_le (Multiset.map_le_map step.live_le)
  cases new with
  | none => simpa using distinct
  | some x => simpa using ⟨by simpa using ok x rfl, distinct⟩

end Ledger

end ProxyBroker.Lib
