import Mathlib.Data.List.Perm.Basic
import ProxyBroker.Lib.Machine

/-!
# A bounded number of jobs at a time

Jobs start in the order of a list, at most `n` are in flight, and those in flight end in any order
(`StreamExt::buffer_unordered(n)`). `Completes n jobs order` says that they can end in the order `order`.

Such an order is a permutation of the jobs, but not every permutation is one. `firstDone_iff` says what a
reader that waits for the first job of some kind can get: one of the first `n` jobs of that kind.
-/

namespace ProxyBroker.Lib.Buffered

variable {α β : Type}

/-- The jobs that wait, those in flight, and those that have ended. -/
structure State (α : Type) where
  waiting : List α
  flying : List α
  ended : List α

inductive Event where
  | start
  | finish (k : Nat)
deriving DecidableEq, Repr

def step (n : Nat) (s : State α) : Event → Option (State α)
  | .start =>
    match s.waiting with
    | a :: rest => if s.flying.length < n then some ⟨rest, s.flying ++ [a], s.ended⟩ else none
    | [] => none
  | .finish k =>
    match s.flying[k]? with
    | some a => some ⟨s.waiting, s.flying.eraseIdx k, s.ended ++ [a]⟩
    | none => none

/-- The jobs can end in this order. -/
def Completes (n : Nat) (jobs order : List α) : Prop := ∃ is, run (step n) ⟨jobs, [], []⟩ is = some ⟨[], [], order⟩

variable {n : Nat} {jobs order : List α} {s t : State α} {f : α → Option β} {y : β}

/-- The jobs that were started, and where they are. -/
structure Accounts (n : Nat) (jobs : List α) (s : State α) : Prop where
  account : ∃ started, jobs = started ++ s.waiting ∧ (s.flying ++ s.ended).Perm started
  room : s.flying.length ≤ n

theorem eraseIdx_perm {l : List α} {k : Nat} {a : α} (at_k : l[k]? = some a) : (a :: l.eraseIdx k).Perm l := by
  obtain ⟨lt, rfl⟩ := List.getElem?_eq_some_iff.1 at_k
  rw [List.eraseIdx_eq_take_drop_succ]
  refine List.perm_middle.symm.trans (List.Perm.of_eq ?_)
  rw [List.getElem_cons_drop, List.take_append_drop]

theorem accounts_step {i : Event} (acc : Accounts n jobs s) (h : step n s i = some t) : Accounts n jobs t := by
  obtain ⟨⟨started, split, perm⟩, room⟩ := acc
  unfold step at h
  split at h
  · split at h
    · rename_i a rest waits
      split at h
      · rename_i free
        cases h
        refine ⟨⟨started ++ [a], by rw [split, waits]; simp, ?_⟩, by simp; omega⟩
        refine List.Perm.trans ?_ (perm.append_right [a])
        rw [List.append_assoc, List.append_assoc]
        exact List.Perm.append_left _ List.perm_append_comm
      · cases h
    · cases h
  · split at h
    · rename_i k _ a at_k
      cases h
      have out := eraseIdx_perm at_k
      refine ⟨⟨started, split, List.Perm.trans ?_ perm⟩, ?_⟩
      · refine List.Perm.trans ?_ (out.append_right s.ended)
        rw [← List.append_assoc]
        exact List.perm_append_comm
      · have len := out.length_eq
        rw [List.length_cons] at len
        show (s.flying.eraseIdx k).length ≤ n
        omega
    · cases h

/-- Every job ends once. -/
theorem Completes.perm (completes : Completes n jobs order) : order.Perm jobs := by
  obtain ⟨is, h⟩ := completes
  have begins : Accounts n jobs ⟨jobs, [], []⟩ := ⟨⟨[], rfl, List.Perm.refl []⟩, Nat.zero_le n⟩
  obtain ⟨⟨started, split, perm⟩, -⟩ := run_preserves (fun _ _ _ acc next => accounts_step acc next) begins h
  rw [split, List.append_nil]
  exact perm

/-! ## The first job of a kind -/

/-- The first job of the kind that ends was in flight with all those before it. -/
theorem first_step {i : Event} (acc : Accounts n jobs s) (h : step n s i = some t)
    (before : ∀ y, s.ended.findSome? f = some y → y ∈ (jobs.filterMap f).take n) :
    ∀ y, t.ended.findSome? f = some y → y ∈ (jobs.filterMap f).take n := by
  obtain ⟨⟨started, split, perm⟩, room⟩ := acc
  unfold step at h
  split at h
  · split at h
    · split at h
      · cases h
        exact before
      · cases h
    · cases h
  · split at h
    · rename_i k _ a at_k
      cases h
      intro y found
      rw [List.findSome?_append] at found
      cases earlier : s.ended.findSome? f with
      | some z =>
        rw [earlier] at found
        exact before y (earlier.trans found)
      | none =>
        rw [earlier, Option.none_or] at found
        have kind : f a = some y := by simpa using found
        have none : s.ended.filterMap f = [] := by
          rw [List.filterMap_eq_nil_iff]
          exact List.findSome?_eq_none_iff.1 earlier
        have same : (s.flying.filterMap f).Perm (started.filterMap f) := by
          have all := perm.filterMap f
          rwa [List.filterMap_append, none, List.append_nil] at all
        have short : (started.filterMap f).length ≤ n := by
          rw [← same.length_eq]
          exact Nat.le_trans (List.length_filterMap_le f s.flying) room
        have mem : y ∈ started.filterMap f := same.subset (List.mem_filterMap.2 ⟨a, List.mem_of_getElem? at_k, kind⟩)
        have part : started.filterMap f <+: (jobs.filterMap f).take n := by
          rw [List.prefix_take_iff, split, List.filterMap_append]
          exact ⟨List.prefix_append _ _, short⟩
        exact part.subset mem
    · cases h

/-- Jobs in flight can end one after the other, and then those that wait can run one by one. -/
theorem drain (positive : 0 < n) (s : State α) : ∃ is more, run (step n) s is = some ⟨[], [], s.ended ++ more⟩ := by
  obtain ⟨waiting, flying, ended⟩ := s
  induction flying generalizing ended with
  | cons a flying ih =>
    obtain ⟨is, more, ran⟩ := ih (ended ++ [a])
    refine ⟨.finish 0 :: is, a :: more, ?_⟩
    rw [List.append_cons]
    exact run_cons_iff.2 ⟨⟨waiting, flying, ended ++ [a]⟩, rfl, ran⟩
  | nil =>
    induction waiting generalizing ended with
    | nil => exact ⟨[], [], by rw [List.append_nil]; rfl⟩
    | cons a waiting ih =>
      obtain ⟨is, more, ran⟩ := ih (ended ++ [a])
      refine ⟨.start :: .finish 0 :: is, a :: more, ?_⟩
      rw [List.append_cons]
      refine run_cons_iff.2 ⟨⟨waiting, [a], ended⟩, if_pos positive, run_cons_iff.2 ⟨⟨waiting, [], ended ++ [a]⟩, rfl, ran⟩⟩

/-- The jobs of the kind can be kept in flight while the others pass, as long as there is room for one more. -/
theorem overtake (f : α → Option β) (before rest flying ended : List α)
    (room : flying.length + (before.filterMap f).length < n) : ∃ is kept, kept.length = (before.filterMap f).length ∧
      run (step n) ⟨before ++ rest, flying, ended⟩ is =
        some ⟨rest, flying ++ kept, ended ++ before.filter fun a => (f a).isNone⟩ := by
  induction before generalizing flying ended with
  | nil => exact ⟨[], [], rfl, by simp⟩
  | cons a before ih =>
    have free : flying.length < n := by omega
    have started : step n ⟨a :: before ++ rest, flying, ended⟩ .start = some ⟨before ++ rest, flying ++ [a], ended⟩ := if_pos free
    cases kind : f a with
    | some y =>
      rw [List.filterMap_cons_some kind, List.length_cons] at room
      obtain ⟨is, kept, len, ran⟩ := ih (flying ++ [a]) ended (by simp; omega)
      refine ⟨.start :: is, a :: kept, by rw [List.filterMap_cons_some kind, List.length_cons, List.length_cons, len], ?_⟩
      rw [List.append_cons, List.filter_cons_of_neg (by simp [kind])]
      exact run_cons_iff.2 ⟨_, started, ran⟩
    | none =>
      rw [List.filterMap_cons_none kind] at room
      obtain ⟨is, kept, len, ran⟩ := ih flying (ended ++ [a]) room
      have finished : step n ⟨before ++ rest, flying ++ [a], ended⟩ (.finish flying.length) =
          some ⟨before ++ rest, flying, ended ++ [a]⟩ := by
        simp [step, List.eraseIdx_append_of_length_le]
      refine ⟨.start :: .finish flying.length :: is, kept, by rw [List.filterMap_cons_none kind, len], ?_⟩
      rw [List.filter_cons_of_pos (by simp [kind]), List.append_cons]
      exact run_cons_iff.2 ⟨_, started, run_cons_iff.2 ⟨_, finished, ran⟩⟩

theorem mem_take_filterMap (mem : y ∈ (jobs.filterMap f).take n) :
    ∃ before a after, jobs = before ++ a :: after ∧ f a = some y ∧ (before.filterMap f).length < n := by
  induction jobs generalizing n with
  | nil => simp at mem
  | cons b jobs ih =>
    cases n with
    | zero => simp at mem
    | succ n =>
      cases kind : f b with
      | none =>
        rw [List.filterMap_cons_none kind] at mem
        obtain ⟨before, a, after, rfl, found, short⟩ := ih mem
        exact ⟨b :: before, a, after, rfl, found, by rwa [List.filterMap_cons_none kind]⟩
      | some z =>
        rw [List.filterMap_cons_some kind, List.take_succ_cons] at mem
        rcases List.mem_cons.1 mem with rfl | mem
        · exact ⟨[], b, jobs, rfl, kind, Nat.succ_pos n⟩
        · obtain ⟨before, a, after, rfl, found, short⟩ := ih mem
          exact ⟨b :: before, a, after, rfl, found, by rw [List.filterMap_cons_some kind, List.length_cons]; omega⟩

/-- **The first job of a kind.** The jobs can end in an order in which the first of the kind yields `y`, if and
only if one of the first `n` jobs of the kind does. -/
theorem firstDone_iff : (∃ order, Completes n jobs order ∧ order.findSome? f = some y) ↔ y ∈ (jobs.filterMap f).take n := by
  constructor
  · rintro ⟨order, ⟨is, h⟩, found⟩
    have begins : Accounts n jobs ⟨jobs, [], []⟩ := ⟨⟨[], rfl, List.Perm.refl []⟩, Nat.zero_le n⟩
    refine (run_preserves (P := fun s => Accounts n jobs s ∧ ∀ y, s.ended.findSome? f = some y → y ∈ (jobs.filterMap f).take n)
      ?_ ⟨begins, ?_⟩ h).2 y found
    · rintro s i t ⟨acc, before⟩ next
      exact ⟨accounts_step acc next, first_step acc next before⟩
    · intro y none
      cases none
  · intro mem
    obtain ⟨before, a, after, rfl, kind, short⟩ := mem_take_filterMap mem
    obtain ⟨is, kept, len, ran⟩ := overtake (n := n) f before (a :: after) [] [] (by simpa)
    have room : kept.length < n := by omega
    have started : step n ⟨a :: after, [] ++ kept, [] ++ before.filter fun a => (f a).isNone⟩ .start =
        some ⟨after, kept ++ [a], before.filter fun a => (f a).isNone⟩ := if_pos room
    have finished : step n ⟨after, kept ++ [a], before.filter fun a => (f a).isNone⟩ (.finish kept.length) =
        some ⟨after, kept, (before.filter fun a => (f a).isNone) ++ [a]⟩ := by
      simp [step, List.eraseIdx_append_of_length_le]
    obtain ⟨js, more, drained⟩ := drain (n := n) (by omega) ⟨after, kept, (before.filter fun a => (f a).isNone) ++ [a]⟩
    refine ⟨(before.filter fun a => (f a).isNone) ++ [a] ++ more, ⟨is ++ .start :: .finish kept.length :: js, ?_⟩, ?_⟩
    · rw [run_append ran]
      exact run_cons_iff.2 ⟨_, started, run_cons_iff.2 ⟨_, finished, drained⟩⟩
    · have none : (before.filter fun a => (f a).isNone).findSome? f = none := by
        rw [List.findSome?_eq_none_iff]
        intro b mem
        simpa using (List.mem_filter.1 mem).2
      rw [List.findSome?_append, List.findSome?_append, none, List.findSome?_singleton, kind]
      rfl

end ProxyBroker.Lib.Buffered
