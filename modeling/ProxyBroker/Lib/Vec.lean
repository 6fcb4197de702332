import Mathlib.Data.List.Basic
import Mathlib.Data.List.Flatten
import Mathlib.Data.List.Perm.Basic
import Mathlib.Order.Lattice

/-!
# Vectors that are mutated by index

`swapRemove` is Rust's `Vec::swap_remove`: the element at `i` leaves and the last element takes its
place. `minBy` is `Iterator::min_by`, which keeps the first of several minima. `assocInsert` is
`HashMap::insert` on an association list. `exists_set_frame` is the frame rule for an update of one
position. `Covers` says in which piece of a concatenation a position lies.
-/

namespace ProxyBroker.Lib

variable {α β : Type}

/-- `Vec::swap_remove(i)`, without the returned element. Out of range it leaves the vector alone. -/
def swapRemove (l : List α) (i : Nat) : List α :=
  if i < l.length then
    match l.getLast? with
    | some x => (l.set i x).dropLast
    | none => l
  else l

theorem swapRemove_last (l : List α) (a : α) : swapRemove (l ++ [a]) l.length = l := by
  simp [swapRemove]

theorem swapRemove_mid (l r : List α) (a x : α) :
    swapRemove (l ++ a :: (r ++ [x])) l.length = l ++ x :: r := by
  have last : (l ++ a :: (r ++ [x])).getLast? = some x := by
    rw [List.getLast?_append, ← List.cons_append, List.getLast?_append]; rfl
  have moved : (l ++ a :: (r ++ [x])).set l.length x = (l ++ x :: r) ++ [x] := by simp
  rw [swapRemove, last, if_pos (by simp)]
  simp only [moved, List.dropLast_concat]

/-- The removed element and what `swapRemove` leaves are together the old vector. -/
theorem swapRemove_perm {l : List α} {i : Nat} {a : α} (h : l[i]? = some a) : (a :: swapRemove l i).Perm l := by
  obtain ⟨hi, rfl⟩ := List.getElem?_eq_some_iff.1 h
  obtain ⟨p, q, split, len⟩ : ∃ p q, l = p ++ l[i] :: q ∧ p.length = i :=
    ⟨l.take i, l.drop (i + 1), by simp, by simp; omega⟩
  generalize l[i] = a at split
  subst split len
  rcases List.eq_nil_or_concat q with rfl | ⟨r, x, rfl⟩
  · rw [swapRemove_last]
    exact (List.perm_append_singleton a p).symm
  · rw [List.concat_eq_append, swapRemove_mid]
    calc (a :: (p ++ x :: r)).Perm (p ++ a :: x :: r) := List.perm_middle.symm
      _ |>.Perm (p ++ a :: (r ++ [x])) := ((List.perm_append_singleton x r).symm.cons a).append_left p

/-- `Iterator::min_by`: the first element no other is below. -/
def minBy (lt : α → α → Bool) : List α → Option α
  | [] => none
  | a :: l => some (l.foldl (fun best b => if lt b best then b else best) a)

theorem foldl_minBy_mem (lt : α → α → Bool) (l : List α) (a : α) :
    l.foldl (fun best b => if lt b best then b else best) a ∈ a :: l := by
  induction l generalizing a with
  | nil => simp
  | cons b l ih =>
    rw [List.foldl_cons]
    by_cases below : lt b a = true
    · rw [if_pos below]
      exact List.mem_cons_of_mem a (ih b)
    · rw [if_neg below]
      rcases List.mem_cons.1 (ih a) with keep | later
      · rw [keep]; exact List.mem_cons_self
      · exact List.mem_cons_of_mem a (List.mem_cons_of_mem b later)

theorem minBy_mem {lt : α → α → Bool} {l : List α} {a : α} (h : minBy lt l = some a) : a ∈ l := by
  cases l with
  | nil => cases h
  | cons b l => cases h; exact foldl_minBy_mem lt l b

theorem minBy_eq_none {lt : α → α → Bool} {l : List α} : minBy lt l = none ↔ l = [] := by
  cases l <;> simp [minBy]

section Order
variable {κ : Type} [LinearOrder κ] {lt : α → α → Bool} {key : α → κ}

theorem foldl_minBy_spec (order : ∀ a b, lt a b = true ↔ key a < key b) (l : List α) (a : α) :
    ∃ before m after, l.foldl (fun best b => if lt b best then b else best) a = m ∧ a :: l = before ++ m :: after ∧
      (∀ b ∈ before, key m < key b) ∧ ∀ b ∈ after, key m ≤ key b := by
  induction l generalizing a with
  | nil => exact ⟨[], a, [], rfl, rfl, by simp, by simp⟩
  | cons b l ih =>
    rw [List.foldl_cons]
    by_cases below : lt b a = true
    · rw [if_pos below]
      obtain ⟨before, m, after, found, split, first, least⟩ := ih b
      refine ⟨a :: before, m, after, found, by rw [split]; rfl, ?_, least⟩
      have head : key m ≤ key b := by
        cases before with
        | nil =>
          obtain ⟨rfl, -⟩ := List.cons.inj split
          exact le_rfl
        | cons d before =>
          obtain ⟨rfl, -⟩ := List.cons.inj split
          exact (first b List.mem_cons_self).le
      intro c mem
      rcases List.mem_cons.1 mem with rfl | mem
      · exact lt_of_le_of_lt head ((order b c).1 below)
      · exact first c mem
    · rw [if_neg below]
      have above : key a ≤ key b := not_lt.1 (mt (order b a).2 below)
      obtain ⟨before, m, after, found, split, first, least⟩ := ih a
      cases before with
      | nil =>
        obtain ⟨rfl, rfl⟩ := List.cons.inj split
        refine ⟨[], a, b :: l, found, rfl, by simp, ?_⟩
        intro c mem
        rcases List.mem_cons.1 mem with rfl | mem
        · exact above
        · exact least c mem
      | cons d before =>
        obtain ⟨rfl, rest⟩ := List.cons.inj split
        refine ⟨a :: b :: before, m, after, found, by rw [rest]; rfl, ?_, least⟩
        intro c mem
        rcases List.mem_cons.1 mem with rfl | mem
        · exact first c List.mem_cons_self
        · rcases List.mem_cons.1 mem with rfl | mem
          · exact lt_of_lt_of_le (first a List.mem_cons_self) above
          · exact first c (List.mem_cons_of_mem a mem)

/-- **The first of the minima**: what stands before it is above it, and nothing is below it. -/
theorem minBy_spec (order : ∀ a b, lt a b = true ↔ key a < key b) {l : List α} {a : α} (h : minBy lt l = some a) :
    ∃ before after, l = before ++ a :: after ∧ (∀ b ∈ before, key a < key b) ∧ ∀ b ∈ after, key a ≤ key b := by
  cases l with
  | nil => cases h
  | cons b l =>
    obtain ⟨before, m, after, found, split⟩ := foldl_minBy_spec order l b
    cases h
    rw [found]
    exact ⟨before, after, split⟩

end Order

/-- `HashMap::insert`: the value of a key that is there is replaced. -/
def assocInsert [DecidableEq α] (key : α) (v : β) : List (α × β) → List (α × β)
  | [] => [(key, v)]
  | (k, w) :: rest => if k = key then (k, v) :: rest else (k, w) :: assocInsert key v rest

theorem lookup_assocInsert [DecidableEq α] [BEq α] [LawfulBEq α] (key k : α) (v : β) (l : List (α × β)) :
    (assocInsert key v l).lookup k = if k = key then some v else l.lookup k := by
  induction l with
  | nil =>
    rw [assocInsert, List.lookup_cons, List.lookup_nil]
    by_cases same : k = key
    · simp [same]
    · rw [beq_eq_false_iff_ne.2 same, if_neg same]
  | cons e l ih =>
    obtain ⟨x, w⟩ := e
    rw [assocInsert]
    by_cases here : x = key
    · rw [if_pos here, here, List.lookup_cons, List.lookup_cons]
      by_cases same : k = key
      · simp [same]
      · rw [beq_eq_false_iff_ne.2 same, if_neg same]
    · rw [if_neg here, List.lookup_cons, List.lookup_cons, ih]
      by_cases same : k = key
      · have other : k ≠ x := by
          rw [same]
          exact Ne.symm here
        rw [beq_eq_false_iff_ne.2 other, if_pos same]
      · simp [same]

theorem length_assocInsert [DecidableEq α] [BEq α] [LawfulBEq α] (key : α) (v : β) (l : List (α × β)) :
    (assocInsert key v l).length = if (l.lookup key).isNone then l.length + 1 else l.length := by
  induction l with
  | nil => rfl
  | cons e l ih =>
    obtain ⟨x, w⟩ := e
    rw [assocInsert, List.lookup_cons]
    by_cases here : x = key
    · simp [here]
    · rw [if_neg here, List.length_cons, ih, beq_eq_false_iff_ne.2 (Ne.symm here)]
      dsimp only
      split <;> rfl

/-- A key of a map with distinct keys has one value. -/
theorem lookup_of_mem [BEq α] [LawfulBEq α] {l : List (α × β)} {k : α} {v : β} (keys : (l.map Prod.fst).Nodup)
    (mem : (k, v) ∈ l) : l.lookup k = some v := by
  induction l with
  | nil => cases mem
  | cons e l ih =>
    obtain ⟨x, w⟩ := e
    obtain ⟨fresh, rest⟩ := List.nodup_cons.1 keys
    rw [List.lookup_cons]
    rcases List.mem_cons.1 mem with eq | later
    · cases eq
      simp
    · have other : k ≠ x := by
        rintro rfl
        exact fresh (List.mem_map.2 ⟨(k, v), later, rfl⟩)
      rw [beq_eq_false_iff_ne.2 other]
      exact ih rest later

theorem mem_of_lookup [BEq α] [LawfulBEq α] {l : List (α × β)} {k : α} {v : β} (h : l.lookup k = some v) : (k, v) ∈ l := by
  obtain ⟨before, after, split, -⟩ := List.lookup_eq_some_iff.1 h
  rw [split]
  simp

/-- Entries that are dropped change no value that is left. -/
theorem lookup_of_sublist [BEq α] [LawfulBEq α] {l r : List (α × β)} {k : α} {v : β} (keys : (l.map Prod.fst).Nodup)
    (fewer : r.Sublist l) (h : r.lookup k = some v) : l.lookup k = some v :=
  lookup_of_mem keys (fewer.subset (mem_of_lookup h))

theorem nodup_keys_assocInsert [DecidableEq α] {l : List (α × β)} {key : α} {v : β} (keys : (l.map Prod.fst).Nodup) :
    ((assocInsert key v l).map Prod.fst).Nodup := by
  have names (l : List (α × β)) : ∀ k ∈ (assocInsert key v l).map Prod.fst, k = key ∨ k ∈ l.map Prod.fst := by
    induction l with
    | nil => simp [assocInsert]
    | cons e l ih =>
      intro k mem
      rw [assocInsert] at mem
      split at mem
      · exact Or.inr mem
      · rcases List.mem_cons.1 mem with rfl | mem
        · simp
        · exact (ih k mem).imp_right (List.mem_cons_of_mem _)
  induction l with
  | nil => simp [assocInsert]
  | cons e l ih =>
    obtain ⟨x, w⟩ := e
    obtain ⟨fresh, rest⟩ := List.nodup_cons.1 keys
    rw [assocInsert]
    by_cases here : x = key
    · rw [if_pos here]
      exact keys
    · rw [if_neg here]
      refine List.nodup_cons.2 ⟨?_, ih rest⟩
      intro mem
      rcases names l x mem with same | mem
      · exact here same
      · exact fresh mem

/-- An entry of a vector after a push was there before, or is the pushed one. -/
theorem getElem?_concat_cases {l : List α} {a b : α} {i : Nat} (h : (l ++ [a])[i]? = some b) : l[i]? = some b ∨ b = a := by
  by_cases before : i < l.length
  · rw [List.getElem?_append_left before] at h
    exact Or.inl h
  · rw [List.getElem?_append_right (Nat.le_of_not_lt before)] at h
    exact Or.inr (List.mem_singleton.1 (List.mem_of_getElem? h))

/-- The frame of position `i`: an update there leaves what is before and after it. -/
theorem exists_set_frame {l : List α} {i : Nat} {a : α} (h : l[i]? = some a) :
    ∃ before after, l = before ++ a :: after ∧ ∀ b, l.set i b = before ++ b :: after := by
  induction l generalizing i with
  | nil => cases h
  | cons c l ih =>
    cases i with
    | zero => cases h; exact ⟨[], l, rfl, fun _ => rfl⟩
    | succ i =>
      obtain ⟨before, after, rfl, set⟩ := ih h
      refine ⟨c :: before, after, rfl, ?_⟩
      intro b
      rw [List.set_cons_succ, set]
      rfl

/-! ## Blocks -/

/-- Whole blocks and single pieces that are filtered leave the same pieces exactly when no block mixes
pieces that stay with pieces that go. -/
theorem filter_blocks_iff (bs : List α) (pieces : α → List β) (keep : α → Bool) (stay : β → Bool) :
    (bs.filter keep).flatMap pieces = (bs.flatMap pieces).filter stay ↔ ∀ b ∈ bs, ∀ p ∈ pieces b, stay p = keep b := by
  constructor
  · intro same
    have kept : ∀ b ∈ bs, keep b = true → ∀ p ∈ pieces b, stay p = true := by
      intro b mem keeps p here
      have there : p ∈ (bs.flatMap pieces).filter stay := by
        rw [← same]
        exact List.mem_flatMap.2 ⟨b, List.mem_filter.2 ⟨mem, keeps⟩, here⟩
      exact (List.mem_filter.1 there).2
    induction bs with
    | nil => simp
    | cons b bs ih =>
      have later := fun c mem => kept c (List.mem_cons_of_mem b mem)
      have more : ((bs.filter keep).flatMap pieces).length ≤ ((bs.flatMap pieces).filter stay).length := by
        have stays : ((bs.filter keep).flatMap pieces).filter stay = (bs.filter keep).flatMap pieces := by
          refine List.filter_eq_self.2 fun p mem => ?_
          obtain ⟨c, at_c, here⟩ := List.mem_flatMap.1 mem
          obtain ⟨mem, keeps⟩ := List.mem_filter.1 at_c
          exact later c mem keeps p here
        rw [← stays]
        exact ((List.filter_sublist.flatMap pieces).filter stay).length_le
      rw [List.flatMap_cons, List.filter_append] at same
      cases keeps : keep b with
      | true =>
        have all : (pieces b).filter stay = pieces b := List.filter_eq_self.2 (kept b List.mem_cons_self keeps)
        rw [List.filter_cons_of_pos keeps, List.flatMap_cons, all] at same
        intro c mem p here
        rcases List.mem_cons.1 mem with rfl | mem
        · rw [keeps, kept c List.mem_cons_self keeps p here]
        · exact ih (List.append_cancel_left same) later c mem p here
      | false =>
        rw [List.filter_cons_of_neg (by simp [keeps])] at same
        have none : (pieces b).filter stay = [] := by
          have length := congrArg List.length same
          rw [List.length_append] at length
          exact List.eq_nil_of_length_eq_zero (by omega)
        intro c mem p here
        rcases List.mem_cons.1 mem with rfl | mem
        · rw [keeps]
          exact Bool.eq_false_iff.2 (List.filter_eq_nil_iff.1 none p here)
        · rw [none, List.nil_append] at same
          exact ih same later c mem p here
  · intro one
    induction bs with
    | nil => rfl
    | cons b bs ih =>
      have rest := ih fun c mem => one c (List.mem_cons_of_mem b mem)
      have here := one b List.mem_cons_self
      rw [List.flatMap_cons, List.filter_append, ← rest]
      cases keeps : keep b with
      | true =>
        rw [List.filter_cons_of_pos keeps, List.flatMap_cons, List.filter_eq_self.2 fun p mem => (here p mem).trans keeps]
      | false =>
        have none : (pieces b).filter stay = [] := by
          refine List.filter_eq_nil_iff.2 fun p mem => ?_
          rw [here p mem, keeps]
          decide
        rw [List.filter_cons_of_neg (by simp [keeps]), none, List.nil_append]

/-- As `filter_blocks_iff`, between pieces that are never removed. -/
theorem filter_between_iff {a k m r : List β} {stay : β → Bool} :
    a ++ k ++ r = (a ++ m ++ r).filter stay ↔ (∀ p ∈ a, stay p = true) ∧ k = m.filter stay ∧ ∀ p ∈ r, stay p = true := by
  rw [List.filter_append, List.filter_append]
  constructor
  · intro same
    have stays (p : β) (mem : p ∈ a ++ k ++ r) : stay p = true := by
      rw [same, ← List.filter_append, ← List.filter_append] at mem
      exact (List.mem_filter.1 mem).2
    have left : ∀ p ∈ a, stay p = true := fun p mem => stays p (by simp [mem])
    have right : ∀ p ∈ r, stay p = true := fun p mem => stays p (by simp [mem])
    rw [List.filter_eq_self.2 left, List.filter_eq_self.2 right] at same
    exact ⟨left, List.append_cancel_left (List.append_cancel_right same), right⟩
  · rintro ⟨left, rfl, right⟩
    rw [List.filter_eq_self.2 left, List.filter_eq_self.2 right]

/-! ## Positions in a concatenation -/

/-- Position `k` of `ls.flatten` lies in the piece `l`, which comes after the pieces `before`. -/
def Covers (ls : List (List α)) (k : Nat) (before : List (List α)) (l : List α) : Prop :=
  ∃ after, ls = before ++ l :: after ∧ before.flatten.length ≤ k ∧ k < before.flatten.length + l.length

theorem exists_covers {ls : List (List α)} {k : Nat} (h : k < ls.flatten.length) : ∃ before l, Covers ls k before l := by
  induction ls generalizing k with
  | nil => simp at h
  | cons x ls ih =>
    by_cases here : k < x.length
    · exact ⟨[], x, ls, rfl, by simp, by simpa using here⟩
    · have later : k - x.length < ls.flatten.length := by
        rw [List.flatten_cons, List.length_append] at h
        omega
      obtain ⟨before, l, after, rfl, low, high⟩ := ih later
      refine ⟨x :: before, l, after, rfl, ?_, ?_⟩ <;> rw [List.flatten_cons, List.length_append] <;> omega

/-- A position lies in one piece only. -/
theorem Covers.unique {ls : List (List α)} {k : Nat} {before before' : List (List α)} {l l' : List α}
    (h : Covers ls k before l) (h' : Covers ls k before' l') : before = before' ∧ l = l' := by
  obtain ⟨after, rfl, low, high⟩ := h
  obtain ⟨after', eq, low', high'⟩ := h'
  induction before generalizing before' k with
  | nil =>
    cases before' with
    | nil => cases eq; exact ⟨rfl, rfl⟩
    | cons x before' =>
      cases eq
      rw [List.flatten_cons, List.length_append] at low'
      simp only [List.flatten_nil, List.length_nil] at high
      omega
  | cons x before ih =>
    cases before' with
    | nil =>
      cases eq
      rw [List.flatten_cons, List.length_append] at low
      simp only [List.flatten_nil, List.length_nil] at high'
      omega
    | cons x' before' =>
      simp only [List.cons_append, List.cons.injEq] at eq
      obtain ⟨rfl, eq⟩ := eq
      simp only [List.flatten_cons, List.length_append] at low high low' high'
      obtain ⟨rfl, rfl⟩ := ih (k := k - x.length) (by omega) (by omega) eq (by omega) (by omega)
      exact ⟨rfl, rfl⟩

theorem Covers.lt {ls : List (List α)} {k : Nat} {before : List (List α)} {l : List α} (h : Covers ls k before l) :
    k < ls.flatten.length := by
  obtain ⟨after, rfl, low, high⟩ := h
  simp only [List.flatten_append, List.flatten_cons, List.length_append]
  omega

/-- The piece holds what is at the position. -/
theorem Covers.getElem? {ls : List (List α)} {k : Nat} {before : List (List α)} {l : List α} (h : Covers ls k before l) :
    ls.flatten[k]? = l[k - before.flatten.length]? := by
  obtain ⟨after, rfl, low, high⟩ := h
  rw [List.flatten_append, List.flatten_cons, List.getElem?_append_right low, List.getElem?_append_left (by omega)]

theorem covers_map (f : α → β) {ls : List (List α)} {k : Nat} {before : List (List β)} {l : List β} :
    Covers (ls.map (List.map f)) k before l ↔
      ∃ b x, Covers ls k b x ∧ before = b.map (List.map f) ∧ l = x.map f := by
  have len (b : List (List α)) : (b.map (List.map f)).flatten.length = b.flatten.length := by
    rw [← List.map_flatten, List.length_map]
  constructor
  · rintro ⟨after, eq, low, high⟩
    obtain ⟨b, rest, rfl, rfl, eq'⟩ := List.map_eq_append_iff.1 eq
    obtain ⟨x, c, rfl, rfl, -⟩ := List.map_eq_cons_iff.1 eq'
    rw [len] at low high
    exact ⟨b, x, ⟨c, rfl, low, by simpa using high⟩, rfl, rfl⟩
  · rintro ⟨b, x, ⟨after, rfl, low, high⟩, rfl, rfl⟩
    refine ⟨after.map (List.map f), by simp, ?_, ?_⟩
    · rwa [len]
    · rwa [len, List.length_map]

end ProxyBroker.Lib
