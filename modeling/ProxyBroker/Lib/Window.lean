import ProxyBroker.Lib.Vec

/-!
# Rings of the last samples

A ring keeps the last `cap` samples that were pushed. `Rings` keeps one for every key. `lookup_pushAll` says what is in
the ring of a key after any pushes: the last `cap` samples of that key, and nothing of the others.
-/

namespace ProxyBroker.Lib

variable {κ β : Type} {cap : Nat} {l xs ys : List β}

/-- `while ring.len() > cap { ring.pop_front(); }`. -/
def popFront (cap : Nat) : List β → List β
  | [] => []
  | x :: l => if cap < (x :: l).length then popFront cap l else x :: l

/-- The last `n` of a list. -/
def lastN (n : Nat) (l : List β) : List β := l.drop (l.length - n)

theorem popFront_eq (cap : Nat) (l : List β) : popFront cap l = lastN cap l := by
  induction l with
  | nil => exact List.drop_nil.symm
  | cons x l ih =>
    unfold popFront lastN
    split
    · rename_i long
      have one : (x :: l).length - cap = l.length - cap + 1 := by
        rw [List.length_cons] at long ⊢
        omega
      rw [ih, one, List.drop_succ_cons, lastN]
    · rename_i short
      have none : (x :: l).length - cap = 0 := by omega
      rw [none, List.drop_zero]

/-- What is dropped once is dropped for good. -/
theorem lastN_append (n : Nat) (xs ys : List β) : lastN n (lastN n xs ++ ys) = lastN n (xs ++ ys) := by
  have front : lastN n xs ++ ys = (xs ++ ys).drop (xs.length - n) :=
    (List.drop_append_of_le_length (Nat.sub_le _ _)).symm
  unfold lastN at front ⊢
  rw [front, List.drop_drop, List.length_drop, List.length_append]
  apply congrArg fun k => (xs ++ ys).drop k
  omega

theorem lastN_ne_nil {n : Nat} (pos : 0 < n) (some : l ≠ []) : lastN n l ≠ [] := by
  have length := List.length_pos_of_ne_nil some
  intro empty
  have all := List.drop_eq_nil_iff.1 empty
  omega

/-! ## A ring for every key -/

section
variable [DecidableEq κ] [BEq κ] [LawfulBEq κ] {rings : List (κ × List β)} {pushed : κ → List β}

/-- `rings.entry(k).or_default().push_back(x)`, and what is too old is dropped. -/
def ringPush (cap : Nat) (rings : List (κ × List β)) (k : κ) (x : β) : List (κ × List β) :=
  assocInsert k (popFront cap ((rings.lookup k).getD [] ++ [x])) rings

/-- The ring of a key to which `xs` were pushed; there is none before the first push. -/
def ringOf (cap : Nat) (xs : List β) : Option (List β) := if xs = [] then none else some (lastN cap xs)

theorem getD_ringOf (cap : Nat) (xs : List β) : (ringOf cap xs).getD [] = lastN cap xs := by
  unfold ringOf
  split
  · rename_i empty
    rw [empty]
    exact List.drop_nil.symm
  · rfl

/-- One push. -/
theorem lookup_push (holds : ∀ k, rings.lookup k = ringOf cap (pushed k)) (k j : κ) (x : β) :
    (ringPush cap rings k x).lookup j = ringOf cap (pushed j ++ if k = j then [x] else []) := by
  rw [ringPush, lookup_assocInsert]
  by_cases same : j = k
  · subst same
    rw [if_pos rfl, if_pos rfl, popFront_eq, holds, getD_ringOf, lastN_append, ringOf, if_neg (by simp)]
  · rw [if_neg same, if_neg (Ne.symm same), List.append_nil, holds]

/-- **Any pushes.** -/
theorem lookup_pushAll (holds : ∀ k, rings.lookup k = ringOf cap (pushed k)) (samples : List (κ × β)) (j : κ) :
    (samples.foldl (fun r s => ringPush cap r s.1 s.2) rings).lookup j =
      ringOf cap (pushed j ++ (samples.filter fun s => s.1 = j).map Prod.snd) := by
  induction samples generalizing rings pushed with
  | nil => rw [List.foldl_nil, holds, List.filter_nil, List.map_nil, List.append_nil]
  | cons s samples ih =>
    rw [List.foldl_cons, ih fun i => lookup_push holds s.1 i s.2, List.append_assoc]
    by_cases same : s.1 = j
    · rw [if_pos same, List.filter_cons_of_pos (by simpa using same), List.map_cons]
      rfl
    · rw [if_neg same, List.filter_cons_of_neg (by simpa using same), List.nil_append]

end

end ProxyBroker.Lib
