import ProxyBroker.Lib.Utf8

/-!
# A peer's socket and straight-line I/O on it

`Socket` holds what the peer has still to send and what was written to it. `budget` is how many more
bytes it accepts before a write fails (`none`: no write fails), so one number covers every point at
which the peer can go away. A read that finds too few bytes fails: an early close, a reset and a
time-out look the same to code that gives up on all three.

`SocketM` is a computation that may give up and still leaves its effects behind. The `_some` lemmas
invert a computation that did not give up, one operation at a time; `Emits` says what a computation
writes, whether it gives up or not.

`Answer` is for code that waits on several sockets at once: one answer is one event on one of them.
-/

namespace ProxyBroker.Lib

/-- An event on a socket the code waits for. A read yields a `ρ`; `flushed` is the return of a
`write_all` that has handed over its last byte, `shut` that of a shutdown. -/
inductive Answer (ρ : Type) where
  | wrote (n : Nat)
  | flushed
  | writeFailed
  | read (r : ρ)
  | eof
  | readFailed
  | shut
  | timeout
deriving DecidableEq, Repr

structure Socket where
  input : Bytes
  output : Bytes
  budget : Option Nat
deriving DecidableEq, Repr

/-- A computation on a socket: its result, if it did not give up, and the socket after it. -/
def SocketM (α : Type) := Socket → Option α × Socket

namespace SocketM
variable {α β : Type}

instance : Monad SocketM where
  pure a := fun s => (some a, s)
  bind x f := fun s =>
    match x s with
    | (some a, t) => f a t
    | (none, t) => (none, t)

/-- `return None`. -/
def giveUp : SocketM α := fun s => (none, s)

/-- `option?`. -/
def ofOption (o : Option α) : SocketM α := fun s => (o, s)

/-- `read_exact` on `n` bytes. -/
def readExact (n : Nat) : SocketM Bytes := fun s =>
  if n ≤ s.input.length then (some (s.input.take n), { s with input := s.input.drop n })
  else (none, { s with input := [] })

/-- `write_all`. When the peer goes away part of the bytes may have been written. -/
def writeAll (bs : Bytes) : SocketM Unit := fun s =>
  match s.budget with
  | none => (some (), { s with output := s.output ++ bs })
  | some k =>
    if bs.length ≤ k then (some (), { s with output := s.output ++ bs, budget := some (k - bs.length) })
    else (none, { s with output := s.output ++ bs.take k, budget := some 0 })

/-- `let _ = ..`: the effects without the result. -/
def ignore (x : SocketM α) : SocketM Unit := fun s => (some (), (x s).2)

theorem bind_some {x : SocketM α} {f : α → SocketM β} {s u : Socket} {b : β} :
    (x >>= f) s = (some b, u) ↔ ∃ a t, x s = (some a, t) ∧ f a t = (some b, u) := by
  constructor
  · intro h
    change (match x s with | (some a, t) => f a t | (none, t) => (none, t)) = _ at h
    split at h
    · rename_i a t eq; exact ⟨a, t, eq, h⟩
    · cases h
  · rintro ⟨a, t, first, rest⟩
    change (match x s with | (some a, t) => f a t | (none, t) => (none, t)) = _
    rw [first]
    exact rest

/-- Running on past an operation that did not give up. -/
theorem bind_eq {x : SocketM α} {f : α → SocketM β} {s t : Socket} {a : α} (first : x s = (some a, t)) : (x >>= f) s = f a t := by
  change (match x s with | (some a, t) => f a t | (none, t) => (none, t)) = _
  rw [first]

theorem pure_some {a b : α} {s t : Socket} : (pure a : SocketM α) s = (some b, t) ↔ b = a ∧ t = s := by
  constructor
  · intro h; cases h; exact ⟨rfl, rfl⟩
  · rintro ⟨rfl, rfl⟩; rfl

theorem giveUp_some {a : α} {s t : Socket} : ¬ (giveUp : SocketM α) s = (some a, t) := by
  intro h; cases h

theorem ofOption_some {o : Option α} {a : α} {s t : Socket} : ofOption o s = (some a, t) ↔ o = some a ∧ t = s := by
  constructor
  · intro h; cases h; exact ⟨rfl, rfl⟩
  · rintro ⟨rfl, rfl⟩; rfl

/-- A successful read takes exactly the next `n` bytes. -/
theorem readExact_some {n : Nat} {bs : Bytes} {s t : Socket} :
    readExact n s = (some bs, t) ↔ bs.length = n ∧ s.input = bs ++ t.input ∧ t.output = s.output ∧ t.budget = s.budget := by
  unfold readExact
  constructor
  · intro h
    split at h
    · rename_i enough
      cases h
      exact ⟨List.length_take_of_le enough, (List.take_append_drop n s.input).symm, rfl, rfl⟩
    · cases h
  · rintro ⟨rfl, split, out, budget⟩
    rw [if_pos (by rw [split]; simp), split, List.take_left, List.drop_left]
    cases t
    cases out
    cases budget
    rfl

/-- A read of bytes that are there. -/
theorem readExact_append {n : Nat} {bs : Bytes} (len : bs.length = n) (rest out : Bytes) (budget : Option Nat) :
    readExact n ⟨bs ++ rest, out, budget⟩ = (some bs, ⟨rest, out, budget⟩) :=
  readExact_some.2 ⟨len, rfl, rfl, rfl⟩

/-- A successful write hands over all bytes and reads nothing. -/
theorem writeAll_some {bs : Bytes} {s t : Socket} {u : Unit} (h : writeAll bs s = (some u, t)) :
    t.input = s.input ∧ t.output = s.output ++ bs := by
  unfold writeAll at h
  split at h
  · cases h; exact ⟨rfl, rfl⟩
  · split at h
    · cases h; exact ⟨rfl, rfl⟩
    · cases h

/-! ## What a computation writes -/

/-- Whatever the peer sends and accepts, `x` appends some bytes to what was written, and they and its result
meet `Q`. -/
def Emits (x : SocketM α) (Q : Option α → Bytes → Prop) : Prop :=
  ∀ s, ∃ out, (x s).2.output = s.output ++ out ∧ Q (x s).1 out

theorem Emits.mono {x : SocketM α} {Q R : Option α → Bytes → Prop} (emits : Emits x Q) (weaker : ∀ r out, Q r out → R r out) :
    Emits x R := by
  intro s
  obtain ⟨out, wrote, holds⟩ := emits s
  exact ⟨out, wrote, weaker _ _ holds⟩

/-- **Sequencing.** A computation that gives up writes no more; one that goes on writes after it. -/
theorem Emits.bind {x : SocketM α} {f : α → SocketM β} {Q : Option α → Bytes → Prop} {R : Option β → Bytes → Prop}
    (first : Emits x Q) (quits : ∀ out, Q none out → R none out)
    (goes : ∀ a out, Q (some a) out → Emits (f a) fun r more => R r (out ++ more)) : Emits (x >>= f) R := by
  intro s
  obtain ⟨out, wrote, holds⟩ := first s
  rcases ran : x s with ⟨r, t⟩
  rw [ran] at wrote holds
  cases r with
  | none =>
    have stops : (x >>= f) s = (none, t) := by
      change (match x s with | (some a, t) => f a t | (none, t) => (none, t)) = _
      rw [ran]
    rw [stops]
    exact ⟨out, wrote, quits out holds⟩
  | some a =>
    obtain ⟨more, wrote', holds'⟩ := goes a out holds t
    rw [bind_eq ran]
    refine ⟨out ++ more, ?_, holds'⟩
    rw [wrote', wrote, List.append_assoc]

theorem emits_pure (a : α) : Emits (pure a : SocketM α) fun r out => r = some a ∧ out = [] :=
  fun _ => ⟨[], (List.append_nil _).symm, rfl, rfl⟩

theorem emits_giveUp : Emits (giveUp : SocketM α) fun r out => r = none ∧ out = [] :=
  fun _ => ⟨[], (List.append_nil _).symm, rfl, rfl⟩

theorem emits_readExact (n : Nat) : Emits (readExact n) fun _ out => out = [] := by
  intro s
  refine ⟨[], ?_, rfl⟩
  unfold readExact
  split <;> simp

/-- A write that fails has written a part. -/
theorem emits_writeAll (bs : Bytes) : Emits (writeAll bs) fun r out => out <+: bs ∧ (r.isSome → out = bs) := by
  intro s
  unfold writeAll
  split
  · exact ⟨bs, rfl, List.prefix_refl bs, fun _ => rfl⟩
  · split
    · exact ⟨bs, rfl, List.prefix_refl bs, fun _ => rfl⟩
    · exact ⟨_, rfl, List.take_prefix _ bs, by simp⟩

theorem Emits.ignore {x : SocketM α} {Q : Option α → Bytes → Prop} (emits : Emits x Q) :
    Emits (ignore x) fun r out => r = some () ∧ ∃ r', Q r' out := by
  intro s
  obtain ⟨out, wrote, holds⟩ := emits s
  exact ⟨out, wrote, rfl, _, holds⟩

/-- A rejection: the message, or a part of it, and no result. -/
theorem emits_reject (bs : Bytes) :
    Emits (do SocketM.ignore (writeAll bs); giveUp : SocketM α) fun r out => r = none ∧ out <+: bs := by
  refine (emits_writeAll bs).ignore.bind (fun out none => by cases none.1) ?_
  rintro a out ⟨-, r', part, -⟩
  refine emits_giveUp.mono ?_
  rintro r more ⟨rfl, rfl⟩
  rw [List.append_nil]
  exact ⟨rfl, part⟩

end SocketM

end ProxyBroker.Lib
