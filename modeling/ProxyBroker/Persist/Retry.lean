import Mathlib.Data.List.Perm.Basic
import ProxyBroker.Lib.Machine
import ProxyBroker.Persist.Refine

/-!
# Concurrent writers on one database (`persist.rs`)

Every `upsert` runs its statement through `retry_sqlite_contention`. An attempt commits the statement or
fails without an effect, and only the attempt that commits ends the loop with `Ok`. A run is any order of
calls and of their attempts, on any number of connections. Calls on one connection take turns behind its
mutex; here they may interleave as well.
-/

namespace ProxyBroker.Persist.SqliteStore
open Lib

/-! ## The retry loop -/

/-- `rusqlite::ErrorCode`. -/
inductive ErrorCode where
  | databaseBusy | databaseLocked
  | other (code : Nat)
deriving DecidableEq, Repr

/-- `rusqlite::Error`. -/
inductive SqliteError where
  | sqliteFailure (code : ErrorCode)
  | other (text : Text)
deriving DecidableEq, Repr

/-- What `conn.execute` returns. -/
inductive Outcome where
  | ok
  | err (e : SqliteError)
deriving DecidableEq, Repr

/-- `is_retryable_sqlite_contention`. -/
def isRetryableSqliteContention : SqliteError → Bool
  | .sqliteFailure .databaseBusy => true
  | .sqliteFailure .databaseLocked => true
  | _ => false

/-- `SQLITE_RETRY_DELAYS`, in milliseconds. -/
def retryDelays : List Nat := [10, 25, 50, 100]

/-- `retry_sqlite_contention`: before an attempt, with the delays that are left, or returned. -/
inductive Retry where
  | trying (delays : List Nat)
  | returned (result : Outcome)
deriving DecidableEq, Repr

/-- One turn of the loop. -/
def Retry.step : Retry → Outcome → Option Retry
  | .trying _, .ok => some (.returned .ok)
  | .trying delays, .err e =>
    if isRetryableSqliteContention e then
      match delays with
      | [] => some (.returned (.err e))
      | _ :: rest => some (.trying rest)
    else some (.returned (.err e))
  | .returned _, _ => none

/-- The attempt failed on contention. -/
def Outcome.contended : Outcome → Bool
  | .ok => false
  | .err e => isRetryableSqliteContention e

/-- The loop after the attempts `os`. -/
inductive Retry.Reached (delays : List Nat) (os : List Outcome) : Retry → Prop
  | trying (rest : List Nat) : os.length + rest.length = delays.length → (∀ o ∈ os, o.contended = true) →
      Reached delays os (.trying rest)
  | returned (before : List Outcome) (last : Outcome) : os = before ++ [last] → before.length ≤ delays.length →
      (∀ o ∈ before, o.contended = true) → Reached delays os (.returned last)

theorem Retry.reached {delays : List Nat} {os : List Outcome} {r : Retry} (h : run Retry.step (.trying delays) os = some r) :
    Reached delays os r := by
  refine run_history (fun os s o t reached next => ?_) (.trying delays (by simp) (by simp)) h
  cases reached with
  | trying rest count contended =>
    have few : os.length ≤ delays.length := by omega
    cases o with
    | ok =>
      cases next
      exact .returned os .ok rfl few contended
    | err e =>
      simp only [Retry.step] at next
      split at next
      · rename_i retryable
        cases rest with
        | nil =>
          cases next
          exact .returned os (.err e) rfl few contended
        | cons delay rest =>
          cases next
          refine .trying rest ?_ ?_
          · simp only [List.length_append, List.length_cons, List.length_nil] at count ⊢
            omega
          · intro o mem
            rcases List.mem_append.1 mem with before | last
            · exact contended o before
            · rw [List.mem_singleton.1 last]
              exact retryable
      · cases next
        exact .returned os (.err e) rfl few contended
  | returned before last _ _ _ => cases next

theorem count_ok_of_contended {os : List Outcome} (contended : ∀ o ∈ os, o.contended = true) : os.count .ok = 0 :=
  List.count_eq_zero.2 fun mem => by cases contended _ mem

namespace Retry.Reached
variable {delays : List Nat} {os : List Outcome} {r : Retry}

theorem length_le (reached : Reached delays os r) : os.length ≤ delays.length + 1 := by
  cases reached with
  | trying rest count _ => omega
  | returned before last shape few _ =>
    rw [shape, List.length_append, List.length_singleton]
    omega

/-- Only the last attempt is not contention. -/
theorem contended_dropLast (reached : Reached delays os r) : ∀ o ∈ os.dropLast, o.contended = true := by
  cases reached with
  | trying rest _ contended => exact fun o mem => contended o (os.dropLast_subset mem)
  | returned before last shape _ contended =>
    rw [shape, List.dropLast_concat]
    exact contended

/-- One attempt committed if the loop returned `Ok`, and none otherwise. -/
theorem count_ok (reached : Reached delays os r) : os.count .ok = if r = .returned .ok then 1 else 0 := by
  cases reached with
  | trying rest _ contended => simp [count_ok_of_contended contended]
  | returned before last shape _ contended =>
    rw [shape, List.count_append, count_ok_of_contended contended]
    cases last <;> simp

/-- The loop is over after one attempt more than there are delays. -/
theorem length_le_of_trying {rest : List Nat} (reached : Reached delays os (.trying rest)) : os.length ≤ delays.length := by
  cases reached with
  | trying rest count _ => omega

end Retry.Reached

/-! ## The writers -/

/-- A call of `upsert`, with the parameters of its statement. -/
structure Call where
  write : ℤ × Proxy
  retry : Retry

/-- The database and the calls so far. -/
structure World where
  db : List (Key × Row)
  calls : List Call

inductive Event where
  | call (write : ℤ × Proxy)
  | attempt (i : Nat) (outcome : Outcome)

section
variable (pr : Precision)

/-- An attempt that commits executes the statement; one that fails has no effect. -/
def commit (outcome : Outcome) (write : ℤ × Proxy) (db : List (Key × Row)) : List (Key × Row) :=
  match outcome with
  | .ok => execute pr write db
  | .err _ => db

def World.step (w : World) : Event → Option World
  | .call write => some { w with calls := w.calls ++ [⟨write, .trying retryDelays⟩] }
  | .attempt i outcome => do
    let c ← w.calls[i]?
    let r ← c.retry.step outcome
    return ⟨commit pr outcome c.write w.db, w.calls.set i ⟨c.write, r⟩⟩

end

def World.empty : World := ⟨[], []⟩

/-- The parameters of a call. -/
def World.write (w : World) (i : Nat) : Option (ℤ × Proxy) := (w.calls[i]?).map Call.write

/-- The call returned `Ok`. -/
def World.returnedOk (w : World) (i : Nat) : Bool := (w.calls[i]?).any fun c => c.retry = .returned .ok

/-- The upserts that returned `Ok`. -/
def World.okWrites (w : World) : List (ℤ × Proxy) := ((List.range w.calls.length).filter w.returnedOk).filterMap w.write

/-- What the attempts of a call returned. -/
def attemptsOf (i : Nat) (is : List Event) : List Outcome :=
  is.filterMap fun
    | .attempt j outcome => if j = i then some outcome else none
    | .call _ => none

/-- The calls that committed, in the order of their commits. -/
def commits (is : List Event) : List Nat :=
  is.filterMap fun
    | .attempt i .ok => some i
    | _ => none

theorem attemptsOf_concat_call (i : Nat) (is : List Event) (write : ℤ × Proxy) :
    attemptsOf i (is ++ [.call write]) = attemptsOf i is := by
  simp [attemptsOf]

theorem attemptsOf_concat_attempt (i j : Nat) (is : List Event) (o : Outcome) :
    attemptsOf i (is ++ [.attempt j o]) = if j = i then attemptsOf i is ++ [o] else attemptsOf i is := by
  by_cases same : j = i <;> simp [attemptsOf, same]

theorem commits_concat_ok (is : List Event) (i : Nat) : commits (is ++ [.attempt i .ok]) = commits is ++ [i] := by
  simp [commits]

/-- A call is as often among the commits as its attempts committed. -/
theorem count_commits (i : Nat) (is : List Event) : (commits is).count i = (attemptsOf i is).count .ok := by
  induction is with
  | nil => rfl
  | cons e is ih =>
    cases e with
    | call write => exact ih
    | attempt j o =>
      cases o with
      | ok => by_cases same : j = i <;> simpa [commits, attemptsOf, same] using ih
      | err e => by_cases same : j = i <;> simpa [commits, attemptsOf, same] using ih

/-! ## The account of a run -/

/-- What a run leaves: the attempts of a call are a run of its loop, and the table is what the commits
made of the empty one. -/
structure Account (pr : Precision) (is : List Event) (w : World) : Prop where
  traces : ∀ i c, w.calls[i]? = some c → run Retry.step (.trying retryDelays) (attemptsOf i is) = some c.retry
  unknown : ∀ i, w.calls.length ≤ i → attemptsOf i is = []
  db : w.db = after pr ((commits is).filterMap w.write)

variable {pr : Precision}

theorem after_concat (xs : List (ℤ × Proxy)) (x : ℤ × Proxy) : after pr (xs ++ [x]) = execute pr x (after pr xs) := by
  simp [after]

/-- Nobody commits before it is called. -/
theorem Account.lt_of_commit {is : List Event} {w : World} (account : Account pr is w) {i : Nat} (mem : i ∈ commits is) :
    i < w.calls.length := by
  by_contra late
  have some_commit : 0 < (commits is).count i := List.count_pos_iff.2 mem
  rw [count_commits, account.unknown i (Nat.le_of_not_lt late)] at some_commit
  exact absurd some_commit (Nat.lt_irrefl 0)

theorem Account.call {is : List Event} {w : World} (account : Account pr is w) (write : ℤ × Proxy) :
    Account pr (is ++ [.call write]) { w with calls := w.calls ++ [⟨write, .trying retryDelays⟩] } where
  traces i c found := by
    rw [attemptsOf_concat_call]
    by_cases old : i < w.calls.length
    · rw [List.getElem?_append_left old] at found
      exact account.traces i c found
    · rw [List.getElem?_append_right (Nat.le_of_not_lt old), List.getElem?_singleton] at found
      split at found
      · cases found
        rw [account.unknown i (Nat.le_of_not_lt old)]
        rfl
      · cases found
  unknown i late := by
    rw [attemptsOf_concat_call]
    rw [List.length_append] at late
    exact account.unknown i (by omega)
  db := by
    have same : commits (is ++ [.call write]) = commits is := by simp [commits]
    rw [same, account.db]
    refine congrArg (after pr) (List.filterMap_congr fun i mem => ?_)
    rw [World.write, World.write, List.getElem?_append_left (account.lt_of_commit mem)]

theorem Account.attempt {is : List Event} {w : World} (account : Account pr is w) {i : Nat} {o : Outcome} {c : Call} {r : Retry}
    (found : w.calls[i]? = some c) (next : c.retry.step o = some r) :
    Account pr (is ++ [.attempt i o]) ⟨commit pr o c.write w.db, w.calls.set i ⟨c.write, r⟩⟩ where
  traces j d here := by
    rw [attemptsOf_concat_attempt]
    rw [List.getElem?_set] at here
    by_cases same : i = j
    · subst same
      have lt := (List.getElem?_eq_some_iff.1 found).1
      rw [if_pos rfl, if_pos lt] at here
      cases here
      rw [if_pos rfl, run_append (account.traces i c found), run_cons_iff]
      exact ⟨r, next, rfl⟩
    · rw [if_neg same] at here ⊢
      exact account.traces j d here
  unknown j late := by
    rw [List.length_set] at late
    have lt := (List.getElem?_eq_some_iff.1 found).1
    rw [attemptsOf_concat_attempt, if_neg (by omega)]
    exact account.unknown j late
  db := by
    have writes : World.write ⟨commit pr o c.write w.db, w.calls.set i ⟨c.write, r⟩⟩ = w.write := by
      funext j
      rw [World.write, World.write, List.getElem?_set]
      by_cases same : i = j
      · subst same
        rw [if_pos rfl, if_pos (List.getElem?_eq_some_iff.1 found).1, found]
        rfl
      · rw [if_neg same]
    rw [writes]
    cases o with
    | ok =>
      have wrote : w.write i = some c.write := by rw [World.write, found, Option.map_some]
      rw [commits_concat_ok, List.filterMap_append, List.filterMap_cons_some wrote, List.filterMap_nil, after_concat, ← account.db]
      rfl
    | err e =>
      have same : commits (is ++ [.attempt i (.err e)]) = commits is := by simp [commits]
      rw [same]
      exact account.db

/-- Every run has its account. -/
theorem account {is : List Event} {w : World} (h : run (World.step pr) World.empty is = some w) : Account pr is w := by
  refine run_history (P := Account pr) (fun is w e v account next => ?_) ⟨?_, ?_, rfl⟩ h
  · cases e with
    | call write =>
      cases next
      exact account.call write
    | attempt i o =>
      obtain ⟨c, found, next⟩ := Option.bind_eq_some_iff.1 next
      obtain ⟨r, turn, next⟩ := Option.bind_eq_some_iff.1 next
      cases next
      exact account.attempt found turn
  · intro i c found
    cases found
  · intro i late
    rfl

section
variable {is : List Event} {w : World} (account : Account pr is w)
include account

theorem Account.reached {i : Nat} {c : Call} (found : w.calls[i]? = some c) : c.retry.Reached retryDelays (attemptsOf i is) :=
  Retry.reached (account.traces i c found)

/-- A call committed once if it returned `Ok`, and never otherwise. -/
theorem Account.count_commits (i : Nat) : (commits is).count i = if w.returnedOk i then 1 else 0 := by
  rw [SqliteStore.count_commits, World.returnedOk]
  cases found : w.calls[i]? with
  | none => simp [account.unknown i (List.getElem?_eq_none_iff.1 found)]
  | some c => simpa using (account.reached found).count_ok

/-- The commits are the calls that returned `Ok`, in some order. -/
theorem Account.commits_perm : (commits is).Perm ((List.range w.calls.length).filter w.returnedOk) := by
  have once : (commits is).Nodup := List.nodup_iff_count_le_one.2 fun i => by
    rw [account.count_commits]
    split <;> omega
  refine (List.perm_ext_iff_of_nodup once (List.nodup_range.filter _)).2 fun i => ?_
  have committed : i ∈ commits is ↔ w.returnedOk i = true := by
    rw [← List.count_pos_iff, account.count_commits]
    split <;> simp_all
  rw [List.mem_filter, List.mem_range, committed]
  exact ⟨fun ok => ⟨account.lt_of_commit (committed.2 ok), ok⟩, fun both => both.2⟩

end

/-! ## Nothing is lost and nothing counts twice -/

/-- The counters of a row are the sums over `ps`. -/
structure Row.Sums (pr : Precision) (ps : List Proxy) (row : Row) : Prop where
  requests : row.requests.Counts pr (total (fun p => p.requests.toNat) ps)
  errors : row.errors.Counts pr (total (fun p => p.errorTotal.toNat) ps)
  uptimeChecks : row.uptimeChecks.Counts pr (total uptime ps)

/-- The row of an address after upserts, if it has any. -/
theorem sums_after (a : Addr) (xs : List (ℤ × Proxy)) :
    match rowOf (key a) (after pr xs) with
    | none => upsertsOf a (xs.map Prod.snd) = []
    | some row => row.Sums pr (upsertsOf a (xs.map Prod.snd)) := by
  have rel := (@holds_after pr xs).rowOf key_injective a
  rw [rowOf_summaries] at rel
  split
  · rename_i missing
    rw [missing] at rel
    exact summary_eq_none.1 (eq_none_of_rel rel)
  · rename_i row found
    rw [found] at rel
    obtain ⟨s, remembered, holds⟩ := exists_left_of_rel rel
    have totals := summary_totals remembered
    exact ⟨totals.requests ▸ holds.requests, totals.errors ▸ holds.errors, totals.uptimeChecks ▸ holds.uptimeChecks⟩

theorem total_perm (f : Proxy → Nat) {ps qs : List Proxy} (perm : ps.Perm qs) : total f ps = total f qs := (perm.map f).sum_nat

theorem Row.Sums.perm {ps qs : List Proxy} {row : Row} (sums : row.Sums pr ps) (perm : ps.Perm qs) : row.Sums pr qs where
  requests := total_perm _ perm ▸ sums.requests
  errors := total_perm _ perm ▸ sums.errors
  uptimeChecks := total_perm _ perm ▸ sums.uptimeChecks

/-- What a run of writers must leave. -/
structure ExactlyOnce (pr : Precision) (is : List Event) (w : World) : Prop where
  db : w.db = after pr ((commits is).filterMap w.write)
  ok : ∀ i c, w.calls[i]? = some c → c.retry = .returned .ok → (commits is).count i = 1
  err : ∀ i c e, w.calls[i]? = some c → c.retry = .returned (.err e) → (commits is).count i = 0
  attempts : ∀ i, (attemptsOf i is).length ≤ 5
  retries : ∀ i, ∀ o ∈ (attemptsOf i is).dropLast, o.contended = true
  returns : ∀ i c, w.calls[i]? = some c → (attemptsOf i is).length = 5 → ∃ result, c.retry = .returned result
  totals : ∀ a, match rowOf (key a) w.db with
    | none => upsertsOf a (w.okWrites.map Prod.snd) = []
    | some row => row.Sums pr (upsertsOf a (w.okWrites.map Prod.snd))

theorem Account.totals {is : List Event} {w : World} (account : Account pr is w) (a : Addr) :
    match rowOf (key a) w.db with
    | none => upsertsOf a (w.okWrites.map Prod.snd) = []
    | some row => row.Sums pr (upsertsOf a (w.okWrites.map Prod.snd)) := by
  have sums := @sums_after pr a ((commits is).filterMap w.write)
  have perm : (upsertsOf a (((commits is).filterMap w.write).map Prod.snd)).Perm (upsertsOf a (w.okWrites.map Prod.snd)) :=
    ((account.commits_perm.filterMap w.write).map Prod.snd).filter _
  rw [account.db]
  split
  · rename_i none_found
    rw [none_found] at sums
    simp only at sums
    rw [sums] at perm
    exact perm.nil_eq.symm
  · rename_i row found
    rw [found] at sums
    exact Row.Sums.perm sums perm

/-- **Writers lose and duplicate nothing**, in every order of their attempts and whatever fails: a call
that returned `Ok` was applied once, one that returned `Err` never, and every counter is the sum over the
calls that returned `Ok`: an exact integer as long as it fits `i64`, whatever the precision of a REAL. -/
theorem writers_exactly_once (pr : Precision) {is : List Event} {w : World} (h : run (World.step pr) World.empty is = some w) :
    ExactlyOnce pr is w := by
  have account := account h
  have ends (i : Nat) : (attemptsOf i is).length ≤ 5 ∧ ∀ o ∈ (attemptsOf i is).dropLast, o.contended = true := by
    cases found : w.calls[i]? with
    | none => simp [account.unknown i (List.getElem?_eq_none_iff.1 found)]
    | some c =>
      have reached := account.reached found
      exact ⟨reached.length_le, reached.contended_dropLast⟩
  refine ⟨account.db, ?_, ?_, fun i => (ends i).1, fun i => (ends i).2, ?_, account.totals⟩
  · intro i c found returned
    rw [account.count_commits]
    simp [World.returnedOk, found, returned]
  · intro i c e found returned
    rw [account.count_commits]
    simp [World.returnedOk, found, returned]
  · intro i c found five
    have reached := account.reached found
    cases at_c : c.retry with
    | returned result => exact ⟨result, rfl⟩
    | trying rest =>
      rw [at_c] at reached
      have few := reached.length_le_of_trying
      rw [five] at few
      exact absurd few (by decide)

/-- Two connections write the same address; the first meets the lock of the second. -/
theorem writers_exactly_once_contended :
    ∃ w, run (World.step .binary64) World.empty
        [.call (100, httpProxy 80), .call (101, httpProxy 80), .attempt 0 (.err (.sqliteFailure .databaseBusy)),
          .attempt 1 .ok, .attempt 0 .ok] = some w ∧
      ExactlyOnce .binary64
        [.call (100, httpProxy 80), .call (101, httpProxy 80), .attempt 0 (.err (.sqliteFailure .databaseBusy)),
          .attempt 1 .ok, .attempt 0 .ok] w :=
  ⟨_, rfl, writers_exactly_once .binary64 rfl⟩

end ProxyBroker.Persist.SqliteStore
