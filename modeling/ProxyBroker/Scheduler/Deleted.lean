import ProxyBroker.Admission
import ProxyBroker.Scheduler.Bookkeeping

/-!
# Deleted addresses and the re-check loop

The loop is not to add back what somebody else has deleted. Its only test is made when it pops an
address, before the check; and an address that it is retrying passes the test whether it is pooled or
not. So a deletion that lands during the check, or while the address is retried, is undone by the next
check that works (`resurrected`). Where no deletion lands then, none is (`never_resurrects`).

`deletions` is a history variable: the addresses that somebody other than the loop has taken out of the
pool by `Pool::remove` and that have not been in the pool since.
-/

namespace ProxyBroker.Scheduler
open Lib Server

/-- A step of somebody else takes the address out of the pool by `Pool::remove`: the watcher, a control tool,
or a client of `proxycontrol`. -/
def Deletes (sys : Sys) (i : Sys.Input) (a : Addr) : Prop := sys.Removes i a ∧ a ∈ sys.pool.addrs

/-- What is deleted after a step, if `deleted` was before. -/
def deletions (deleted : Set Addr) (w : World) (j : World.Input) (w' : World) : Set Addr :=
  { a | (a ∈ deleted ∨ ∃ i, j = .others i ∧ Deletes w.sys i a) ∧ a ∉ w'.sys.pool.addrs }

/-- The address of the proxy with which the loop is about to call `pool.add`. -/
def State.adding (s : State) : Option Addr :=
  match s.phase with
  | .settling _ proxy true => some proxy.addr
  | _ => none

/-- A deletion spares the address that is being checked and those that are retried. -/
def Undisturbed (w : World) (j : World.Input) : Prop :=
  ∀ i a, j = .others i → Deletes w.sys i a → a ∉ w.loop.phase.inFlight ∧ a ∉ w.loop.retrying

/-- What a deleted address is not: pooled, checked or retried. -/
structure Apart (w : World) (deleted : Set Addr) : Prop where
  gone : ∀ a ∈ deleted, a ∉ w.sys.pool.addrs
  unchecked : ∀ a ∈ deleted, a ∉ w.loop.phase.inFlight
  unretried : ∀ a ∈ deleted, a ∉ w.loop.retrying
  named : ∀ job proxy working, w.loop.phase = .settling job proxy working → proxy.addr = job.key

variable {cfg : RecheckConfig} {powf : ℚ → ℚ → ℚ} {w w' : World} {deleted : Set Addr} {j : World.Input}
  {is : List World.Input}

theorem settled_retrying {s : State} {now : Instant} {draw : Draw} {key : Addr} {proxy : Proxy} {working : Bool} {a : Addr}
    (mem : a ∈ (settled cfg powf s now draw key proxy working).retrying) : a = key ∨ a ∈ s.retrying := by
  unfold settled settledIn settleWith at mem
  dsimp only at mem
  split at mem
  · exact Or.inr (Finset.mem_of_mem_erase mem)
  · split at mem
    · exact Finset.mem_insert.1 mem
    · exact Or.inr (Finset.mem_of_mem_erase mem)

/-- A move of the loop probes and retries nothing that is deleted. -/
theorem Apart.move (apart : Apart w deleted) {sys' : Sys} {s' : State} (next : Move .binary64 cfg powf w.sys w.loop sys' s') :
    (∀ a ∈ deleted, a ∉ s'.phase.inFlight ∧ a ∉ s'.retrying) ∧
    ∀ job proxy working, s'.phase = .settling job proxy working → proxy.addr = job.key := by
  cases next with
  | waits resting rests =>
    refine ⟨fun a mem => ⟨by simp [rests], apart.unretried a mem⟩, ?_⟩
    rintro job proxy working rfl
    cases rests
  | enrolls now draw atHead =>
    refine ⟨fun a mem => ⟨by simp [Phase.inFlight], ?_⟩, by simp⟩
    show a ∉ (enrollAll cfg now draw w.sys.pool.addrs w.loop).retrying
    rw [enrollAll_retrying]
    exact apart.unretried a mem
  | drops next resting popped unretried gone =>
    exact ⟨fun a mem => ⟨by simp [Phase.inFlight], apart.unretried a mem⟩, by simp⟩
  | probes next resting popped kept =>
    refine ⟨fun a mem => ⟨?_, apart.unretried a mem⟩, by simp⟩
    -- what passes the test is retried or pooled, and a deleted address is neither
    rintro (_ | ⟨_, ⟨⟩⟩)
    rcases kept with retried | pooled
    · exact apart.unretried _ mem retried
    · exact apart.gone _ mem pooled
  | checks checking same =>
    refine ⟨fun a mem => ⟨?_, apart.unretried a mem⟩, ?_⟩
    · have here := apart.unchecked a mem
      rwa [checking] at here
    · intro job proxy working phase
      cases phase
      exact same
  | settles now draw settling called =>
    refine ⟨fun a mem => ⟨by simp [settled_phase, Phase.inFlight], ?_⟩, by simp [settled_phase]⟩
    intro retried
    have here := apart.unchecked a mem
    rw [settling] at here
    rcases settled_retrying retried with rfl | listed
    · exact here List.mem_cons_self
    · exact apart.unretried a mem listed

theorem Apart.step (apart : Apart w deleted) (spared : Undisturbed w j) (next : World.step cfg powf w j = some w') :
    Apart w' (deletions deleted w j w') := by
  rcases World.stepIn_cases next with ⟨i, rfl, -, same⟩ | ⟨i, rfl, moved⟩
  · refine ⟨fun a mem => mem.2, ?_, ?_, ?_⟩
    · rintro a ⟨before | ⟨i, eq, now⟩, -⟩
      · exact same ▸ apart.unchecked a before
      · cases eq
        exact same ▸ (spared _ a rfl now).1
    · rintro a ⟨before | ⟨i, eq, now⟩, -⟩
      · exact same ▸ apart.unretried a before
      · cases eq
        exact same ▸ (spared _ a rfl now).2
    · exact same ▸ apart.named
  · have move := step_move moved
    obtain ⟨clear, named⟩ := apart.move move
    have earlier {a : Addr} (mem : a ∈ deletions deleted w (.loop i) w') : a ∈ deleted := by
      rcases mem.1 with before | ⟨_, ⟨⟩, -⟩
      exact before
    exact ⟨fun a mem => mem.2, fun a mem => (clear a (earlier mem)).1, fun a mem => (clear a (earlier mem)).2, named⟩

/-- **No resurrection.** In every run in which no address is deleted while the loop checks or retries it,
the loop never calls `pool.add` for a deleted address. -/
theorem never_resurrects (sys : Sys) (now : Instant)
    (h : run (noting (World.step cfg powf) deletions) (⟨sys, State.start now⟩, ∅) is = some (w, deleted))
    (spared : Along (World.step cfg powf) Undisturbed ⟨sys, State.start now⟩ is) :
    ∀ a, w.loop.adding = some a → a ∉ deleted := by
  have apart : Apart w deleted := by
    refine run_preserves_along (P := fun v => Apart v.1 v.2) ?_ ?_ spared.noting h
    · intro v j v' inv spared next
      obtain ⟨moved, noted⟩ := noting_eq next
      rw [noted]
      exact inv.step spared moved
    · exact ⟨by simp, by simp, by simp, by simp [State.start]⟩
  intro a adding mem
  unfold State.adding at adding
  split at adding
  · rename_i job proxy settling
    cases adding
    have here := apart.unchecked _ mem
    rw [settling, Phase.inFlight, apart.named job proxy true settling] at here
    exact here List.mem_cons_self
  · cases adding

/-- A watcher deletes an address while the loop is checking it; the check works. -/
theorem resurrected : ∃ w deleted, run (noting (World.step .default fun _ _ => 1) deletions)
      (⟨Sys.fromProxies none [httpProxy 80] .default, State.start 0⟩, ∅)
      (firstCheck .default 0 ⟨0, by norm_num⟩ ++
        [.others (.remove (httpProxy 80).addr), .loop (.checked (httpProxy 80) true)]) = some (w, deleted) ∧
    w.loop.adding = some (httpProxy 80).addr ∧ (httpProxy 80).addr ∈ deleted := by
  have single : (Sys.fromProxies none [httpProxy 80] .default).pool.addrs = [(httpProxy 80).addr] := rfl
  obtain ⟨before, ran⟩ := run_noting (firstCheck_run .binary64 (fun _ _ => 1) RecheckConfig.default_bounded single 0 ⟨0, by norm_num⟩) deletions ∅
  refine ⟨_, _, (run_append ran).trans rfl, rfl, ?_⟩
  have gone : (httpProxy 80).addr ∉ ((Sys.fromProxies none [httpProxy 80] .default).pool.remove (httpProxy 80).addr).addrs := by
    decide
  refine ⟨Or.inl ⟨Or.inr ⟨_, rfl, Or.inl rfl, ?_⟩, gone⟩, gone⟩
  rw [single]
  exact List.mem_cons_self

/-- The loop checks a proxy that works and nobody deletes it. -/
theorem never_resurrects_first_check : ∃ w deleted, run (noting (World.step .default fun _ _ => 1) deletions)
      (⟨Sys.fromProxies none [httpProxy 80] .default, State.start 0⟩, ∅)
      (firstCheck .default 0 ⟨0, by norm_num⟩ ++ [.loop (.checked (httpProxy 80) true)]) = some (w, deleted) ∧
    w.loop.adding = some (httpProxy 80).addr ∧ (httpProxy 80).addr ∉ deleted := by
  have single : (Sys.fromProxies none [httpProxy 80] .default).pool.addrs = [(httpProxy 80).addr] := rfl
  obtain ⟨before, ran⟩ := run_noting (firstCheck_run .binary64 (fun _ _ => 1) RecheckConfig.default_bounded single 0 ⟨0, by norm_num⟩) deletions ∅
  have spared (is : List World.Input) (own : ∀ j ∈ is, ∃ i, j = .loop i) (w : World) :
      Along (World.step .default fun _ _ => 1) Undisturbed w is := by
    refine along_of_forall ?_
    intro j mem w i a eq
    obtain ⟨i', rfl⟩ := own j mem
    cases eq
  have ended := (@run_append _ _ _ _ _ _ [.loop (.checked (httpProxy 80) true)] ran).trans rfl
  refine ⟨_, _, ended, rfl, never_resurrects _ 0 ended (spared _ ?_ _) _ rfl⟩
  simp [firstCheck]

end ProxyBroker.Scheduler
