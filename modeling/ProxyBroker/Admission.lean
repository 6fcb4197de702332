import ProxyBroker.Conservation
import ProxyBroker.Watch

/-!
# What may be in the vector

Three properties of a live pool in every interleaving, each with the condition under which it holds.
All three follow from `Sys.step_ledger`: what is in the vector or leased was so before, or has just
been supplied.

* No two entries have one address, as long as `add` does not push an address that is leased: `add`
  compares with the vector only, and the lease comes back without a check.
* A removed address is never handed out again, as long as nobody holds a lease on it at the removal.
* Every entry passes the country screen, as long as what `add` pushes passes it: `from_proxies` and the
  importer screen, `add` does not.
-/

namespace ProxyBroker
open Lib Server

namespace Sys
variable {s t u : Sys} {i : Input} {is : List Input} {addr : Addr}

theorem live_eq (s : Sys) : s.ledger.live = (s.pool.idents : Multiset Ident) + (s.leased : Multiset Ident) := rfl

theorem mem_live {x : Ident} : x ∈ s.ledger.live ↔ x ∈ s.pool.idents ∨ x ∈ s.leased := by
  simp [live_eq]

/-- A step that is handed an instance from outside gets it through `importNext` or `add`. -/
theorem supplied_cases {x : Ident} (h : s.supplied i = some x) :
    (∃ proxy, i = .importNext proxy ∧ x = (s.tagged proxy).ident ∧ countryOk s.pool.config.toUppercase proxy s.pool.config.countries = true) ∨
    (∃ proxy, i = .add proxy ∧ x = (s.tagged proxy).ident ∧ s.pool.holds proxy.addr = false) := by
  cases i with
  | importNext proxy =>
    simp only [supplied] at h
    split at h
    · rename_i accepted
      cases h
      exact Or.inl ⟨proxy, rfl, rfl, accepted⟩
    · cases h
  | add proxy =>
    simp only [supplied] at h
    split at h
    · cases h
    · rename_i absent
      cases h
      exact Or.inr ⟨proxy, rfl, rfl, eq_false_of_ne_true absent⟩
  | _ => cases h

/-! ## One entry for an address -/

/-- The importer has nothing more to do. -/
theorem step_stopped (stopped : s.importer = .stopped) (h : step s i = some t) : t.importer = .stopped := by
  cases step_move h with
  | imported now | screened now | announced now | ended now | exhausted now =>
    have both := stopped.symm.trans now
    cases both
  | accept | connect | held | added | remove | tryGet | task => exact stopped

/-- What the step pushes from outside has an address that no task holds. -/
def Unleased (s : Sys) (i : Input) : Prop := ∀ x ∈ s.supplied i, x.addr ∉ s.leased.map Ident.addr

/-- Addresses are distinct in the vector and among the leases, taken together. -/
structure Distinct (s : Sys) : Prop where
  sound : ∀ task ∈ s.tasks, task.Sound
  stopped : s.importer = .stopped
  live : (s.ledger.live.map Ident.addr).Nodup

theorem Distinct.addrs (distinct : s.Distinct) : s.pool.addrs.Nodup := by
  have live := distinct.live
  rw [live_eq, Multiset.map_add] at live
  have pooled := (Multiset.nodup_add.1 live).1
  rw [Pool.addrs_eq]
  simpa using pooled

theorem distinct_step (distinct : s.Distinct) (unleased : s.Unleased i) (h : step s i = some t) : t.Distinct := by
  refine ⟨step_sound distinct.sound h, step_stopped distinct.stopped h, ?_⟩
  apply (step_ledger distinct.sound h).nodup_live distinct.live
  intro x given mem
  obtain ⟨y, live, same⟩ := Multiset.mem_map.1 mem
  rcases mem_live.1 live with pooled | leased
  · rcases supplied_cases given with ⟨proxy, rfl, -⟩ | ⟨proxy, rfl, rfl, absent⟩
    · simp [step, distinct.stopped] at h
    · have held : s.pool.holds proxy.addr = true := by
        rw [Pool.holds_iff, Pool.addrs_eq]
        exact List.mem_map.2 ⟨y, pooled, same⟩
      rw [held] at absent
      cases absent
  · exact unleased x given (same ▸ List.mem_map_of_mem leased)

theorem distinct_start (idle : s.tasks = []) (stopped : s.importer = .stopped) (distinct : s.pool.addrs.Nodup) : s.Distinct := by
  refine ⟨by simp [idle], stopped, ?_⟩
  rw [Pool.addrs_eq] at distinct
  simpa [live_eq, leased, idle] using distinct

/-- **One entry for an address.** From any pool with distinct addresses, in every run in which no `add`
pushes an address while a task holds a lease on it. -/
theorem addresses_unique (idle : s.tasks = []) (stopped : s.importer = .stopped) (distinct : s.pool.addrs.Nodup)
    (unleased : Along step Unleased s is) (h : run step s is = some t) : t.pool.addrs.Nodup := by
  have start : s.Distinct := distinct_start idle stopped distinct
  exact (run_preserves_along (fun _ _ _ inv ok next => distinct_step inv ok next) start unleased h).addrs

/-- A proxy at an address that a connector call holds is added, and the call then puts its own back. -/
theorem addresses_repeat :
    ¬ ∀ (s t : Sys) (is : List Input), s.tasks = [] → s.importer = .stopped → s.pool.addrs.Nodup →
      run step s is = some t → t.pool.addrs.Nodup := by
  intro general
  obtain ⟨t, ran, twice⟩ : ∃ t, run step (fromProxies none [httpProxy 80] PoolConfig.default)
      (connecting ++ .add (httpProxy 80) :: failing) = some t ∧ t.pool.addrs = [(httpProxy 80).addr, (httpProxy 80).addr] :=
    ⟨_, rfl, rfl⟩
  have distinct := general _ t _ rfl rfl (by decide) ran
  rw [twice] at distinct
  exact absurd distinct (by decide)

theorem connecting_supplies : ∀ i ∈ connecting, ∀ s, supplied s i = none := by
  simp [connecting, supplied]

theorem failing_supplies : ∀ i ∈ failing, ∀ s, supplied s i = none := by
  simp [failing, supplied]

/-- Another address is added during the call. -/
theorem addresses_unique_added :
    ∃ t, run step (fromProxies none [httpProxy 80] PoolConfig.default) (connecting ++ .add (httpProxy 81) :: failing) = some t ∧
      t.pool.addrs.length = 2 ∧ t.pool.addrs.Nodup := by
  obtain ⟨t, ran, two⟩ : ∃ t, run step (fromProxies none [httpProxy 80] PoolConfig.default)
      (connecting ++ .add (httpProxy 81) :: failing) = some t ∧ t.pool.addrs.length = 2 := ⟨_, rfl, rfl⟩
  obtain ⟨mid, reached, leased⟩ : ∃ mid, run step (fromProxies none [httpProxy 80] PoolConfig.default) connecting = some mid ∧
      mid.leased.map Ident.addr = [(httpProxy 80).addr] := ⟨_, rfl, rfl⟩
  refine ⟨t, ran, two, addresses_unique rfl rfl (by decide) ?_ ran⟩
  have quiet {j : Input} {v : Sys} (nothing : supplied v j = none) : Unleased v j := by
    intro x given
    rw [nothing] at given
    cases given
  apply Along.append (along_of_forall fun j mem v => quiet (connecting_supplies j mem v))
  intro v reached'
  obtain rfl : mid = v := Option.some.inj (reached.symm.trans reached')
  constructor
  · intro x given
    rw [leased]
    rcases supplied_cases given with ⟨proxy, eq, -⟩ | ⟨proxy, eq, rfl, -⟩
    · cases eq
    · cases eq
      show (httpProxy 81).addr ∉ [(httpProxy 80).addr]
      decide
  · intro _ _
    exact along_of_forall fun j mem v => quiet (failing_supplies j mem v)

/-! ## Removal is final -/

/-- The step removes the address: a call of `remove`, or the control request of a client. -/
def Removes (s : Sys) (i : Input) (addr : Addr) : Prop :=
  i = .remove addr ∨ ∃ k now task, i = .task k (.op now) ∧ s.tasks[k]? = some task ∧ task.client.demand = .remove addr

/-- No task holds a lease on the address, drawn or delivered. -/
def Free (s : Sys) (addr : Addr) : Prop := addr ∉ s.leased.map Ident.addr

/-- The step does not supply the address. -/
def Withholds (addr : Addr) (s : Sys) (i : Input) : Prop := ∀ x ∈ s.supplied i, x.addr ≠ addr

/-- The address is neither in the vector nor leased. -/
structure Gone (addr : Addr) (s : Sys) : Prop where
  sound : ∀ task ∈ s.tasks, task.Sound
  live : ∀ x ∈ s.ledger.live, x.addr ≠ addr

/-- A removal empties the vector of the address and leaves the leases. -/
theorem removes_spec (removes : s.Removes i addr) (h : step s i = some t) :
    t.shared = s.shared.remove addr ∧ t.leased = s.leased := by
  rcases removes with rfl | ⟨k, now, task, rfl, at_k, asks⟩
  · cases h
    exact ⟨rfl, rfl⟩
  · simp only [step, at_k, Task.step, asks] at h
    obtain ⟨r, moved, rfl⟩ := Option.map_eq_some_iff.1 h
    obtain ⟨c, answered, rfl⟩ := Option.map_eq_some_iff.1 moved
    obtain ⟨front, back, split, frame⟩ := exists_set_frame at_k
    refine ⟨rfl, ?_⟩
    rw [leased, leased, frame, split, List.flatMap_append, List.flatMap_append, List.flatMap_cons, List.flatMap_cons,
      Task.held_eq_of_kept (Client.held_answer answered)]

theorem gone_of_removed (sound : ∀ task ∈ s.tasks, task.Sound) (removes : s.Removes i addr) (free : s.Free addr)
    (h : step s i = some t) : t.Gone addr := by
  obtain ⟨shared, leases⟩ := removes_spec removes h
  refine ⟨step_sound sound h, ?_⟩
  intro x live same
  rcases mem_live.1 live with pooled | leased
  · rw [pool, shared] at pooled
    obtain ⟨e, mem, rfl⟩ := List.mem_map.1 pooled
    exact of_decide_eq_true (List.mem_filter.1 mem).2 same
  · rw [leases] at leased
    exact free (same ▸ List.mem_map_of_mem leased)

theorem gone_step (gone : s.Gone addr) (withholds : Withholds addr s i) (h : step s i = some t) : t.Gone addr :=
  ⟨step_sound gone.sound h, (step_ledger gone.sound h).forall_live gone.live withholds⟩

/-- What a step hands out was in the vector or leased. -/
theorem step_handouts (sound : ∀ task ∈ s.tasks, task.Sound) (h : step s i = some t) :
    ∃ new, t.shared.handouts = s.shared.handouts ++ new ∧ ∀ p ∈ new, p.ident ∈ s.ledger.live := by
  rcases step_cases sound h with ⟨⟨before, after, others, was, -, effect⟩, -, -⟩ | ⟨p, admits⟩
  · obtain ⟨new, eq, from_live⟩ := effect.handouts
    refine ⟨new, eq, ?_⟩
    intro p mem
    rcases from_live p mem with pooled | held
    · exact mem_live.2 (Or.inl pooled)
    · exact mem_live.2 (Or.inr (was.mem_iff.2 (List.mem_append_left others held)))
  · obtain ⟨epoch, shared⟩ := admits.shared
    exact ⟨[], by simp [shared], by simp⟩

/-- While the address is gone, it is not handed out. -/
theorem gone_run (gone : s.Gone addr) (withholds : Along step (Withholds addr) s is) (h : run step s is = some t) :
    ∃ new, t.shared.handouts = s.shared.handouts ++ new ∧ ∀ p ∈ new, p.addr ≠ addr := by
  induction is generalizing s with
  | nil =>
    cases h
    exact ⟨[], by simp, by simp⟩
  | cons i is ih =>
    obtain ⟨u, first, rest⟩ := run_cons_iff.1 h
    obtain ⟨now, eq, from_live⟩ := step_handouts gone.sound first
    obtain ⟨later, eq', clean⟩ := ih (gone_step gone withholds.1 first) (withholds.2 u first) rest
    refine ⟨now ++ later, by rw [eq', eq, List.append_assoc], ?_⟩
    intro p mem
    rcases List.mem_append.1 mem with new | old
    · exact gone.live p.ident (from_live p new)
    · exact clean p old

/-- **Removal is final.** In every run: when an address is removed while no task holds a lease on it, and
is not supplied again, no `get` or `try_get` returns it from then on. -/
theorem removal_final {before later : List Input} (start : Initial s) (reached : run step s before = some t)
    (removes : t.Removes i addr) (free : t.Free addr) {after : Sys} (removed : step t i = some after)
    (withheld : Along step (Withholds addr) after later) (h : run step after later = some u) :
    ∃ new, u.shared.handouts = after.shared.handouts ++ new ∧ ∀ p ∈ new, p.addr ≠ addr :=
  gone_run (gone_of_removed (kept_run start reached).sound removes free removed) withheld h

/-- The connector call puts its proxy back, and somebody takes it. -/
def failingThenTaken : List Input := failing ++ [.tryGet .http none]

theorem withholds_failingThenTaken (addr : Addr) : Along step (Withholds addr) s failingThenTaken := by
  apply along_of_forall
  intro j mem v x given
  have nothing : supplied v j = none := by
    rcases List.mem_append.1 mem with old | last
    · exact failing_supplies j old v
    · rw [List.mem_singleton.1 last]
      rfl
  rw [nothing] at given
  cases given

/-- The proxy is removed during the call, put back at its end, and handed out again. -/
theorem removal_undone :
    ¬ ∀ (s t after u : Sys) (i : Input) (addr : Addr) (before later : List Input), Initial s →
      run step s before = some t → t.Removes i addr → step t i = some after →
      Along step (Withholds addr) after later → run step after later = some u →
      ∃ new, u.shared.handouts = after.shared.handouts ++ new ∧ ∀ p ∈ new, p.addr ≠ addr := by
  intro general
  obtain ⟨t, after, u, reached, removed, later, was, is⟩ :
      ∃ t after u, run step (fromProxies none [httpProxy 80] PoolConfig.default) connecting = some t ∧
        step t (.remove (httpProxy 80).addr) = some after ∧ run step after failingThenTaken = some u ∧
        after.shared.handouts.map Proxy.addr = [(httpProxy 80).addr] ∧
        u.shared.handouts.map Proxy.addr = [(httpProxy 80).addr, (httpProxy 80).addr] :=
    ⟨_, _, _, rfl, rfl, rfl, rfl, rfl⟩
  obtain ⟨new, eq, clean⟩ := general _ t after u _ _ _ _ (Or.inl ⟨_, _, _, rfl⟩) reached (Or.inl rfl) removed
    (withholds_failingThenTaken _) later
  rw [eq, List.map_append, was, List.singleton_append, List.cons.injEq] at is
  obtain ⟨p, rest, rfl, same, -⟩ := List.map_eq_cons_iff.1 is.2
  exact clean p List.mem_cons_self same

/-- The other proxy is removed during the call; the caller then gets the one that was put back. -/
theorem removal_final_other :
    ∃ t after u, run step (fromProxies none [httpProxy 80, httpProxy 81] PoolConfig.default) connecting = some t ∧
      step t (.remove (httpProxy 81).addr) = some after ∧ run step after failingThenTaken = some u ∧
      ∃ new, u.shared.handouts = after.shared.handouts ++ new ∧ new.map Proxy.addr = [(httpProxy 80).addr] ∧
        ∀ p ∈ new, p.addr ≠ (httpProxy 81).addr := by
  obtain ⟨t, after, u, reached, held, removed, later, was, is⟩ :
      ∃ t after u, run step (fromProxies none [httpProxy 80, httpProxy 81] PoolConfig.default) connecting = some t ∧
        t.leased.map Ident.addr = [(httpProxy 80).addr] ∧
        step t (.remove (httpProxy 81).addr) = some after ∧ run step after failingThenTaken = some u ∧
        after.shared.handouts.map Proxy.addr = [(httpProxy 80).addr] ∧
        u.shared.handouts.map Proxy.addr = [(httpProxy 80).addr, (httpProxy 80).addr] :=
    ⟨_, _, _, rfl, rfl, rfl, rfl, rfl, rfl⟩
  have free : t.Free (httpProxy 81).addr := by
    rw [Free, held]
    decide
  obtain ⟨new, eq, clean⟩ := removal_final (Or.inl ⟨_, _, _, rfl⟩) reached (Or.inl rfl) free removed
    (withholds_failingThenTaken _) later
  rw [eq, List.map_append, was, List.singleton_append, List.cons.injEq] at is
  exact ⟨t, after, u, reached, removed, later, new, eq, is.2, clean⟩

/-! ## The country screen -/

/-- What `add` pushes passes the screen. -/
def Screens (s : Sys) (i : Input) : Prop :=
  ∀ proxy, i = .add proxy → s.pool.holds proxy.addr = false → countryOk s.pool.config.toUppercase proxy s.pool.config.countries = true

/-- The screen, as a fact about what a holder cannot change. -/
def Accepted (config : PoolConfig) (x : Ident) : Prop := ∀ p : Proxy, p.ident = x → countryOk config.toUppercase p config.countries = true

/-- Every instance in the vector or leased passes the screen. -/
structure Screened (s : Sys) : Prop where
  sound : ∀ task ∈ s.tasks, task.Sound
  live : ∀ x ∈ s.ledger.live, Accepted s.pool.config x

/-- The screen looks at the country only. -/
theorem accepted_ident {p : Proxy} {config : PoolConfig} (ok : countryOk config.toUppercase p config.countries = true) :
    Accepted config p.ident := by
  intro q same
  have geo : q.geo = p.geo := congrArg Ident.geo same
  unfold countryOk at ok ⊢
  rw [geo]
  exact ok

theorem screened_initial (start : Initial s) : s.Screened := by
  refine ⟨(kept_initial start).sound, ?_⟩
  intro x live
  rcases start with ⟨auth, proxies, config, rfl⟩ | ⟨auth, config, rfl⟩
  · rcases mem_live.1 live with pooled | leased
    · obtain ⟨e, mem, rfl⟩ := List.mem_map.1 pooled
      obtain ⟨p, passed, rfl⟩ := List.mem_map.1 mem
      exact accepted_ident (List.mem_filter.1 passed).2
    · cases leased
  · rcases mem_live.1 live with pooled | leased
    · cases pooled
    · cases leased

theorem screened_step (screened : s.Screened) (screens : s.Screens i) (h : step s i = some t) : t.Screened := by
  refine ⟨step_sound screened.sound h, ?_⟩
  rw [step_config screened.sound h]
  apply (step_ledger screened.sound h).forall_live screened.live
  intro x given
  rcases supplied_cases given with ⟨proxy, rfl, rfl, ok⟩ | ⟨proxy, rfl, rfl, absent⟩
  · exact accepted_ident (p := s.tagged proxy) ok
  · exact accepted_ident (p := s.tagged proxy) (screens proxy rfl absent)

/-- **Every pooled proxy passes the country screen.** In every run in which what `add` pushes passes it. -/
theorem countries_admitted (start : Initial s) (screens : Along step Screens s is) (h : run step s is = some t) :
    ∀ e ∈ t.pool.state, countryOk t.pool.config.toUppercase e.proxy t.pool.config.countries = true := by
  have screened := run_preserves_along (fun _ _ _ inv ok next => screened_step inv ok next) (screened_initial start) screens h
  intro e mem
  exact screened.live e.proxy.ident (mem_live.2 (Or.inl (List.mem_map_of_mem mem))) e.proxy rfl

/-- `reconcile` meets the condition when every proxy of the file does. -/
theorem screens_reconcile {current : List Addr} {desired : List Proxy} (sound : ∀ task ∈ s.tasks, task.Sound)
    (ok : ∀ p ∈ desired, countryOk s.pool.config.toUppercase p s.pool.config.countries = true) :
    Along step Screens s (Watch.reconcile current desired) := by
  have keep : ∀ u i v, ((∀ task ∈ u.tasks, task.Sound) ∧ u.pool.config = s.pool.config) → step u i = some v →
      (∀ task ∈ v.tasks, task.Sound) ∧ v.pool.config = s.pool.config := by
    intro u i v inv next
    exact ⟨step_sound inv.1 next, (step_config inv.1 next).trans inv.2⟩
  apply along_of_invariant keep ⟨sound, rfl⟩
  intro i mem u inv proxy eq _
  rw [inv.2]
  rcases Watch.mem_reconcile mem with ⟨a, -, -, rfl⟩ | ⟨p, listed, -, rfl⟩
  · cases eq
  · cases eq
    exact ok proxy listed

/-- A pool for `US` proxies. -/
def onlyUs : PoolConfig := { PoolConfig.default with countries := some ["US".toList] }

/-- An HTTP proxy in the country. -/
def httpIn (code : Text) (port : UInt16) : Proxy := { httpProxy port with geo := some ⟨code, [], none, none⟩ }

/-- The watched file lists a proxy of another country. -/
theorem countries_bypassed :
    ¬ ∀ (s t : Sys) (is : List Input), Initial s → run step s is = some t →
      ∀ e ∈ t.pool.state, countryOk t.pool.config.toUppercase e.proxy t.pool.config.countries = true := by
  intro general
  obtain ⟨t, ran, there, asks⟩ : ∃ t, run step (fromProxies none [] onlyUs) (Watch.reconcile [] [httpIn "DE".toList 80]) = some t ∧
      t.pool.state = [⟨httpIn "DE".toList 80, none⟩] ∧ t.pool.config = onlyUs :=
    ⟨_, rfl, rfl, rfl⟩
  have ok := general _ t _ (Or.inl ⟨_, _, _, rfl⟩) ran
  rw [there, asks] at ok
  exact absurd (ok _ List.mem_cons_self) (by decide)

/-- It lists one of the country. -/
theorem countries_admitted_reconcile :
    ∃ t, run step (fromProxies none [httpIn "DE".toList 81] onlyUs) (Watch.reconcile [] [httpIn "us".toList 80]) = some t ∧
      t.pool.state = [⟨httpIn "us".toList 80, none⟩] ∧
      ∀ e ∈ t.pool.state, countryOk t.pool.config.toUppercase e.proxy t.pool.config.countries = true := by
  obtain ⟨t, ran, there⟩ : ∃ t, run step (fromProxies none [httpIn "DE".toList 81] onlyUs)
      (Watch.reconcile [] [httpIn "us".toList 80]) = some t ∧ t.pool.state = [⟨httpIn "us".toList 80, none⟩] := ⟨_, rfl, rfl⟩
  have start : Initial (fromProxies none [httpIn "DE".toList 81] onlyUs) := Or.inl ⟨_, _, _, rfl⟩
  refine ⟨t, ran, there, countries_admitted start (screens_reconcile (kept_initial start).sound ?_) ran⟩
  intro p mem
  rw [List.mem_singleton.1 mem]
  decide

end Sys

end ProxyBroker
