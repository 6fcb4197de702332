import ProxyBroker.Conservation

/-!
# A retry moves to another proxy

A proxy that failed is pushed back with a bench stamp, and an instance gets a new stamp only when it is put
back again (`entries_step`). So while it is not, the vector holds it with that stamp or not at all, and a
selection before the stamp passes it over when another eligible entry is ready. Without verification a call of
`get` returns what it drew.
-/

namespace ProxyBroker
open Lib Server

/-! ## Where the entries of the vector come from -/

/-- An entry after a put was there, or is the proxy that was put, with its stamp. -/
theorem Server.Shared.entries_putBack {sh : Shared} {p : Proxy} {failed : Bool} {now : Instant} {e : Pooled}
    (mem : e ∈ (sh.putBack p failed now).pool.state) :
    e ∈ sh.pool.state ∨ e = ⟨p, if failed then some (now + sh.pool.config.failTimeout) else none⟩ := by
  have pushed (b : Option Instant) (mem : e ∈ (sh.pool.putInner p b).state) : e ∈ sh.pool.state ∨ e = ⟨p, b⟩ := by
    rcases Pool.putInner_cases sh.pool p b with ⟨-, eq⟩ | ⟨-, eq⟩
    · rw [eq] at mem
      exact Or.inl mem
    · rw [eq, Pool.push, List.mem_append, List.mem_singleton] at mem
      exact mem
  cases failed with
  | true => exact pushed _ mem
  | false => exact pushed _ mem

namespace Server.Lease
variable {scheme : Scheme} {key : ClientKey} {sh sh' : Shared} {acc acc' : Account} {g g' : State} {i : Input}

/-- `get` adds an entry only when it benches what failed its probe. -/
theorem step_entries (h : step scheme key sh acc g i = some (sh', acc', g')) {e : Pooled} (mem : e ∈ sh'.pool.state) :
    e ∈ sh.pool.state ∨ ∃ now, i = .bench now ∧ g.phase = .benching e.proxy := by
  cases step_move h with
  | draw _ taken =>
    obtain ⟨f, -, perm, -⟩ := Pool.takeChosen_spec taken
    exact Or.inl (perm.subset (List.mem_cons_of_mem f mem))
  | note => exact Or.inl (by simpa using mem)
  | @bench p now at_g =>
    rcases Shared.entries_putBack mem with old | rfl
    · exact Or.inl old
    · exact Or.inr ⟨now, rfl, at_g⟩
  | _ => exact Or.inl mem

/-- The phases of a call that does not verify what it draws. -/
def Phase.Plain : Phase → Prop
  | .probing _ | .benching _ | .notifying => False
  | _ => True

theorem plain_step (unverified : sh.pool.config.verifyOnLease = none) (plain : g.phase.Plain)
    (h : step scheme key sh acc g i = some (sh', acc', g')) : g'.phase.Plain := by
  cases step_move h with
  | enter | read | draw | wake => trivial
  | @miss _ last => cases last <;> trivial
  | note => simp [unverified, Phase.Plain]
  | probe at_g | bench at_g | notify at_g =>
    rw [at_g] at plain
    cases plain
  | check => cases sh.pool.exhausted <;> trivial

/-- A call that has drawn a proxy, and does not verify it, returns it. -/
theorem drawn_step {last : Bool} {q : Proxy} (unverified : sh.pool.config.verifyOnLease = none)
    (drawn : g.phase = .noting last q ∨ g.phase = .returned (some q)) (h : step scheme key sh acc g i = some (sh', acc', g')) :
    g'.phase = .noting last q ∨ g'.phase = .returned (some q) := by
  rcases drawn with at_g | at_g
  · unfold step at h
    rw [at_g] at h
    cases i with
    | note victim =>
      cases h
      exact Or.inr (by simp [unverified])
    | _ => cases h
  · unfold step at h
    rw [at_g] at h
    cases i <;> cases h

end Server.Lease

namespace Sys
variable {s t u : Sys} {i : Input} {is : List Input} {k l tag : Nat} {stamp : Instant}

/-- Task `l` puts the instance back in this step. -/
def PutsBack (s : Sys) (l : Nat) (i : Input) (tag : Nat) : Prop :=
  ∃ task p, s.tasks[l]? = some task ∧ p.tag = tag ∧
    ((∃ now failed, i = .task l (.op now) ∧ task.client.demand = .put p failed) ∨
      ∃ now, i = .task l (.lease (.bench now)) ∧ task.lease.phase = .benching p)

/-- **Where an entry comes from.** It was there, or its instance is new, or a task put it back. -/
theorem entries_step (h : step s i = some t) {e : Pooled} (mem : e ∈ t.pool.state) :
    e ∈ s.pool.state ∨ e.proxy.tag = s.admitted.length ∨ ∃ l, s.PutsBack l i e.proxy.tag := by
  have pushed {state : List Pooled} {p : Pooled} (mem : e ∈ state ++ [p]) : e ∈ state ∨ e = p := by
    rwa [List.mem_append, List.mem_singleton] at mem
  cases step_move h with
  | imported | added =>
    rcases pushed mem with old | rfl
    · exact Or.inl old
    · exact Or.inr (Or.inl rfl)
  | screened | announced | ended | exhausted | accept | connect | held => exact Or.inl mem
  | remove => exact Or.inl (List.mem_of_mem_filter mem)
  | @tryGet scheme country =>
    obtain ⟨taken, state, perm, eq, -⟩ := s.shared.tryGet_frame scheme country
    have left : e ∈ (s.shared.tryGet scheme country).pool.state := mem
    rw [eq] at left
    exact Or.inl (perm.subset (List.mem_append_right taken left))
  | @task l j task task' sh at_l moved =>
    rcases Task.step_cases moved with ⟨scheme, key, j, rfl, -, -, leased⟩ | ⟨_, _, _, _, -, -, -, -, same⟩ |
      ⟨p, failed, now, rfl, put, -, -, rfl⟩ | ⟨-, -, -, -, -, fewer⟩
    · rcases Lease.step_entries leased mem with old | ⟨now, rfl, benching⟩
      · exact Or.inl old
      · exact Or.inr (Or.inr ⟨l, task, e.proxy, at_l, rfl, Or.inr ⟨now, rfl, benching⟩⟩)
    · have old : e ∈ sh.pool.state := mem
      rw [same] at old
      exact Or.inl old
    · rcases Shared.entries_putBack mem with old | rfl
      · exact Or.inl old
      · exact Or.inr (Or.inr ⟨l, task, p, at_l, rfl, Or.inl ⟨now, failed, rfl, put⟩⟩)
    · exact Or.inl (fewer.subset mem)

/-! ## A benched instance -/

/-- No instance is at two places, by its tag. -/
theorem Kept.tags_nodup (kept : s.Kept) : (s.whereabouts.map Ident.tag).Nodup := by
  rw [(kept.places.map Ident.tag).nodup_iff, kept.tags]
  exact List.nodup_range

/-- The instance is known, and the vector holds it with this stamp or not at all. -/
structure Benched (tag : Nat) (stamp : Instant) (s : Sys) : Prop where
  kept : s.Kept
  known : tag < s.admitted.length
  stamped : ∀ e ∈ s.pool.state, e.proxy.tag = tag → e.blockedUntil = some stamp

theorem benched_step (benched : Benched tag stamp s) (away : ∀ l, ¬ s.PutsBack l i tag) (h : step s i = some t) :
    Benched tag stamp t := by
  refine ⟨kept_step benched.kept h, ?_, ?_⟩
  · rcases step_cases benched.kept.sound h with acts | ⟨p, admits⟩
    · rw [acts.admitted]
      exact benched.known
    · rw [admits.admitted, List.length_append]
      exact Nat.lt_add_right _ benched.known
  · intro e mem same
    rcases entries_step h mem with old | new | ⟨l, back⟩
    · exact benched.stamped e old same
    · have known := benched.known
      omega
    · exact absurd (same ▸ back) (away l)

/-- A proxy that a task puts back as failed is benched. -/
theorem benched_of_put {task : Task} {p : Proxy} {now : Instant} (kept : s.Kept) (at_k : s.tasks[k]? = some task)
    (put : task.client.demand = .put p true) (h : step s (.task k (.op now)) = some t) :
    Benched p.tag (now + s.pool.config.failTimeout) t ∧ ∃ task', t.tasks[k]? = some task' ∧ task'.client.held = none ∧
      task'.lease = task.lease := by
  have holds : p.ident ∈ s.leased := by
    refine List.mem_flatMap.2 ⟨task, List.mem_of_getElem? at_k, ?_⟩
    simp [Task.held, Client.held_of_put put]
  -- what a task holds is not in the vector as well
  have absent : ∀ e ∈ s.pool.state, e.proxy.tag ≠ p.tag := by
    intro e mem same
    have nodup := kept.tags_nodup
    simp only [whereabouts, List.append_assoc, List.map_append] at nodup
    rw [List.nodup_append] at nodup
    refine nodup.2.2 e.proxy.tag ?_ p.tag ?_ same
    · exact List.mem_map_of_mem (List.mem_map_of_mem mem)
    · exact List.mem_append_left _ (List.mem_map_of_mem holds)
  have known : p.tag < s.admitted.length := by
    have there : p.ident ∈ s.admitted := kept.places.subset (by simp [whereabouts, holds])
    have tag := List.mem_map_of_mem (f := Ident.tag) there
    rw [kept.tags] at tag
    exact List.mem_range.1 tag
  obtain ⟨task', moved, at_k', admitted⟩ := step_task at_k h
  rcases Task.step_cases moved with ⟨_, _, _, eq, -⟩ | ⟨_, _, _, _, -, get, -⟩ | ⟨q, failed, now', eq, put', free, same, back⟩ |
    ⟨-, other, -⟩
  · cases eq
  · rw [put] at get
    cases get
  · rw [put] at put'
    cases put'
    cases eq
    refine ⟨⟨kept_step kept h, by rw [admitted]; exact known, ?_⟩, task', at_k', free, same⟩
    intro e mem tag
    rw [pool, back] at mem
    rcases Shared.entries_putBack mem with old | rfl
    · exact absurd tag (absent e old)
    · rfl
  · exact absurd put (other p true)

/-! ## The next call of `get` -/

/-- Task `k` is not handed the result of a `get` in this step. -/
def Waits (k : Nat) (s : Sys) (i : Input) : Prop :=
  ∀ task now scheme key, i = .task k (.op now) → s.tasks[k]? = some task → task.client.demand ≠ .get scheme key

theorem waits_lease {j : Lease.Input} : Waits k s (.task l (.lease j)) := by
  rintro task now scheme key ⟨⟩

/-- Task `k` waits, and no other task puts the instance back. -/
def LeavesBenched (k tag : Nat) (s : Sys) (i : Input) : Prop := Waits k s i ∧ ∀ l, l ≠ k → ¬ s.PutsBack l i tag

/-- A task between two leases: its client holds nothing, and its call of `get` does not verify. -/
structure Between (k : Nat) (s : Sys) : Prop where
  unverified : s.pool.config.verifyOnLease = none
  free : ∃ task, s.tasks[k]? = some task ∧ task.client.held = none ∧ task.lease.phase.Plain

theorem between_step (sound : ∀ task ∈ s.tasks, task.Sound) (between : s.Between k) (waits : Waits k s i)
    (h : step s i = some t) : t.Between k := by
  obtain ⟨unverified, task, at_k, free, plain⟩ := between
  refine ⟨by rw [step_config sound h]; exact unverified, ?_⟩
  rcases task_step at_k h with same | ⟨j, task', rfl, moved, at_k'⟩
  · exact ⟨task, same, free, plain⟩
  · refine ⟨task', at_k', ?_⟩
    rcases Task.step_cases moved with ⟨scheme, key, j, -, -, same, leased⟩ | ⟨scheme, key, r, now, rfl, get, -⟩ |
      ⟨p, failed, now, -, put, -⟩ | ⟨-, -, held, same, -⟩
    · exact ⟨by rw [same]; exact free, Lease.plain_step unverified plain leased⟩
    · exact absurd get (waits task now scheme key rfl at_k)
    · rw [Client.held_of_put put] at free
      cases free
    · rw [free] at held
      exact ⟨by simpa using held, by rw [same]; exact plain⟩

/-- A task between two leases puts nothing back. -/
theorem Between.not_putsBack (between : s.Between k) : ¬ s.PutsBack k i tag := by
  obtain ⟨-, task, at_k, free, plain⟩ := between
  rintro ⟨task', p, there, -, ⟨now, failed, -, put⟩ | ⟨now, -, benching⟩⟩
  · obtain rfl : task = task' := Option.some.inj (at_k.symm.trans there)
    rw [Client.held_of_put put] at free
    cases free
  · obtain rfl : task = task' := Option.some.inj (at_k.symm.trans there)
    rw [benching] at plain
    cases plain

/-- While task `k` waits and nobody else puts the instance back, the instance stays benched. -/
theorem benched_run (benched : Benched tag stamp s) (between : s.Between k) (leaves : Along step (LeavesBenched k tag) s is)
    (h : run step s is = some t) : Benched tag stamp t ∧ t.Between k := by
  refine run_preserves_along (P := fun s => Benched tag stamp s ∧ s.Between k) ?_ ⟨benched, between⟩ leaves h
  rintro s i t ⟨benched, between⟩ ⟨waits, others⟩ next
  refine ⟨benched_step benched ?_ next, between_step benched.kept.sound between waits next⟩
  intro l
  by_cases here : l = k
  · rw [here]
    exact between.not_putsBack
  · exact others l here

/-- Task `k` has drawn `q`, and its call of `get` returns it. -/
structure Drew (k : Nat) (q : Proxy) (s : Sys) : Prop where
  sound : ∀ task ∈ s.tasks, task.Sound
  unverified : s.pool.config.verifyOnLease = none
  drawn : ∃ task scheme key last, s.tasks[k]? = some task ∧ task.client.demand = .get scheme key ∧
    (task.lease.phase = .noting last q ∨ task.lease.phase = .returned (some q))

theorem drew_step {q : Proxy} (drew : Drew k q s) (waits : Waits k s i) (h : step s i = some t) : Drew k q t := by
  obtain ⟨sound, unverified, task, scheme, key, last, at_k, get, phase⟩ := drew
  refine ⟨step_sound sound h, by rw [step_config sound h]; exact unverified, ?_⟩
  rcases task_step at_k h with same | ⟨j, task', rfl, moved, at_k'⟩
  · exact ⟨task, scheme, key, last, same, get, phase⟩
  · rcases Task.step_cases moved with ⟨scheme', key', j, -, -, same, leased⟩ | ⟨scheme', key', r, now, rfl, get', -⟩ |
      ⟨p, failed, now, -, put, -⟩ | ⟨other, -⟩
    · exact ⟨task', scheme, key, last, at_k', by rw [same, get], Lease.drawn_step unverified phase leased⟩
    · exact absurd get' (waits task now scheme' key' rfl at_k)
    · rw [get] at put
      cases put
    · exact absurd get (other scheme key)

/-- **A draw before the stamp.** When another eligible entry is ready, what is drawn is another instance. -/
theorem draws_other {task : Task} {waker : Nat} {last : Bool} {sel : SelectCtx} {seed : UInt64} (benched : Benched tag stamp s)
    (between : s.Between k) (at_k : s.tasks[k]? = some task) (choosing : task.lease.phase = .choosing waker last sel)
    (early : sel.now < stamp) {e : Pooled} (mem : e ∈ s.pool.state) (serves : e.proxy.servesScheme sel.scheme = true)
    (ready : e.ready sel.now = true) (h : step s (.task k (.lease (.choose seed))) = some t) :
    ∃ q, q.tag ≠ tag ∧ Drew k q t := by
  obtain ⟨task', moved, at_k', -⟩ := step_task at_k h
  rcases Task.step_cases moved with ⟨scheme, key, j, eq, get, same, leased⟩ | ⟨_, _, _, _, eq, -⟩ | ⟨_, _, _, eq, -⟩ | ⟨other, -⟩
  · cases eq
    simp only [Lease.step, choosing] at leased
    split at leased
    · rename_i q after taken
      obtain ⟨f, rfl, isReady, perm, -⟩ := Pool.takeChosen_ready taken mem serves ready
      refine ⟨f.proxy, ?_, step_sound benched.kept.sound h, by rw [step_config benched.kept.sound h]; exact between.unverified, ?_⟩
      · intro same
        have stamped := benched.stamped f (perm.subset List.mem_cons_self) same
        simp only [Pooled.ready, stamped, decide_eq_true_eq] at isReady
        exact absurd isReady (not_le.2 early)
      · refine ⟨task', scheme, key, last, at_k', by rw [same, get], Or.inl ?_⟩
        have phase := congrArg (fun r => r.2.2.phase) (Option.some.inj leased)
        exact phase.symm
    · rename_i nothing
      have refused := Pool.takeChosen_eq_none.1 nothing e mem
      rw [refused] at serves
      cases serves
  · cases eq
  · cases eq
  · simp only [Task.step] at moved
    cases moved

/-- **A retry moves to another proxy.** A request's attempt on `p` failed and `p` is put back. When the next `get`
of the request selects before the bench is over, nobody else has put the instance back in between, and another
eligible entry is ready, then that `get` returns another instance. -/
theorem retry_moves_on {before between rest : List Input} {s₀ s₁ u w : Sys} {task task' done : Task} {ctx : ConnCtx}
    {hs : Handler.State} {sv : Serving} {p q : Proxy} {now : Instant} {waker : Nat} {last : Bool} {sel : SelectCtx}
    {seed : UInt64} (initial : s.Initial) (unverified : s.pool.config.verifyOnLease = none)
    (reached : run step s before = some s₀) (at_k : s₀.tasks[k]? = some task) (serving : task.client = .serving ctx hs)
    (failed : hs.phase = .putting sv p true true) (back : step s₀ (.task k (.op now)) = some s₁)
    (leaves : Along step (LeavesBenched k p.tag) s₁ between) (waited : run step s₁ between = some u)
    (at_k' : u.tasks[k]? = some task') (choosing : task'.lease.phase = .choosing waker last sel)
    (early : sel.now < now + s.pool.config.failTimeout)
    (other : ∃ e ∈ u.pool.state, e.proxy.tag ≠ p.tag ∧ e.proxy.servesScheme sel.scheme = true ∧ e.ready sel.now = true)
    (waits : Along step (Waits k) u (.task k (.lease (.choose seed)) :: rest))
    (returns : run step u (.task k (.lease (.choose seed)) :: rest) = some w) (at_end : w.tasks[k]? = some done)
    (returned : done.lease.phase = .returned (some q)) : q.tag ≠ p.tag := by
  have kept := kept_run initial reached
  have config := config_run initial reached
  have put : task.client.demand = .put p true := by simp [serving, Client.demand, failed]
  have plain : task.lease.phase.Plain := by
    rw [(idle_run initial reached task (List.mem_of_getElem? at_k)).fresh (by simp [put])]
    trivial
  obtain ⟨benched, task₁, at_k₁, free, same⟩ := benched_of_put kept at_k put back
  have config₁ := step_config kept.sound back
  have between₁ : s₁.Between k := by
    refine ⟨by rw [config₁, config]; exact unverified, task₁, at_k₁, free, by rw [same]; exact plain⟩
  obtain ⟨benched, between⟩ := benched_run benched between₁ leaves waited
  obtain ⟨v, drawn, ran⟩ := run_cons_iff.1 returns
  obtain ⟨e, mem, -, serves, ready⟩ := other
  obtain ⟨q', differs, drew⟩ :=
    draws_other benched between at_k' choosing (by rw [config]; exact early) mem serves ready drawn
  have drew : Drew k q' w :=
    run_preserves_along (fun _ _ _ drew waits next => drew_step drew waits next) drew (waits.2 v drawn) ran
  obtain ⟨-, -, task₂, scheme, key, last, at_end', -, phase⟩ := drew
  obtain rfl : done = task₂ := Option.some.inj (at_end.symm.trans at_end')
  rw [returned] at phase
  rcases phase with noting | eq
  · cases noting
  · cases eq
    exact differs

/-- The instance that the handler of the first task puts back to retry. -/
def retried (s : Sys) : Option Nat :=
  s.tasks[0]?.bind fun task =>
    match task.client with
    | .serving _ hs =>
      match hs.phase with
      | .putting _ p true true => some p.tag
      | _ => none
    | .connecting _ => none

/-- The clock of the selection that the first task is in, and whether an entry other than `tag` is ready for it. -/
def selectable (tag : Nat) (s : Sys) : Option (Instant × Bool) :=
  s.tasks[0]?.bind fun task =>
    match task.lease.phase with
    | .choosing _ _ sel =>
      some (sel.now, s.pool.state.any fun e => e.proxy.tag != tag && e.proxy.servesScheme sel.scheme && e.ready sel.now)
    | _ => none

theorem retried_spec (h : s.retried = some tag) :
    ∃ task ctx hs sv p, s.tasks[0]? = some task ∧ task.client = .serving ctx hs ∧ hs.phase = .putting sv p true true ∧
      p.tag = tag := by
  obtain ⟨task, at_zero, h⟩ := Option.bind_eq_some_iff.1 h
  split at h
  · rename_i ctx hs serving
    split at h
    · rename_i sv p putting
      cases h
      exact ⟨task, ctx, hs, sv, p, at_zero, serving, putting, rfl⟩
    · cases h
  · cases h

theorem selectable_spec {now : Instant} (h : s.selectable tag = some (now, true)) :
    ∃ task waker last sel, s.tasks[0]? = some task ∧ task.lease.phase = .choosing waker last sel ∧ sel.now = now ∧
      ∃ e ∈ s.pool.state, e.proxy.tag ≠ tag ∧ e.proxy.servesScheme sel.scheme = true ∧ e.ready sel.now = true := by
  obtain ⟨task, at_zero, h⟩ := Option.bind_eq_some_iff.1 h
  split at h
  · rename_i waker last sel choosing
    obtain ⟨rfl, some⟩ := Prod.mk.inj (Option.some.inj h)
    obtain ⟨e, mem, here⟩ := List.any_eq_true.1 some
    simp only [Bool.and_eq_true, bne_iff_ne, ne_eq] at here
    exact ⟨task, waker, last, sel, at_zero, choosing, rfl, e, mem, here.1.1, here.1.2, here.2⟩
  · cases h

/-- The first task is about to notify. -/
def announcing (s : Sys) : Bool :=
  s.tasks[0]?.any fun task =>
    match task.client.demand with
    | .notify => true
    | _ => false

/-- The instance that the first task's call of `get` has returned. -/
def got (s : Sys) : Option Nat :=
  s.tasks[0]?.bind fun task =>
    match task.lease.phase with
    | .returned r => r.map Proxy.tag
    | _ => none

/-- A request for `http://h/`, up to the failure of its first attempt. -/
def attempted : List Input :=
  .accept (.v4 7) (ascii "GET http://h/ HTTP/1.1\r\n\r\n") none ::
    [Task.Input.io (.serve .parse), .io (.serve (.resolved none)), .lease .notified, .lease (.read 0), .lease (.choose 0),
      .lease (.note 0), .op 0, .io (.serve (.relay .connectFailed))].map (.task 0)

/-- The retry, up to its selection. -/
def retrying : List Input := [Task.Input.op 0, .lease .notified, .lease (.read 9)].map (.task 0)

/-- The selection, and the end of the call. -/
def reselecting : List Input := [Task.Input.lease (.choose 0), .lease (.note 0)].map (.task 0)

def twoProxies : Sys := fromProxies none [httpProxy 80, httpProxy 81] PoolConfig.default

/-- The first of two proxies fails; the retry gets the second. -/
theorem retry_moves_on_second : ∃ w tag, run step twoProxies (attempted ++ [.task 0 (.op 0)] ++ retrying ++ reselecting) = some w ∧
    w.got = some tag ∧ tag ≠ 0 := by
  have fails : (run step twoProxies attempted).bind retried = some 0 := by decide +kernel
  have benches : (run step twoProxies (attempted ++ [.task 0 (.op 0)])).map announcing = some true := by decide +kernel
  have selects : (run step twoProxies (attempted ++ [.task 0 (.op 0)] ++ retrying)).bind (selectable 0) = some (9, true) := by
    decide +kernel
  have returns : (run step twoProxies (attempted ++ [.task 0 (.op 0)] ++ retrying ++ reselecting)).bind got = some 1 := by
    decide +kernel
  obtain ⟨s₀, ran₀, fails⟩ := Option.bind_eq_some_iff.1 fails
  obtain ⟨s₁, ran₁, announces⟩ := Option.map_eq_some_iff.1 benches
  obtain ⟨u, ran₂, selects⟩ := Option.bind_eq_some_iff.1 selects
  obtain ⟨w, ran₃, returns⟩ := Option.bind_eq_some_iff.1 returns
  obtain ⟨task, ctx, hs, sv, p, at_zero, serving, putting, tag⟩ := retried_spec fails
  obtain ⟨task', waker, last, sel, at_zero', choosing, now, other⟩ := selectable_spec selects
  obtain ⟨done, at_end, here⟩ := Option.bind_eq_some_iff.1 returns
  refine ⟨w, 1, ran₃, returns, ?_⟩
  have back : step s₀ (.task 0 (.op 0)) = some s₁ := by
    obtain ⟨t, next, eq⟩ := run_cons_iff.1 ((run_append ran₀).symm.trans ran₁)
    cases eq
    exact next
  rw [run_append ran₁] at ran₂
  rw [List.append_assoc, run_append ran₁, run_append ran₂] at ran₃
  have alone {l : Nat} {i : Input} {s : Sys} (away : l ≠ 0) (mine : ∃ j, i = .task 0 j) : ¬ s.PutsBack l i 0 := by
    obtain ⟨j, rfl⟩ := mine
    rintro ⟨_, _, _, _, ⟨_, _, eq, _⟩ | ⟨_, eq, _⟩⟩
    · cases eq
      exact away rfl
    · cases eq
      exact away rfl
  have leaves : Along step (LeavesBenched 0 0) s₁ retrying := by
    refine ⟨⟨?_, fun l away => alone away ⟨_, rfl⟩⟩, fun t₁ _ => ⟨⟨waits_lease, fun l away => alone away ⟨_, rfl⟩⟩,
      fun t₂ _ => ⟨⟨waits_lease, fun l away => alone away ⟨_, rfl⟩⟩, fun _ _ => trivial⟩⟩⟩
    intro task now scheme key _ there get
    simp [announcing, there, get] at announces
  split at here
  · rename_i r returned
    obtain ⟨q, rfl, drawn⟩ := Option.map_eq_some_iff.1 here
    have initial : twoProxies.Initial := Or.inl ⟨none, [httpProxy 80, httpProxy 81], PoolConfig.default, rfl⟩
    have unverified : twoProxies.pool.config.verifyOnLease = none := rfl
    have early : sel.now < 0 + twoProxies.pool.config.failTimeout := by
      rw [now]
      exact (by decide : 9 < 0 + 30000)
    have waits : Along step (Waits 0) u (.task 0 (.lease (.choose 0)) :: [.task 0 (.lease (.note 0))]) :=
      ⟨waits_lease, fun _ _ => ⟨waits_lease, fun _ _ => trivial⟩⟩
    have leaves : Along step (LeavesBenched 0 p.tag) s₁ retrying := by
      rw [tag]
      exact leaves
    rw [← tag] at other
    rw [← drawn, ← tag]
    exact retry_moves_on initial unverified ran₀ at_zero serving putting back leaves ran₂ at_zero' choosing early other waits
      ran₃ at_end returned
  · cases here

end Sys

end ProxyBroker
