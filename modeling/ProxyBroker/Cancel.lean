import ProxyBroker.Conservation

/-!
# Dropped futures

A task can be dropped at any await. Its locals go with it, and a `Proxy` has no destructor: nothing puts
a leased proxy back. Here a dropped task stays in the list and takes no further step, so a run with drops
is a run of the system in which some tasks stop, and conservation says where the proxy is: still with the
dropped task (`dropped_lease_lost`).
-/

namespace ProxyBroker
open Lib Server

/-- The code has not ended. -/
def Client.running : Client → Bool
  | .serving _ h =>
    match h.phase with
    | .finished => false
    | _ => true
  | .connecting c =>
    match c.phase with
    | .finished _ => false
    | _ => true

/-- The task is at an await: its client's own I/O, or inside `get` the probe or the wait for a notify. The
other operations on the pool and the history do not await. -/
def Task.awaits (t : Task) : Bool :=
  match t.client.demand with
  | .nothing => t.client.running
  | .get _ _ =>
    match t.lease.phase with
    | .probing _ | .parked _ => true
    | _ => false
  | _ => false

/-- The system, and the tasks that were dropped. -/
structure Dropping where
  sys : Sys
  dropped : List Nat

namespace Dropping

inductive Input where
  | sys (i : Sys.Input)
  | drop (k : Nat)

/-- The step is one of a dropped task. -/
def ofDropped (c : Dropping) : Sys.Input → Bool
  | .task k _ => k ∈ c.dropped
  | _ => false

/-- A step of the system, or the drop of a task at an await. -/
def step (c : Dropping) (i : Input) : Option Dropping :=
  match i with
  | .sys i => if c.ofDropped i then none else (c.sys.step i).map fun t => { c with sys := t }
  | .drop k =>
    match c.sys.tasks[k]? with
    | some task => if k ∉ c.dropped ∧ task.awaits then some { c with dropped := k :: c.dropped } else none
    | none => none

variable {c d e : Dropping} {s : Sys} {i : Input} {is js : List Input} {k : Nat} {task : Task} {x : Ident}

/-- What a step can do. -/
theorem step_cases (h : c.step i = some d) :
    (∃ j, i = .sys j ∧ c.ofDropped j = false ∧ c.sys.step j = some d.sys ∧ d.dropped = c.dropped) ∨
    (∃ k task, i = .drop k ∧ c.sys.tasks[k]? = some task ∧ d.sys = c.sys ∧ d.dropped = k :: c.dropped) := by
  cases i with
  | sys j =>
    simp only [step] at h
    split at h
    · cases h
    · rename_i free
      obtain ⟨t, next, rfl⟩ := Option.map_eq_some_iff.1 h
      exact Or.inl ⟨j, rfl, eq_false_of_ne_true free, next, rfl⟩
  | drop k =>
    simp only [step] at h
    split at h
    · rename_i task at_k
      split at h
      · cases h
        exact Or.inr ⟨k, task, rfl, at_k, rfl, rfl⟩
      · cases h
    · cases h

/-- Drops take nothing from conservation: the proxies of dropped tasks count as theirs. -/
theorem kept_run (start : Sys.Initial s) (h : run step ⟨s, []⟩ is = some c) : c.sys.Kept := by
  refine run_preserves (P := fun c => c.sys.Kept) ?_ (Sys.kept_initial start) h
  intro c i d kept next
  rcases step_cases next with ⟨j, -, -, moved, -⟩ | ⟨k, task, -, -, same, -⟩
  · exact Sys.kept_step kept moved
  · rw [same]
    exact kept

/-- A dropped task stays as it was. -/
structure Frozen (k : Nat) (task : Task) (c : Dropping) : Prop where
  dropped : k ∈ c.dropped
  same : c.sys.tasks[k]? = some task

theorem frozen_step (frozen : Frozen k task c) (h : c.step i = some d) : Frozen k task d := by
  obtain ⟨gone, same⟩ := frozen
  rcases step_cases h with ⟨j, -, free, moved, kept⟩ | ⟨l, other, -, -, eq, more⟩
  · refine ⟨kept ▸ gone, ?_⟩
    rcases Sys.step_tasks moved with ⟨-, tasks⟩ | ⟨-, client, -, tasks, -⟩ | ⟨l, j', other, other', rfl, at_l, -, tasks⟩
    · rw [tasks, same]
    · rw [tasks, List.getElem?_append_left (List.getElem?_eq_some_iff.1 same).1, same]
    · have away : l ≠ k := by
        rintro rfl
        simp [ofDropped, gone] at free
      rw [tasks, List.getElem?_set_ne away, same]
  · exact ⟨more ▸ List.mem_cons_of_mem l gone, eq ▸ same⟩

/-- An instance that a task holds is nowhere else. -/
theorem held_exclusive {s : Sys} (kept : s.Kept) (at_k : s.tasks[k]? = some task) (holds : x ∈ task.held) :
    x ∈ s.admitted ∧ x ∉ s.pool.idents ∧ x ∉ s.shared.evicted ∧
      ∀ l other, s.tasks[l]? = some other → x ∈ other.held → l = k := by
  have mem : x ∈ s.leased := List.mem_flatMap.2 ⟨task, List.mem_of_getElem? at_k, holds⟩
  have nodup := kept.nodup
  unfold Sys.whereabouts at nodup
  have live := (List.nodup_append.1 (List.nodup_append.1 (List.nodup_append.1 nodup).1).1).1
  have evicted := (List.nodup_append.1 (List.nodup_append.1 (List.nodup_append.1 nodup).1).1).2.2
  refine ⟨?_, ?_, ?_, ?_⟩
  · apply kept.places.mem_iff.1
    unfold Sys.whereabouts
    simp [mem]
  · intro pooled
    exact (List.nodup_append.1 live).2.2 x pooled x mem rfl
  · intro gone
    exact evicted x (List.mem_append_right _ mem) x gone rfl
  · intro l other at_l also
    have apart := (List.nodup_flatMap.1 (List.nodup_append.1 live).2.1).2
    by_contra ne
    obtain ⟨hk, rfl⟩ := List.getElem?_eq_some_iff.1 at_k
    obtain ⟨hl, rfl⟩ := List.getElem?_eq_some_iff.1 at_l
    rcases Nat.lt_or_gt_of_ne ne with lt | gt
    · exact List.pairwise_iff_getElem.1 apart l k hl hk lt also holds
    · exact List.pairwise_iff_getElem.1 apart k l hk hl gt holds also

/-- **A dropped lease is lost.** Whenever a task is dropped while it holds a proxy, then from that moment on,
whatever the rest of the system does, the instance is not in the vector, was not evicted, and no task that
is still there holds it. -/
theorem dropped_lease_lost {before after : List Input} (start : Sys.Initial s) (reached : run step ⟨s, []⟩ before = some c)
    (at_k : c.sys.tasks[k]? = some task) (holds : x ∈ task.held) (drop : step c (.drop k) = some d)
    (later : run step d after = some e) :
    x ∈ e.sys.admitted ∧ x ∉ e.sys.pool.idents ∧ x ∉ e.sys.shared.evicted ∧
      ∀ l other, e.sys.tasks[l]? = some other → l ∉ e.dropped → x ∉ other.held := by
  have frozen : Frozen k task d := by
    rcases step_cases drop with ⟨j, eq, -⟩ | ⟨l, other, eq, -, same, more⟩
    · cases eq
    · cases eq
      exact ⟨more ▸ List.mem_cons_self, same ▸ at_k⟩
  have kept : e.sys.Kept := by
    have whole : run step ⟨s, []⟩ (before ++ .drop k :: after) = some e := by
      rw [run_append reached, run_cons_iff]
      exact ⟨d, drop, later⟩
    exact kept_run start whole
  obtain ⟨gone, same⟩ := run_preserves (fun _ _ _ inv next => frozen_step inv next) frozen later
  obtain ⟨admitted, pooled, evicted, only⟩ := held_exclusive kept same holds
  refine ⟨admitted, pooled, evicted, ?_⟩
  intro l other at_l there also
  exact there (only l other at_l also ▸ gone)

/-- A connector call is dropped while it dials. -/
theorem dropped_lease_vanishes :
    ¬ ∀ (s : Sys) (c d : Dropping) (before : List Input) (k : Nat) (task : Task) (x : Ident), Sys.Initial s →
      run step ⟨s, []⟩ before = some c → c.sys.tasks[k]? = some task → x ∈ task.held → step c (.drop k) = some d →
      x ∈ d.sys.pool.idents ∨ x ∈ d.sys.shared.evicted := by
  intro general
  obtain ⟨c, d, task, x, reached, at_k, holds, drop, pooled, evicted⟩ : ∃ c d task x,
      run step ⟨Sys.fromProxies none [httpProxy 80] PoolConfig.default, []⟩ (Sys.connecting.map .sys) = some c ∧
        c.sys.tasks[0]? = some task ∧ task.held = [x] ∧ step c (.drop 0) = some d ∧ d.sys.pool.idents = [] ∧
        d.sys.shared.evicted = [] := ⟨_, _, _, _, rfl, rfl, rfl, rfl, rfl, rfl⟩
  have there := general _ c d _ 0 task x (Or.inl ⟨_, _, _, rfl⟩) reached at_k (by simp [holds]) drop
  rw [pooled, evicted] at there
  rcases there with mem | mem <;> cases mem

/-- After that drop nobody can lease the proxy: the pool stays empty. -/
theorem dropped_lease_lost_dialling :
    ∃ c d e task x, run step ⟨Sys.fromProxies none [httpProxy 80] PoolConfig.default, []⟩ (Sys.connecting.map .sys) = some c ∧
      c.sys.tasks[0]? = some task ∧ x ∈ task.held ∧ step c (.drop 0) = some d ∧
      run step d [.sys (.tryGet .http none)] = some e ∧ x ∈ e.sys.admitted ∧ x ∉ e.sys.pool.idents ∧ x ∉ e.sys.shared.evicted := by
  obtain ⟨c, d, e, task, x, reached, at_k, holds, drop, later⟩ : ∃ c d e task x,
      run step ⟨Sys.fromProxies none [httpProxy 80] PoolConfig.default, []⟩ (Sys.connecting.map .sys) = some c ∧
        c.sys.tasks[0]? = some task ∧ task.held = [x] ∧ step c (.drop 0) = some d ∧
        run step d [.sys (.tryGet .http none)] = some e := ⟨_, _, _, _, _, rfl, rfl, rfl, rfl, rfl⟩
  have mem : x ∈ task.held := by simp [holds]
  obtain ⟨admitted, pooled, evicted, -⟩ := dropped_lease_lost (Or.inl ⟨_, _, _, rfl⟩) reached at_k mem drop later
  exact ⟨c, d, e, task, x, reached, at_k, mem, drop, later, admitted, pooled, evicted⟩

end Dropping

end ProxyBroker
