import ProxyBroker.System

/-!
# Reconciling with the watched file (`watch.rs:reconcile`)

`reconcile` reads the pooled addresses once and then makes its calls, each of which locks the vector on
its own: between any two of them the rest of the system may run. So it is the list of its calls, given
what it read. `reconcile_exact` is about the run in which nothing else happens.
-/

namespace ProxyBroker
open Lib Server

namespace Watch

/-- The calls of `reconcile`, `current` being the addresses it read, in the order of the set. -/
def reconcile (current : List Addr) (desired : List Proxy) : List Sys.Input :=
  let want := desired.map Proxy.addr
  (current.filter fun a => !want.contains a).map .remove ++ (desired.filter fun p => !current.contains p.addr).map .add

/-- Its calls are removals of read addresses that the file does not list, and additions of listed proxies
whose address was not read. -/
theorem mem_reconcile {current : List Addr} {desired : List Proxy} {i : Sys.Input} (h : i ∈ reconcile current desired) :
    (∃ a ∈ current, a ∉ desired.map Proxy.addr ∧ i = .remove a) ∨ (∃ p ∈ desired, p.addr ∉ current ∧ i = .add p) := by
  rcases List.mem_append.1 h with removal | addition
  · obtain ⟨a, mem, rfl⟩ := List.mem_map.1 removal
    obtain ⟨read, unwanted⟩ := List.mem_filter.1 mem
    exact Or.inl ⟨a, read, by simpa using unwanted, rfl⟩
  · obtain ⟨p, mem, rfl⟩ := List.mem_map.1 addition
    obtain ⟨listed, absent⟩ := List.mem_filter.1 mem
    exact Or.inr ⟨p, listed, by simpa using absent, rfl⟩

/-! ## Nothing else happens -/

variable {sys : Sys} {ps : List Proxy} {old : List Addr} {news : List Pooled}

/-- The removals leave the entries of the other addresses as they are. -/
theorem run_removes (addrs : List Addr) : ∃ sys', run Sys.step sys (addrs.map .remove) = some sys' ∧
    sys'.pool.state = sys.pool.state.filter fun e => !addrs.contains e.proxy.addr := by
  induction addrs generalizing sys with
  | nil => exact ⟨sys, rfl, by simp⟩
  | cons b rest ih =>
    have removed : ({ sys with shared := sys.shared.remove b } : Sys).pool.state =
        sys.pool.state.filter fun e => e.proxy.addr ≠ b := rfl
    obtain ⟨sys', ran, state⟩ := @ih { sys with shared := sys.shared.remove b }
    refine ⟨sys', run_cons_iff.2 ⟨_, rfl, ran⟩, ?_⟩
    rw [state, removed, List.filter_filter]
    refine List.filter_congr fun e _ => ?_
    simp [Bool.and_comm]

/-- What the additions of `ps` append to a pool of the addresses `old`: entries of other listed addresses, and of
each of these the first listed proxy, unbenched. -/
structure Joined (old : List Addr) (ps : List Proxy) (news : List Pooled) : Prop where
  absent : ∀ e ∈ news, e.proxy.addr ∉ old
  listed : ∀ e ∈ news, e.proxy.addr ∈ ps.map Proxy.addr
  single : ∀ a ∉ old, ∀ p, ps.find? (fun p => p.addr = a) = some p →
    ∃ k, news.filter (fun e => e.proxy.addr = a) = [⟨{ p with tag := k }, none⟩]

/-- A proxy whose address is pooled is not added. -/
theorem Joined.held {p : Proxy} (joined : Joined old ps news) (held : p.addr ∈ old) : Joined old (p :: ps) news := by
  refine ⟨joined.absent, fun e mem => List.mem_cons_of_mem _ (joined.listed e mem), ?_⟩
  intro a absent q found
  have other : p.addr ≠ a := fun same => absent (same ▸ held)
  rw [List.find?_cons_of_neg (by simpa using other)] at found
  exact joined.single a absent q found

/-- A proxy is added before the others. -/
theorem Joined.first {p : Proxy} {k : Nat} (joined : Joined (old ++ [p.addr]) ps news) (absent : p.addr ∉ old) :
    Joined old (p :: ps) (⟨{ p with tag := k }, none⟩ :: news) := by
  have later (e : Pooled) (mem : e ∈ news) : e.proxy.addr ∉ old ∧ e.proxy.addr ≠ p.addr := by
    simpa [not_or] using joined.absent e mem
  refine ⟨?_, ?_, ?_⟩
  · intro e mem
    rcases List.mem_cons.1 mem with rfl | mem
    · exact absent
    · exact (later e mem).1
  · intro e mem
    rcases List.mem_cons.1 mem with rfl | mem
    · exact List.mem_cons_self
    · exact List.mem_cons_of_mem _ (joined.listed e mem)
  · intro a unpooled q found
    by_cases same : p.addr = a
    · subst same
      rw [List.find?_cons_of_pos (by simp)] at found
      cases found
      have none_later : news.filter (fun e => e.proxy.addr = p.addr) = [] := by
        rw [List.filter_eq_nil_iff]
        intro e mem
        simpa using (later e mem).2
      refine ⟨k, ?_⟩
      rw [List.filter_cons_of_pos (by simp [Proxy.addr]), none_later]
    · rw [List.find?_cons_of_neg (by simpa using same)] at found
      obtain ⟨k', entries⟩ := joined.single a (by simp [unpooled, Ne.symm same]) q found
      refine ⟨k', (List.filter_cons_of_neg ?_).trans entries⟩
      exact mt of_decide_eq_true same

/-- The additions append. -/
theorem run_adds (ps : List Proxy) : ∃ sys' news, run Sys.step sys (ps.map .add) = some sys' ∧
    sys'.pool.state = sys.pool.state ++ news ∧ Joined sys.pool.addrs ps news := by
  induction ps generalizing sys with
  | nil => exact ⟨sys, [], rfl, by simp, by simp, by simp, by simp⟩
  | cons p rest ih =>
    obtain ⟨mid, added, pool⟩ := Sys.step_add sys p
    obtain ⟨sys', news, ran, state, joined⟩ := @ih mid
    have mid_state : mid.pool.state = if sys.pool.holds p.addr then sys.pool.state else sys.pool.state ++ [⟨sys.tagged p, none⟩] := by
      rw [pool, Pool.add_state]
      rfl
    by_cases held : p.addr ∈ sys.pool.addrs
    · rw [if_pos (Pool.holds_iff.2 held)] at mid_state
      rw [Pool.addrs, mid_state, ← Pool.addrs] at joined
      exact ⟨sys', news, run_cons_iff.2 ⟨mid, added, ran⟩, by rw [state, mid_state], joined.held held⟩
    · rw [if_neg (mt Pool.holds_iff.1 held)] at mid_state
      have mid_addrs : mid.pool.addrs = sys.pool.addrs ++ [p.addr] := by
        rw [Pool.addrs, mid_state, List.map_append]
        rfl
      rw [mid_addrs] at joined
      refine ⟨sys', ⟨sys.tagged p, none⟩ :: news, run_cons_iff.2 ⟨mid, added, ran⟩, ?_, joined.first held⟩
      rw [state, mid_state, List.append_assoc, List.singleton_append]

/-- Nothing is done where the pooled addresses are the desired ones. -/
theorem reconcile_nothing {desired : List Proxy} {current : List Addr} (same : ∀ a, a ∈ current ↔ a ∈ desired.map Proxy.addr) :
    reconcile current desired = [] := by
  refine List.append_eq_nil_iff.2 ⟨?_, ?_⟩
  · rw [List.map_eq_nil_iff, List.filter_eq_nil_iff]
    intro a mem
    have wanted := (same a).1 mem
    simpa using wanted
  · rw [List.map_eq_nil_iff, List.filter_eq_nil_iff]
    intro p mem
    simpa using (same p.addr).2 (List.mem_map_of_mem mem)

/-- After `reconcile`: the desired ones among the entries, and then the new ones. -/
structure Reconciled (sys sys' : Sys) (desired : List Proxy) (news : List Pooled) : Prop where
  state : sys'.pool.state = sys.pool.state.filter (fun e => e.proxy.addr ∈ desired.map Proxy.addr) ++ news
  fresh : ∀ e ∈ news, e.proxy.addr ∉ sys.pool.addrs ∧ e.proxy.addr ∈ desired.map Proxy.addr
  single : ∀ a ∉ sys.pool.addrs, ∀ p, desired.find? (fun p => p.addr = a) = some p →
    ∃ k, news.filter (fun e => e.proxy.addr = a) = [⟨{ p with tag := k }, none⟩]

section Reconciled

variable {sys sys' : Sys} {desired : List Proxy} {news : List Pooled}

/-- What `reconcile` does. -/
theorem reconcile_run (sys : Sys) (desired : List Proxy) {current : List Addr} (read : ∀ a, a ∈ current ↔ a ∈ sys.pool.addrs) :
    ∃ sys' news, run Sys.step sys (reconcile current desired) = some sys' ∧ Reconciled sys sys' desired news := by
  obtain ⟨mid, removed, mid_state⟩ := @run_removes sys (current.filter fun a => !(desired.map Proxy.addr).contains a)
  obtain ⟨sys', news, added, state, joined⟩ := @run_adds mid (desired.filter fun p => !current.contains p.addr)
  -- what is left of the pool is what is listed
  have left : mid.pool.state = sys.pool.state.filter fun e => e.proxy.addr ∈ desired.map Proxy.addr := by
    rw [mid_state]
    generalize desired.map Proxy.addr = want
    refine List.filter_congr fun e mem => ?_
    have pooled : e.proxy.addr ∈ current := (read _).2 (List.mem_map_of_mem mem)
    by_cases listed : e.proxy.addr ∈ want <;> simp [pooled, listed]
  refine ⟨sys', news, (run_append removed).trans added, left ▸ state, ?_, ?_⟩
  · intro e mem
    obtain ⟨p, kept, same⟩ := List.mem_map.1 (joined.listed e mem)
    obtain ⟨listed, unread⟩ := List.mem_filter.1 kept
    rw [← same, ← read]
    exact ⟨by simpa using unread, List.mem_map_of_mem listed⟩
  · intro a unpooled p found
    have unpooled_mid : a ∉ mid.pool.addrs := by
      rw [Pool.addrs, left]
      rintro mem
      obtain ⟨e, kept, rfl⟩ := List.mem_map.1 mem
      exact unpooled (List.mem_map_of_mem (List.mem_filter.1 kept).1)
    refine joined.single a unpooled_mid p ?_
    rw [List.find?_filter, ← found]
    congr 1
    funext q
    by_cases same : q.addr = a
    · simp [same, (read a).not.2 unpooled]
    · simp [same]

/-- The addresses are the desired ones. -/
theorem Reconciled.mem_addrs (done : Reconciled sys sys' desired news) (a : Addr) :
    a ∈ sys'.pool.addrs ↔ a ∈ desired.map Proxy.addr := by
  rw [Pool.addrs, done.state, List.map_append, List.mem_append]
  constructor
  · rintro (kept | new)
    · obtain ⟨e, mem, rfl⟩ := List.mem_map.1 kept
      exact of_decide_eq_true (List.mem_filter.1 mem).2
    · obtain ⟨e, mem, rfl⟩ := List.mem_map.1 new
      exact (done.fresh e mem).2
  · intro listed
    by_cases pooled : a ∈ sys.pool.addrs
    · obtain ⟨e, mem, rfl⟩ := List.mem_map.1 pooled
      exact Or.inl (List.mem_map_of_mem (List.mem_filter.2 ⟨mem, decide_eq_true listed⟩))
    · obtain ⟨p, mem, same⟩ := List.mem_map.1 listed
      have some_listed : (desired.find? fun p => p.addr = a).isSome := by
        rw [List.find?_isSome]
        exact ⟨p, mem, decide_eq_true same⟩
      obtain ⟨q, found⟩ := Option.isSome_iff_exists.1 some_listed
      obtain ⟨k, entries⟩ := done.single a pooled q found
      have new := List.mem_filter.1 (entries ▸ List.mem_singleton.2 rfl)
      exact Or.inr (List.mem_map.2 ⟨_, new.1, of_decide_eq_true new.2⟩)

/-- The entries that were pooled before are the desired ones of them. -/
theorem Reconciled.kept (done : Reconciled sys sys' desired news) :
    sys'.pool.state.filter (fun e => e.proxy.addr ∈ sys.pool.addrs) =
      sys.pool.state.filter (fun e => e.proxy.addr ∈ desired.map Proxy.addr) := by
  have all_pooled : ∀ e ∈ sys.pool.state.filter (fun e => e.proxy.addr ∈ desired.map Proxy.addr),
      decide (e.proxy.addr ∈ sys.pool.addrs) = true := by
    intro e mem
    exact decide_eq_true (List.mem_map_of_mem (List.mem_filter.1 mem).1)
  have new_unpooled : news.filter (fun e => e.proxy.addr ∈ sys.pool.addrs) = [] := by
    refine List.filter_eq_nil_iff.2 fun e mem => ?_
    exact mt of_decide_eq_true (done.fresh e mem).1
  rw [done.state, List.filter_append, List.filter_eq_self.2 all_pooled, new_unpooled, List.append_nil]

/-- An address that was not pooled before has its new entry alone. -/
theorem Reconciled.entries {a : Addr} (done : Reconciled sys sys' desired news) (unpooled : a ∉ sys.pool.addrs) :
    sys'.pool.state.filter (fun e => e.proxy.addr = a) = news.filter (fun e => e.proxy.addr = a) := by
  have none_left : (sys.pool.state.filter (fun e => e.proxy.addr ∈ desired.map Proxy.addr)).filter (fun e => e.proxy.addr = a) = [] := by
    refine List.filter_eq_nil_iff.2 fun e mem same => ?_
    exact unpooled (of_decide_eq_true same ▸ List.mem_map_of_mem (List.mem_filter.1 mem).1)
  rw [done.state, List.filter_append, none_left, List.nil_append]

end Reconciled

/-- **Reconciling is exact.** With nothing else happening: the pooled addresses are the listed ones afterwards, the
entries of an address that was pooled and is listed are as they were and in the same order, an address that is new
has one entry, of the first proxy that is listed for it and unbenched, and reconciling with the same list again
changes nothing. -/
theorem reconcile_exact (sys : Sys) (desired : List Proxy) (current : List Addr) (read : ∀ a, a ∈ current ↔ a ∈ sys.pool.addrs) :
    ∃ sys', run Sys.step sys (reconcile current desired) = some sys' ∧
      (∀ a, a ∈ sys'.pool.addrs ↔ a ∈ desired.map Proxy.addr) ∧
      sys'.pool.state.filter (fun e => e.proxy.addr ∈ sys.pool.addrs) =
        sys.pool.state.filter (fun e => e.proxy.addr ∈ desired.map Proxy.addr) ∧
      (∀ a ∉ sys.pool.addrs, ∀ p, desired.find? (fun p => p.addr = a) = some p →
        ∃ k, sys'.pool.state.filter (fun e => e.proxy.addr = a) = [⟨{ p with tag := k }, none⟩]) ∧
      ∀ current', (∀ a, a ∈ current' ↔ a ∈ sys'.pool.addrs) → run Sys.step sys' (reconcile current' desired) = some sys' := by
  obtain ⟨sys', news, ran, done⟩ := reconcile_run sys desired read
  refine ⟨sys', ran, done.mem_addrs, done.kept, ?_, ?_⟩
  · intro a unpooled p found
    rw [done.entries unpooled]
    exact done.single a unpooled p found
  · intro current' read'
    rw [reconcile_nothing fun a => (read' a).trans (done.mem_addrs a)]
    rfl

/-- One address goes, one stays and one comes. -/
theorem reconcile_exact_swap :
    let sys := Sys.fromProxies none [httpProxy 80, httpProxy 81] .default
    ∃ sys', run Sys.step sys (reconcile sys.pool.addrs [httpProxy 81, httpProxy 82, httpProxy 82]) = some sys' ∧
      ∀ a, a ∈ sys'.pool.addrs ↔ a ∈ [httpProxy 81, httpProxy 82, httpProxy 82].map Proxy.addr := by
  intro sys
  obtain ⟨sys', ran, exact, -⟩ := reconcile_exact sys [httpProxy 81, httpProxy 82, httpProxy 82] sys.pool.addrs fun _ => Iff.rfl
  exact ⟨sys', ran, exact⟩

end Watch

end ProxyBroker
