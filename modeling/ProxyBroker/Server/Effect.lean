import ProxyBroker.Lib.Ledger
import ProxyBroker.Server.Lease

/-!
# What the shared state can go through

`Shared.Effect sh before after sh'` lists what one atomic step can do to the vector and its account,
with the instances that the acting task holds before and after it. Every fact about leases, evictions,
removals and hand-outs is read off this list: `Effect.ledger` maps it to the movements of a ledger.
-/

namespace ProxyBroker.Server
open Lib

namespace Pool

/-- The instances in the vector. -/
def idents (pool : Pool) : List Ident := pool.state.map fun e => e.proxy.ident

theorem addrs_eq (pool : Pool) : pool.addrs = pool.idents.map Ident.addr := by
  simp [addrs, idents, Function.comp_def, Proxy.ident]

end Pool

namespace Shared

/-- The vector, the settings and the account are the same. The cursor, the pins, the epoch, the
rotation count, `exhausted` and the history may differ. -/
structure Same (sh sh' : Shared) : Prop where
  state : sh'.pool.state = sh.pool.state
  config : sh'.pool.config = sh.pool.config
  evictions : sh'.pool.evictions = sh.pool.evictions
  evicted : sh'.evicted = sh.evicted
  removed : sh'.removed = sh.removed
  handedOut : sh'.handedOut = sh.handedOut
  handouts : sh'.handouts = sh.handouts

theorem Same.refl (sh : Shared) : Same sh sh := ⟨rfl, rfl, rfl, rfl, rfl, rfl, rfl⟩

/-- The vector after an entry was taken out of it. -/
def without (sh : Shared) (rest : List Pooled) : Shared := { sh with pool := { sh.pool with state := rest } }

/-- What one step can do, by the instances its task holds before and after. -/
inductive Effect (sh : Shared) : List Ident → List Ident → Shared → Prop
  | quiet {held : List Ident} {sh' : Shared} : Same sh sh' → Effect sh held held sh'
  | take (e : Pooled) (rest : List Pooled) : (e :: rest).Perm sh.pool.state → Effect sh [] [e.proxy.ident] (sh.without rest)
  | deliver (r : Option Proxy) : Effect sh (r.toList.map Proxy.ident) (r.toList.map Proxy.ident)
      { sh with handouts := sh.handouts ++ r.toList }
  | giveBack (p : Proxy) (failed : Bool) (now : Instant) : Effect sh [p.ident] [] (sh.putBack p failed now)
  | remove {held : List Ident} (addr : Addr) : Effect sh held held (sh.remove addr)
  | handOut {held : List Ident} (e : Pooled) (rest : List Pooled) : (e :: rest).Perm sh.pool.state →
      Effect sh held held { sh.without rest with
        handedOut := sh.handedOut ++ [e.proxy.ident]
        handouts := sh.handouts ++ [e.proxy] }

variable {sh sh' : Shared} {before after : List Ident}

/-- The ledger of the shared state, given who holds what and what was admitted. -/
def ledger (sh : Shared) (held admitted : Multiset Ident) : Ledger Ident where
  pooled := sh.pool.idents
  held := held
  evicted := sh.evicted
  removed := sh.removed
  handed := sh.handedOut
  admitted := admitted

theorem pooled_of_perm {e : Pooled} {rest : List Pooled} (perm : (e :: rest).Perm sh.pool.state) :
    (sh.pool.idents : Multiset Ident) = e.proxy.ident ::ₘ ((sh.without rest).pool.idents : Multiset Ident) := by
  apply Multiset.coe_eq_coe.2
  exact (perm.map fun e : Pooled => e.proxy.ident).symm

/-- A put evicts the proxy or pushes it, and does nothing else. -/
theorem putBack_cases (sh : Shared) (p : Proxy) (failed : Bool) (now : Instant) :
    (Pool.unhealthy sh.pool.config p = true ∧ sh.putBack p failed now =
      { sh with pool := { sh.pool with evictions := sh.pool.evictions + 1 }, evicted := sh.evicted ++ [p.ident] }) ∨
    (Pool.unhealthy sh.pool.config p = false ∧ ∃ b, sh.putBack p failed now = { sh with pool := sh.pool.push ⟨p, b⟩ }) := by
  obtain ⟨b, same⟩ : ∃ b, (if failed then sh.pool.putFailed p now else sh.pool.putOk p) = sh.pool.putInner p b := by
    cases failed with
    | true => exact ⟨_, rfl⟩
    | false => exact ⟨_, rfl⟩
  unfold putBack
  rw [same]
  rcases Pool.putInner_cases sh.pool p b with ⟨sick, eq⟩ | ⟨well, eq⟩
  · left
    rw [eq, if_pos sick]
    exact ⟨sick, rfl⟩
  · right
    rw [eq, if_neg (by simp [well])]
    exact ⟨well, b, rfl⟩

/-- Beyond the vector and the count of evictions a put leaves the pool alone. -/
theorem putBack_frame (sh : Shared) (p : Proxy) (failed : Bool) (now : Instant) :
    ∃ state evictions, (sh.putBack p failed now).pool = { sh.pool with state := state, evictions := evictions } := by
  rcases putBack_cases sh p failed now with ⟨-, eq⟩ | ⟨-, b, eq⟩
  · rw [eq]
    exact ⟨_, _, rfl⟩
  · rw [eq]
    exact ⟨_, _, rfl⟩

/-- A put is one of the two movements of a returned lease. -/
theorem putBack_ledger (sh : Shared) (p : Proxy) (failed : Bool) (now : Instant) (others admitted : Multiset Ident) :
    Ledger.Step none (sh.ledger (p.ident ::ₘ others) admitted) ((sh.putBack p failed now).ledger others admitted) := by
  rcases putBack_cases sh p failed now with ⟨-, eq⟩ | ⟨-, b, eq⟩
  · have moved := Ledger.Step.evict (l := sh.ledger (p.ident ::ₘ others) admitted) p.ident others rfl
    rw [eq]
    unfold ledger at moved ⊢
    rwa [coe_concat]
  · have moved := Ledger.Step.put (l := sh.ledger (p.ident ::ₘ others) admitted) p.ident others rfl
    have pushed : (sh.pool.push ⟨p, b⟩).idents = sh.pool.idents ++ [p.ident] := by simp [Pool.idents, Pool.push]
    rw [eq]
    unfold ledger at moved ⊢
    rwa [pushed, coe_concat]

theorem remove_ledger (sh : Shared) (addr : Addr) (held admitted : Multiset Ident) :
    Ledger.Step none (sh.ledger held admitted) ((sh.remove addr).ledger held admitted) := by
  have split : (sh.ledger held admitted).pooled =
      ((sh.pool.state.filter fun e => e.proxy.addr = addr).map fun e => e.proxy.ident : List Ident) +
        ((sh.remove addr).pool.idents : Multiset Ident) := by
    apply Multiset.coe_eq_coe.2
    rw [Pool.idents, Pool.idents, ← List.map_append]
    apply List.Perm.map _
    simpa [Shared.remove, Pool.remove] using (List.filter_append_perm (fun e : Pooled => e.proxy.addr = addr) sh.pool.state).symm
  have moved := Ledger.Step.remove _ _ split
  have removed : (sh.remove addr).ledger held admitted =
      { sh.ledger held admitted with
        pooled := ((sh.remove addr).pool.idents : Multiset Ident)
        removed := ((sh.pool.state.filter fun e => e.proxy.addr = addr).map fun e => e.proxy.ident : List Ident) +
          (sh.removed : Multiset Ident) } := by
    rw [add_comm, Multiset.coe_add]
    rfl
  rw [removed]
  exact moved

/-- **Effects are movements.** -/
theorem Effect.ledger (effect : sh.Effect before after sh') (others admitted : Multiset Ident) :
    Ledger.Step none (sh.ledger (before + others) admitted) (sh'.ledger (after + others) admitted) := by
  cases effect with
  | quiet same =>
    have unmoved : sh'.ledger (before + others) admitted = sh.ledger (before + others) admitted := by
      simp only [Shared.ledger, Pool.idents, same.state, same.evicted, same.removed, same.handedOut]
    rw [unmoved]
    exact Ledger.Step.idle
  | take e rest perm =>
    have moved := Ledger.Step.take (l := sh.ledger others admitted) e.proxy.ident _ (pooled_of_perm perm)
    rw [Multiset.coe_nil, zero_add, Multiset.coe_singleton, Multiset.singleton_add]
    exact moved
  | deliver r => exact Ledger.Step.idle
  | giveBack p failed now => simpa using putBack_ledger sh p failed now others admitted
  | remove addr => exact remove_ledger sh addr _ admitted
  | handOut e rest perm =>
    have moved := Ledger.Step.handOut (l := sh.ledger (before + others) admitted) e.proxy.ident _ (pooled_of_perm perm)
    unfold Shared.ledger at moved ⊢
    rwa [coe_concat]

/-! ## What effects leave alone -/

theorem Effect.config (effect : sh.Effect before after sh') : sh'.pool.config = sh.pool.config := by
  cases effect with
  | quiet same => exact same.config
  | giveBack p failed now =>
    rcases putBack_cases sh p failed now with ⟨-, eq⟩ | ⟨-, b, eq⟩
    · rw [eq]
    · rw [eq]; rfl
  | _ => rfl

/-- An effect evicts one instance at most. -/
theorem Effect.evicted_length (effect : sh.Effect before after sh') : sh'.evicted.length ≤ sh.evicted.length + 1 := by
  cases effect with
  | quiet same => rw [same.evicted]; exact Nat.le_succ _
  | giveBack p failed now =>
    rcases putBack_cases sh p failed now with ⟨-, eq⟩ | ⟨-, b, eq⟩
    · rw [eq, List.length_append, List.length_singleton]
    · rw [eq]; exact Nat.le_succ _
  | _ => exact Nat.le_succ _

/-- The counter counts. -/
theorem Effect.evictions (effect : sh.Effect before after sh') (counted : sh.pool.evictions = .ofNat sh.evicted.length) :
    sh'.pool.evictions = .ofNat sh'.evicted.length := by
  cases effect with
  | quiet same => rw [same.evictions, same.evicted, counted]
  | giveBack p failed now =>
    rcases putBack_cases sh p failed now with ⟨-, eq⟩ | ⟨-, b, eq⟩
    · simp only [eq, counted, List.length_append, List.length_singleton, UInt64.ofNat_add]
      rfl
    · rw [eq]
      exact counted
  | _ => exact counted

/-- What is handed out was in the vector or held. -/
theorem Effect.handouts (effect : sh.Effect before after sh') :
    ∃ new, sh'.handouts = sh.handouts ++ new ∧ ∀ p ∈ new, p.ident ∈ sh.pool.idents ∨ p.ident ∈ before := by
  cases effect with
  | quiet same => exact ⟨[], by simp [same.handouts], by simp⟩
  | take e rest perm => exact ⟨[], by simp [without], by simp⟩
  | deliver r =>
    refine ⟨r.toList, rfl, ?_⟩
    intro p mem
    exact Or.inr (List.mem_map_of_mem mem)
  | giveBack p failed now =>
    refine ⟨[], ?_, by simp⟩
    rcases putBack_cases sh p failed now with ⟨-, eq⟩ | ⟨-, b, eq⟩ <;> simp [eq]
  | remove addr => exact ⟨[], by simp [Shared.remove], by simp⟩
  | handOut e rest perm =>
    refine ⟨[e.proxy], rfl, ?_⟩
    intro p mem
    left
    rw [List.mem_singleton.1 mem]
    exact List.mem_map_of_mem (perm.mem_iff.1 List.mem_cons_self)

theorem tryGet_effect (sh : Shared) (scheme : Scheme) (country : Option Text) (held : List Ident) :
    sh.Effect held held (sh.tryGet scheme country) := by
  unfold Shared.tryGet
  split
  · rename_i p pool taken
    obtain ⟨e, rfl, perm, eq⟩ := Pool.tryGet_spec taken
    rw [eq]
    exact Effect.handOut e pool.state perm
  · exact Effect.quiet (Same.refl sh)

end Shared

/-! ## A step of `get` -/

namespace Lease

variable {scheme : Scheme} {key : ClientKey} {sh sh' : Shared} {acc acc' : Account} {g g' : State} {i : Input}

/-- The instance a lease in the making holds. -/
def State.idents (g : State) : List Ident := g.held.toList.map Proxy.ident

theorem held_redraw (g : State) : (redraw g).idents = [] := by
  unfold redraw
  split <;> rfl

theorem quiet_effect (same : sh.Same sh') (kept : g'.idents = g.idents) :
    sh.Effect g.idents g'.idents sh' ∧ (acc.taken = acc.returned ++ g.idents → acc.taken = acc.returned ++ g'.idents) := by
  rw [kept]
  exact ⟨Shared.Effect.quiet same, id⟩

/-- **A step of `get`.** Its effect, and its entries in the account: what was taken is what was returned
and what is held. -/
theorem step_effect (h : step scheme key sh acc g i = some (sh', acc', g')) :
    sh.Effect g.idents g'.idents sh' ∧
      (acc.taken = acc.returned ++ g.idents → acc'.taken = acc'.returned ++ g'.idents) := by
  have now {phase : Phase} (at_g : g.phase = phase) : g.idents = State.idents ⟨g.verifyAttempts, phase⟩ := by rw [← at_g]
  cases step_move h with
  | enter at_g | read at_g | wake at_g =>
    apply quiet_effect (Shared.Same.refl sh)
    rw [now at_g]
    rfl
  | @draw _ _ _ _ p pool at_g taken =>
    obtain ⟨e, rfl, perm, eq⟩ := Pool.takeChosen_spec taken
    rw [now at_g, eq]
    refine ⟨Shared.Effect.take e pool.state perm, ?_⟩
    intro balanced
    show acc.taken ++ [e.proxy.ident] = acc.returned ++ [e.proxy.ident]
    rw [balanced]
    simp [State.idents, State.held]
  | @miss _ last _ _ at_g =>
    apply quiet_effect (Shared.Same.refl sh)
    rw [now at_g]
    cases last <;> rfl
  | note at_g =>
    refine quiet_effect ⟨by simp, by simp, by simp, rfl, rfl, rfl, rfl⟩ ?_
    rw [now at_g]
    split <;> rfl
  | @probe _ alive at_g =>
    apply quiet_effect (Shared.Same.refl sh)
    rw [now at_g]
    cases alive <;> rfl
  | @bench p at_time at_g =>
    have back : State.idents (if Pool.unhealthy sh.pool.config p then redraw g else ⟨g.verifyAttempts, .notifying⟩) = [] := by
      split
      · exact held_redraw g
      · rfl
    rw [now at_g, back]
    refine ⟨Shared.Effect.giveBack p true at_time, ?_⟩
    intro balanced
    simpa [State.idents, State.held] using balanced
  | notify at_g =>
    refine quiet_effect ⟨rfl, rfl, rfl, rfl, rfl, rfl, rfl⟩ ?_
    rw [now at_g, held_redraw]
    rfl
  | check at_g =>
    apply quiet_effect (Shared.Same.refl sh)
    rw [now at_g]
    split <;> rfl

end Lease

end ProxyBroker.Server
