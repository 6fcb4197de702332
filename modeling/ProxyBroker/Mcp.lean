import ProxyBroker.Server.TryGet

/-!
# The `get_proxy` tool (`mcp.rs:handle_get_proxy`)

The tool checks a proxy out with `try_get`, reads it, and puts it back with `add`. `add` pushes an entry without a
bench stamp, and pushes nothing when another entry has the address.
-/

namespace ProxyBroker.Mcp
open Lib Server

/-- `mcp.rs:ProxyInfo`. -/
structure ProxyInfo where
  proxy : Text
  types : List Text
  avgRespTime : ℚ
  errorRate : ℚ
deriving DecidableEq, Repr

/-- The metadata that is read. `types` is in the order of the map. -/
def info (p : Proxy) : ProxyInfo where
  proxy := p.addrText
  types := (Proto.all.filter fun proto => (p.types proto).isSome).map Proto.asStr
  avgRespTime := p.avgRespTime
  errorRate := p.errorRate

/-- `mcp.rs:handle_get_proxy`. -/
def handleGetProxy (pool : Pool) (scheme : Scheme) (country : Option Text) : Option ProxyInfo × Pool :=
  match pool.tryGet scheme country with
  | none => (none, pool)
  | some (p, pool) => (some (info p), pool.add p)

variable {pool : Pool} {scheme : Scheme} {country : Option Text} {i : Nat} {e : Pooled}

/-- No entry passes the filters, or the one that is handed out is not benched and has its address for itself. -/
def PutBack (pool : Pool) (scheme : Scheme) (country : Option Text) : Prop :=
  (∀ i, ¬ pool.Eligible scheme country i) ∨
    ∃ i e, pool.IsFirst scheme country i ∧ pool.state[i]? = some e ∧ e.blockedUntil = none ∧
      ∀ j f, pool.state[j]? = some f → f.proxy.addr = e.proxy.addr → j = i

/-- The address is pooled once more when the entry at `i` is gone. -/
theorem mem_addrs_erased {a : Addr} : a ∈ ({ pool with state := pool.state.eraseIdx i } : Pool).addrs ↔
    ∃ j f, pool.state[j]? = some f ∧ f.proxy.addr = a ∧ j ≠ i := by
  simp only [Pool.addrs, List.mem_map, List.mem_eraseIdx_iff_getElem?]
  constructor
  · rintro ⟨f, ⟨j, other, at_j⟩, same⟩
    exact ⟨j, f, at_j, same, other⟩
  · rintro ⟨j, f, at_j, same, other⟩
    exact ⟨f, ⟨j, other, at_j⟩, same⟩

/-- Putting back the entry that was taken. -/
theorem add_erased_perm_iff (at_i : pool.state[i]? = some e) :
    (({ pool with state := pool.state.eraseIdx i } : Pool).add e.proxy).state.Perm pool.state ↔
      e.blockedUntil = none ∧ ∀ j f, pool.state[j]? = some f → f.proxy.addr = e.proxy.addr → j = i := by
  obtain ⟨hi, at_i'⟩ := List.getElem?_eq_some_iff.1 at_i
  have leaves : (e :: pool.state.eraseIdx i).Perm pool.state := at_i' ▸ List.getElem_cons_eraseIdx_perm hi
  rw [Pool.add_state]
  by_cases again : e.proxy.addr ∈ ({ pool with state := pool.state.eraseIdx i } : Pool).addrs
  · rw [if_pos (Pool.holds_iff.2 again)]
    obtain ⟨j, f, at_j, same, other⟩ := mem_addrs_erased.1 again
    refine iff_of_false ?_ fun alone => other (alone.2 j f at_j same)
    intro perm
    have lengths : (pool.state.eraseIdx i).length = (e :: pool.state.eraseIdx i).length := perm.length_eq.trans leaves.length_eq.symm
    rw [List.length_cons] at lengths
    omega
  · have alone : ∀ j f, pool.state[j]? = some f → f.proxy.addr = e.proxy.addr → j = i := by
      intro j f at_j same
      by_contra other
      exact again (mem_addrs_erased.2 ⟨j, f, at_j, same, other⟩)
    rw [if_neg (mt Pool.holds_iff.1 again), and_iff_left alone]
    let back : Pooled := ⟨e.proxy, none⟩
    have front : (pool.state.eraseIdx i ++ [back]).Perm (back :: pool.state.eraseIdx i) := List.perm_append_singleton _ _
    constructor
    · intro perm
      have same : back = e := Pool.eq_of_cons_perm (front.symm.trans (perm.trans leaves.symm))
      rw [← same]
    · intro unbenched
      have same : back = e := congrArg (Pooled.mk e.proxy) unbenched.symm
      exact front.trans (same ▸ leaves)

/-- **The tool and the pool.** `get_proxy` leaves the pooled entries as they are exactly when it finds nothing, or when
the entry it hands out is not benched and no other entry has its address. -/
theorem handleGetProxy_keeps_iff (pool : Pool) (scheme : Scheme) (country : Option Text) :
    (handleGetProxy pool scheme country).2.state.Perm pool.state ↔ PutBack pool scheme country := by
  rcases Pool.tryGet_cases pool scheme country with ⟨unserved, none⟩ | ⟨i, e, first, at_i, some⟩
  · rw [handleGetProxy, none]
    exact iff_of_true (List.Perm.refl _) (Or.inl unserved)
  · rw [handleGetProxy, some]
    refine (add_erased_perm_iff at_i).trans ?_
    constructor
    · rintro ⟨unbenched, alone⟩
      exact Or.inr ⟨i, e, first, at_i, unbenched, alone⟩
    · rintro (unserved | ⟨j, f, first', at_j, kept⟩)
      · exact absurd first.eligible (unserved i)
      · obtain rfl := first.unique first'
        obtain rfl := Option.some.inj (at_i.symm.trans at_j)
        exact kept

/-- A benched proxy comes back without its bench stamp. -/
theorem handleGetProxy_unbenches :
    let pool : Pool := { Pool.fromProxies [] .default with state := [⟨httpProxy 80, some 5⟩] }
    ¬ (handleGetProxy pool .http none).2.state.Perm pool.state := by
  intro pool perm
  have stamps := perm.map Pooled.blockedUntil
  have before : pool.state.map Pooled.blockedUntil = [some 5] := rfl
  have after : (handleGetProxy pool .http none).2.state.map Pooled.blockedUntil = [none] := by decide +kernel
  rw [before, after, List.perm_singleton] at stamps
  cases stamps

end ProxyBroker.Mcp
