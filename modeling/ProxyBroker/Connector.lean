import ProxyBroker.Server.Lease

/-!
# The rotating connector (`connector.rs:connect`)

The other holder of leases. As with `handle_client`, what it asks of the pool is a phase at which it
waits for the answer.
-/

namespace ProxyBroker
open Lib Server

/-- What `connect` reads of a parsed `Uri`. -/
structure Uri where
  scheme : Option Text
  host : Option Text
  port : Option UInt16
deriving DecidableEq, Repr

/-- `tunnel_proto`. -/
def tunnelProto (proxy : Proxy) (scheme : Scheme) : Option Proto :=
  match [Proto.socks5, .socks4, .connect80].find? proxy.hasType with
  | some p => some p
  | none => if scheme = .http ∧ proxy.hasType .http = true then some .http else none

namespace Connector

/-- How `connect` ends: the dialled stream, or the error it returns. -/
inductive Outcome where
  | connected
  | noHost
  | noProxy
  | failed (last : Option ProxyError)
deriving DecidableEq, Repr

/-- Where `dial` stands. -/
inductive Dial where
  | connecting
  | negotiating (n : Negotiation)

/-- Where `connect` stands. -/
inductive Phase where
  | called
  | resolving
  | getting
  | dialling (proxy : Proxy) (proto : Proto) (d : Dial)
  | putting (proxy : Proxy) (failed again : Bool)
  | notifying (again : Bool)
  | finished (o : Outcome)

structure State where
  uri : Uri
  maxTries : Nat
  target : Target
  tried : Nat
  last : Option ProxyError
  phase : Phase

/-- What `connect` waits for. -/
inductive Input where
  | call
  | resolved (ip : Option IpAddr)
  | got (proxy : Option Proxy)
  | connected
  | connectFailed
  | connectTimeout
  | negotiation (i : Negotiation.Input)
  | returned (pushed : Bool)
  | notified

def start (uri : Uri) (maxTries : Nat) : State := ⟨uri, maxTries, ⟨[], none, 0⟩, 0, none, .called⟩

/-- The scheme of the target. -/
def scheme (uri : Uri) : Scheme := if uri.scheme = some "https".toList then .https else .http

/-- The key under which the connector takes its leases: `0.0.0.0`. -/
def key : ClientKey := .ip (.v4 0)

/-- The head of the retry loop. -/
def loopHead (c : State) : State :=
  { c with phase := if c.tried < c.maxTries then .getting else .finished (.failed c.last) }

/-- The `match` on the result of `dial`. -/
def dialled (c : State) (proxy : Proxy) : Option ProxyError → State
  | none => { c with phase := .putting (proxy.recordAttempt (some 0) none) false false }
  | some e => { c with last := some e, phase := .putting (proxy.recordAttempt none (some e)) true true }

/-- `negotiate` inside `dial`. -/
def negotiated (c : State) (proxy : Proxy) (proto : Proto) : Negotiation → State
  | .opened => dialled c proxy none
  | .failed e => dialled c proxy (some e)
  | n => { c with phase := .dialling proxy proto (.negotiating n) }

/-- After the lease is back. -/
def continueWith (c : State) (again : Bool) : State :=
  if again then loopHead { c with tried := c.tried + 1 } else { c with phase := .finished .connected }

/-- One event. -/
def step (c : State) (i : Input) : Option State :=
  match c.phase, i with
  | .called, .call =>
    match c.uri.host with
    | none => some { c with phase := .finished .noHost }
    | some raw =>
      let host := ((stripPrefix ['['] raw).bind (stripSuffix [']'])).getD raw
      let port := c.uri.port.getD (if scheme c.uri = .https then 443 else 80)
      some { c with target := ⟨host, none, port⟩, phase := .resolving }
  | .resolving, .resolved ip => some (loopHead { c with target := { c.target with ip := ip } })
  | .getting, .got none => some { c with phase := .finished .noProxy }
  | .getting, .got (some proxy) =>
    match tunnelProto proxy (scheme c.uri) with
    | none => some { c with phase := .putting proxy false true }
    | some proto => some { c with phase := .dialling proxy proto .connecting }
  | .dialling proxy _ .connecting, .connectTimeout => some (dialled c proxy (some .timeout))
  | .dialling proxy _ .connecting, .connectFailed => some (dialled c proxy (some .connFailed))
  | .dialling proxy proto .connecting, .connected =>
    some (negotiated c proxy proto (Negotiation.start proto c.target proxy.auth))
  | .dialling proxy proto (.negotiating n), .negotiation i => (n.step proto i).map (negotiated c proxy proto)
  | .putting _ _ again, .returned true => some { c with phase := .notifying again }
  | .putting _ _ again, .returned false => some (continueWith c again)
  | .notifying again, .notified => some (continueWith c again)
  | _, _ => none

/-! ## The lease -/

/-- The lease `connect` holds. -/
def State.held (c : State) : Option Proxy :=
  match c.phase with
  | .dialling p _ _ | .putting p _ _ => some p
  | _ => none

/-- The lease after an input, as for the handler. -/
def heldAfter (c : State) : Input → Option Ident
  | .got r => r.map Proxy.ident
  | .returned _ => none
  | _ => c.held.map Proxy.ident

variable {c d : State} {i : Input}

theorem held_loopHead (c : State) : (loopHead c).held = none := by
  unfold loopHead
  by_cases more : c.tried < c.maxTries
  · simp only [if_pos more, State.held]
  · simp only [if_neg more, State.held]

theorem held_continueWith (c : State) (again : Bool) : (continueWith c again).held = none := by
  cases again with
  | true => exact held_loopHead _
  | false => rfl

theorem held_dialled (c : State) (p : Proxy) (e : Option ProxyError) : (dialled c p e).held.map Proxy.ident = some p.ident := by
  cases e <;> rfl

theorem held_negotiated (c : State) (p : Proxy) (proto : Proto) (n : Negotiation) :
    (negotiated c p proto n).held.map Proxy.ident = some p.ident := by
  unfold negotiated
  split
  · exact held_dialled c p none
  · exact held_dialled c p _
  · rfl

/-- **One step and the lease.** -/
theorem held_step (h : step c i = some d) : d.held.map Proxy.ident = heldAfter c i := by
  unfold step at h
  split at h
  case h_1 at_c =>
    simp only [heldAfter, State.held, at_c]
    split at h <;> cases h <;> rfl
  case h_2 ip at_c =>
    cases h
    rw [held_loopHead]
    simp only [heldAfter, State.held, at_c]
  case h_4 p at_c =>
    split at h <;> cases h <;> rfl
  case h_5 p proto at_c =>
    cases h
    rw [held_dialled]
    simp only [heldAfter, State.held, at_c, Option.map_some]
  case h_6 p proto at_c =>
    cases h
    rw [held_dialled]
    simp only [heldAfter, State.held, at_c, Option.map_some]
  case h_7 p proto at_c =>
    cases h
    rw [held_negotiated]
    simp only [heldAfter, State.held, at_c, Option.map_some]
  case h_8 p proto n j at_c =>
    obtain ⟨n', -, rfl⟩ := Option.map_eq_some_iff.1 h
    rw [held_negotiated]
    simp only [heldAfter, State.held, at_c, Option.map_some]
  case h_10 p failed again at_c =>
    cases h
    rw [held_continueWith]
    rfl
  case h_11 again at_c =>
    cases h
    rw [held_continueWith]
    simp only [heldAfter, State.held, at_c]
  case h_12 => cases h
  all_goals cases h; rfl

/-- A lease is taken only where one is asked for. -/
theorem getting_of_got {r : Option Proxy} (h : step c (.got r) = some d) : c.phase = .getting := by
  cases at_c : c.phase
  case getting => rfl
  all_goals simp [step, at_c] at h

/-- A lease is returned only where it is given back. -/
theorem putting_of_returned {pushed : Bool} (h : step c (.returned pushed) = some d) :
    ∃ p failed again, c.phase = .putting p failed again := by
  cases at_c : c.phase
  case putting p failed again => exact ⟨p, failed, again, rfl⟩
  all_goals simp [step, at_c] at h

end Connector

end ProxyBroker
