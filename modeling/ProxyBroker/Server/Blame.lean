import Mathlib.Data.List.Induction
import ProxyBroker.Server.HandleClient

/-!
# Who is blamed for a failed attempt

`relay` fails at an operation on the upstream's side or at one on the client's; `fault` says at which, for every
await of `relay`. `book` is a history of the attempt a handler is making: the proxy as it was leased, and the
faults since. A lease is given back in a fair way when the proxy is charged or benched only for a fault of the
upstream, and goes back ready when only the client's side failed.

Two places are not fair. In the splice `copy_bidirectional` gives one error for both sides, and the handler takes it
for the upstream's. And a client that goes away before the splice is recorded as one more request of the proxy; where
that is the request with which `put_inner` begins to look at the proxy's errors, it is evicted. `blame_sound_iff` says
that there are no others.
-/

namespace ProxyBroker.Server
open Lib

/-- An operation that can fail. -/
inductive Fault where
  | connect
  | negotiate
  | upstreamRead
  | upstreamWrite
  | status
  | clientRead
  | clientWrite
deriving DecidableEq, Repr

/-- It is one on the upstream's side. -/
def Fault.upstream : Fault → Bool
  | .clientRead | .clientWrite => false
  | _ => true

namespace Relay
variable {α : Type} (val : α → UInt8) (own : UInt8 → α)

/-- The status line is there, and its code is not allowed. -/
def disallowed (job : Job α) (line : Bytes) : Bool :=
  lineComplete line && job.allowedCodes.any fun allowed => !allowed.contains (parseHttpStatus line)

/-- The negotiation is over, without a stream. -/
def refused : Option Negotiation → Option Fault
  | some (.failed _) => some .negotiate
  | _ => none

/-- The operation that fails with this event. -/
def fault (job : Job α) (s : State α) (i : Input) : Option Fault :=
  let proto := relayNegotiationProto job.proto job.frontend
  match s.phase, i with
  | .connecting, .connectTimeout | .connecting, .connectFailed => some .connect
  | .connecting, .connected => refused (some (Negotiation.start proto job.target job.proxy.auth))
  | .negotiating n, .upstream a => refused (n.step proto (.net a))
  | .negotiating n, .handshake h => refused (n.step proto (.handshake h))
  | .sending _, .upstream .writeFailed => some .upstreamWrite
  | .peeking _, .upstream .eof | .peeking _, .upstream .readFailed | .peeking _, .upstream .timeout => some .upstreamRead
  | .peeking head, .upstream (.read [b]) => if disallowed job (head ++ [b]) then some .status else none
  | .replying _, .client .writeFailed => some .clientWrite
  | .splicing _, .client .readFailed => some .clientRead
  | .splicing _, .client .writeFailed => some .clientWrite
  | .splicing _, .upstream .readFailed => some .upstreamRead
  | .splicing _, .upstream .writeFailed => some .upstreamWrite
  | _, _ => none

/-- The client's side of the splice fails. -/
def breaks (s : State α) (i : Input) : Bool :=
  match s.phase, i with
  | .splicing _, .client .readFailed | .splicing _, .client .writeFailed => true
  | _, _ => false

/-- The client is gone before the splice. -/
def abandons (s : State α) (i : Input) : Bool :=
  match s.phase, i with
  | .replying _, .client .writeFailed => true
  | _, _ => false

/-- The fault with which an outcome is reached. -/
def Explains (broken gone : Bool) : Phase α → Option Fault → Prop
  | .done (.retryableFailure _), f => ∃ x, f = some x ∧ x.upstream = true
  | .done (.clientCommitted _), f => ∃ x, f = some x ∧ x.upstream = !broken
  | .done .clientGone, f => gone = true ∧ ∃ x, f = some x ∧ x.upstream = false
  | _, f => f = none

variable {val own} {job : Job α} {s t : State α} {i : Input}

theorem explains_negotiation (n : Negotiation) (broken gone : Bool) :
    Explains broken gone (negotiationPhase val own job n) (refused (some n)) := by
  cases n with
  | failed e => exact ⟨.negotiate, rfl, rfl⟩
  | opened =>
    show Explains broken gone (ackOrSend val own job) none
    unfold ackOrSend
    cases job.frontend <;> rfl
  | _ => rfl

theorem explains_gate {head : Bytes} {b : UInt8} (broken gone : Bool) :
    Explains broken gone (if lineComplete (head ++ [b]) then gate job (head ++ [b]) else .peeking (head ++ [b]))
      (if disallowed job (head ++ [b]) then some .status else none) := by
  cases whole : lineComplete (head ++ [b]) with
  | false => simp [disallowed, whole, Explains]
  | true =>
    cases codes : job.allowedCodes with
    | none => simp [disallowed, gate, whole, codes, Explains]
    | some allowed =>
      by_cases good : parseHttpStatus (head ++ [b]) ∈ allowed
      · simp [disallowed, gate, whole, codes, good, Explains]
      · simp [disallowed, gate, whole, codes, good, Explains, Fault.upstream]

theorem explains_splice {sp : Splice α} (at_s : s.phase = .splicing sp) (h : spliceStep s sp i = some t) :
    Explains (breaks s i) (abandons s i) t.phase (fault job s i) := by
  unfold spliceStep at h
  split at h
  all_goals simp only [fault, breaks, abandons, at_s]
  all_goals try split at h
  all_goals cases h
  all_goals try (split <;> rfl)
  all_goals try rfl
  · exact ⟨.clientRead, rfl, rfl⟩
  · exact ⟨.clientWrite, rfl, rfl⟩
  · exact ⟨.upstreamRead, rfl, rfl⟩
  · exact ⟨.upstreamWrite, rfl, rfl⟩

/-- **Every outcome is reached with its fault.** -/
theorem explains_step (h : step val own job s i = some t) :
    Explains (breaks s i) (abandons s i) t.phase (fault job s i) := by
  unfold step at h
  split at h
  case h_1 at_s | h_2 at_s =>
    cases h
    simp only [fault, at_s]
    exact ⟨.connect, rfl, rfl⟩
  case h_3 at_s =>
    cases h
    simp only [fault, at_s]
    exact explains_negotiation _ _ _
  case h_4 n a at_s | h_5 n a at_s =>
    obtain ⟨n', next, rfl⟩ := Option.map_eq_some_iff.1 h
    simp only [fault, at_s, next]
    exact explains_negotiation n' _ _
  case h_6 rest n at_s =>
    cases h
    simp only [fault, at_s]
    rfl
  case h_7 at_s =>
    cases h
    simp only [fault, at_s]
    split <;> rfl
  case h_8 at_s =>
    cases h
    simp only [fault, at_s]
    exact ⟨.upstreamWrite, rfl, rfl⟩
  case h_9 head b at_s =>
    cases h
    simp only [fault, at_s]
    exact explains_gate _ _
  case h_10 at_s | h_11 at_s | h_12 at_s =>
    cases h
    simp only [fault, at_s]
    exact ⟨.upstreamRead, rfl, rfl⟩
  case h_13 rest n at_s =>
    cases h
    simp only [fault, at_s]
    rfl
  case h_14 at_s =>
    cases h
    simp only [fault, at_s]
    rfl
  case h_15 at_s =>
    cases h
    simp only [fault, abandons, at_s]
    exact ⟨rfl, .clientWrite, rfl, rfl⟩
  case h_16 sp at_s => exact explains_splice at_s h
  case h_17 => cases h

/-- A splice that breaks at the client's side is over, and the upstream is at no fault. -/
theorem breaks_spec (val : α → UInt8) (own : UInt8 → α) (job : Job α) (broken : breaks s i = true) :
    step val own job s i = some { s with phase := .done (.clientCommitted .errorOnStream) } ∧
      ∃ f, fault job s i = some f ∧ f.upstream = false := by
  unfold breaks at broken
  split at broken
  case h_1 sp at_s =>
    refine ⟨by simp [step, at_s, spliceStep, fail], .clientRead, by simp [fault, at_s], rfl⟩
  case h_2 sp at_s =>
    refine ⟨by simp [step, at_s, spliceStep, fail], .clientWrite, by simp [fault, at_s], rfl⟩
  case h_3 => cases broken

/-- A client that is gone before the splice ends the attempt, and the upstream is at no fault. -/
theorem abandons_spec (val : α → UInt8) (own : UInt8 → α) (job : Job α) (gone : abandons s i = true) :
    step val own job s i = some { s with phase := .done .clientGone } ∧
      ∃ f, fault job s i = some f ∧ f.upstream = false := by
  unfold abandons at gone
  split at gone
  case h_1 rest at_s => exact ⟨by simp [step, at_s, fail], .clientWrite, by simp [fault, at_s], rfl⟩
  case h_2 => cases gone

end Relay

namespace Handler

/-- The attempt the handler is making: the proxy as it was leased, and what failed since. -/
structure Book where
  lease : Option Proxy
  faults : List Fault

/-- A lease opens a new page. -/
def book (ctx : ConnCtx) (b : Book) (s : State) (i : Input) (_ : State) : Book :=
  match s.phase, i with
  | .getting _, .got proxy => ⟨proxy, []⟩
  | .relaying sv p r, .relay j => { b with faults := b.faults ++ (Relay.fault (relayJob ctx sv p) r j).toList }
  | _, _ => b

/-- However the pool stands, `put_failed` or `put_ok` adds the proxy to it as a ready entry. -/
def ReturnsReady (config : PoolConfig) (q : Proxy) (benched : Bool) : Prop :=
  ∀ (pool : Pool) (now : Instant), pool.config = config →
    (if benched then pool.putFailed q now else pool.putOk q) = pool.push ⟨q, none⟩

/-- That is `put_ok` of a proxy that is not evicted. -/
theorem returnsReady_iff {config : PoolConfig} {q : Proxy} {benched : Bool} :
    ReturnsReady config q benched ↔ benched = false ∧ Pool.unhealthy config q = false := by
  constructor
  · intro ready
    have state := congrArg Pool.state (ready { Pool.fromProxies [] config with state := [] } 0 rfl)
    cases benched <;> cases weak : Pool.unhealthy config q <;>
      simp_all [Pool.putFailed, Pool.putOk, Pool.putInner, Pool.push, Pool.fromProxies]
  · rintro ⟨rfl, strong⟩ pool now rfl
    simp [Pool.putOk, Pool.putInner, strong]

/-- The proxy `p` is given back as `q`: it is charged or benched only for a fault of the upstream, and after faults
of the client alone it is returned ready and uncharged. -/
structure Fair (config : PoolConfig) (p q : Proxy) (benched : Bool) (faults : List Fault) : Prop where
  blamed : benched = true ∨ q.errors ≠ p.errors → ∃ f ∈ faults, f.upstream = true
  spared : faults ≠ [] → (∀ f ∈ faults, f.upstream = false) → ReturnsReady config q benched ∧ q.errors = p.errors

/-- Wherever the run gives a lease back, it does so in a fair way. -/
def BlameSound (ctx : ConnCtx) (s : State) (is : List Input) : Prop :=
  ∀ before, before <+: is → ∀ w, run (noting (step ctx) (book ctx)) (s, ⟨none, []⟩) before = some w →
    ∀ sv q benched again, w.1.phase = .putting sv q benched again → ∃ p, w.2.lease = some p ∧ Fair ctx.config p q benched w.2.faults

/-- The client's side of a splice fails. -/
def breaks (s : State) (i : Input) : Bool :=
  match s.phase, i with
  | .relaying _ _ r, .relay j => Relay.breaks r j
  | _, _ => false

/-- The client is gone before the splice, and with the request that is recorded then the proxy is one that the pool
evicts. -/
def evicts (ctx : ConnCtx) (s : State) (i : Input) : Bool :=
  match s.phase, i with
  | .relaying _ p r, .relay j => Relay.abandons r j && Pool.unhealthy ctx.config (p.recordAttempt (some 0) none)
  | _, _ => false

/-- The step is neither of the two. -/
def Blameless (ctx : ConnCtx) (s : State) (i : Input) : Prop := breaks s i = false ∧ evicts ctx s i = false

variable {ctx : ConnCtx} {s t : State} {i : Input}

/-- What the book says in each phase, when every step is blameless. -/
def Booked (ctx : ConnCtx) (w : State × Book) : Prop :=
  match w.1.phase with
  | .rotating _ p | .relaying _ p _ => w.2 = ⟨some p, []⟩
  | .recording _ q => ∃ p, w.2 = ⟨some p, []⟩ ∧ q.errors = p.errors
  | .putting _ q benched _ => ∃ p, w.2.lease = some p ∧ Fair ctx.config p q benched w.2.faults
  | _ => True

theorem booked_of_free {b : Book} (free : s.held = none) : Booked ctx (s, b) := by
  unfold State.held at free
  unfold Booked
  cases at_s : s.phase <;> simp_all

/-- Nothing failed, and nothing is charged. -/
theorem fair_nothing {config : PoolConfig} {p q : Proxy} (same : q.errors = p.errors) : Fair config p q false [] :=
  ⟨by simp [same], by simp⟩

/-- The attempt is over. -/
theorem booked_conclude {sv : Serving} {p : Proxy} {o : RelayOutcome} {f : Option Fault} {gone : Bool} (at_s : s.phase = conclude sv p o)
    (explains : Relay.Explains (α := UInt8) false gone (.done o) f)
    (healthy : gone = true → Pool.unhealthy ctx.config (p.recordAttempt (some 0) none) = false) :
    Booked ctx (s, ⟨some p, f.toList⟩) := by
  unfold Booked
  rw [at_s]
  cases o with
  | ok =>
    cases explains
    exact ⟨p, rfl, rfl⟩
  | retryableFailure e =>
    obtain ⟨x, rfl, upstream⟩ := explains
    exact ⟨p, rfl, by simp [upstream], by simp [upstream]⟩
  | clientCommitted e =>
    obtain ⟨x, rfl, upstream⟩ := explains
    exact ⟨p, rfl, by simpa using upstream, by simp_all⟩
  | clientGone =>
    obtain ⟨rfl, x, rfl, client⟩ := explains
    exact ⟨p, rfl, by simp [Proxy.recordAttempt], fun _ _ => ⟨returnsReady_iff.2 ⟨rfl, healthy rfl⟩, rfl⟩⟩

theorem booked_relay {sv : Serving} {p : Proxy} {r : Relay.State UInt8} {j : Relay.Input} (at_s : s.phase = .relaying sv p r)
    (blameless : Blameless ctx s (.relay j)) (h : relayStep ctx s sv p r j = some t) :
    Booked ctx (t, ⟨some p, (Relay.fault (relayJob ctx sv p) r j).toList⟩) := by
  obtain ⟨r', moved, rfl⟩ := Option.map_eq_some_iff.1 h
  obtain ⟨whole, kept⟩ := blameless
  simp only [breaks, evicts, at_s] at whole kept
  have explains := Relay.explains_step moved
  rw [whole] at explains
  split
  · rename_i o done
    rw [done] at explains
    apply booked_conclude rfl explains
    intro gone
    simpa [gone] using kept
  · rename_i going
    have nothing : Relay.fault (relayJob ctx sv p) r j = none := by
      unfold Relay.Explains at explains
      split at explains <;> simp_all
    rw [nothing]
    rfl

theorem free_of_other (free : s.held = none) (other : ∀ p, i ≠ .got (some p)) (h : step ctx s i = some t) : t.held = none := by
  have held := held_step h
  rw [← Option.map_eq_none_iff, held]
  cases i with
  | got proxy =>
    cases proxy with
    | none => rfl
    | some p => exact absurd rfl (other p)
  | _ => simp [heldAfter, free]

theorem booked_step {w x : State × Book} (booked : Booked ctx w) (blameless : Blameless ctx w.1 i)
    (h : noting (step ctx) (book ctx) w i = some x) : Booked ctx x := by
  obtain ⟨s, b⟩ := w
  obtain ⟨t, b'⟩ := x
  obtain ⟨next, note⟩ := noting_eq h
  dsimp only at next note blameless
  subst note
  cases at_s : s.phase with
  | rotating sv p =>
    have page : b = ⟨some p, []⟩ := by simpa [Booked, at_s] using booked
    cases i <;> simp only [step, at_s] at next <;> cases next
    simp [Booked, book, at_s, page]
  | relaying sv p r =>
    have page : b = ⟨some p, []⟩ := by simpa [Booked, at_s] using booked
    cases i <;> simp only [step, at_s] at next <;> try cases next
    rename_i j
    simpa [book, at_s, page] using booked_relay at_s blameless next
  | recording sv q =>
    obtain ⟨p, page, same⟩ : ∃ p, b = ⟨some p, []⟩ ∧ q.errors = p.errors := by simpa [Booked, at_s] using booked
    cases i <;> simp only [step, at_s] at next <;> cases next
    simp only [Booked, book, at_s, page]
    exact ⟨p, rfl, fair_nothing same⟩
  | putting sv q benched again =>
    apply booked_of_free
    have held := held_step next
    cases i <;> simp only [step, at_s] at next <;> try cases next
    simpa [heldAfter] using held
  | getting sv =>
    cases i <;> simp only [step, at_s] at next <;> try cases next
    rename_i proxy
    cases proxy <;> cases next
    · exact booked_of_free rfl
    · unfold Booked
      by_cases first : 0 < sv.attempt <;> simp [first, book, at_s]
  | _ =>
    apply booked_of_free
    refine free_of_other (by simp [State.held, at_s]) ?_ next
    rintro p rfl
    simp [step, at_s] at next

/-- **While every step is blameless, every lease is given back in a fair way.** -/
theorem booked_run {is : List Input} {w x : State × Book} (booked : Booked ctx w) (blameless : Along (step ctx) (Blameless ctx) w.1 is)
    (h : run (noting (step ctx) (book ctx)) w is = some x) : Booked ctx x :=
  run_preserves_along (fun _ _ _ booked blameless next => booked_step booked blameless next) booked blameless.noting h

theorem BlameSound.left {is js : List Input} (sound : BlameSound ctx s (is ++ js)) : BlameSound ctx s is :=
  fun before prior => sound before (prior.trans (List.prefix_append is js))

/-- A step that is not blameless is a fault of the client after which the proxy is not returned ready. -/
theorem unfair_putting (bad : ¬ Blameless ctx s i) :
    ∃ sv p r j f t q benched, s.phase = .relaying sv p r ∧ i = .relay j ∧ Relay.fault (relayJob ctx sv p) r j = some f ∧
      f.upstream = false ∧ step ctx s i = some t ∧ t.phase = .putting sv q benched false ∧ ¬ ReturnsReady ctx.config q benched := by
  obtain ⟨sv, p, r, j, at_s, rfl⟩ : ∃ sv p r j, s.phase = .relaying sv p r ∧ i = .relay j := by
    unfold Blameless breaks evicts at bad
    split at bad
    · exact ⟨_, _, _, _, ‹_›, rfl⟩
    · simp at bad
  have ended (o : RelayOutcome)
      (moved : Relay.step id id (relayJob ctx sv p) r j = some { r with phase := .done o }) :
      step ctx s (.relay j) = some { s with
        phase := conclude sv p o
        unread := r.unread
        attempts := s.attempts ++ [⟨relayJob ctx sv p, { r with phase := .done o }⟩] } := by
    simp [step, at_s, relayStep, moved]
  by_cases broken : Relay.breaks r j = true
  · obtain ⟨moved, f, failed, client⟩ := Relay.breaks_spec id id (relayJob ctx sv p) broken
    refine ⟨sv, p, r, j, f, _, _, _, at_s, rfl, failed, client, ended _ moved, rfl, ?_⟩
    simp [returnsReady_iff]
  · obtain ⟨gone, weak⟩ : Relay.abandons r j = true ∧ Pool.unhealthy ctx.config (p.recordAttempt (some 0) none) = true := by
      simpa [Blameless, breaks, evicts, at_s, broken] using bad
    obtain ⟨moved, f, failed, client⟩ := Relay.abandons_spec id id (relayJob ctx sv p) gone
    refine ⟨sv, p, r, j, f, _, _, _, at_s, rfl, failed, client, ended _ moved, rfl, ?_⟩
    simp [returnsReady_iff, weak]

/-- A run in which every lease is given back in a fair way has blameless steps only. -/
theorem BlameSound.blameless {stream : Bytes} {budget : Option Nat} {is : List Input}
    (sound : BlameSound ctx (accept stream budget) is) : Along (step ctx) (Blameless ctx) (accept stream budget) is := by
  induction is using List.reverseRecOn with
  | nil => trivial
  | append_singleton is i ih =>
    have earlier := ih sound.left
    refine earlier.append fun u reached => ⟨?_, fun _ _ => trivial⟩
    by_contra bad
    obtain ⟨b, ran⟩ := run_noting reached (book ctx) ⟨none, []⟩
    have booked : Booked ctx (u, b) := booked_run (by trivial) earlier ran
    obtain ⟨sv, p, r, j, f, t, q, benched, at_u, rfl, failed, client, next, at_t, unready⟩ := unfair_putting bad
    have page : b = ⟨some p, []⟩ := by simpa [Booked, at_u] using booked
    have last : noting (step ctx) (book ctx) (u, b) (.relay j) = some (t, ⟨some p, [f]⟩) := by
      unfold noting
      rw [next]
      simp [book, at_u, page, failed]
    have ended : run (noting (step ctx) (book ctx)) (accept stream budget, ⟨none, []⟩) (is ++ [.relay j]) =
        some (t, ⟨some p, [f]⟩) := by
      rw [run_append ran]
      exact run_cons_iff.2 ⟨_, last, rfl⟩
    obtain ⟨p', -, fair⟩ := sound _ (List.prefix_refl _) _ ended sv q benched false at_t
    exact unready (fair.spared (by simp) (by simpa using client)).1

/-- **Blame.** In a run of `handle_client` every lease is given back in a fair way exactly when no read or write on
the client's socket fails inside a splice, and none before it when the request that is recorded then makes the proxy one
that the pool evicts. -/
theorem blame_sound_iff (ctx : ConnCtx) (stream : Bytes) (budget : Option Nat) (is : List Input) :
    BlameSound ctx (accept stream budget) is ↔ Along (step ctx) (Blameless ctx) (accept stream budget) is := by
  constructor
  · exact BlameSound.blameless
  · intro blameless before prior w ran sv q benched again at_w
    obtain ⟨after, rfl⟩ := prior
    have booked : Booked ctx w := booked_run (by trivial) blameless.left ran
    simpa [Booked, at_w] using booked

/-- A request with a body. -/
def posted : Bytes := ascii "POST http://h/ HTTP/1.1\r\nContent-Length: 1\r\n\r\n"

/-- It is sent to the upstream. -/
def postedRun : List Input :=
  [.parse, .resolved none, .got (some (httpProxy 80)), .relay .connected, .relay (.upstream (.wrote 46)), .relay (.upstream .flushed)]

/-- How a lease is given back, and the faults since it was taken. -/
def givenBack (w : State × Book) : Option (Bool × List (ProxyError × UInt32) × List Fault) :=
  match w.1.phase with
  | .putting _ q benched _ => some (benched, q.errors, w.2.faults)
  | _ => none

/-- The client resets the connection before it has sent the body: the proxy is charged and benched. -/
theorem client_reset_blamed :
    (run (noting (step ⟨none, .v4 7, PoolConfig.default⟩) (book ⟨none, .v4 7, PoolConfig.default⟩)) (accept posted none, ⟨none, []⟩)
      (postedRun ++ [.relay (.client .readFailed)])).bind givenBack = some (true, [(.errorOnStream, 1)], [.clientRead]) ∧
    ¬ BlameSound ⟨none, .v4 7, PoolConfig.default⟩ (accept posted none) (postedRun ++ [.relay (.client .readFailed)]) := by
  refine ⟨by decide +kernel, fun sound => ?_⟩
  have broken : (run (step ⟨none, .v4 7, PoolConfig.default⟩) (accept posted none) postedRun).map
      (breaks · (.relay (.client .readFailed))) = some true := by decide +kernel
  obtain ⟨u, reached, breaks⟩ := Option.map_eq_some_iff.1 broken
  have whole := ((along_concat_iff reached).1 sound.blameless).2.1
  rw [breaks] at whole
  cases whole

end Handler
end ProxyBroker.Server
