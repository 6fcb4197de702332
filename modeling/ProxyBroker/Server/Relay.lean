import ProxyBroker.Lib.Machine
import ProxyBroker.Negotiator
import ProxyBroker.Server.Request

/-!
# One relay attempt (`server.rs:relay`)

A machine that waits on the client's and the upstream's socket. `Phase` is the await it stands at,
`Input` what the environment answers: every outcome of the dial, of the negotiation and of each read
and write, in any order and any chunking, is some list of inputs. The three `client.write_all` of the
source are followed by the same code, so they are one phase (`replying`). The splice is
`copy_bidirectional`: two directions, each with its own buffer and end of stream, which end together
when both have shut down their side and fail as soon as one operation fails.

The bytes that travel from the client to the upstream are of any type `α` with a byte `val`; `own`
makes one of a byte that `relay` writes itself. At `UInt8` this is the code; at bytes that carry
their origin it is the code with an account of where each forwarded byte came from.
-/

namespace ProxyBroker.Server
open Lib

/-- `choose_proto`. -/
def chooseProto (proxy : Proxy) (scheme : Scheme) : Proto :=
  let pick (candidates : List Proto) := candidates.find? fun c => proxy.typeKeys.contains c
  match scheme with
  | .https => (pick [.https, .socks5, .socks4, .connect80]).getD .https
  | .http => (pick [.http, .connect80, .socks5, .socks4]).getD .http

/-- `relay_negotiation_proto`. -/
def relayNegotiationProto (proto : Proto) (frontend : Frontend) : Proto :=
  if proto = .https ∧ (frontend = .httpConnect ∨ frontend = .socks5) then .connect80 else proto

/-- `server.rs:RelayOutcome`. -/
inductive RelayOutcome where
  | ok
  | retryableFailure (e : ProxyError)
  | clientCommitted (e : ProxyError)
  | clientGone
deriving DecidableEq, Repr

/-- `host:port` as the replies print it. -/
def hostPort (p : Proxy) : Text := p.host.display ++ [':'] ++ showNat p.port.toNat

/-- The `X-Proxy-Info` line. -/
def infoLine (p : Proxy) : Bytes := ascii "X-Proxy-Info: " ++ utf8 (hostPort p) ++ ascii "\r\n"

/-- The acknowledgement of a `CONNECT`. -/
def connectAck (p : Proxy) : Bytes := ascii "HTTP/1.1 200 Connection established\r\n" ++ infoLine p ++ ascii "\r\n"

/-- `read_status_line` is done: a line feed, or 256 bytes. -/
def lineComplete (head : Bytes) : Bool := head.getLast? = some 10 || 256 ≤ head.length

namespace Relay

/-- The arguments of `relay`, with of the request what it reads. -/
structure Job (α : Type) where
  proxy : Proxy
  proto : Proto
  target : Target
  frontend : Frontend
  raw : List α
  allowedCodes : Option (List UInt16)

/-- `copy_bidirectional`: what was read and not yet written, the ends of stream seen, and the
directions shut down. -/
structure Splice (α : Type) where
  up : List α
  down : Bytes
  upEof : Bool
  upShut : Bool
  downEof : Bool
  downShut : Bool

/-- The await at which `relay` stands. -/
inductive Phase (α : Type) where
  | connecting
  | negotiating (n : Negotiation)
  | sending (rest : List α)
  | peeking (head : Bytes)
  | replying (rest : Bytes)
  | splicing (sp : Splice α)
  | done (o : RelayOutcome)

/-- Where `relay` stands, what the client has sent that is not yet read, and what was read and
written so far: `toProxy` by the negotiation, `upWritten` and `upRead` on the stream it returned,
`clientWritten` on the client's. -/
structure State (α : Type) where
  phase : Phase α
  unread : List α
  toProxy : Bytes
  upWritten : List α
  upRead : Bytes
  clientWritten : Bytes

/-- What `relay` waits for. A client read yields the next `n` bytes of what the client sends. -/
inductive Input where
  | connected
  | connectFailed
  | connectTimeout
  | handshake (h : Handshake)
  | upstream (a : Answer Bytes)
  | client (a : Answer Nat)
deriving DecidableEq, Repr

section
variable {α : Type} (val : α → UInt8) (own : UInt8 → α)

def start (unread : List α) : State α := ⟨.connecting, unread, [], [], [], []⟩

/-- The stripped request, with the upstream's own credentials if it has any. -/
def toSend (job : Job α) : List α :=
  let sanitized := stripHeader val job.raw proxyAuthorization
  match job.proxy.auth with
  | some c => injectHeader val sanitized ((authLine c).map own)
  | none => sanitized

def emptySplice : Splice α := ⟨[], [], false, false, false, false⟩

/-- The code after `negotiate`, by front-end. -/
def ackOrSend (job : Job α) : Phase α :=
  match job.frontend with
  | .httpConnect => .replying (connectAck job.proxy)
  | .socks5 => .replying (socks5Reply 0x00)
  | .httpForward => .sending (toSend val own job)

def negotiationPhase (job : Job α) : Negotiation → Phase α
  | .opened => ackOrSend val own job
  | .failed e => .done (.retryableFailure e)
  | n => .negotiating n

/-- `negotiate` takes an event. -/
def negotiationStep (job : Job α) (s : State α) (n : Negotiation) (i : Negotiation.Input) : Option (State α) :=
  let written := match n, i with
    | .asking rest, .net (.wrote k) => rest.take k
    | _, _ => []
  (n.step (relayNegotiationProto job.proto job.frontend) i).map fun n =>
    { s with phase := negotiationPhase val own job n, toProxy := s.toProxy ++ written }

/-- The status gate, once the status line is read. -/
def gate (job : Job α) (line : Bytes) : Phase α :=
  match job.allowedCodes with
  | some allowed =>
    if allowed.contains (parseHttpStatus line) then .replying (injectHeader id line (infoLine job.proxy))
    else .done (.retryableFailure (.disallowedStatus (parseHttpStatus line)))
  | none => .replying (injectHeader id line (infoLine job.proxy))

def fail (s : State α) (o : RelayOutcome) : Option (State α) := some { s with phase := .done o }

def spliceStep (s : State α) (sp : Splice α) : Input → Option (State α)
  | .client (.read n) =>
    if sp.upEof = false ∧ 0 < n ∧ n ≤ s.unread.length then
      some { s with phase := .splicing { sp with up := sp.up ++ s.unread.take n }, unread := s.unread.drop n }
    else none
  | .client .eof =>
    if sp.upEof = false ∧ s.unread = [] then some { s with phase := .splicing { sp with upEof := true } } else none
  | .upstream (.wrote n) =>
    some { s with phase := .splicing { sp with up := sp.up.drop n }, upWritten := s.upWritten ++ sp.up.take n }
  | .upstream .shut =>
    if sp.upEof = true ∧ sp.upShut = false ∧ sp.up = [] then
      some { s with phase := if sp.downShut then .done .ok else .splicing { sp with upShut := true } }
    else none
  | .upstream (.read bs) =>
    if sp.downEof = false then
      some { s with phase := .splicing { sp with down := sp.down ++ bs }, upRead := s.upRead ++ bs }
    else none
  | .upstream .eof =>
    if sp.downEof = false then some { s with phase := .splicing { sp with downEof := true } } else none
  | .client (.wrote n) =>
    some { s with phase := .splicing { sp with down := sp.down.drop n }, clientWritten := s.clientWritten ++ sp.down.take n }
  | .client .shut =>
    if sp.downEof = true ∧ sp.downShut = false ∧ sp.down = [] then
      some { s with phase := if sp.upShut then .done .ok else .splicing { sp with downShut := true } }
    else none
  | .client .readFailed | .client .writeFailed | .upstream .readFailed | .upstream .writeFailed =>
    fail s (.clientCommitted .errorOnStream)
  | _ => none

/-- One event. -/
def step (job : Job α) (s : State α) (i : Input) : Option (State α) :=
  match s.phase, i with
  | .connecting, .connectTimeout => fail s (.retryableFailure .timeout)
  | .connecting, .connectFailed => fail s (.retryableFailure .connFailed)
  | .connecting, .connected =>
    let n := Negotiation.start (relayNegotiationProto job.proto job.frontend) job.target job.proxy.auth
    some { s with phase := negotiationPhase val own job n }
  | .negotiating n, .upstream a => negotiationStep val own job s n (.net a)
  | .negotiating n, .handshake h => negotiationStep val own job s n (.handshake h)
  | .sending rest, .upstream (.wrote n) =>
    some { s with phase := .sending (rest.drop n), upWritten := s.upWritten ++ rest.take n }
  | .sending [], .upstream .flushed =>
    some { s with phase := if requestHasBody (job.raw.map val) then .splicing emptySplice else .peeking [] }
  | .sending _, .upstream .writeFailed => fail s (.retryableFailure .reset)
  | .peeking head, .upstream (.read [b]) =>
    let head := head ++ [b]
    some { s with phase := if lineComplete head then gate job head else .peeking head, upRead := s.upRead ++ [b] }
  | .peeking _, .upstream .eof => fail s (.retryableFailure .emptyRecv)
  | .peeking _, .upstream .readFailed => fail s (.retryableFailure .reset)
  | .peeking _, .upstream .timeout => fail s (.retryableFailure .timeout)
  | .replying rest, .client (.wrote n) =>
    some { s with phase := .replying (rest.drop n), clientWritten := s.clientWritten ++ rest.take n }
  | .replying [], .client .flushed => some { s with phase := .splicing emptySplice }
  | .replying _, .client .writeFailed => fail s .clientGone
  | .splicing sp, i => spliceStep s sp i
  | _, _ => none

/-! ## What a step can do -/

/-- The upstream stream is not there yet. -/
def Phase.dialling : Phase α → Prop
  | .connecting | .negotiating _ => True
  | _ => False

/-- Nothing can have reached the client yet. -/
def Phase.early : Phase α → Prop
  | .connecting | .negotiating _ | .sending _ | .peeking _ => True
  | _ => False

/-- The steps of `relay`, by what they do to its state. -/
inductive Move (job : Job α) (s : State α) : State α → Prop
  | retry (e : ProxyError) (bs : Bytes) : s.phase.early →
      Move job s { s with phase := .done (.retryableFailure e), toProxy := s.toProxy ++ bs }
  | negotiate (n : Negotiation) (bs : Bytes) : s.phase.dialling →
      Move job s { s with phase := .negotiating n, toProxy := s.toProxy ++ bs }
  | opened (bs : Bytes) : s.phase.dialling →
      Move job s { s with phase := ackOrSend val own job, toProxy := s.toProxy ++ bs }
  | send {rest : List α} (n : Nat) : s.phase = .sending rest →
      Move job s { s with phase := .sending (rest.drop n), upWritten := s.upWritten ++ rest.take n }
  | sentBody : s.phase = .sending [] → requestHasBody (job.raw.map val) = true →
      Move job s { s with phase := .splicing emptySplice }
  | sent : s.phase = .sending [] → requestHasBody (job.raw.map val) = false → Move job s { s with phase := .peeking [] }
  | peek {head : Bytes} (b : UInt8) : s.phase = .peeking head → lineComplete (head ++ [b]) = false →
      Move job s { s with phase := .peeking (head ++ [b]), upRead := s.upRead ++ [b] }
  | peeked {head : Bytes} (b : UInt8) : s.phase = .peeking head → lineComplete (head ++ [b]) = true →
      Move job s { s with phase := gate job (head ++ [b]), upRead := s.upRead ++ [b] }
  | reply {rest : Bytes} (n : Nat) : s.phase = .replying rest →
      Move job s { s with phase := .replying (rest.drop n), clientWritten := s.clientWritten ++ rest.take n }
  | replied : s.phase = .replying [] → Move job s { s with phase := .splicing emptySplice }
  | gone {rest : Bytes} : s.phase = .replying rest → Move job s { s with phase := .done .clientGone }
  | readClient {sp : Splice α} (n : Nat) : s.phase = .splicing sp →
      Move job s { s with phase := .splicing { sp with up := sp.up ++ s.unread.take n }, unread := s.unread.drop n }
  | writeUpstream {sp : Splice α} (n : Nat) : s.phase = .splicing sp →
      Move job s { s with phase := .splicing { sp with up := sp.up.drop n }, upWritten := s.upWritten ++ sp.up.take n }
  | readUpstream {sp : Splice α} (bs : Bytes) : s.phase = .splicing sp →
      Move job s { s with phase := .splicing { sp with down := sp.down ++ bs }, upRead := s.upRead ++ bs }
  | writeClient {sp : Splice α} (n : Nat) : s.phase = .splicing sp →
      Move job s
        { s with phase := .splicing { sp with down := sp.down.drop n }, clientWritten := s.clientWritten ++ sp.down.take n }
  | mark {sp sp' : Splice α} : s.phase = .splicing sp → sp'.up = sp.up → sp'.down = sp.down →
      Move job s { s with phase := .splicing sp' }
  | finish {sp : Splice α} (o : RelayOutcome) : s.phase = .splicing sp →
      (∀ e, o ≠ .retryableFailure e) → Move job s { s with phase := .done o }

variable {val own} {job : Job α} {s t : State α} {i : Input}

theorem Phase.dialling.early {p : Phase α} (dialling : p.dialling) : p.early := by
  cases p <;> trivial

theorem move_retry (e : ProxyError) (early : s.phase.early) (h : fail s (.retryableFailure e) = some t) :
    Move val own job s t := by
  cases h
  have move : Move val own job s _ := .retry e [] early
  simpa using move

theorem negotiationPhase_move (dialling : s.phase.dialling) (n : Negotiation) (bs : Bytes) :
    Move val own job s { s with phase := negotiationPhase val own job n, toProxy := s.toProxy ++ bs } := by
  cases n with
  | opened => exact .opened bs dialling
  | failed e => exact .retry e bs dialling.early
  | _ => exact .negotiate _ bs dialling

theorem negotiationStep_move {n : Negotiation} {a : Negotiation.Input} (dialling : s.phase.dialling)
    (h : negotiationStep val own job s n a = some t) : Move val own job s t := by
  obtain ⟨n', -, rfl⟩ := Option.map_eq_some_iff.1 h
  exact negotiationPhase_move dialling n' _

theorem spliceStep_move {sp : Splice α} (at_sp : s.phase = .splicing sp) (h : spliceStep s sp i = some t) :
    Move val own job s t := by
  unfold spliceStep at h
  split at h
  · split at h
    · cases h; exact .readClient _ at_sp
    · cases h
  · split at h
    · cases h; exact .mark at_sp rfl rfl
    · cases h
  · cases h; exact .writeUpstream _ at_sp
  · split at h
    · cases h
      split
      · exact .finish .ok at_sp (by simp)
      · exact .mark at_sp rfl rfl
    · cases h
  · split at h
    · cases h; exact .readUpstream _ at_sp
    · cases h
  · split at h
    · cases h; exact .mark at_sp rfl rfl
    · cases h
  · cases h; exact .writeClient _ at_sp
  · split at h
    · cases h
      split
      · exact .finish .ok at_sp (by simp)
      · exact .mark at_sp rfl rfl
    · cases h
  all_goals first
    | cases h; exact .finish _ at_sp (by simp)
    | cases h

/-- **Every step is one of the moves.** -/
theorem step_move (h : step val own job s i = some t) : Move val own job s t := by
  unfold step at h
  split at h
  case h_1 at_s => exact move_retry _ (by rw [at_s]; trivial) h
  case h_2 at_s => exact move_retry _ (by rw [at_s]; trivial) h
  case h_3 at_s =>
    cases h
    simpa using negotiationPhase_move (by rw [at_s]; trivial) _ []
  case h_4 n a at_s => exact negotiationStep_move (by rw [at_s]; trivial) h
  case h_5 n a at_s => exact negotiationStep_move (by rw [at_s]; trivial) h
  case h_6 rest n at_s => cases h; exact .send n at_s
  case h_7 at_s =>
    cases h
    split
    · rename_i body; exact .sentBody at_s body
    · rename_i noBody; exact .sent at_s (Bool.eq_false_iff.2 noBody)
  case h_8 at_s => exact move_retry _ (by rw [at_s]; trivial) h
  case h_9 head b at_s =>
    cases h
    split
    · rename_i complete; exact .peeked b at_s complete
    · rename_i partly; exact .peek b at_s (Bool.eq_false_iff.2 partly)
  case h_10 at_s => exact move_retry _ (by rw [at_s]; trivial) h
  case h_11 at_s => exact move_retry _ (by rw [at_s]; trivial) h
  case h_12 at_s => exact move_retry _ (by rw [at_s]; trivial) h
  case h_13 rest n at_s => cases h; exact .reply n at_s
  case h_14 at_s => cases h; exact .replied at_s
  case h_15 at_s => cases h; exact .gone at_s
  case h_16 sp at_s => exact spliceStep_move at_s h
  case h_17 => cases h

/-- The gate lets the line through, and its status is then allowed, or asks for another proxy. -/
theorem gate_cases (job : Job α) (line : Bytes) :
    (gate job line = .replying (injectHeader id line (infoLine job.proxy)) ∧
      ∀ allowed, job.allowedCodes = some allowed → parseHttpStatus line ∈ allowed) ∨
    ∃ e, gate job line = .done (.retryableFailure e) := by
  unfold gate
  cases codes : job.allowedCodes with
  | none => exact Or.inl ⟨rfl, by simp⟩
  | some allowed =>
    by_cases mem : allowed.contains (parseHttpStatus line) = true
    · refine Or.inl ⟨by simp only [mem, if_true], ?_⟩
      intro other eq
      cases eq
      simpa using mem
    · refine Or.inr ⟨.disallowedStatus (parseHttpStatus line), ?_⟩
      simp only [mem, if_false, Bool.false_eq_true]

end

end Relay

end ProxyBroker.Server
