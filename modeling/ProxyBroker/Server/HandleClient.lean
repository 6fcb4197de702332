import ProxyBroker.Server.Pool
import ProxyBroker.Server.RelayFlow

/-!
# Serving one client (`server.rs:handle_client`)

The handler as a machine. Its own I/O with the client is in its state; what it asks of the shared
server (a lease, a return, the history) is a phase at which it waits for the answer, so that here any
answer is possible and `System.lean` supplies the real one. The parse of the first request is one
step over the bytes the client sends (`Server/Request.lean`): nothing shared is touched before it
ends.
-/

namespace ProxyBroker.Server
open Lib

/-- `server.rs:History`. -/
structure History where
  map : List (Text × Text)
deriving DecidableEq, Repr

namespace History

/-- `History::CAP`. -/
def cap : Nat := 10000

/-- `History::new`. -/
def new : History := ⟨[]⟩

/-- `History::record`. -/
def record (h : History) (key proxy : Text) : History :=
  let kept := if cap ≤ h.map.length ∧ (h.map.lookup key).isNone then [] else h.map
  ⟨assocInsert key proxy kept⟩

/-- `History::get`. -/
def get (h : History) (key : Text) : Option Text := h.map.lookup key

end History

/-- `client_key`. -/
def clientKey (config : PoolConfig) (peerIp : IpAddr) (req : ClientRequest) : ClientKey :=
  if req.scheme = .http then
    match config.stickyHeader.bind (headerValue req.raw) with
    | some v => .header v
    | none => .ip peerIp
  else .ip peerIp

/-- `terminal_failure`. -/
def terminalFailure : Frontend → Bytes
  | .socks5 => socks5Reply 0x01
  | _ => ascii "HTTP/1.1 502 Bad Gateway\r\n\r\n"

/-- The reply to a client without the credentials. -/
def authRequired : Bytes :=
  ascii "HTTP/1.1 407 Proxy Authentication Required\r\nProxy-Authenticate: Basic realm=\"proxybroker\"\r\n\r\n"

/-- The HTTP credential gate. -/
def authPasses (expected : Option AuthExpect) (req : ClientRequest) : Bool :=
  req.frontend = .socks5 ||
    match expected with
    | some e => req.proxyAuth = some e.basic
    | none => true

/-! ## The control API -/

def noContent : Bytes := ascii "HTTP/1.1 204 No Content\r\n\r\n"

/-- The reply to a history query that found `proxy`. -/
def historyReply (proxy : Text) : Bytes :=
  let body := ascii "\x7b\"proxy\": \"" ++ utf8 proxy ++ ascii "\"\x7d\r\n"
  ascii "HTTP/1.1 200 OK\r\nContent-Type: application/json\r\nContent-Length: " ++ utf8 (showNat body.length) ++
    ascii "\r\nAccess-Control-Allow-Origin: *\r\nAccess-Control-Allow-Credentials: true\r\n\r\n" ++ body

/-- The key under which the history keeps what served `target` for a client. -/
def historyKey (peerIp : IpAddr) (target : Text) : Text := peerIp.display ++ ['-'] ++ target

/-- What a control request asks for. A `remove` of something that is no address asks for nothing. -/
inductive Control where
  | remove (addr : Addr)
  | history (key : Text)
  | nothing
deriving DecidableEq, Repr

/-- The dispatch of `serve_control` on the request target. -/
def control (peerIp : IpAddr) (path : Text) : Control :=
  let rest := ((stripPrefix "http://proxycontrol".toList path).getD path).dropWhile (· = '/')
  match splitN '/' 3 rest with
  | [_, operation, params] =>
    if operation = "remove".toList then
      let (h, p) := splitHostPort params 0
      match parseIpAddr h with
      | some ip => .remove (ip, p)
      | none => .nothing
    else if operation = "history".toList then
      .history (historyKey peerIp ((stripPrefix "url:".toList params).getD []))
    else .nothing
  | _ => .nothing

example : control (.v4 0) "http://proxycontrol/api/remove/1.1.1.1:80".toList = .remove (.v4 0x01010101, 80) := by decide

/-! ## The handler -/

/-- `server.rs:ConnCtx` and the peer, less the shared pool and history. -/
structure ConnCtx where
  expectedAuth : Option AuthExpect
  peerIp : IpAddr
  config : PoolConfig

/-- A request in the retry loop. -/
structure Serving where
  req : ClientRequest
  key : ClientKey
  target : Target
  attempt : Nat

namespace Handler

/-- The await or the shared operation at which `handle_client` stands. -/
inductive Phase where
  | accepted (client : Socket)
  | denying (rest : Bytes)
  | removing (addr : Addr)
  | lookingUp (key : Text)
  | answering (rest : Bytes)
  | resolving (req : ClientRequest)
  | getting (sv : Serving)
  | rotating (sv : Serving) (proxy : Proxy)
  | relaying (sv : Serving) (proxy : Proxy) (r : Relay.State UInt8)
  | recording (sv : Serving) (proxy : Proxy)
  | putting (sv : Serving) (proxy : Proxy) (failed again : Bool)
  | notifying (sv : Serving) (again : Bool)
  | refusing (rest : Bytes)
  | finished

/-- What a client must have the credentials for. -/
inductive Action where
  | poolGet | poolRemove | historyRead | historyWrite | controlReply
deriving DecidableEq, Repr

/-- A call of `relay`: its arguments and where it stands or ended. -/
structure Attempt where
  job : Relay.Job UInt8
  relay : Relay.State UInt8

/-- Where the handler stands, what the client has sent that is not yet read, the finished attempts,
what was written to the client before (`preface`) and after (`refusal`) them, whether a write of the
handler itself failed, and the gated actions performed, in order. -/
structure State where
  phase : Phase
  unread : Bytes
  attempts : List Attempt
  preface : Bytes
  refusal : Bytes
  cut : Bool
  actions : List Action

/-- What the handler waits for. -/
inductive Input where
  | parse
  | client (a : Answer Nat)
  | removed
  | lookedUp (found : Option Text)
  | resolved (ip : Option IpAddr)
  | got (proxy : Option Proxy)
  | rotated
  | relay (i : Relay.Input)
  | recorded
  | returned (pushed : Bool)
  | notified

variable (ctx : ConnCtx)

/-- A connection on which the client will send `stream`, and accept `budget` bytes while its request
is read. -/
def accept (stream : Bytes) (budget : Option Nat) : State :=
  ⟨.accepted ⟨stream, [], budget⟩, [], [], [], [], false, []⟩

/-- Past the parse, the gate and the control API. `preface` was written during the parse. -/
def admitted (req : ClientRequest) (unread preface : Bytes) : State := ⟨.resolving req, unread, [], preface, [], false, []⟩

/-- `handle_client` once the request is parsed. -/
def dispatch (req : ClientRequest) : Phase :=
  if authPasses ctx.expectedAuth req then
    if req.host = "proxycontrol".toList then
      match control ctx.peerIp req.path with
      | .remove addr => .removing addr
      | .history key => .lookingUp key
      | .nothing => .answering noContent
    else .resolving req
  else .denying authRequired

/-- The head of the retry loop. -/
def loopHead (s : State) (sv : Serving) : State :=
  if sv.attempt < ctx.config.maxTries then { s with phase := .getting sv, actions := s.actions ++ [.poolGet] }
  else { s with phase := .refusing (terminalFailure sv.req.frontend) }

/-- The arguments of the call of `relay`. -/
def relayJob (sv : Serving) (proxy : Proxy) : Relay.Job UInt8 where
  proxy := proxy
  proto := chooseProto proxy sv.req.scheme
  target := sv.target
  frontend := sv.req.frontend
  raw := sv.req.raw
  allowedCodes := ctx.config.httpAllowedCodes

/-- The `match` on the outcome of `relay`. -/
def conclude (sv : Serving) (proxy : Proxy) : RelayOutcome → Phase
  | .ok => .recording sv (proxy.recordAttempt (some 0) none)
  | .retryableFailure e => .putting sv (proxy.recordAttempt none (some e)) true true
  | .clientCommitted e => .putting sv (proxy.recordAttempt none (some e)) true false
  | .clientGone => .putting sv (proxy.recordAttempt (some 0) none) false false

/-- `relay` takes an event. -/
def relayStep (s : State) (sv : Serving) (proxy : Proxy) (r : Relay.State UInt8) (i : Relay.Input) : Option State :=
  (Relay.step id id (relayJob ctx sv proxy) r i).map fun r =>
    match r.phase with
    | .done o =>
      { s with phase := conclude sv proxy o, unread := r.unread, attempts := s.attempts ++ [⟨relayJob ctx sv proxy, r⟩] }
    | _ => { s with phase := .relaying sv proxy r }

/-- After the lease is back. -/
def continueWith (s : State) (sv : Serving) (again : Bool) : State :=
  if again then loopHead ctx s { sv with attempt := sv.attempt + 1 } else { s with phase := .finished }

/-- One event. -/
def step (s : State) (i : Input) : Option State :=
  match s.phase, i with
  | .accepted client, .parse =>
    match parseClientRequest ctx.expectedAuth client with
    | (none, after) => some { s with phase := .finished, unread := after.input, preface := after.output }
    | (some req, after) => some { s with phase := dispatch ctx req, unread := after.input, preface := after.output }
  | .denying rest, .client (.wrote n) =>
    some { s with phase := .denying (rest.drop n), preface := s.preface ++ rest.take n }
  | .denying [], .client .flushed => some { s with phase := .finished }
  | .denying _, .client .writeFailed => some { s with phase := .finished, cut := true }
  | .removing _, .removed => some { s with phase := .answering noContent, actions := s.actions ++ [.poolRemove] }
  | .lookingUp _, .lookedUp found =>
    let reply := match found with
      | some proxy => historyReply proxy
      | none => noContent
    some { s with phase := .answering reply, actions := s.actions ++ [.historyRead] }
  | .answering rest, .client (.wrote n) =>
    some { s with
      phase := .answering (rest.drop n)
      preface := s.preface ++ rest.take n
      actions := s.actions ++ [.controlReply] }
  | .answering [], .client .flushed => some { s with phase := .finished }
  | .answering _, .client .writeFailed => some { s with phase := .finished, cut := true }
  | .resolving req, .resolved ip =>
    some (loopHead ctx s ⟨req, clientKey ctx.config ctx.peerIp req, ⟨req.host, ip, req.port⟩, 0⟩)
  | .getting sv, .got none => some { s with phase := .refusing (terminalFailure sv.req.frontend) }
  | .getting sv, .got (some proxy) =>
    some { s with
      phase := if 0 < sv.attempt then .rotating sv proxy else .relaying sv proxy (Relay.start s.unread) }
  | .rotating sv proxy, .rotated => some { s with phase := .relaying sv proxy (Relay.start s.unread) }
  | .relaying sv proxy r, .relay i => relayStep ctx s sv proxy r i
  | .recording sv proxy, .recorded =>
    some { s with phase := .putting sv proxy false false, actions := s.actions ++ [.historyWrite] }
  | .putting sv _ _ again, .returned true => some { s with phase := .notifying sv again }
  | .putting sv _ _ again, .returned false => some (continueWith ctx s sv again)
  | .notifying sv again, .notified => some (continueWith ctx s sv again)
  | .refusing rest, .client (.wrote n) =>
    some { s with phase := .refusing (rest.drop n), refusal := s.refusal ++ rest.take n }
  | .refusing [], .client .flushed => some { s with phase := .finished }
  | .refusing _, .client .writeFailed => some { s with phase := .finished, cut := true }
  | _, _ => none

/-- The steps of the handler, by what they do to it. -/
inductive Move (s : State) : Input → State → Prop
  | dropped {client after : Socket} (at_s : s.phase = .accepted client)
    (unparsed : parseClientRequest ctx.expectedAuth client = (none, after)) :
    Move s .parse { s with phase := .finished, unread := after.input, preface := after.output }
  | parsed {client after : Socket} {req : ClientRequest} (at_s : s.phase = .accepted client)
    (parsed : parseClientRequest ctx.expectedAuth client = (some req, after)) :
    Move s .parse { s with phase := dispatch ctx req, unread := after.input, preface := after.output }
  | deny {rest : Bytes} {n : Nat} (at_s : s.phase = .denying rest) :
    Move s (.client (.wrote n)) { s with phase := .denying (rest.drop n), preface := s.preface ++ rest.take n }
  | denied (at_s : s.phase = .denying []) : Move s (.client .flushed) { s with phase := .finished }
  | denyCut {rest : Bytes} (at_s : s.phase = .denying rest) :
    Move s (.client .writeFailed) { s with phase := .finished, cut := true }
  | remove {addr : Addr} (at_s : s.phase = .removing addr) :
    Move s .removed { s with phase := .answering noContent, actions := s.actions ++ [.poolRemove] }
  | lookUp {key : Text} {found : Option Text} (at_s : s.phase = .lookingUp key) :
    Move s (.lookedUp found)
      { s with
        phase := .answering (match found with | some proxy => historyReply proxy | none => noContent)
        actions := s.actions ++ [.historyRead] }
  | answer {rest : Bytes} {n : Nat} (at_s : s.phase = .answering rest) :
    Move s (.client (.wrote n))
      { s with
        phase := .answering (rest.drop n)
        preface := s.preface ++ rest.take n
        actions := s.actions ++ [.controlReply] }
  | answered (at_s : s.phase = .answering []) : Move s (.client .flushed) { s with phase := .finished }
  | answerCut {rest : Bytes} (at_s : s.phase = .answering rest) :
    Move s (.client .writeFailed) { s with phase := .finished, cut := true }
  | resolve {req : ClientRequest} {ip : Option IpAddr} (at_s : s.phase = .resolving req) :
    Move s (.resolved ip) (loopHead ctx s ⟨req, clientKey ctx.config ctx.peerIp req, ⟨req.host, ip, req.port⟩, 0⟩)
  | starve {sv : Serving} (at_s : s.phase = .getting sv) :
    Move s (.got none) { s with phase := .refusing (terminalFailure sv.req.frontend) }
  | lease {sv : Serving} {proxy : Proxy} (at_s : s.phase = .getting sv) :
    Move s (.got (some proxy))
      { s with phase := if 0 < sv.attempt then .rotating sv proxy else .relaying sv proxy (Relay.start s.unread) }
  | rotate {sv : Serving} {proxy : Proxy} (at_s : s.phase = .rotating sv proxy) :
    Move s .rotated { s with phase := .relaying sv proxy (Relay.start s.unread) }
  | relay {sv : Serving} {proxy : Proxy} {r : Relay.State UInt8} {j : Relay.Input} {t : State}
    (at_s : s.phase = .relaying sv proxy r) (moved : relayStep ctx s sv proxy r j = some t) : Move s (.relay j) t
  | record {sv : Serving} {proxy : Proxy} (at_s : s.phase = .recording sv proxy) :
    Move s .recorded { s with phase := .putting sv proxy false false, actions := s.actions ++ [.historyWrite] }
  | push {sv : Serving} {proxy : Proxy} {failed again : Bool} (at_s : s.phase = .putting sv proxy failed again) :
    Move s (.returned true) { s with phase := .notifying sv again }
  | evict {sv : Serving} {proxy : Proxy} {failed again : Bool} (at_s : s.phase = .putting sv proxy failed again) :
    Move s (.returned false) (continueWith ctx s sv again)
  | notify {sv : Serving} {again : Bool} (at_s : s.phase = .notifying sv again) : Move s .notified (continueWith ctx s sv again)
  | refuse {rest : Bytes} {n : Nat} (at_s : s.phase = .refusing rest) :
    Move s (.client (.wrote n)) { s with phase := .refusing (rest.drop n), refusal := s.refusal ++ rest.take n }
  | refused (at_s : s.phase = .refusing []) : Move s (.client .flushed) { s with phase := .finished }
  | refuseCut {rest : Bytes} (at_s : s.phase = .refusing rest) :
    Move s (.client .writeFailed) { s with phase := .finished, cut := true }

/-- **What a step of the handler is.** -/
theorem step_move {ctx : ConnCtx} {s t : State} {i : Input} (h : step ctx s i = some t) : Move ctx s i t := by
  unfold step at h
  split at h
  case h_1 at_s =>
    split at h
    · cases h
      exact .dropped at_s ‹_›
    · cases h
      exact .parsed at_s ‹_›
  case h_14 at_s => exact .relay at_s h
  case h_22 => cases h
  all_goals
    rename_i at_s
    cases h
  case h_2 => exact .deny at_s
  case h_3 => exact .denied at_s
  case h_4 => exact .denyCut at_s
  case h_5 => exact .remove at_s
  case h_6 => exact .lookUp at_s
  case h_7 => exact .answer at_s
  case h_8 => exact .answered at_s
  case h_9 => exact .answerCut at_s
  case h_10 => exact .resolve at_s
  case h_11 => exact .starve at_s
  case h_12 => exact .lease at_s
  case h_13 => exact .rotate at_s
  case h_15 => exact .record at_s
  case h_16 => exact .push at_s
  case h_17 => exact .evict at_s
  case h_18 => exact .notify at_s
  case h_19 => exact .refuse at_s
  case h_20 => exact .refused at_s
  case h_21 => exact .refuseCut at_s

/-! ## The lease -/

/-- The lease the handler holds. -/
def State.held (s : State) : Option Proxy :=
  match s.phase with
  | .rotating _ p | .relaying _ p _ | .recording _ p | .putting _ p _ _ => some p
  | _ => none

/-- The lease after an input: one that was asked for begins, a returned one ends, and nothing else
touches it. -/
def heldAfter (s : State) : Input → Option Ident
  | .got r => r.map Proxy.ident
  | .returned _ => none
  | _ => s.held.map Proxy.ident

variable {ctx} {s t : State} {i : Input}

theorem held_loopHead (s : State) (sv : Serving) : (loopHead ctx s sv).held = none := by
  unfold loopHead
  split <;> rfl

theorem held_continueWith (s : State) (sv : Serving) (again : Bool) : (continueWith ctx s sv again).held = none := by
  cases again with
  | true => exact held_loopHead _ _
  | false => rfl

theorem held_dispatch (s : State) (req : ClientRequest) : State.held { s with phase := dispatch ctx req } = none := by
  unfold State.held dispatch
  by_cases passes : authPasses ctx.expectedAuth req = true
  · by_cases api : req.host = "proxycontrol".toList
    · rw [if_pos passes, if_pos api]
      cases control ctx.peerIp req.path <;> rfl
    · rw [if_pos passes, if_neg api]
  · rw [if_neg passes]

theorem held_relayStep {sv : Serving} {p : Proxy} {r : Relay.State UInt8} {j : Relay.Input}
    (h : relayStep ctx s sv p r j = some t) : t.held.map Proxy.ident = some p.ident := by
  obtain ⟨r', -, rfl⟩ := Option.map_eq_some_iff.1 h
  split
  · rename_i o _
    cases o <;> rfl
  · rfl

/-- **One step and the lease.** -/
theorem held_step (h : step ctx s i = some t) : t.held.map Proxy.ident = heldAfter s i := by
  cases step_move h with
  | dropped at_s => simp only [heldAfter, State.held, at_s]
  | @parsed _ after req at_s =>
    simp only [heldAfter, State.held, at_s]
    exact congrArg (Option.map Proxy.ident) (held_dispatch { s with unread := after.input, preface := after.output } req)
  | resolve at_s =>
    rw [held_loopHead]
    simp only [heldAfter, State.held, at_s]
  | @lease sv p at_s =>
    simp only [heldAfter, State.held]
    by_cases first : 0 < sv.attempt
    · simp only [if_pos first, Option.map_some]
    · simp only [if_neg first, Option.map_some]
  | relay at_s moved =>
    rw [held_relayStep moved]
    simp only [heldAfter, State.held, at_s, Option.map_some]
  | evict => simp only [held_continueWith, heldAfter, Option.map_none]
  | notify at_s =>
    rw [held_continueWith]
    simp only [heldAfter, State.held, at_s]
  -- the lease is as the phase says, before and after
  | deny at_s | denied at_s | denyCut at_s | remove at_s | lookUp at_s | answer at_s | answered at_s | answerCut at_s
  | starve at_s | rotate at_s | record at_s | push at_s | refuse at_s | refused at_s | refuseCut at_s =>
    simp only [heldAfter, State.held, at_s, Option.map_some, Option.map_none]

/-- A lease is taken only where one is asked for. -/
theorem getting_of_got {r : Option Proxy} (h : step ctx s (.got r) = some t) : ∃ sv, s.phase = .getting sv := by
  cases at_s : s.phase
  case getting sv => exact ⟨sv, rfl⟩
  all_goals simp [step, at_s] at h

/-- A lease is returned only where it is given back. -/
theorem putting_of_returned {pushed : Bool} (h : step ctx s (.returned pushed) = some t) :
    ∃ sv p failed again, s.phase = .putting sv p failed again := by
  cases at_s : s.phase
  case putting sv p failed again => exact ⟨sv, p, failed, again, rfl⟩
  all_goals simp [step, at_s] at h

end Handler

end ProxyBroker.Server
