import ProxyBroker.Socks5

/-!
# What passes through unchanged

Two results about bytes that the server only carries. A committed forward request gets its upstream's
response as it was sent, but for one line that is inserted after a proper status line
(`forward_transparent`). A tunnel carries the client's bytes after its head or handshake, and the
upstream's after its response head, both exactly (`tunnel_transparent`).

Both are about the calls of `relay` in a run of `handle_client`: `admitted_of_relays` finds the request a
call serves, and `sent_committed` says that a call that commits is all the client hears.
-/

namespace ProxyBroker.Server
open Lib

/-! ## The call that the client hears -/

namespace Handler
variable {ctx : ConnCtx} {req : ClientRequest} {stream unread preface : Bytes} {budget : Option Nat} {s t : State} {i : Input}
  {is : List Input}

/-- The connection is refused, answered by the control API, or over before its first call of `relay`. -/
def Aside (s : State) : Prop :=
  s.attempts = [] ∧
  match s.phase with
  | .denying _ | .removing _ | .lookingUp _ | .answering _ | .finished => True
  | _ => False

theorem aside_step (aside : Aside s) (h : step ctx s i = some t) : Aside t := by
  obtain ⟨silent, at_s⟩ := aside
  cases step_move h with
  | deny | denied | denyCut | remove | lookUp | answer | answered | answerCut => exact ⟨silent, trivial⟩
  | refused | refuseCut => exact ⟨silent, trivial⟩
  | dropped phase | parsed phase | resolve phase | starve phase | lease phase | rotate phase | relay phase | record phase
  | push phase | evict phase | notify phase | refuse phase =>
    rw [phase] at at_s
    exact at_s.elim

theorem relays_aside (aside : Aside s) : relays ctx s = [] := by
  obtain ⟨silent, at_s⟩ := aside
  unfold relays
  split
  · rename_i phase
    rw [phase] at at_s
    exact at_s.elim
  · exact silent

theorem dispatch_cases (s : State) (req : ClientRequest) (silent : s.attempts = []) :
    dispatch ctx req = .resolving req ∨ Aside { s with phase := dispatch ctx req } := by
  unfold dispatch
  by_cases passes : authPasses ctx.expectedAuth req = true
  · by_cases api : req.host = "proxycontrol".toList
    · rw [if_pos passes, if_pos api]
      right
      cases control ctx.peerIp req.path with
      | remove addr => exact ⟨silent, trivial⟩
      | history key => exact ⟨silent, trivial⟩
      | nothing => exact ⟨silent, trivial⟩
    · rw [if_pos passes, if_neg api]
      exact Or.inl rfl
  · rw [if_neg passes]
    exact Or.inr ⟨silent, trivial⟩

/-- A call of `relay` serves the request that was parsed, and has it and its rest of the stream from the
parser. -/
theorem admitted_of_relays (h : run (step ctx) (accept stream budget) is = some s) {a : Attempt} (mem : a ∈ relays ctx s) :
    ∃ req after js, parseClientRequest ctx.expectedAuth ⟨stream, [], budget⟩ = (some req, after) ∧
      run (step ctx) (admitted req after.input after.output) js = some s := by
  cases is with
  | nil =>
    cases h
    cases mem
  | cons i is =>
    obtain ⟨t, first, rest⟩ := run_cons_iff.1 h
    have aside_of (aside : Aside t) : False := by
      have aside' : Aside s := run_preserves (fun _ _ _ inv next => aside_step inv next) aside rest
      rw [relays_aside aside'] at mem
      cases mem
    cases i
    case parse =>
      simp only [step, accept] at first
      split at first
      · cases first
        exact (aside_of ⟨rfl, trivial⟩).elim
      · rename_i req after parsed
        cases first
        rcases dispatch_cases { accept stream budget with unread := after.input, preface := after.output } req rfl with
          admits | aside
        · refine ⟨req, after, is, parsed, ?_⟩
          rw [admits] at rest
          exact rest
        · exact (aside_of aside).elim
    all_goals simp [step, accept] at first

/-- What a call that commits has written is all that the client was sent after the parse. -/
theorem sent_committed (h : run (step ctx) (admitted req unread preface) is = some s) {a : Attempt} (mem : a ∈ relays ctx s)
    (committed : a.relay.committed = true) : sent ctx s = preface ++ a.relay.clientWritten := by
  obtain ⟨nothing, earlier, split, retried⟩ := committed_last h mem committed
  have silent : Silent earlier := by
    intro b old
    obtain ⟨e, ended⟩ := retried b old
    have down := (relays_serve (commits_run h) b (by simp [split, old])).down
    rw [Relay.Down, ended] at down
    exact down
  rw [sent, preface_run h, nothing, split, List.flatMap_append, flatMap_silent silent]
  simp

end Handler

/-! ## Forward responses -/

theorem statusLineUpTo_spec (n : Nat) (response : Bytes) :
    (∃ rest, response = statusLineUpTo n response ++ rest) ∧ (statusLineUpTo n response).length ≤ n ∧
      10 ∉ (statusLineUpTo n response).dropLast := by
  induction response generalizing n with
  | nil => cases n <;> simp [statusLineUpTo]
  | cons b response ih =>
    cases n with
    | zero => simp [statusLineUpTo]
    | succ n =>
      by_cases feed : b = 10
      · simp [statusLineUpTo, feed]
      · obtain ⟨⟨rest, split⟩, short, clean⟩ := ih n
        simp only [statusLineUpTo, feed, if_false, List.cons_append, List.cons.injEq, true_and, List.length_cons]
        refine ⟨⟨rest, split⟩, by omega, ?_⟩
        cases line : statusLineUpTo n response with
        | nil => simp
        | cons c more =>
          rw [line] at clean
          rw [List.dropLast_cons_cons, List.mem_cons, not_or]
          exact ⟨fun eq => feed eq.symm, clean⟩

namespace Relay
variable {job : Job UInt8}

/-- The first `\r\n` of the response ends within its first 256 bytes, and no line feed stands before it. -/
def ProperLine (response line rest : Bytes) : Prop :=
  response = line ++ [13, 10] ++ rest ∧ 10 ∉ line ∧ line.length + 2 ≤ 256

/-- What the client is to receive of a response: the response itself, or with the one line inserted. -/
structure Delivers (job : Job UInt8) (response out : Bytes) : Prop where
  inserted : requestHasBody job.raw = false → ∀ line rest, ProperLine response line rest →
    out = line ++ [13, 10] ++ infoLine job.proxy ++ rest
  unchanged : requestHasBody job.raw = true ∨ (∀ line rest, ¬ ProperLine response line rest) → out = response

theorem output_inserts {line rest : Bytes} (forward : job.frontend = .httpForward) (noBody : requestHasBody job.raw = false)
    (noFeed : 10 ∉ line) (short : line.length + 2 ≤ 256) :
    output id job (line ++ [13, 10] ++ rest) = line ++ [13, 10] ++ infoLine job.proxy ++ rest := by
  have status : statusLine (line ++ [13, 10] ++ rest) = line ++ [13, 10] := by
    have clean : 10 ∉ line ++ [13] := by simpa using noFeed
    have fits : (line ++ [13]).length < 256 := by
      rw [List.length_append, List.length_singleton]
      omega
    have stop := statusLineUpTo_stop clean fits (Or.inl rfl) rest
    rw [List.append_assoc line [13] [10]] at stop
    exact stop
  have plain : ¬ [13, 10] <:+: line.map id := by
    rw [List.map_id]
    intro found
    exact noFeed (found.subset (by simp))
  have scan : crlfLines id (line ++ [13, 10]) = ([line ++ [13, 10]], []) := by
    simpa [crlfLines] using crlfLines_line plain rfl rfl []
  have injected : injectHeader id (line ++ [13, 10]) (infoLine job.proxy) = line ++ [13, 10] ++ infoLine job.proxy := by
    rw [injectHeader, scan]
    simp
  rw [output, forward]
  simp only [List.map_id, noBody, Bool.false_eq_true, if_false, status, injected, List.drop_left]

theorem output_unchanged {response : Bytes} (forward : job.frontend = .httpForward)
    (plain : requestHasBody job.raw = true ∨ ∀ line rest, ¬ ProperLine response line rest) : output id job response = response := by
  rw [output, forward]
  cases body : requestHasBody job.raw with
  | true => simp [body]
  | false =>
    have improper := plain.resolve_left (by simp [body])
    obtain ⟨⟨rest, split⟩, short, clean⟩ := statusLineUpTo_spec 256 response
    have none : (crlfLines id (statusLineUpTo 256 response)).1 = [] := by
      rw [crlfLines_eq_nil_iff, List.map_id]
      rintro ⟨before, after, found⟩
      -- a line feed is the last byte of the status line, so nothing follows the `\r\n`
      obtain rfl : after = [] := by
        by_contra more
        refine clean ?_
        rw [← found, List.dropLast_append_of_ne_nil more]
        simp
      refine improper before rest ⟨?_, ?_, ?_⟩
      · rw [← found, List.append_nil] at split
        exact split
      · intro mem
        refine clean ?_
        rw [← found, List.append_nil, List.dropLast_append_of_ne_nil (by simp)]
        exact List.mem_append_left _ mem
      · rw [← found] at short
        simpa using short
    have dropped : response.drop (statusLineUpTo 256 response).length = rest :=
      (congrArg (List.drop (statusLineUpTo 256 response).length) split).trans List.drop_left
    simp only [List.map_id, body, Bool.false_eq_true, if_false, statusLine, injectHeader, none]
    rw [dropped]
    exact split.symm

theorem delivers_output (forward : job.frontend = .httpForward) (response : Bytes) :
    Delivers job response (output id job response) where
  inserted noBody line rest proper := by
    obtain ⟨rfl, noFeed, short⟩ := proper
    exact output_inserts forward noBody noFeed short
  unchanged := output_unchanged forward

end Relay

namespace Handler
variable {ctx : ConnCtx} {stream : Bytes} {budget : Option Nat} {s : State} {is : List Input} {a : Attempt}

/-- **Forward responses.** In every run, whatever the upstream returns and however it is cut into reads: a
committed forward request has sent the client a part of the response, or of the response with the one line
inserted; the rest of what was read is in hand; and when the call ended well nothing is missing. -/
theorem forward_transparent (h : run (step ctx) (accept stream budget) is = some s) (mem : a ∈ relays ctx s)
    (forward : a.job.frontend = .httpForward) (committed : a.relay.committed = true) :
    ∃ out, Relay.Delivers a.job a.relay.upRead out ∧ sent ctx s <+: out ∧
      (∀ rest, a.relay.phase = .replying rest → sent ctx s ++ rest = out) ∧
      (∀ sp, a.relay.phase = .splicing sp → sent ctx s ++ sp.down = out) ∧
      (a.relay.phase = .done .ok → sent ctx s = out) := by
  obtain ⟨req, after, js, parsed, served⟩ := admitted_of_relays h mem
  have serves := relays_serve (commits_run served) a mem
  have unprefaced : after.output = [] := by
    rcases parseClientRequest_cases parsed with ⟨rest, -, socks, -⟩ | ⟨head, -, -, -, -, silent⟩
    · rw [← serves.frontend, forward] at socks
      cases socks
    · exact silent
  have heard : sent ctx s = a.relay.clientWritten := by
    rw [sent_committed served mem committed, unprefaced, List.nil_append]
  obtain ⟨sv, proxy, ks, -, -, ran⟩ := calls_run served a mem
  have drained := Relay.drained_run ran
  have down := serves.down
  rw [heard]
  refine ⟨_, Relay.delivers_output forward a.relay.upRead, down.written.1, ?_, ?_, ?_⟩
  · intro rest replying
    rw [Relay.Down, replying] at down
    exact down.1
  · intro sp splicing
    rw [Relay.Down, splicing] at down
    exact down.1
  · intro ended
    rw [Relay.Drained, ended] at drained
    exact drained.2

/-- A request for `http://h/` whose upstream answers `H 200` and `x`, and closes. -/
def answeredRun : List Input :=
  [.parse, .resolved none, .got (some (httpProxy 80)), .relay .connected, .relay (.upstream (.wrote 26)),
    .relay (.upstream .flushed)] ++
  (ascii "H 200\r\n").map (fun b => .relay (.upstream (.read [b]))) ++
  [.relay (.client (.wrote 100)), .relay (.client .flushed), .relay (.upstream (.read (ascii "x"))),
    .relay (.upstream .eof), .relay (.client (.wrote 1)), .relay (.client .shut), .relay (.client .eof), .relay (.upstream .shut)]

/-- Its client receives the response with the line inserted. -/
theorem forward_transparent_answered : ∃ s a, run (step onlyOk) (accept forwardGet.raw none) answeredRun = some s ∧
    relays onlyOk s = [a] ∧ a.relay.upRead = ascii "H 200\r\nx" ∧
    sent onlyOk s = ascii "H 200\r\nX-Proxy-Info: 1.1.1.1:80\r\nx" ∧ Relay.Delivers a.job a.relay.upRead (sent onlyOk s) := by
  have ran : ∃ s a, run (step onlyOk) (accept forwardGet.raw none) answeredRun = some s ∧ relays onlyOk s = [a] ∧
      a.job.frontend = .httpForward ∧ a.relay.phase = .done .ok ∧ a.relay.upRead = ascii "H 200\r\nx" ∧
      sent onlyOk s = ascii "H 200\r\nX-Proxy-Info: 1.1.1.1:80\r\nx" := ⟨_, _, rfl, rfl, rfl, rfl, rfl, rfl⟩
  obtain ⟨s, a, ran, only, forward, ended, returned, received⟩ := ran
  have mem : a ∈ relays onlyOk s := by simp [only]
  obtain ⟨out, delivers, -, -, -, all⟩ := forward_transparent ran mem forward (by rw [Relay.State.committed, ended])
  exact ⟨s, a, ran, only, returned, received, by rwa [all ended]⟩

end Handler

/-! ## Tunnels -/

namespace Relay
variable {job : Job UInt8} {unread : Bytes} {s t : State UInt8} {i : Input} {is : List Input}

/-- The bytes of an event that come from the upstream. -/
def Input.bytes : Input → Bytes
  | .upstream (.read bs) => bs
  | _ => []

/-- The bytes that came from the upstream. -/
def received (is : List Input) : Bytes := is.flatMap Input.bytes

theorem received_concat (is : List Input) (i : Input) : received (is ++ [i]) = received is ++ i.bytes := by
  simp [received]

/-- The protocol that a tunnel is negotiated with: a `CONNECT`, or SOCKS. -/
def Tunnels (job : Job UInt8) : Prop :=
  job.frontend ≠ .httpForward ∧ relayNegotiationProto job.proto job.frontend ∈ [Proto.connect80, .socks4, .socks5]

/-- Bytes in which no blank line has come to its end. -/
def Unfinished (head : Bytes) : Prop := ∀ p, p <+: head → ¬ crlfCrlf <:+ p

/-- What the negotiation takes of the upstream's bytes: nothing in a SOCKS tunnel, whose handshake the library
consumes; else a response with status 200, through its first blank line. -/
def ResponseHead (job : Job UInt8) (head : Bytes) : Prop :=
  if relayNegotiationProto job.proto job.frontend = .connect80 then
    crlfCrlf <:+ head ∧ (∀ p, p <+: head → p ≠ head → ¬ crlfCrlf <:+ p) ∧ getStatusCode head 9 12 = 200
  else head = []

/-- What the upstream has sent, by where a tunnel stands. -/
def Heard (job : Job UInt8) (is : List Input) (s : State UInt8) : Prop :=
  match s.phase with
  | .connecting => received is = [] ∧ s.upRead = []
  | .negotiating (.asking _) =>
    received is = [] ∧ s.upRead = [] ∧ relayNegotiationProto job.proto job.frontend = .connect80
  | .negotiating (.answering head) =>
    received is = head ∧ s.upRead = [] ∧ relayNegotiationProto job.proto job.frontend = .connect80 ∧ Unfinished head
  | .negotiating .socks => received is = [] ∧ s.upRead = [] ∧ relayNegotiationProto job.proto job.frontend ≠ .connect80
  | .replying _ | .splicing _ | .done .ok | .done (.clientCommitted _) | .done .clientGone =>
    ∃ head, received is = head ++ s.upRead ∧ ResponseHead job head
  | .done (.retryableFailure _) => True
  | _ => False

/-- The negotiation opened. -/
theorem heard_opened {head bs : Bytes} (tunnel : job.frontend ≠ .httpForward) (all : received is = head) (unread : s.upRead = [])
    (proper : ResponseHead job head) :
    Heard job is { s with phase := negotiationPhase id id job .opened, toProxy := bs } := by
  have taken : ∃ head, received is = head ++ s.upRead ∧ ResponseHead job head := ⟨head, by simp [all, unread], proper⟩
  unfold negotiationPhase ackOrSend Heard
  cases frontend : job.frontend with
  | httpForward => exact absurd frontend tunnel
  | httpConnect => exact taken
  | socks5 => exact taken

/-- One more byte of the response head. -/
theorem heard_byte {head bs : Bytes} {b : UInt8} (tunnel : job.frontend ≠ .httpForward) (all : received is = head ++ [b])
    (unread : s.upRead = []) (proto : relayNegotiationProto job.proto job.frontend = .connect80) (unfinished : Unfinished head) :
    Heard job is { s with
      phase := negotiationPhase id id job (Negotiation.readHead (relayNegotiationProto job.proto job.frontend) (head ++ [b]))
      toProxy := bs } := by
  have shorter {p : Bytes} (part : p <+: head ++ [b]) (other : p ≠ head ++ [b]) : ¬ crlfCrlf <:+ p :=
    unfinished p ((List.prefix_concat_iff.1 part).resolve_left other)
  unfold Negotiation.readHead
  split
  · rename_i ends
    split
    · trivial
    · rename_i status
      have opens : Negotiation.connected (relayNegotiationProto job.proto job.frontend) = .opened := by rw [proto]; rfl
      rw [opens]
      refine heard_opened tunnel all unread ?_
      rw [ResponseHead, if_pos proto]
      exact ⟨by simpa [crlfCrlf] using ends, fun p part other => shorter part other, not_not.1 status⟩
  · rename_i goes
    split
    · trivial
    · refine ⟨all, unread, proto, ?_⟩
      intro p part
      by_cases whole : p = head ++ [b]
      · rw [whole]
        simpa [crlfCrlf] using goes
      · exact shorter part whole

theorem heard_spliced (spliced : s.spliced = true) (taken : ∃ head, received is = head ++ s.upRead ∧ ResponseHead job head) :
    Heard job is s := by
  unfold State.spliced at spliced
  unfold Heard
  split at spliced
  · rename_i at_s; rw [at_s]; exact taken
  · rename_i at_s; rw [at_s]; exact taken
  · rename_i at_s; rw [at_s]; exact taken
  · cases spliced

/-- The splice keeps an account of what it reads from the upstream. -/
theorem spliceStep_upRead {sp : Splice UInt8} (h : spliceStep s sp i = some t) : t.upRead = s.upRead ++ i.bytes := by
  unfold spliceStep at h
  split at h
  all_goals try split at h
  all_goals cases h
  all_goals first
    | rfl
    | exact (List.append_nil _).symm

/-- The connection is there, and the negotiation starts. -/
theorem heard_dialled (tunnels : Tunnels job) (silent : received is = []) (unread : s.upRead = []) :
    Heard job (is ++ [.connected]) { s with
      phase := negotiationPhase id id job (Negotiation.start (relayNegotiationProto job.proto job.frontend) job.target job.proxy.auth) } := by
  obtain ⟨-, protos⟩ := tunnels
  have silent' : received (is ++ [.connected]) = [] := by rw [received_concat, silent]; rfl
  simp only [List.mem_cons, List.not_mem_nil, or_false] at protos
  rcases protos with proto | proto | proto
  · rw [proto]
    exact ⟨silent', unread, proto⟩
  · rw [proto]
    unfold Negotiation.start
    dsimp only
    split
    · exact ⟨silent', unread, by rw [proto]; decide⟩
    · trivial
  · rw [proto]
    exact ⟨silent', unread, by rw [proto]; decide⟩

/-- The upstream answers while a `CONNECT` is negotiated. -/
theorem heard_upstream {n : Negotiation} {a : Answer Bytes} (tunnel : job.frontend ≠ .httpForward) (at_s : s.phase = .negotiating n)
    (heard : Heard job is s) (h : negotiationStep id id job s n (.net a) = some t) : Heard job (is ++ [.upstream a]) t := by
  rw [Heard, at_s] at heard
  obtain ⟨n', next, rfl⟩ := Option.map_eq_some_iff.1 h
  cases n with
  | asking rest =>
    obtain ⟨silent, unread, proto⟩ := heard
    have still (a : Answer Bytes) (none : Input.bytes (.upstream a) = []) : received (is ++ [.upstream a]) = [] := by
      rw [received_concat, silent, none, List.nil_append]
    cases a with
    | wrote k =>
      cases next
      exact ⟨still _ rfl, unread, proto⟩
    | flushed =>
      cases rest with
      | nil =>
        cases next
        exact ⟨still _ rfl, unread, proto, by simp [Unfinished, crlfCrlf]⟩
      | cons b rest => cases next
    | writeFailed => cases rest <;> cases next <;> trivial
    | timeout => cases rest <;> cases next <;> trivial
    | _ => cases rest <;> cases next
  | answering head =>
    obtain ⟨all, unread, proto, unfinished⟩ := heard
    cases a with
    | read bs =>
      cases bs with
      | nil => cases next
      | cons b more =>
        cases more with
        | nil =>
          cases next
          exact heard_byte tunnel (by rw [received_concat, all]; rfl) unread proto unfinished
        | cons c more => cases next
    | eof => cases next; trivial
    | readFailed => cases next; trivial
    | timeout => cases next; trivial
    | _ => cases next
  | socks => cases a <;> cases next
  | _ => exact heard.elim

/-- The SOCKS handshake of the library ends. -/
theorem heard_handshake {n : Negotiation} {hs : Handshake} (tunnel : job.frontend ≠ .httpForward) (at_s : s.phase = .negotiating n)
    (heard : Heard job is s) (h : negotiationStep id id job s n (.handshake hs) = some t) : Heard job (is ++ [.handshake hs]) t := by
  rw [Heard, at_s] at heard
  obtain ⟨n', next, rfl⟩ := Option.map_eq_some_iff.1 h
  cases n with
  | asking rest => cases rest <;> cases next
  | answering head => cases next
  | socks =>
    obtain ⟨silent, unread, proto⟩ := heard
    cases hs with
    | completed =>
      cases next
      have silent' : received (is ++ [.handshake .completed]) = [] := by
        rw [received_concat, silent]
        rfl
      refine heard_opened tunnel silent' unread ?_
      rw [ResponseHead, if_neg proto]
    | failed => cases next; trivial
    | ioTimedOut => cases next; trivial
    | timeout => cases next; trivial
  | _ => exact heard.elim

theorem heard_step (tunnels : Tunnels job) (heard : Heard job is s) (h : step id id job s i = some t) :
    Heard job (is ++ [i]) t := by
  unfold step at h
  split at h
  case h_1 at_s => cases h; trivial
  case h_2 at_s => cases h; trivial
  case h_3 at_s =>
    rw [Heard, at_s] at heard
    cases h
    exact heard_dialled tunnels heard.1 heard.2
  case h_4 n a at_s => exact heard_upstream tunnels.1 at_s heard h
  case h_5 n hs at_s => exact heard_handshake tunnels.1 at_s heard h
  case h_13 rest n at_s =>
    rw [Heard, at_s] at heard
    obtain ⟨head, all, proper⟩ := heard
    cases h
    exact ⟨head, by rw [received_concat, all]; simp [Input.bytes], proper⟩
  case h_14 at_s =>
    rw [Heard, at_s] at heard
    obtain ⟨head, all, proper⟩ := heard
    cases h
    exact ⟨head, by rw [received_concat, all]; simp [Input.bytes], proper⟩
  case h_15 rest at_s =>
    rw [Heard, at_s] at heard
    obtain ⟨head, all, proper⟩ := heard
    cases h
    exact ⟨head, by rw [received_concat, all]; simp [Input.bytes], proper⟩
  case h_16 sp at_s =>
    rw [Heard, at_s] at heard
    obtain ⟨head, all, proper⟩ := heard
    refine heard_spliced (spliceStep_spliced h) ⟨head, ?_, proper⟩
    rw [received_concat, all, spliceStep_upRead h, List.append_assoc]
  case h_17 => cases h
  all_goals
    rename_i at_s
    rw [Heard, at_s] at heard
    exact heard.elim

/-- **From the upstream, over every run** of a tunnel: a response head, and then what the splice reads. -/
theorem heard_run (tunnels : Tunnels job) (h : run (step id id job) (start unread) is = some s) : Heard job is s := by
  have begins : Heard job [] (start unread) := ⟨rfl, rfl⟩
  exact run_history (P := Heard job) (fun _ _ _ _ heard next => heard_step tunnels heard next) begins h

theorem taken_of_spliced (spliced : s.spliced = true) (heard : Heard job is s) :
    ∃ head, received is = head ++ s.upRead ∧ ResponseHead job head := by
  unfold State.spliced at spliced
  split at spliced
  · rename_i at_s; rw [Heard, at_s] at heard; exact heard
  · rename_i at_s; rw [Heard, at_s] at heard; exact heard
  · rename_i at_s; rw [Heard, at_s] at heard; exact heard
  · cases spliced

end Relay

/-- What a tunnel's client sends before its payload: a head through its first blank line, or a handshake. -/
inductive ClientHead (expected : Option AuthExpect) : Bytes → Prop
  | http {head : Bytes} (other : head.head? ≠ some 0x05) (ends : crlfCrlf <:+ head)
    (first : ∀ p, p <+: head → p ≠ head → ¬ crlfCrlf <:+ p) (short : head.length ≤ 65536) : ClientHead expected head
  | socks5 {opening message : Bytes} {host : Text} {port : UInt16} (accepted : Opening expected opening)
    (names : ConnectMessage message host port) : ClientHead expected (opening ++ message)

/-- What the server says before it relays: its part of a SOCKS5 opening. -/
def greeting (expected : Option AuthExpect) : Frontend → Bytes
  | .socks5 => openingReply expected
  | _ => []

/-- **The request readers stop at the right byte**: what the parser leaves is what follows the head. -/
theorem parse_leaves {expected : Option AuthExpect} {head payload : Bytes} {budget : Option Nat} {req : ClientRequest}
    {after : Socket} (ends : ClientHead expected head)
    (parsed : parseClientRequest expected ⟨head ++ payload, [], budget⟩ = (some req, after)) :
    after.input = payload ∧ after.output = greeting expected req.frontend := by
  rcases parseClientRequest_cases parsed with ⟨rest, input, frontend, socks⟩ | ⟨head', input, http, buffered, ok, silent⟩
  · obtain ⟨out, wrote, -, accepted⟩ := socks5_emits expected ⟨rest, [], budget⟩
    rw [socks] at wrote accepted
    refine ⟨?_, by rw [frontend, greeting]; exact wrote.trans (accepted rfl)⟩
    obtain ⟨opening', message', accepted', names', split, -⟩ := socks5_consumes socks
    cases ends with
    | http other ends first short =>
      exact absurd input (buffered_not_version ⟨by omega, Or.inl ends, first⟩ other)
    | socks5 accepted names => exact (socks5_unique accepted names accepted' names' (input.trans split)).2.symm
  · have notSocks : req.frontend ≠ .socks5 := (parseHead_spec ok).2.1
    refine ⟨?_, ?_⟩
    · cases ends with
      | http other ends first short =>
        obtain rfl := buffered_unique ⟨by omega, Or.inl ends, first⟩ buffered input
        exact (List.append_cancel_left input).symm
      | socks5 accepted names =>
        obtain ⟨more, rfl⟩ := opening_version accepted
        exact absurd input.symm (buffered_not_version buffered http)
    · rw [silent]
      cases front : req.frontend with
      | socks5 => exact absurd front notSocks
      | _ => rfl

theorem parse_scheme {expected : Option AuthExpect} {stream : Bytes} {budget : Option Nat} {req : ClientRequest}
    {after : Socket} (parsed : parseClientRequest expected ⟨stream, [], budget⟩ = (some req, after))
    (tunnel : req.frontend ≠ .httpForward) : req.scheme = .https := by
  rcases parseClientRequest_cases parsed with ⟨rest, -, -, socks⟩ | ⟨head, -, -, -, ok, -⟩
  · obtain ⟨-, -, -, -, -, whole⟩ := socks5_consumes socks
    rw [whole]
    rfl
  · unfold parseHead at ok
    split at ok
    · cases ok
    · split at ok
      · dsimp only at ok
        split at ok
        · cases ok
          rfl
        · split at ok
          · cases ok
          · cases ok
            exact absurd rfl tunnel
      · cases ok

/-- A tunnel is never negotiated as plain HTTP. -/
theorem tunnels_of_https {job : Relay.Job UInt8} {proxy : Proxy} (tunnel : job.frontend ≠ .httpForward)
    (proto : job.proto = chooseProto proxy .https) : Relay.Tunnels job := by
  refine ⟨tunnel, ?_⟩
  have chosen := chooseProto_https proxy
  rw [← proto] at chosen
  have front : job.frontend = .httpConnect ∨ job.frontend = .socks5 := by
    cases frontend : job.frontend with
    | httpForward => exact absurd frontend tunnel
    | httpConnect => exact Or.inl rfl
    | socks5 => exact Or.inr rfl
  simp only [List.mem_cons, List.not_mem_nil, or_false] at chosen
  rcases chosen with proto | proto | proto | proto
  · rw [relayNegotiationProto, if_pos ⟨proto, front⟩]
    decide
  all_goals
    rw [relayNegotiationProto, if_neg (by rw [proto]; simp), proto]
    decide

namespace Handler
variable {ctx : ConnCtx} {head payload : Bytes} {budget : Option Nat} {s : State} {is : List Input} {a : Attempt}

/-- **Tunnels.** In every run of a client that sends `payload` after its head or handshake, whatever the
upstream sends and however both streams are cut: once a tunnel is acknowledged, the upstream is sent the
client's payload and the client what the upstream sent after its response head, in order; what either side
still lacks is in hand or unread; and when the call ended well neither lacks anything. -/
theorem tunnel_transparent (ends : ClientHead ctx.expectedAuth head)
    (h : run (step ctx) (accept (head ++ payload) budget) is = some s) (mem : a ∈ relays ctx s)
    (tunnel : a.job.frontend ≠ .httpForward) (acked : a.relay.spliced = true) :
    ∃ js responseHead toClient, run (Relay.step id id a.job) (Relay.start payload) js = some a.relay ∧
      Relay.received js = responseHead ++ a.relay.upRead ∧ Relay.ResponseHead a.job responseHead ∧
      sent ctx s = greeting ctx.expectedAuth a.job.frontend ++ Relay.output id a.job [] ++ toClient ∧
      a.relay.upWritten <+: payload ∧ toClient <+: a.relay.upRead ∧
      (∀ sp, a.relay.phase = .splicing sp →
        a.relay.upWritten ++ sp.up ++ a.relay.unread = payload ∧ toClient ++ sp.down = a.relay.upRead) ∧
      (a.relay.phase = .done .ok → a.relay.upWritten = payload ∧ toClient = a.relay.upRead) := by
  obtain ⟨req, after, ks, parsed, served⟩ := admitted_of_relays h mem
  obtain ⟨leaves, greeted⟩ := parse_leaves ends parsed
  have serves := relays_serve (commits_run served) a mem
  obtain ⟨sv, proxy, js, looping, job, ran⟩ := calls_run served a mem
  rw [leaves] at ran
  have scheme : req.scheme = .https := parse_scheme parsed (serves.frontend ▸ tunnel)
  have proto : a.job.proto = chooseProto proxy .https := by
    rw [job, ← scheme, ← looping.1]
    rfl
  obtain ⟨responseHead, all, proper⟩ :=
    Relay.taken_of_spliced acked (Relay.heard_run (tunnels_of_https tunnel proto) ran)
  -- the client's bytes: the greeting, the acknowledgement and then `toClient`
  obtain ⟨toClient, acknowledged⟩ := (Relay.tunnel_run tunnel ran).2 acked
  have heard : sent ctx s = greeting ctx.expectedAuth a.job.frontend ++ Relay.output id a.job [] ++ toClient := by
    rw [sent_committed served mem (Relay.committed_of_spliced acked), ← acknowledged, greeted, serves.frontend, List.append_assoc]
  have up := Relay.up_run ran
  have down := serves.down
  have drained := Relay.drained_run ran
  have nothing : Relay.request id id a.job = [] := Relay.request_tunnel tunnel
  refine ⟨js, responseHead, toClient, ran, all, proper, heard, ?_, ?_, ?_, ?_⟩
  · have written := up.written
    rwa [nothing, List.nil_append] at written
  · have written := down.written.1
    rwa [← acknowledged, Relay.output_tunnel tunnel a.relay.upRead, List.prefix_append_right_inj] at written
  · intro sp splicing
    rw [Relay.Up, splicing] at up
    rw [Relay.Down, splicing] at down
    dsimp only at up down
    refine ⟨by rw [up, nothing, List.nil_append], ?_⟩
    have all := down.1
    rw [← acknowledged, Relay.output_tunnel tunnel a.relay.upRead, List.append_assoc] at all
    exact List.append_cancel_left all
  · intro ended
    rw [Relay.Drained, ended] at drained
    obtain ⟨upAll, downAll⟩ := drained
    refine ⟨by rw [upAll, nothing, List.nil_append], ?_⟩
    rw [← acknowledged, Relay.output_tunnel tunnel a.relay.upRead] at downAll
    exact List.append_cancel_left downAll

/-- A client that sends `hi` in one segment with its `CONNECT`, through a proxy that answers `HTTP/1.1 200` and
a payload of its own. -/
def tunnelledRun : List Input :=
  [.parse, .resolved none, .got (some ((Proxy.new (.v4 0x01010101) 80 []).addType .connect80 none)), .relay .connected,
    .relay (.upstream (.wrote 200)), .relay (.upstream .flushed)] ++
  (ascii "HTTP/1.1 200\r\n\r\n").map (fun b => .relay (.upstream (.read [b]))) ++
  [.relay (.client (.wrote 200)), .relay (.client .flushed), .relay (.client (.read 2)), .relay (.upstream (.read (ascii "yo"))),
    .relay (.upstream .eof), .relay (.upstream (.wrote 2)), .relay (.client (.wrote 2)), .relay (.client .shut),
    .relay (.client .eof), .relay (.upstream .shut)]

/-- It ends with both payloads delivered. -/
theorem tunnel_transparent_connect : ∃ s a,
    run (step onlyOk) (accept (ascii "CONNECT h:443 HTTP/1.1\r\n\r\n" ++ ascii "hi") none) tunnelledRun = some s ∧
    relays onlyOk s = [a] ∧ a.relay.upWritten = ascii "hi" ∧ a.relay.upRead = ascii "yo" ∧
    sent onlyOk s = Relay.output id a.job [] ++ ascii "yo" := by
  have ran : ∃ s a, run (step onlyOk) (accept (ascii "CONNECT h:443 HTTP/1.1\r\n\r\n" ++ ascii "hi") none) tunnelledRun = some s ∧
      relays onlyOk s = [a] ∧ a.job.frontend = .httpConnect ∧ a.relay.phase = .done .ok ∧ a.relay.upRead = ascii "yo" :=
    ⟨_, _, rfl, rfl, rfl, rfl, rfl⟩
  obtain ⟨s, a, ran, only, front, ended, returned⟩ := ran
  have head : ClientHead none (ascii "CONNECT h:443 HTTP/1.1\r\n\r\n") := by
    refine .http (by decide) (by decide) ?_ (by decide)
    have early : ∀ n < 26, ¬ crlfCrlf <:+ (ascii "CONNECT h:443 HTTP/1.1\r\n\r\n").take n := by decide
    intro p part other
    rw [List.prefix_iff_eq_take.1 part]
    refine early _ (lt_of_le_of_ne part.length_le ?_)
    intro whole
    exact other (part.eq_of_length whole)
  have mem : a ∈ relays onlyOk s := by simp [only]
  obtain ⟨js, responseHead, toClient, -, -, -, heard, -, -, -, all⟩ :=
    tunnel_transparent head ran mem (by rw [front]; simp) (by rw [Relay.State.spliced, ended])
  obtain ⟨up, down⟩ := all ended
  have silent : greeting onlyOk.expectedAuth .httpConnect = [] := rfl
  rw [front, silent, List.nil_append, down, returned] at heard
  exact ⟨s, a, ran, only, up, returned, heard⟩

end Handler

end ProxyBroker.Server
