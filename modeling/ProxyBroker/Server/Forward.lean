import ProxyBroker.Server.Trace

/-!
# The upstream's credentials

`relay` strips the client's `Proxy-Authorization` from the buffered head of a forward request and then
adds the upstream's own, whenever the proxy has credentials. It does not ask where the stream leads:
after a `CONNECT` or a SOCKS handshake the request, and with it the credentials, goes to the origin.
`tunnel_credentials_iff` says exactly when that does not happen. The first part builds the runs of
`relay` that get a request through.
-/

namespace ProxyBroker.Server
open Lib

/-- Bytes of the client. -/
def fromClient (bs : Bytes) : List Traced := bs.map fun b => ⟨b, .client⟩

/-- The arguments with which `handle_client` calls `relay`, for a traced head. -/
def tracedJob (proxy : Proxy) (req : ClientRequest) (raw : List Traced) (ip : Option IpAddr) (allowed : Option (List UInt16)) :
    Relay.Job Traced where
  proxy := proxy
  proto := chooseProto proxy req.scheme
  target := ⟨req.host, ip, req.port⟩
  frontend := req.frontend
  raw := raw
  allowedCodes := allowed

/-! ## Runs that get somewhere -/

namespace Relay
variable {α : Type} {val : α → UInt8} {own : UInt8 → α} {job : Job α} {s : State α}

theorem negotiation_final {proto : Proto} {n : Negotiation} {i : Negotiation.Input} {is : List Negotiation.Input}
    (final : n = .opened ∨ ∃ e, n = .failed e) : run (Negotiation.step proto) n (i :: is) = none := by
  rcases final with rfl | ⟨e, rfl⟩ <;> simp [run, Negotiation.step]

/-- A negotiation that can still open the stream is going on. -/
theorem negotiationPhase_going {proto : Proto} {n : Negotiation} {ns : List Negotiation.Input} (busy : n ≠ .opened)
    (h : run (Negotiation.step proto) n ns = some .opened) : negotiationPhase val own job n = .negotiating n := by
  cases n with
  | opened => exact absurd rfl busy
  | failed e =>
    cases ns with
    | nil => cases h
    | cons i ns => rw [negotiation_final (Or.inr ⟨e, rfl⟩)] at h; cases h
  | _ => rfl

/-- A negotiation that opens the stream takes `relay` with it. -/
theorem negotiating_opens {n : Negotiation} {ns : List Negotiation.Input} (at_n : s.phase = .negotiating n) (busy : n ≠ .opened)
    (h : run (Negotiation.step (relayNegotiationProto job.proto job.frontend)) n ns = some .opened) :
    ∃ is bs, run (step val own job) s is = some { s with phase := ackOrSend val own job, toProxy := bs } := by
  induction ns generalizing n s with
  | nil => cases h; exact absurd rfl busy
  | cons i ns ih =>
    obtain ⟨n', first, rest⟩ := run_cons_iff.1 h
    -- the same event as an input of `relay`
    obtain ⟨bs, taken⟩ : ∃ bs, negotiationStep val own job s n i =
        some { s with phase := negotiationPhase val own job n', toProxy := bs } := by
      unfold negotiationStep
      rw [first]
      exact ⟨_, rfl⟩
    obtain ⟨j, event⟩ : ∃ j, step val own job s j = negotiationStep val own job s n i := by
      cases i with
      | net a => exact ⟨.upstream a, by simp only [step, at_n]⟩
      | handshake a => exact ⟨.handshake a, by simp only [step, at_n]⟩
    rw [taken] at event
    by_cases opened : n' = .opened
    · subst opened
      exact ⟨[j], bs, by rw [run, event]; rfl⟩
    · rw [negotiationPhase_going opened rest] at event
      obtain ⟨is, bs', later⟩ := ih (s := { s with phase := .negotiating n', toProxy := bs }) rfl opened rest
      exact ⟨j :: is, bs', by rw [run, event]; exact later⟩

/-- A `200` to the `CONNECT`, byte by byte. -/
def okReply : List Negotiation.Input := (ascii "HTTP/1.1 200 OK\r\n\r\n").map fun b => .net (.read [b])

/-- Every tunnel protocol that `choose_proto` returns can be opened towards an IPv4 target. -/
theorem negotiation_can_open {proto : Proto} (chosen : proto ∈ [.https, .socks5, .socks4, .connect80]) (host : Text)
    (ip : BitVec 32) (port : UInt16) (creds : Option Credentials) :
    Negotiation.start proto ⟨host, some (.v4 ip), port⟩ creds ≠ .opened ∧
    ∃ ns, run (Negotiation.step proto) (Negotiation.start proto ⟨host, some (.v4 ip), port⟩ creds) ns = some .opened := by
  -- hand over the whole `CONNECT`, then read the reply
  have ask (p : Proto) (req : Bytes) (more : List Negotiation.Input)
      (reads : run (Negotiation.step p) (.answering []) more = some .opened) :
      run (Negotiation.step p) (.asking req) (.net (.wrote req.length) :: .net .flushed :: more) = some .opened := by
    simpa [run, Negotiation.step] using reads
  simp only [List.mem_cons, List.not_mem_nil, or_false] at chosen
  rcases chosen with rfl | rfl | rfl | rfl
  · exact ⟨by simp [Negotiation.start], _, ask .https _ (okReply ++ [.handshake .completed]) (by decide)⟩
  · exact ⟨by simp [Negotiation.start], [.handshake .completed], rfl⟩
  · exact ⟨by simp [Negotiation.start], [.handshake .completed], rfl⟩
  · exact ⟨by simp [Negotiation.start], _, ask .connect80 _ okReply (by decide)⟩

/-- A proxy with which the negotiation can open the stream gets the whole forward request. -/
theorem forward_sent {ns : List Negotiation.Input} (forward : job.frontend = .httpForward)
    (opens : run (Negotiation.step (relayNegotiationProto job.proto job.frontend))
      (Negotiation.start (relayNegotiationProto job.proto job.frontend) job.target job.proxy.auth) ns = some .opened)
    (unread : List α) :
    ∃ is bs, run (step val own job) (start unread) is = some ⟨.sending [], unread, bs, toSend val own job, [], []⟩ := by
  have ready : ackOrSend val own job = .sending (toSend val own job) := by simp only [ackOrSend, forward]
  obtain ⟨is, bs, opened⟩ : ∃ is bs, run (step val own job) (start unread) is =
      some ⟨.sending (toSend val own job), unread, bs, [], [], []⟩ := by
    have dialled : step val own job (start unread) .connected = some ⟨negotiationPhase val own job
        (Negotiation.start (relayNegotiationProto job.proto job.frontend) job.target job.proxy.auth), unread, [], [], [], []⟩ := rfl
    by_cases busy : Negotiation.start (relayNegotiationProto job.proto job.frontend) job.target job.proxy.auth = .opened
    · refine ⟨[.connected], [], ?_⟩
      rw [run, dialled, busy, ← ready]
      rfl
    · rw [negotiationPhase_going busy opens] at dialled
      obtain ⟨is, bs, later⟩ := negotiating_opens (s := ⟨_, unread, [], [], [], []⟩) rfl busy opens
      refine ⟨.connected :: is, bs, ?_⟩
      rw [run, dialled, ← ready]
      exact later
  refine ⟨is ++ [.upstream (.wrote (toSend val own job).length)], bs, ?_⟩
  rw [run_append opened]
  simp [run, step]

/-- From there, when no status is refused, `relay` reaches the splice. -/
theorem sent_splices {unread upWritten : List α} {bs : Bytes} (open_ : job.allowedCodes = none) :
    ∃ is upRead clientWritten, run (step val own job) ⟨.sending [], unread, bs, upWritten, [], []⟩ is =
      some ⟨.splicing emptySplice, unread, bs, upWritten, upRead, clientWritten⟩ := by
  cases body : requestHasBody (job.raw.map val) with
  | true => exact ⟨[.upstream .flushed], [], [], by simp [run, step, body]⟩
  | false =>
    -- an empty status line, replayed to the client
    have line : lineComplete [10] = true := by decide
    refine ⟨[.upstream .flushed, .upstream (.read [10]),
      .client (.wrote (injectHeader id [10] (infoLine job.proxy)).length), .client .flushed],
      [10], injectHeader id [10] (infoLine job.proxy), ?_⟩
    simp [run, step, body, line, gate, open_]

/-- The splice can hand over everything the client has sent. -/
theorem splice_everything {unread upWritten : List α} {bs upRead clientWritten : Bytes} :
    ∃ is, run (step val own job) ⟨.splicing emptySplice, unread, bs, upWritten, upRead, clientWritten⟩ is =
      some ⟨.splicing emptySplice, [], bs, upWritten ++ unread, upRead, clientWritten⟩ := by
  cases unread with
  | nil => exact ⟨[], by simp⟩
  | cons a unread =>
    refine ⟨[.client (.read (unread.length + 1)), .upstream (.wrote (unread.length + 1))], ?_⟩
    simp [run, step, spliceStep, emptySplice]

end Relay

/-! ## The upstream's credentials -/

theorem chooseProto_https (proxy : Proxy) : chooseProto proxy .https ∈ [.https, .socks5, .socks4, .connect80] := by
  cases found : [Proto.https, .socks5, .socks4, .connect80].find? fun c => proxy.typeKeys.contains c with
  | none => simp only [chooseProto, found]; decide
  | some c =>
    have mem := List.mem_of_find?_eq_some found
    simpa only [chooseProto, found, Option.getD_some] using mem

theorem chooseProto_mem (proxy : Proxy) (scheme : Scheme) :
    chooseProto proxy scheme = .http ∨ chooseProto proxy scheme ∈ [.https, .socks5, .socks4, .connect80] := by
  cases scheme with
  | https => exact Or.inr (chooseProto_https proxy)
  | http =>
    cases found : [Proto.http, .connect80, .socks5, .socks4].find? fun c => proxy.typeKeys.contains c with
    | none => exact Or.inl (by simp only [chooseProto, found]; rfl)
    | some c =>
      have mem := List.mem_of_find?_eq_some found
      simp only [chooseProto, found, Option.getD_some]
      revert mem
      cases c <;> decide

section Strip
variable {α : Type} {val : α → UInt8} {own : UInt8 → α} {raw line : List α} {name : Text}

theorem stripHeader_plain (plain : (crlfLines val raw).1 = []) : stripHeader val raw name = raw := by
  have flat : (crlfLines val raw).1.flatten ++ _ = raw := crlfLines_flatten raw
  unfold stripHeader
  rcases eq : crlfLines val raw with ⟨_ | ⟨first, ls⟩, rest⟩
  · rw [eq] at flat; exact flat
  · rw [eq] at plain; cases plain

theorem injectHeader_plain (plain : (crlfLines val raw).1 = []) : injectHeader val raw line = raw := by
  unfold injectHeader
  rw [plain]

/-- Stripping keeps the first line, so there is a place to inject after it. -/
theorem injectHeader_stripHeader {first : List α} {ls : List (List α)} (lines : (crlfLines val raw).1 = first :: ls) :
    line <:+: injectHeader val (stripHeader val raw name) line := by
  obtain ⟨tail, strip⟩ : ∃ tail, stripHeader val raw name = first ++ tail := by
    unfold stripHeader
    rcases eq : crlfLines val raw with ⟨_ | ⟨first', ls'⟩, rest⟩
    · rw [eq] at lines; cases lines
    · rw [eq] at lines
      cases lines
      exact ⟨_, List.append_assoc _ _ _⟩
  unfold injectHeader
  rw [strip, crlfLines_first lines]
  exact ⟨first, _, rfl⟩

end Strip

theorem fromClient_byte (bs : Bytes) : (fromClient bs).map Traced.byte = bs := by
  simp [fromClient, Function.comp_def]

theorem fromClient_origin {bs : Bytes} {a : Traced} (mem : a ∈ fromClient bs) : a.origin = .client := by
  obtain ⟨b, -, rfl⟩ := List.mem_map.1 mem
  rfl

theorem authLine_ne_nil (c : Credentials) : authLine c ≠ [] := by
  intro empty
  have := congrArg List.length empty
  simp [authLine, ascii] at this

/-- A list without bytes of `relay` holds no line of `relay`. -/
theorem no_own_line {c : Credentials} {l : List Traced} (clean : ∀ a ∈ l, a.origin ≠ .relay) :
    ¬ (authLine c).map Traced.own <:+: l := by
  intro line
  obtain ⟨b, rest, eq⟩ := List.exists_cons_of_ne_nil (authLine_ne_nil c)
  have mem : Traced.own b ∈ l := line.subset (by simp [eq])
  exact clean _ mem rfl

section Tunnel
variable {proxy : Proxy} {req : ClientRequest} {ip : Option IpAddr} {allowed : Option (List UInt16)} {unread : Bytes}

/-- Without a `\r\n` in the head the injected line has no place. -/
theorem request_clean (plain : req.frontend ≠ .httpForward ∨ ¬ [13, 10] <:+: req.raw) :
    ∀ a ∈ Relay.request Traced.byte Traced.own (tracedJob proxy req (fromClient req.raw) ip allowed), a.origin ≠ .relay := by
  intro a mem
  by_cases forward : req.frontend = .httpForward
  · have bytes : (fromClient req.raw).map Traced.byte = req.raw := fromClient_byte _
    have noLine : (crlfLines Traced.byte (fromClient req.raw)).1 = [] := by
      rw [crlfLines_eq_nil_iff, bytes]
      exact plain.resolve_left (fun ne => ne forward)
    have raw : Relay.toSend Traced.byte Traced.own (tracedJob proxy req (fromClient req.raw) ip allowed) = fromClient req.raw := by
      simp only [Relay.toSend, tracedJob, stripHeader_plain noLine]
      cases proxy.auth with
      | none => rfl
      | some c => exact injectHeader_plain noLine
    have here : a ∈ fromClient req.raw := by
      rw [← raw]
      simpa only [Relay.request, tracedJob, forward] using mem
    rw [fromClient_origin here]
    decide
  · have none : Relay.request Traced.byte Traced.own (tracedJob proxy req (fromClient req.raw) ip allowed) = [] := by
      unfold Relay.request tracedJob
      cases fe : req.frontend <;> simp_all
    rw [none] at mem
    cases mem

/-- **The upstream's credentials, exactly.** In every run of `relay`, on a stream that leads to the
origin no credential line of `relay` is written, if and only if the proxy has no credentials, or the
request is not a forward request, or it is spoken to as a plain HTTP proxy, or the head holds no
`\r\n`. -/
theorem tunnel_credentials_iff (proxy : Proxy) (req : ClientRequest) (allowed : Option (List UInt16)) (unread : Bytes) :
    (∀ ip is s,
      run (Relay.step Traced.byte Traced.own (tracedJob proxy req (fromClient req.raw) ip allowed))
        (Relay.start (fromClient unread)) is = some s →
      Negotiation.opensTunnel (relayNegotiationProto (chooseProto proxy req.scheme) req.frontend) = true →
      ∀ c, proxy.auth = some c → ¬ (authLine c).map Traced.own <:+: s.upWritten) ↔
    proxy.auth = none ∨ req.frontend ≠ .httpForward ∨ chooseProto proxy req.scheme = .http ∨ ¬ [13, 10] <:+: req.raw := by
  constructor
  · intro confined
    by_contra other
    simp only [not_or, not_not] at other
    obtain ⟨creds, forward, tunnel, crlf⟩ := other
    obtain ⟨c, auth⟩ := Option.ne_none_iff_exists'.1 creds
    have proto : relayNegotiationProto (chooseProto proxy req.scheme) req.frontend = chooseProto proxy req.scheme := by
      simp [relayNegotiationProto, forward]
    -- a run that hands the whole request to the tunnel
    have chosen := (chooseProto_mem proxy req.scheme).resolve_left tunnel
    rw [← proto] at chosen
    obtain ⟨-, ns, opens⟩ := Relay.negotiation_can_open chosen req.host 0 req.port proxy.auth
    obtain ⟨is, bs, sent⟩ :
        ∃ is bs, run (Relay.step Traced.byte Traced.own (tracedJob proxy req (fromClient req.raw) (some (.v4 0)) allowed))
          (Relay.start (fromClient unread)) is = some ⟨.sending [], _, bs, _, [], []⟩ :=
      Relay.forward_sent forward opens (fromClient unread)
    apply confined _ is _ sent (by rw [proto]; simpa [Negotiation.opensTunnel] using tunnel) c auth
    have lines : (crlfLines Traced.byte (fromClient req.raw)).1 ≠ [] := by
      rw [Ne, crlfLines_eq_nil_iff, fromClient_byte, not_not]
      exact crlf
    obtain ⟨first, ls, eq⟩ := List.exists_cons_of_ne_nil lines
    simp only [Relay.toSend, tracedJob, auth]
    exact injectHeader_stripHeader eq
  · intro condition ip is s ran tunnel c auth
    have written := (Relay.up_run ran).written
    apply no_own_line
    intro a mem
    rcases List.mem_append.1 (written.subset mem) with sent | spliced
    · refine request_clean ?_ a sent
      rcases condition with noCreds | other | plain | noLine
      · rw [noCreds] at auth; cases auth
      · exact Or.inl other
      · have direct : relayNegotiationProto Proto.http req.frontend = .http := by simp [relayNegotiationProto]
        rw [plain, direct] at tunnel
        cases tunnel
      · exact Or.inr noLine
    · rw [fromClient_origin spliced]
      decide

end Tunnel

/-- A SOCKS5 proxy with credentials. -/
def credProxy : Proxy :=
  { (Proxy.new (.v4 0x01010101) 1080 []).addType .socks5 none with auth := some ⟨['u'], ['p']⟩ }

/-- A forward request through a SOCKS5 proxy: the proxy's password is written to the origin. -/
theorem tunnel_credentials_leak :
    Negotiation.opensTunnel (relayNegotiationProto (chooseProto credProxy forwardGet.scheme) forwardGet.frontend) = true ∧
    ∃ s, run (Relay.step Traced.byte Traced.own (tracedJob credProxy forwardGet (fromClient forwardGet.raw) none none))
        (Relay.start []) [.connected, .handshake .completed, .upstream (.wrote 60)] = some s ∧
      (authLine ⟨['u'], ['p']⟩).map Traced.own <:+: s.upWritten ∧
      s.upWritten.map Traced.byte = ascii "GET http://h/ HTTP/1.1\r\nProxy-Authorization: Basic dTpw\r\n\r\n" := by
  refine ⟨by decide, _, rfl, ?_, rfl⟩
  exact ⟨fromClient (ascii "GET http://h/ HTTP/1.1\r\n"), fromClient (ascii "\r\n"), rfl⟩

end ProxyBroker.Server
