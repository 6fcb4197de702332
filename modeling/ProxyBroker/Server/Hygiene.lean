import ProxyBroker.Server.Forward

/-!
# The client's credentials over a whole connection

A client may send several requests on one connection. `relay` buffers the first head, strips its
`Proxy-Authorization` lines, and splices everything after it. A line counts as the client's
`Proxy-Authorization` by the request it belongs to (`Message`), wherever the server's buffer ends and
however the line is terminated; `client_credentials_iff` says exactly which connections keep it from
the upstream.
-/

namespace ProxyBroker.Server
open Lib

/-- A request as the client writes it: lines that end in `\n` (the `\r` before it, if there is one, is
the line's last byte), the last of them blank, and a body. -/
structure Message where
  requestLine : Bytes
  fields : List Bytes
  blank : Bytes
  body : Bytes
  requestLine_line : 10 ∉ requestLine
  fields_line : ∀ f ∈ fields, 10 ∉ f ∧ f ≠ [] ∧ f ≠ [13]
  blank_line : blank = [] ∨ blank = [13]

/-- The name of a header line is `Proxy-Authorization`, in any case. -/
def isAuthField (f : Bytes) : Bool :=
  f.contains 58 && (f.takeWhile (· ≠ 58)).map lowerByte == ascii "proxy-authorization"

/-- A piece of what the client sends, and whether it is a `Proxy-Authorization` line. -/
structure Segment where
  bytes : Bytes
  auth : Bool
deriving DecidableEq, Repr

def Message.segments (m : Message) : List Segment :=
  ⟨m.requestLine ++ [10], false⟩ :: m.fields.map (fun f => ⟨f ++ [10], isAuthField f⟩) ++
    [⟨m.blank ++ [10], false⟩, ⟨m.body, false⟩]

def segments (ms : List Message) : List Segment := ms.flatMap Message.segments

/-- The segment's bytes with their origin. -/
def Segment.traced (sg : Segment) : List Traced := sg.bytes.map fun b => ⟨b, if sg.auth then .clientAuth else .client⟩

/-- The client's requests on the wire. -/
def wire (ms : List Message) : List Traced := ((segments ms).map Segment.traced).flatten

/-- A `Proxy-Authorization` line of the requests starts at offset `k`. -/
def AuthStart (ms : List Message) (k : Nat) : Prop :=
  ∃ pre sg post, segments ms = pre ++ sg :: post ∧ sg.auth = true ∧ ((pre.map Segment.bytes).flatten).length = k

/-- Offset `k` lies in a `\r\n` line of the head, not the first, that starts with
`proxy-authorization:` in any case. -/
def InAuthLine (head : Bytes) (k : Nat) : Prop :=
  ∃ before line, Covers (crlfLines id head).1 k before line ∧ before ≠ [] ∧
    ascii "proxy-authorization:" <+: (lineText id line).map lowerByte

/-- That is where `strip_header` drops. -/
theorem inAuthLine_iff (head : Bytes) (k : Nat) : InAuthLine head k ↔ DroppedAt id head proxyAuthorization k := by
  have header (line : Bytes) :
      isHeaderLine id proxyAuthorization line = true ↔ ascii "proxy-authorization:" <+: (lineText id line).map lowerByte := by
    have name : toAsciiLowercase proxyAuthorization ++ [':'] = "proxy-authorization:".toList := by decide
    unfold isHeaderLine isHeader
    rw [name, lower_lossy_prefix (by simp)]
    rfl
  unfold InAuthLine DroppedAt
  simp only [header]

/-! ## Lines of the requests -/

theorem segments_auth {ms : List Message} {sg : Segment} (mem : sg ∈ segments ms) (auth : sg.auth = true) :
    ∃ f, sg.bytes = f ++ [10] ∧ 10 ∉ f := by
  obtain ⟨m, -, mem⟩ := List.mem_flatMap.1 mem
  simp only [Message.segments, List.cons_append, List.mem_cons, List.mem_append, List.mem_map, List.not_mem_nil, or_false] at mem
  rcases mem with rfl | ⟨f, inFields, rfl⟩ | rfl | rfl
  · cases auth
  · exact ⟨f, rfl, (m.fields_line f inFields).1⟩
  · cases auth
  · cases auth

theorem traced_length (segs : List Segment) :
    ((segs.map Segment.traced).flatten).length = ((segs.map Segment.bytes).flatten).length := by
  induction segs with
  | nil => rfl
  | cons sg segs ih => simp [ih, Segment.traced]

/-- A byte of a `Proxy-Authorization` line lies in one of the requests' lines, which has no line feed
but its last byte. -/
theorem wire_auth {ms : List Message} {k : Nat} {a : Traced} (at_k : (wire ms)[k]? = some a) (auth : a.origin = .clientAuth) :
    ∃ start, AuthStart ms start ∧ start ≤ k ∧
      ∀ j b, start ≤ j → j < k → (wire ms)[j]? = some b → b.byte ≠ 10 := by
  obtain ⟨before, l, covers⟩ := exists_covers (List.getElem?_eq_some_iff.1 at_k).1
  rw [wire, covers.getElem?] at at_k
  obtain ⟨after, split, low, high⟩ := covers
  obtain ⟨pre, rest, eq, rfl, eq'⟩ := List.map_eq_append_iff.1 split
  obtain ⟨sg, post, rfl, rfl, rfl⟩ := List.map_eq_cons_iff.1 eq'
  have secret : sg.auth = true := by
    obtain ⟨b, -, rfl⟩ := List.mem_map.1 (List.mem_of_getElem? at_k)
    by_contra plain
    simp [plain] at auth
  obtain ⟨f, bytes, noFeed⟩ := segments_auth (by rw [eq]; simp) secret
  refine ⟨_, ⟨pre, sg, post, eq, secret, rfl⟩, by rw [← traced_length]; exact low, ?_⟩
  intro j b start before_k at_j
  rw [← traced_length] at start
  have inLine : j - ((pre.map Segment.traced).flatten).length < f.length := by
    simp only [Segment.traced, bytes, List.length_map, List.length_append, List.length_singleton] at high
    omega
  have inSegment : j - ((pre.map Segment.traced).flatten).length < sg.traced.length := by omega
  rw [wire, split, List.flatten_append, List.flatten_cons, List.getElem?_append_right start,
    List.getElem?_append_left inSegment, Segment.traced, List.getElem?_map, bytes,
    List.getElem?_append_left inLine, List.getElem?_eq_getElem inLine] at at_j
  cases at_j
  intro feed
  exact noFeed (feed ▸ List.getElem_mem inLine)

theorem wire_authStart {ms : List Message} {k : Nat} (start : AuthStart ms k) :
    ∃ a, (wire ms)[k]? = some a ∧ a.origin = .clientAuth := by
  obtain ⟨pre, sg, post, split, auth, rfl⟩ := start
  obtain ⟨f, bytes, -⟩ := segments_auth (by rw [split]; simp) auth
  obtain ⟨b, t, eq⟩ := List.exists_cons_of_ne_nil (show sg.bytes ≠ [] by simp [bytes])
  refine ⟨⟨b, .clientAuth⟩, ?_, rfl⟩
  rw [wire, split, List.map_append, List.map_cons, List.flatten_append, List.flatten_cons, ← traced_length,
    List.getElem?_append_right (Nat.le_refl _), Nat.sub_self]
  simp [Segment.traced, eq, auth]

/-! ## The connection -/

/-- The bytes of the requests that the client has sent, cut after `cut` bytes. -/
def sent (ms : List Message) (cut : Nat) : List Traced := (wire ms).take cut

section
variable {ms : List Message} {cut : Nat} {expected : Option AuthExpect} {budget : Option Nat} {req : ClientRequest} {after : Socket}

/-- A forward request is made of the first bytes of the connection; what is left is spliced. -/
theorem forward_buffer {stream : Bytes} (parsed : parseClientRequest expected ⟨stream, [], budget⟩ = (some req, after))
    (forward : req.frontend = .httpForward) : stream = req.raw ++ after.input ∧ req.scheme = .http := by
  rcases parseClientRequest_cases parsed with ⟨rest, -, socks, -⟩ | ⟨head, split, -, -, ok, -⟩
  · rw [forward] at socks; cases socks
  · obtain ⟨scheme, raw⟩ := (parseHead_spec ok).2.2 forward
    exact ⟨raw ▸ split, scheme⟩

/-- The traced head and the traced rest of the connection. -/
theorem sent_buffer (parsed : parseClientRequest expected ⟨(sent ms cut).map Traced.byte, [], budget⟩ = (some req, after))
    (forward : req.frontend = .httpForward) :
    ((sent ms cut).take req.raw.length).map Traced.byte = req.raw ∧
      ((sent ms cut).drop req.raw.length).map Traced.byte = after.input := by
  have split := (forward_buffer parsed forward).1
  constructor
  · rw [List.map_take, split, List.take_left]
  · rw [List.map_drop, split, List.drop_left]

/-- No byte of a `Proxy-Authorization` line is left in what `relay` forwards, when each such line
starts in a dropped line: the dropped line ends in a line feed and so reaches beyond it. -/
theorem stripped_of_inAuthLine {n k : Nat} {a : Traced}
    (condition : ∀ start, AuthStart ms start → start < cut → DroppedAt Traced.byte ((sent ms cut).take n) proxyAuthorization start)
    (at_k : (sent ms cut)[k]? = some a) (auth : a.origin = .clientAuth) :
    k < n ∧ DroppedAt Traced.byte ((sent ms cut).take n) proxyAuthorization k := by
  have inCut : k < cut := by
    have := (List.getElem?_eq_some_iff.1 at_k).1
    simp only [sent, List.length_take] at this
    omega
  have onWire {j : Nat} {b : Traced} (at_j : (sent ms cut)[j]? = some b) : (wire ms)[j]? = some b := by
    rw [sent, List.getElem?_take] at at_j
    split at at_j
    · exact at_j
    · cases at_j
  obtain ⟨start, authStart, before_k, noFeed⟩ := wire_auth (onWire at_k) auth
  obtain ⟨before, line, covers, later, header⟩ := condition start authStart (by omega)
  obtain ⟨p, c, d, ends, -, feed⟩ := mem_crlfLines (show line ∈ (crlfLines Traced.byte ((sent ms cut).take n)).1 by
    obtain ⟨after, split, -, -⟩ := covers
    simp [split])
  have ⟨after, split, low, high⟩ := covers
  -- the line feed that ends the dropped line
  have last : Covers (crlfLines Traced.byte ((sent ms cut).take n)).1 (before.flatten.length + (p.length + 1)) before line :=
    ⟨after, split, by omega, by simp [ends]⟩
  have flat : (crlfLines Traced.byte ((sent ms cut).take n)).1.flatten ++ _ = (sent ms cut).take n := crlfLines_flatten _
  have at_last : ((sent ms cut).take n)[before.flatten.length + (p.length + 1)]? = some d := by
    rw [← flat, List.getElem?_append_left last.lt, last.getElem?, Nat.add_sub_cancel_left, ends]
    simp
  have inHead : before.flatten.length + (p.length + 1) < n := by
    have := (List.getElem?_eq_some_iff.1 at_last).1
    simp only [List.length_take] at this
    omega
  have reaches : k ≤ before.flatten.length + (p.length + 1) := by
    by_contra beyond
    rw [List.getElem?_take, if_pos inHead] at at_last
    have endsLine : start ≤ before.flatten.length + (p.length + 1) := by
      simp only [ends, List.length_append, List.length_cons, List.length_nil] at high
      omega
    exact noFeed _ d endsLine (by omega) (onWire at_last) feed
  refine ⟨by omega, before, line, ⟨after, split, by omega, ?_⟩, later, header⟩
  simp only [ends, List.length_append, List.length_cons, List.length_nil]
  omega

/-- A proxy of no confirmed type, which is spoken to as a plain HTTP proxy. -/
def plainProxy : Proxy := Proxy.new (.v4 0x01010101) 80 []

/-- Some upstream gets everything that `relay` may forward: a plain proxy that answers. -/
theorem forward_everything (forward : req.frontend = .httpForward) (scheme : req.scheme = .http) (raw unread : List Traced) :
    ∃ is s, run (Relay.step Traced.byte Traced.own (tracedJob plainProxy req raw none none)) (Relay.start unread) is = some s ∧
      s.upWritten = stripHeader Traced.byte raw proxyAuthorization ++ unread := by
  have chosen : chooseProto plainProxy req.scheme = .http := by rw [scheme]; decide
  have proto : relayNegotiationProto (chooseProto plainProxy req.scheme) req.frontend = .http := by
    rw [chosen]; simp [relayNegotiationProto]
  have opens : run (Negotiation.step (relayNegotiationProto (chooseProto plainProxy req.scheme) req.frontend))
      (Negotiation.start (relayNegotiationProto (chooseProto plainProxy req.scheme) req.frontend) ⟨req.host, none, req.port⟩
        plainProxy.auth) [] = some .opened := by
    rw [proto]; rfl
  obtain ⟨is, bs, wrote⟩ :
      ∃ is bs, run (Relay.step Traced.byte Traced.own (tracedJob plainProxy req raw none none)) (Relay.start unread) is =
        some ⟨.sending [], unread, bs, _, [], []⟩ := Relay.forward_sent forward opens unread
  obtain ⟨js, upRead, clientWritten, spliced⟩ :
      ∃ js upRead clientWritten, run (Relay.step Traced.byte Traced.own (tracedJob plainProxy req raw none none))
        ⟨.sending [], unread, bs, stripHeader Traced.byte raw proxyAuthorization, [], []⟩ js =
          some ⟨.splicing Relay.emptySplice, _, _, _, upRead, clientWritten⟩ := Relay.sent_splices rfl
  obtain ⟨ks, all⟩ :
      ∃ ks, run (Relay.step Traced.byte Traced.own (tracedJob plainProxy req raw none none))
        ⟨.splicing Relay.emptySplice, unread, bs, stripHeader Traced.byte raw proxyAuthorization, upRead, clientWritten⟩ ks =
          some _ := Relay.splice_everything
  exact ⟨is ++ (js ++ ks), _, by rw [run_append wrote]; exact (run_append spliced).trans all, rfl⟩

theorem mem_toSend_auth {proxy : Proxy} {raw : List Traced} {ip : Option IpAddr} {allowed : Option (List UInt16)} {a : Traced}
    (mem : a ∈ Relay.request Traced.byte Traced.own (tracedJob proxy req raw ip allowed)) (auth : a.origin = .clientAuth) :
    a ∈ stripHeader Traced.byte raw proxyAuthorization := by
  unfold Relay.request at mem
  split at mem
  · simp only [Relay.toSend, tracedJob] at mem
    split at mem
    · rename_i c _
      rcases mem_injectHeader mem with kept | line
      · exact kept
      · obtain ⟨b, -, rfl⟩ := List.mem_map.1 line
        cases auth
    · exact mem
  · cases mem

/-- **The client's credentials, exactly.** For the bytes a client sends of any number of requests: no
run of `relay`, with any proxy, writes a byte of one of their `Proxy-Authorization` lines upstream, if
and only if each of these lines starts inside a `\r\n` line of the buffered head, other than the
first, that itself starts with `proxy-authorization:`. -/
theorem client_credentials_iff
    (parsed : parseClientRequest expected ⟨(sent ms cut).map Traced.byte, [], budget⟩ = (some req, after))
    (forward : req.frontend = .httpForward) :
    (∀ proxy ip allowed is s,
      run (Relay.step Traced.byte Traced.own (tracedJob proxy req ((sent ms cut).take req.raw.length) ip allowed))
        (Relay.start ((sent ms cut).drop req.raw.length)) is = some s →
      ∀ a ∈ s.upWritten, a.origin ≠ .clientAuth) ↔
    ∀ start, AuthStart ms start → start < cut → InAuthLine req.raw start := by
  have head := (sent_buffer parsed forward).1
  have dropped (k : Nat) : InAuthLine req.raw k ↔
      DroppedAt Traced.byte ((sent ms cut).take req.raw.length) proxyAuthorization k := by
    have map : DroppedAt id (((sent ms cut).take req.raw.length).map Traced.byte) proxyAuthorization k ↔
        DroppedAt Traced.byte ((sent ms cut).take req.raw.length) proxyAuthorization k := droppedAt_map Traced.byte fun _ => rfl
    rw [head] at map
    rw [inAuthLine_iff, map]
  constructor
  · intro hygiene start authStart inCut
    rw [dropped]
    by_contra kept
    obtain ⟨a, at_start, auth⟩ := wire_authStart authStart
    have at_sent : (sent ms cut)[start]? = some a := by rw [sent, List.getElem?_take, if_pos inCut]; exact at_start
    obtain ⟨is, s, ran, wrote⟩ := forward_everything forward (forward_buffer parsed forward).2
      ((sent ms cut).take req.raw.length) ((sent ms cut).drop req.raw.length)
    refine hygiene plainProxy none none is s ran a ?_ auth
    rw [wrote, List.mem_append]
    by_cases inHead : start < req.raw.length
    · refine Or.inl (mem_stripHeader_iff.2 ⟨start, ?_, kept⟩)
      rw [List.getElem?_take, if_pos inHead]
      exact at_sent
    · refine Or.inr (List.mem_of_getElem? (i := start - req.raw.length) ?_)
      rw [List.getElem?_drop, Nat.add_sub_cancel' (by omega)]
      exact at_sent
  · intro condition proxy ip allowed is s ran a mem auth
    have stripped {k : Nat} (at_k : (sent ms cut)[k]? = some a) :=
      stripped_of_inAuthLine (fun start authStart inCut => (dropped start).1 (condition start authStart inCut)) at_k auth
    rcases List.mem_append.1 ((Relay.up_run ran).written.subset mem) with request | spliced
    · obtain ⟨k, at_k, kept⟩ := mem_stripHeader_iff.1 (mem_toSend_auth request auth)
      rw [List.getElem?_take] at at_k
      split at at_k
      · exact kept (stripped at_k).2
      · cases at_k
    · obtain ⟨j, at_j⟩ := List.mem_iff_getElem?.1 spliced
      rw [List.getElem?_drop] at at_j
      have := (stripped at_j).1
      omega

end

/-- `GET http://h/` without credentials, and with them. -/
def plainMessage : Message :=
  ⟨ascii "GET http://h/ HTTP/1.1\r", [], [13], [], by decide, by decide, by decide⟩

def authMessage : Message :=
  ⟨ascii "GET http://h/ HTTP/1.1\r", [ascii "Proxy-Authorization: s\r"], [13], [], by decide, by decide, by decide⟩

/-- Two pipelined requests: the credentials of the second are spliced to the upstream. -/
theorem client_credentials_leak :
    (parseClientRequest none ⟨(sent [plainMessage, authMessage] 100).map Traced.byte, [], none⟩).1 = some forwardGet ∧
    ∃ s, run (Relay.step Traced.byte Traced.own
        (tracedJob plainProxy forwardGet ((sent [plainMessage, authMessage] 100).take forwardGet.raw.length) none none))
        (Relay.start ((sent [plainMessage, authMessage] 100).drop forwardGet.raw.length))
        [.connected, .upstream (.wrote 26), .upstream .flushed, .upstream (.read [10]), .client (.wrote 9), .client .flushed,
          .client (.read 50), .upstream (.wrote 50)] = some s ∧
      (s.upWritten.filter fun a => a.origin = .clientAuth).map Traced.byte = ascii "Proxy-Authorization: s\r\n" :=
  ⟨by decide, _, rfl, rfl⟩

/-- The request that `authMessage` is read as. -/
def authGet : ClientRequest :=
  ⟨.http, .httpForward, ['h'], 80, (sent [authMessage] 50).map Traced.byte, some ['s'], "http://h/".toList⟩

/-- One request with the credentials in its head: they stay. -/
theorem client_credentials_kept :
    (parseClientRequest none ⟨(sent [authMessage] 50).map Traced.byte, [], none⟩).1 = some authGet ∧
    ∀ proxy ip allowed is s,
      run (Relay.step Traced.byte Traced.own (tracedJob proxy authGet ((sent [authMessage] 50).take 50) ip allowed))
        (Relay.start ((sent [authMessage] 50).drop 50)) is = some s →
      ∀ a ∈ s.upWritten, a.origin ≠ .clientAuth := by
  have parsed : parseClientRequest none ⟨(sent [authMessage] 50).map Traced.byte, [], none⟩ = (some authGet, ⟨[], [], none⟩) := by
    decide
  refine ⟨congrArg Prod.fst parsed, (client_credentials_iff parsed rfl).2 ?_⟩
  rintro start ⟨pre, sg, post, split, auth, rfl⟩ -
  have four : segments [authMessage] = [⟨ascii "GET http://h/ HTTP/1.1\r\n", false⟩, ⟨ascii "Proxy-Authorization: s\r\n", true⟩,
    ⟨ascii "\r\n", false⟩, ⟨[], false⟩] := by decide
  rw [four] at split
  -- only the second segment is a `Proxy-Authorization` line
  match pre, split with
  | [], split => cases split; cases auth
  | [_], split =>
    cases split
    exact ⟨[ascii "GET http://h/ HTTP/1.1\r\n"], ascii "Proxy-Authorization: s\r\n", ⟨[ascii "\r\n"], by decide, by decide, by decide⟩,
      by decide, by decide⟩
  | [_, _], split => cases split; cases auth
  | [_, _, _], split => cases split; cases auth
  | _ :: _ :: _ :: _ :: _, split => simp at split

end ProxyBroker.Server
