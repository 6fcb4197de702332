import ProxyBroker.Lib.Socket
import ProxyBroker.Server.Headers

/-!
# The client's first request (`server.rs`: `parse_client_request`, `parse_socks5_request`)

A first byte of `0x05` is a SOCKS5 greeting; anything else is HTTP. `readHead` is the byte loop that
buffers an HTTP head, up to `\r\n\r\n` or until the buffer exceeds 65536 bytes; `parseHead` is what
the code then makes of the buffer. The SOCKS5 handshake is cut where the source moves from the
method selection to the `CONNECT` request (`socks5Auth`, `socks5Connect`).
-/

namespace ProxyBroker.Server
open Lib

/-- `server.rs:Frontend`. -/
inductive Frontend where
  | httpForward | httpConnect | socks5
deriving DecidableEq, Repr

/-- `server.rs:ClientRequest`. -/
structure ClientRequest where
  scheme : Scheme
  frontend : Frontend
  host : Text
  port : UInt16
  raw : Bytes
  proxyAuth : Option Text
  path : Text
deriving DecidableEq, Repr

/-- `server.rs:AuthExpect`. -/
structure AuthExpect where
  user : Text
  pass : Text
  basic : Text
deriving DecidableEq, Repr

/-- The `AuthExpect` that `serve` makes of its `auth` argument. -/
def authExpect (up : Text) : AuthExpect :=
  let (user, pass) := (splitOnce ':' up).getD (up, [])
  ⟨user, pass, "Basic ".toList ++ base64Encode (utf8 up)⟩

/-! ## HTTP -/

def crlfCrlf : Bytes := [13, 10, 13, 10]

/-- The byte loop: extend `buf` until it ends in `\r\n\r\n` or is longer than 65536 bytes. -/
def readHead (buf : Bytes) : Bytes → Option (Bytes × Bytes)
  | [] => none
  | b :: t =>
    if crlfCrlf.isSuffixOf (buf ++ [b]) || 65536 < (buf ++ [b]).length then some (buf ++ [b], t)
    else readHead (buf ++ [b]) t

/-- The `Host` header of the lines after the first. -/
def hostHeader (ls : List Text) : Option Text :=
  (ls.find? fun l => "host:".toList.isPrefixOf (toAsciiLowercase l)).map fun l => trim (l.drop 5)

/-- What `parse_client_request` makes of a buffered HTTP head. -/
def parseHead (buf : Bytes) : Option ClientRequest :=
  match lines (fromUtf8Lossy buf) with
  | [] => none
  | first :: rest =>
    match splitWhitespace first with
    | method :: uri :: _ =>
      let proxyAuth := headerValue buf proxyAuthorization
      if eqIgnoreAsciiCase method "CONNECT".toList then
        let (host, port) := splitHostPort uri 443
        some ⟨.https, .httpConnect, host, port, [], proxyAuth, uri⟩
      else
        let absolute := (stripPrefix "http://".toList uri).bind fun r => (splitOn '/' r).head?
        match absolute.or (hostHeader rest) with
        | none => none
        | some hostPort =>
          let (host, port) := splitHostPort hostPort 80
          some ⟨.http, .httpForward, host, port, buf, proxyAuth, uri⟩
    | _ => none

/-! ## SOCKS5 -/

/-- The method selection, and the RFC 1929 exchange when credentials are expected. -/
def socks5Auth (expected : Option AuthExpect) : SocketM Unit := do
  let nmethods ← SocketM.readExact 1
  let methods ← SocketM.readExact (nmethods.headD 0).toNat
  match expected with
  | none =>
    if methods.contains 0x00 then SocketM.writeAll [0x05, 0x00]
    else do
      SocketM.ignore (SocketM.writeAll [0x05, 0xFF])
      SocketM.giveUp
  | some exp =>
    if methods.contains 0x02 then do
      SocketM.writeAll [0x05, 0x02]
      let vu ← SocketM.readExact 2
      let user ← SocketM.readExact (vu.getD 1 0).toNat
      let pl ← SocketM.readExact 1
      let pass ← SocketM.readExact (pl.headD 0).toNat
      if user = utf8 exp.user ∧ pass = utf8 exp.pass then SocketM.writeAll [0x01, 0x00]
      else do
        SocketM.ignore (SocketM.writeAll [0x01, 0x01])
        SocketM.giveUp
    else do
      SocketM.ignore (SocketM.writeAll [0x05, 0xFF])
      SocketM.giveUp

/-- `u16::from_be_bytes`. -/
def beU16 (bs : Bytes) : UInt16 := UInt16.ofNat (joinFields 8 (bs.map UInt8.toNat))

/-- A ten-byte SOCKS5 reply with code `rep` and a stub address. -/
def socks5Reply (rep : UInt8) : Bytes := [0x05, rep, 0x00, 0x01, 0, 0, 0, 0, 0, 0]

/-- The `CONNECT` request after the method selection. -/
def socks5Connect : SocketM ClientRequest := do
  let hdr ← SocketM.readExact 4
  if hdr.headD 0 ≠ 0x05 then SocketM.giveUp
  else if hdr.getD 1 0 ≠ 0x01 then do
    SocketM.ignore (SocketM.writeAll (socks5Reply 0x07))
    SocketM.giveUp
  else do
    let (host, port) ← (
      match hdr.getD 3 0 with
      | 0x01 => do
        let a ← SocketM.readExact 4
        let p ← SocketM.readExact 2
        return ((IpAddr.ofOctets4 a).display, beU16 p)
      | 0x04 => do
        let a ← SocketM.readExact 16
        let p ← SocketM.readExact 2
        return ((IpAddr.ofOctets6 a).display, beU16 p)
      | 0x03 => do
        let l ← SocketM.readExact 1
        let d ← SocketM.readExact (l.headD 0).toNat
        let p ← SocketM.readExact 2
        return (fromUtf8Lossy d, beU16 p)
      | _ => do
        SocketM.ignore (SocketM.writeAll (socks5Reply 0x08))
        SocketM.giveUp)
    return ⟨.https, .socks5, host, port, [], none, host ++ [':'] ++ showNat port.toNat⟩

/-- `parse_socks5_request`, after the version byte. -/
def parseSocks5Request (expected : Option AuthExpect) : SocketM ClientRequest := do
  socks5Auth expected
  socks5Connect

/-- `parse_client_request`. -/
def parseClientRequest (expected : Option AuthExpect) : SocketM ClientRequest := do
  let first ← SocketM.readExact 1
  if first = [0x05] then parseSocks5Request expected
  else do
    let buf ← (fun s =>
      match readHead first s.input with
      | some (buf, rest) => (some buf, { s with input := rest })
      | none => (none, { s with input := [] }) : SocketM Bytes)
    SocketM.ofOption (parseHead buf)

/-- `GET http://h/`. -/
def forwardGet : ClientRequest :=
  ⟨.http, .httpForward, ['h'], 80, ascii "GET http://h/ HTTP/1.1\r\n\r\n", none, "http://h/".toList⟩

example : (parseClientRequest none ⟨ascii "GET http://h/ HTTP/1.1\r\n\r\nrest", [], none⟩).1 = some forwardGet := by decide

/-! ## What a parsed request says about the bytes -/

/-- The buffered head and what is left are the bytes read. -/
theorem readHead_split {buf input head rest : Bytes} (h : readHead buf input = some (head, rest)) :
    head ++ rest = buf ++ input := by
  induction input generalizing buf with
  | nil => cases h
  | cons b t ih =>
    unfold readHead at h
    split at h
    · cases h; simp
    · rw [ih h]; simp

theorem readHead_prefix {buf input head rest : Bytes} (h : readHead buf input = some (head, rest)) : buf <+: head := by
  induction input generalizing buf with
  | nil => cases h
  | cons b t ih =>
    unfold readHead at h
    split at h
    · cases h; exact List.prefix_append _ _
    · exact (List.prefix_append _ _).trans (ih h)

/-- A head as it is buffered: up to the first blank line, and cut after 65537 bytes. -/
structure Buffered (head : Bytes) : Prop where
  limit : head.length ≤ 65537
  ends : crlfCrlf <:+ head ∨ head.length = 65537
  first : ∀ p, p <+: head → p ≠ head → ¬ crlfCrlf <:+ p

/-- There is one place to stop. -/
theorem buffered_unique {head head' rest rest' : Bytes} (buffered : Buffered head) (buffered' : Buffered head')
    (same : head ++ rest = head' ++ rest') : head = head' := by
  have shorter {x y : Bytes} (stops : Buffered x) (bounded : Buffered y) (part : x <+: y) : x = y := by
    by_contra other
    have long : x.length = 65537 := stops.ends.resolve_left (bounded.first x part other)
    have limit := bounded.limit
    exact other (part.eq_of_length (Nat.le_antisymm part.length_le (by omega)))
  rcases List.prefix_or_prefix_of_prefix (List.prefix_append head rest) (same ▸ List.prefix_append head' rest') with part | part
  · exact shorter buffered buffered' part
  · exact (shorter buffered' buffered part).symm

/-- A head is not taken for a SOCKS5 stream. -/
theorem buffered_not_version {head rest more : Bytes} (buffered : Buffered head) (other : head.head? ≠ some 0x05) :
    head ++ rest ≠ 0x05 :: more := by
  intro same
  cases head with
  | nil => exact absurd buffered.ends (by simp [crlfCrlf])
  | cons b head =>
    obtain ⟨rfl, -⟩ := List.cons.inj same
    exact other rfl

/-- The loop stops as soon as it may. -/
theorem readHead_buffered {buf input head rest : Bytes} (short : buf.length ≤ 65536)
    (unfinished : ∀ p, p <+: buf → ¬ crlfCrlf <:+ p) (h : readHead buf input = some (head, rest)) : Buffered head := by
  induction input generalizing buf with
  | nil => cases h
  | cons b t ih =>
    unfold readHead at h
    have shorter {p : Bytes} (pre : p <+: buf ++ [b]) (ne : p ≠ buf ++ [b]) : ¬ crlfCrlf <:+ p :=
      unfinished p ((List.prefix_concat_iff.1 pre).resolve_left ne)
    split at h
    · rename_i stop
      cases h
      have stop : crlfCrlf <:+ buf ++ [b] ∨ 65536 < (buf ++ [b]).length := by simpa using stop
      rw [List.length_append, List.length_singleton] at stop
      refine ⟨?_, ?_, fun p pre ne => shorter pre ne⟩
      · rw [List.length_append, List.length_singleton]
        omega
      · rw [List.length_append, List.length_singleton]
        exact stop.imp_right fun long => by omega
    · rename_i going
      have going : ¬ crlfCrlf <:+ buf ++ [b] ∧ (buf ++ [b]).length ≤ 65536 := by simpa using going
      refine ih going.2 ?_ h
      intro p pre
      by_cases whole : p = buf ++ [b]
      · rw [whole]
        exact going.1
      · exact shorter pre whole

/-- An HTTP request keeps the head's first `Proxy-Authorization`, and a forward request its bytes. -/
theorem parseHead_spec {buf : Bytes} {req : ClientRequest} (h : parseHead buf = some req) :
    req.proxyAuth = headerValue buf proxyAuthorization ∧ req.frontend ≠ .socks5 ∧
      (req.frontend = .httpForward → req.scheme = .http ∧ req.raw = buf) := by
  unfold parseHead at h
  split at h
  · cases h
  · split at h
    · simp only at h
      split at h
      · cases h
        exact ⟨rfl, by simp, by simp⟩
      · split at h
        · cases h
        · cases h
          exact ⟨rfl, by simp, fun _ => ⟨rfl, rfl⟩⟩
    · cases h

/-- The host of an absolute URI comes before the `Host` header. -/
theorem parseHead_absolute {buf : Bytes} {req : ClientRequest} {r : Text} (h : parseHead buf = some req)
    (forward : req.frontend = .httpForward) (absolute : req.path = "http://".toList ++ r) :
    req.host = (splitHostPort (r.takeWhile (· ≠ '/')) 80).1 := by
  unfold parseHead at h
  split at h
  · cases h
  · split at h
    · simp only at h
      split at h
      · cases h
        cases forward
      · split at h
        · cases h
        · rename_i hostPort authority
          cases h
          dsimp only at absolute ⊢
          rw [stripPrefix_some.2 absolute, Option.bind_some, splitOn_head, Option.some_or] at authority
          cases authority
          rfl
    · cases h

theorem socks5Connect_frontend {s t : Socket} {req : ClientRequest} (h : socks5Connect s = (some req, t)) :
    req.frontend = .socks5 := by
  unfold socks5Connect at h
  obtain ⟨hdr, s₁, -, h⟩ := SocketM.bind_some.1 h
  split at h
  · exact absurd h SocketM.giveUp_some
  · split at h
    · obtain ⟨-, s₂, -, h⟩ := SocketM.bind_some.1 h
      exact absurd h SocketM.giveUp_some
    · obtain ⟨target, s₂, -, h⟩ := SocketM.bind_some.1 h
      obtain ⟨rfl, -⟩ := SocketM.pure_some.1 h
      rfl

/-- **A parsed request.** It is a SOCKS5 request after a version byte, or an HTTP request made of a
buffered head, and then nothing was written and what is left follows the head. -/
theorem parseClientRequest_cases {expected : Option AuthExpect} {s t : Socket} {req : ClientRequest}
    (h : parseClientRequest expected s = (some req, t)) :
    (∃ rest, s.input = 0x05 :: rest ∧ req.frontend = .socks5 ∧
      parseSocks5Request expected { s with input := rest } = (some req, t)) ∨
    (∃ head, s.input = head ++ t.input ∧ head.head? ≠ some 0x05 ∧ Buffered head ∧
      parseHead head = some req ∧ t.output = s.output) := by
  unfold parseClientRequest at h
  obtain ⟨first, s₁, read, h⟩ := SocketM.bind_some.1 h
  obtain ⟨len, input, output, budget⟩ := SocketM.readExact_some.1 read
  obtain ⟨b, rfl⟩ := List.length_eq_one_iff.1 len
  split at h
  · rename_i socks
    cases socks
    have socket : s₁ = { s with input := s₁.input } := by
      rw [← output, ← budget]
    refine Or.inl ⟨s₁.input, input, ?_, by rwa [← socket]⟩
    obtain ⟨-, s₂, -, h⟩ := SocketM.bind_some.1 h
    exact socks5Connect_frontend h
  · rename_i http
    obtain ⟨head, s₂, buffered, h⟩ := SocketM.bind_some.1 h
    obtain ⟨parsed, rfl⟩ := SocketM.ofOption_some.1 h
    cases eq : readHead [b] s₁.input with
    | none => simp only [eq] at buffered; cases buffered
    | some r =>
      simp only [eq] at buffered
      cases buffered
      obtain ⟨more, whole⟩ := readHead_prefix eq
      have one : ∀ p, p <+: [b] → ¬ crlfCrlf <:+ p := by
        intro p pre blank
        have le := pre.length_le
        have ge := blank.length_le
        simp only [crlfCrlf, List.length_cons, List.length_nil] at le ge
        omega
      refine Or.inr ⟨r.1, ?_, ?_, readHead_buffered (by simp) one eq, parsed, output⟩
      · rw [input]; exact (readHead_split eq).symm
      · rw [← whole]
        simpa using http

end ProxyBroker.Server
