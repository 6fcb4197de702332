import ProxyBroker.Lib.Socket
import ProxyBroker.Proxy
import ProxyBroker.Utils

/-!
# Negotiation (`negotiator.rs`)

`negotiate` turns a TCP connection to a proxy into a stream that is ready for a request. It is a
machine here: `Negotiation` is where it stands, `Negotiation.step` what an event on the connection
does to it. The SOCKS handshakes are those of `tokio-socks` and the TLS handshake that of `rustls`;
of these only the result is seen (`Handshake`).
-/

namespace ProxyBroker
open Lib

/-- `negotiator.rs:Target`. -/
structure Target where
  host : Text
  ip : Option IpAddr
  port : UInt16
deriving DecidableEq, Repr

/-- The line both `connect_request` and `relay` put a proxy's credentials in. -/
def authLine (c : Credentials) : Bytes :=
  ascii "Proxy-Authorization: Basic " ++ utf8 (base64Encode (utf8 (c.username ++ [':'] ++ c.password))) ++ ascii "\r\n"

/-- `connect_request`. -/
def connectRequest (host : Text) (port : UInt16) (creds : Option Credentials) : Bytes :=
  let bare := ((stripPrefix ['['] host).bind (stripSuffix [']'])).getD host
  let hostHdr := if ':' ∈ bare then ['['] ++ bare ++ [']'] else bare
  let authority := hostHdr ++ [':'] ++ showNat port.toNat
  let auth := match creds with
    | some c => authLine c
    | none => []
  ascii "CONNECT " ++ utf8 authority ++ ascii " HTTP/1.1\r\nHost: " ++ utf8 hostHdr ++
    ascii "\r\nUser-Agent: PxBroker/1.1.0/\r\n" ++ auth ++ ascii "Connection: keep-alive\r\n\r\n"

example : connectRequest "[2001:db8::1]".toList 443 none =
    ascii "CONNECT [2001:db8::1]:443 HTTP/1.1\r\nHost: [2001:db8::1]\r\nUser-Agent: PxBroker/1.1.0/\r\nConnection: keep-alive\r\n\r\n" := by
  decide

/-- How a handshake that a library runs ended. `ioTimedOut` is an I/O error of kind `TimedOut`. -/
inductive Handshake where
  | completed | failed | ioTimedOut | timeout
deriving DecidableEq, Repr

/-- Where `negotiate` stands. -/
inductive Negotiation where
  | asking (rest : Bytes)
  | answering (head : Bytes)
  | banner (got : Bytes)
  | upgrading
  | socks
  | opened
  | failed (e : ProxyError)
deriving DecidableEq, Repr

namespace Negotiation

/-- What `negotiate` waits for. -/
inductive Input where
  | net (a : Answer Bytes)
  | handshake (h : Handshake)
deriving DecidableEq, Repr

/-- `negotiate`, up to its first await. -/
def start (proto : Proto) (target : Target) (creds : Option Credentials) : Negotiation :=
  match proto with
  | .http => .opened
  | .socks4 =>
    match target.ip with
    | some (.v4 _) => .socks
    | _ => .failed .badResponse
  | .socks5 => .socks
  | .connect80 | .connect25 | .https => .asking (connectRequest target.host target.port creds)

/-- The continuation of `negotiate` after `http_connect`. -/
def connected (proto : Proto) : Negotiation :=
  match proto with
  | .https => .upgrading
  | .connect25 => .banner []
  | _ => .opened

/-- `read_head` after one more byte, and the status test of `http_connect`. -/
def readHead (proto : Proto) (head : Bytes) : Negotiation :=
  if [13, 10, 13, 10].isSuffixOf head then
    if getStatusCode head 9 12 ≠ 200 then .failed .badStatus else connected proto
  else if 8192 < head.length then .failed .badResponse
  else .answering head

/-- `SMTP_READY`. -/
def smtpReady : UInt16 := 220

/-- One event. -/
def step (proto : Proto) : Negotiation → Input → Option Negotiation
  -- `tcp.write_all(&req)`
  | .asking rest, .net (.wrote n) => some (.asking (rest.drop n))
  | .asking [], .net .flushed => some (.answering [])
  | .asking _, .net .writeFailed => some (.failed .reset)
  | .asking _, .net .timeout => some (.failed .timeout)
  -- `read_head`
  | .answering head, .net (.read [b]) => some (readHead proto (head ++ [b]))
  | .answering head, .net .eof => some (.failed (if head = [] then .emptyRecv else .reset))
  | .answering _, .net .readFailed => some (.failed .reset)
  | .answering _, .net .timeout => some (.failed .timeout)
  -- `read_smtp_banner`
  | .banner got, .net (.read [b]) =>
    if (got ++ [b]).length < 3 then some (.banner (got ++ [b]))
    else some (if getStatusCode (got ++ [b]) 0 3 ≠ smtpReady then .failed .badStatus else .opened)
  | .banner _, .net .eof => some (.failed .reset)
  | .banner _, .net .readFailed => some (.failed .reset)
  | .banner _, .net .timeout => some (.failed .timeout)
  -- `tls_upgrade`
  | .upgrading, .handshake .completed => some .opened
  | .upgrading, .handshake .timeout => some (.failed .timeout)
  | .upgrading, .handshake _ => some (.failed .badResponse)
  -- `socks4`, `socks5`
  | .socks, .handshake .completed => some .opened
  | .socks, .handshake .failed => some (.failed .badResponse)
  | .socks, .handshake _ => some (.failed .timeout)
  | _, _ => none

/-- `negotiate` over the events of one connection. An event it does not wait for passes it by, and what
comes after its end is not its concern. -/
def drive (proto : Proto) : Negotiation → List Input → Negotiation
  | .opened, _ => .opened
  | .failed e, _ => .failed e
  | n, [] => n
  | n, i :: is => drive proto ((n.step proto i).getD n) is

@[simp] theorem drive_opened (proto : Proto) (is : List Input) : drive proto .opened is = .opened := by
  cases is <;> rfl

/-- The negotiation has not got the proxy's answer to its `CONNECT` yet. -/
def unanswered : Negotiation → Prop
  | .asking _ | .answering _ => True
  | _ => False

/-- Up to the answer all protocols that begin with a `CONNECT` do the same, and at a good answer
`CONNECT:80` has opened. -/
theorem step_unanswered (proto : Proto) {n : Negotiation} (http : n.unanswered) (i : Input) :
    n.step .connect80 i = some .opened ∨
    (n.step proto i = n.step .connect80 i ∧
      (((n.step proto i).getD n).unanswered ∨ ∃ e, (n.step proto i).getD n = .failed e)) := by
  have heard (head : Bytes) : readHead .connect80 head = .opened ∨
      (readHead proto head = readHead .connect80 head ∧
        ((readHead proto head).unanswered ∨ ∃ e, readHead proto head = .failed e)) := by
    unfold readHead
    by_cases whole : [13, 10, 13, 10].isSuffixOf head = true
    · by_cases good : getStatusCode head 9 12 = 200
      · exact Or.inl (by simp [whole, good, connected])
      · exact Or.inr (by simp [whole, good])
    · by_cases long : 8192 < head.length
      · exact Or.inr (by simp [whole, long])
      · exact Or.inr (by simp [whole, long, unanswered])
  unfold step
  split
  case h_5 head b =>
    rcases heard (head ++ [b]) with opened | ⟨same, next⟩
    · exact Or.inl (congrArg some opened)
    · exact Or.inr ⟨congrArg some same, next⟩
  all_goals first
    | exact http.elim
    | exact Or.inr ⟨rfl, Or.inl trivial⟩
    | exact Or.inr ⟨rfl, Or.inr ⟨_, rfl⟩⟩
    | exact Or.inr ⟨rfl, Or.inl http⟩

/-- A negotiation that opens after a `CONNECT` has opened one for `CONNECT:80` on the way. -/
theorem drive_connect80 {proto : Proto} {n : Negotiation} {is : List Input} (http : n.unanswered)
    (opens : drive proto n is = .opened) : drive .connect80 n is = .opened := by
  have pass (p : Proto) {n : Negotiation} (http : n.unanswered) (i : Input) (is : List Input) :
      drive p n (i :: is) = drive p ((n.step p i).getD n) is := by
    cases n <;> first | rfl | exact http.elim
  induction is generalizing n with
  | nil => cases n <;> first | exact http.elim | cases opens
  | cons i is ih =>
    rw [pass proto http] at opens
    rw [pass .connect80 http]
    rcases step_unanswered proto http i with opened | ⟨same, next | ⟨e, failed⟩⟩
    · rw [opened]
      exact drive_opened _ is
    · rw [same] at next opens
      exact ih next opens
    · rw [failed] at opens
      cases is <;> cases opens

/-- The stream that `negotiate proto` returns leads to the origin and not to the proxy. -/
def opensTunnel (proto : Proto) : Bool := proto ≠ .http

end Negotiation

end ProxyBroker
