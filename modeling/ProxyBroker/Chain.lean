import ProxyBroker.AuthGate
import ProxyBroker.Lib.Head
import ProxyBroker.Server.Authority
import ProxyBroker.Server.WholeHead
import ProxyBroker.Transparency

/-!
# Brokers in a chain (`negotiator.rs:http_connect`, `server.rs:handle_client`)

The upstream proxy of a broker can be another broker. The lower one then sends `connect_request` and reads the answer
with `read_head`; the upper one reads that request as any client's and answers from `handle_client`. Both sides are
models of this development, so what they do together is a theorem: the request arrives as it was meant, credentials
included (`chained_request`), and in every run of the upper broker the lower one takes the tunnel for open exactly
from the last byte of the acknowledgement on (`chained_tunnel`).
-/

namespace ProxyBroker
open Lib Server

/-! ## The request -/

/-- The line with the credentials. -/
def credentialsLine (c : Credentials) : Text := "Proxy-Authorization: ".toList ++ basicValue c.username c.password

theorem basicValue_eq (user pass : Text) :
    basicValue user pass = "Basic ".toList ++ base64Encode (utf8 (user ++ ':' :: pass)) := rfl

/-- The lines of `connect_request`. -/
def connectLines (host : Text) (port : UInt16) (creds : Option Credentials) : List Text :=
  ["CONNECT ".toList ++ authorityOf host port ++ " HTTP/1.1".toList, "Host: ".toList ++ hostLine host,
    "User-Agent: PxBroker/1.1.0/".toList] ++ (creds.map credentialsLine).toList ++ ["Connection: keep-alive".toList]

theorem authLine_eq (c : Credentials) : authLine c = utf8 (credentialsLine c) ++ [13, 10] := by
  have front : ascii "Proxy-Authorization: Basic " = utf8 ("Proxy-Authorization: ".toList ++ "Basic ".toList) :=
    ascii_utf8 (by decide)
  have text : c.username ++ [':'] ++ c.password = c.username ++ ':' :: c.password := by simp
  rw [authLine, front, text, ← utf8_append, List.append_assoc]
  rfl

theorem connectRequest_head (host : Text) (port : UInt16) (creds : Option Credentials) :
    connectRequest host port creds = utf8 (headOf '\r' '\n' (connectLines host port creds)) := by
  rw [connectRequest_eq, utf8_headOf, @ascii_utf8 "CONNECT " (by decide), @ascii_utf8 " HTTP/1.1" (by decide),
    @ascii_utf8 "Host: " (by decide), @ascii_utf8 "User-Agent: PxBroker/1.1.0/" (by decide),
    @ascii_utf8 "Connection: keep-alive" (by decide), ← utf8_append, ← utf8_append, ← utf8_append]
  cases creds with
  | none => rfl
  | some c =>
    rw [authLines, List.flatten_singleton, authLine_eq]
    rfl

variable {host bare : Text} {port : UInt16} {creds : Option Credentials}

theorem black_hostLine (spelled : Spelled host bare) : ∀ c ∈ hostLine host, isWhitespace c = false := by
  intro c mem
  refine black_authorityOf spelled 0 c ?_
  rw [authorityOf, List.append_assoc]
  exact List.mem_append_left _ mem

theorem feed_not_black {t : Text} (black : ∀ c ∈ t, isWhitespace c = false) : '\n' ∉ t := by
  intro mem
  have white := black _ mem
  revert white
  decide

/-- A literal without white space. -/
theorem black_of_all {t : Text} (all : (t.all fun c => !isWhitespace c) = true) : ∀ c ∈ t, isWhitespace c = false := by
  intro c mem
  simpa using List.all_eq_true.1 all c mem

theorem black_base64 (bs : Bytes) : ∀ c ∈ base64Encode bs, isWhitespace c = false := by
  intro c mem
  rcases mem_base64Encode mem with letter | rfl
  · exact black_of_all (t := alphabet) (by decide) c letter
  · decide

/-- No line of the request is empty or broken. -/
theorem connectLines_headLine (spelled : Spelled host bare) : ∀ l ∈ connectLines host port creds, HeadLine '\n' l := by
  have literal (front t : Text) (some : front ≠ []) (clean : '\n' ∉ front) (rest : '\n' ∉ t) : HeadLine '\n' (front ++ t) := by
    refine ⟨List.append_ne_nil_of_left_ne_nil some t, ?_⟩
    rw [List.mem_append, not_or]
    exact ⟨clean, rest⟩
  intro l mem
  simp only [connectLines, List.mem_append, List.mem_cons, List.not_mem_nil, or_false, Option.mem_toList,
    Option.map_eq_some_iff] at mem
  rcases mem with ((rfl | rfl | rfl) | ⟨c, -, rfl⟩) | rfl
  · rw [List.append_assoc]
    refine literal "CONNECT ".toList _ (by decide) (by decide) ?_
    rw [List.mem_append, not_or]
    exact ⟨feed_not_black (black_authorityOf spelled port), by decide⟩
  · exact literal "Host: ".toList _ (by decide) (by decide) (feed_not_black (black_hostLine spelled))
  · exact ⟨by decide, by decide⟩
  · refine literal "Proxy-Authorization: ".toList (basicValue c.username c.password) (by decide) (by decide) ?_
    rw [basicValue_eq, List.mem_append, not_or]
    exact ⟨by decide, feed_not_black (black_base64 _)⟩
  · exact ⟨by decide, by decide⟩

/-- A head of text lines, as bytes, ends at its first blank line. -/
theorem whole_headOf {ls : List Text} (some : ls ≠ []) (lines : ∀ l ∈ ls, HeadLine '\n' l) :
    Whole (utf8 (headOf '\r' '\n' ls)) := by
  have bytes := headLines_utf8 lines
  rw [utf8_headOf]
  constructor
  · exact headOf_ends (by simpa using some)
  · intro p part proper blank
    exact proper (headOf_first (by decide) bytes part blank)

theorem connectRequest_whole (spelled : Spelled host bare) : Whole (connectRequest host port creds) := by
  rw [connectRequest_head]
  exact whole_headOf (by simp [connectLines]) (connectLines_headLine spelled)

/-- The request that `connect_request` writes, once it is read. -/
def chainedRequest (host bare : Text) (port : UInt16) (creds : Option Credentials) : ClientRequest :=
  ⟨.https, .httpConnect, bare, port, [], creds.map fun c => basicValue c.username c.password, authorityOf host port⟩

/-- The gate's value is read back from its line. -/
theorem credentialsLine_value (c : Credentials) :
    isHeader proxyAuthorization (credentialsLine c) = true ∧
      trim ((credentialsLine c).drop (proxyAuthorization.length + 1)) = basicValue c.username c.password := by
  have nonempty : base64Encode (utf8 (c.username ++ ':' :: c.password)) ≠ [] := by
    intro empty
    have none : base64Encode [] = [] := by decide
    have text := base64Encode_inj (empty.trans none.symm)
    have colon : ':' ∈ c.username ++ ':' :: c.password := by simp
    have byte := (cuts_utf8.mem_iff (a := ':') (by decide)).2 colon
    rw [text] at byte
    cases byte
  have spaced : (credentialsLine c).drop (proxyAuthorization.length + 1) = ' ' :: basicValue c.username c.password := rfl
  refine ⟨rfl, ?_⟩
  rw [spaced]
  apply trim_spaced
  · intro x front
    cases front
    decide
  · intro x back
    rw [basicValue_eq, List.getLast?_append_of_ne_nil _ nonempty] at back
    exact black_base64 _ x (List.mem_of_getLast? back)

theorem headerValue_connectRequest (spelled : Spelled host bare) :
    headerValue (connectRequest host port creds) proxyAuthorization = creds.map fun c => basicValue c.username c.password := by
  have clean : ∀ l ∈ connectLines host port creds, '\n' ∉ l := fun l mem => (connectLines_headLine spelled l mem).2
  have noHost : ¬ isHeader proxyAuthorization ("Host: ".toList ++ hostLine host) = true := by
    rw [show isHeader proxyAuthorization ("Host: ".toList ++ hostLine host) = false from rfl]
    simp
  have noAgent : ¬ isHeader proxyAuthorization "User-Agent: PxBroker/1.1.0/".toList = true := by decide
  have others : ["Connection: keep-alive".toList, []].find? (isHeader proxyAuthorization) = none := by decide
  rw [headerValue, connectRequest_head, lossy_utf8, lines_headOf clean]
  cases creds with
  | none =>
    have later : (connectLines host port none ++ [[]]).drop 1 =
        ("Host: ".toList ++ hostLine host) :: "User-Agent: PxBroker/1.1.0/".toList :: ["Connection: keep-alive".toList, []] := rfl
    rw [later, List.find?_cons_of_neg noHost, List.find?_cons_of_neg noAgent, others]
    rfl
  | some c =>
    obtain ⟨header, value⟩ := credentialsLine_value c
    have later : (connectLines host port (some c) ++ [[]]).drop 1 =
        ("Host: ".toList ++ hostLine host) :: "User-Agent: PxBroker/1.1.0/".toList :: credentialsLine c ::
          ["Connection: keep-alive".toList, []] := rfl
    rw [later, List.find?_cons_of_neg noHost, List.find?_cons_of_neg noAgent, List.find?_cons_of_pos header, Option.map_some,
      Option.map_some, value]

theorem parseHead_connectRequest (spelled : Spelled host bare) :
    parseHead (connectRequest host port creds) = some (chainedRequest host bare port creds) := by
  have clean : ∀ l ∈ connectLines host port creds, '\n' ∉ l := fun l mem => (connectLines_headLine spelled l mem).2
  obtain ⟨later, split⟩ : ∃ later, lines (fromUtf8Lossy (connectRequest host port creds)) =
      ("CONNECT".toList ++ ' ' :: (authorityOf host port ++ ' ' :: "HTTP/1.1".toList)) :: later := by
    rw [connectRequest_head, lossy_utf8, lines_headOf clean]
    have first : "CONNECT ".toList ++ authorityOf host port ++ " HTTP/1.1".toList =
        "CONNECT".toList ++ ' ' :: (authorityOf host port ++ ' ' :: "HTTP/1.1".toList) := by simp
    rw [← first]
    exact ⟨_, rfl⟩
  have nonempty : authorityOf host port ≠ [] := by simp [authorityOf]
  have words : splitWhitespace ("CONNECT".toList ++ ' ' :: (authorityOf host port ++ ' ' :: "HTTP/1.1".toList)) =
      ["CONNECT".toList, authorityOf host port, "HTTP/1.1".toList] := by
    have method : ∀ c ∈ "CONNECT".toList, isWhitespace c = false := black_of_all (by decide)
    rw [splitWhitespace_word (by decide) method (by decide),
      splitWhitespace_word nonempty (black_authorityOf spelled port) (by decide)]
    rfl
  have connect : eqIgnoreAsciiCase "CONNECT".toList "CONNECT".toList = true := by decide
  unfold parseHead
  rw [split]
  dsimp only
  rw [words]
  dsimp only
  rw [if_pos connect, splitHostPort_authorityOf spelled, headerValue_connectRequest spelled]
  rfl

/-- The credentials are those that the upper broker was configured with, if it was with any. -/
def Presents (auth : Option Text) (creds : Option Credentials) : Prop :=
  ∀ up ∈ auth, ∃ c ∈ creds, up = c.username ++ ':' :: c.password

theorem authPasses_chained (auth : Option Text) :
    authPasses (auth.map authExpect) (chainedRequest host bare port creds) = true ↔ Presents auth creds := by
  cases auth with
  | none => exact iff_of_true rfl (by simp [Presents])
  | some up =>
    cases creds with
    | none => simp [Presents, authPasses, chainedRequest]
    | some c =>
      rw [Option.map_some, @authPasses_basic up c.username c.password _ (by simp [chainedRequest]) rfl]
      simp [Presents]

theorem parse_chained (spelled : Spelled host bare) (short : (connectRequest host port creds).length ≤ 65537)
    (expected : Option AuthExpect) (payload : Bytes) (budget : Option Nat) :
    parseClientRequest expected ⟨connectRequest host port creds ++ payload, [], budget⟩ =
      (some (chainedRequest host bare port creds), ⟨payload, [], budget⟩) := by
  have whole : Whole (connectRequest host port creds) := connectRequest_whole spelled
  obtain ⟨rest, front⟩ := connectRequest_front host port creds
  have other : (connectRequest host port creds).head? ≠ some 0x05 := by
    rw [front]
    have letter : (ascii "CONNECT " ++ utf8 (authorityOf host port) ++ ascii " HTTP/1.1\r\n" ++ rest).head? = some 67 := rfl
    rw [letter]
    decide
  rw [parseClientRequest_buffered _ ⟨short, Or.inl whole.ends, whole.first⟩ other, parseHead_connectRequest spelled]

/-- **The request of a broker, read by a broker.** What `connect_request` writes is read as a tunnel to the same host and
port, with nothing taken of what follows it; the gate lets it pass exactly with the credentials of the upper broker. -/
theorem chained_request (spelled : Spelled host bare) (short : (connectRequest host port creds).length ≤ 65537)
    (auth : Option Text) (payload : Bytes) (budget : Option Nat) :
    ∃ req, parseClientRequest (auth.map authExpect) ⟨connectRequest host port creds ++ payload, [], budget⟩ =
        (some req, ⟨payload, [], budget⟩) ∧
      req.frontend = .httpConnect ∧ req.scheme = .https ∧ req.host = bare ∧ req.port = port ∧ req.raw = [] ∧
      (authPasses (auth.map authExpect) req = true ↔ Presents auth creds) :=
  ⟨chainedRequest host bare port creds, parse_chained spelled short _ payload budget, rfl, rfl, rfl, rfl, rfl,
    authPasses_chained auth⟩

/-- A name without white space, brackets and colons. -/
theorem spelled_h : Spelled ['h'] ['h'] := .name (by decide) (by simp; decide)

set_option maxRecDepth 4000 in
/-- A broker that is configured with `u:p` lets a broker with these credentials pass. -/
theorem chained_request_up :
    ∃ req, parseClientRequest (some (authExpect "u:p".toList))
        ⟨connectRequest ['h'] 443 (some ⟨['u'], ['p']⟩) ++ ascii "hi", [], none⟩ = (some req, ⟨ascii "hi", [], none⟩) ∧
      req.host = ['h'] ∧ authPasses (some (authExpect "u:p".toList)) req = true := by
  obtain ⟨req, parsed, -, -, named, -, -, gate⟩ :=
    @chained_request ['h'] ['h'] 443 (some ⟨['u'], ['p']⟩) spelled_h (by decide) (some "u:p".toList) (ascii "hi") none
  refine ⟨req, parsed, named, gate.2 ?_⟩
  intro up configured
  cases configured
  exact ⟨⟨['u'], ['p']⟩, rfl, rfl⟩

/-! ## The answer -/

namespace Negotiation

/-- The answer as `read_head` reads it, byte by byte. -/
def hears (bs : Bytes) : List Input := bs.map fun b => .net (.read [b])

/-- Where `http_connect` stands for `CONNECT:80` once it has sent its request and read `bs`. -/
def heard (bs : Bytes) : Negotiation := drive .connect80 (.answering []) (hears bs)

variable {reply head bs : Bytes}

/-- Up to the blank line nothing is decided. -/
theorem drive_unfinished (is : List Input) (short : (head ++ bs).length ≤ 8192)
    (unfinished : ∀ p, p <+: bs → p ≠ [] → ¬ crlfCrlf <:+ head ++ p) :
    drive .connect80 (.answering head) (hears bs ++ is) = drive .connect80 (.answering (head ++ bs)) is := by
  induction bs generalizing head with
  | nil => rw [List.append_nil]; rfl
  | cons b bs ih =>
    have open_ : ¬ crlfCrlf <:+ head ++ [b] := unfinished [b] ⟨bs, rfl⟩ (by simp)
    have size : (head ++ [b]).length ≤ 8192 := by
      rw [List.length_append, List.length_cons] at short
      rw [List.length_append, List.length_singleton]
      omega
    have on : readHead .connect80 (head ++ [b]) = .answering (head ++ [b]) := by
      rw [readHead, if_neg (by simpa [crlfCrlf] using open_), if_neg (by omega)]
    have whole : head ++ b :: bs = head ++ [b] ++ bs := by simp
    rw [whole] at short ⊢
    show drive .connect80 (readHead .connect80 (head ++ [b])) (hears bs ++ is) = _
    rw [on]
    refine ih short ?_
    intro p part some blank
    refine unfinished (b :: p) ((List.prefix_cons_inj b).2 part) (by simp) ?_
    rwa [List.append_assoc, List.singleton_append] at blank

/-- A part of a head leaves the negotiation waiting. -/
theorem heard_part (whole : Whole reply) (short : reply.length ≤ 8193) (part : bs <+: reply) (proper : bs ≠ reply) :
    heard bs = .answering bs := by
  have shorter : bs.length < reply.length := lt_of_le_of_ne part.length_le fun same => proper (part.eq_of_length same)
  have ran := @drive_unfinished [] bs [] (by rw [List.nil_append]; omega) ?_
  · rw [List.append_nil] at ran
    exact ran
  · intro p inside _ blank
    refine whole.first p (inside.trans part) ?_ blank
    rintro rfl
    exact absurd inside.length_le (by omega)

/-- A whole head decides it, by its status alone, and what follows is not read. -/
theorem heard_whole (whole : Whole reply) (short : reply.length ≤ 8193) (more : Bytes) :
    heard (reply ++ more) = if getStatusCode reply 9 12 ≠ 200 then .failed .badStatus else .opened := by
  obtain ⟨front, last, rfl⟩ : ∃ front last, reply = front ++ [last] := by
    obtain ⟨front, ends⟩ := whole.ends
    exact ⟨front ++ [13, 10, 13], 10, by rw [← ends]; simp [crlfCrlf]⟩
  rw [List.length_append, List.length_singleton] at short
  have read : hears (front ++ [last] ++ more) = hears front ++ (.net (.read [last]) :: hears more) := by simp [hears]
  have waits : drive .connect80 (.answering []) (hears front ++ (.net (.read [last]) :: hears more)) =
      drive .connect80 (.answering front) (.net (.read [last]) :: hears more) := by
    refine @drive_unfinished [] front _ (by rw [List.nil_append]; omega) ?_
    intro p inside _ blank
    refine whole.first p (inside.trans (List.prefix_append _ _)) ?_ blank
    rintro rfl
    have le := inside.length_le
    rw [List.length_append, List.length_singleton] at le
    omega
  have ends : [13, 10, 13, 10].isSuffixOf (front ++ [last]) = true := List.isSuffixOf_iff_suffix.2 whole.ends
  rw [heard, read, waits]
  show drive .connect80 (readHead .connect80 (front ++ [last])) (hears more) = _
  rw [readHead, if_pos ends]
  split
  · cases hears more <;> rfl
  · exact drive_opened _ _

/-- A negotiation opens with the last byte of a good head. -/
theorem heard_opened_iff (whole : Whole reply) (short : reply.length ≤ 8193) (good : getStatusCode reply 9 12 = 200)
    (more : Bytes) (n : Nat) : heard ((reply ++ more).take n) = .opened ↔ reply.length ≤ n := by
  by_cases all : reply.length ≤ n
  · have cut : (reply ++ more).take n = reply ++ more.take (n - reply.length) := by
      rw [List.take_append, List.take_of_length_le all]
    rw [cut, heard_whole whole short, good]
    simp [all]
  · have cut : (reply ++ more).take n = reply.take n := List.take_append_of_le_length (by omega)
    have proper : reply.take n ≠ reply := by
      intro same
      have size := congrArg List.length same
      rw [List.length_take] at size
      omega
    rw [cut, heard_part whole short (List.take_prefix n reply) proper]
    simp [all]

end Negotiation

theorem getStatusCode_front {front : Bytes} (long : 12 ≤ front.length) (more : Bytes) :
    getStatusCode (front ++ more) 9 12 = getStatusCode front 9 12 := by
  have stop : min 12 (front ++ more).length = 12 := by
    rw [List.length_append]
    omega
  have stop' : min 12 front.length = 12 := by omega
  simp only [getStatusCode, stop, stop', List.take_append_of_le_length long]

/-! ## The answers of a broker -/

theorem length_hostPort_le (p : Proxy) : (utf8 (hostPort p)).length ≤ 352 := by
  have host := length_display_le p.host
  have port : (showNat p.port.toNat).length ≤ 5 := by
    have lt := p.port.toNat_lt
    exact (Nat.length_toDigits_le_iff (by omega) (by omega)).2 (by omega)
  have text := length_utf8_le (hostPort p)
  have size : (hostPort p).length = p.host.display.length + 1 + (showNat p.port.toNat).length := by
    rw [hostPort, List.length_append, List.length_append, List.length_singleton]
  omega

/-- An answer that `read_head` reads whole, with its status. -/
structure Readable (reply : Bytes) (status : UInt16) : Prop where
  whole : Whole reply
  short : reply.length ≤ 8193
  status : getStatusCode reply 9 12 = status

/-- An answer of lines that do not depend on the request. -/
theorem readable_literal {reply : Bytes} {status : UInt16} (ls : List Text) (same : reply = utf8 (headOf '\r' '\n' ls))
    (some : ls ≠ []) (lines : ∀ l ∈ ls, HeadLine '\n' l) (short : reply.length ≤ 8193)
    (at_status : getStatusCode reply 9 12 = status) : Readable reply status :=
  ⟨same ▸ whole_headOf some lines, short, at_status⟩

theorem readable_authRequired : Readable authRequired 407 := by
  refine readable_literal
    ["HTTP/1.1 407 Proxy Authentication Required".toList, "Proxy-Authenticate: Basic realm=\"proxybroker\"".toList]
    ?_ (by simp) ?_ (by decide) (by decide)
  · rw [authRequired, ascii_utf8 (by decide)]
    rfl
  · intro l mem
    simp only [List.mem_cons, List.not_mem_nil, or_false] at mem
    rcases mem with rfl | rfl
    · exact ⟨by decide, by decide⟩
    · exact ⟨by decide, by decide⟩

theorem readable_noContent : Readable noContent 204 := by
  refine readable_literal ["HTTP/1.1 204 No Content".toList] ?_ (by simp) ?_ (by decide) (by decide)
  · rw [noContent, ascii_utf8 (by decide)]
    rfl
  · intro l mem
    obtain rfl := List.mem_singleton.1 mem
    exact ⟨by decide, by decide⟩

theorem readable_terminalFailure : Readable (terminalFailure .httpConnect) 502 := by
  refine readable_literal ["HTTP/1.1 502 Bad Gateway".toList] ?_ (by simp) ?_ (by decide) (by decide)
  · show ascii "HTTP/1.1 502 Bad Gateway\r\n\r\n" = _
    rw [ascii_utf8 (by decide)]
    rfl
  · intro l mem
    obtain rfl := List.mem_singleton.1 mem
    exact ⟨by decide, by decide⟩

theorem feed_not_hostPort (p : Proxy) : '\n' ∉ hostPort p := by
  rw [hostPort, List.mem_append, List.mem_append, not_or, not_or]
  exact ⟨⟨feed_not_black (bare_of_parse (parse_display p.host)).black, by decide⟩, not_mem_showNat (by decide) _⟩

theorem readable_connectAck (p : Proxy) : Readable (connectAck p) 200 := by
  have status : ascii "HTTP/1.1 200 Connection established\r\n" =
      utf8 "HTTP/1.1 200 Connection established".toList ++ [13, 10] := by
    rw [ascii_utf8 (by decide), show "HTTP/1.1 200 Connection established\r\n".toList =
      "HTTP/1.1 200 Connection established".toList ++ ['\r', '\n'] by decide, utf8_append]
    rfl
  have info : infoLine p = utf8 ("X-Proxy-Info: ".toList ++ hostPort p) ++ [13, 10] := by
    rw [infoLine, @ascii_utf8 "X-Proxy-Info: " (by decide), utf8_append]
    rfl
  have whole : connectAck p = utf8 (headOf '\r' '\n'
      ["HTTP/1.1 200 Connection established".toList, "X-Proxy-Info: ".toList ++ hostPort p]) := by
    rw [connectAck, status, info, utf8_headOf, List.append_assoc]
    rfl
  refine readable_literal _ whole (by simp) ?_ ?_ ?_
  · intro l mem
    simp only [List.mem_cons, List.not_mem_nil, or_false] at mem
    rcases mem with rfl | rfl
    · exact ⟨by decide, by decide⟩
    · refine ⟨by simp, ?_⟩
      rw [List.mem_append, not_or]
      exact ⟨by decide, feed_not_hostPort p⟩
  · have size := length_hostPort_le p
    have line : (ascii "HTTP/1.1 200 Connection established\r\n").length = 37 := by decide
    have front : (ascii "X-Proxy-Info: ").length = 14 := by decide
    have ends : (ascii "\r\n").length = 2 := by decide
    simp only [connectAck, infoLine, List.length_append, line, front, ends]
    omega
  · rw [connectAck, List.append_assoc, getStatusCode_front (by decide)]
    decide

/-- What a part of an answer tells. -/
theorem Readable.heard_part {reply bs : Bytes} {status : UInt16} (readable : Readable reply status) (part : bs <+: reply) :
    (bs = reply ∧ Negotiation.heard bs = if status ≠ 200 then .failed .badStatus else .opened) ∨
    (bs ≠ reply ∧ Negotiation.heard bs = .answering bs) := by
  by_cases all : bs = reply
  · have ran := Negotiation.heard_whole readable.whole readable.short []
    rw [List.append_nil, readable.status] at ran
    exact Or.inl ⟨all, all ▸ ran⟩
  · exact Or.inr ⟨all, Negotiation.heard_part readable.whole readable.short part all⟩

/-- A refusal never opens a tunnel. -/
theorem Readable.not_opened {reply bs : Bytes} {status : UInt16} (readable : Readable reply status) (refuses : status ≠ 200)
    (part : bs <+: reply) : Negotiation.heard bs ≠ .opened := by
  rcases readable.heard_part part with ⟨-, told⟩ | ⟨-, told⟩
  · rw [told, if_pos refuses]
    simp
  · rw [told]
    simp

/-! ## The upper broker -/

namespace Server.Handler
variable {ctx : ConnCtx} {reply : Bytes} {s t : State} {i : Input} {is : List Input}

/-- The handler answers with `reply` and does nothing else. -/
structure Dismissed (reply : Bytes) (s : State) : Prop where
  silent : s.attempts = []
  nothing : s.refusal = []
  answers : (∃ rest, (s.phase = .denying rest ∨ s.phase = .answering rest) ∧ s.preface ++ rest = reply) ∨
    (s.phase = .finished ∧ s.preface <+: reply ∧ (s.cut = false → s.preface = reply))

theorem dismissed_step (dismissed : Dismissed reply s) (h : step ctx s i = some t) : Dismissed reply t := by
  obtain ⟨silent, nothing, ⟨rest, at_s, split⟩ | ⟨at_s, -⟩⟩ := dismissed
  · have writes (n : Nat) : s.preface ++ rest.take n ++ rest.drop n = reply := by
      rw [List.append_assoc, List.take_append_drop, split]
    cases step_move h with
    | @deny _ n phase =>
      simp only [phase, Phase.denying.injEq, reduceCtorEq, or_false] at at_s
      exact ⟨silent, nothing, Or.inl ⟨_, Or.inl rfl, at_s ▸ writes n⟩⟩
    | @answer _ n phase =>
      simp only [phase, Phase.answering.injEq, reduceCtorEq, false_or] at at_s
      exact ⟨silent, nothing, Or.inl ⟨_, Or.inr rfl, at_s ▸ writes n⟩⟩
    | denied phase | answered phase =>
      obtain rfl : rest = [] := by simpa [phase] using at_s.symm
      rw [List.append_nil] at split
      exact ⟨silent, nothing, Or.inr ⟨rfl, split ▸ List.prefix_refl _, fun _ => split⟩⟩
    | denyCut phase | answerCut phase => exact ⟨silent, nothing, Or.inr ⟨rfl, ⟨rest, split⟩, by simp⟩⟩
    | dropped phase | parsed phase | remove phase | lookUp phase | resolve phase | starve phase | lease phase | rotate phase
    | relay phase | record phase | push phase | evict phase | notify phase | refuse phase | refused phase | refuseCut phase =>
      simp [phase] at at_s
  · have ended : step ctx s i = none := by
      unfold step
      rw [at_s]
    rw [ended] at h
    cases h

theorem dismissed_run (dismissed : Dismissed reply s) (h : run (step ctx) s is = some t) : Dismissed reply t :=
  run_preserves (fun _ _ _ inv next => dismissed_step inv next) dismissed h

theorem Dismissed.relays (dismissed : Dismissed reply s) : Handler.relays ctx s = [] := by
  have idle : ∀ sv p r, s.phase ≠ .relaying sv p r := by
    intro sv p r at_s
    rcases dismissed.answers with ⟨rest, phase, -⟩ | ⟨phase, -⟩
    · simp [at_s] at phase
    · simp [at_s] at phase
  unfold Handler.relays
  split
  · exact absurd ‹_› (idle _ _ _)
  · exact dismissed.silent

theorem Dismissed.sent (dismissed : Dismissed reply s) :
    Handler.sent ctx s <+: reply ∧ (s.phase = .finished → s.cut = false → Handler.sent ctx s = reply) := by
  have only : Handler.sent ctx s = s.preface := by simp [Handler.sent, dismissed.relays, dismissed.nothing]
  rw [only]
  rcases dismissed.answers with ⟨rest, phase, split⟩ | ⟨phase, part, whole⟩
  · refine ⟨⟨rest, split⟩, fun ended => ?_⟩
    simp [ended] at phase
  · exact ⟨part, fun _ => whole⟩

end Server.Handler

/-- A host that is spelled `proxycontrol` is the name. -/
theorem spelled_control (spelled : Spelled host "proxycontrol".toList) : host = "proxycontrol".toList := by
  have unread : parseIpAddr "proxycontrol".toList = none := by decide
  cases spelled with
  | literal parsed => rfl
  | bracketed parsed =>
    rw [unread] at parsed
    cases parsed
  | name => rfl

/-- A tunnel to the name of the control API asks for nothing. -/
theorem control_authority (peerIp : IpAddr) (port : UInt16) :
    control peerIp (authorityOf "proxycontrol".toList port) = .nothing := by
  have text : authorityOf "proxycontrol".toList port = "proxycontrol:".toList ++ showNat port.toNat := rfl
  have clean : '/' ∉ authorityOf "proxycontrol".toList port := by
    rw [text, List.mem_append, not_or]
    exact ⟨by decide, not_mem_showNat (by decide) _⟩
  have whole : splitN '/' 3 (authorityOf "proxycontrol".toList port) = [authorityOf "proxycontrol".toList port] := by
    rcases splitOnce_cases '/' (authorityOf "proxycontrol".toList port) with ⟨none, -⟩ | ⟨l, r, -, split, -⟩
    · rw [splitN, none]
    · rw [split] at clean
      simp at clean
  have relative : stripPrefix "http://proxycontrol".toList (authorityOf "proxycontrol".toList port) = none := rfl
  have front : (authorityOf "proxycontrol".toList port).dropWhile (· = '/') = authorityOf "proxycontrol".toList port := rfl
  unfold Server.control
  rw [relative, Option.getD_none, front]
  dsimp only
  rw [whole]

namespace Server.Handler
variable {ctx : ConnCtx} {s : State} {is : List Input} {auth : Option Text} {payload : Bytes} {budget : Option Nat}

/-- **What becomes of a broker's request at a broker**: it is not read yet, or it is dismissed with a refusal, or it has the
credentials and is served. -/
theorem chained_cases (spelled : Spelled host bare) (short : (connectRequest host port creds).length ≤ 65537)
    (expected : ctx.expectedAuth = auth.map authExpect)
    (h : run (step ctx) (accept (connectRequest host port creds ++ payload) budget) is = some s) :
    s = accept (connectRequest host port creds ++ payload) budget ∨
    (∃ reply status, Readable reply status ∧ status ≠ 200 ∧ Dismissed reply s) ∨
    (Presents auth creds ∧ bare ≠ "proxycontrol".toList ∧
      ∃ js, run (step ctx) (admitted (chainedRequest host bare port creds) payload []) js = some s) := by
  have parsed := parse_chained spelled short (auth.map authExpect) payload budget
  have gate := @authPasses_chained host bare port creds auth
  cases is with
  | nil =>
    cases h
    exact Or.inl rfl
  | cons i is =>
    obtain ⟨t, first, rest⟩ := run_cons_iff.1 h
    cases i
    case parse =>
      simp only [step, accept, expected, parsed] at first
      cases first
      by_cases passes : authPasses ctx.expectedAuth (chainedRequest host bare port creds) = true
      · have presents := gate.1 (expected ▸ passes)
        by_cases api : bare = "proxycontrol".toList
        · obtain rfl := api
          obtain rfl := spelled_control spelled
          have quiet : dispatch ctx (chainedRequest "proxycontrol".toList "proxycontrol".toList port creds) =
              .answering noContent := by
            have named : (chainedRequest "proxycontrol".toList "proxycontrol".toList port creds).host = "proxycontrol".toList := rfl
            have path : (chainedRequest "proxycontrol".toList "proxycontrol".toList port creds).path =
                authorityOf "proxycontrol".toList port := rfl
            rw [dispatch, if_pos passes, if_pos named, path, control_authority]
          rw [quiet] at rest
          exact Or.inr (Or.inl ⟨noContent, 204, readable_noContent, by decide,
            dismissed_run ⟨rfl, rfl, Or.inl ⟨noContent, Or.inr rfl, rfl⟩⟩ rest⟩)
        · have served : dispatch ctx (chainedRequest host bare port creds) = .resolving (chainedRequest host bare port creds) := by
            have other : (chainedRequest host bare port creds).host ≠ "proxycontrol".toList := api
            rw [dispatch, if_pos passes, if_neg other]
          rw [served] at rest
          exact Or.inr (Or.inr ⟨presents, api, is, rest⟩)
      · have denied : dispatch ctx (chainedRequest host bare port creds) = .denying authRequired := by
          rw [dispatch, if_neg passes]
        rw [denied] at rest
        exact Or.inr (Or.inl ⟨authRequired, 407, readable_authRequired, by decide,
          dismissed_run ⟨rfl, rfl, Or.inl ⟨authRequired, Or.inl rfl, rfl⟩⟩ rest⟩)
    all_goals simp [step, accept] at first

/-- What an attempt at a broker's request has written, and where it leads. -/
theorem chained_attempt {js : List Input} (served : run (step ctx) (admitted (chainedRequest host bare port creds) payload []) js = some s)
    {a : Attempt} (mem : a ∈ relays ctx s) :
    (∃ ip, a.job.target = ⟨bare, ip, port⟩) ∧ a.relay.upWritten <+: payload ∧
      (a.relay.spliced = true → connectAck a.job.proxy <+: sent ctx s) := by
  obtain ⟨sv, proxy, ks, ⟨same, ip, target⟩, job, ran⟩ := calls_run served a mem
  have front : a.job.frontend = .httpConnect := (relays_serve (commits_run served) a mem).frontend
  have tunnel : a.job.frontend ≠ .httpForward := by simp [front]
  refine ⟨⟨ip, ?_⟩, ?_, ?_⟩
  · rw [job]
    exact target
  · have written := (Relay.up_run ran).written
    rwa [Relay.request_tunnel tunnel, List.nil_append] at written
  · intro spliced
    have acked := (Relay.tunnel_run tunnel ran).2 spliced
    have ack : Relay.output id a.job [] = connectAck a.job.proxy := by simp [Relay.output, front]
    rw [ack] at acked
    rw [sent_committed served mem (Relay.committed_of_spliced spliced), List.nil_append]
    exact acked

/-- How a handler ends: everything was refused, or the last attempt was relayed and settled. -/
theorem finished_cases {req : ClientRequest} {unread preface : Bytes} {js : List Input}
    (served : run (step ctx) (admitted req unread preface) js = some s) (ended : s.phase = .finished) :
    (Silent (relays ctx s) ∧ s.refusal <+: terminalFailure req.frontend ∧ (s.cut = false → s.refusal = terminalFailure req.frontend)) ∨
      (Relayed ctx req s ∧ Settled (relays ctx s)) := by
  have inv := commits_run served
  have now := inv.2
  have idle : relays ctx s = s.attempts := by simp only [relays, ended]
  rw [ended] at now
  rw [idle]
  rcases now with refused | ⟨settled, nothing⟩
  · exact .inl refused
  · exact .inr ⟨relayed_of_settled inv idle settled nothing, settled⟩

/-- What a broker sends while it serves a broker's request: a part of one refusal, or of one acknowledgement and what
that attempt's upstream sends. -/
theorem chained_sent {js : List Input} (served : run (step ctx) (admitted (chainedRequest host bare port creds) payload []) js = some s) :
    sent ctx s <+: terminalFailure .httpConnect ∨
    ∃ a ∈ relays ctx s, sent ctx s <+: connectAck a.job.proxy ++ a.relay.upRead := by
  rcases commits_dichotomy (commits_run served) with ⟨silent, part⟩ | ⟨nothing, earlier, last, split, silent, front, -, written⟩
  · refine Or.inl ?_
    rw [sent, preface_run served, flatMap_silent silent]
    exact part
  · refine Or.inr ⟨last, by simp [split], ?_⟩
    have only : sent ctx s = last.relay.clientWritten := by
      rw [sent, preface_run served, nothing, split, List.flatMap_append, flatMap_silent silent]
      simp
    have out : Relay.output id last.job last.relay.upRead = connectAck last.job.proxy ++ last.relay.upRead := by
      rw [Relay.output, front]
      rfl
    rw [only, ← out]
    exact written

/-- **Brokers in a chain.** In every run of the upper broker on a lower broker's request, however it is interleaved with
what the lower one reads: the lower one takes the tunnel for open only with the upper one's credentials and after the
last byte of the acknowledgement of an attempt at that very target, and from there on it has exactly what that attempt's
upstream sends, while the upstream is sent a part of its payload; once an attempt tunnels, the lower broker knows with
the last byte of the acknowledgement; and a connection that has run to its end without a write error leaves the lower
broker with an open tunnel or with a bad status. -/
theorem chained_tunnel (spelled : Spelled host bare) (short : (connectRequest host port creds).length ≤ 65537)
    (expected : ctx.expectedAuth = auth.map authExpect)
    (h : run (step ctx) (accept (connectRequest host port creds ++ payload) budget) is = some s) :
    (∀ n, Negotiation.heard ((sent ctx s).take n) = .opened →
      Presents auth creds ∧ ∃ a ∈ relays ctx s, ∃ ip toClient, a.job.target = ⟨bare, ip, port⟩ ∧
        sent ctx s = connectAck a.job.proxy ++ toClient ∧ (connectAck a.job.proxy).length ≤ n ∧
        toClient <+: a.relay.upRead ∧ a.relay.upWritten <+: payload) ∧
    (∀ a ∈ relays ctx s, a.relay.spliced = true →
      ∀ n, Negotiation.heard ((sent ctx s).take n) = .opened ↔ (connectAck a.job.proxy).length ≤ n) ∧
    (s.phase = .finished → s.cut = false → (∀ a ∈ relays ctx s, a.relay.phase ≠ .done .clientGone) →
      Negotiation.heard (sent ctx s) = .opened ∨ Negotiation.heard (sent ctx s) = .failed .badStatus) := by
  have opens {a : Attempt} {toClient : Bytes} (told : sent ctx s = connectAck a.job.proxy ++ toClient) (n : Nat) :
      Negotiation.heard ((sent ctx s).take n) = .opened ↔ (connectAck a.job.proxy).length ≤ n := by
    have ack := readable_connectAck a.job.proxy
    rw [told]
    exact Negotiation.heard_opened_iff ack.whole ack.short ack.status toClient n
  rcases chained_cases spelled short expected h with rfl | ⟨reply, status, readable, refuses, dismissed⟩ |
    ⟨presents, -, js, served⟩
  · have quiet : sent ctx (accept (connectRequest host port creds ++ payload) budget) = [] := rfl
    refine ⟨fun n opened => ?_, fun a mem => ?_, fun ended => by cases ended⟩
    · rw [quiet, List.take_nil] at opened
      cases opened
    · cases mem
  · have none : relays ctx s = [] := dismissed.relays
    obtain ⟨part, whole⟩ := @Dismissed.sent ctx _ _ dismissed
    refine ⟨fun n opened => ?_, fun a mem => ?_, fun ended complete _ => Or.inr ?_⟩
    · exact absurd opened (readable.not_opened refuses ((List.take_prefix _ _).trans part))
    · rw [none] at mem
      cases mem
    · have all := whole ended complete
      rcases readable.heard_part part with ⟨-, told⟩ | ⟨differs, -⟩
      · rw [told, if_pos refuses]
      · exact absurd all differs
  · have refusal := readable_terminalFailure
    refine ⟨fun n opened => ⟨presents, ?_⟩, fun a mem spliced => ?_, fun ended complete stayed => ?_⟩
    · rcases chained_sent served with part | ⟨a, mem, part⟩
      · exact absurd opened (refusal.not_opened (by decide) ((List.take_prefix _ _).trans part))
      · obtain ⟨⟨ip, target⟩, payload_part, -⟩ := chained_attempt served mem
        have ack := readable_connectAck a.job.proxy
        rcases List.prefix_or_prefix_of_prefix part (List.prefix_append _ _) with inside | ⟨toClient, told⟩
        · -- a part of the acknowledgement opens only as a whole
          have cut : (sent ctx s).take n <+: connectAck a.job.proxy := (List.take_prefix _ _).trans inside
          have all : (sent ctx s).take n = connectAck a.job.proxy := by
            rcases ack.heard_part cut with ⟨all, -⟩ | ⟨-, told⟩
            · exact all
            · rw [told] at opened
              cases opened
          have whole : sent ctx s = connectAck a.job.proxy :=
            inside.eq_of_length_le (all ▸ (List.take_prefix n (sent ctx s)).length_le)
          have told : sent ctx s = connectAck a.job.proxy ++ [] := by rw [whole, List.append_nil]
          exact ⟨a, mem, ip, [], target, told, (opens told n).1 opened, List.nil_prefix, payload_part⟩
        · have rest : toClient <+: a.relay.upRead := by
            rwa [← told, List.prefix_append_right_inj] at part
          exact ⟨a, mem, ip, toClient, target, told.symm, (opens told.symm n).1 opened, rest, payload_part⟩
    · obtain ⟨toClient, told⟩ := (chained_attempt served mem).2.2 spliced
      exact opens told.symm
    · rcases finished_cases served ended with ⟨silent, -, complete'⟩ | ⟨-, earlier, last, o, split, -, done, final⟩
      · right
        have all : sent ctx s = terminalFailure .httpConnect := by
          rw [sent, preface_run served, flatMap_silent silent]
          exact complete' complete
        have part : sent ctx s <+: terminalFailure .httpConnect := by rw [all]
        rcases refusal.heard_part part with ⟨-, told⟩ | ⟨differs, -⟩
        · rw [told, if_pos (by decide)]
        · exact absurd all differs
      · left
        have mem : last ∈ relays ctx s := by simp [split]
        have spliced : last.relay.spliced = true := by
          rw [Relay.State.spliced, done]
          cases o with
          | retryableFailure e => exact absurd rfl (final e)
          | clientGone => exact absurd done (stayed last mem)
          | ok => rfl
          | clientCommitted e => rfl
        obtain ⟨toClient, told⟩ := (chained_attempt served mem).2.2 spliced
        have opened := (opens told.symm (sent ctx s).length).2 (by rw [← told, List.length_append]; omega)
        rwa [List.take_length] at opened

set_option maxRecDepth 4000 in
/-- The lower broker of `tunnelledRun` knows with the last byte of the acknowledgement. -/
theorem chained_tunnel_connect : ∃ s a,
    run (step onlyOk) (accept (connectRequest ['h'] 443 none ++ ascii "hi") none) tunnelledRun = some s ∧ relays onlyOk s = [a] ∧
    ∀ n, Negotiation.heard ((sent onlyOk s).take n) = .opened ↔ (connectAck a.job.proxy).length ≤ n := by
  have ran : ∃ s a, run (step onlyOk) (accept (connectRequest ['h'] 443 none ++ ascii "hi") none) tunnelledRun = some s ∧
      relays onlyOk s = [a] ∧ a.relay.spliced = true := ⟨_, _, rfl, rfl, rfl⟩
  obtain ⟨s, a, ran, only, spliced⟩ := ran
  exact ⟨s, a, ran, only, (@chained_tunnel ['h'] ['h'] 443 none onlyOk s _ none _ none spelled_h (by decide) rfl ran).2.1 a (by simp [only]) spliced⟩

end Server.Handler

end ProxyBroker
