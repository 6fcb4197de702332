import ProxyBroker.Checker.Anonymity
import ProxyBroker.Checker.Check
import ProxyBroker.Checker.Request
import ProxyBroker.Lib.Head

/-!
# What the checker reads in an answer (`checker.rs`: the second half of `attempt`)

`exchangeReply` goes from the bytes of an answer to the reply that `Checker.attempt` decides on: `split_head_body`, the
status, `decompress`, the validity of the page, and `TrustReport::assess`. The decoders of `flate2` and
`str::to_lowercase` are given.

`echo` is a judge that writes back the headers it received and the address it saw. `echo_judged` says how a proxy is
graded that stands between the checker and such a judge, by what it did to the request.
-/

namespace ProxyBroker.Checker
open Lib

/-- What is not in the source: the digits of the regular expressions, the lower case, and the decoders of `flate2`. -/
structure Decoders where
  digits : Parse.DigitClass
  toLowercase : Text → Text
  gunzip : Bytes → Option Text
  inflate : Bytes → Option Text

/-- What `attempt` reads of the checker to judge a page. -/
structure Settings where
  relaxedValidity : Bool
  trustCheck : Bool
  realExtIps : List IpAddr

/-- `split_head_body`. -/
def splitHeadBody (raw : Bytes) : Bytes × Bytes := (splitOnceAt [13, 10, 13, 10] raw).getD (raw, [])

/-- The encoding that the head names. -/
def contentEncoding (o : Decoders) (head : Bytes) : Option Text :=
  ((lines (o.toLowercase (fromUtf8Lossy head))).findSome? (stripPrefix "content-encoding:".toList)).map trim

/-- `decompress`. -/
def decompress (o : Decoders) (head body : Bytes) : Text :=
  let decoded :=
    if contentEncoding o head = some "gzip".toList then o.gunzip body
    else if contentEncoding o head = some "deflate".toList then o.inflate body
    else none
  decoded.getD (fromUtf8Lossy body)

/-- `caps_from_content`. -/
def capsFromContent (content : Text) : Caps :=
  ⟨decide ("cookie=ok".toList <:+: content), decide ("https://www.google.com/".toList <:+: content)⟩

/-- `response_is_valid`. -/
def responseIsValid (d : Parse.DigitClass) (content marker : Text) : Bool :=
  let caps := capsFromContent content
  decide (marker <:+: content) && decide (getAllIp d content ≠ ∅) && caps.refererEcho && caps.cookieEcho

/-! ## Trust -/

/-- `BENIGN`. -/
def benign : List Text := ["host".toList, "connection".toList, "content-length".toList, "x-forwarded-for".toList, "via".toList]

/-- A header name that was not sent. -/
def foreign (sent : List Text) (name : Text) : Bool :=
  let name := toAsciiLowercase (trim name)
  !name.isEmpty && name.all (fun c => c.isAlphanum || c == '-') && !sent.contains name && !benign.contains name

/-- A line that looks like a header that was not sent. -/
def injected (sent : List Text) (line : Text) : Bool :=
  match splitOnceAt ": ".toList line with
  | some (name, _) => foreign sent name
  | none => false

/-- `TrustReport::assess`. -/
def assess (sentHeaderNames : List Text) (canary content : Text) : List TrustSignal :=
  let sent := sentHeaderNames.map toAsciiLowercase
  (if canary <:+: content then [] else [.canaryMismatch]) ++ if (lines content).any (injected sent) then [.injectedHeader] else []

/-- `sent_header_names`. -/
def sentHeaderNames : List Text :=
  (requestHeaders none).map Prod.fst ++ ["Host".toList, "Connection".toList, "Content-Length".toList]

/-! ## The answer -/

/-- What a `200` page shows. -/
def page (s : Settings) (o : Decoders) (judge : Judge) (marker content : Text) : Page where
  valid :=
    if s.relaxedValidity then decide (marker <:+: content) && decide (getAllIp o.digits content ≠ ∅)
    else responseIsValid o.digits content marker
  level := anonymityLevel o.digits o.toLowercase s.realExtIps content judge
  caps := capsFromContent content
  trust := if s.trustCheck then assess sentHeaderNames marker content else []

/-- `read_response`, and what `attempt` makes of it: the reply to the request with this marker. -/
def exchangeReply (s : Settings) (o : Decoders) (judge : Judge) (marker : Text) (raw : Bytes) : Reply :=
  if raw = [] then .failed .emptyRecv
  else
    let (head, body) := splitHeadBody raw
    if getStatusCode head 9 12 ≠ 200 then .failed .badStatus else .answered (page s o judge marker (decompress o head body))

/-! ## A judge that echoes -/

/-- A header as it is echoed. -/
def headerLine (h : Text × Text) : Text := h.1 ++ ": ".toList ++ h.2

/-- The page of a judge that received these headers from this address. -/
def echoPage (received : List (Text × Text)) (peer : IpAddr) : Text :=
  (received.flatMap fun h => headerLine h ++ ['\n']) ++ (peer.display ++ ['\n'])

/-- Its answer. -/
def echo (received : List (Text × Text)) (peer : IpAddr) : Bytes :=
  ascii "HTTP/1.1 200 OK\r\nContent-Type: text/plain\r\n\r\n" ++ utf8 (echoPage received peer)

/-- A header of one line, with no colon in its name. -/
structure Clean (h : Text × Text) : Prop where
  colon : ':' ∉ h.1
  name : '\n' ∉ h.1 ∧ '\r' ∉ h.1
  value : '\n' ∉ h.2 ∧ '\r' ∉ h.2

variable {H : List (Text × Text)} {h : Text × Text} {peer : IpAddr} {sent : List Text}

/-- An echoed header is judged by its name. -/
theorem injected_headerLine (clean : Clean h) : injected sent (headerLine h) = foreign sent h.1 := by
  unfold injected headerLine
  have cut : splitOnceAt ": ".toList (h.1 ++ ": ".toList ++ h.2) = some (h.1, h.2) := splitOnceAt_fresh clean.colon h.2
  rw [cut]

/-- The line with the address is no header. -/
theorem injected_display (peer : IpAddr) : injected sent peer.display = false := by
  unfold injected
  cases cut : splitOnceAt ": ".toList peer.display with
  | none => rfl
  | some r =>
    have blank : ' ' ∈ peer.display := by
      rw [splitOnceAt_some cut]
      simp
    exact absurd blank (not_mem_display (by decide) peer)

theorem stripEol_line {l : Text} (clean : '\r' ∉ l) : stripEol (l ++ ['\n']) = l := by
  rw [stripEol, stripSuffix_some.2 rfl]
  cases stripped : stripSuffix ['\r'] l with
  | none => simp [stripped]
  | some r =>
    have whole := stripSuffix_some.1 stripped
    exact absurd (by rw [whole]; simp) clean

theorem lines_cons {l : Text} (one : '\n' ∉ l) (clean : '\r' ∉ l) (t : Text) : lines (l ++ ['\n'] ++ t) = l :: lines t := by
  rw [lines, List.append_assoc, List.singleton_append, splitInclusive_piece one, List.map_cons, stripEol_line clean]
  rfl

theorem Clean.line (clean : Clean h) : '\n' ∉ headerLine h ∧ '\r' ∉ headerLine h := by
  obtain ⟨feed, ret⟩ := clean.name
  obtain ⟨feed', ret'⟩ := clean.value
  constructor
  all_goals
    simp only [headerLine, List.mem_append, not_or]
    exact ⟨⟨by assumption, by decide⟩, by assumption⟩

/-- The lines of the page. -/
theorem lines_echoPage (clean : ∀ h ∈ H, Clean h) (peer : IpAddr) : lines (echoPage H peer) = H.map headerLine ++ [peer.display] := by
  induction H with
  | nil =>
    have one := lines_cons (not_mem_display (by decide) peer) (not_mem_display (by decide) peer) []
    rw [List.append_nil] at one
    exact one
  | cons h H ih =>
    have here := (clean h List.mem_cons_self).line
    have rest := ih fun g mem => clean g (List.mem_cons_of_mem h mem)
    have split : echoPage (h :: H) peer = headerLine h ++ ['\n'] ++ echoPage H peer := by
      rw [echoPage, echoPage, List.flatMap_cons, List.append_assoc]
    rw [split, lines_cons here.1 here.2, rest]
    rfl

/-! ## What it says of the proxy -/

/-- What is known of `str::to_lowercase`. -/
structure Lowers (toLowercase : Text → Text) : Prop where
  ascii : ∀ t : Text, (∀ c ∈ t, c.toNat < 0x80) → toLowercase t = toAsciiLowercase t
  blank : ∀ (t t' : Text) (c : Char), c = ' ' ∨ c = '\n' → toLowercase (t ++ c :: t') = toLowercase t ++ c :: toLowercase t'

variable {o : Decoders} {s : Settings} {judge : Judge} {marker : Text} {post : Bool} {proto : Proto}

theorem delimiter_blank (d : Parse.DigitClass) {c : Char} (blank : c = ' ' ∨ c = '\n') : Delimiter d c := by
  rcases blank with rfl | rfl
  · exact ⟨d.ascii ' ' (by decide), by decide, by decide⟩
  · exact ⟨d.ascii '\n' (by decide), by decide, by decide⟩

/-- A header stands on the page between its neighbours. -/
theorem echoPage_header (mem : h ∈ H) (peer : IpAddr) : ∃ before after, echoPage H peer = before ++ headerLine h ++ '\n' :: after := by
  obtain ⟨front, back, rfl⟩ := List.append_of_mem mem
  refine ⟨front.flatMap fun h => headerLine h ++ ['\n'], echoPage back peer, ?_⟩
  simp [echoPage]

/-- A value is preceded by a blank and ends its line. -/
theorem echoPage_value (mem : h ∈ H) (peer : IpAddr) : ∃ before after, echoPage H peer = before ++ ' ' :: h.2 ++ '\n' :: after := by
  obtain ⟨before, after, whole⟩ := echoPage_header mem peer
  refine ⟨before ++ h.1 ++ [':'], after, ?_⟩
  rw [whole, headerLine]
  simp

/-- The address is a line of its own. -/
theorem echoPage_peer (H : List (Text × Text)) (peer : IpAddr) :
    ∃ before, echoPage H peer = before ++ (peer.display ++ ['\n']) ∧ (before = [] ∨ ∃ front, before = front ++ ['\n']) := by
  refine ⟨H.flatMap fun h => headerLine h ++ ['\n'], rfl, ?_⟩
  rcases List.eq_nil_or_concat' H with rfl | ⟨front, last, rfl⟩
  · exact .inl rfl
  · exact .inr ⟨(front.flatMap fun h => headerLine h ++ ['\n']) ++ headerLine last, by simp⟩

/-- The canonical text of an address is in lower case. -/
theorem lower_display (ip : IpAddr) : toAsciiLowercase ip.display = ip.display := by
  have same : ∀ c ∈ ip.display, lowerChar c = id c := by
    intro c mem
    rcases mem_display mem with rfl | rfl | ⟨n, lt, rfl⟩
    · decide
    · decide
    · have digits : ∀ n < 16, lowerChar n.digitChar = n.digitChar := by decide
      exact digits n lt
  rw [toAsciiLowercase, List.map_congr_left same, List.map_id]

theorem ascii_display (ip : IpAddr) : ∀ c ∈ ip.display, c.toNat < 0x80 := by
  intro c mem
  rcases mem_display mem with rfl | rfl | ⟨n, lt, rfl⟩
  · decide
  · decide
  · have digits : ∀ n < 16, n.digitChar.toNat < 0x80 := by decide
    exact digits n lt

/-- A page that shows a real address, after a blank or in front, and up to the end of the line. -/
theorem transparent_of_shown (lowers : Lowers o.toLowercase) {ip : IpAddr} (real : ip ∈ s.realExtIps) {page before after : Text}
    (whole : page = before ++ (ip.display ++ '\n' :: after)) (left : before = [] ∨ ∃ front c, (c = ' ' ∨ c = '\n') ∧ before = front ++ [c]) :
    anonymityLevel o.digits o.toLowercase s.realExtIps page judge = .transparent := by
  have right : ∀ c ∈ ('\n' :: o.toLowercase after).head?, Delimiter o.digits c := by
    intro next at_next
    obtain rfl : '\n' = next := by simpa using at_next
    exact delimiter_blank o.digits (.inr rfl)
  have display := lowers.ascii _ (ascii_display ip)
  rw [lower_display] at display
  rw [anonymityLevel]
  apply if_pos
  apply realVisible_of_leak real
  rcases left with rfl | ⟨front, c, c_blank, rfl⟩
  · refine ⟨[], '\n' :: o.toLowercase after, ?_, by simp, right⟩
    rw [whole, List.nil_append, lowers.blank _ _ '\n' (.inr rfl), display, List.nil_append]
  · refine ⟨o.toLowercase front ++ [c], '\n' :: o.toLowercase after, ?_, ?_, right⟩
    · rw [whole, List.append_assoc, List.singleton_append, lowers.blank _ _ c c_blank, lowers.blank _ _ '\n' (.inr rfl), display]
      simp
    · intro last at_last
      obtain rfl : c = last := by simpa using at_last
      exact delimiter_blank o.digits c_blank

/-- The page shows an address. -/
theorem getAllIp_echoPage (H : List (Text × Text)) (peer : IpAddr) : getAllIp o.digits (echoPage H peer) ≠ ∅ := by
  obtain ⟨before, whole, left⟩ := echoPage_peer H peer
  apply Finset.ne_empty_of_mem (a := peer.display)
  rw [whole]
  apply mem_getAllIp
  · rcases left with rfl | ⟨front, rfl⟩
    · simp
    · intro last at_last
      obtain rfl : '\n' = last := by simpa using at_last
      exact delimiter_blank o.digits (.inr rfl)
  · intro next at_next
    obtain rfl : '\n' = next := by simpa using at_next
    exact delimiter_blank o.digits (.inr rfl)

/-- A text is in a line of the page. -/
def Passed (H : List (Text × Text)) (peer : IpAddr) (t : Text) : Prop := ∃ l ∈ H.map headerLine ++ [peer.display], t <:+: l

theorem infix_echoPage {t : Text} (clean : '\n' ∉ t) : t <:+: echoPage H peer ↔ Passed H peer t := by
  have page : echoPage H peer = (H.map headerLine ++ [peer.display]).flatMap fun l => l ++ ['\n'] := by
    rw [List.flatMap_append, List.flatMap_map, List.flatMap_singleton]
    rfl
  rw [page, infix_lines (by simp) clean]
  rfl

/-- The headers of the request have names that were sent. -/
theorem not_foreign_sent (mem : h ∈ (buildRequest post marker judge proto).headers) :
    foreign (sentHeaderNames.map toAsciiLowercase) h.1 = false := by
  have names : (buildRequest post marker judge proto).headers.map Prod.fst = sentHeaderNames := rfl
  have all : ∀ n ∈ sentHeaderNames, foreign (sentHeaderNames.map toAsciiLowercase) n = false := by decide
  apply all
  rw [← names]
  exact List.mem_map_of_mem mem

/-- A header that was added and counts as injected. -/
def Added (post : Bool) (marker : Text) (judge : Judge) (proto : Proto) (h : Text × Text) : Prop :=
  h ∉ (buildRequest post marker judge proto).headers ∧ foreign (sentHeaderNames.map toAsciiLowercase) h.1 = true

/-- The lines of the page that look like headers that were not sent. -/
theorem injected_echoPage (clean : ∀ h ∈ H, Clean h) (peer : IpAddr) :
    (lines (echoPage H peer)).any (injected (sentHeaderNames.map toAsciiLowercase)) = true ↔ ∃ h ∈ H, Added post marker judge proto h := by
  rw [lines_echoPage clean, List.any_eq_true]
  constructor
  · rintro ⟨l, mem, new⟩
    rcases List.mem_append.1 mem with header | last
    · obtain ⟨h, at_h, rfl⟩ := List.mem_map.1 header
      rw [injected_headerLine (clean h at_h)] at new
      refine ⟨h, at_h, ?_, new⟩
      intro sent
      rw [not_foreign_sent sent] at new
      cases new
    · obtain rfl := List.mem_singleton.1 last
      rw [injected_display] at new
      cases new
  · rintro ⟨h, at_h, -, new⟩
    refine ⟨headerLine h, List.mem_append_left _ (List.mem_map_of_mem at_h), ?_⟩
    rw [injected_headerLine (clean h at_h), new]

/-! ## The answer as bytes -/

/-- The head of the answer. -/
def echoHead : Bytes := ascii "HTTP/1.1 200 OK\r\nContent-Type: text/plain"

theorem splitHeadBody_echo (H : List (Text × Text)) (peer : IpAddr) :
    splitHeadBody (echo H peer) = (echoHead, utf8 (echoPage H peer)) := by
  have lines : ∀ l ∈ [ascii "HTTP/1.1 200 OK", ascii "Content-Type: text/plain"], HeadLine (10 : UInt8) l := by
    unfold HeadLine
    decide
  obtain ⟨head, ends, cut⟩ := splitOnceAt_headOf (c := 13) (by decide) lines (by decide) (utf8 (echoPage H peer))
  have written : headOf 13 10 [ascii "HTTP/1.1 200 OK", ascii "Content-Type: text/plain"] = echoHead ++ [13, 10, 13, 10] := by decide
  rw [written] at ends cut
  obtain rfl := List.append_cancel_right ends
  have whole : echo H peer = echoHead ++ [13, 10, 13, 10] ++ utf8 (echoPage H peer) := by
    have front : ascii "HTTP/1.1 200 OK\r\nContent-Type: text/plain\r\n\r\n" = echoHead ++ [13, 10, 13, 10] := by decide
    rw [echo, front]
  rw [splitHeadBody, whole, cut]
  rfl

/-- The page is not compressed. -/
theorem decompress_echo (lowers : Lowers o.toLowercase) (H : List (Text × Text)) (peer : IpAddr) :
    decompress o echoHead (utf8 (echoPage H peer)) = echoPage H peer := by
  have small : ("HTTP/1.1 200 OK\r\nContent-Type: text/plain".toList.all fun c => decide (c.toNat < 0x80)) = true := by decide
  have head : fromUtf8Lossy echoHead = "HTTP/1.1 200 OK\r\nContent-Type: text/plain".toList := by
    rw [echoHead, ascii_utf8 small, lossy_utf8]
  have plain : contentEncoding o echoHead = none := by
    rw [contentEncoding, head, lowers.ascii]
    · decide
    · exact fun c mem => of_decide_eq_true (List.all_eq_true.1 small c mem)
  rw [decompress, plain, if_neg (by simp), if_neg (by simp), Option.getD_none, lossy_utf8]

/-! ## The verdict -/

/-- The headers and the address let the check pass. -/
def Valid (s : Settings) (marker : Text) (H : List (Text × Text)) (peer : IpAddr) : Prop :=
  Passed H peer marker ∧
    (s.relaxedValidity = true ∨ Passed H peer "https://www.google.com/".toList ∧ Passed H peer "cookie=ok".toList)

/-- The verdict on a proxy whose requests reach the judge with these headers, from this address. -/
structure Graded (s : Settings) (post : Bool) (marker : Text) (judge : Judge) (proto : Proto) (H : List (Text × Text)) (peer : IpAddr)
    (obs : Observation) : Prop where
  cookie : obs.caps.cookieEcho = true ↔ Passed H peer "cookie=ok".toList
  referer : obs.caps.refererEcho = true ↔ Passed H peer "https://www.google.com/".toList
  leveled : obs.level.isSome = proto.checksAnonLevel
  leaked : ∀ ip ∈ s.realExtIps, (ip = peer ∨ ∃ h ∈ H, h.2 = ip.display) → ∀ level ∈ obs.level, level = .transparent
  injected : obs.trust = [.injectedHeader] ↔ s.trustCheck = true ∧ ∃ h ∈ H, Added post marker judge proto h
  trusted : obs.trust = [] ∨ obs.trust = [.injectedHeader]

/-- Inserting keeps the other headers. -/
theorem mem_insertHeader {headers : List (Text × Text)} {key value : Text} (mem : h ∈ headers) (other : h.1 ≠ key) :
    h ∈ insertHeader headers key value := by
  unfold insertHeader
  split
  · exact List.mem_map.2 ⟨h, mem, if_neg other⟩
  · exact List.mem_append_left _ mem

/-- The constant headers are sent. -/
theorem mem_buildRequest (mem : h ∈ requestHeaders (some marker)) : h ∈ (buildRequest post marker judge proto).headers := by
  have name : h.1 ∈ (requestHeaders (some marker)).map Prod.fst := List.mem_map_of_mem mem
  have known : ∀ n ∈ (requestHeaders none).map Prod.fst, n ≠ "Host".toList ∧ n ≠ "Connection".toList ∧ n ≠ "Content-Length".toList := by
    decide
  obtain ⟨host, connection, length⟩ := known h.1 name
  exact mem_insertHeader (mem_insertHeader (mem_insertHeader mem host) connection) length

/-- A request that arrives whole is valid. -/
theorem valid_of_kept (s : Settings) (kept : ∀ h ∈ (buildRequest post marker judge proto).headers, h ∈ H) (peer : IpAddr) :
    Valid s marker H peer := by
  have passed {name value t : Text} (mem : (name, value) ∈ requestHeaders (some marker)) (part : t <:+: value) : Passed H peer t := by
    refine ⟨headerLine (name, value), ?_, part.trans (List.suffix_append _ value).isInfix⟩
    exact List.mem_append_left _ (List.mem_map_of_mem (kept _ (mem_buildRequest mem)))
  have agent : ("User-Agent".toList, "PxBroker/1.1.0/".toList ++ marker) ∈ requestHeaders (some marker) := List.mem_cons_self
  refine ⟨passed agent (List.suffix_append _ marker).isInfix, .inr ⟨?_, ?_⟩⟩
  · have referer : ("Referer".toList, "https://www.google.com/".toList) ∈ requestHeaders (some marker) := by simp [requestHeaders]
    exact passed referer (List.infix_refl _)
  · have cookie : ("Cookie".toList, "cookie=ok".toList) ∈ requestHeaders (some marker) := by simp [requestHeaders]
    exact passed cookie (List.infix_refl _)

/-- The reply is the page. -/
theorem exchangeReply_echo (s : Settings) (lowers : Lowers o.toLowercase) (judge : Judge) (marker : Text) (H : List (Text × Text))
    (peer : IpAddr) : exchangeReply s o judge marker (echo H peer) = .answered (page s o judge marker (echoPage H peer)) := by
  have some : echo H peer ≠ [] := by
    intro empty
    have front := (List.append_eq_nil_iff.1 empty).1
    exact absurd front (by decide)
  have good : getStatusCode echoHead 9 12 = 200 := by decide
  rw [exchangeReply, if_neg some, splitHeadBody_echo]
  dsimp only
  rw [if_neg (not_not.2 good), decompress_echo lowers]

theorem page_valid (s : Settings) (o : Decoders) (judge : Judge) (one : '\n' ∉ marker) (H : List (Text × Text)) (peer : IpAddr) :
    (page s o judge marker (echoPage H peer)).valid = true ↔ Valid s marker H peer := by
  have shows := getAllIp_echoPage (o := o) H peer
  have marked : marker <:+: echoPage H peer ↔ Passed H peer marker := infix_echoPage one
  have referer : "https://www.google.com/".toList <:+: echoPage H peer ↔ Passed H peer "https://www.google.com/".toList :=
    infix_echoPage (by decide)
  have cookie : "cookie=ok".toList <:+: echoPage H peer ↔ Passed H peer "cookie=ok".toList := infix_echoPage (by decide)
  unfold page responseIsValid capsFromContent Valid
  dsimp only
  cases s.relaxedValidity with
  | true =>
    rw [if_pos rfl, Bool.and_eq_true, decide_eq_true_iff, decide_eq_true_iff, marked]
    exact ⟨fun both => ⟨both.1, .inl rfl⟩, fun both => ⟨both.1, shows⟩⟩
  | false =>
    rw [if_neg Bool.false_ne_true]
    simp only [Bool.and_eq_true, decide_eq_true_iff, marked, referer, cookie]
    constructor
    · rintro ⟨⟨⟨marked, -⟩, referer⟩, cookie⟩
      exact ⟨marked, .inr ⟨referer, cookie⟩⟩
    · rintro ⟨marked, relaxed | ⟨referer, cookie⟩⟩
      · cases relaxed
      · exact ⟨⟨⟨marked, shows⟩, referer⟩, cookie⟩

/-- **The judge's page grades the proxy** by what it did to the request, from the bytes of the answer on. -/
theorem echo_judged {c : Checker} (judged : c.mode = .judged) {proto : Proto} (tested : proto ≠ .connect25) (s : Settings) {o : Decoders}
    (lowers : Lowers o.toLowercase) (judge : Judge) (post : Bool) {marker : Text} (one : '\n' ∉ marker) {H : List (Text × Text)}
    (clean : ∀ h ∈ H, Clean h) (peer : IpAddr) :
    (¬ Valid s marker H peer → attempt c proto (exchangeReply s o judge marker (echo H peer)) = .ok .invalid) ∧
      (Valid s marker H peer → ∃ obs, attempt c proto (exchangeReply s o judge marker (echo H peer)) = .ok (.working obs) ∧
        Graded s post marker judge proto H peer obs) ∧
      ((∀ h ∈ (buildRequest post marker judge proto).headers, h ∈ H) → Valid s marker H peer) := by
  rw [exchangeReply_echo s lowers, attempt, if_neg tested, judged]
  dsimp only
  rw [← page_valid s o judge one H peer]
  refine ⟨fun invalid => if_neg invalid, ?_, fun kept => (page_valid s o judge one H peer).2 (valid_of_kept s kept peer)⟩
  intro valid
  refine ⟨_, if_pos valid, ?_⟩
  have canary : marker <:+: echoPage H peer := (infix_echoPage one).2 ((page_valid s o judge one H peer).1 valid).1
  have trust : (page s o judge marker (echoPage H peer)).trust =
      if s.trustCheck = true ∧ (lines (echoPage H peer)).any (injected (sentHeaderNames.map toAsciiLowercase)) = true then [.injectedHeader]
      else [] := by
    unfold page assess
    dsimp only
    rw [if_pos canary, List.nil_append]
    split <;> simp_all
  constructor
  case cookie => exact decide_eq_true_iff.trans (infix_echoPage (by decide))
  case referer => exact decide_eq_true_iff.trans (infix_echoPage (by decide))
  case leveled => cases proto.checksAnonLevel <;> rfl
  case leaked =>
    intro ip real shown level at_level
    have read : level = anonymityLevel o.digits o.toLowercase s.realExtIps (echoPage H peer) judge := by
      dsimp only at at_level
      split at at_level
      · exact (Option.some.inj at_level).symm
      · cases at_level
    rw [read]
    rcases shown with rfl | ⟨h, mem, value⟩
    · obtain ⟨before, whole, left⟩ := echoPage_peer H ip
      apply transparent_of_shown lowers real whole
      rcases left with empty | ⟨front, ends⟩
      · exact .inl empty
      · exact .inr ⟨front, '\n', .inr rfl, ends⟩
    · obtain ⟨before, after, whole⟩ := echoPage_value mem peer
      refine transparent_of_shown lowers real (?_ : _ = (before ++ [' ']) ++ (ip.display ++ '\n' :: after)) ?_
      · rw [whole, value]
        simp
      · exact .inr ⟨before, ' ', .inl rfl, rfl⟩
  case injected =>
    dsimp only
    rw [trust, ← injected_echoPage clean peer]
    split <;> simp_all
  case trusted =>
    dsimp only
    rw [trust]
    split <;> simp

/-- Lower-casing character by character. -/
theorem lowers_toLower : Lowers (·.map Char.toLower) where
  ascii t small := by
    apply List.map_congr_left
    intro c mem
    have each : ∀ n < 0x80, (Char.ofNat n).toLower = lowerChar (Char.ofNat n) := by decide
    have back : Char.ofNat c.toNat = c := Char.ofNat_toNat c
    rw [← back]
    exact each c.toNat (small c mem)
  blank t t' c c_blank := by
    rw [List.map_append, List.map_cons]
    rcases c_blank with rfl | rfl <;> rfl

/-- A proxy that names its client. -/
theorem echo_judged_leaky :
    let judge : Judge := ⟨"http://judge.example/".toList, .http, "judge.example".toList, "/".toList, none, ⟨0, 0⟩⟩
    let H := (buildRequest false "7777".toList judge .http).headers ++ [("X-Client".toList, "10.0.0.1".toList)]
    ∃ obs, attempt ⟨[], false, .default, [], fun _ => 1, .judged⟩ .http (exchangeReply ⟨false, true, [.v4 0x0A000001]⟩
        ⟨.least, (·.map Char.toLower), fun _ => none, fun _ => none⟩ judge "7777".toList (echo H (.v4 0x05060708))) = .ok (.working obs) ∧
      obs.level = some .transparent ∧ obs.trust = [.injectedHeader] := by
  intro judge H
  have clean : ∀ h ∈ H, ':' ∉ h.1 ∧ ('\n' ∉ h.1 ∧ '\r' ∉ h.1) ∧ '\n' ∉ h.2 ∧ '\r' ∉ h.2 := by decide
  obtain ⟨-, graded, whole⟩ := @echo_judged ⟨[], false, .default, [], fun _ => 1, .judged⟩ rfl .http (by decide)
    ⟨false, true, [.v4 0x0A000001]⟩ ⟨.least, (·.map Char.toLower), fun _ => none, fun _ => none⟩ lowers_toLower judge false
    "7777".toList (by decide) H (fun h mem => ⟨(clean h mem).1, (clean h mem).2.1, (clean h mem).2.2⟩) (.v4 0x05060708)
  obtain ⟨obs, works, grade⟩ := graded (whole fun h mem => List.mem_append_left _ mem)
  have client : ("X-Client".toList, "10.0.0.1".toList) ∈ H := List.mem_append_right _ (List.mem_singleton.2 rfl)
  refine ⟨obs, works, ?_, ?_⟩
  · have leveled := grade.leveled
    have leaked := grade.leaked (.v4 0x0A000001) (by decide) (.inr ⟨_, client, by decide⟩)
    cases read : obs.level with
    | none =>
      rw [read] at leveled
      cases leveled
    | some level => rw [leaked level read]
  · exact grade.injected.2 ⟨rfl, _, client, by decide, by decide⟩

end ProxyBroker.Checker
