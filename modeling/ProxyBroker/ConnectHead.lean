import Mathlib.Data.List.Infix
import ProxyBroker.Socks5

/-!
# The head of a `CONNECT` request

`connect_request` writes the host it is given into the request line and into the `Host` line. What it
writes is one request head (`OneHead`) exactly when the host has no space and no `\r\n` in it
(`oneHead_iff`).

The host of a parsed request comes from one of three places. A request target is cut at white space, so
it is always harmless; a `Host` header is a line, so it can hold a space but no `\r\n`; a SOCKS5 domain
can hold both. `Breaks` names the streams whose host is not harmless.
-/

namespace ProxyBroker
open Lib

/-! ## One head -/

/-- Three parts with one space between each two. -/
def ThreeParts (line : Bytes) : Prop :=
  ∃ a b c, line = a ++ [32] ++ b ++ [32] ++ c ∧ 32 ∉ a ∧ 32 ∉ b ∧ 32 ∉ c

/-- Cut at `\r\n`, the bytes are the lines of one `CONNECT` request: the request line, the header lines, of
which one may hold credentials, the empty line, and nothing after it. -/
def OneHead (bs : Bytes) : Prop :=
  ∃ request host agent auth connection,
    crlfLines id bs = ([request, host, agent] ++ auth ++ [connection, [13, 10]], []) ∧
    ascii "CONNECT " <+: request ∧ ThreeParts request ∧ ascii "Host: " <+: host ∧ ascii "User-Agent: " <+: agent ∧
    auth.length ≤ 1 ∧ (∀ line ∈ auth, ascii "Proxy-Authorization: " <+: line) ∧ ascii "Connection: " <+: connection

/-- The value of the `Host` line: an address of IPv6 in brackets. -/
def hostLine (host : Text) : Text :=
  let bare := ((stripPrefix ['['] host).bind (stripSuffix [']'])).getD host
  if ':' ∈ bare then ['['] ++ bare ++ [']'] else bare

/-- The authority, the host with its port. -/
def authorityOf (host : Text) (port : UInt16) : Text := hostLine host ++ [':'] ++ showNat port.toNat

/-- The credentials' line, if there are any. -/
def authLines : Option Credentials → List Bytes
  | some c => [authLine c]
  | none => []

theorem connectRequest_eq (host : Text) (port : UInt16) (creds : Option Credentials) :
    connectRequest host port creds =
      (ascii "CONNECT " ++ utf8 (authorityOf host port) ++ ascii " HTTP/1.1") ++ [13, 10] ++
      ((ascii "Host: " ++ utf8 (hostLine host)) ++ [13, 10] ++
      (ascii "User-Agent: PxBroker/1.1.0/" ++ [13, 10] ++
      ((authLines creds).flatten ++ (ascii "Connection: keep-alive" ++ [13, 10] ++ [13, 10])))) := by
  have request : ascii " HTTP/1.1\r\nHost: " = ascii " HTTP/1.1" ++ [13, 10] ++ ascii "Host: " := rfl
  have agent : ascii "\r\nUser-Agent: PxBroker/1.1.0/\r\n" = [13, 10] ++ ascii "User-Agent: PxBroker/1.1.0/" ++ [13, 10] := rfl
  have connection : ascii "Connection: keep-alive\r\n\r\n" = ascii "Connection: keep-alive" ++ [13, 10] ++ [13, 10] := rfl
  unfold connectRequest
  dsimp only
  rw [request, agent, connection]
  cases creds with
  | none => simp [authorityOf, hostLine, authLines]
  | some c => simp [authorityOf, hostLine, authLines]

/-! ## The host between its brackets -/

theorem infix_brackets {p t : Text} (some_symbol : p ≠ []) (opening : '[' ∉ p) (closing : ']' ∉ p) :
    p <:+: ['['] ++ t ++ [']'] ↔ p <:+: t := by
  constructor
  · intro found
    rw [List.append_assoc, List.singleton_append, List.infix_cons_iff] at found
    rcases found with front | found
    · cases p with
      | nil => exact absurd rfl some_symbol
      | cons c p =>
        obtain ⟨rfl, -⟩ := List.cons_prefix_cons.1 front
        exact absurd List.mem_cons_self opening
    · rw [← List.reverse_infix, List.reverse_append, List.reverse_singleton, List.singleton_append, List.infix_cons_iff] at found
      rcases found with back | found
      · cases rev : p.reverse with
        | nil => exact absurd (List.reverse_eq_nil_iff.1 rev) some_symbol
        | cons c q =>
          rw [rev] at back
          obtain ⟨rfl, -⟩ := List.cons_prefix_cons.1 back
          exact absurd (List.mem_reverse.1 (by rw [rev]; exact List.mem_cons_self)) closing
      · exact List.reverse_infix.1 found
  · intro found
    exact found.trans ⟨['['], [']'], rfl⟩

theorem infix_hostLine {p host : Text} (some_symbol : p ≠ []) (opening : '[' ∉ p) (closing : ']' ∉ p) :
    p <:+: hostLine host ↔ p <:+: host := by
  have bare : p <:+: ((stripPrefix ['['] host).bind (stripSuffix [']'])).getD host ↔ p <:+: host := by
    cases inside : (stripPrefix ['['] host).bind (stripSuffix [']']) with
    | none => rfl
    | some b =>
      obtain ⟨r, front, back⟩ := Option.bind_eq_some_iff.1 inside
      rw [stripPrefix_some.1 front, stripSuffix_some.1 back, ← List.append_assoc]
      exact (infix_brackets some_symbol opening closing).symm
  unfold hostLine
  dsimp only
  split
  · rw [infix_brackets some_symbol opening closing, bare]
  · exact bare

/-! ## Its lines -/

theorem space_mem_utf8 (t : Text) : 32 ∈ utf8 t ↔ ' ' ∈ t := cuts_utf8.mem_iff (a := ' ') (by decide)

theorem crlf_infix_utf8 (t : Text) : [13, 10] <:+: utf8 t ↔ ['\r', '\n'] <:+: t :=
  cuts_utf8.infix_iff (p := ['\r', '\n']) (by simp)

theorem not_crlf_of_no_feed {bs : Bytes} (clean : 10 ∉ bs) : ¬ [13, 10] <:+: bs :=
  fun found => clean (found.subset (by simp))

theorem crlf_mem_hostLine (host : Text) : [13, 10] <:+: utf8 (hostLine host) ↔ ['\r', '\n'] <:+: host := by
  rw [crlf_infix_utf8, infix_hostLine (by simp) (by decide) (by decide)]

theorem space_mem_authority (host : Text) (port : UInt16) : 32 ∈ utf8 (authorityOf host port) ↔ ' ' ∈ host := by
  have digits : ' ' ∉ showNat port.toNat := not_mem_showNat (by decide) _
  have value : ' ' ∈ hostLine host ↔ ' ' ∈ host := by
    have single : [' '] <:+: hostLine host ↔ [' '] <:+: host := infix_hostLine (by simp) (by decide) (by decide)
    rwa [List.singleton_infix_iff, List.singleton_infix_iff] at single
  rw [space_mem_utf8, authorityOf, List.mem_append, List.mem_append, or_iff_left digits, or_iff_left (by decide), value]

theorem not_crlf_authority {host : Text} (port : UInt16) (plain : ¬ ['\r', '\n'] <:+: host) :
    ¬ [13, 10] <:+: utf8 (authorityOf host port) := by
  have digits : ¬ [13, 10] <:+: utf8 (':' :: showNat port.toNat) := by
    refine not_crlf_of_no_feed ?_
    rw [feed_mem_utf8, List.mem_cons, not_or]
    exact ⟨by decide, not_mem_showNat (by decide) _⟩
  rw [authorityOf, List.append_assoc, utf8_append, List.singleton_append]
  refine pair_not_infix_append (by rwa [crlf_mem_hostLine]) digits (Or.inr ?_)
  rw [utf8_cons, encode_ascii (by decide)]
  simp

/-- The credentials are one line, whatever they are. -/
theorem authLine_line (c : Credentials) :
    ∃ body, authLine c = body ++ [13, 10] ∧ ¬ [13, 10] <:+: body ∧ ascii "Proxy-Authorization: " <+: body := by
  refine ⟨ascii "Proxy-Authorization: Basic " ++ utf8 (base64Encode (utf8 (c.username ++ [':'] ++ c.password))), rfl, ?_, ?_⟩
  · refine not_crlf_of_no_feed ?_
    rw [List.mem_append, not_or, feed_mem_utf8]
    refine ⟨by decide, ?_⟩
    intro mem
    rcases mem_base64Encode mem with letter | pad
    · exact absurd letter (by decide)
    · cases pad
  · exact (show ascii "Proxy-Authorization: " <+: ascii "Proxy-Authorization: Basic " by decide).trans (List.prefix_append _ _)

theorem cut_line {l : Bytes} (x : Bytes) (plain : ¬ [13, 10] <:+: l) :
    crlfLines id (l ++ [13, 10] ++ x) = ((l ++ [13, 10]) :: (crlfLines id x).1, (crlfLines id x).2) := by
  have unmapped : ¬ [13, 10] <:+: l.map id := by rwa [List.map_id]
  exact crlfLines_line unmapped rfl rfl x

theorem crlfLines_authLines (creds : Option Credentials) (x : Bytes) :
    crlfLines id ((authLines creds).flatten ++ x) = (authLines creds ++ (crlfLines id x).1, (crlfLines id x).2) := by
  cases creds with
  | none => rfl
  | some c =>
    obtain ⟨body, line, plain, -⟩ := authLine_line c
    have cut : crlfLines id (body ++ [13, 10] ++ x) = ((body ++ [13, 10]) :: (crlfLines id x).1, (crlfLines id x).2) :=
      cut_line x plain
    rw [← line] at cut
    simpa [authLines] using cut

/-- Without a `\r\n` in the host, the lines are those that are meant. -/
theorem connectRequest_lines {host : Text} (port : UInt16) (creds : Option Credentials) (plain : ¬ ['\r', '\n'] <:+: host) :
    crlfLines id (connectRequest host port creds) =
      ([ascii "CONNECT " ++ utf8 (authorityOf host port) ++ ascii " HTTP/1.1" ++ [13, 10],
        ascii "Host: " ++ utf8 (hostLine host) ++ [13, 10], ascii "User-Agent: PxBroker/1.1.0/" ++ [13, 10]] ++
        authLines creds ++ [ascii "Connection: keep-alive" ++ [13, 10], [13, 10]], []) := by
  have request : ¬ [13, 10] <:+: ascii "CONNECT " ++ utf8 (authorityOf host port) ++ ascii " HTTP/1.1" := by
    refine pair_not_infix_append ?_ (by decide) (Or.inr (by decide))
    exact pair_not_infix_append (by decide) (not_crlf_authority port plain) (Or.inl (by decide))
  have value : ¬ [13, 10] <:+: ascii "Host: " ++ utf8 (hostLine host) :=
    pair_not_infix_append (by decide) (by rwa [crlf_mem_hostLine]) (Or.inl (by decide))
  have rest : crlfLines id (ascii "Connection: keep-alive" ++ [13, 10] ++ [13, 10]) =
      ([ascii "Connection: keep-alive" ++ [13, 10], [13, 10]], []) := by decide
  rw [connectRequest_eq, cut_line _ request, cut_line _ value, cut_line _ (by decide), crlfLines_authLines, rest]
  rfl

theorem threeParts_count {line : Bytes} (three : ThreeParts line) : line.count 32 = 2 := by
  obtain ⟨a, b, c, rfl, ha, hb, hc⟩ := three
  simp [List.count_append, List.count_eq_zero.2 ha, List.count_eq_zero.2 hb, List.count_eq_zero.2 hc]

/-- With a `\r\n` in the host, which is written twice, there are too many lines. -/
theorem connectRequest_too_long {host : Text} (port : UInt16) (creds : Option Credentials) (found : ['\r', '\n'] <:+: host) :
    6 < (crlfLines id (connectRequest host port creds)).1.length := by
  have append (x y : Bytes) : (crlfLines id x).1.length + (crlfLines id y).1.length ≤ (crlfLines id (x ++ y)).1.length :=
    crlfLines_length_append x y
  have line (l x : Bytes) :
      (crlfLines id l).1.length + 1 + (crlfLines id x).1.length ≤ (crlfLines id (l ++ [13, 10] ++ x)).1.length := by
    have body := append l [13, 10]
    have whole := append (l ++ [13, 10]) x
    have terminator : (crlfLines id [(13 : UInt8), 10]).1.length = 1 := by decide
    omega
  have value : 1 ≤ (crlfLines id (utf8 (hostLine host))).1.length := by
    rw [Nat.one_le_iff_ne_zero, Ne, List.length_eq_zero_iff, crlfLines_eq_nil_iff, List.map_id, not_not, crlf_mem_hostLine]
    exact found
  have authority : (crlfLines id (utf8 (hostLine host))).1.length ≤ (crlfLines id (utf8 (authorityOf host port))).1.length := by
    have front := append (utf8 (hostLine host)) (utf8 ([':'] ++ showNat port.toNat))
    rw [authorityOf, List.append_assoc, utf8_append]
    omega
  have request₁ := append (ascii "CONNECT ") (utf8 (authorityOf host port))
  have request₂ := append (ascii "CONNECT " ++ utf8 (authorityOf host port)) (ascii " HTTP/1.1")
  have header := append (ascii "Host: ") (utf8 (hostLine host))
  have auth := append (authLines creds).flatten (ascii "Connection: keep-alive" ++ [13, 10] ++ [13, 10])
  have connection : (crlfLines id (ascii "Connection: keep-alive" ++ [13, 10] ++ [13, 10])).1.length = 2 := by decide
  rw [connectRequest_eq]
  refine Nat.lt_of_lt_of_le ?_ (line _ _)
  have more := line (ascii "Host: " ++ utf8 (hostLine host)) (ascii "User-Agent: PxBroker/1.1.0/" ++ [13, 10] ++
    ((authLines creds).flatten ++ (ascii "Connection: keep-alive" ++ [13, 10] ++ [13, 10])))
  have agent := line (ascii "User-Agent: PxBroker/1.1.0/")
    ((authLines creds).flatten ++ (ascii "Connection: keep-alive" ++ [13, 10] ++ [13, 10]))
  omega

/-- A space or a `\r\n` in a host. -/
def Harmful (host : Text) : Prop := ' ' ∈ host ∨ ['\r', '\n'] <:+: host

/-- **One head.** What `connect_request` writes is the head of one request if and only if the host has no
space and no `\r\n` in it. -/
theorem oneHead_iff (host : Text) (port : UInt16) (creds : Option Credentials) :
    OneHead (connectRequest host port creds) ↔ ¬ Harmful host := by
  rw [Harmful, not_or]
  constructor
  · rintro ⟨request, value, agent, auth, connection, scan, -, three, -, -, single, -⟩
    have plain : ¬ ['\r', '\n'] <:+: host := by
      intro found
      have long := connectRequest_too_long port creds found
      rw [scan] at long
      simp at long
      omega
    refine ⟨?_, plain⟩
    rw [connectRequest_lines port creds plain] at scan
    have first := (List.cons.inj (Prod.mk.inj scan).1).1
    have spaces := threeParts_count three
    rw [← first] at spaces
    rw [← space_mem_authority host port, ← List.count_eq_zero]
    simp only [List.count_append] at spaces
    have front : (ascii "CONNECT ").count 32 = 1 := by decide
    have back : (ascii " HTTP/1.1").count 32 = 1 := by decide
    omega
  · rintro ⟨noSpace, plain⟩
    refine ⟨_, _, _, _, _, connectRequest_lines port creds plain, ?_, ?_, ?_, ?_, ?_, ?_, ?_⟩
    · exact ⟨utf8 (authorityOf host port) ++ ascii " HTTP/1.1" ++ [13, 10], by simp⟩
    · refine ⟨ascii "CONNECT", utf8 (authorityOf host port), ascii "HTTP/1.1" ++ [13, 10], ?_, by decide, ?_, by decide⟩
      · have front : ascii "CONNECT " = ascii "CONNECT" ++ [32] := rfl
        have back : ascii " HTTP/1.1" = [32] ++ ascii "HTTP/1.1" := rfl
        rw [front, back]
        simp
      · rwa [space_mem_authority]
    · rw [List.append_assoc]
      exact List.prefix_append _ _
    · decide
    · cases creds with
      | none => exact Nat.zero_le 1
      | some c => exact Nat.le_refl 1
    · intro line mem
      cases creds with
      | none => cases mem
      | some c =>
        obtain rfl := List.mem_singleton.1 mem
        obtain ⟨body, eq, -, begins⟩ := authLine_line c
        rw [eq]
        exact begins.trans (List.prefix_append _ _)
    · decide

/-! ## Where the host comes from -/

theorem not_harmful_of_clean {host : Text} (space : ' ' ∉ host) (feed : '\n' ∉ host) : ¬ Harmful host := by
  rintro (found | found)
  · exact space found
  · exact feed (found.subset (by simp))

theorem display_harmless (a : IpAddr) : ¬ Harmful a.display :=
  not_harmful_of_clean (not_mem_display (by decide) a) (not_mem_display (by decide) a)

/-- A domain is decoded with its spaces and line ends. -/
theorem harmful_lossy (d : Bytes) : Harmful (fromUtf8Lossy d) ↔ 32 ∈ d ∨ [13, 10] <:+: d := by
  have space : ' ' ∈ fromUtf8Lossy d ↔ 32 ∈ d := cuts_lossy.mem_iff (a := 32) (by decide)
  have crlf : ['\r', '\n'] <:+: fromUtf8Lossy d ↔ [13, 10] <:+: d := cuts_lossy.infix_iff (p := [13, 10]) (by simp)
  rw [Harmful, space, crlf]

namespace Server

theorem splitHostPort_part (s : Text) (default : UInt16) : (splitHostPort s default).1 <:+: s := by
  unfold splitHostPort
  dsimp only
  split
  · rename_i r bracketed
    obtain ⟨rest, front, inside⟩ := Option.bind_eq_some_iff.1 bracketed
    have part : rest <:+: s := ⟨['['], [], by rw [stripPrefix_some.1 front]; simp⟩
    refine List.IsInfix.trans ?_ part
    split at inside
    · rename_i h p cut
      cases inside
      rw [splitOnceAt_some cut, List.append_assoc]
      exact (List.prefix_append _ _).isInfix
    · obtain ⟨h, back, rfl⟩ := Option.map_eq_some_iff.1 inside
      rw [stripSuffix_some.1 back]
      exact (List.prefix_append _ _).isInfix
  · split
    · rename_i h p cut
      split
      · obtain ⟨⟨l, r⟩, once, eq⟩ := Option.map_eq_some_iff.1 cut
        cases eq
        refine List.reverse_infix.1 ?_
        rw [List.reverse_reverse, splitOnceAt_some once]
        exact (List.suffix_append _ _).isInfix
      · exact List.infix_refl s
    · exact List.infix_refl s

/-- A part of a word is harmless. -/
theorem word_harmless {text word host : Text} (mem : word ∈ splitWhitespace text) (part : host <:+: word) : ¬ Harmful host := by
  have clean := splitWhitespace_clean mem
  refine not_harmful_of_clean ?_ ?_
  · intro space
    exact absurd (clean ' ' (part.subset space)) (by decide)
  · intro feed
    exact absurd (clean '\n' (part.subset feed)) (by decide)

/-- The host of an HTTP head is in its `Host` header, and has a space in it. -/
def SpacedHost (head : Bytes) : Prop :=
  ∃ first ls method uri more value, lines (fromUtf8Lossy head) = first :: ls ∧ splitWhitespace first = method :: uri :: more ∧
    eqIgnoreAsciiCase method "CONNECT".toList = false ∧ ¬ "http://".toList <+: uri ∧ hostHeader ls = some value ∧
    ' ' ∈ (splitHostPort value 80).1

/-- A line's text has no line end in it. -/
theorem hostHeader_feed {text value : Text} {ls : List Text} {first : Text} (split : lines text = first :: ls)
    (found : hostHeader ls = some value) : '\n' ∉ value := by
  obtain ⟨l, at_l, rfl⟩ := Option.map_eq_some_iff.1 found
  have mem : l ∈ lines text := by
    rw [split]
    exact List.mem_cons_of_mem first (List.mem_of_find?_eq_some at_l)
  intro feed
  exact lines_clean mem (List.mem_of_mem_drop ((trim_part _).subset feed))

theorem parseHead_harmful {head : Bytes} {req : ClientRequest} (ok : parseHead head = some req) :
    Harmful req.host ↔ SpacedHost head := by
  unfold parseHead at ok
  split at ok
  · cases ok
  · rename_i first ls text
    split at ok
    · rename_i method uri more parts
      have uri_mem : uri ∈ splitWhitespace first := by simp [parts]
      -- what `SpacedHost` says of this very head
      have spaced : SpacedHost head ↔ eqIgnoreAsciiCase method "CONNECT".toList = false ∧ ¬ "http://".toList <+: uri ∧
          ∃ value, hostHeader ls = some value ∧ ' ' ∈ (splitHostPort value 80).1 := by
        constructor
        · rintro ⟨first', ls', method', uri', more', value, text', parts', plain, relative, found, space⟩
          rw [text] at text'
          cases text'
          rw [parts] at parts'
          cases parts'
          exact ⟨plain, relative, value, found, space⟩
        · rintro ⟨plain, relative, value, found, space⟩
          exact ⟨first, ls, method, uri, more, value, text, parts, plain, relative, found, space⟩
      rw [spaced]
      dsimp only at ok
      split at ok
      · rename_i connect
        cases ok
        refine iff_of_false (word_harmless uri_mem (splitHostPort_part uri 443)) ?_
        rintro ⟨plain, -⟩
        rw [connect] at plain
        cases plain
      · rename_i plain
        split at ok
        · cases ok
        · rename_i hostPort source
          cases ok
          cases absolute : stripPrefix "http://".toList uri with
          | some rest =>
            have target : uri = "http://".toList ++ rest := stripPrefix_some.1 absolute
            rw [absolute, Option.bind_some, splitOn_head, Option.some_or] at source
            cases source
            refine iff_of_false (word_harmless uri_mem ?_) ?_
            · refine (splitHostPort_part _ 80).trans ((List.takeWhile_prefix _).isInfix.trans ?_)
              rw [target]
              exact (List.suffix_append _ _).isInfix
            · rintro ⟨-, relative, -⟩
              exact relative ⟨rest, target.symm⟩
          | none =>
            rw [absolute, Option.bind_none, Option.none_or] at source
            have relative : ¬ "http://".toList <+: uri := by
              rintro ⟨rest, target⟩
              rw [stripPrefix_some.2 target.symm] at absolute
              cases absolute
            have feed := hostHeader_feed text source
            constructor
            · rintro (space | crlf)
              · exact ⟨Bool.eq_false_iff.2 plain, relative, hostPort, source, space⟩
              · have part := crlf.trans (splitHostPort_part hostPort 80)
                exact absurd (part.subset (by simp)) feed
            · rintro ⟨-, -, value, found, space⟩
              rw [source] at found
              cases found
              exact Or.inl space
    · cases ok

/-- The stream names a host that is not harmless: a SOCKS5 domain, or a `Host` header of a request whose
target does not name the host. -/
inductive Breaks (expected : Option AuthExpect) : Bytes → Prop
  | domain {opening d p : Bytes} (rsv : UInt8) (rest : Bytes) (accepted : Opening expected opening) (name : d.length ≤ 255)
    (port : p.length = 2) (harmful : 32 ∈ d ∨ [13, 10] <:+: d) :
    Breaks expected (opening ++ ([0x05, 0x01, rsv, 0x03, UInt8.ofNat d.length] ++ d ++ p) ++ rest)
  | header {head : Bytes} (rest : Bytes) (other : head.head? ≠ some 0x05) (buffered : Buffered head) (spaced : SpacedHost head) :
    Breaks expected (head ++ rest)

theorem domain_of_harmful {message : Bytes} {host : Text} {port : UInt16} (names : ConnectMessage message host port)
    (harmful : Harmful host) : ∃ rsv d p, d.length ≤ 255 ∧ p.length = 2 ∧ (32 ∈ d ∨ [13, 10] <:+: d) ∧
      message = [0x05, 0x01, rsv, 0x03, UInt8.ofNat d.length] ++ d ++ p := by
  cases names with
  | v4 rsv address port => exact absurd harmful (display_harmless _)
  | v6 rsv address port => exact absurd harmful (display_harmless _)
  | domain rsv name port => exact ⟨rsv, _, _, name, port, (harmful_lossy _).1 harmful, rfl⟩

/-- **No request splitting.** For every stream that parses, every host it names and all credentials of the
upstream: what `connect_request` writes is one head, if and only if the stream does not name a host that is
not harmless. -/
theorem oneHead_parsed_iff {expected : Option AuthExpect} {s after : Socket} {req : ClientRequest}
    (parsed : parseClientRequest expected s = (some req, after)) (creds : Option Credentials) :
    OneHead (connectRequest req.host req.port creds) ↔ ¬ Breaks expected s.input := by
  rw [oneHead_iff, not_iff_not]
  rcases parseClientRequest_cases parsed with ⟨rest, input, -, socks⟩ | ⟨head, input, other, buffered, ok, -⟩
  · obtain ⟨opening, message, accepted, names, split, -⟩ := socks5_consumes socks
    constructor
    · intro harmful
      obtain ⟨rsv, d, p, name, port, harm, rfl⟩ := domain_of_harmful names harmful
      rw [input, split]
      exact .domain rsv after.input accepted name port harm
    · intro breaks
      generalize stream : s.input = bytes at breaks
      rw [input] at stream
      cases breaks with
      | domain rsv rest' accepted' name port harm =>
        obtain ⟨host, -⟩ := socks5_unique accepted names accepted' (.domain rsv name port) (split.symm.trans stream)
        rw [host, harmful_lossy]
        exact harm
      | header rest' other' buffered' spaced => exact absurd stream.symm (buffered_not_version buffered' other')
  · rw [parseHead_harmful ok]
    constructor
    · intro spaced
      rw [input]
      exact .header after.input other buffered spaced
    · intro breaks
      generalize stream : s.input = bytes at breaks
      rw [input] at stream
      cases breaks with
      | domain rsv rest' accepted' name port harm =>
        obtain ⟨more, rfl⟩ := opening_version accepted'
        exact absurd stream (buffered_not_version buffered other)
      | header rest' other' buffered' spaced =>
        obtain rfl := buffered_unique buffered buffered' stream
        exact spaced

/-- A `CONNECT` is handed on as one. -/
theorem oneHead_parsed_connect : ∃ req after,
    parseClientRequest none ⟨ascii "CONNECT h:443 HTTP/1.1\r\n\r\n", [], none⟩ = (some req, after) ∧
    OneHead (connectRequest req.host req.port none) ∧ ¬ Breaks none (ascii "CONNECT h:443 HTTP/1.1\r\n\r\n") := by
  have parsed : ∃ req after, parseClientRequest none ⟨ascii "CONNECT h:443 HTTP/1.1\r\n\r\n", [], none⟩ = (some req, after) ∧
      req.host = ['h'] := ⟨_, _, rfl, rfl⟩
  obtain ⟨req, after, parsed, host⟩ := parsed
  have one : OneHead (connectRequest req.host req.port none) := by
    rw [oneHead_iff, host]
    exact not_harmful_of_clean (by decide) (by decide)
  exact ⟨req, after, parsed, one, (oneHead_parsed_iff parsed none).1 one⟩

/-- A SOCKS5 client asks for the domain `h\r\nX: y`. -/
theorem splits_at_domain : ∃ req after,
    parseClientRequest none ⟨[0x05, 0x01, 0x00, 0x05, 0x01, 0x00, 0x03, 7] ++ ascii "h\r\nX: y" ++ [0, 80], [], none⟩ =
      (some req, after) ∧ ¬ OneHead (connectRequest req.host req.port none) := by
  have parsed : ∃ req after,
      parseClientRequest none ⟨[0x05, 0x01, 0x00, 0x05, 0x01, 0x00, 0x03, 7] ++ ascii "h\r\nX: y" ++ [0, 80], [], none⟩ =
        (some req, after) ∧ req.host = "h\r\nX: y".toList := ⟨_, _, rfl, rfl⟩
  obtain ⟨req, after, parsed, host⟩ := parsed
  refine ⟨req, after, parsed, ?_⟩
  rw [oneHead_iff, host, not_not]
  exact Or.inr (by decide)

end Server

end ProxyBroker
