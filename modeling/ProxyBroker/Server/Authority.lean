import ProxyBroker.ConnectHead
import ProxyBroker.Lib.IpLiteral
import ProxyBroker.System

/-!
# Authorities written and read (`server.rs`, `negotiator.rs`, `proxy.rs`)

Three writers put a host and a port into one text: `connect_request`, which brackets a host with a colon,
`Proxy::addr`, which brackets an address of IPv6, and the history, which never brackets. `split_host_port` reads all
three. A text in brackets is cut at the first `]:`, any other at its last colon, and the port that was written has
neither a colon nor a bracket.
-/

namespace ProxyBroker.Server
open Lib

/-- A host as a caller spells it, and the host without brackets: an address literal, a literal of IPv6 in brackets, or
a name. -/
inductive Spelled : Text → Text → Prop where
  | literal {t : Text} {ip : IpAddr} : parseIpAddr t = some ip → Spelled t t
  | bracketed {t : Text} {bits : BitVec 128} : parseIpAddr t = some (.v6 bits) → Spelled (['['] ++ t ++ [']']) t
  | name {t : Text} : t ≠ [] → (∀ c ∈ t, c ≠ ':' ∧ c ≠ '[' ∧ c ≠ ']' ∧ isWhitespace c = false) → Spelled t t

/-! ## The parser -/

/-- A host with no bracket and no white space. -/
structure Bare (t : Text) : Prop where
  nonempty : t ≠ []
  opening : '[' ∉ t
  closing : ']' ∉ t
  black : ∀ c ∈ t, isWhitespace c = false

variable {t : Text} {port : UInt16}

/-- No white space is between `0` and `z`. -/
theorem isWhitespace_between {c : Char} (range : 48 ≤ c.toNat ∧ c.toNat ≤ 122) : isWhitespace c = false := by
  simp only [isWhitespace, Bool.or_eq_false_iff, Bool.and_eq_false_iff, decide_eq_false_iff_not, beq_eq_false_iff_ne]
  omega

theorem isWhitespace_digit {c : Char} (digit : (toDigit 16 c).isSome) : isWhitespace c = false := by
  apply isWhitespace_between
  unfold toDigit at digit
  dsimp only at digit
  split_ifs at digit <;> simp_all <;> omega

theorem isWhitespace_isDigit {c : Char} (digit : c.isDigit = true) : isWhitespace c = false := by
  apply isWhitespace_between
  have range := isDigit_range digit
  omega

theorem splitOnceAt_bracket (closing : ']' ∉ t) (r : Text) : splitOnceAt "]:".toList (t ++ (']' :: ':' :: r)) = some (t, r) := by
  induction t with
  | nil => rfl
  | cons c t ih =>
    rw [List.mem_cons, not_or] at closing
    have other : stripPrefix "]:".toList (c :: (t ++ (']' :: ':' :: r))) = none := if_neg closing.1
    rw [List.cons_append, splitOnceAt, other, ih closing.2]
    rfl

theorem bare_of_parse {ip : IpAddr} (h : parseIpAddr t = some ip) : Bare t := by
  have literal := literalChar_of_parse h
  have no_bracket (c : Char) (bracket : c = '[' ∨ c = ']') : ¬ LiteralChar c := by
    rcases bracket with rfl | rfl
    · unfold LiteralChar
      decide
    · unfold LiteralChar
      decide
  refine ⟨?_, fun mem => no_bracket _ (Or.inl rfl) (literal _ mem), fun mem => no_bracket _ (Or.inr rfl) (literal _ mem), ?_⟩
  · rintro rfl
    have empty : parseIpAddr [] = none := by decide
    rw [empty] at h
    cases h
  · intro c mem
    rcases literal c mem with digit | rfl | rfl
    · exact isWhitespace_digit digit
    · decide
    · decide

theorem Spelled.bare {host bare : Text} (h : Spelled host bare) : Bare bare := by
  cases h with
  | literal parsed => exact bare_of_parse parsed
  | bracketed parsed => exact bare_of_parse parsed
  | name nonempty plain =>
    exact ⟨nonempty, fun mem => (plain _ mem).2.1 rfl, fun mem => (plain _ mem).2.2.1 rfl, fun c mem => (plain c mem).2.2.2⟩

/-- In brackets: around the first `]:`. -/
theorem splitHostPort_bracketed (bare : Bare t) (port d : UInt16) :
    splitHostPort (['['] ++ t ++ [']'] ++ [':'] ++ showNat port.toNat) d = (t, port) := by
  have text : ['['] ++ t ++ [']'] ++ [':'] ++ showNat port.toNat = '[' :: (t ++ (']' :: ':' :: showNat port.toNat)) := by simp
  have first : stripPrefix ['['] ('[' :: (t ++ (']' :: ':' :: showNat port.toNat))) = some (t ++ (']' :: ':' :: showNat port.toNat)) :=
    stripPrefix_some.2 rfl
  have inside : splitOnceAt "]:".toList (t ++ (']' :: ':' :: showNat port.toNat)) = some (t, showNat port.toNat) :=
    splitOnceAt_bracket bare.closing _
  rw [text, splitHostPort]
  rw [first, Option.bind_some, inside]
  simp [parseU16_showNat]

/-- Without an opening bracket: around the last colon. -/
theorem splitHostPort_plain (nonempty : t ≠ []) (opening : t.head? ≠ some '[') (port d : UInt16) :
    splitHostPort (t ++ [':'] ++ showNat port.toNat) d = (t, port) := by
  have not_bracketed : stripPrefix ['['] (t ++ [':'] ++ showNat port.toNat) = none := by
    cases t with
    | nil => exact absurd rfl nonempty
    | cons c t =>
      have other : '[' ≠ c := by
        rintro rfl
        exact opening rfl
      simp [stripPrefix, other]
  have last : rsplitOnce ':' (t ++ [':'] ++ showNat port.toNat) = some (t, showNat port.toNat) := by
    rw [List.append_assoc, List.singleton_append]
    exact rsplitOnce_eq (not_mem_showNat (by decide) _)
  rw [splitHostPort]
  rw [not_bracketed, Option.bind_none, last]
  simp [nonempty, parseU16_showNat]

/-! ## The writers -/

theorem hostLine_bare (bare : Bare t) : hostLine t = if ':' ∈ t then ['['] ++ t ++ [']'] else t := by
  have no_front : stripPrefix ['['] t = none := by
    cases front : stripPrefix ['['] t with
    | none => rfl
    | some r =>
      rw [stripPrefix_some.1 front] at bare
      exact absurd List.mem_cons_self bare.opening
  rw [hostLine, no_front, Option.bind_none, Option.getD_none]

/-- The brackets of the caller are taken off first. -/
theorem hostLine_brackets (t : Text) : hostLine (['['] ++ t ++ [']']) = if ':' ∈ t then ['['] ++ t ++ [']'] else t := by
  have front : stripPrefix ['['] (['['] ++ t ++ [']']) = some (t ++ [']']) := stripPrefix_some.2 (by simp)
  have back : stripSuffix [']'] (t ++ [']']) = some t := stripSuffix_some.2 rfl
  rw [hostLine, front, Option.bind_some, back, Option.getD_some]

theorem Spelled.hostLine {host bare : Text} (h : Spelled host bare) :
    hostLine host = if ':' ∈ bare then ['['] ++ bare ++ [']'] else bare := by
  cases h with
  | literal parsed => exact hostLine_bare (bare_of_parse parsed)
  | bracketed parsed => exact hostLine_brackets _
  | name nonempty plain => exact hostLine_bare (Spelled.name nonempty plain).bare

/-- What `connect_request` writes is read back. -/
theorem splitHostPort_authorityOf {host bare : Text} (h : Spelled host bare) (port d : UInt16) :
    splitHostPort (authorityOf host port) d = (bare, port) := by
  rw [authorityOf, h.hostLine]
  split
  · exact splitHostPort_bracketed h.bare port d
  · apply splitHostPort_plain h.bare.nonempty
    intro front
    exact h.bare.opening (List.mem_of_head? front)

theorem connectRequest_front (host : Text) (port : UInt16) (creds : Option Credentials) :
    ∃ rest, connectRequest host port creds = ascii "CONNECT " ++ utf8 (authorityOf host port) ++ ascii " HTTP/1.1\r\n" ++ rest := by
  have line : ascii " HTTP/1.1\r\n" = ascii " HTTP/1.1" ++ [13, 10] := rfl
  rw [connectRequest_eq, line]
  refine ⟨ascii "Host: " ++ utf8 (hostLine host) ++ [13, 10] ++ (ascii "User-Agent: PxBroker/1.1.0/" ++ [13, 10] ++
    ((authLines creds).flatten ++ (ascii "Connection: keep-alive" ++ [13, 10] ++ [13, 10]))), ?_⟩
  simp only [List.append_assoc]

theorem black_authorityOf {host bare : Text} (h : Spelled host bare) (port : UInt16) :
    ∀ c ∈ authorityOf host port, isWhitespace c = false := by
  have digits : ∀ c ∈ [':'] ++ showNat port.toNat, isWhitespace c = false := by
    intro c mem
    rcases List.mem_append.1 mem with colon | digit
    · rw [List.mem_singleton.1 colon]
      decide
    · exact isWhitespace_isDigit (showNat_isDigit _ c digit)
  have front : ∀ c ∈ hostLine host, isWhitespace c = false := by
    rw [h.hostLine]
    split
    · intro c mem
      simp only [List.mem_append, List.mem_singleton] at mem
      rcases mem with (rfl | inside) | rfl
      · decide
      · exact h.bare.black c inside
      · decide
    · exact h.bare.black
  intro c mem
  rw [authorityOf, List.append_assoc] at mem
  rcases List.mem_append.1 mem with inside | after
  · exact front c inside
  · exact digits c after

theorem splitHostPort_hostPort (p : Proxy) (d : UInt16) : splitHostPort (hostPort p) d = (p.host.display, p.port) := by
  have bare := bare_of_parse (parse_display p.host)
  apply splitHostPort_plain bare.nonempty
  intro front
  exact bare.opening (List.mem_of_head? front)

theorem splitHostPort_addrText (p : Proxy) (d : UInt16) : splitHostPort p.addrText d = (p.host.display, p.port) := by
  have bare := bare_of_parse (parse_display p.host)
  cases family : p.host with
  | v4 bits =>
    have text : p.addrText = hostPort p := by
      rw [Proxy.addrText, family]
      show hostColonPort (.v4 bits) p.port = hostPort p
      rw [hostPort, family, hostColonPort, List.append_assoc]
      rfl
    rw [text, splitHostPort_hostPort, family]
  | v6 bits =>
    have text : p.addrText = ['['] ++ p.host.display ++ [']'] ++ [':'] ++ showNat p.port.toNat := by
      rw [Proxy.addrText, family]
      simp
    rw [text, splitHostPort_bracketed bare, family]

/-! ## The control API -/

/-- `GET http://proxycontrol/api/remove/<text>`. -/
def removeQuery (text : Text) : Text := "http://proxycontrol/api/remove/".toList ++ text

/-- A text that reads as an address of the pool asks for its removal. -/
theorem control_removeQuery {text : Text} {ip : IpAddr} (reads : splitHostPort text 0 = (ip.display, port)) (peerIp : IpAddr) :
    control peerIp (removeQuery text) = .remove (ip, port) := by
  have parts : splitN '/' 3 (((stripPrefix "http://proxycontrol".toList (removeQuery text)).getD
      (removeQuery text)).dropWhile (· = '/')) = ["api".toList, "remove".toList, text] := rfl
  rw [control, parts]
  simp only [if_pos, reads, parse_display]

/-- **Round trips.** Every host and port that `connect_request` puts on its request line are read back, whatever the
default; brackets around an address of IPv6 do not change the head; and a proxy's address and the text that the history
reports both remove exactly the pooled entries of that proxy's host and port. -/
theorem authority_round_trip :
    (∀ {host bare : Text}, Spelled host bare → ∀ (port : UInt16) (creds : Option Credentials), ∃ authority rest,
      connectRequest host port creds = ascii "CONNECT " ++ utf8 authority ++ ascii " HTTP/1.1\r\n" ++ rest ∧
      (∀ c ∈ authority, isWhitespace c = false) ∧ ∀ d, splitHostPort authority d = (bare, port)) ∧
    (∀ {t : Text} {bits : BitVec 128}, parseIpAddr t = some (.v6 bits) → ∀ (port : UInt16) (creds : Option Credentials),
      connectRequest (['['] ++ t ++ [']']) port creds = connectRequest t port creds) ∧
    ∀ (p : Proxy) (text : Text), text = p.addrText ∨ text = hostPort p → ∀ (peerIp : IpAddr) (pool : Pool), ∃ addr,
      control peerIp (removeQuery text) = .remove addr ∧
      (pool.remove addr).state = pool.state.filter fun e => ¬ (e.proxy.host = p.host ∧ e.proxy.port = p.port) := by
  refine ⟨?_, ?_, ?_⟩
  · intro host bare spelled port creds
    obtain ⟨rest, head⟩ := connectRequest_front host port creds
    exact ⟨authorityOf host port, rest, head, black_authorityOf spelled port, splitHostPort_authorityOf spelled port⟩
  · intro t bits literal port creds
    have same : hostLine (['['] ++ t ++ [']']) = hostLine t := by
      rw [(Spelled.bracketed literal).hostLine, (Spelled.literal literal).hostLine]
    rw [connectRequest_eq, connectRequest_eq, authorityOf, authorityOf, same]
  · intro p text written peerIp pool
    have reads : splitHostPort text 0 = (p.host.display, p.port) := by
      rcases written with rfl | rfl
      · exact splitHostPort_addrText p 0
      · exact splitHostPort_hostPort p 0
    refine ⟨(p.host, p.port), control_removeQuery reads peerIp, ?_⟩
    rw [Pool.remove]
    apply List.filter_congr
    intro e _
    simp [Proxy.addr]

theorem authority_round_trip_loopback :
    (∃ authority rest, connectRequest "[::1]".toList 443 none =
      ascii "CONNECT " ++ utf8 authority ++ ascii " HTTP/1.1\r\n" ++ rest ∧
      (∀ c ∈ authority, isWhitespace c = false) ∧ ∀ d, splitHostPort authority d = ("::1".toList, 443)) ∧
    connectRequest "[::1]".toList 443 none = connectRequest "::1".toList 443 none := by
  have literal : parseIpAddr "::1".toList = some (.v6 1) := by decide
  obtain ⟨reads, same, -⟩ := authority_round_trip
  exact ⟨reads (Spelled.bracketed literal) 443 none, same literal 443 none⟩

end ProxyBroker.Server
