import ProxyBroker.AuthGate
import ProxyBroker.Lib.IpText
import ProxyBroker.Server.Attempts

/-!
# The SOCKS5 front-end

`Opening` and `ConnectMessage` are the grammar of what a SOCKS5 client sends before its payload, of the
bytes alone; `parse_socks5_request` accepts exactly that and consumes exactly that (`socks5_consumes`,
`socks5_accepts`). `Conversation` is what a SOCKS5 server may say before the tunnel.

The front-end is read once more after the handshake, by each function that replies. `serve_control` does not
read it: a SOCKS5 client that names the host `proxycontrol` gets an HTTP response (`speaks_socks5_iff`).
-/

namespace ProxyBroker.Server
open Lib

/-! ## The handshake on the wire -/

/-- The greeting that the server accepts and, where it wants credentials, the message with them. -/
def Opening (expected : Option AuthExpect) (opening : Bytes) : Prop :=
  match expected with
  | none =>
    ∃ methods, methods.length ≤ 255 ∧ 0x00 ∈ methods ∧ opening = [0x05, UInt8.ofNat methods.length] ++ methods
  | some e =>
    ∃ methods ver, methods.length ≤ 255 ∧ 0x02 ∈ methods ∧ (utf8 e.user).length ≤ 255 ∧ (utf8 e.pass).length ≤ 255 ∧
      opening = [0x05, UInt8.ofNat methods.length] ++ methods ++ rfc1929 ver (utf8 e.user) (utf8 e.pass)

theorem opening_version {expected : Option AuthExpect} {opening : Bytes} (accepted : Opening expected opening) :
    ∃ more, opening = 0x05 :: more := by
  unfold Opening at accepted
  split at accepted
  · obtain ⟨methods, -, -, rfl⟩ := accepted
    exact ⟨_, rfl⟩
  · obtain ⟨methods, ver, -, -, -, -, rfl⟩ := accepted
    exact ⟨_, rfl⟩

/-- What the server writes when it has accepted the opening. -/
def openingReply : Option AuthExpect → Bytes
  | none => [0x05, 0x00]
  | some _ => [0x05, 0x02, 0x01, 0x00]

/-- The bytes of a `CONNECT` request, and the host and port that they name. -/
inductive ConnectMessage : Bytes → Text → UInt16 → Prop
  | v4 (rsv : UInt8) {a p : Bytes} (address : a.length = 4) (port : p.length = 2) :
    ConnectMessage ([0x05, 0x01, rsv, 0x01] ++ a ++ p) (IpAddr.ofOctets4 a).display (beU16 p)
  | v6 (rsv : UInt8) {a p : Bytes} (address : a.length = 16) (port : p.length = 2) :
    ConnectMessage ([0x05, 0x01, rsv, 0x04] ++ a ++ p) (IpAddr.ofOctets6 a).display (beU16 p)
  | domain (rsv : UInt8) {d p : Bytes} (name : d.length ≤ 255) (port : p.length = 2) :
    ConnectMessage ([0x05, 0x01, rsv, 0x03, UInt8.ofNat d.length] ++ d ++ p) (fromUtf8Lossy d) (beU16 p)

/-- The request that a SOCKS5 client makes. -/
def tunnelRequest (host : Text) (port : UInt16) : ClientRequest :=
  ⟨.https, .socks5, host, port, [], none, host ++ [':'] ++ showNat port.toNat⟩

theorem byte_length {bs : Bytes} (fits : bs.length ≤ 255) : bs.length = (UInt8.ofNat bs.length).toNat := by
  rw [UInt8.toNat_ofNat']
  exact (Nat.mod_eq_of_lt (by omega)).symm

theorem socks5Auth_open {s t : Socket} (h : socks5Auth none s = (some (), t)) :
    ∃ methods, methods.length ≤ 255 ∧ 0x00 ∈ methods ∧ s.input = [UInt8.ofNat methods.length] ++ methods ++ t.input := by
  unfold socks5Auth at h
  obtain ⟨methods, s₂, fits, in₂, h₂⟩ := readField_some h
  dsimp only at h₂
  split at h₂
  · rename_i offered
    obtain ⟨in₃, -⟩ := SocketM.writeAll_some h₂
    refine ⟨methods, fits, by simpa using offered, ?_⟩
    rw [in₂, in₃]
  · obtain ⟨-, s₃, -, gaveUp⟩ := SocketM.bind_some.1 h₂
    exact absurd gaveUp SocketM.giveUp_some

theorem socks5Auth_opening {expected : Option AuthExpect} {s t : Socket} (h : socks5Auth expected s = (some (), t)) :
    ∃ opening, Opening expected (0x05 :: opening) ∧ s.input = opening ++ t.input := by
  cases expected with
  | none =>
    obtain ⟨methods, fits, offered, input⟩ := socks5Auth_open h
    exact ⟨_, ⟨methods, fits, offered, rfl⟩, input⟩
  | some e =>
    obtain ⟨methods, ver, fits, offered, user, pass, input⟩ := socks5Auth_message h
    exact ⟨_, ⟨methods, ver, fits, offered, user, pass, rfl⟩, input⟩

/-- A field of `n` bytes and a port. -/
theorem readTarget_some {n : Nat} {f : Bytes → Text} {s t : Socket} {host : Text} {port : UInt16}
    (h : (do
        let a ← SocketM.readExact n
        let p ← SocketM.readExact 2
        return (f a, beU16 p) : SocketM (Text × UInt16)) s = (some (host, port), t)) :
    ∃ a p, a.length = n ∧ p.length = 2 ∧ s.input = a ++ p ++ t.input ∧ host = f a ∧ port = beU16 p := by
  obtain ⟨a, s₁, read, h₁⟩ := SocketM.bind_some.1 h
  obtain ⟨len₁, in₁, -, -⟩ := SocketM.readExact_some.1 read
  obtain ⟨p, s₂, read, h₂⟩ := SocketM.bind_some.1 h₁
  obtain ⟨len₂, in₂, -, -⟩ := SocketM.readExact_some.1 read
  obtain ⟨named, rfl⟩ := SocketM.pure_some.1 h₂
  cases named
  refine ⟨a, p, len₁, len₂, ?_, rfl, rfl⟩
  rw [in₁, in₂, List.append_assoc]

/-- What a request is parsed from. -/
theorem socks5Connect_message {s t : Socket} {req : ClientRequest} (h : socks5Connect s = (some req, t)) :
    ∃ message, ConnectMessage message req.host req.port ∧ s.input = message ++ t.input ∧
      req = tunnelRequest req.host req.port := by
  unfold socks5Connect at h
  obtain ⟨hdr, s₁, read, h₁⟩ := SocketM.bind_some.1 h
  obtain ⟨len, in₁, -, -⟩ := SocketM.readExact_some.1 read
  obtain ⟨ver, cmd, rsv, atyp, rfl⟩ : ∃ a b c d, hdr = [a, b, c, d] := by
    match hdr, len with
    | [a, b, c, d], _ => exact ⟨a, b, c, d, rfl⟩
  split at h₁
  · exact absurd h₁ SocketM.giveUp_some
  rename_i version
  obtain rfl : ver = 0x05 := by simpa using version
  split at h₁
  · obtain ⟨-, s₂, -, gaveUp⟩ := SocketM.bind_some.1 h₁
    exact absurd gaveUp SocketM.giveUp_some
  rename_i command
  obtain rfl : cmd = 0x01 := by simpa using command
  obtain ⟨⟨host, port⟩, s₂, named, h₂⟩ := SocketM.bind_some.1 h₁
  obtain ⟨rfl, rfl⟩ := SocketM.pure_some.1 h₂
  have field : ([0x05, 0x01, rsv, atyp] : Bytes).getD 3 0 = atyp := rfl
  rw [field] at named
  split at named
  · obtain ⟨a, p, address, two, input, rfl, rfl⟩ := readTarget_some named
    refine ⟨_, .v4 rsv address two, ?_, rfl⟩
    rw [in₁, input]
    simp only [List.append_assoc]
  · obtain ⟨a, p, address, two, input, rfl, rfl⟩ := readTarget_some named
    refine ⟨_, .v6 rsv address two, ?_, rfl⟩
    rw [in₁, input]
    simp only [List.append_assoc]
  · obtain ⟨l, s₃, read, named⟩ := SocketM.bind_some.1 named
    obtain ⟨len, in₂, -, -⟩ := SocketM.readExact_some.1 read
    obtain ⟨l, rfl⟩ := List.length_eq_one_iff.1 len
    obtain ⟨d, p, name, two, input, rfl, rfl⟩ := readTarget_some named
    obtain ⟨fits, rfl⟩ := length_byte (n := l) name
    refine ⟨_, .domain rsv fits two, ?_, rfl⟩
    rw [in₁, in₂, input]
    simp
  · obtain ⟨-, s₃, -, gaveUp⟩ := SocketM.bind_some.1 named
    exact absurd gaveUp SocketM.giveUp_some

/-- **The handshake consumes itself.** A request that was parsed stands in the stream after an accepted
opening, and what is left follows it. -/
theorem socks5_consumes {expected : Option AuthExpect} {s t : Socket} {req : ClientRequest}
    (h : parseSocks5Request expected s = (some req, t)) :
    ∃ opening message, Opening expected opening ∧ ConnectMessage message req.host req.port ∧
      0x05 :: s.input = opening ++ message ++ t.input ∧ req = tunnelRequest req.host req.port := by
  obtain ⟨⟨⟩, s₁, gate, asked⟩ := SocketM.bind_some.1 h
  obtain ⟨opening, accepted, in₁⟩ := socks5Auth_opening gate
  obtain ⟨message, names, in₂, whole⟩ := socks5Connect_message asked
  refine ⟨0x05 :: opening, message, accepted, names, ?_, whole⟩
  rw [in₁, in₂, List.cons_append, List.cons_append, List.append_assoc]

/-! ## A client that says its part -/

theorem socks5Auth_accepts {expected : Option AuthExpect} {opening : Bytes} (accepted : Opening expected (0x05 :: opening))
    (rest out : Bytes) :
    socks5Auth expected ⟨opening ++ rest, out, none⟩ = (some (), ⟨rest, out ++ openingReply expected, none⟩) := by
  cases expected with
  | none =>
    obtain ⟨methods, fits, offered, eq⟩ := accepted
    obtain rfl : opening = [UInt8.ofNat methods.length] ++ methods := List.tail_eq_of_cons_eq eq
    unfold socks5Auth
    have asked : methods.contains 0x00 = true := by simpa using offered
    rw [List.append_assoc]
    refine (SocketM.bind_eq (SocketM.readExact_append (by rfl) _ out none)).trans ?_
    refine (SocketM.bind_eq (SocketM.readExact_append (byte_length fits) _ out none)).trans ?_
    rw [if_pos asked]
    rfl
  | some e =>
    obtain ⟨methods, ver, fits, offered, user, pass, eq⟩ := accepted
    obtain rfl := List.tail_eq_of_cons_eq eq
    exact (socks5Auth_run ver rest out fits offered user pass).trans (if_pos ⟨rfl, rfl⟩)

theorem readTarget_accepts {n : Nat} {a p : Bytes} (f : Bytes → Text) (address : a.length = n) (port : p.length = 2)
    (rest out : Bytes) :
    (do
      let a ← SocketM.readExact n
      let p ← SocketM.readExact 2
      return (f a, beU16 p) : SocketM (Text × UInt16)) ⟨a ++ p ++ rest, out, none⟩ =
      (some (f a, beU16 p), ⟨rest, out, none⟩) := by
  rw [List.append_assoc]
  refine (SocketM.bind_eq (SocketM.readExact_append address _ out none)).trans ?_
  exact SocketM.bind_eq (SocketM.readExact_append port _ out none)

theorem socks5Connect_accepts {message : Bytes} {host : Text} {port : UInt16} (names : ConnectMessage message host port)
    (rest out : Bytes) :
    socks5Connect ⟨message ++ rest, out, none⟩ = (some (tunnelRequest host port), ⟨rest, out, none⟩) := by
  unfold socks5Connect
  cases names with
  | @v4 rsv a p address two =>
    rw [show [0x05, 0x01, rsv, 0x01] ++ a ++ p ++ rest = [0x05, 0x01, rsv, 0x01] ++ (a ++ p ++ rest) by simp]
    refine (SocketM.bind_eq (SocketM.readExact_append (by rfl) _ out none)).trans ?_
    refine SocketM.bind_eq (a := ((IpAddr.ofOctets4 a).display, beU16 p)) ?_
    exact readTarget_accepts (fun a => (IpAddr.ofOctets4 a).display) address two rest out
  | @v6 rsv a p address two =>
    rw [show [0x05, 0x01, rsv, 0x04] ++ a ++ p ++ rest = [0x05, 0x01, rsv, 0x04] ++ (a ++ p ++ rest) by simp]
    refine (SocketM.bind_eq (SocketM.readExact_append (by rfl) _ out none)).trans ?_
    refine SocketM.bind_eq (a := ((IpAddr.ofOctets6 a).display, beU16 p)) ?_
    exact readTarget_accepts (fun a => (IpAddr.ofOctets6 a).display) address two rest out
  | @domain rsv d p name two =>
    rw [show [0x05, 0x01, rsv, 0x03, UInt8.ofNat d.length] ++ d ++ p ++ rest =
      [0x05, 0x01, rsv, 0x03] ++ ([UInt8.ofNat d.length] ++ (d ++ p ++ rest)) by simp]
    refine (SocketM.bind_eq (SocketM.readExact_append (by rfl) _ out none)).trans ?_
    refine SocketM.bind_eq (a := (fromUtf8Lossy d, beU16 p)) ?_
    refine (SocketM.bind_eq (SocketM.readExact_append (by rfl) _ out none)).trans ?_
    exact readTarget_accepts fromUtf8Lossy (byte_length name) two rest out

/-- **The handshake accepts its grammar**, of a client that reads what it is sent. -/
theorem socks5_accepts {expected : Option AuthExpect} {opening message : Bytes} {host : Text} {port : UInt16}
    (accepted : Opening expected (0x05 :: opening)) (names : ConnectMessage message host port) (rest out : Bytes) :
    parseSocks5Request expected ⟨opening ++ message ++ rest, out, none⟩ =
      (some (tunnelRequest host port), ⟨rest, out ++ openingReply expected, none⟩) := by
  rw [List.append_assoc]
  refine (SocketM.bind_eq (socks5Auth_accepts accepted (message ++ rest) out)).trans ?_
  exact socks5Connect_accepts names rest (out ++ openingReply expected)

/-- A handshake is read off the stream in one way. -/
theorem socks5_unique {expected : Option AuthExpect} {opening opening' message message' rest rest' : Bytes} {host host' : Text}
    {port port' : UInt16} (accepted : Opening expected opening) (names : ConnectMessage message host port)
    (accepted' : Opening expected opening') (names' : ConnectMessage message' host' port')
    (same : opening ++ message ++ rest = opening' ++ message' ++ rest') : host = host' ∧ rest = rest' := by
  obtain ⟨more, rfl⟩ := opening_version accepted
  obtain ⟨more', rfl⟩ := opening_version accepted'
  have tails : more ++ message ++ rest = more' ++ message' ++ rest' := List.tail_eq_of_cons_eq same
  have parsed := socks5_accepts accepted names rest []
  rw [tails, socks5_accepts accepted' names' rest' []] at parsed
  obtain ⟨request, socket⟩ := Prod.mk.inj parsed
  have hosts : host' = host := congrArg ClientRequest.host (Option.some.inj request)
  exact ⟨hosts.symm, (congrArg Socket.input socket).symm⟩

/-! ## The server's side -/

/-- The ten bytes of a reply to a `CONNECT` request. -/
def Reply (bs : Bytes) : Prop := ∃ rep bound, bs = [0x05, rep, 0x00, 0x01] ++ bound ∧ bound.length = 6

/-- What a SOCKS5 server may say before the tunnel: no method is acceptable; the credentials are not; or a
reply, after the selection of a method and the exchange that goes with it. -/
inductive Conversation : Bytes → Prop
  | refused : Conversation [0x05, 0xFF]
  | denied {status : UInt8} (failure : status ≠ 0) : Conversation [0x05, 0x02, 0x01, status]
  | authenticated {reply : Bytes} (ten : Reply reply) : Conversation ([0x05, 0x02, 0x01, 0x00] ++ reply)
  | replied {method : UInt8} {reply : Bytes} (plain : method ≠ 0x02) (acceptable : method ≠ 0xFF) (ten : Reply reply) :
    Conversation ([0x05, method] ++ reply)

/-- The beginning of such a conversation. -/
def Legal (bs : Bytes) : Prop := ∃ conversation, Conversation conversation ∧ bs <+: conversation

theorem Legal.of_part {bs cs : Bytes} (legal : Legal cs) (part : bs <+: cs) : Legal bs := by
  obtain ⟨conversation, legal, whole⟩ := legal
  exact ⟨conversation, legal, part.trans whole⟩

theorem reply_socks5Reply (rep : UInt8) : Reply (socks5Reply rep) := ⟨rep, [0, 0, 0, 0, 0, 0], rfl, rfl⟩

/-- After an accepted opening comes a part of one reply. -/
theorem legal_reply (expected : Option AuthExpect) {reply bs : Bytes} (ten : Reply reply) (part : bs <+: reply) :
    Legal (openingReply expected ++ bs) := by
  have longer : openingReply expected ++ bs <+: openingReply expected ++ reply := (List.prefix_append_right_inj _).2 part
  cases expected with
  | none => exact ⟨_, .replied (by decide) (by decide) ten, longer⟩
  | some e => exact ⟨_, .authenticated ten, longer⟩

theorem legal_opening (expected : Option AuthExpect) : Legal (openingReply expected) := by
  have legal := legal_reply expected (reply_socks5Reply 0x00) List.nil_prefix
  rwa [List.append_nil] at legal

/-- After an accepted opening an HTTP response is not legal. -/
theorem not_legal_http (expected : Option AuthExpect) : ¬ Legal (openingReply expected ++ [72]) := by
  rintro ⟨conversation, legal, part⟩
  have other {reply : Bytes} (ten : Reply reply) (starts : [72] <+: reply) : False := by
    obtain ⟨rep, bound, rfl, -⟩ := ten
    simp at starts
  cases expected with
  | none =>
    cases legal with
    | refused => simp [openingReply] at part
    | denied => simp [openingReply] at part
    | authenticated => simp [openingReply] at part
    | replied plain acceptable ten =>
      simp only [openingReply, List.cons_append, List.nil_append, List.cons_prefix_cons] at part
      exact other ten part.2.2
  | some e =>
    cases legal with
    | refused => simp [openingReply] at part
    | denied failure =>
      simp only [openingReply, List.cons_append, List.nil_append, List.cons_prefix_cons] at part
      exact failure part.2.2.2.1.symm
    | authenticated ten =>
      simp only [openingReply, List.cons_append, List.nil_append, List.cons_prefix_cons] at part
      exact other ten part.2.2.2.2
    | replied plain acceptable ten =>
      simp only [openingReply, List.cons_append, List.nil_append, List.cons_prefix_cons] at part
      exact plain part.2.1.symm

/-- A read writes nothing. -/
theorem emits_read {α : Type} {n : Nat} {f : Bytes → SocketM α} {R : Option α → Bytes → Prop} (quits : R none [])
    (next : ∀ bs, SocketM.Emits (f bs) R) : SocketM.Emits (SocketM.readExact n >>= f) R := by
  refine (SocketM.emits_readExact n).bind ?_ ?_
  · rintro out rfl
    exact quits
  · rintro bs out rfl
    exact next bs

/-- The method selection writes its accepting messages, or gives up within a legal conversation. -/
theorem socks5Auth_emits (expected : Option AuthExpect) :
    SocketM.Emits (socks5Auth expected) fun r out => Legal out ∧ (r.isSome → out = openingReply expected) := by
  have silent : Legal [] := (legal_opening none).of_part List.nil_prefix
  have refused : SocketM.Emits (do SocketM.ignore (SocketM.writeAll [0x05, 0xFF]); SocketM.giveUp : SocketM Unit)
      fun r out => Legal out ∧ (r.isSome → out = openingReply expected) := by
    refine (SocketM.emits_reject [0x05, 0xFF]).mono ?_
    rintro r out ⟨rfl, part⟩
    exact ⟨⟨_, .refused, part⟩, by simp⟩
  unfold socks5Auth
  refine emits_read ⟨silent, by simp⟩ fun nmethods => emits_read ⟨silent, by simp⟩ fun methods => ?_
  cases expected with
  | none =>
    dsimp only
    split
    · refine (SocketM.emits_writeAll _).mono ?_
      rintro r out ⟨part, whole⟩
      exact ⟨(legal_opening none).of_part part, whole⟩
    · exact refused
  | some e =>
    dsimp only
    split
    · have selected : Legal [0x05, 0x02] := (legal_opening (some e)).of_part (by simp [openingReply])
      refine (SocketM.emits_writeAll _).bind ?_ ?_
      · rintro out ⟨part, -⟩
        exact ⟨selected.of_part part, by simp⟩
      · rintro ⟨⟩ out ⟨-, whole⟩
        obtain rfl := whole rfl
        refine emits_read ⟨selected, by simp⟩ fun vu => emits_read ⟨selected, by simp⟩ fun user => ?_
        refine emits_read ⟨selected, by simp⟩ fun pl => emits_read ⟨selected, by simp⟩ fun pass => ?_
        split
        · refine (SocketM.emits_writeAll _).mono ?_
          rintro r out ⟨part, whole⟩
          refine ⟨(legal_opening (some e)).of_part ((List.prefix_append_right_inj [0x05, 0x02]).2 part), ?_⟩
          intro done
          rw [whole done]
          rfl
        · refine (SocketM.emits_reject _).mono ?_
          rintro r out ⟨rfl, part⟩
          exact ⟨⟨_, .denied (by decide), (List.prefix_append_right_inj [0x05, 0x02]).2 part⟩, by simp⟩
    · exact refused

/-- The `CONNECT` request is answered only when it is rejected. -/
theorem socks5Connect_emits :
    SocketM.Emits socks5Connect fun r out => (∃ rep, out <+: socks5Reply rep) ∧ (r.isSome → out = []) := by
  have quiet {α : Type} {r : Option α} : (∃ rep, [] <+: socks5Reply rep) ∧ (r.isSome → ([] : Bytes) = []) :=
    ⟨⟨0, List.nil_prefix⟩, fun _ => rfl⟩
  have rejects {α : Type} (rep : UInt8) : SocketM.Emits (do SocketM.ignore (SocketM.writeAll (socks5Reply rep)); SocketM.giveUp)
      fun (r : Option α) out => (∃ rep, out <+: socks5Reply rep) ∧ (r.isSome → out = []) := by
    refine (SocketM.emits_reject _).mono ?_
    rintro r out ⟨rfl, part⟩
    exact ⟨⟨rep, part⟩, by simp⟩
  have named (x : Text × UInt16) : SocketM.Emits (pure x)
      fun r out => (∃ rep, out <+: socks5Reply rep) ∧ (r.isSome → out = []) := by
    refine (SocketM.emits_pure x).mono ?_
    rintro r out ⟨-, rfl⟩
    exact ⟨⟨0, List.nil_prefix⟩, fun _ => rfl⟩
  unfold socks5Connect
  refine emits_read quiet fun hdr => ?_
  split
  · refine SocketM.emits_giveUp.mono ?_
    rintro r out ⟨rfl, rfl⟩
    exact quiet
  split
  · exact rejects 0x07
  refine SocketM.Emits.bind (Q := fun r out => (∃ rep, out <+: socks5Reply rep) ∧ (r.isSome → out = [])) ?_ ?_ ?_
  · split
    · exact emits_read quiet fun a => emits_read quiet fun p => named _
    · exact emits_read quiet fun a => emits_read quiet fun p => named _
    · exact emits_read quiet fun l => emits_read quiet fun d => emits_read quiet fun p => named _
    · exact rejects 0x08
  · rintro out ⟨part, -⟩
    exact ⟨part, by simp⟩
  · rintro target out ⟨-, whole⟩
    obtain rfl := whole rfl
    refine (SocketM.emits_pure _).mono ?_
    rintro r out ⟨-, rfl⟩
    exact quiet

/-- **The handshake speaks SOCKS5**, whatever the client sends and wherever it goes away. -/
theorem socks5_emits (expected : Option AuthExpect) :
    SocketM.Emits (parseSocks5Request expected) fun r out => Legal out ∧ (r.isSome → out = openingReply expected) := by
  refine (socks5Auth_emits expected).bind ?_ ?_
  · rintro out ⟨legal, -⟩
    exact ⟨legal, by simp⟩
  · rintro ⟨⟩ out ⟨-, whole⟩
    obtain rfl := whole rfl
    refine socks5Connect_emits.mono ?_
    rintro r out ⟨⟨rep, part⟩, parsed⟩
    refine ⟨legal_reply expected (reply_socks5Reply rep) part, ?_⟩
    intro done
    rw [parsed done, List.append_nil]

/-! ## The front-end -/

namespace Handler
variable {ctx : ConnCtx} {req : ClientRequest} {unread preface : Bytes} {s : State} {is : List Input}

/-- What the client was sent so far. -/
def sent (ctx : ConnCtx) (s : State) : Bytes :=
  s.preface ++ (relays ctx s).flatMap (fun a => a.relay.clientWritten) ++ s.refusal

/-- No splice has begun. -/
def Untunnelled (ctx : ConnCtx) (s : State) : Prop := ∀ a ∈ relays ctx s, a.relay.spliced = false

/-- In every run on the stream, what the client was sent before the splice is the beginning of a SOCKS5
conversation. -/
def SpeaksSocks5 (ctx : ConnCtx) (stream : Bytes) : Prop :=
  ∀ budget is s, run (step ctx) (accept stream budget) is = some s → Untunnelled ctx s → Legal (sent ctx s)

/-- The stream is an accepted opening and then a `CONNECT` to the domain name `proxycontrol`. -/
def AsksControl (expected : Option AuthExpect) (stream : Bytes) : Prop :=
  ∃ opening rsv port rest, Opening expected opening ∧ port.length = 2 ∧
    stream = opening ++ ([0x05, 0x01, rsv, 0x03, 12] ++ ascii "proxycontrol" ++ port) ++ rest

theorem flatMap_silent {attempts : List Attempt} (silent : Silent attempts) :
    attempts.flatMap (fun a => a.relay.clientWritten) = [] := by
  rw [List.flatMap_eq_nil_iff]
  exact silent

/-- The serving loop answers a SOCKS5 client with a part of one reply. -/
theorem tunnel_reply (socks : req.frontend = .socks5) (h : run (step ctx) (admitted req unread preface) is = some s)
    (before : Untunnelled ctx s) : ∃ bs rep, sent ctx s = preface ++ bs ∧ bs <+: socks5Reply rep := by
  have inv := commits_run h
  unfold sent
  rw [preface_run h]
  rcases commits_dichotomy inv with ⟨silent, part⟩ | ⟨nothing, earlier, last, split, silent, frontend, -, written⟩
  · rw [socks] at part
    refine ⟨s.refusal, 0x01, ?_, part⟩
    rw [flatMap_silent silent, List.append_nil]
  · have mem : last ∈ relays ctx s := by simp [split]
    obtain ⟨sv, proxy, js, -, -, ran⟩ := calls_run h last mem
    have unspliced : last.relay.upRead = [] := (Relay.tunnel_run (by simp [frontend, socks]) ran).1 (before last mem)
    rw [unspliced, Relay.output, frontend, socks, List.append_nil] at written
    refine ⟨last.relay.clientWritten, 0x00, ?_, written⟩
    rw [nothing, split, List.flatMap_append, flatMap_silent silent]
    simp

theorem parse_socks5 (expected : Option AuthExpect) (stream out : Bytes) (budget : Option Nat) :
    parseClientRequest expected ⟨0x05 :: stream, out, budget⟩ = parseSocks5Request expected ⟨stream, out, budget⟩ := by
  have version : SocketM.readExact 1 ⟨0x05 :: stream, out, budget⟩ = (some [0x05], ⟨stream, out, budget⟩) :=
    SocketM.readExact_some.2 ⟨rfl, rfl, rfl, rfl⟩
  rw [parseClientRequest, SocketM.bind_eq version, if_pos rfl]

/-- Only the domain name `proxycontrol` names the host `proxycontrol`. -/
theorem names_control {message : Bytes} {host : Text} {port : UInt16} (names : ConnectMessage message host port)
    (control : host = "proxycontrol".toList) :
    ∃ rsv p, p.length = 2 ∧ message = [0x05, 0x01, rsv, 0x03, 12] ++ ascii "proxycontrol" ++ p := by
  have no_address (ip : IpAddr) (shown : ip.display = "proxycontrol".toList) : False := by
    have parsed := parse_display ip
    rw [shown] at parsed
    cases parsed.symm.trans (by decide : parseIpAddr "proxycontrol".toList = none)
  cases names with
  | v4 rsv address two => exact (no_address _ control).elim
  | v6 rsv address two => exact (no_address _ control).elim
  | @domain rsv d p name two =>
    obtain rfl : d = ascii "proxycontrol" := eq_of_lossy_ascii (by simp) control
    exact ⟨rsv, p, two, rfl⟩

/-- The path of such a request is no control path. -/
theorem control_tunnel (peerIp : IpAddr) (port : UInt16) :
    control peerIp (tunnelRequest "proxycontrol".toList port).path = .nothing := by
  have absent : '/' ∉ (tunnelRequest "proxycontrol".toList port).path := by
    intro mem
    rcases List.mem_append.1 mem with fixed | digit
    · exact absurd fixed (by decide)
    · exact not_mem_showNat (by decide) _ digit
  have unsplit : splitOnce '/' (tunnelRequest "proxycontrol".toList port).path = none := by
    rcases splitOnce_cases '/' (tunnelRequest "proxycontrol".toList port).path with ⟨eq, -⟩ | ⟨l, r, -, split, -⟩
    · exact eq
    · rw [split] at absent
      simp at absent
  have plain : ((stripPrefix "http://proxycontrol".toList (tunnelRequest "proxycontrol".toList port).path).getD
      (tunnelRequest "proxycontrol".toList port).path).dropWhile (· = '/') = (tunnelRequest "proxycontrol".toList port).path := rfl
  rw [control, plain, splitN, unsplit]

/-- A SOCKS5 client that does not ask for the control host is spoken to in SOCKS5. -/
theorem speaks_of_not_asks {stream : Bytes} (other : ¬ AsksControl ctx.expectedAuth (0x05 :: stream)) :
    SpeaksSocks5 ctx (0x05 :: stream) := by
  intro budget is s ran before
  have silent : Legal [] := (legal_opening none).of_part List.nil_prefix
  cases is with
  | nil =>
    cases ran
    exact silent
  | cons i is =>
    obtain ⟨t, first, rest⟩ := run_cons_iff.1 ran
    obtain ⟨out, wrote, legal, accepted⟩ := socks5_emits ctx.expectedAuth ⟨stream, [], budget⟩
    rw [List.nil_append] at wrote
    cases i
    case parse =>
      simp only [step, accept, parse_socks5] at first
      split at first
      · rename_i after parsed
        rw [parsed] at wrote
        cases first
        cases is with
        | nil =>
          cases rest
          simpa [sent, relays, ← wrote] using legal
        | cons j is =>
          obtain ⟨u, next, -⟩ := run_cons_iff.1 rest
          simp [step] at next
      · rename_i req after parsed
        obtain ⟨opening, message, opens, names, split, whole⟩ := socks5_consumes parsed
        have host : req.host ≠ "proxycontrol".toList := by
          intro control
          obtain ⟨rsv, p, two, rfl⟩ := names_control names control
          exact other ⟨opening, rsv, p, after.input, opens, two, split⟩
        have socks : req.frontend = .socks5 := by rw [whole]; rfl
        have passes : authPasses ctx.expectedAuth req = true := by simp [authPasses, socks]
        have admits : dispatch ctx req = .resolving req := by rw [dispatch, if_pos passes, if_neg host]
        rw [admits] at first
        cases first
        obtain ⟨bs, rep, said, part⟩ := tunnel_reply socks rest before
        rw [parsed] at wrote accepted
        rw [said, wrote, accepted rfl]
        exact legal_reply _ (reply_socks5Reply rep) part
    all_goals simp [step, accept] at first

/-- A SOCKS5 client that asks for the control host gets an HTTP response. -/
theorem not_speaks_of_asks {stream : Bytes} (asks : AsksControl ctx.expectedAuth (0x05 :: stream)) :
    ¬ SpeaksSocks5 ctx (0x05 :: stream) := by
  intro speaks
  obtain ⟨opening, rsv, p, rest, opens, two, split⟩ := asks
  obtain ⟨opening, rfl⟩ := opening_version opens
  have count : UInt8.ofNat (ascii "proxycontrol").length = 12 := by decide
  have parsed := socks5_accepts opens (.domain rsv (d := ascii "proxycontrol") (by decide) two) rest []
  have host : fromUtf8Lossy (ascii "proxycontrol") = "proxycontrol".toList := by decide
  have stream_eq : stream = opening ++ ([0x05, 0x01, rsv, 0x03, 12] ++ ascii "proxycontrol" ++ p) ++ rest :=
    List.tail_eq_of_cons_eq split
  rw [host, count, ← stream_eq] at parsed
  have passes : authPasses ctx.expectedAuth (tunnelRequest "proxycontrol".toList (beU16 p)) = true := rfl
  have answers : dispatch ctx (tunnelRequest "proxycontrol".toList (beU16 p)) = .answering noContent := by
    rw [dispatch, if_pos passes, if_pos (by rfl), control_tunnel]
  have ran : run (step ctx) (accept (0x05 :: stream) none) [.parse, .client (.wrote 1)] =
      some ⟨.answering (noContent.drop 1), rest, [], openingReply ctx.expectedAuth ++ noContent.take 1, [], false, [.controlReply]⟩ := by
    simp only [run, step, accept, parse_socks5, parsed, answers, List.nil_append]
  have legal := speaks none _ _ ran (by simp [Untunnelled, relays])
  have http : noContent.take 1 = [72] := by decide
  refine not_legal_http ctx.expectedAuth ?_
  simpa [sent, relays, http] using legal

/-- **The SOCKS5 front-end.** For every server configuration and every stream that begins with a SOCKS5
version byte: in all runs the client is spoken to in SOCKS5 until the tunnel, if and only if it does not ask
for the control host. -/
theorem speaks_socks5_iff (ctx : ConnCtx) (stream : Bytes) :
    SpeaksSocks5 ctx (0x05 :: stream) ↔ ¬ AsksControl ctx.expectedAuth (0x05 :: stream) := by
  constructor
  · intro speaks asks
    exact not_speaks_of_asks asks speaks
  · exact speaks_of_not_asks

/-- A client without credentials asks for `proxycontrol:80`. -/
theorem control_answers_http : ¬ SpeaksSocks5 ⟨none, .v4 0, .default⟩
    ([0x05, 0x01, 0x00, 0x05, 0x01, 0x00, 0x03, 12] ++ ascii "proxycontrol" ++ [0, 80]) :=
  not_speaks_of_asks ⟨[0x05, 0x01, 0x00], 0x00, [0, 80], [], ⟨[0x00], by decide, by decide, rfl⟩, rfl, rfl⟩

end Handler

end ProxyBroker.Server
