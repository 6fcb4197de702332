import ProxyBroker.Socks5

/-!
# A SOCKS5 client and `parse_socks5_request`

`clientGreeting` and `Target.message` are what a client writes after the version byte, in the layout of RFC 1928 and RFC 1929.
The server reads the target back, answers with the method selection and the status of the credentials, and leaves what
comes after (`socks5_round_trip`). `Refused` lists the streams that it turns down.
-/

namespace ProxyBroker.Server
open Lib

/-! ## What a client writes -/

/-- Where a client wants to go. -/
inductive Target where
  | v4 (bits : BitVec 32)
  | v6 (bits : BitVec 128)
  | domain (name : Text)
deriving DecidableEq, Repr

/-- The host that a target names. -/
def Target.host : Target → Text
  | .v4 bits => (IpAddr.v4 bits).display
  | .v6 bits => (IpAddr.v6 bits).display
  | .domain name => name

/-- A domain name has at most 255 bytes. -/
def Target.Fits : Target → Prop
  | .domain name => (utf8 name).length ≤ 255
  | _ => True

/-- The `n` bytes of a number, the most significant one first. -/
def beBytes (n x : Nat) : Bytes := (fields 8 n x).map UInt8.ofNat

/-- The `CONNECT` request. -/
def Target.message (port : UInt16) : Target → Bytes
  | .v4 bits => [0x05, 0x01, 0x00, 0x01] ++ beBytes 4 bits.toNat ++ beBytes 2 port.toNat
  | .v6 bits => [0x05, 0x01, 0x00, 0x04] ++ beBytes 16 bits.toNat ++ beBytes 2 port.toNat
  | .domain name => [0x05, 0x01, 0x00, 0x03, UInt8.ofNat (utf8 name).length] ++ utf8 name ++ beBytes 2 port.toNat

/-- The method that the server selects. -/
def requiredMethod : Option AuthExpect → UInt8
  | none => 0x00
  | some _ => 0x02

/-- The greeting after its version byte and, where credentials are expected, the message with them. -/
def clientGreeting (expected : Option AuthExpect) (methods : Bytes) : Bytes :=
  match expected with
  | none => [UInt8.ofNat methods.length] ++ methods
  | some e => [UInt8.ofNat methods.length] ++ methods ++ rfc1929 0x01 (utf8 e.user) (utf8 e.pass)

/-- The expected credentials have at most 255 bytes each. -/
def CredentialsFit : Option AuthExpect → Prop
  | none => True
  | some e => (utf8 e.user).length ≤ 255 ∧ (utf8 e.pass).length ≤ 255

variable {expected : Option AuthExpect} {methods user pass opening rest stream : Bytes} {target : Target}

/-! ## The round trip -/

theorem length_beBytes (n x : Nat) : (beBytes n x).length = n := by
  rw [beBytes, List.length_map, fields_length]

/-- The bytes are read back. -/
theorem joinFields_beBytes {n x : Nat} (lt : x < 2 ^ (8 * n)) : joinFields 8 ((beBytes n x).map UInt8.toNat) = x := by
  have bytes : (beBytes n x).map UInt8.toNat = fields 8 n x := by
    rw [beBytes, List.map_map]
    refine (List.map_congr_left fun f mem => ?_).trans (List.map_id _)
    have small : f < 2 ^ 8 := fields_lt f mem
    simpa using Nat.mod_eq_of_lt small
  rw [bytes, joinFields_fields lt]

theorem beU16_beBytes (port : UInt16) : beU16 (beBytes 2 port.toNat) = port := by
  rw [beU16, joinFields_beBytes port.toNat_lt, UInt16.ofNat_toNat]

/-- A client's request is one that the server accepts, for the target's host. -/
theorem target_names (target : Target) (port : UInt16) (fits : target.Fits) : ConnectMessage (target.message port) target.host port := by
  have back := beU16_beBytes port
  cases target with
  | v4 bits =>
    have names := ConnectMessage.v4 0x00 (length_beBytes 4 bits.toNat) (length_beBytes 2 port.toNat)
    rw [back, IpAddr.ofOctets4, joinFields_beBytes bits.isLt, BitVec.ofNat_toNat, BitVec.setWidth_eq] at names
    exact names
  | v6 bits =>
    have names := ConnectMessage.v6 0x00 (length_beBytes 16 bits.toNat) (length_beBytes 2 port.toNat)
    rw [back, IpAddr.ofOctets6, joinFields_beBytes bits.isLt, BitVec.ofNat_toNat, BitVec.setWidth_eq] at names
    exact names
  | domain name =>
    have names := ConnectMessage.domain 0x00 fits (length_beBytes 2 port.toNat)
    rw [back, lossy_utf8] at names
    exact names

theorem greeting_opening (fits : methods.length ≤ 255) (offered : requiredMethod expected ∈ methods) (creds : CredentialsFit expected) :
    Opening expected (0x05 :: clientGreeting expected methods) := by
  cases expected with
  | none => exact ⟨methods, fits, offered, rfl⟩
  | some e => exact ⟨methods, 0x01, fits, offered, creds.1, creds.2, rfl⟩

/-! ## What is turned down -/

/-- A greeting after its version byte and, where credentials are expected, a message with any. -/
inductive Greeting : Option AuthExpect → Bytes → Prop
  | plain {methods : Bytes} (fits : methods.length ≤ 255) : Greeting none ([UInt8.ofNat methods.length] ++ methods)
  | credentials (e : AuthExpect) (ver : UInt8) {methods user pass : Bytes} (fits : methods.length ≤ 255) (user_fits : user.length ≤ 255)
    (pass_fits : pass.length ≤ 255) :
    Greeting (some e) ([UInt8.ofNat methods.length] ++ methods ++ rfc1929 ver user pass)

/-- A request of any version and command, to an address of a known type. -/
inductive Request : Bytes → Prop
  | v4 (ver cmd rsv : UInt8) {a p : Bytes} (address : a.length = 4) (port : p.length = 2) : Request ([ver, cmd, rsv, 0x01] ++ a ++ p)
  | v6 (ver cmd rsv : UInt8) {a p : Bytes} (address : a.length = 16) (port : p.length = 2) : Request ([ver, cmd, rsv, 0x04] ++ a ++ p)
  | domain (ver cmd rsv : UInt8) {d p : Bytes} (name : d.length ≤ 255) (port : p.length = 2) :
    Request ([ver, cmd, rsv, 0x03, UInt8.ofNat d.length] ++ d ++ p)

/-- The streams after a version byte that the server turns down. -/
inductive Refused (expected : Option AuthExpect) : Bytes → Prop
  | method {methods : Bytes} (fits : methods.length ≤ 255) (absent : requiredMethod expected ∉ methods) (rest : Bytes) :
    Refused expected ([UInt8.ofNat methods.length] ++ methods ++ rest)
  | credentials {e : AuthExpect} (expects : expected = some e) (ver : UInt8) {methods user pass : Bytes} (fits : methods.length ≤ 255)
    (user_fits : user.length ≤ 255) (pass_fits : pass.length ≤ 255) (wrong : ¬ (user = utf8 e.user ∧ pass = utf8 e.pass)) (rest : Bytes) :
    Refused expected ([UInt8.ofNat methods.length] ++ methods ++ rfc1929 ver user pass ++ rest)
  | command {opening : Bytes} (greets : Greeting expected opening) (ver cmd : UInt8) (other : cmd ≠ 0x01) (rest : Bytes) :
    Refused expected (opening ++ [ver, cmd] ++ rest)
  | addressType {opening : Bytes} (greets : Greeting expected opening) (ver cmd rsv atyp : UInt8)
    (unknown : atyp ≠ 0x01 ∧ atyp ≠ 0x03 ∧ atyp ≠ 0x04) (rest : Bytes) :
    Refused expected (opening ++ [ver, cmd, rsv, atyp] ++ rest)
  | early {stream opening request more : Bytes} (greets : Greeting expected opening) (asks : Request request) (cut : more ≠ [])
    (split : stream ++ more = opening ++ request) : Refused expected stream

/-- A counted field is read off in one way. -/
theorem counted_inj {a b x y : Bytes} (fits : a.length ≤ 255) (fits' : b.length ≤ 255)
    (same : [UInt8.ofNat a.length] ++ a ++ x = [UInt8.ofNat b.length] ++ b ++ y) : a = b ∧ x = y := by
  rw [List.append_assoc, List.append_assoc] at same
  obtain ⟨count, tails⟩ := List.append_inj same rfl
  have length : a.length = b.length := by
    have counts := congrArg UInt8.toNat (List.singleton_inj.1 count)
    rwa [← byte_length fits, ← byte_length fits'] at counts
  exact List.append_inj tails length

theorem rfc1929_inj {ver ver' : UInt8} {user pass user' pass' x y : Bytes} (user_fits : user.length ≤ 255) (pass_fits : pass.length ≤ 255)
    (user_fits' : user'.length ≤ 255) (pass_fits' : pass'.length ≤ 255)
    (same : rfc1929 ver user pass ++ x = rfc1929 ver' user' pass' ++ y) : user = user' ∧ pass = pass' ∧ x = y := by
  have layout (ver : UInt8) (user pass x : Bytes) : rfc1929 ver user pass ++ x =
      ver :: ([UInt8.ofNat user.length] ++ user ++ ([UInt8.ofNat pass.length] ++ pass ++ x)) := by
    simp [rfc1929]
  rw [layout, layout] at same
  obtain ⟨users, later⟩ := counted_inj user_fits user_fits' (List.tail_eq_of_cons_eq same)
  obtain ⟨passes, rest⟩ := counted_inj pass_fits pass_fits' later
  exact ⟨users, passes, rest⟩

/-- A greeting that the server accepts offers the method. -/
theorem opening_offers (accepted : Opening expected (0x05 :: opening)) : ∃ methods more, methods.length ≤ 255 ∧
    requiredMethod expected ∈ methods ∧ opening = [UInt8.ofNat methods.length] ++ methods ++ more := by
  cases expected with
  | none =>
    obtain ⟨methods, fits, offered, eq⟩ := accepted
    exact ⟨methods, [], fits, offered, by rw [List.append_nil]; exact List.tail_eq_of_cons_eq eq⟩
  | some e =>
    obtain ⟨methods, ver, fits, offered, -, -, eq⟩ := accepted
    exact ⟨methods, _, fits, offered, List.tail_eq_of_cons_eq eq⟩

/-- A greeting that the server accepts is a greeting. -/
theorem Greeting.of_opening (accepted : Opening expected (0x05 :: opening)) : Greeting expected opening := by
  cases expected with
  | none =>
    obtain ⟨methods, fits, -, eq⟩ := accepted
    obtain rfl : opening = [UInt8.ofNat methods.length] ++ methods := List.tail_eq_of_cons_eq eq
    exact .plain fits
  | some e =>
    obtain ⟨methods, ver, fits, -, user, pass, eq⟩ := accepted
    obtain rfl : opening = [UInt8.ofNat methods.length] ++ methods ++ rfc1929 ver (utf8 e.user) (utf8 e.pass) :=
      List.tail_eq_of_cons_eq eq
    exact .credentials e ver fits user pass

/-- What follows a greeting is read off in one way. -/
theorem Greeting.rest_inj {opening' x y : Bytes} (greets : Greeting expected opening) (greets' : Greeting expected opening')
    (same : opening ++ x = opening' ++ y) : x = y := by
  cases greets with
  | plain fits =>
    cases greets' with
    | plain fits' => exact (counted_inj fits fits' same).2
  | credentials e ver fits user pass =>
    cases greets' with
    | credentials _ ver' fits' user' pass' =>
      simp only [List.append_assoc] at same
      obtain ⟨-, rest⟩ := counted_inj fits fits' (by simpa using same)
      exact (rfc1929_inj user pass user' pass' rest).2.2

/-- The four bytes that an accepted request begins with. -/
theorem ConnectMessage.header {message : Bytes} {host : Text} {port : UInt16} (names : ConnectMessage message host port) :
    ∃ rsv atyp more, message = [0x05, 0x01, rsv, atyp] ++ more ∧ (atyp = 0x01 ∨ atyp = 0x03 ∨ atyp = 0x04) := by
  cases names with
  | v4 rsv address two => exact ⟨rsv, 0x01, _, by rw [List.append_assoc], Or.inl rfl⟩
  | v6 rsv address two => exact ⟨rsv, 0x04, _, by rw [List.append_assoc], Or.inr (Or.inr rfl)⟩
  | @domain rsv d p name two =>
    exact ⟨rsv, 0x03, UInt8.ofNat d.length :: (d ++ p), by simp, Or.inr (Or.inl rfl)⟩

/-- Nothing of a request is left when an accepted one has been read off it. -/
theorem request_ends {request message rest : Bytes} {host : Text} {port : UInt16} (asks : Request request)
    (names : ConnectMessage message host port) (same : request = message ++ rest) : rest = [] := by
  have types := congrArg (fun bs => bs.getD 3 0) same
  have counts := congrArg (fun bs => (bs.getD 4 0).toNat) same
  have lengths := congrArg List.length same
  rw [← List.length_eq_zero_iff]
  cases asks with
  | v4 ver cmd rsv address two =>
    cases names with
    | v4 rsv' address' two' =>
      simp only [List.length_append, List.length_cons, List.length_nil] at lengths
      omega
    | v6 rsv' address' two' => simp at types
    | domain rsv' name two' => simp at types
  | v6 ver cmd rsv address two =>
    cases names with
    | v4 rsv' address' two' => simp at types
    | v6 rsv' address' two' =>
      simp only [List.length_append, List.length_cons, List.length_nil] at lengths
      omega
    | domain rsv' name two' => simp at types
  | @domain ver cmd rsv d p name two =>
    cases names with
    | v4 rsv' address' two' => simp at types
    | v6 rsv' address' two' => simp at types
    | @domain rsv' d' p' name' two' =>
      have same_count : (UInt8.ofNat d.length).toNat = (UInt8.ofNat d'.length).toNat := counts
      rw [← byte_length name, ← byte_length name'] at same_count
      simp only [List.length_append, List.length_cons, List.length_nil] at lengths
      omega

/-- The server turns down what it should. -/
theorem refused_of_accepted {more : Bytes} (refused : Refused expected stream) (accepted : Opening expected (0x05 :: opening))
    {message : Bytes} {host : Text} {port : UInt16} (names : ConnectMessage message host port) : stream ≠ opening ++ message ++ more := by
  intro split
  have greets := Greeting.of_opening accepted
  obtain ⟨rsv, atyp, fields, header, known⟩ := names.header
  cases refused with
  | method fits absent rest =>
    obtain ⟨methods', later, fits', offered, rfl⟩ := opening_offers accepted
    obtain ⟨rfl, -⟩ := counted_inj (y := later ++ message ++ more) fits fits' (by simpa using split)
    exact absent offered
  | credentials expects ver fits user_fits pass_fits wrong rest =>
    subst expects
    obtain ⟨methods', ver', fits', -, user', pass', eq⟩ := accepted
    obtain rfl := List.tail_eq_of_cons_eq eq
    simp only [List.append_assoc] at split
    obtain ⟨-, later⟩ := counted_inj fits fits' (by simpa using split)
    obtain ⟨users, passes, -⟩ := rfc1929_inj user_fits pass_fits user' pass' later
    exact wrong ⟨users, passes⟩
  | command greets' ver cmd other rest =>
    rw [List.append_assoc, List.append_assoc] at split
    have rest := greets'.rest_inj greets split
    rw [header] at rest
    exact other (List.cons.inj (List.cons.inj rest).2).1
  | addressType greets' ver cmd rsv' atyp' unknown rest =>
    rw [List.append_assoc, List.append_assoc] at split
    have rest := greets'.rest_inj greets split
    rw [header] at rest
    obtain rfl := (List.cons.inj (List.cons.inj (List.cons.inj (List.cons.inj rest).2).2).2).1
    rcases known with same | same | same
    · exact unknown.1 same
    · exact unknown.2.1 same
    · exact unknown.2.2 same
  | early greets' asks cut whole =>
    rw [split, List.append_assoc, List.append_assoc] at whole
    have rest := greets'.rest_inj greets whole.symm
    have ended := request_ends asks names rest
    exact cut (List.append_eq_nil_iff.1 ended).2

/-- **The SOCKS5 handshake.** For every target, port and list of methods with the required one: the server reads off
what a client writes its host and its port, answers with the method selection and the status of the credentials, and
leaves what comes after, whatever that is. It accepts no stream but such handshakes (with any reserved byte and any
version of the credentials), and none of those that it should refuse. -/
theorem socks5_round_trip (expected : Option AuthExpect) :
    (∀ (target : Target) (port : UInt16) (methods rest out : Bytes), target.Fits → methods.length ≤ 255 →
      requiredMethod expected ∈ methods → CredentialsFit expected →
      parseSocks5Request expected ⟨clientGreeting expected methods ++ target.message port ++ rest, out, none⟩ =
        (some (tunnelRequest target.host port), ⟨rest, out ++ openingReply expected, none⟩)) ∧
    (∀ (s t : Socket) (req : ClientRequest), parseSocks5Request expected s = (some req, t) →
      ∃ opening message, Opening expected opening ∧ ConnectMessage message req.host req.port ∧
        0x05 :: s.input = opening ++ message ++ t.input) ∧
    ∀ (stream out : Bytes) (budget : Option Nat), Refused expected stream →
      (parseSocks5Request expected ⟨stream, out, budget⟩).1 = none := by
  refine ⟨?_, ?_, ?_⟩
  · intro target port methods rest out fits few offered creds
    exact socks5_accepts (greeting_opening few offered creds) (target_names target port fits) rest out
  · intro s t req parsed
    obtain ⟨opening, message, accepted, names, split, -⟩ := socks5_consumes parsed
    exact ⟨opening, message, accepted, names, split⟩
  · intro stream out budget refused
    cases parsed : parseSocks5Request expected ⟨stream, out, budget⟩ with
    | mk result t =>
      cases result with
      | none => rfl
      | some req =>
        obtain ⟨opening, message, accepted, names, split, -⟩ := socks5_consumes parsed
        obtain ⟨more, rfl⟩ := opening_version accepted
        exact absurd (List.tail_eq_of_cons_eq split) (refused_of_accepted refused accepted names)

/-- A client with the right credentials asks for `h:443`, and one with no method asks for nothing. -/
theorem socks5_round_trip_run :
    (parseSocks5Request (some ⟨['u'], ['p'], []⟩)
      ⟨clientGreeting (some ⟨['u'], ['p'], []⟩) [0x00, 0x02] ++ (Target.domain ['h']).message 443 ++ [22, 3], [], none⟩ =
        (some (tunnelRequest ['h'] 443), ⟨[22, 3], [0x05, 0x02, 0x01, 0x00], none⟩)) ∧
    (parseSocks5Request none ⟨[0x00, 0x05, 0x01], [], none⟩).1 = none := by
  have small : (utf8 ['u']).length ≤ 255 ∧ (utf8 ['p']).length ≤ 255 ∧ (utf8 ['h']).length ≤ 255 := by decide
  refine ⟨?_, ?_⟩
  · exact (socks5_round_trip (some ⟨['u'], ['p'], []⟩)).1 (.domain ['h']) 443 [0x00, 0x02] [22, 3] [] small.2.2 (by decide) (by decide)
      ⟨small.1, small.2.1⟩
  · exact (socks5_round_trip none).2.2 [0x00, 0x05, 0x01] [] none (@Refused.method none [] (by simp) (by simp) [0x05, 0x01])

end ProxyBroker.Server
