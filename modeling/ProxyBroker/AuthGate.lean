import ProxyBroker.System

/-!
# The credential gates

A server with `--auth` asks an HTTP client for a `Proxy-Authorization` header and a SOCKS5 client for an
RFC 1929 message. `Carries` says, of the bytes alone, that a client's stream has the credentials. Without
them a connection never gets past its first phases (`Handler.Gated`): it asks nothing of the pool or the
history in any interleaving.
-/

namespace ProxyBroker
open Lib Server

namespace Server

/-! ## Credentials on the wire -/

/-- The first `name:` header of a head has this value, once trimmed. -/
def FirstHeader (head : Bytes) (name value : Text) : Prop :=
  ∃ request before line after, lines (fromUtf8Lossy head) = request :: (before ++ line :: after) ∧
    (∀ l ∈ before, isHeader name l = false) ∧ isHeader name line = true ∧ value = trim (line.drop (name.length + 1))

/-- A username and password message, in the layout of RFC 1929. There `ver` is 1. -/
def rfc1929 (ver : UInt8) (user pass : Bytes) : Bytes :=
  [ver, UInt8.ofNat user.length] ++ user ++ [UInt8.ofNat pass.length] ++ pass

/-- A SOCKS5 client that offers the username and password method, and then the message. -/
structure CarriesSocks5 (expected : AuthExpect) (ver : UInt8) (stream : Bytes) : Prop where
  user : (utf8 expected.user).length ≤ 255
  pass : (utf8 expected.pass).length ≤ 255
  message : ∃ methods rest, methods.length ≤ 255 ∧ 0x02 ∈ methods ∧
    stream = [0x05, UInt8.ofNat methods.length] ++ methods ++ rfc1929 ver (utf8 expected.user) (utf8 expected.pass) ++ rest

/-- An HTTP client whose head has the expected credentials in its first `Proxy-Authorization` header. -/
def CarriesHttp (expected : AuthExpect) (stream : Bytes) : Prop :=
  ∃ head, head <+: stream ∧ head.head? ≠ some 0x05 ∧ Buffered head ∧ FirstHeader head proxyAuthorization expected.basic

/-- The stream has the credentials, whatever the version byte of its RFC 1929 message. -/
def Carries (expected : AuthExpect) (stream : Bytes) : Prop :=
  CarriesHttp expected stream ∨ ∃ ver, CarriesSocks5 expected ver stream

theorem headerValue_first {head : Bytes} {name value : Text} (h : headerValue head name = some value) :
    FirstHeader head name value := by
  obtain ⟨line, found, rfl⟩ := Option.map_eq_some_iff.1 h
  obtain ⟨header, before, after, split, others⟩ := List.find?_eq_some_iff_append.1 found
  cases all : lines (fromUtf8Lossy head) with
  | nil => simp [all] at split
  | cons request rest =>
    rw [all, List.drop_succ_cons, List.drop_zero] at split
    refine ⟨request, before, line, after, by rw [all, split], ?_, header, rfl⟩
    intro l mem
    simpa using others l mem

/-- A length that was read as a byte. -/
theorem length_byte {bs : Bytes} {n : UInt8} (len : bs.length = n.toNat) : bs.length ≤ 255 ∧ n = UInt8.ofNat bs.length := by
  have lt := n.toNat_lt
  exact ⟨by omega, by rw [len, UInt8.ofNat_toNat]⟩

/-- A length in a byte, and as many bytes. -/
theorem readField_some {α : Type} {f : Bytes → SocketM α} {s t : Socket} {a : α}
    (h : (do
        let n ← SocketM.readExact 1
        let bs ← SocketM.readExact (n.headD 0).toNat
        f bs : SocketM α) s = (some a, t)) :
    ∃ bs s', bs.length ≤ 255 ∧ s.input = [UInt8.ofNat bs.length] ++ bs ++ s'.input ∧ f bs s' = (some a, t) := by
  obtain ⟨n, s₁, read, h₁⟩ := SocketM.bind_some.1 h
  obtain ⟨len, in₁, -, -⟩ := SocketM.readExact_some.1 read
  obtain ⟨n, rfl⟩ := List.length_eq_one_iff.1 len
  obtain ⟨bs, s₂, read, rest⟩ := SocketM.bind_some.1 h₁
  obtain ⟨len, in₂, -, -⟩ := SocketM.readExact_some.1 read
  obtain ⟨fits, rfl⟩ := length_byte (n := n) len
  refine ⟨bs, s₂, fits, ?_, rest⟩
  rw [in₁, in₂, List.append_assoc]

/-- **The SOCKS5 gate.** What passed it began with the method list and the message. -/
theorem socks5Auth_message {expected : AuthExpect} {s t : Socket} (h : socks5Auth (some expected) s = (some (), t)) :
    ∃ methods ver, methods.length ≤ 255 ∧ 0x02 ∈ methods ∧ (utf8 expected.user).length ≤ 255 ∧
      (utf8 expected.pass).length ≤ 255 ∧
      s.input = [UInt8.ofNat methods.length] ++ methods ++ rfc1929 ver (utf8 expected.user) (utf8 expected.pass) ++ t.input := by
  unfold socks5Auth at h
  obtain ⟨methods, s₂, fits, in₂, h₂⟩ := readField_some h
  dsimp only at h₂
  split at h₂
  · rename_i offered
    obtain ⟨⟨⟩, s₃, wrote, h₃⟩ := SocketM.bind_some.1 h₂
    obtain ⟨in₃, -⟩ := SocketM.writeAll_some wrote
    obtain ⟨vu, s₄, read, h₄⟩ := SocketM.bind_some.1 h₃
    obtain ⟨len, in₄, -, -⟩ := SocketM.readExact_some.1 read
    obtain ⟨ver, ulen, rfl⟩ := List.length_eq_two.1 len
    obtain ⟨user, s₅, read, h₅⟩ := SocketM.bind_some.1 h₄
    obtain ⟨len, in₅, -, -⟩ := SocketM.readExact_some.1 read
    obtain ⟨ufits, rfl⟩ := length_byte (n := ulen) len
    obtain ⟨pass, s₇, pfits, in₇, h₇⟩ := readField_some h₅
    split at h₇
    · rename_i same
      obtain ⟨rfl, rfl⟩ := same
      obtain ⟨in₈, -⟩ := SocketM.writeAll_some h₇
      refine ⟨methods, ver, fits, by simpa using offered, ufits, pfits, ?_⟩
      rw [in₂, ← in₃, in₄, in₅, in₇, in₈, rfc1929]
      simp only [List.append_assoc]
    · obtain ⟨-, s₈, -, gaveUp⟩ := SocketM.bind_some.1 h₇
      exact absurd gaveUp SocketM.giveUp_some
  · obtain ⟨-, s₃, -, gaveUp⟩ := SocketM.bind_some.1 h₂
    exact absurd gaveUp SocketM.giveUp_some

/-- What is parsed and passes the gate had the credentials. -/
theorem carries_of_parsed {expected : AuthExpect} {s t : Socket} {req : ClientRequest}
    (parsed : parseClientRequest (some expected) s = (some req, t)) (passes : authPasses (some expected) req = true) :
    Carries expected s.input := by
  rcases parseClientRequest_cases parsed with ⟨rest, input, -, socks⟩ | ⟨head, input, http, buffered, ok, -⟩
  · obtain ⟨⟨⟩, s₁, gate, -⟩ := SocketM.bind_some.1 socks
    obtain ⟨methods, ver, fits, offered, ufits, pfits, split⟩ := socks5Auth_message gate
    refine Or.inr ⟨ver, ufits, pfits, methods, s₁.input, fits, offered, ?_⟩
    rw [input, show rest = _ from split]
    rfl
  · obtain ⟨value, front, -⟩ := parseHead_spec ok
    refine Or.inl ⟨head, ⟨t.input, input.symm⟩, http, buffered, headerValue_first ?_⟩
    rw [← value]
    simpa [authPasses, front] using passes

/-! ## The two gates compared -/

/-- The `Basic` value for a user name and a password. -/
def basicValue (user pass : Text) : Text := "Basic ".toList ++ base64Encode (utf8 (user ++ ':' :: pass))

/-- The message is answered by whether its bytes are the expected ones. -/
theorem socks5Auth_run {expected : AuthExpect} {methods user pass : Bytes} (ver : UInt8) (rest out : Bytes)
    (fits : methods.length ≤ 255) (offered : 0x02 ∈ methods) (userFits : user.length ≤ 255) (passFits : pass.length ≤ 255) :
    socks5Auth (some expected) ⟨[UInt8.ofNat methods.length] ++ methods ++ rfc1929 ver user pass ++ rest, out, none⟩ =
      if user = utf8 expected.user ∧ pass = utf8 expected.pass then (some (), ⟨rest, out ++ [0x05, 0x02, 0x01, 0x00], none⟩)
      else (none, ⟨rest, out ++ [0x05, 0x02, 0x01, 0x01], none⟩) := by
  have size {bs : Bytes} (fits : bs.length ≤ 255) : bs.length = (UInt8.ofNat bs.length).toNat := by
    rw [UInt8.toNat_ofNat']
    exact (Nat.mod_eq_of_lt (by omega)).symm
  have asked : methods.contains 0x02 = true := by simpa using offered
  unfold socks5Auth
  simp only [rfc1929, List.append_assoc]
  refine (SocketM.bind_eq (SocketM.readExact_append (by rfl) _ out none)).trans ?_
  refine (SocketM.bind_eq (SocketM.readExact_append (size fits) _ out none)).trans ?_
  rw [if_pos asked]
  refine (SocketM.bind_eq rfl).trans ?_
  refine (SocketM.bind_eq (SocketM.readExact_append (by rfl) _ _ none)).trans ?_
  refine (SocketM.bind_eq (SocketM.readExact_append (size userFits) _ _ none)).trans ?_
  refine (SocketM.bind_eq (SocketM.readExact_append (by rfl) _ _ none)).trans ?_
  refine (SocketM.bind_eq (SocketM.readExact_append (size passFits) _ _ none)).trans ?_
  split
  · rw [show out ++ [0x05, 0x02, 0x01, 0x00] = out ++ [0x05, 0x02] ++ [0x01, 0x00] by simp]
    rfl
  · rw [show out ++ [0x05, 0x02, 0x01, 0x01] = out ++ [0x05, 0x02] ++ [0x01, 0x01] by simp]
    rfl

/-- The halves of the configured string: the whole and nothing, or what is around its first colon. -/
theorem authExpect_cases (up : Text) :
    (':' ∉ up ∧ (authExpect up).user = up ∧ (authExpect up).pass = []) ∨
    (up = (authExpect up).user ++ ':' :: (authExpect up).pass ∧ ':' ∉ (authExpect up).user) := by
  unfold authExpect
  rcases splitOnce_cases ':' up with ⟨eq, absent⟩ | ⟨user, pass, eq, split, absent⟩
  · rw [eq]
    exact Or.inl ⟨absent, rfl, rfl⟩
  · rw [eq]
    exact Or.inr ⟨split, absent⟩

theorem authExpect_basic (up : Text) : (authExpect up).basic = "Basic ".toList ++ base64Encode (utf8 up) := rfl

/-- The HTTP gate compares the whole string. -/
theorem authPasses_basic {up user pass : Text} {req : ClientRequest} (http : req.frontend ≠ .socks5)
    (presents : req.proxyAuth = some (basicValue user pass)) :
    authPasses (some (authExpect up)) req = true ↔ up = user ++ ':' :: pass := by
  have same : basicValue user pass = (authExpect up).basic ↔ up = user ++ ':' :: pass := by
    rw [authExpect_basic]
    constructor
    · intro encoded
      exact (utf8_inj.1 (base64Encode_inj (List.append_cancel_left encoded))).symm
    · rintro rfl
      rfl
  simp [authPasses, http, presents, same]

/-- A SOCKS5 client after its version byte: the methods it offers and the message. -/
def socks5Offer (methods : Bytes) (user pass : Text) : Bytes :=
  [UInt8.ofNat methods.length] ++ methods ++ rfc1929 1 (utf8 user) (utf8 pass)

/-- A client that sends `offer`, and reads what it is sent, passes the handshake. -/
def Socks5Passes (expected : AuthExpect) (offer : Bytes) : Prop :=
  ∃ after, socks5Auth (some expected) ⟨offer, [], none⟩ = (some (), after)

/-- The SOCKS5 gate compares the halves. -/
theorem socks5Passes_iff {expected : AuthExpect} {user pass : Text} {methods rest : Bytes} (fits : methods.length ≤ 255)
    (offered : 0x02 ∈ methods) (userFits : (utf8 user).length ≤ 255) (passFits : (utf8 pass).length ≤ 255) :
    Socks5Passes expected (socks5Offer methods user pass ++ rest) ↔ user = expected.user ∧ pass = expected.pass := by
  unfold Socks5Passes socks5Offer
  rw [socks5Auth_run 1 rest [] fits offered userFits passFits]
  split
  · rename_i same
    constructor
    · intro _
      exact ⟨utf8_inj.1 same.1, utf8_inj.1 same.2⟩
    · intro _
      exact ⟨_, rfl⟩
  · rename_i differ
    constructor
    · rintro ⟨after, eq⟩
      cases eq
    · intro same
      exact absurd ⟨congrArg utf8 same.1, congrArg utf8 same.2⟩ differ

/-- **When the gates agree.** On every user name without a colon and every password, unless the configured
string has no colon and they are that string and nothing. -/
theorem gates_agree_iff {up user pass : Text} {methods rest : Bytes} {req : ClientRequest} (colonFree : ':' ∉ user)
    (userFits : (utf8 user).length ≤ 255) (passFits : (utf8 pass).length ≤ 255) (fits : methods.length ≤ 255)
    (offered : 0x02 ∈ methods) (http : req.frontend ≠ .socks5) (presents : req.proxyAuth = some (basicValue user pass)) :
    (authPasses (some (authExpect up)) req = true ↔ Socks5Passes (authExpect up) (socks5Offer methods user pass ++ rest)) ↔
      ¬ (':' ∉ up ∧ user = up ∧ pass = []) := by
  rw [authPasses_basic http presents, socks5Passes_iff fits offered userFits passFits]
  rcases authExpect_cases up with ⟨absent, hu, hp⟩ | ⟨split, free⟩
  · have never : ¬ up = user ++ ':' :: pass := by
      intro eq
      exact absent (eq ▸ by simp)
    rw [hu, hp]
    simp [never, absent]
  · have colon : ':' ∈ up := by
      rw [split]
      simp
    have agree : up = user ++ ':' :: pass ↔ user = (authExpect up).user ∧ pass = (authExpect up).pass := by
      conv_lhs => rw [split]
      rw [append_sep_inj free colonFree]
      constructor
      · rintro ⟨sameUser, samePass⟩
        exact ⟨sameUser.symm, samePass.symm⟩
      · rintro ⟨sameUser, samePass⟩
        exact ⟨sameUser.symm, samePass.symm⟩
    simp [agree, colon]

/-- `GET http://h/` with the credentials. -/
def basicGet (user pass : Text) : ClientRequest := { forwardGet with proxyAuth := some (basicValue user pass) }

/-- With the string `u`, a SOCKS5 client passes with `u` and no password; an HTTP client does not. -/
theorem gates_differ :
    ¬ ∀ (up user pass : Text) (methods rest : Bytes) (req : ClientRequest), ':' ∉ user → (utf8 user).length ≤ 255 →
      (utf8 pass).length ≤ 255 → methods.length ≤ 255 → 0x02 ∈ methods → req.frontend ≠ .socks5 →
      req.proxyAuth = some (basicValue user pass) →
      (authPasses (some (authExpect up)) req = true ↔ Socks5Passes (authExpect up) (socks5Offer methods user pass ++ rest)) := by
  intro general
  have agree := general ['u'] ['u'] [] [0x02] [] (basicGet ['u'] []) (by decide) (by decide) (by decide) (by decide) (by decide)
    (by decide) rfl
  have refused : authPasses (some (authExpect ['u'])) (basicGet ['u'] []) = false := by decide
  rw [agree.2 ⟨_, rfl⟩] at refused
  cases refused

/-- With the string `u:p` both let `u` with `p` pass. -/
theorem gates_agree_up :
    ':' ∉ ['u'] ∧ authPasses (some (authExpect "u:p".toList)) (basicGet ['u'] ['p']) = true ∧
      Socks5Passes (authExpect "u:p".toList) (socks5Offer [0x02] ['u'] ['p'] ++ []) := by
  have passes : authPasses (some (authExpect "u:p".toList)) (basicGet ['u'] ['p']) = true := by decide
  have agree : (authPasses (some (authExpect "u:p".toList)) (basicGet ['u'] ['p']) = true ↔
      Socks5Passes (authExpect "u:p".toList) (socks5Offer [0x02] ['u'] ['p'] ++ [])) ↔
      ¬ (':' ∉ "u:p".toList ∧ ['u'] = "u:p".toList ∧ ['p'] = []) :=
    gates_agree_iff (by decide) (by decide) (by decide) (by decide) (by decide) (by decide) rfl
  exact ⟨by decide, passes, (agree.2 (by decide)).1 passes⟩

/-! ## Before the gate -/

namespace Handler
variable {ctx : ConnCtx} {expected : AuthExpect} {stream : Bytes} {budget : Option Nat} {s t : State} {i : Input}
  {is : List Input}

/-- The connection is being read, is being refused, or is over, and has done nothing that needs the
credentials. -/
structure Gated (stream : Bytes) (budget : Option Nat) (s : State) : Prop where
  actions : s.actions = []
  phase : s.phase = .accepted ⟨stream, [], budget⟩ ∨ (∃ rest, s.phase = .denying rest) ∨ s.phase = .finished

theorem gated_step (auth : ctx.expectedAuth = some expected) (missing : ¬ Carries expected stream)
    (gated : Gated stream budget s) (h : step ctx s i = some t) : Gated stream budget t := by
  obtain ⟨actions, at_s | ⟨rest, at_s⟩ | at_s⟩ := gated
  · cases i <;> simp only [step, at_s] at h
    case parse =>
      rw [auth] at h
      split at h
      · cases h
        exact ⟨actions, Or.inr (Or.inr rfl)⟩
      · rename_i req after parsed
        cases h
        refine ⟨actions, Or.inr (Or.inl ⟨authRequired, ?_⟩)⟩
        have fails : ¬ authPasses ctx.expectedAuth req = true := by
          rw [auth]
          intro passes
          exact missing (carries_of_parsed parsed passes)
        simp only [dispatch, if_neg fails]
    all_goals cases h
  · cases i
    case client a =>
      cases a <;> simp only [step, at_s] at h
      case wrote n =>
        cases h
        exact ⟨actions, Or.inr (Or.inl ⟨_, rfl⟩)⟩
      case flushed =>
        cases rest <;> cases h
        exact ⟨actions, Or.inr (Or.inr rfl)⟩
      case writeFailed =>
        cases h
        exact ⟨actions, Or.inr (Or.inr rfl)⟩
      all_goals cases h
    all_goals simp [step, at_s] at h
  · cases i <;> simp only [step, at_s] at h
    all_goals cases h

theorem gated_run (auth : ctx.expectedAuth = some expected) (missing : ¬ Carries expected stream)
    (h : run (step ctx) (accept stream budget) is = some s) : Gated stream budget s :=
  run_preserves (fun _ _ _ gated next => gated_step auth missing gated next) ⟨rfl, Or.inl rfl⟩ h

/-- Before the gate the handler asks nothing of the shared state. -/
theorem Gated.demand (gated : Gated stream budget s) : (Client.serving ctx s).demand = .nothing := by
  obtain ⟨-, at_s | ⟨rest, at_s⟩ | at_s⟩ := gated <;> simp [Client.demand, at_s]

end Handler

end Server

/-! ## The gate in the system -/

namespace Sys
variable {s t u v : Sys} {is : List Input}

/-- A task that asks for nothing leaves the shared state alone. -/
theorem shared_of_nothing {k : Nat} {j : Task.Input} {task : Task} (at_k : s.tasks[k]? = some task)
    (nothing : task.client.demand = .nothing) (h : step s (.task k j) = some t) : t.shared = s.shared := by
  simp only [step, at_k] at h
  obtain ⟨⟨sh, task'⟩, moved, rfl⟩ := Option.map_eq_some_iff.1 h
  cases j with
  | io i =>
    obtain ⟨c, -, eq⟩ := Option.map_eq_some_iff.1 moved
    cases eq
    rfl
  | lease i => simp [Task.step, nothing] at moved
  | op now => simp [Task.step, nothing] at moved

/-- **The authentication gate.** On a server with credentials, whatever a client sends and whatever else
goes on: its connection performs a gated action only if its bytes have the credentials, and otherwise no
step of it changes the pool or the history. -/
theorem auth_gate {up : Text} {peerIp : IpAddr} {stream : Bytes} {budget : Option Nat} (auth : s.auth = some (authExpect up))
    (accepted : step s (.accept peerIp stream budget) = some t) (h : run step t is = some u) :
    ∃ task ctx hs, u.tasks[s.tasks.length]? = some task ∧ task.client = .serving ctx hs ∧
      (hs.actions ≠ [] → Carries (authExpect up) stream) ∧
      (¬ Carries (authExpect up) stream → ∀ j v, step u (.task s.tasks.length j) = some v → v.shared = u.shared) := by
  obtain ⟨task, hs, js, at_k, serving, ran⟩ := serves_accepted accepted h
  have gated (missing : ¬ Carries (authExpect up) stream) : Handler.Gated stream budget hs := Handler.gated_run auth missing ran
  refine ⟨task, s.connCtx peerIp, hs, at_k, serving, ?_, ?_⟩
  · intro acted
    by_contra missing
    exact acted (gated missing).actions
  · intro missing j v next
    refine shared_of_nothing at_k ?_ next
    rw [serving]
    exact (gated missing).demand

/-- A SOCKS5 client that gives `u` and `p` in a message with version byte `ver` and asks for `1.1.1.1:80`. -/
def socks5Client (ver : UInt8) : Bytes :=
  [0x05, 0x01, 0x02, ver, 0x01, 117, 0x01, 112, 0x05, 0x01, 0x00, 0x01, 1, 1, 1, 1, 0, 80]

/-- A server with the credentials `u:p`. -/
def gatedServer : Sys := fromProxies (some (authExpect "u:p".toList)) [] PoolConfig.default

/-- The client is read and its target looked up. -/
def reading : List Input := [.task 0 (.io (.serve .parse)), .task 0 (.io (.serve (.resolved none)))]

theorem socks5Client_asks (ver : UInt8) (known : ver = 0 ∨ ver = 1) :
    ∃ t u task ctx hs, step gatedServer (.accept (.v4 0) (socks5Client ver) none) = some t ∧ run step t reading = some u ∧
      u.tasks[0]? = some task ∧ task.client = .serving ctx hs ∧ hs.actions = [.poolGet] := by
  rcases known with rfl | rfl
  · exact ⟨_, _, _, _, _, rfl, rfl, rfl, rfl, rfl⟩
  · exact ⟨_, _, _, _, _, rfl, rfl, rfl, rfl, rfl⟩

/-- The version byte of the message is not looked at, so a client without an RFC 1929 message passes. -/
theorem auth_gate_version :
    ¬ ∀ (up : Text) (s t u : Sys) (peerIp : IpAddr) (stream : Bytes) (budget : Option Nat) (is : List Input) (task : Task)
      (ctx : ConnCtx) (hs : Handler.State), s.auth = some (authExpect up) →
      step s (.accept peerIp stream budget) = some t → run step t is = some u →
      u.tasks[s.tasks.length]? = some task → task.client = .serving ctx hs → hs.actions ≠ [] →
      CarriesHttp (authExpect up) stream ∨ CarriesSocks5 (authExpect up) 1 stream := by
  intro general
  obtain ⟨t, u, task, ctx, hs, accepted, ran, at_k, serving, asked⟩ := socks5Client_asks 0 (Or.inl rfl)
  rcases general _ gatedServer t u _ _ _ _ task ctx hs rfl accepted ran at_k serving (by simp [asked]) with
    ⟨head, ⟨rest, split⟩, http, buffered, -⟩ | ⟨-, -, methods, rest, fits, offered, split⟩
  · cases head with
    | nil => simpa [crlfCrlf] using buffered.ends
    | cons b head =>
      simp only [socks5Client, List.cons_append, List.cons.injEq] at split
      exact http (by rw [split.1]; rfl)
  · cases methods with
    | nil => cases offered
    | cons m ms =>
      simp only [socks5Client, rfc1929, List.cons_append, List.nil_append, List.cons.injEq, true_and] at split
      obtain ⟨count, -, split⟩ := split
      have one : ms.length = 0 := by
        have size := congrArg UInt8.toNat count
        rw [UInt8.toNat_ofNat', List.length_cons] at size
        rw [List.length_cons] at fits
        change 1 = (ms.length + 1) % 256 at size
        omega
      rw [List.length_eq_zero_iff.1 one] at split
      simp at split

/-- With version byte 1 the client has the credentials. -/
theorem auth_gate_socks5 :
    ∃ t u task ctx hs, step gatedServer (.accept (.v4 0) (socks5Client 1) none) = some t ∧ run step t reading = some u ∧
      u.tasks[0]? = some task ∧ task.client = .serving ctx hs ∧ hs.actions = [.poolGet] ∧
      Carries (authExpect "u:p".toList) (socks5Client 1) := by
  obtain ⟨t, u, task, ctx, hs, accepted, ran, at_k, serving, asked⟩ := socks5Client_asks 1 (Or.inr rfl)
  obtain ⟨task', ctx', hs', at_k', serving', only, -⟩ := auth_gate rfl accepted ran
  obtain rfl : task = task' := Option.some.inj (at_k.symm.trans at_k')
  obtain ⟨rfl, rfl⟩ : ctx = ctx' ∧ hs = hs' := by
    rw [serving] at serving'
    cases serving'
    exact ⟨rfl, rfl⟩
  exact ⟨t, u, task, ctx, hs, accepted, ran, at_k, serving, asked, only (by simp [asked])⟩

end Sys

end ProxyBroker
