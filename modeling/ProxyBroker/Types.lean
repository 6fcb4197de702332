import ProxyBroker.Lib.Ip

/-!
# The shared vocabulary (`types.rs`, `error.rs`)

The closed enumerations every module speaks: protocols, schemes, anonymity levels and the per-proxy
failure buckets. `Proto.all` is the declaration order, which is also the order of the `BTreeMap`s
keyed by a protocol.
-/

namespace ProxyBroker
open Lib

/-- `types.rs:Proto`. -/
inductive Proto where
  | http | https | socks4 | socks5 | connect80 | connect25
deriving DecidableEq, Repr

/-- `Proto::ALL`. -/
def Proto.all : List Proto := [.http, .https, .socks4, .socks5, .connect80, .connect25]

/-- `Proto::as_str`. -/
def Proto.asStr : Proto → Text
  | .http => "HTTP".toList
  | .https => "HTTPS".toList
  | .socks4 => "SOCKS4".toList
  | .socks5 => "SOCKS5".toList
  | .connect80 => "CONNECT:80".toList
  | .connect25 => "CONNECT:25".toList

/-- `Proto::from_str`. -/
def Proto.fromStr (s : Text) : Option Proto := Proto.all.find? fun p => eqIgnoreAsciiCase p.asStr s

/-- `types.rs:JudgeScheme`. -/
inductive JudgeScheme where
  | http | https | smtp
deriving DecidableEq, Repr

/-- `Proto::judge_scheme`. -/
def Proto.judgeScheme : Proto → JudgeScheme
  | .https => .https
  | .connect25 => .smtp
  | _ => .http

/-- `Proto::checks_anon_level`. -/
def Proto.checksAnonLevel : Proto → Bool
  | .http => true
  | _ => false

/-- `types.rs:Scheme`. -/
inductive Scheme where
  | http | https
deriving DecidableEq, Repr

/-- `types.rs:AnonLevel`. -/
inductive AnonLevel where
  | transparent | anonymous | high
deriving DecidableEq, Repr

/-- `AnonLevel::as_str`. -/
def AnonLevel.asStr : AnonLevel → Text
  | .transparent => "Transparent".toList
  | .anonymous => "Anonymous".toList
  | .high => "High".toList

/-- `AnonLevel::from_str`. -/
def AnonLevel.fromStr (s : Text) : Option AnonLevel :=
  [AnonLevel.transparent, .anonymous, .high].find? fun l => eqIgnoreAsciiCase l.asStr s

/-- `types.rs:TypeSpec`: a requested protocol, with the levels it is narrowed to. -/
structure TypeSpec where
  proto : Proto
  levels : Option (List AnonLevel)
deriving DecidableEq, Repr

/-- `TypeSpec::any`. -/
def TypeSpec.any (proto : Proto) : TypeSpec := ⟨proto, none⟩

/-- `TypeSpec::accepts`. -/
def TypeSpec.accepts (spec : TypeSpec) (proto : Proto) (level : Option AnonLevel) : Bool :=
  if spec.proto ≠ proto then false
  else
    match spec.levels, level with
    | none, _ => true
    | some want, some got => want.contains got
    | some _, none => false

/-- `bin/proxybroker.rs:types_from`. -/
def typesFrom (protos : List Proto) (lvl : List AnonLevel) : List TypeSpec :=
  let levels := if lvl.isEmpty then none else some lvl
  protos.map fun proto => ⟨proto, levels⟩

/-- `types.rs:Caps`. -/
structure Caps where
  cookieEcho : Bool
  refererEcho : Bool
deriving DecidableEq, Repr

/-- `checker.rs:TrustSignal`. -/
inductive TrustSignal where
  | canaryMismatch | injectedHeader | certMismatch
deriving DecidableEq, Repr

/-- `error.rs:ProxyError`: the bucket a failed attempt is counted under. -/
inductive ProxyError where
  | connFailed | timeout | reset | emptyRecv | badStatus | badResponse | errorOnStream
  | disallowedStatus (code : UInt16)
  | resolve
deriving DecidableEq, Repr

/-- A `(host, port)` pair, which is how the pool tells addresses apart. -/
abbrev Addr := IpAddr × UInt16

instance : LawfulBEq Addr := inferInstance

theorem Proto.fromStr_asStr (p : Proto) : Proto.fromStr p.asStr = some p := by
  cases p <;> decide

theorem AnonLevel.fromStr_asStr (l : AnonLevel) : AnonLevel.fromStr l.asStr = some l := by
  cases l <;> decide

end ProxyBroker
