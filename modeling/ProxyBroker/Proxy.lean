import ProxyBroker.Lib.IpText
import ProxyBroker.Lib.Precision
import ProxyBroker.Types

/-!
# The proxy value (`proxy.rs`)

`Proxy` is plain data: an address, what it was confirmed to speak, and its statistics. Response
times and rates are `f64`, that is the rationals these stand for with the binary64 operations of
`Lib/F64.lean`. Counters are the `u32` of the source.

`tag` is not in the source. It names the instance: a Rust `Proxy` is moved between the pool and its
holder, never copied, and the tag is what a move keeps. No function reads it.
-/

namespace ProxyBroker
open Lib

/-- `proxy.rs:Region`. -/
structure Region where
  code : Text
  name : Text
deriving DecidableEq, Repr

/-- `proxy.rs:Country`. -/
structure Country where
  code : Text
  name : Text
  region : Option Region
  city : Option Text
deriving DecidableEq, Repr

/-- `proxy.rs:Asn`. -/
structure Asn where
  number : UInt32
  org : Option Text
deriving DecidableEq, Repr

/-- `proxy.rs:Credentials`. -/
structure Credentials where
  username : Text
  password : Text
deriving DecidableEq, Repr

/-- `BTreeMap<Proto, Option<AnonLevel>>`. -/
abbrev TypeMap := Proto → Option (Option AnonLevel)

/-- `proxy.rs:Proxy`. -/
structure Proxy where
  host : IpAddr
  port : UInt16
  expectedTypes : List Proto
  geo : Option Country
  asn : Option Asn
  types : TypeMap
  requests : UInt32
  errors : List (ProxyError × UInt32)
  runtimes : List ℚ
  probeRuntimes : List ℚ
  auth : Option Credentials
  caps : Caps
  trust : List TrustSignal
  ewmaSuccess : Option ℚ
  tag : Nat

/-- What a holder of a proxy cannot change: the instance, its address and its country. -/
structure Ident where
  tag : Nat
  addr : Addr
  geo : Option Country
deriving DecidableEq, Repr

/-- `proxy.rs:round2`: `{:.2}` rounds the value of the float to two decimals, ties to even, and `parse` takes the
float nearest to what it reads. -/
def round2 (pr : Precision) (x : ℚ) : ℚ := pr.round (roundHalfEven (x * 100) / 100)

/-- The `f64` that `2.675` stands for lies below it. -/
example : round2 .binary64 (F64.round (2675 / 1000)) = F64.round (267 / 100) := by decide +kernel

namespace Proxy

/-- `Proxy::new`. -/
def new (host : IpAddr) (port : UInt16) (expectedTypes : List Proto) : Proxy where
  host := host
  port := port
  expectedTypes := expectedTypes
  geo := none
  asn := none
  types := fun _ => none
  requests := 0
  errors := []
  runtimes := []
  probeRuntimes := []
  auth := none
  caps := ⟨false, false⟩
  trust := []
  ewmaSuccess := none
  tag := 0

/-- `Proxy::restored`. -/
def restored (host : IpAddr) (port : UInt16) (types : TypeMap) (requests errorsTotal : UInt32) (avgRespTime : ℚ) : Proxy :=
  { Proxy.new host port [] with
    types := types
    requests := requests
    errors := if 0 < errorsTotal then [(.badResponse, errorsTotal)] else []
    runtimes := if 0 < avgRespTime then [avgRespTime] else [] }

/-- `Proxy::with_ewma`. -/
def withEwma (p : Proxy) (ewmaSuccess : Option ℚ) : Proxy := { p with ewmaSuccess := ewmaSuccess }

/-- The `(host, port)` of a proxy. -/
def addr (p : Proxy) : Addr := (p.host, p.port)

/-- `Proxy::addr`, as text. -/
def addrText (p : Proxy) : Text :=
  match p.host with
  | .v4 _ => hostColonPort p.host p.port
  | .v6 _ => '[' :: p.host.display ++ ']' :: ':' :: showNat p.port.toNat

def ident (p : Proxy) : Ident := ⟨p.tag, p.addr, p.geo⟩

/-- `Proxy::add_type`. -/
def addType (p : Proxy) (proto : Proto) (level : Option AnonLevel) : Proxy :=
  { p with types := fun q => if q = proto then some level else p.types q }

/-- `Proxy::remove_type`. -/
def removeType (p : Proxy) (proto : Proto) : Proxy := { p with types := fun q => if q = proto then none else p.types q }

/-- `types().contains_key`. -/
def hasType (p : Proxy) (proto : Proto) : Bool := (p.types proto).isSome

/-- `types().keys()`. -/
def typeKeys (p : Proxy) : List Proto := Proto.all.filter p.hasType

/-- `errors.values().sum()`, in `u32`. -/
def errorTotal (p : Proxy) : UInt32 := p.errors.foldl (fun total e => total + e.2) 0

/-- `Proxy::is_working`. -/
def isWorking (p : Proxy) : Bool := !p.typeKeys.isEmpty

/-- `Proxy::error_rate`. -/
def errorRate (p : Proxy) : ℚ :=
  if p.requests = 0 then 0 else round2 .binary64 (F64.div p.errorTotal.toNat p.requests.toNat)

/-- `Proxy::avg_resp_time` before rounding. -/
def meanRuntime (p : Proxy) : ℚ := Precision.binary64.mean p.runtimes

/-- `Proxy::avg_resp_time`. -/
def avgRespTime (p : Proxy) : ℚ := if p.runtimes = [] then 0 else round2 .binary64 p.meanRuntime

/-- `Proxy::probe_latency`. -/
def probeLatency (p : Proxy) : ℚ :=
  if p.probeRuntimes = [] then 0 else round2 .binary64 (Precision.binary64.mean p.probeRuntimes)

/-- `Proxy::priority`. -/
def priority (p : Proxy) : ℚ × ℚ :=
  let key := match p.ewmaSuccess with
    | some ewma => max p.errorRate (F64.sub 1 ewma)
    | none => p.errorRate
  (key, p.avgRespTime)

/-- `HTTP_PROTOS`. -/
def httpProtos : List Proto := [.http, .connect80, .socks4, .socks5]

/-- `HTTPS_PROTOS`. -/
def httpsProtos : List Proto := [.https, .socks4, .socks5]

/-- `Proxy::schemes().contains(scheme)`. -/
def servesScheme (p : Proxy) (scheme : Scheme) : Bool :=
  match scheme with
  | .http => p.typeKeys.any (httpProtos.contains ·)
  | .https => p.typeKeys.any (httpsProtos.contains ·)

/-- `*errors.entry(e).or_insert(0) += 1`. -/
def bump (e : ProxyError) : List (ProxyError × UInt32) → List (ProxyError × UInt32)
  | [] => [(e, 1)]
  | (k, n) :: rest => if k = e then (k, n + 1) :: rest else (k, n) :: bump e rest

/-- `Proxy::record_attempt`. -/
def recordAttempt (p : Proxy) (runtime : Option ℚ) (err : Option ProxyError) : Proxy :=
  { p with
    requests := p.requests + 1
    errors := match err with
      | some e => bump e p.errors
      | none => p.errors
    runtimes := match runtime with
      | some rt => if err = some .timeout then p.runtimes else p.runtimes ++ [rt]
      | none => p.runtimes }

/-- `Proxy::record_probe_latency`. -/
def recordProbeLatency (p : Proxy) (secs : ℚ) : Proxy := { p with probeRuntimes := p.probeRuntimes ++ [secs] }

/-- `Proxy::record_caps`. -/
def recordCaps (p : Proxy) (c : Caps) : Proxy :=
  { p with caps := ⟨p.caps.cookieEcho || c.cookieEcho, p.caps.refererEcho || c.refererEcho⟩ }

/-- `Proxy::record_trust`. -/
def recordTrust (p : Proxy) (signals : List TrustSignal) : Proxy :=
  { p with trust := signals.foldl (fun seen s => if seen.contains s then seen else seen ++ [s]) p.trust }

@[simp] theorem recordAttempt_ident (p : Proxy) (rt : Option ℚ) (e : Option ProxyError) :
    (p.recordAttempt rt e).ident = p.ident := rfl

@[simp] theorem recordAttempt_types (p : Proxy) (rt : Option ℚ) (e : Option ProxyError) :
    (p.recordAttempt rt e).types = p.types := rfl

end Proxy

/-- `broker.rs:country_ok`. The first argument is `str::to_uppercase`, which needs the Unicode tables. -/
def countryOk (toUppercase : Text → Text) (p : Proxy) (countries : Option (List Text)) : Bool :=
  match countries with
  | none => true
  | some set =>
    match p.geo with
    | some c => set.contains (toUppercase c.code)
    | none => false

/-- A proxy at `1.1.1.1:port` that was confirmed to speak HTTP. -/
def httpProxy (port : UInt16) : Proxy := (Proxy.new (.v4 0x01010101) port []).addType .http none

end ProxyBroker
