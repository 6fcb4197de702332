import ProxyBroker.Lib.Duration
import ProxyBroker.Proxy

/-!
# The checker (`checker.rs`)

`check` tries a proxy on the requested protocols it is expected to speak. What the network does comes with `Net`:
the reply to each attempt, in the order in which they are made, the time it took, the draws of the generator and
what the resolver finds. `attempt` is the part of the source's function that decides what a reply means; the bytes
on the wire are not modelled, nor is the choice of the judge among those of a scheme.

The delay before a retry is computed in `f64` and can be too long for a `Duration`. `Duration::from_secs_f64`
panics then (`Lib/Duration.lean`), and the task of the check ends there: the result is `none`.

Next to what it returns, each function gives the attempts it made.
-/

namespace ProxyBroker
open Lib

namespace Checker

/-! ## Retry policy -/

/-- `checker.rs:RetryPolicy`. -/
structure RetryPolicy where
  maxTries : Nat
  retryOn : List ProxyError
  backoff : Nat
  factor : Double
  jitter : Double
  maxBackoff : Nat

/-- `RetryPolicy::default`. -/
def RetryPolicy.default : RetryPolicy := ⟨3, [.timeout], 0, .finite 1, .finite 0, 0⟩

/-- `RetryPolicy::tries`. -/
def RetryPolicy.tries (maxTries : Nat) : RetryPolicy := { RetryPolicy.default with maxTries := maxTries }

/-- `i as i32`. -/
def asI32 (i : Nat) : Int := (i : Int).bmod (2 ^ 32)

/-- `RetryPolicy::backoff_for`, with the draw of the generator. The precision of `f64::powi` is not specified, so
`powi` is given. -/
def RetryPolicy.backoffFor (policy : RetryPolicy) (powi : Double → Int → Double) (draw : ℚ) (i : Nat) : Option Nat :=
  if policy.backoff = 0 then some 0
  else
    let d := Double.mul (.finite (asSecsF64 policy.backoff)) (powi policy.factor (asI32 i))
    let d := if Double.lt (.finite 0) policy.jitter then d.mul (Double.add (.finite 1) (policy.jitter.mul (.finite draw))) else d
    let d := if policy.maxBackoff ≠ 0 then d.min (.finite (asSecsF64 policy.maxBackoff)) else d
    (d.max (.finite 0)).toDuration

/-! ## One attempt -/

/-- `checker.rs:Observation`. -/
structure Observation where
  level : Option AnonLevel
  caps : Caps
  trust : List TrustSignal
deriving DecidableEq, Repr

/-- `Observation::default`. -/
def Observation.default : Observation := ⟨none, ⟨false, false⟩, []⟩

/-- `checker.rs:Attempt`. -/
inductive Attempt where
  | working (obs : Observation)
  | invalid
deriving DecidableEq, Repr

/-- `checker.rs:CheckMode`. -/
inductive CheckMode where
  | judged
  | liveness
deriving DecidableEq, Repr

/-- What a `200` response shows. -/
structure Page where
  valid : Bool
  level : AnonLevel
  caps : Caps
  trust : List TrustSignal

/-- How the exchange with the proxy ends. -/
inductive Reply where
  | failed (e : ProxyError)
  | answered (page : Page)

end Checker

/-- `checker.rs:Checker`. `judges` counts the verified judges of a scheme. -/
structure Checker where
  requested : List TypeSpec
  strict : Bool
  retry : Checker.RetryPolicy
  dnsbl : List Text
  judges : JudgeScheme → Nat
  mode : Checker.CheckMode

namespace Checker

/-- What `check` finds outside: the `k`-th attempt is answered by `reply k` after `rtt k` seconds. -/
structure Net where
  reply : Nat → Reply
  rtt : Nat → ℚ
  draw : Nat → ℚ
  powi : Double → Int → Double
  resolves : Text → Bool

/-- `Checker::attempt`, on a reply. -/
def attempt (c : Checker) (proto : Proto) : Reply → Except ProxyError Attempt
  | .failed e => .error e
  | .answered page =>
    -- a granted tunnel is the whole check of `CONNECT:25`
    if proto = .connect25 then .ok (.working .default)
    else
      match c.mode with
      | .liveness => .ok (.working .default)
      | .judged =>
        if page.valid then .ok (.working ⟨if proto.checksAnonLevel then some page.level else none, page.caps, page.trust⟩)
        else .ok .invalid

/-! ## One protocol -/

/-- What a call of `check_one` returns, the proxy after it, and its attempts. -/
structure Probed where
  works : Option Bool
  proxy : Proxy
  outcomes : List (Except ProxyError Attempt)

/-- A first attempt before the others. -/
def Probed.after (r : Probed) (o : Except ProxyError Attempt) : Probed := { r with outcomes := o :: r.outcomes }

/-- A working attempt is recorded. -/
def confirm (proxy : Proxy) (proto : Proto) (rtt : ℚ) (obs : Observation) : Proxy :=
  let proxy := proxy.recordAttempt (some rtt) none
  let proxy := proxy.recordProbeLatency rtt
  let proxy := proxy.addType proto obs.level
  let proxy := proxy.recordCaps obs.caps
  proxy.recordTrust obs.trust

variable (c : Checker) (net : Net)

/-- The loop of `check_one`, with `left` rounds to go; `k` attempts were made before. -/
def retryLoop (proto : Proto) : (left i k : Nat) → Proxy → Probed
  | 0, _, _, proxy => ⟨some false, proxy, []⟩
  | left + 1, i, k, proxy =>
    match attempt c proto (net.reply k) with
    | .ok (.working obs) => ⟨some true, confirm proxy proto (net.rtt k) obs, [.ok (.working obs)]⟩
    | .ok .invalid => ⟨some false, proxy.recordAttempt none (some .badResponse), [.ok .invalid]⟩
    | .error e =>
      let proxy := proxy.recordAttempt none (some e)
      if e ∈ c.retry.retryOn ∧ i + 1 < c.retry.maxTries then
        match c.retry.backoffFor net.powi (net.draw k) i with
        | some _ => (retryLoop proto left (i + 1) (k + 1) proxy).after (.error e)
        | none => ⟨none, proxy, [.error e]⟩
      else ⟨some false, proxy, [.error e]⟩

/-- `Checker::check_one`. -/
def checkOne (proto : Proto) (k : Nat) (proxy : Proxy) : Probed :=
  if c.mode = .judged ∧ c.judges proto.judgeScheme = 0 then ⟨some false, proxy, []⟩
  else retryLoop c net proto c.retry.maxTries 0 k proxy

/-! ## All protocols -/

/-- A call of `check_one`. -/
structure Call where
  proto : Proto
  outcomes : List (Except ProxyError Attempt)

/-- What the loop of `check` finds: whether a protocol works, the proxy after it, and the calls. -/
structure Surveyed where
  any : Option Bool
  proxy : Proxy
  calls : List Call

/-- A first call before the others. -/
def Surveyed.after (r : Surveyed) (call : Call) : Surveyed := { r with calls := call :: r.calls }

/-- The loop of `check`. -/
def survey : (protos : List Proto) → (any : Bool) → (k : Nat) → Proxy → Surveyed
  | [], any, _, proxy => ⟨some any, proxy, []⟩
  | proto :: rest, any, k, proxy =>
    let one := checkOne c net proto k proxy
    let call : Call := ⟨proto, one.outcomes⟩
    match one.works with
    | some works => (survey rest (any || works) (k + one.outcomes.length) one.proxy).after call
    | none => ⟨none, one.proxy, [call]⟩

/-- The protocols `check` tries: `ngtrs`. -/
def ngtrs (proxy : Proxy) : List Proto :=
  Proto.all.filter fun p =>
    c.requested.any (fun spec => spec.proto = p) && (proxy.expectedTypes.isEmpty || proxy.expectedTypes.contains p)

/-- `dnsbl_query`. -/
def dnsblQuery (ip : IpAddr) (zone : Text) : Option Text :=
  match ip with
  | .v4 bits => some (joinText ['.'] ((fields 8 4 bits.toNat).reverse.map showNat ++ [zone]))
  | .v6 _ => none

/-- `Checker::in_dnsbl`. -/
def inDnsbl (host : IpAddr) : Bool := (c.dnsbl.filterMap (dnsblQuery host)).any net.resolves

/-! ## The verdict -/

/-- The requested levels by protocol: of a protocol that is requested twice, the later request. -/
def requestedLevels (requested : List TypeSpec) : Proto → Option (Option (List AnonLevel)) :=
  requested.foldl (fun m t p => if p = t.proto then some t.levels else m p) fun _ => none

/-- The `match` of `types_passed`. -/
def levelMatches (requested : Option (Option (List AnonLevel))) (lvl : Option AnonLevel) : Bool :=
  match requested with
  | none | some none => true
  | some (some levels) => levels.isEmpty || lvl.any fun l => levels.contains l

/-- `proxy.types()`, in the order of the map. -/
def confirmed (proxy : Proxy) : List (Proto × Option AnonLevel) :=
  Proto.all.filterMap fun p => (proxy.types p).map fun lvl => (p, lvl)

/-- `Checker::types_passed`: the verdict, and the proxy after it. -/
def typesPassed (proxy : Proxy) : Bool × Proxy :=
  if c.requested = [] then (true, proxy)
  else
    let fits (t : Proto × Option AnonLevel) := levelMatches (requestedLevels c.requested t.1) t.2
    if c.strict then
      let toRemove := ((confirmed proxy).filter fun t => !fits t).map Prod.fst
      let kept := toRemove.foldl Proxy.removeType proxy
      (kept.isWorking, kept)
    else ((confirmed proxy).any fits, proxy)

/-- The verdict of `check`, the proxy after it, and the calls of `check_one`. -/
structure Checked where
  passed : Option Bool
  proxy : Proxy
  calls : List Call

/-- The end of `check`. -/
def conclude (all : Surveyed) : Checked :=
  match all.any with
  | none => ⟨none, all.proxy, all.calls⟩
  | some false => ⟨some false, all.proxy, all.calls⟩
  | some true => ⟨some (typesPassed c all.proxy).1, (typesPassed c all.proxy).2, all.calls⟩

/-- The proxy is in a block list. -/
def listed (host : IpAddr) : Bool := !c.dnsbl.isEmpty && inDnsbl c net host

/-- The calls of `check_one`. -/
def surveyed (proxy : Proxy) : Surveyed := survey c net (ngtrs c proxy) false 0 proxy

/-- `Checker::check`. -/
def check (proxy : Proxy) : Checked :=
  if listed c net proxy.host then ⟨some false, proxy, []⟩ else conclude c (surveyed c net proxy)

end Checker

end ProxyBroker
