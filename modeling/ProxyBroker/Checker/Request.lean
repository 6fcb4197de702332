import ProxyBroker.Judge

/-!
# The requests of the checker (`checker.rs`)

`probeTarget` chooses what a protocol is checked against and where a proxy is to connect; `buildRequest` and
`buildLivenessRequest` write what is sent through it. Both put a URL together again from the parts that `Judge.parse`
kept, and the port is not among them: they name what the URL names exactly when the URL has no port of its own, and
no `https` URL is asked for over plain HTTP (`requests_reach_iff`).
-/

namespace ProxyBroker
open Lib

/-- `Proto::uses_full_path`. -/
def Proto.usesFullPath : Proto → Bool
  | .http => true
  | _ => false

namespace Checker

/-- `utils.rs:request_headers`. -/
def requestHeaders (marker : Option Text) : List (Text × Text) :=
  [("User-Agent".toList, "PxBroker/1.1.0/".toList ++ marker.getD []), ("Accept".toList, "*/*".toList),
    ("Accept-Encoding".toList, "gzip, deflate".toList), ("Pragma".toList, "no-cache".toList), ("Cache-control".toList, "no-cache".toList),
    ("Cookie".toList, "cookie=ok".toList), ("Referer".toList, "https://www.google.com/".toList)]

/-- `IndexMap::insert`: a new key comes last. -/
def insertHeader (headers : List (Text × Text)) (key value : Text) : List (Text × Text) :=
  if headers.any (·.1 = key) then headers.map fun h => if h.1 = key then (key, value) else h
  else headers ++ [(key, value)]

/-- A request before it is written out. -/
structure Request where
  method : Text
  uri : Text
  headers : List (Text × Text)
deriving DecidableEq, Repr

/-- The bytes of a request. -/
def Request.bytes (r : Request) : Bytes :=
  utf8 (r.method ++ [' '] ++ r.uri ++ " HTTP/1.1\r\n".toList ++
    joinText "\r\n".toList (r.headers.map fun h => h.1 ++ ": ".toList ++ h.2) ++ "\r\n\r\n".toList)

/-- The request target, in absolute form for plain HTTP. -/
def requestUri (host path : Text) (proto : Proto) : Text := if proto.usesFullPath then "http://".toList ++ host ++ path else path

/-- `checker.rs:LivenessTarget`. -/
structure LivenessTarget where
  host : Text
  path : Text
  ip : IpAddr
  scheme : JudgeScheme
deriving DecidableEq, Repr

/-- `LivenessTarget::resolve`. -/
def LivenessTarget.resolve (urlParse : Text → Option Url) (resolve : Text → Option IpAddr) (url : Text) : Option LivenessTarget := do
  let judge ← Judge.parse urlParse url
  if judge.scheme = .smtp then none
  else
    let ip ← resolve judge.host
    return ⟨judge.host, judge.path, ip, judge.scheme⟩

/-- `checker.rs:Probe`. -/
inductive Probe where
  | judged (judge : Judge)
  | liveness (lt : LivenessTarget)
deriving DecidableEq, Repr

/-- `Checker::build_liveness_request`. -/
def buildLivenessRequest (lt : LivenessTarget) (proto : Proto) : Request :=
  let headers := insertHeader (requestHeaders none) "Host".toList lt.host
  let headers := insertHeader headers "Connection".toList "close".toList
  ⟨"GET".toList, requestUri lt.host lt.path proto, headers⟩

/-- `Checker::build_request`, with the marker that was drawn. -/
def buildRequest (post : Bool) (marker : Text) (judge : Judge) (proto : Proto) : Request :=
  let headers := insertHeader (requestHeaders (some marker)) "Host".toList judge.host
  let headers := insertHeader headers "Connection".toList "close".toList
  let headers := insertHeader headers "Content-Length".toList "0".toList
  ⟨if post then "POST".toList else "GET".toList, requestUri judge.host judge.path proto, headers⟩

/-- What `attempt` sends through the proxy: nothing for `CONNECT:25`. -/
def sentRequest (post : Bool) (marker : Text) (proto : Proto) (probe : Probe) : Option Request :=
  if proto = .connect25 then none
  else
    match probe with
    | .judged judge => some (buildRequest post marker judge proto)
    | .liveness lt => some (buildLivenessRequest lt proto)

/-- The judges and the mode of `Checker::new`: a liveness target where no judge is usable. -/
def setUp (d : Parse.DigitClass) (toLowercase : Text → Text) (urlParse : Text → Option Url) (net : Judge.Outside)
    (realExtIps : List IpAddr) (urls : List (Text × Text)) (livenessUrl : Option Text) : Option (JudgePool × Option LivenessTarget) :=
  let candidates := urls.filterMap fun (marker, url) => (Judge.parse urlParse url).map fun judge => (marker, judge)
  let judges := JudgePool.probeAll d toLowercase net realExtIps candidates
  if judges.isEmpty then do
    let url ← livenessUrl
    let lt ← LivenessTarget.resolve urlParse net.resolve url
    return (judges, some lt)
  else some (judges, none)

/-- The start of `check_one`: what a protocol is checked against, and where the proxy is to connect. -/
def probeTarget (judges : JudgePool) (mode : Option LivenessTarget) (proto : Proto) (draw : Nat) : Option (Probe × Target) :=
  let scheme := proto.judgeScheme
  match mode with
  | none => (judges.random scheme draw).map fun judge => (.judged judge, ⟨judge.host, judge.ip, scheme.defaultPort⟩)
  | some lt => some (.liveness lt, ⟨lt.host, some lt.ip, lt.scheme.defaultPort⟩)

/-! ## What a request names -/

/-- The texts for a host and a port where a default port holds. -/
inductive Authority (default : UInt16) (host : Text) (port : UInt16) : Text → Prop where
  | bare : port = default → Authority default host port host
  | full : Authority default host port (host ++ [':'] ++ showNat port.toNat)

/-- A scheme as it is written in a URL. -/
def schemeText : Scheme → Text
  | .http => "http://".toList
  | .https => "https://".toList

/-- The default port of a scheme. -/
def schemePort : Scheme → UInt16
  | .http => 80
  | .https => 443

/-- A request names a host, a port, a path and a query. In origin form the `Host` line has the authority, for a port that
was connected to; in absolute form the request target has it as well. -/
def Names (host : Text) (port : UInt16) (pathAndQuery : Text) (connected : UInt16) (r : Request) : Prop :=
  ∃ value, r.headers.lookup "Host".toList = some value ∧
    ((r.uri = pathAndQuery ∧ Authority connected host port value) ∨
      ∃ scheme authority, r.uri = schemeText scheme ++ authority ++ pathAndQuery ∧ Authority (schemePort scheme) host port authority ∧
        Authority (schemePort scheme) host port value)

/-- A proxy is to connect to the host and the port, and what is sent through it names them with the path and the query. -/
structure Reaches (host : Text) (port : UInt16) (pathAndQuery : Text) (target : Target) (request : Option Request) : Prop where
  toHost : target.host = host
  toPort : target.port = port
  request : ∀ r ∈ request, Names host port pathAndQuery target.port r

/-- The port that a URL names. -/
def effectivePort (u : Url) (scheme : JudgeScheme) : UInt16 := u.port.getD scheme.defaultPort

/-- The host that a probe kept. -/
def Probe.host : Probe → Text
  | .judged judge => judge.host
  | .liveness lt => lt.host

/-- The path and the query that a probe kept. -/
def Probe.path : Probe → Text
  | .judged judge => judge.path
  | .liveness lt => lt.path

/-- The URL that a probe stands for: the one that `Judge::probe` asked for, or the one configured for liveness. -/
def Probe.url (livenessUrl : Option Text) : Probe → Option Text
  | .judged judge => some judge.url
  | .liveness _ => livenessUrl

section Requests

variable {host path : Text} {port connected : UInt16} {proto : Proto} {r : Request} {probe : Probe} {target : Target}

theorem authority_host {text : Text} (authority : Authority connected host port text) (same : text = host) : port = connected := by
  cases authority with
  | bare default => exact default
  | full =>
    have length := congrArg List.length same
    simp only [List.length_append, List.length_singleton] at length
    omega

/-- The request target and the `Host` line have no port, so they name that of `http`, or the one connected to. -/
theorem names_iff (uri : r.uri = requestUri host path proto) (value : r.headers.lookup "Host".toList = some host) :
    Names host port path port r ↔ (proto = .http → port = 80) := by
  constructor
  · rintro ⟨_, -, named⟩ rfl
    have absolute : r.uri = "http://".toList ++ host ++ path := uri
    rcases named with ⟨origin, -⟩ | ⟨scheme, authority, eq, at_port, -⟩
    · have length := congrArg List.length (absolute.symm.trans origin)
      simp only [List.length_append] at length
      have seven : "http://".toList.length = 7 := by decide
      omega
    · rw [absolute, List.append_cancel_right_eq] at eq
      have same : "http://".toList ++ host = schemeText scheme ++ authority := eq
      cases scheme with
      | http =>
        have written : schemeText .http = "http://".toList := rfl
        rw [written, List.append_cancel_left_eq] at same
        exact authority_host at_port same.symm
      | https =>
        have written : schemeText .https = "https://".toList := rfl
        rw [written] at same
        have fifth := congrArg (·[4]?) same
        simp at fifth
  · intro plain
    refine ⟨host, value, ?_⟩
    by_cases http : proto = .http
    · right
      subst http
      exact ⟨.http, host, uri, .bare (plain rfl), .bare (plain rfl)⟩
    · left
      refine ⟨?_, .bare rfl⟩
      rw [uri, requestUri, if_neg]
      cases proto <;> simp_all [Proto.usesFullPath]

/-- Replacing an entry. -/
theorem lookup_replace (headers : List (Text × Text)) (key value k : Text) :
    (headers.map fun h => if h.1 = key then (key, value) else h).lookup k =
      if k = key then (if headers.any (·.1 = key) then some value else none) else headers.lookup k := by
  induction headers with
  | nil => simp
  | cons h headers ih =>
    obtain ⟨name, text⟩ := h
    rw [List.map_cons]
    by_cases old : name = key
    · rw [if_pos old]
      by_cases same : k = key
      · simp [same, old]
      · have other : k ≠ name := fun eq => same (eq.trans old)
        simp only [List.lookup_cons, beq_eq_false_iff_ne.2 same, beq_eq_false_iff_ne.2 other, ih, if_neg same]
    · rw [if_neg old]
      by_cases here : k = name
      · subst here
        simp [old]
      · simp only [List.lookup_cons, beq_eq_false_iff_ne.2 here, ih, List.any_cons, decide_eq_false old, Bool.false_or]

/-- Appending an entry with a new key. -/
theorem lookup_append {headers : List (Text × Text)} {key : Text} (new : ¬ headers.any (·.1 = key)) (value k : Text) :
    (headers ++ [(key, value)]).lookup k = if k = key then some value else headers.lookup k := by
  induction headers with
  | nil =>
    by_cases same : k = key
    · simp [same]
    · simp only [List.nil_append, List.lookup_cons, List.lookup_nil, beq_eq_false_iff_ne.2 same, if_neg same]
  | cons h headers ih =>
    obtain ⟨name, text⟩ := h
    simp only [List.any_cons, Bool.or_eq_true, decide_eq_true_eq, not_or] at new
    have rest := ih new.2
    by_cases here : k = name
    · simp [here, new.1]
    · simp only [List.cons_append, List.lookup_cons, beq_eq_false_iff_ne.2 here, rest]

theorem lookup_insertHeader (headers : List (Text × Text)) (key value k : Text) :
    (insertHeader headers key value).lookup k = if k = key then some value else headers.lookup k := by
  unfold insertHeader
  split
  · rename_i known
    rw [lookup_replace, if_pos known]
  · rename_i new
    exact lookup_append new value k

/-- What is sent names the host and the path of the probe. -/
theorem sent_uri {post : Bool} {marker : Text} (sent : sentRequest post marker proto probe = some r) (host_eq : probe.host = host)
    (path_eq : probe.path = path) : r.uri = requestUri host path proto ∧ r.headers.lookup "Host".toList = some host := by
  subst host_eq path_eq
  unfold sentRequest at sent
  split at sent
  · cases sent
  · cases probe with
    | judged judge =>
      cases sent
      refine ⟨rfl, ?_⟩
      rw [buildRequest, lookup_insertHeader, lookup_insertHeader, lookup_insertHeader, if_neg (by decide), if_neg (by decide), if_pos rfl]
      rfl
    | liveness lt =>
      cases sent
      refine ⟨rfl, ?_⟩
      rw [buildLivenessRequest, lookup_insertHeader, lookup_insertHeader, if_neg (by decide), if_pos rfl]
      rfl

theorem default_eq {u : Url} {scheme : JudgeScheme} :
    scheme.defaultPort = effectivePort u scheme ↔ ∀ p, u.port = some p → p = scheme.defaultPort := by
  rw [effectivePort]
  cases u.port with
  | none => simp
  | some p => simp [eq_comm]

theorem http_of_port {scheme : JudgeScheme} : scheme.defaultPort = 80 ↔ scheme = .http := by
  cases scheme <;> decide

/-- A target at the default port, and the request for it. -/
theorem reaches_iff {u : Url} {scheme : JudgeScheme} {post : Bool} {marker : Text} (host_eq : probe.host = host)
    (path_eq : probe.path = u.pathAndQuery) (to_host : target.host = host) (to_port : target.port = scheme.defaultPort) :
    Reaches host (effectivePort u scheme) u.pathAndQuery target (sentRequest post marker proto probe) ↔
      (∀ p, u.port = some p → p = scheme.defaultPort) ∧ (proto = .http → scheme = .http) := by
  rw [← default_eq]
  constructor
  · intro reaches
    have port_eq : scheme.defaultPort = effectivePort u scheme := to_port.symm.trans reaches.toPort
    refine ⟨port_eq, ?_⟩
    rintro rfl
    obtain ⟨r, sent⟩ : ∃ r, sentRequest post marker .http probe = some r := by
      cases probe <;> exact ⟨_, rfl⟩
    obtain ⟨uri, value⟩ := sent_uri sent host_eq path_eq
    have named := reaches.request r sent
    rw [reaches.toPort, names_iff uri value, ← port_eq] at named
    exact http_of_port.1 (named rfl)
  · rintro ⟨port_eq, plain⟩
    refine ⟨to_host, to_port.trans port_eq, ?_⟩
    intro r sent
    obtain ⟨uri, value⟩ := sent_uri sent host_eq path_eq
    rw [to_port, port_eq, names_iff uri value, ← port_eq]
    exact fun http => http_of_port.2 (plain http)

/-- A judge that is drawn was parsed, and its probe kept what was parsed. -/
theorem judge_of_random {d : Parse.DigitClass} {toLowercase : Text → Text} {urlParse : Text → Option Url} {net : Judge.Outside}
    {realExtIps : List IpAddr} {urls : List (Text × Text)} {scheme : JudgeScheme} {draw : Nat} {judge : Judge}
    (drawn : (JudgePool.probeAll d toLowercase net realExtIps
      (urls.filterMap fun (marker, url) => (Judge.parse urlParse url).map fun judge => (marker, judge))).random scheme draw = some judge) :
    judge.scheme = scheme ∧ ∃ u, urlParse judge.url = some u ∧ judge.Of u := by
  obtain ⟨in_scheme, marker, candidate, listed, probed⟩ := JudgePool.mem_bucket (JudgePool.mem_of_random drawn)
  obtain ⟨⟨marker', url⟩, -, made⟩ := List.mem_filterMap.1 listed
  obtain ⟨parsed, at_url, eq⟩ := Option.map_eq_some_iff.1 made
  obtain ⟨-, rfl⟩ := Prod.mk.inj eq
  obtain ⟨-, u, known, of_u⟩ := Judge.of_parse at_url
  obtain ⟨same_url, same_scheme, same_host, same_path⟩ := Judge.probe_keeps probed
  refine ⟨in_scheme, u, same_url ▸ known, ?_⟩
  exact ⟨same_scheme ▸ of_u.scheme, same_host ▸ of_u.host, same_path ▸ of_u.path⟩

theorem judge_of_resolve {urlParse : Text → Option Url} {resolve : Text → Option IpAddr} {url : Text} {lt : LivenessTarget}
    (h : LivenessTarget.resolve urlParse resolve url = some lt) :
    ∃ u, urlParse url = some u ∧ JudgeScheme.named u.scheme = some lt.scheme ∧ u.host = some lt.host ∧ lt.path = u.pathAndQuery := by
  simp only [LivenessTarget.resolve, Option.bind_eq_bind, Option.bind_eq_some_iff, Option.pure_def] at h
  obtain ⟨judge, parsed, h⟩ := h
  split at h
  · cases h
  · simp only [Option.bind_eq_some_iff] at h
    obtain ⟨ip, -, same⟩ := h
    cases same
    obtain ⟨at_url, u, known, of_u⟩ := Judge.of_parse parsed
    exact ⟨u, at_url ▸ known, of_u.scheme, of_u.host, of_u.path⟩

end Requests

/-- **Requests reach what was probed**, the host, the port, the path and the query of the URL, exactly when the URL has no port but
the default one, and no `https` URL is asked for over plain HTTP. -/
theorem requests_reach_iff (d : Parse.DigitClass) (toLowercase : Text → Text) (urlParse : Text → Option Url) (net : Judge.Outside)
    (realExtIps : List IpAddr) (urls : List (Text × Text)) (livenessUrl : Option Text) {judges : JudgePool} {mode : Option LivenessTarget}
    (ready : setUp d toLowercase urlParse net realExtIps urls livenessUrl = some (judges, mode)) {proto : Proto} {draw : Nat}
    {probe : Probe} {target : Target} (chosen : probeTarget judges mode proto draw = some (probe, target)) (post : Bool) (marker : Text) :
    ∃ url u host scheme, probe.url livenessUrl = some url ∧ urlParse url = some u ∧ u.host = some host ∧
      JudgeScheme.named u.scheme = some scheme ∧
      (Reaches host (effectivePort u scheme) u.pathAndQuery target (sentRequest post marker proto probe) ↔
        (∀ p, u.port = some p → p = scheme.defaultPort) ∧ (proto = .http → scheme = .http)) := by
  unfold setUp at ready
  dsimp only at ready
  split at ready
  · simp only [Option.bind_eq_bind, Option.bind_eq_some_iff, Option.pure_def] at ready
    obtain ⟨url, configured, lt, resolved, same⟩ := ready
    cases same
    cases chosen
    obtain ⟨u, known, named, hosted, path⟩ := judge_of_resolve resolved
    exact ⟨url, u, lt.host, lt.scheme, configured, known, hosted, named, reaches_iff rfl path rfl rfl⟩
  · cases ready
    obtain ⟨judge, drawn, same⟩ := Option.map_eq_some_iff.1 chosen
    cases same
    obtain ⟨in_scheme, u, known, of_u⟩ := judge_of_random drawn
    refine ⟨judge.url, u, judge.host, judge.scheme, rfl, known, of_u.host, of_u.scheme, ?_⟩
    exact reaches_iff rfl of_u.path rfl (congrArg JudgeScheme.defaultPort in_scheme.symm)

theorem alive_is_reached :
    let parsed : Url := ⟨"http".toList, some "alive.example".toList, none, "/ok".toList, some "v=1".toList⟩
    let lt : LivenessTarget := ⟨"alive.example".toList, "/ok?v=1".toList, .v4 0x01010101, .http⟩
    let urlParse : Text → Option Url := fun t => if t = "http://alive.example/ok?v=1".toList then some parsed else none
    ∃ url u host scheme, (Probe.liveness lt).url (some "http://alive.example/ok?v=1".toList) = some url ∧ urlParse url = some u ∧
      u.host = some host ∧ JudgeScheme.named u.scheme = some scheme ∧
      (Reaches host (effectivePort u scheme) u.pathAndQuery ⟨lt.host, some lt.ip, 80⟩ (sentRequest false [] .http (.liveness lt)) ↔
        (∀ p, u.port = some p → p = scheme.defaultPort) ∧ (Proto.http = .http → scheme = .http)) := by
  intro parsed lt urlParse
  have ready : setUp .least id urlParse ⟨fun _ => some (.v4 0x01010101), fun _ _ => none⟩ [] [] (some "http://alive.example/ok?v=1".toList) =
      some (⟨[], [], []⟩, some lt) := by decide
  have chosen : probeTarget ⟨[], [], []⟩ (some lt) .http 0 = some (.liveness lt, ⟨lt.host, some lt.ip, 80⟩) := rfl
  exact requests_reach_iff .least id urlParse ⟨fun _ => some (.v4 0x01010101), fun _ _ => none⟩ [] []
    (some "http://alive.example/ok?v=1".toList) ready chosen false []

/-- A judge on port 8080 is probed there, and the proxies are sent to port 80. -/
theorem port_of_judge_lost :
    let parsed : Url := ⟨"http".toList, some "judge.example".toList, some 8080, "/get".toList, none⟩
    let urlParse : Text → Option Url := fun t => if t = "http://judge.example:8080/get".toList then some parsed else none
    let net : Judge.Outside := ⟨fun _ => some (.v4 0x7F000001), fun url _ =>
      if url = "http://judge.example:8080/get".toList then some (200, "4.3.2.1 PxBroker/1.1.0/7777".toList) else none⟩
    let judge : Judge := ⟨"http://judge.example:8080/get".toList, .http, "judge.example".toList, "/get".toList, some (.v4 0x7F000001), ⟨0, 0⟩⟩
    let target : Target := ⟨"judge.example".toList, some (.v4 0x7F000001), 80⟩
    setUp .least (·.map Char.toLower) urlParse net [.v4 0x04030201] [("7777".toList, "http://judge.example:8080/get".toList)] none =
      some (⟨[judge], [], []⟩, none) ∧
    probeTarget ⟨[judge], [], []⟩ none .http 0 = some (.judged judge, target) ∧ urlParse judge.url = some parsed ∧
    ¬ Reaches "judge.example".toList (effectivePort parsed .http) parsed.pathAndQuery target
      (sentRequest false "7777".toList .http (.judged judge)) := by
  intro parsed urlParse net judge target
  refine ⟨by decide +kernel, by decide, by decide, ?_⟩
  intro reaches
  exact absurd reaches.toPort (by decide)

end Checker

end ProxyBroker
