import ProxyBroker.Negotiator
import ProxyBroker.Utils.Addresses

/-!
# Judges (`judge.rs`)

A judge's URL is taken apart once, by `Judge.parse`; `Judge.probe` asks for it as it is and looks for the real addresses
and the marker in the page. The `url` crate and `str::to_lowercase` are given, and so is what a probe meets outside: what
the resolver says, and the answer to a direct request.
-/

namespace ProxyBroker
open Lib

/-- What the `url` crate makes of a text: `scheme`, `host_str`, `port`, `path` and `query`. -/
structure Url where
  scheme : Text
  host : Option Text
  port : Option UInt16
  path : Text
  query : Option Text
deriving DecidableEq, Repr

/-- `JudgeScheme::default_port`. -/
def JudgeScheme.defaultPort : JudgeScheme → UInt16
  | .http => 80
  | .https => 443
  | .smtp => 25

/-- The schemes that `Judge::parse` accepts. -/
def JudgeScheme.named (scheme : Text) : Option JudgeScheme :=
  if scheme = "http".toList then some .http
  else if scheme = "https".toList then some .https
  else if scheme = "smtp".toList then some .smtp
  else none

/-- `judge.rs:Marks`. -/
structure Marks where
  via : Nat
  proxy : Nat
deriving DecidableEq, Repr

/-- `judge.rs:Judge`. -/
structure Judge where
  url : Text
  scheme : JudgeScheme
  host : Text
  path : Text
  ip : Option IpAddr
  marks : Marks
deriving DecidableEq, Repr

/-- The path with the query behind it. -/
def Url.pathAndQuery (u : Url) : Text :=
  match u.query with
  | some q => u.path ++ ['?'] ++ q
  | none => u.path

/-- `str::matches(pattern).count()`, after `skip` characters of the last match. -/
def countMatchesFrom (pattern : Text) : Nat → Text → Nat
  | _, [] => 0
  | skip + 1, _ :: t => countMatchesFrom pattern skip t
  | 0, c :: t => if pattern <+: c :: t then 1 + countMatchesFrom pattern (pattern.length - 1) t else countMatchesFrom pattern 0 t

def countMatches (pattern text : Text) : Nat := countMatchesFrom pattern 0 text

example : countMatches "via".toList "via: viavi".toList = 2 := by decide

/-- `page_ips.contains(&ip.to_string())`, for any of the real addresses. -/
def realVisible (d : Parse.DigitClass) (realExtIps : List IpAddr) (page : Text) : Bool :=
  realExtIps.any fun ip => decide (ip.display ∈ getAllIp d page)

namespace Judge

/-- `Judge::parse`. -/
def parse (urlParse : Text → Option Url) (url : Text) : Option Judge := do
  let parsed ← urlParse url
  let scheme ← JudgeScheme.named parsed.scheme
  let host ← parsed.host
  return ⟨url, scheme, host, parsed.pathAndQuery, none, ⟨0, 0⟩⟩

/-- What a probe meets outside: the answer of the resolver, and status and body of the answer to a direct request for a
URL with a marker. -/
structure Outside where
  resolve : Text → Option IpAddr
  fetch : (url marker : Text) → Option (Nat × Text)

variable (d : Parse.DigitClass) (toLowercase : Text → Text) (net : Outside) (realExtIps : List IpAddr)

/-- `Judge::probe`, with the judge that is usable. -/
def probe (marker : Text) (judge : Judge) : Option Judge := do
  let ip ← net.resolve judge.host
  let judge := { judge with ip := some ip }
  if judge.scheme = .smtp then return judge
  let (status, body) ← net.fetch judge.url marker
  if status ≠ 200 then none
  else
    let page := toLowercase body
    if realVisible d realExtIps page ∧ marker <:+: page then
      some { judge with marks := ⟨countMatches "via".toList page, countMatches "proxy".toList page⟩ }
    else none

end Judge

/-- `judge.rs:JudgePool`. -/
structure JudgePool where
  http : List Judge
  https : List Judge
  smtp : List Judge
deriving DecidableEq, Repr

namespace JudgePool

/-- The judges of a scheme. -/
def bucket (pool : JudgePool) : JudgeScheme → List Judge
  | .http => pool.http
  | .https => pool.https
  | .smtp => pool.smtp

/-- `JudgePool::probe_all`, with the marker of each probe. -/
def probeAll (d : Parse.DigitClass) (toLowercase : Text → Text) (net : Judge.Outside) (realExtIps : List IpAddr)
    (candidates : List (Text × Judge)) : JudgePool :=
  let working := candidates.filterMap fun (marker, judge) => judge.probe d toLowercase net realExtIps marker
  ⟨working.filter (·.scheme = .http), working.filter (·.scheme = .https), working.filter (·.scheme = .smtp)⟩

/-- `JudgePool::random`, with the draw. -/
def random (pool : JudgePool) (scheme : JudgeScheme) (draw : Nat) : Option Judge :=
  (pool.bucket scheme)[draw % (pool.bucket scheme).length]?

/-- `JudgePool::is_empty`. -/
def isEmpty (pool : JudgePool) : Bool := pool.http.isEmpty && pool.https.isEmpty && pool.smtp.isEmpty

end JudgePool

/-! ## What a judge keeps of its URL -/

section Kept

variable {d : Parse.DigitClass} {toLowercase : Text → Text} {net : Judge.Outside} {realExtIps : List IpAddr}
variable {urlParse : Text → Option Url} {judge judge' : Judge} {marker url : Text}

/-- A judge that was taken from its URL. -/
structure Judge.Of (u : Url) (judge : Judge) : Prop where
  scheme : JudgeScheme.named u.scheme = some judge.scheme
  host : u.host = some judge.host
  path : judge.path = u.pathAndQuery

theorem Judge.of_parse (h : Judge.parse urlParse url = some judge) : judge.url = url ∧ ∃ u, urlParse judge.url = some u ∧ judge.Of u := by
  simp only [Judge.parse, Option.bind_eq_bind, Option.bind_eq_some_iff, Option.pure_def] at h
  obtain ⟨u, parsed, scheme, named, host, hosted, same⟩ := h
  cases same
  exact ⟨rfl, u, parsed, named, hosted, rfl⟩

/-- A probe sets the address and the marks, and nothing else. -/
theorem Judge.probe_keeps (h : judge.probe d toLowercase net realExtIps marker = some judge') :
    judge'.url = judge.url ∧ judge'.scheme = judge.scheme ∧ judge'.host = judge.host ∧ judge'.path = judge.path := by
  simp only [Judge.probe, Option.bind_eq_bind, Option.bind_eq_some_iff, Option.pure_def] at h
  obtain ⟨ip, -, h⟩ := h
  split at h
  · cases h
    exact ⟨rfl, rfl, rfl, rfl⟩
  · simp only [Option.bind_eq_some_iff] at h
    obtain ⟨⟨status, body⟩, -, h⟩ := h
    dsimp only at h
    split at h
    · cases h
    · split at h
      · cases h
        exact ⟨rfl, rfl, rfl, rfl⟩
      · cases h

theorem JudgePool.mem_bucket {candidates : List (Text × Judge)} {scheme : JudgeScheme}
    (mem : judge ∈ (JudgePool.probeAll d toLowercase net realExtIps candidates).bucket scheme) :
    judge.scheme = scheme ∧ ∃ marker candidate, (marker, candidate) ∈ candidates ∧
      candidate.probe d toLowercase net realExtIps marker = some judge := by
  have working : judge ∈ candidates.filterMap (fun (marker, judge) => judge.probe d toLowercase net realExtIps marker) ∧ judge.scheme = scheme := by
    cases scheme with
    | http => simpa [JudgePool.bucket, JudgePool.probeAll] using mem
    | https => simpa [JudgePool.bucket, JudgePool.probeAll] using mem
    | smtp => simpa [JudgePool.bucket, JudgePool.probeAll] using mem
  obtain ⟨⟨marker, candidate⟩, listed, probed⟩ := List.mem_filterMap.1 working.1
  exact ⟨working.2, marker, candidate, listed, probed⟩

theorem JudgePool.mem_of_random {pool : JudgePool} {scheme : JudgeScheme} {draw : Nat} (h : pool.random scheme draw = some judge) :
    judge ∈ pool.bucket scheme := List.mem_of_getElem? h

end Kept

end ProxyBroker
