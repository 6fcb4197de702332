import Mathlib.Data.Seq.Basic
import ProxyBroker.Lib.Machine
import ProxyBroker.Proxy

/-!
# The check pipeline (`broker.rs:check_stream`)

A driver pulls proxies from a source and spawns a check for each, at most `max_conn` at a time; a check
that passes reserves a slot under the limit and sends its proxy to the consumer. Driver, checks and
consumer share a semaphore, a counter, a cancellation token and a bounded channel. One input is one
atomic step of one of them, so a list of inputs is an interleaving.

Every item that the driver pulls is either spawned or ends the loop, so check `k` is that of item `k` of
the source, and the next item is number `tasks.length`. The checks stay in `tasks` after they are over.
-/

namespace ProxyBroker.Broker
open Lib

/-- `CHANNEL_CAPACITY`. -/
def channelCapacity : Nat := 256

/-- `Semaphore::MAX_PERMITS`, that is `usize::MAX >> 3`: `Semaphore::new` panics above it. -/
def maxPermits : Nat := (2 ^ 64 - 1) / 2 ^ 3

/-- `proxy.rs:Capabilities`. -/
structure Capabilities where
  cookieEcho : Bool
  refererEcho : Bool
  connect25 : Bool
deriving DecidableEq, Repr

/-- `Proxy::capabilities`. -/
def capabilities (p : Proxy) : Capabilities := ⟨p.caps.cookieEcho, p.caps.refererEcho, p.hasType .connect25⟩

/-- `TrustReport::trusted`. -/
def trusted (p : Proxy) : Bool := p.trust.isEmpty

/-- `broker.rs:CapsFilter`. -/
structure CapsFilter where
  cookie : Bool
  referer : Bool
  connect25 : Bool
  trusted : Bool
deriving DecidableEq, Repr

/-- `CapsFilter::passes`. -/
def CapsFilter.passes (f : CapsFilter) (p : Proxy) : Bool :=
  let c := capabilities p
  (!f.cookie || c.cookieEcho) && (!f.referer || c.refererEcho) && (!f.connect25 || c.connect25) &&
    (!f.trusted || Broker.trusted p)

/-- What `checker.check(&mut proxy)` returns, and the proxy as it leaves it. -/
structure Verdict where
  working : Bool
  proxy : Proxy

/-- The arguments of `check_stream`. `check k p` is the verdict on item `k` of the source, which is `p`;
`onChecked` says whether there is an observer. -/
structure Job where
  source : Stream'.Seq Proxy
  check : Nat → Proxy → Verdict
  maxConn : Nat
  limit : Option Nat
  caps : CapsFilter
  onChecked : Bool

/-- The verdict is emitted if there is a slot for it: `working && caps.passes(&proxy)`. -/
def Job.passes (job : Job) (v : Verdict) : Bool := v.working && job.caps.passes v.proxy

/-- `limit.is_some_and(|l| n >= l)`. -/
def Job.full (job : Job) (n : Nat) : Bool := job.limit.any fun l => l ≤ n

/-- How a check ended: cancelled, not passed, passed above the limit, sent, or passed with nobody to
receive it. -/
inductive Outcome where
  | aborted | rejected | refused | sent | undelivered
deriving DecidableEq, Repr

/-- Where a check stands. -/
inductive Phase where
  | checking (proxy : Proxy)
  | recording (v : Verdict)
  | observing (v : Verdict)
  | filtering (v : Verdict)
  | reserving (proxy : Proxy)
  | sending (proxy : Proxy) (n : Nat)
  | cancelling (o : Outcome)
  | finishing (o : Outcome)
  | leaving (o : Outcome)
  | left (o : Outcome)

/-- What was done with item `k`, in order. -/
inductive Event where
  | recorded (k : Nat) (proxy : Proxy)
  | observed (k : Nat) (proxy : Proxy)
  | sent (k : Nat) (proxy : Proxy)

/-- The `ProxyStream`: alive, its receiver dropped, its guard dropped too. -/
inductive Consumer where
  | reading | closed | dropped
deriving DecidableEq, Repr

/-- What driver, checks and consumer share. `log` is the history, which nobody reads. -/
structure Shared where
  permits : Nat
  sent : Nat
  cancelled : Bool
  channel : List (Nat × Proxy)
  received : List (Nat × Proxy)
  consumer : Consumer
  log : List Event

/-- Where the driver stands. -/
inductive Driver where
  | pulling
  | testing (proxy : Proxy)
  | limiting (proxy : Proxy)
  | acquiring (proxy : Proxy)
  | draining
  | ended
  | panicked

structure State where
  shared : Shared
  driver : Driver
  tasks : List Phase

inductive Input where
  | pull
  | drive
  | cancelled (k : Nat)
  | advance (k : Nat)
  | receive
  | closeReceiver
  | dropGuard
deriving DecidableEq, Repr

/-- After the send: the check that took the last slot fires the token. -/
def afterSend (job : Job) (n : Nat) (o : Outcome) : Phase := if job.full (n + 1) then .cancelling o else .finishing o

/-- The next step of check `k`, other than to notice the token. -/
def advance (job : Job) (k : Nat) (sh : Shared) : Phase → Option (Shared × Phase)
  | .checking p => some (sh, .recording (job.check k p))
  | .recording v => some ({ sh with log := sh.log ++ [.recorded k v.proxy] }, .observing v)
  | .observing v =>
    some ({ sh with log := sh.log ++ if job.onChecked then [.observed k v.proxy] else [] }, .filtering v)
  | .filtering v => some (sh, if job.passes v then .reserving v.proxy else .finishing .rejected)
  | .reserving p =>
    some ({ sh with sent := sh.sent + 1 }, if job.full sh.sent then .cancelling .refused else .sending p sh.sent)
  | .sending p n =>
    if sh.consumer ≠ .reading then some (sh, afterSend job n .undelivered)
    else if sh.channel.length < channelCapacity then
      some ({ sh with channel := sh.channel ++ [(k, p)], log := sh.log ++ [.sent k p] }, afterSend job n .sent)
    else none
  | .cancelling o => some ({ sh with cancelled := true }, .finishing o)
  | .finishing o => some ({ sh with permits := sh.permits + 1 }, .leaving o)
  | .leaving o => some (sh, .left o)
  | .left _ => none

/-- `tracker.wait()` is over. -/
def Phase.isLeft : Phase → Bool
  | .left _ => true
  | _ => false

/-- The driver's next step, other than to pull. -/
def drive (job : Job) (s : State) : Option State :=
  match s.driver with
  | .testing p => some { s with driver := if s.shared.cancelled then .draining else .limiting p }
  | .limiting p => some { s with driver := if job.full s.shared.sent then .draining else .acquiring p }
  | .acquiring p =>
    if 0 < s.shared.permits then
      some ⟨{ s.shared with permits := s.shared.permits - 1 }, .pulling, s.tasks ++ [.checking p]⟩
    else none
  | .draining => if s.tasks.all Phase.isLeft then some { s with driver := .ended } else none
  | _ => none

def step (job : Job) (s : State) : Input → Option State
  | .pull =>
    match s.driver with
    | .pulling =>
      some { s with driver := match job.source.get? s.tasks.length with
        | some p => .testing p
        | none => .draining }
    | _ => none
  | .drive => drive job s
  | .cancelled k =>
    match s.tasks[k]? with
    | some (.checking _) =>
      if s.shared.cancelled then some { s with tasks := s.tasks.set k (.finishing .aborted) } else none
    | _ => none
  | .advance k =>
    match s.tasks[k]? with
    | some ph => (advance job k s.shared ph).map fun r => { s with shared := r.1, tasks := s.tasks.set k r.2 }
    | none => none
  | .receive =>
    match s.shared.consumer, s.shared.channel with
    | .reading, m :: rest =>
      some { s with shared := { s.shared with channel := rest, received := s.shared.received ++ [m] } }
    | _, _ => none
  | .closeReceiver =>
    if s.shared.consumer = .reading then some { s with shared := { s.shared with consumer := .closed, channel := [] } }
    else none
  | .dropGuard =>
    if s.shared.consumer = .closed then
      some { s with shared := { s.shared with consumer := .dropped, cancelled := true } }
    else none

/-- What a step does. -/
inductive Move (job : Job) (s : State) : Input → State → Prop
  | pulled {p : Proxy} : s.driver = .pulling → job.source.get? s.tasks.length = some p →
      Move job s .pull { s with driver := .testing p }
  | dry : s.driver = .pulling → job.source.get? s.tasks.length = none → Move job s .pull { s with driver := .draining }
  | tested {p : Proxy} : s.driver = .testing p →
      Move job s .drive { s with driver := if s.shared.cancelled then .draining else .limiting p }
  | limited {p : Proxy} : s.driver = .limiting p →
      Move job s .drive { s with driver := if job.full s.shared.sent then .draining else .acquiring p }
  | spawned {p : Proxy} : s.driver = .acquiring p → 0 < s.shared.permits →
      Move job s .drive ⟨{ s.shared with permits := s.shared.permits - 1 }, .pulling, s.tasks ++ [.checking p]⟩
  | drained : s.driver = .draining → s.tasks.all Phase.isLeft = true → Move job s .drive { s with driver := .ended }
  | aborted {k : Nat} {p : Proxy} : s.tasks[k]? = some (.checking p) → s.shared.cancelled = true →
      Move job s (.cancelled k) { s with tasks := s.tasks.set k (.finishing .aborted) }
  | advanced {k : Nat} {ph ph' : Phase} {sh' : Shared} : s.tasks[k]? = some ph → advance job k s.shared ph = some (sh', ph') →
      Move job s (.advance k) { s with shared := sh', tasks := s.tasks.set k ph' }
  | received {m : Nat × Proxy} {rest : List (Nat × Proxy)} : s.shared.consumer = .reading → s.shared.channel = m :: rest →
      Move job s .receive { s with shared := { s.shared with channel := rest, received := s.shared.received ++ [m] } }
  | closed : s.shared.consumer = .reading →
      Move job s .closeReceiver { s with shared := { s.shared with consumer := .closed, channel := [] } }
  | dropped : s.shared.consumer = .closed →
      Move job s .dropGuard { s with shared := { s.shared with consumer := .dropped, cancelled := true } }

theorem drive_move {job : Job} {s t : State} (h : drive job s = some t) : Move job s .drive t := by
  unfold drive at h
  split at h
  · rename_i p testing
    cases h
    exact .tested testing
  · rename_i p limiting
    cases h
    exact .limited limiting
  · rename_i p acquiring
    split at h
    · rename_i free
      cases h
      exact .spawned acquiring free
    · cases h
  · rename_i draining
    split at h
    · rename_i left
      cases h
      exact .drained draining left
    · cases h
  · cases h

theorem step_move {job : Job} {s t : State} {i : Input} (h : step job s i = some t) : Move job s i t := by
  cases i with
  | pull =>
    simp only [step] at h
    split at h
    · rename_i pulling
      cases h
      cases item : job.source.get? s.tasks.length with
      | some p => exact .pulled pulling item
      | none => exact .dry pulling item
    · cases h
  | drive => exact drive_move h
  | cancelled k =>
    simp only [step] at h
    split at h
    · rename_i p at_k
      split at h
      · rename_i fired
        cases h
        exact .aborted at_k fired
      · cases h
    · cases h
  | advance k =>
    simp only [step] at h
    split at h
    · rename_i ph at_k
      obtain ⟨⟨sh', ph'⟩, moved, rfl⟩ := Option.map_eq_some_iff.1 h
      exact .advanced at_k moved
    · cases h
  | receive =>
    simp only [step] at h
    split at h
    · rename_i m rest reading channel
      cases h
      exact .received reading channel
    · cases h
  | closeReceiver =>
    simp only [step] at h
    split at h
    · rename_i reading
      cases h
      exact .closed reading
    · cases h
  | dropGuard =>
    simp only [step] at h
    split at h
    · rename_i closed
      cases h
      exact .dropped closed
    · cases h

/-- A call of `check_stream` with a new channel, token and counter. -/
def start (job : Job) : State where
  shared := ⟨job.maxConn, 0, false, [], [], .reading, []⟩
  driver := if job.maxConn ≤ maxPermits then .pulling else .panicked
  tasks := []

/-- `check_stream` is over, and its sender dropped. -/
def State.over (s : State) : Prop := s.driver = .ended ∨ s.driver = .panicked

/-- A job over proxies that all pass. -/
def passingJob (source : List Proxy) (maxConn : Nat) (limit : Option Nat) : Job where
  source := Stream'.Seq.ofList source
  check := fun _ p => ⟨true, p⟩
  maxConn := maxConn
  limit := limit
  caps := ⟨false, false, false, false⟩
  onChecked := true

end ProxyBroker.Broker
