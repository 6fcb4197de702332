import ProxyBroker.Server.Commit
import ProxyBroker.Server.Forward

/-!
# The calls of `relay` that `handle_client` makes

The results about credentials are about runs of `relay` over bytes that carry their origin. This module
ties them to the handler: every call in a run of `handle_client`, also a retried one, is a run of `relay`
on the whole rest of the client's stream (`calls_run`), and is the traced run of that call with the
origins forgotten (`calls_traced`).
-/

namespace ProxyBroker.Server
open Lib

namespace Handler

variable {ctx : ConnCtx} {req : ClientRequest} {unread : Bytes} {s t : State} {i : Input}

/-- A request in the loop, with its target. -/
def Looping (req : ClientRequest) (sv : Serving) : Prop := sv.req = req ∧ ∃ ip, sv.target = ⟨req.host, ip, req.port⟩

/-- A state of a call of `relay` for `req`, on the client's bytes `unread`. -/
def Call (ctx : ConnCtx) (req : ClientRequest) (unread : Bytes) (a : Attempt) : Prop :=
  ∃ sv proxy js, Looping req sv ∧ a.job = relayJob ctx sv proxy ∧
    run (Relay.step id id a.job) (Relay.start unread) js = some a.relay

/-- While the handler may still call `relay`, nothing more of the client's stream was read. -/
def Calls (ctx : ConnCtx) (req : ClientRequest) (unread : Bytes) (s : State) : Prop :=
  (∀ a ∈ s.attempts, Call ctx req unread a) ∧
  match s.phase with
  | .accepted _ => False
  | .resolving r => r = req ∧ s.unread = unread
  | .getting sv | .rotating sv _ | .putting sv _ _ true | .notifying sv true => Looping req sv ∧ s.unread = unread
  | .relaying sv proxy r => Looping req sv ∧ s.unread = unread ∧ Call ctx req unread ⟨relayJob ctx sv proxy, r⟩
  | _ => True

theorem calls_loopHead {sv : Serving} (all : ∀ a ∈ s.attempts, Call ctx req unread a) (loops : Looping req sv)
    (same : s.unread = unread) : Calls ctx req unread (loopHead ctx s sv) := by
  unfold loopHead
  split
  · exact ⟨all, loops, same⟩
  · exact ⟨all, trivial⟩

theorem calls_continueWith {sv : Serving} (again : Bool) (all : ∀ a ∈ s.attempts, Call ctx req unread a)
    (retry : again = true → Looping req sv ∧ s.unread = unread) : Calls ctx req unread (continueWith ctx s sv again) := by
  cases again with
  | true => exact calls_loopHead all (retry rfl).1 (retry rfl).2
  | false => exact ⟨all, trivial⟩

/-- A call begins. -/
theorem call_start {sv : Serving} (proxy : Proxy) (loops : Looping req sv) :
    Call ctx req unread ⟨relayJob ctx sv proxy, Relay.start unread⟩ :=
  ⟨sv, proxy, [], loops, rfl, rfl⟩

/-- A call goes on; when it ends in a retry it has read nothing of the client. -/
theorem calls_relayStep {sv : Serving} {proxy : Proxy} {r : Relay.State UInt8} {j : Relay.Input}
    (all : ∀ a ∈ s.attempts, Call ctx req unread a) (loops : Looping req sv) (same : s.unread = unread)
    (call : Call ctx req unread ⟨relayJob ctx sv proxy, r⟩) (h : relayStep ctx s sv proxy r j = some t) :
    Calls ctx req unread t := by
  obtain ⟨r', next, rfl⟩ := Option.map_eq_some_iff.1 h
  obtain ⟨sv', proxy', js, -, -, ran⟩ := call
  have ran' : run (Relay.step id id (relayJob ctx sv proxy)) (Relay.start unread) (js ++ [j]) = some r' := by
    rw [run_append ran, run_cons_iff]
    exact ⟨r', next, rfl⟩
  have call' : Call ctx req unread ⟨relayJob ctx sv proxy, r'⟩ := ⟨sv, proxy, js ++ [j], loops, rfl, ran'⟩
  split
  · rename_i o ended
    have all' : ∀ a ∈ s.attempts ++ [⟨relayJob ctx sv proxy, r'⟩], Call ctx req unread a := by
      intro a mem
      rcases List.mem_append.1 mem with old | new
      · exact all a old
      · rw [List.mem_singleton.1 new]
        exact call'
    have up := Relay.up_run ran'
    rw [Relay.Up, ended] at up
    refine ⟨all', ?_⟩
    cases o with
    | retryableFailure e => exact ⟨loops, up.2 e rfl⟩
    | _ => trivial
  · exact ⟨all, loops, same, call'⟩

theorem calls_step (inv : Calls ctx req unread s) (h : step ctx s i = some t) : Calls ctx req unread t := by
  obtain ⟨all, now⟩ := inv
  cases step_move h with
  | dropped at_s | parsed at_s =>
    rw [at_s] at now
    exact now.elim
  | @resolve _ ip at_s =>
    rw [at_s] at now
    obtain ⟨rfl, same⟩ := now
    exact calls_loopHead all ⟨rfl, ip, rfl⟩ same
  | @lease sv proxy at_s =>
    rw [at_s] at now
    split
    · exact ⟨all, now⟩
    · refine ⟨all, now.1, now.2, ?_⟩
      rw [now.2]
      exact call_start proxy now.1
  | @rotate sv proxy at_s =>
    rw [at_s] at now
    refine ⟨all, now.1, now.2, ?_⟩
    rw [now.2]
    exact call_start proxy now.1
  | relay at_s moved =>
    rw [at_s] at now
    exact calls_relayStep all now.1 now.2.1 now.2.2 moved
  | @push _ _ _ again at_s =>
    rw [at_s] at now
    refine ⟨all, ?_⟩
    cases again with
    | true => exact now
    | false => trivial
  | @evict _ _ _ again at_s | @notify _ again at_s =>
    rw [at_s] at now
    apply calls_continueWith again all
    rintro rfl
    exact now
  -- no call is made from there on
  | deny | denied | denyCut | remove | lookUp | answer | answered | answerCut | starve | record | refuse | refused | refuseCut =>
    exact ⟨all, trivial⟩

/-- **Every call is a run of `relay`** on what the client sends after its request. -/
theorem calls_run {preface : Bytes} {is : List Input} (h : run (step ctx) (admitted req unread preface) is = some s) :
    ∀ a ∈ relays ctx s, Call ctx req unread a := by
  have start : Calls ctx req unread (admitted req unread preface) := ⟨by simp [admitted], rfl, rfl⟩
  obtain ⟨all, now⟩ := run_preserves (fun _ _ _ inv next => calls_step inv next) start h
  intro a mem
  unfold relays at mem
  split at mem
  · rename_i sv proxy r at_s
    rw [at_s] at now
    rcases List.mem_append.1 mem with old | new
    · exact all a old
    · rw [List.mem_singleton.1 new]
      exact now.2.2
  · exact all a mem

/-- **Every call is a traced run**, whatever the account of where the client's bytes come from. -/
theorem calls_traced {raw rest : List Traced} {preface : Bytes} {is : List Input} (bytes : raw.map Traced.byte = req.raw)
    (h : run (step ctx) (admitted req (rest.map Traced.byte) preface) is = some s) :
    ∀ a ∈ relays ctx s, ∃ proxy ip js r,
      run (Relay.step Traced.byte Traced.own (tracedJob proxy req raw ip ctx.config.httpAllowedCodes)) (Relay.start rest) js =
        some r ∧ a.relay = r.map Traced.byte := by
  intro a mem
  obtain ⟨sv, proxy, js, ⟨rfl, ip, target⟩, job, ran⟩ := calls_run h a mem
  have erased : (tracedJob proxy sv.req raw ip ctx.config.httpAllowedCodes).map Traced.byte = a.job := by
    rw [job]
    simp only [tracedJob, Relay.Job.map, relayJob, bytes, target]
  have same (a : Traced) : id (Traced.byte a) = Traced.byte a := rfl
  have mine (b : UInt8) : Traced.byte (Traced.own b) = id b := rfl
  have mapped : Option.map _ (run (Relay.step _ _ (tracedJob proxy sv.req raw ip ctx.config.httpAllowedCodes)) _ js) = _ :=
    Relay.run_map same mine (Relay.start rest) js
  rw [erased] at mapped
  obtain ⟨r, traced, forgets⟩ := Option.map_eq_some_iff.1 (mapped.trans ran)
  exact ⟨proxy, ip, js, r, traced, forgets.symm⟩

/-! ## The call that commits is the last -/

/-- A call that ended before it had a commit to make. -/
def Attempt.Retried (a : Attempt) : Prop := ∃ e, a.relay.phase = .done (.retryableFailure e)

/-- All calls but the last were retried. -/
def AllButLast (attempts : List Attempt) : Prop :=
  ∃ earlier last, attempts = earlier ++ [last] ∧ ∀ a ∈ earlier, a.Retried

/-- Another proxy is asked for, and the client refused, only after calls that are retried. -/
def Retries (s : State) : Prop :=
  match s.phase with
  | .accepted _ => False
  | .recording _ _ | .putting _ _ _ false | .notifying _ false => AllButLast s.attempts ∧ s.refusal = []
  | .finished => (AllButLast s.attempts ∧ s.refusal = []) ∨ ∀ a ∈ s.attempts, a.Retried
  | .refusing _ => ∀ a ∈ s.attempts, a.Retried
  | _ => (∀ a ∈ s.attempts, a.Retried) ∧ s.refusal = []

theorem retries_loopHead {sv : Serving} (all : ∀ a ∈ s.attempts, a.Retried) (nothing : s.refusal = []) :
    Retries (loopHead ctx s sv) := by
  unfold loopHead
  split
  · exact ⟨all, nothing⟩
  · exact all

theorem retries_continueWith {sv : Serving} (again : Bool)
    (retry : again = true → (∀ a ∈ s.attempts, a.Retried) ∧ s.refusal = [])
    (stop : again = false → AllButLast s.attempts ∧ s.refusal = []) : Retries (continueWith ctx s sv again) := by
  cases again with
  | true => exact retries_loopHead (retry rfl).1 (retry rfl).2
  | false => exact Or.inl (stop rfl)

theorem retries_relayStep {sv : Serving} {proxy : Proxy} {r : Relay.State UInt8} {j : Relay.Input}
    (all : ∀ a ∈ s.attempts, a.Retried) (nothing : s.refusal = []) (h : relayStep ctx s sv proxy r j = some t) : Retries t := by
  obtain ⟨r', -, rfl⟩ := Option.map_eq_some_iff.1 h
  split
  · rename_i o ended
    have last : AllButLast (s.attempts ++ [⟨relayJob ctx sv proxy, r'⟩]) := ⟨_, _, rfl, all⟩
    cases o with
    | retryableFailure e =>
      refine ⟨?_, nothing⟩
      intro a mem
      rcases List.mem_append.1 mem with old | new
      · exact all a old
      · rw [List.mem_singleton.1 new]
        exact ⟨e, ended⟩
    | ok => exact ⟨last, nothing⟩
    | clientCommitted e => exact ⟨last, nothing⟩
    | clientGone => exact ⟨last, nothing⟩
  · exact ⟨all, nothing⟩

theorem retries_step (inv : Retries s) (h : step ctx s i = some t) : Retries t := by
  cases step_move h with
  | resolve at_s =>
    rw [Retries, at_s] at inv
    exact retries_loopHead inv.1 inv.2
  | starve at_s =>
    rw [Retries, at_s] at inv
    exact inv.1
  | lease at_s =>
    rw [Retries, at_s] at inv
    split
    · exact inv
    · exact inv
  | relay at_s moved =>
    rw [Retries, at_s] at inv
    exact retries_relayStep inv.1 inv.2 moved
  | @push _ _ _ again at_s =>
    rw [Retries, at_s] at inv
    cases again with
    | true => exact inv
    | false => exact inv
  | @evict _ _ _ again at_s | @notify _ again at_s =>
    rw [Retries, at_s] at inv
    refine retries_continueWith again ?_ ?_
    · rintro rfl; exact inv
    · rintro rfl; exact inv
  | refused at_s | refuseCut at_s =>
    rw [Retries, at_s] at inv
    exact Or.inr inv
  -- the phase keeps its account
  | rotate at_s | record at_s | refuse at_s | deny at_s | remove at_s | lookUp at_s | answer at_s =>
    rw [Retries, at_s] at inv
    exact inv
  | denied at_s | denyCut at_s | answered at_s | answerCut at_s =>
    rw [Retries, at_s] at inv
    exact Or.inr inv.1
  | dropped at_s | parsed at_s =>
    rw [Retries, at_s] at inv
    exact inv.elim

theorem Attempt.Retried.not_committed {a : Attempt} (retried : a.Retried) : a.relay.committed = false := by
  obtain ⟨e, ended⟩ := retried
  rw [Relay.State.committed, ended]

/-- **A call that commits is the last**: the others were retried, and the client is not refused. -/
theorem committed_last {preface : Bytes} {is : List Input} (h : run (step ctx) (admitted req unread preface) is = some s)
    {a : Attempt} (mem : a ∈ relays ctx s) (committed : a.relay.committed = true) :
    s.refusal = [] ∧ ∃ earlier, relays ctx s = earlier ++ [a] ∧ ∀ b ∈ earlier, b.Retried := by
  have start : Retries (admitted req unread preface) := ⟨by simp [admitted], rfl⟩
  have inv : Retries s := run_preserves (fun _ _ _ inv next => retries_step inv next) start h
  have not_retried (retried : a.Retried) : False := by
    rw [retried.not_committed] at committed
    cases committed
  have is_last (same : relays ctx s = s.attempts) (last : AllButLast s.attempts) :
      ∃ earlier, relays ctx s = earlier ++ [a] ∧ ∀ b ∈ earlier, b.Retried := by
    obtain ⟨earlier, last, split, retried⟩ := last
    rw [same, split] at mem
    rcases List.mem_append.1 mem with old | new
    · exact (not_retried (retried a old)).elim
    · rw [List.mem_singleton.1 new]
      exact ⟨earlier, same.trans split, retried⟩
  unfold Retries at inv
  split at inv
  · exact inv.elim
  · rename_i at_s
    exact ⟨inv.2, is_last (by rw [relays, at_s]) inv.1⟩
  · rename_i at_s
    exact ⟨inv.2, is_last (by rw [relays, at_s]) inv.1⟩
  · rename_i at_s
    exact ⟨inv.2, is_last (by rw [relays, at_s]) inv.1⟩
  · rename_i at_s
    have same : relays ctx s = s.attempts := by rw [relays, at_s]
    rcases inv with ⟨last, nothing⟩ | all
    · exact ⟨nothing, is_last same last⟩
    · exact (not_retried (all a (same ▸ mem))).elim
  · rename_i at_s
    have same : relays ctx s = s.attempts := by rw [relays, at_s]
    exact (not_retried (inv a (same ▸ mem))).elim
  · refine ⟨inv.2, ?_⟩
    unfold relays at mem ⊢
    split at mem
    · rcases List.mem_append.1 mem with old | new
      · exact (not_retried (inv.1 a old)).elim
      · rw [List.mem_singleton.1 new]
        exact ⟨s.attempts, rfl, inv.1⟩
    · exact (not_retried (inv.1 a mem)).elim

end Handler

end ProxyBroker.Server
