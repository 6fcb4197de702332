import ProxyBroker.Server.HandleClient

/-!
# The commit boundary of the serving loop

`relay` classifies a failure by how far it got, and `handle_client` tries another proxy only on
`RetryableFailure`. The invariant `Commits` says what that buys at each phase of the handler: while
another attempt is possible no attempt has written to the client (`Silent`), and once one may have
written it is the last (`Settled`).
-/

namespace ProxyBroker.Server
open Lib

namespace Handler

/-- The calls of `relay` so far, the running one last. -/
def relays (ctx : ConnCtx) (s : State) : List Attempt :=
  match s.phase with
  | .relaying sv proxy r => s.attempts ++ [⟨relayJob ctx sv proxy, r⟩]
  | _ => s.attempts

/-- No attempt has written to the client. -/
def Silent (attempts : List Attempt) : Prop := ∀ a ∈ attempts, a.relay.clientWritten = []

/-- The last attempt ended in an outcome that is not retried, and no earlier one has written. -/
def Settled (attempts : List Attempt) : Prop :=
  ∃ earlier last o, attempts = earlier ++ [last] ∧ Silent earlier ∧ last.relay.phase = .done o ∧
    ∀ e, o ≠ .retryableFailure e

/-- An attempt at serving `req`. -/
structure Attempt.Serves (ctx : ConnCtx) (req : ClientRequest) (a : Attempt) : Prop where
  frontend : a.job.frontend = req.frontend
  raw : a.job.raw = req.raw
  codes : a.job.allowedCodes = ctx.config.httpAllowedCodes
  down : Relay.Down id a.job a.relay

/-- The invariant of the serving loop, by phase. -/
def Commits (ctx : ConnCtx) (req : ClientRequest) (s : State) : Prop :=
  (∀ a ∈ s.attempts, a.Serves ctx req) ∧
  match s.phase with
  | .resolving r => r = req ∧ Silent s.attempts ∧ s.refusal = []
  | .getting sv | .rotating sv _ | .putting sv _ _ true | .notifying sv true =>
    sv.req = req ∧ Silent s.attempts ∧ s.refusal = []
  | .relaying sv proxy r => sv.req = req ∧ Silent s.attempts ∧ s.refusal = [] ∧ Relay.Down id (relayJob ctx sv proxy) r
  | .recording _ _ | .putting _ _ _ false | .notifying _ false => Settled s.attempts ∧ s.refusal = []
  | .refusing rest => Silent s.attempts ∧ s.refusal ++ rest = terminalFailure req.frontend
  | .finished =>
    (Silent s.attempts ∧ s.refusal <+: terminalFailure req.frontend ∧
      (s.cut = false → s.refusal = terminalFailure req.frontend)) ∨
    (Settled s.attempts ∧ s.refusal = [])
  | _ => False

variable {ctx : ConnCtx} {req : ClientRequest} {s t : State} {i : Input}

theorem commits_start (unread preface : Bytes) : Commits ctx req (admitted req unread preface) :=
  ⟨by simp [admitted], rfl, by simp [admitted, Silent], rfl⟩

theorem commits_loopHead {sv : Serving} (serves : ∀ a ∈ s.attempts, a.Serves ctx req) (same : sv.req = req)
    (silent : Silent s.attempts) (nothing : s.refusal = []) : Commits ctx req (loopHead ctx s sv) := by
  unfold loopHead
  split
  · exact ⟨serves, same, silent, nothing⟩
  · exact ⟨serves, silent, by rw [nothing, same]; rfl⟩

theorem commits_refuse {sv : Serving} (serves : ∀ a ∈ s.attempts, a.Serves ctx req) (same : sv.req = req)
    (silent : Silent s.attempts) (nothing : s.refusal = []) :
    Commits ctx req { s with phase := .refusing (terminalFailure sv.req.frontend) } :=
  ⟨serves, silent, by rw [nothing, same]; rfl⟩

/-- A new attempt starts with nothing written. -/
theorem commits_relay {sv : Serving} {proxy : Proxy} (serves : ∀ a ∈ s.attempts, a.Serves ctx req) (same : sv.req = req)
    (silent : Silent s.attempts) (nothing : s.refusal = []) :
    Commits ctx req { s with phase := .relaying sv proxy (Relay.start s.unread) } :=
  ⟨serves, same, silent, nothing, Relay.down_start _⟩

theorem Silent.append {attempts : List Attempt} {a : Attempt} (silent : Silent attempts) (quiet : a.relay.clientWritten = []) :
    Silent (attempts ++ [a]) := by
  intro b mem
  rcases List.mem_append.1 mem with old | new
  · exact silent b old
  · cases List.mem_singleton.1 new; exact quiet

/-- The end of an attempt: what is retried has written nothing, what has written is not retried. -/
theorem commits_conclude {sv : Serving} {proxy : Proxy} {r : Relay.State UInt8} {o : RelayOutcome}
    (serves : ∀ a ∈ s.attempts, a.Serves ctx req) (same : sv.req = req) (silent : Silent s.attempts) (nothing : s.refusal = [])
    (down : Relay.Down id (relayJob ctx sv proxy) r) (ended : r.phase = .done o) :
    Commits ctx req
      { s with
        phase := conclude sv proxy o
        unread := r.unread
        attempts := s.attempts ++ [⟨relayJob ctx sv proxy, r⟩] } := by
  have all : ∀ a ∈ s.attempts ++ [⟨relayJob ctx sv proxy, r⟩], a.Serves ctx req := by
    intro a mem
    rcases List.mem_append.1 mem with old | new
    · exact serves a old
    · cases List.mem_singleton.1 new
      exact ⟨congrArg ClientRequest.frontend same, congrArg ClientRequest.raw same, rfl, down⟩
  have settled (final : ∀ e, o ≠ .retryableFailure e) : Settled (s.attempts ++ [⟨relayJob ctx sv proxy, r⟩]) :=
    ⟨s.attempts, _, o, rfl, silent, ended, final⟩
  refine ⟨all, ?_⟩
  cases o with
  | retryableFailure e =>
    rw [Relay.Down, ended] at down
    exact ⟨same, silent.append down, nothing⟩
  | ok => exact ⟨settled (by simp), nothing⟩
  | clientCommitted e => exact ⟨settled (by simp), nothing⟩
  | clientGone => exact ⟨settled (by simp), nothing⟩

theorem commits_relayStep {sv : Serving} {proxy : Proxy} {r : Relay.State UInt8} {j : Relay.Input}
    (serves : ∀ a ∈ s.attempts, a.Serves ctx req) (same : sv.req = req) (silent : Silent s.attempts) (nothing : s.refusal = [])
    (down : Relay.Down id (relayJob ctx sv proxy) r) (h : relayStep ctx s sv proxy r j = some t) : Commits ctx req t := by
  obtain ⟨r', next, rfl⟩ := Option.map_eq_some_iff.1 h
  have down' := Relay.down_move down (Relay.step_move next)
  split
  · rename_i o ended
    exact commits_conclude serves same silent nothing down' ended
  · exact ⟨serves, same, silent, nothing, down'⟩

theorem commits_continueWith {sv : Serving} (again : Bool) (serves : ∀ a ∈ s.attempts, a.Serves ctx req)
    (retry : again = true → sv.req = req ∧ Silent s.attempts ∧ s.refusal = [])
    (stop : again = false → Settled s.attempts ∧ s.refusal = []) : Commits ctx req (continueWith ctx s sv again) := by
  cases again with
  | true =>
    obtain ⟨same, silent, nothing⟩ := retry rfl
    exact commits_loopHead serves same silent nothing
  | false => exact ⟨serves, Or.inr (stop rfl)⟩

/-- **One step keeps the commit boundary.** -/
theorem commits_step (inv : Commits ctx req s) (h : step ctx s i = some t) : Commits ctx req t := by
  obtain ⟨serves, now⟩ := inv
  cases step_move h with
  | resolve at_s =>
    rw [at_s] at now
    exact commits_loopHead serves now.1 now.2.1 now.2.2
  | starve at_s =>
    rw [at_s] at now
    exact commits_refuse serves now.1 now.2.1 now.2.2
  | lease at_s =>
    rw [at_s] at now
    split
    · exact ⟨serves, now⟩
    · exact commits_relay serves now.1 now.2.1 now.2.2
  | rotate at_s =>
    rw [at_s] at now
    exact commits_relay serves now.1 now.2.1 now.2.2
  | relay at_s moved =>
    rw [at_s] at now
    obtain ⟨same, silent, nothing, down⟩ := now
    exact commits_relayStep serves same silent nothing down moved
  | record at_s =>
    rw [at_s] at now
    exact ⟨serves, now⟩
  | @push _ _ _ again at_s =>
    rw [at_s] at now
    refine ⟨serves, ?_⟩
    cases again <;> exact now
  | @evict _ _ _ again at_s | @notify _ again at_s =>
    rw [at_s] at now
    refine commits_continueWith again serves ?_ ?_
    · rintro rfl; exact now
    · rintro rfl; exact now
  | refuse at_s =>
    rw [at_s] at now
    exact ⟨serves, now.1, by simpa using now.2⟩
  | refused at_s =>
    rw [at_s] at now
    have whole : s.refusal = terminalFailure req.frontend := by simpa using now.2
    exact ⟨serves, Or.inl ⟨now.1, whole ▸ List.prefix_refl _, fun _ => whole⟩⟩
  | @refuseCut rest at_s =>
    rw [at_s] at now
    exact ⟨serves, Or.inl ⟨now.1, ⟨rest, now.2⟩, by simp⟩⟩
  -- the phases before the retry loop
  | dropped at_s | parsed at_s | deny at_s | denied at_s | denyCut at_s | remove at_s | lookUp at_s | answer at_s
  | answered at_s | answerCut at_s =>
    rw [at_s] at now
    exact now.elim

theorem commits_run {unread preface : Bytes} {is : List Input} (h : run (step ctx) (admitted req unread preface) is = some s) :
    Commits ctx req s :=
  run_preserves (fun _ _ _ inv next => commits_step inv next) (commits_start unread preface) h

/-- In the serving loop nothing more is added to what was written during the parse. -/
theorem preface_step (inv : Commits ctx req s) (h : step ctx s i = some t) : t.preface = s.preface := by
  have now := inv.2
  have head (u : State) (sv : Serving) : (loopHead ctx u sv).preface = u.preface := by
    unfold loopHead
    split <;> rfl
  have goes (u : State) (sv : Serving) (again : Bool) : (continueWith ctx u sv again).preface = u.preface := by
    cases again with
    | true => exact head u _
    | false => rfl
  cases step_move h with
  | resolve => exact head _ _
  | relay at_s moved =>
    obtain ⟨r', -, rfl⟩ := Option.map_eq_some_iff.1 moved
    split <;> rfl
  | evict | notify => exact goes _ _ _
  | dropped at_s | parsed at_s | deny at_s | answer at_s =>
    rw [at_s] at now
    exact now.elim
  | _ => rfl

theorem preface_run {unread preface : Bytes} {is : List Input} (h : run (step ctx) (admitted req unread preface) is = some s) :
    s.preface = preface := by
  refine (run_preserves (P := fun s => Commits ctx req s ∧ s.preface = preface) ?_ ⟨commits_start unread preface, rfl⟩ h).2
  rintro u j v ⟨inv, same⟩ next
  exact ⟨commits_step inv next, (preface_step inv next).trans same⟩

/-! ## After the first byte -/

/-- Some attempt has written to the client. -/
def Loud (ctx : ConnCtx) (s : State) : Prop := ∃ a ∈ relays ctx s, a.relay.clientWritten ≠ []

/-- The calls of `pool.get`. -/
def gets (s : State) : Nat := s.actions.count .poolGet

theorem not_loud_of_silent (silent : Silent s.attempts) (idle : relays ctx s = s.attempts) : ¬ Loud ctx s := by
  rintro ⟨a, mem, loud⟩
  rw [idle] at mem
  exact loud (silent a mem)

theorem loud_relayStep {sv : Serving} {proxy : Proxy} {r : Relay.State UInt8} {j : Relay.Input} (silent : Silent s.attempts)
    (at_s : s.phase = .relaying sv proxy r) (loud : Loud ctx s) (h : relayStep ctx s sv proxy r j = some t) :
    Loud ctx t ∧ gets t = gets s := by
  obtain ⟨r', next, rfl⟩ := Option.map_eq_some_iff.1 h
  have running : r.clientWritten ≠ [] := by
    obtain ⟨a, mem, loud⟩ := loud
    simp only [relays, at_s, List.mem_append, List.mem_singleton] at mem
    rcases mem with old | rfl
    · exact absurd (silent a old) loud
    · exact loud
  have kept : r'.clientWritten ≠ [] := fun empty =>
    running (List.prefix_nil.1 (empty ▸ Relay.clientWritten_move (Relay.step_move next)))
  split
  · rename_i o ended
    refine ⟨⟨⟨relayJob ctx sv proxy, r'⟩, ?_, kept⟩, rfl⟩
    unfold relays
    cases o <;> simp [conclude]
  · exact ⟨⟨⟨relayJob ctx sv proxy, r'⟩, by simp [relays], kept⟩, rfl⟩

/-- Once a byte has reached the client, a step neither takes it back nor asks for another proxy. -/
theorem loud_step (inv : Commits ctx req s) (loud : Loud ctx s) (h : step ctx s i = some t) :
    Loud ctx t ∧ gets t = gets s := by
  obtain ⟨serves, now⟩ := inv
  have idle (silent : Silent s.attempts) (same : relays ctx s = s.attempts) : False := not_loud_of_silent silent same loud
  have keep (same : relays ctx s = s.attempts) (same' : relays ctx t = s.attempts) : Loud ctx t := by
    unfold Loud at loud ⊢
    rwa [same', ← same]
  cases step_move h with
  | relay at_s moved =>
    rw [at_s] at now
    exact loud_relayStep now.2.1 at_s loud moved
  | record at_s => exact ⟨keep (by simp [relays, at_s]) rfl, by simp [gets]⟩
  | push at_s => exact ⟨keep (by simp [relays, at_s]) rfl, rfl⟩
  | @evict _ _ _ again at_s | @notify _ again at_s =>
    rw [at_s] at now
    cases again with
    | true => exact (idle now.2.1 (by simp [relays, at_s])).elim
    | false => exact ⟨keep (by simp [relays, at_s]) rfl, rfl⟩
  -- no attempt has written
  | resolve at_s | starve at_s | lease at_s | rotate at_s =>
    rw [at_s] at now
    exact (idle now.2.1 (by simp [relays, at_s])).elim
  | refuse at_s | refused at_s | refuseCut at_s =>
    rw [at_s] at now
    exact (idle now.1 (by simp [relays, at_s])).elim
  -- before the loop
  | dropped at_s | parsed at_s | deny at_s | denied at_s | denyCut at_s | remove at_s | lookUp at_s | answer at_s
  | answered at_s | answerCut at_s =>
    rw [at_s] at now
    exact now.elim

theorem loud_run {is : List Input} (inv : Commits ctx req s) (loud : Loud ctx s) (h : run (step ctx) s is = some t) :
    gets t = gets s := by
  have keep : ∀ u i v, (Commits ctx req u ∧ Loud ctx u ∧ gets u = gets s) → step ctx u i = some v →
      Commits ctx req v ∧ Loud ctx v ∧ gets v = gets s := by
    rintro u i v ⟨inv, loud, same⟩ next
    obtain ⟨loud', same'⟩ := loud_step inv loud next
    exact ⟨commits_step inv next, loud', same'.trans same⟩
  exact (run_preserves keep ⟨inv, loud, rfl⟩ h).2.2

/-! ## The boundary -/

/-- The calls of `relay` have written nothing, and the client has part of one refusal. -/
def Refused (ctx : ConnCtx) (req : ClientRequest) (s : State) : Prop :=
  Silent (relays ctx s) ∧ s.refusal <+: terminalFailure req.frontend

/-- There is no refusal, only the last call of `relay` has written, and what it has written is a part
of what it makes of its own upstream's bytes. -/
def Relayed (ctx : ConnCtx) (req : ClientRequest) (s : State) : Prop :=
  s.refusal = [] ∧ ∃ earlier last, relays ctx s = earlier ++ [last] ∧ Silent earlier ∧
    last.job.frontend = req.frontend ∧ last.job.raw = req.raw ∧
    last.relay.clientWritten <+: Relay.output id last.job last.relay.upRead

theorem relays_serve (inv : Commits ctx req s) : ∀ a ∈ relays ctx s, a.Serves ctx req := by
  obtain ⟨serves, now⟩ := inv
  unfold relays
  split
  · rename_i sv proxy r at_s
    rw [at_s] at now
    intro a mem
    rcases List.mem_append.1 mem with old | new
    · exact serves a old
    · cases List.mem_singleton.1 new
      exact ⟨congrArg ClientRequest.frontend now.1, congrArg ClientRequest.raw now.1, rfl, now.2.2.2⟩
  · exact serves

/-- What an attempt has written is a part of what it makes of its upstream's bytes. -/
theorem Attempt.Serves.written {a : Attempt} (serves : a.Serves ctx req) :
    a.relay.clientWritten <+: Relay.output id a.job a.relay.upRead ∧
      (a.relay.clientWritten ≠ [] → Relay.Committed id a.job a.relay.upRead) := serves.down.written

theorem relayed_of_last {earlier : List Attempt} {last : Attempt} (inv : Commits ctx req s) (nothing : s.refusal = [])
    (split : relays ctx s = earlier ++ [last]) (silent : Silent earlier) : Relayed ctx req s := by
  have serves := relays_serve inv last (by simp [split])
  exact ⟨nothing, earlier, last, split, silent, serves.frontend, serves.raw, serves.written.1⟩

theorem relayed_of_settled (inv : Commits ctx req s) (idle : relays ctx s = s.attempts) (settled : Settled s.attempts)
    (nothing : s.refusal = []) : Relayed ctx req s := by
  obtain ⟨earlier, last, o, split, silent, -, -⟩ := settled
  exact relayed_of_last inv nothing (idle.trans split) silent

theorem commits_dichotomy (inv : Commits ctx req s) : Refused ctx req s ∨ Relayed ctx req s := by
  have now := inv.2
  have quiet (idle : relays ctx s = s.attempts) (silent : Silent s.attempts) (nothing : s.refusal = []) :
      Refused ctx req s := by
    refine ⟨idle ▸ silent, ?_⟩
    rw [nothing]
    exact List.nil_prefix
  split at now
  case h_6 sv proxy r at_s =>
    have split : relays ctx s = s.attempts ++ [⟨relayJob ctx sv proxy, r⟩] := by simp only [relays, at_s]
    exact Or.inr (relayed_of_last inv now.2.2.1 split now.2.1)
  case h_10 rest at_s =>
    exact Or.inl ⟨by simpa only [relays, at_s] using now.1, ⟨rest, now.2⟩⟩
  case h_11 at_s =>
    have idle : relays ctx s = s.attempts := by simp only [relays, at_s]
    rcases now with ⟨silent, part, -⟩ | ⟨settled, nothing⟩
    · exact Or.inl ⟨idle ▸ silent, part⟩
    · exact Or.inr (relayed_of_settled inv idle settled nothing)
  case h_12 => exact now.elim
  all_goals
    rename_i at_s
    first
      | exact Or.inl (quiet (by simp only [relays, at_s]) now.2.1 now.2.2)
      | exact Or.inr (relayed_of_settled inv (by simp only [relays, at_s]) now.1 now.2)

theorem statusLine_allowed {a : Attempt} {allowed : List UInt16} (serves : a.Serves ctx req)
    (codes : ctx.config.httpAllowedCodes = some allowed) (forward : req.frontend = .httpForward)
    (noBody : requestHasBody req.raw = false) (loud : a.relay.clientWritten ≠ []) :
    parseHttpStatus (statusLine a.relay.upRead) ∈ allowed := by
  have peeks : Relay.Peeks id a.job := by
    refine ⟨serves.frontend.trans forward, ?_⟩
    rw [serves.raw, List.map_id]
    exact noBody
  obtain ⟨line, more, read, whole, mem⟩ := serves.written.2 loud peeks
  rw [read, whole]
  exact mem allowed (serves.codes.trans codes)

/-- **The commit boundary.** In every run of the serving loop, under any outcome of `pool.get`, of the
dial, of the negotiation and of each read and write: the client has part of one refusal and nothing
from any attempt, or nothing but what one attempt made of its upstream's bytes; a run that ends has
refused completely (unless that write failed), or its last attempt ended in an outcome that is not
retried; after the first byte from an attempt no proxy is asked for again; and under an allow-list the
response to a forward request without a body reaches the client only with an allowed status. -/
theorem commit_boundary {unread preface : Bytes} {is : List Input}
    (h : run (step ctx) (admitted req unread preface) is = some s) :
    (Refused ctx req s ∨ Relayed ctx req s) ∧
    (s.phase = .finished →
      (Silent (relays ctx s) ∧ s.refusal <+: terminalFailure req.frontend ∧
        (s.cut = false → s.refusal = terminalFailure req.frontend)) ∨
      (Relayed ctx req s ∧ Settled (relays ctx s))) ∧
    (∀ js t, run (step ctx) s js = some t → Loud ctx s → gets t = gets s) ∧
    (∀ allowed, ctx.config.httpAllowedCodes = some allowed → req.frontend = .httpForward →
      requestHasBody req.raw = false → ∀ a ∈ relays ctx s, a.relay.clientWritten ≠ [] →
        parseHttpStatus (statusLine a.relay.upRead) ∈ allowed) := by
  have inv := commits_run h
  refine ⟨commits_dichotomy inv, ?_, fun js t later loud => loud_run inv loud later, ?_⟩
  · intro ended
    have now := inv.2
    have idle : relays ctx s = s.attempts := by simp only [relays, ended]
    rw [ended] at now
    rw [idle]
    rcases now with refused | ⟨settled, nothing⟩
    · exact Or.inl refused
    · exact Or.inr ⟨relayed_of_settled inv idle settled nothing, settled⟩
  · intro allowed codes forward noBody a mem loud
    exact statusLine_allowed (relays_serve inv a mem) codes forward noBody loud

/-- A server without credentials that forwards only `200`. -/
def onlyOk : ConnCtx := ⟨none, .v4 0, { PoolConfig.default with httpAllowedCodes := some [200] }⟩

/-- The first proxy refuses the connection; the second answers `200` and the client takes four bytes
of the rewritten line. -/
def retriedRun : List Input :=
  [.resolved none, .got (some (httpProxy 80)), .relay .connectFailed, .returned true, .notified, .got (some (httpProxy 80)), .rotated,
    .relay .connected, .relay (.upstream (.wrote 26)), .relay (.upstream .flushed)] ++
  (ascii "H 200\r\n").map (fun b => .relay (.upstream (.read [b]))) ++ [.relay (.client (.wrote 4))]

/-- The boundary on that run: two calls of `relay`, of which the second wrote `H 20`. -/
theorem commit_boundary_retried :
    ∃ s, run (step onlyOk) (admitted forwardGet [] []) retriedRun = some s ∧ gets s = 2 ∧
      (relays onlyOk s).map (fun a => a.relay.clientWritten) = [[], ascii "H 20"] ∧ Relayed onlyOk forwardGet s := by
  have ran : ∃ s, run (step onlyOk) (admitted forwardGet [] []) retriedRun = some s ∧ gets s = 2 ∧
      (relays onlyOk s).map (fun a => a.relay.clientWritten) = [[], ascii "H 20"] := ⟨_, rfl, rfl, rfl⟩
  obtain ⟨s, ran, asked, wrote⟩ := ran
  refine ⟨s, ran, asked, wrote, (commit_boundary ran).1.resolve_left ?_⟩
  rintro ⟨silent, -⟩
  have none : ∀ bs ∈ (relays onlyOk s).map (fun a => a.relay.clientWritten), bs = [] := by simpa [Silent] using silent
  rw [wrote] at none
  exact absurd (none (ascii "H 20") (by simp)) (by decide)

end Handler

end ProxyBroker.Server
