import ProxyBroker.Lib.IpText
import ProxyBroker.System

/-!
# What the control API tells a client (`server.rs`: `History`, `serve_control`)

A successful relay is recorded under a key made of the client's address and the request target; a control
request takes the target out of its own path and asks for the key. `journal` is what the map stands for: the
successful relays since the map was last cleared, with the address and the target apart. The map answers as
the journal does (`Agrees`), because a key determines its address and its target.
-/

namespace ProxyBroker
open Lib Server

namespace Server

/-! ## Keys -/

theorem dash_not_mem_display (a : IpAddr) : '-' ∉ a.display := not_mem_display (by decide) a

/-- **A key determines the client and the target.** The first dash ends the address. -/
theorem historyKey_inj {c c' : IpAddr} {t t' : Text} (same : historyKey c t = historyKey c' t') : c = c' ∧ t = t' := by
  have addr (c : IpAddr) (t : Text) : (historyKey c t).takeWhile (· ≠ '-') = c.display := by
    rw [historyKey, List.append_assoc, List.takeWhile_append_of_pos]
    · simp
    · intro x mem
      simp only [ne_eq, decide_not, Bool.not_eq_eq_eq_not, Bool.not_true, decide_eq_false_iff_not]
      rintro rfl
      exact dash_not_mem_display c mem
  have display : c.display = c'.display := by rw [← addr c t, same, addr]
  have client : c = c' := by
    have parsed := parse_display c
    rw [display, parse_display] at parsed
    exact (Option.some.inj parsed).symm
  subst client
  exact ⟨rfl, List.append_cancel_left same⟩

/-! ## The request -/

/-- The request target of a history query for `t`. -/
def historyQuery (t : Text) : Text := "http://proxycontrol/api/history/url:".toList ++ t

/-- The three-way split leaves the target alone, whatever it has of slashes. -/
theorem control_historyQuery (c : IpAddr) (t : Text) : control c (historyQuery t) = .history (historyKey c t) := by
  rfl

/-- A plain HTTP request with that target is one for the control API. -/
theorem historyQuery_host {buf : Bytes} {req : ClientRequest} {t : Text} (h : parseHead buf = some req)
    (forward : req.frontend = .httpForward) (query : req.path = historyQuery t) : req.host = "proxycontrol".toList := by
  rw [parseHead_absolute h forward (r := "proxycontrol/api/history/url:".toList ++ t) query]
  rfl

/-! ## The journal -/

/-- A successful relay: the client's address, the request target, and the upstream that served it. -/
structure Relayed where
  peer : IpAddr
  target : Text
  upstream : Text
deriving DecidableEq, Repr

def Relayed.key (r : Relayed) : Text := historyKey r.peer r.target

/-- The most recent relay of `t` for `c`. -/
def lastFor (c : IpAddr) (t : Text) (js : List Relayed) : Option Relayed :=
  (js.filter fun r => r.peer = c ∧ r.target = t).getLast?

/-- The reply to a query of `c` for `t`. -/
def report (c : IpAddr) (t : Text) (js : List Relayed) : Bytes :=
  match lastFor c t js with
  | some r => historyReply r.upstream
  | none => noContent

theorem lastFor_concat (c : IpAddr) (t : Text) (js : List Relayed) (r : Relayed) :
    lastFor c t (js ++ [r]) = if r.peer = c ∧ r.target = t then some r else lastFor c t js := by
  rw [lastFor, lastFor, List.filter_append]
  by_cases same : r.peer = c ∧ r.target = t
  · simp [same]
  · rw [if_neg same]
    simp [same]

namespace History

/-- `record` drops everything first: the map is full and the key is new. -/
def Clears (h : History) (key : Text) : Prop := cap ≤ h.map.length ∧ (h.map.lookup key).isNone

instance (h : History) (key : Text) : Decidable (h.Clears key) := inferInstanceAs (Decidable (_ ∧ _))

theorem record_map (h : History) (key proxy : Text) :
    (h.record key proxy).map = assocInsert key proxy (if h.Clears key then [] else h.map) := rfl

theorem get_record (h : History) (key proxy k : Text) :
    (h.record key proxy).get k = if k = key then some proxy else if h.Clears key then none else h.get k := by
  rw [get, record_map, lookup_assocInsert]
  by_cases clears : h.Clears key
  · rw [if_pos clears, if_pos clears]
    rfl
  · rw [if_neg clears, if_neg clears]
    rfl

/-- A new key finds room, or makes it. -/
theorem record_length {h : History} (bounded : h.map.length ≤ cap) (key proxy : Text) :
    (h.record key proxy).map.length ≤ cap := by
  rw [record_map, length_assocInsert]
  by_cases clears : h.Clears key
  · rw [if_pos clears]
    show 1 ≤ cap
    decide
  · rw [if_neg clears]
    split
    · rename_i absent
      have room : ¬ cap ≤ h.map.length := fun full => clears ⟨full, absent⟩
      omega
    · exact bounded

end History

/-- The map answers as the journal does, and has at most `CAP` entries. -/
structure Agrees (h : History) (js : List Relayed) : Prop where
  found : ∀ c t, h.get (historyKey c t) = (lastFor c t js).map Relayed.upstream
  bounded : h.map.length ≤ History.cap

theorem agrees_new : Agrees History.new [] where
  found _ _ := rfl
  bounded := Nat.zero_le _

/-- **One record.** -/
theorem agrees_record {h : History} {js : List Relayed} (agrees : Agrees h js) (r : Relayed) :
    Agrees (h.record r.key r.upstream) (if h.Clears r.key then [r] else js ++ [r]) where
  found c t := by
    have key : historyKey c t = r.key ↔ r.peer = c ∧ r.target = t := by
      constructor
      · intro same
        obtain ⟨client, target⟩ := historyKey_inj same
        exact ⟨client.symm, target.symm⟩
      · rintro ⟨rfl, rfl⟩
        rfl
    -- a clear leaves the journal with nothing before `r`
    have before : (if h.Clears r.key then none else h.get (historyKey c t)) =
        (lastFor c t (if h.Clears r.key then [] else js)).map Relayed.upstream := by
      split
      · rfl
      · exact agrees.found c t
    have journal : (if h.Clears r.key then [r] else js ++ [r]) = (if h.Clears r.key then [] else js) ++ [r] := by
      split <;> rfl
    rw [History.get_record, before, journal, lastFor_concat]
    by_cases same : r.peer = c ∧ r.target = t
    · rw [if_pos (key.2 same), if_pos same]
      rfl
    · rw [if_neg (mt key.1 same), if_neg same]
  bounded := History.record_length agrees.bounded _ _

end Server

/-! ## What a handler records -/

namespace Server.Handler
variable {ctx : ConnCtx} {stream : Bytes} {budget : Option Nat} {s t : State} {i : Input} {is : List Input}

/-- The request that the handler serves. -/
def Phase.request : Phase → Option ClientRequest
  | .resolving req => some req
  | .getting sv | .rotating sv _ | .relaying sv _ _ | .recording sv _ | .putting sv _ _ _ | .notifying sv _ => some sv.req
  | _ => none

/-- What every step of the handler keeps: the attempts made, the request, and that a proxy is recorded only
for a relay that went well. -/
structure Frame (ctx : ConnCtx) (s t : State) : Prop where
  attempts : s.attempts ⊆ t.attempts
  left : ∀ client, t.phase ≠ .accepted client
  request : ∀ req, t.phase.request = some req → s.phase.request = some req ∨
    ∃ client after, s.phase = .accepted client ∧ parseClientRequest ctx.expectedAuth client = (some req, after)
  recorded : ∀ sv p, t.phase = .recording sv p →
    ∃ a ∈ t.attempts, a.relay.phase = .done .ok ∧ hostPort a.job.proxy = hostPort p

theorem frame_loopHead (s : State) (sv : Serving) (same : s.phase.request = some sv.req) : Frame ctx s (loopHead ctx s sv) := by
  unfold loopHead
  split
  · exact ⟨List.Subset.refl _, by simp, fun req own => Or.inl (same.trans own), by simp⟩
  · exact ⟨List.Subset.refl _, by simp, by simp [Phase.request], by simp⟩

theorem frame_continueWith (s : State) (sv : Serving) (again : Bool) (same : s.phase.request = some sv.req) :
    Frame ctx s (continueWith ctx s sv again) := by
  cases again with
  | true => exact frame_loopHead s { sv with attempt := sv.attempt + 1 } same
  | false => exact ⟨List.Subset.refl _, by simp [continueWith], by simp [continueWith, Phase.request], by simp [continueWith]⟩

theorem dispatch_shape (ctx : ConnCtx) (req : ClientRequest) :
    (∀ r, (dispatch ctx req).request = some r → r = req) ∧ (∀ client, dispatch ctx req ≠ .accepted client) ∧
      ∀ sv p, dispatch ctx req ≠ .recording sv p := by
  unfold dispatch
  by_cases passes : authPasses ctx.expectedAuth req = true
  · by_cases api : req.host = "proxycontrol".toList
    · rw [if_pos passes, if_pos api]
      cases control ctx.peerIp req.path <;> simp [Phase.request]
    · rw [if_pos passes, if_neg api]
      simp [Phase.request, eq_comm]
  · rw [if_neg passes]
    simp [Phase.request]

theorem frame_relayStep {sv : Serving} {p : Proxy} {r : Relay.State UInt8} {j : Relay.Input}
    (at_s : s.phase = .relaying sv p r) (h : relayStep ctx s sv p r j = some t) : Frame ctx s t := by
  obtain ⟨r', -, rfl⟩ := Option.map_eq_some_iff.1 h
  have request : s.phase.request = some sv.req := by rw [at_s]; rfl
  split
  · rename_i o ended
    refine ⟨List.subset_append_left _ _, ?_, ?_, ?_⟩
    · cases o <;> simp [conclude]
    · intro req own
      left
      rw [request, ← own]
      cases o <;> rfl
    · intro sv' q recording
      refine ⟨⟨relayJob ctx sv p, r'⟩, by simp, ?_⟩
      cases o with
      | ok =>
        cases recording
        exact ⟨ended, rfl⟩
      | _ => cases recording
  · exact ⟨List.Subset.refl _, by simp, fun req own => Or.inl (request.trans own), by simp⟩

/-- **One step of the handler.** -/
theorem frame_step (h : step ctx s i = some t) : Frame ctx s t := by
  cases step_move h with
  | @parsed client after req at_s parsed =>
    obtain ⟨own, left, quiet⟩ := dispatch_shape ctx req
    refine ⟨List.Subset.refl _, left, ?_, fun sv p recording => absurd recording (quiet sv p)⟩
    intro r served
    obtain rfl := own r served
    exact Or.inr ⟨client, after, at_s, parsed⟩
  | resolve at_s => exact frame_loopHead s _ (by rw [at_s]; rfl)
  | relay at_s moved => exact frame_relayStep at_s moved
  | evict at_s | notify at_s => exact frame_continueWith s _ _ (by rw [at_s]; rfl)
  | @lease sv _ at_s =>
    by_cases first : 0 < sv.attempt
    · simp only [if_pos first]
      exact ⟨List.Subset.refl _, by simp, by simp [Phase.request, at_s], by simp⟩
    · simp only [if_neg first]
      exact ⟨List.Subset.refl _, by simp, by simp [Phase.request, at_s], by simp⟩
  | dropped at_s | deny at_s | denied at_s | denyCut at_s | remove at_s | lookUp at_s | answer at_s | answered at_s
  | answerCut at_s | starve at_s | rotate at_s | record at_s | push at_s | refuse at_s | refused at_s | refuseCut at_s =>
    exact ⟨List.Subset.refl _, by simp, by simp [Phase.request, at_s], by simp⟩

/-- A handler on a connection on which the client sends `stream`. -/
structure Reads (ctx : ConnCtx) (stream : Bytes) (budget : Option Nat) (s : State) : Prop where
  accepted : ∀ client, s.phase = .accepted client → client = ⟨stream, [], budget⟩
  request : ∀ req, s.phase.request = some req →
    ∃ after, parseClientRequest ctx.expectedAuth ⟨stream, [], budget⟩ = (some req, after)
  recorded : ∀ sv p, s.phase = .recording sv p →
    ∃ a ∈ s.attempts, a.relay.phase = .done .ok ∧ hostPort a.job.proxy = hostPort p

theorem reads_step (reads : Reads ctx stream budget s) (h : step ctx s i = some t) : Reads ctx stream budget t := by
  obtain ⟨-, left, request, recorded⟩ := frame_step h
  refine ⟨fun client at_t => absurd at_t (left client), ?_, recorded⟩
  intro req own
  rcases request req own with before | ⟨client, after, at_s, parsed⟩
  · exact reads.request req before
  · obtain rfl := reads.accepted client at_s
    exact ⟨after, parsed⟩

theorem reads_run (h : run (step ctx) (accept stream budget) is = some s) : Reads ctx stream budget s := by
  refine run_preserves (fun _ _ _ reads next => reads_step reads next) ⟨?_, ?_, ?_⟩ h
  · intro client at_s
    cases at_s
    rfl
  · intro req own
    cases own
  · intro sv p recording
    cases recording

/-! ## A query -/

/-- The client waits for the answer to a query for `key`. -/
def Asking (stream : Bytes) (budget : Option Nat) (key : Text) (s : State) : Prop :=
  s.preface = [] ∧ (s.phase = .accepted ⟨stream, [], budget⟩ ∨ s.phase = .lookingUp key)

/-- The client is sent `reply`: all of it, unless the connection breaks. -/
def Replies (reply : Bytes) (s : State) : Prop :=
  (∃ rest, s.phase = .answering rest ∧ s.preface ++ rest = reply) ∨
  (s.phase = .finished ∧ s.preface <+: reply ∧ (s.cut = false → s.preface = reply))

/-- What the client is sent for what was found. -/
def lookupReply : Option Text → Bytes
  | some proxy => historyReply proxy
  | none => noContent

/-- A connection whose bytes are a query. -/
def Query (ctx : ConnCtx) (stream : Bytes) (budget : Option Nat) (t : Text) : Prop :=
  ∃ req after, parseClientRequest ctx.expectedAuth ⟨stream, [], budget⟩ = (some req, after) ∧
    req.frontend = .httpForward ∧ req.path = historyQuery t ∧ authPasses ctx.expectedAuth req = true

variable {target : Text} {reply : Bytes}

/-- A query is read as one for its key, and nothing is written before the answer. -/
theorem Query.reads (query : Query ctx stream budget target) : ∃ req after,
    parseClientRequest ctx.expectedAuth ⟨stream, [], budget⟩ = (some req, after) ∧ after.output = [] ∧
      dispatch ctx req = .lookingUp (historyKey ctx.peerIp target) := by
  obtain ⟨req, after, parsed, forward, path, passes⟩ := query
  refine ⟨req, after, parsed, ?_⟩
  rcases parseClientRequest_cases parsed with ⟨rest, -, socks, -⟩ | ⟨head, -, -, -, http, output⟩
  · rw [forward] at socks
    cases socks
  · refine ⟨output, ?_⟩
    rw [dispatch, if_pos passes, if_pos (historyQuery_host http forward path), path, control_historyQuery]

/-- Until the lookup, the client waits. -/
theorem asking_read (query : Query ctx stream budget target)
    (at_s : s.phase = .accepted ⟨stream, [], budget⟩) (h : step ctx s i = some t) :
    Asking stream budget (historyKey ctx.peerIp target) t := by
  obtain ⟨req, after, parsed, nothing, asks⟩ := query.reads
  cases i
  case parse =>
    simp only [step, at_s, parsed] at h
    cases h
    exact ⟨nothing, Or.inr asks⟩
  all_goals simp [step, at_s] at h

theorem replies_step (replies : Replies reply s) (h : step ctx s i = some t) : Replies reply t := by
  rcases replies with ⟨rest, at_s, all⟩ | ⟨over', -, -⟩
  · cases i
    case client a =>
      cases a
      case wrote n =>
        simp only [step, at_s] at h
        cases h
        refine Or.inl ⟨rest.drop n, rfl, ?_⟩
        simp only [List.append_assoc, List.take_append_drop, all]
      case flushed =>
        cases rest with
        | nil =>
          simp only [step, at_s] at h
          cases h
          rw [List.append_nil] at all
          exact Or.inr ⟨rfl, all ▸ List.prefix_rfl, fun _ => all⟩
        | cons b rest => simp [step, at_s] at h
      case writeFailed =>
        simp only [step, at_s] at h
        cases h
        exact Or.inr ⟨rfl, ⟨rest, all⟩, by simp⟩
      all_goals simp [step, at_s] at h
    all_goals simp [step, at_s] at h
  · simp [step, over'] at h

end Server.Handler

/-! ## The journal of a run -/

theorem Server.Lease.step_history {scheme : Scheme} {key : ClientKey} {sh sh' : Shared} {acc acc' : Account} {g g' : Lease.State}
    {i : Lease.Input} (h : Lease.step scheme key sh acc g i = some (sh', acc', g')) : sh'.history = sh.history := by
  cases Lease.step_move h <;> rfl

/-- The relay that a task is about to record. -/
def Client.relayed : Client → Option Relayed
  | .serving ctx h =>
    match h.phase with
    | .recording sv p => some ⟨ctx.peerIp, sv.req.path, hostPort p⟩
    | _ => none
  | .connecting _ => none

theorem Client.demand_relayed {c : Client} {r : Relayed} (h : c.relayed = some r) : c.demand = .record r.key r.upstream := by
  cases c with
  | serving ctx hs =>
    cases at_hs : hs.phase
    case recording sv p =>
      simp only [Client.relayed, at_hs] at h
      cases h
      rw [Client.demand, at_hs]
      rfl
    all_goals simp [Client.relayed, at_hs] at h
  | connecting c => cases h

theorem Client.relayed_demand {c : Client} {key proxy : Text} (h : c.demand = .record key proxy) :
    ∃ r, c.relayed = some r := by
  cases c with
  | serving ctx hs =>
    cases at_hs : hs.phase
    case recording sv p => exact ⟨_, by rw [Client.relayed, at_hs]⟩
    all_goals simp [Client.demand, at_hs] at h
  | connecting c =>
    cases at_c : c.phase
    all_goals simp [Client.demand, at_c] at h

/-- **One step of a task and the map.** -/
theorem Task.step_history {sh sh' : Shared} {t t' : Task} {i : Task.Input} (h : t.step sh i = some (sh', t')) :
    ((∃ now, i = .op now) → t.client.relayed = none) ∧ sh'.history = sh.history ∨
    ∃ now r, i = .op now ∧ t.client.relayed = some r ∧ sh'.history = sh.history.record r.key r.upstream := by
  -- only a client that records asks for it
  have silent {d : Demand} (asks : t.client.demand = d) (other : ∀ key proxy, d ≠ .record key proxy) : t.client.relayed = none := by
    cases about : t.client.relayed with
    | none => rfl
    | some r => exact absurd (asks.symm.trans (Client.demand_relayed about)) (other _ _)
  cases step_move h with
  | io => exact Or.inl ⟨by simp, rfl⟩
  | lease _ moved => exact Or.inl ⟨by simp, Lease.step_history moved⟩
  | deliver get => exact Or.inl ⟨fun _ => silent get (by simp), rfl⟩
  | put asks | notify asks | rotate asks | remove asks | lookUp asks => exact Or.inl ⟨fun _ => silent asks (by simp), rfl⟩
  | @record now _ _ _ asks =>
    obtain ⟨r, relayed⟩ := Client.relayed_demand asks
    have same := asks.symm.trans (Client.demand_relayed relayed)
    cases same
    exact Or.inr ⟨now, r, rfl, relayed, rfl⟩

namespace Sys
variable {s t u : Sys} {i : Input} {is : List Input}

/-- The relay that a step records. -/
def relayed (s : Sys) : Input → Option Relayed
  | .task k (.op _) => s.tasks[k]?.bind fun t => t.client.relayed
  | _ => none

/-- The journal after a step. -/
def noteRelayed (js : List Relayed) (s : Sys) (i : Input) (_ : Sys) : List Relayed :=
  match s.relayed i with
  | some r => if s.shared.history.Clears r.key then [r] else js ++ [r]
  | none => js

/-- The relays that were recorded since the map was last cleared. -/
def journal (s : Sys) (is : List Input) : List Relayed := (run (noting step noteRelayed) (s, []) is).elim [] Prod.snd

theorem journal_eq {js : List Relayed} (h : run (noting step noteRelayed) (s, []) is = some (t, js)) : s.journal is = js := by
  rw [journal, h]
  rfl

theorem journal_concat (h : run step s is = some u) (next : step u i = some t) :
    s.journal (is ++ [i]) = noteRelayed (s.journal is) u i t := by
  obtain ⟨js, noted⟩ := run_noting h noteRelayed []
  rw [journal_eq noted]
  refine journal_eq (t := t) ?_
  rw [run_append noted, run_cons_iff]
  exact ⟨_, by rw [noting, next]; rfl, rfl⟩

/-- **One step and the map.** -/
theorem history_step (h : step s i = some t) :
    s.relayed i = none ∧ t.shared.history = s.shared.history ∨
    ∃ r, s.relayed i = some r ∧ t.shared.history = s.shared.history.record r.key r.upstream := by
  cases step_move h with
  | @task k j task task' sh at_k moved =>
    rcases Task.step_history moved with ⟨nothing, same⟩ | ⟨now, r, rfl, about, recorded⟩
    · refine Or.inl ⟨?_, same⟩
      cases j with
      | op now => simp only [relayed, at_k, Option.bind_some, nothing ⟨now, rfl⟩]
      | io j => rfl
      | lease j => rfl
    · exact Or.inr ⟨r, by simp only [relayed, at_k, Option.bind_some, about], recorded⟩
  | @tryGet scheme country =>
    obtain ⟨_, _, -, -, same⟩ := s.shared.tryGet_frame scheme country
    exact Or.inl ⟨rfl, same⟩
  | imported | screened | announced | ended | exhausted | accept | connect | held | added | remove => exact Or.inl ⟨rfl, rfl⟩

theorem agrees_step {w x : Sys × List Relayed} (agrees : Agrees w.1.shared.history w.2)
    (h : noting step noteRelayed w i = some x) : Agrees x.1.shared.history x.2 := by
  obtain ⟨next, noted⟩ := noting_eq h
  rw [noted, noteRelayed]
  rcases history_step next with ⟨nothing, same⟩ | ⟨r, about, recorded⟩
  · rw [nothing, same]
    exact agrees
  · rw [about, recorded]
    exact agrees_record agrees r

theorem agrees_initial (initial : s.Initial) : Agrees s.shared.history [] := by
  rcases initial with ⟨auth, proxies, config, rfl⟩ | ⟨auth, config, rfl⟩
  · exact agrees_new
  · exact agrees_new

/-- **The map and the journal**, in every state of every run. -/
theorem agrees_run (initial : s.Initial) (h : run step s is = some t) : Agrees t.shared.history (s.journal is) := by
  obtain ⟨js, noted⟩ := run_noting h noteRelayed []
  rw [journal_eq noted]
  exact run_preserves (P := fun w => Agrees w.1.shared.history w.2) (fun _ _ _ agrees next => agrees_step agrees next)
    (agrees_initial initial) noted

/-! ## Connections of a run -/

/-- In the run `is`, a connection from `peer` was accepted as task `k`. -/
def Connects (s : Sys) (is : List Input) (k : Nat) (peer : IpAddr) (stream : Bytes) (budget : Option Nat) : Prop :=
  ∃ before later t, is = before ++ .accept peer stream budget :: later ∧ run step s before = some t ∧ t.tasks.length = k

variable {k : Nat} {peer : IpAddr} {stream : Bytes} {budget : Option Nat} {ctx : ConnCtx} {task : Task} {hs : Handler.State}

theorem Connects.concat (connects : s.Connects is k peer stream budget) (i : Input) :
    s.Connects (is ++ [i]) k peer stream budget := by
  obtain ⟨before, later, t, rfl, ran, len⟩ := connects
  exact ⟨before, later ++ [i], t, by simp, ran, len⟩

/-- An accepted connection is served. -/
theorem Connects.serves (connects : s.Connects is k peer stream budget) (h : run step s is = some u) :
    ∃ ctx, ctx.peerIp = peer ∧ u.Serves k ctx (Handler.accept stream budget) := by
  obtain ⟨before, later, t, rfl, ran, rfl⟩ := connects
  rw [run_append ran] at h
  obtain ⟨t', first, rest⟩ := run_cons_iff.1 h
  exact ⟨t.connCtx peer, rfl, serves_accepted first rest⟩

/-- A served connection was accepted. -/
theorem connects_of_serving (initial : s.Initial) (h : run step s is = some u) (at_k : u.tasks[k]? = some task)
    (serving : task.client = .serving ctx hs) :
    ∃ stream budget, s.Connects is k ctx.peerIp stream budget := by
  refine run_reached (P := fun is u => ∀ k task ctx hs, u.tasks[k]? = some task → task.client = .serving ctx hs →
    ∃ stream budget, s.Connects is k ctx.peerIp stream budget) ?_ ?_ h k task ctx hs at_k serving
  · intro is v i w ran before next k task ctx hs at_k serving
    rcases serving_cases next at_k serving with ⟨old, hs₀, at_k, serving⟩ | ⟨stream, budget, rfl, rfl⟩
    · obtain ⟨stream, budget, connects⟩ := before k old ctx hs₀ at_k serving
      exact ⟨stream, budget, connects.concat i⟩
    · exact ⟨stream, budget, is, [], v, rfl, ran, rfl⟩
  · intro k task ctx hs at_k
    have idle : s.tasks = [] := by
      rcases initial with ⟨auth, proxies, config, rfl⟩ | ⟨auth, config, rfl⟩ <;> rfl
    rw [idle] at at_k
    cases at_k

/-- A journal entry is what it says: a connection of the run, from that address, sent a request with that
target, and a relay of it over that upstream succeeded. -/
def Genuine (s : Sys) (is : List Input) (u : Sys) (r : Relayed) : Prop :=
  ∃ k stream budget task ctx hs, s.Connects is k r.peer stream budget ∧ u.tasks[k]? = some task ∧
    task.client = .serving ctx hs ∧
    (∃ req after, parseClientRequest ctx.expectedAuth ⟨stream, [], budget⟩ = (some req, after) ∧ req.path = r.target) ∧
    ∃ a ∈ hs.attempts, a.relay.phase = .done .ok ∧ hostPort a.job.proxy = r.upstream

theorem Genuine.step {r : Relayed} (genuine : s.Genuine is u r) (h : Sys.step u i = some t) :
    s.Genuine (is ++ [i]) t r := by
  obtain ⟨k, stream, budget, task, ctx, hs, connects, at_k, serving, sent, a, mem, served⟩ := genuine
  rcases task_step at_k h with same | ⟨j, task', -, moved, at_k'⟩
  · exact ⟨k, stream, budget, task, ctx, hs, connects.concat i, same, serving, sent, a, mem, served⟩
  · obtain ⟨hs', serving', kept⟩ := Task.step_serving serving moved
    have mem' : a ∈ hs'.attempts := by
      rcases kept with rfl | ⟨j, next⟩
      · exact mem
      · exact (Handler.frame_step next).attempts mem
    exact ⟨k, stream, budget, task', ctx, hs', connects.concat i, at_k', serving', sent, a, mem', served⟩

/-- What is about to be recorded is genuine. -/
theorem genuine_of_relayed {r : Relayed} (initial : s.Initial) (h : run step s is = some u) (about : u.relayed i = some r) :
    s.Genuine is u r := by
  unfold relayed at about
  split at about
  · rename_i k now
    obtain ⟨task, at_k, about⟩ := Option.bind_eq_some_iff.1 about
    cases client : task.client with
    | connecting c =>
      rw [client] at about
      cases about
    | serving ctx hs =>
      rw [client] at about
      cases at_hs : hs.phase
      case recording sv p =>
        simp only [Client.relayed, at_hs] at about
        cases about
        obtain ⟨stream, budget, connects⟩ := connects_of_serving initial h at_k client
        obtain ⟨ctx', -, task', hs', js, at_k', serving, ran⟩ := connects.serves h
        obtain rfl : task = task' := Option.some.inj (at_k.symm.trans at_k')
        rw [client] at serving
        cases serving
        have reads := Handler.reads_run ran
        obtain ⟨after, parsed⟩ := reads.request sv.req (by rw [at_hs]; rfl)
        exact ⟨k, stream, budget, task, ctx, hs, connects, at_k, client, ⟨sv.req, after, parsed, rfl⟩,
          reads.recorded sv p at_hs⟩
      all_goals simp [Client.relayed, at_hs] at about
  · cases about

/-- **The journal holds successful relays only.** -/
theorem genuine_journal (initial : s.Initial) (h : run step s is = some u) : ∀ r ∈ s.journal is, s.Genuine is u r := by
  refine run_reached (P := fun is u => ∀ r ∈ s.journal is, s.Genuine is u r) ?_ (fun r mem => nomatch mem) h
  intro is v i w ran before next r mem
  rw [journal_concat ran next, noteRelayed] at mem
  have old (mem : r ∈ s.journal is) : s.Genuine (is ++ [i]) w r := (before r mem).step next
  cases about : v.relayed i with
  | none =>
    rw [about] at mem
    exact old mem
  | some r' =>
    have new : s.Genuine (is ++ [i]) w r' := (genuine_of_relayed initial ran about).step next
    rw [about] at mem
    dsimp only at mem
    split at mem
    · rw [List.mem_singleton.1 mem]
      exact new
    · rcases List.mem_append.1 mem with mem | mem
      · exact old mem
      · rw [List.mem_singleton.1 mem]
        exact new

/-! ## The answer -/

theorem lookupReply_get {h : History} {js : List Relayed} (agrees : Agrees h js) (c : IpAddr) (target : Text) :
    Handler.lookupReply (h.get (historyKey c target)) = report c target js := by
  rw [agrees.found, report]
  cases lastFor c target js <;> rfl

/-- The lookup is the one thing that a waiting query can do. -/
theorem lookup_step {sh sh' : Shared} {task' : Task} {key : Text} {j : Task.Input} (serving : task.client = .serving ctx hs)
    (at_hs : hs.phase = .lookingUp key) (h : task.step sh j = some (sh', task')) :
    ∃ now hs', j = .op now ∧ task'.client = .serving ctx hs' ∧
      hs'.phase = .answering (Handler.lookupReply (sh.history.get key)) ∧ hs'.preface = hs.preface := by
  have demand : task.client.demand = .lookUp key := by rw [serving, Client.demand, at_hs]
  cases j with
  | io j => simp [Task.step, Client.io, demand] at h
  | lease j => simp [Task.step, demand] at h
  | op now =>
    simp only [Task.step, demand] at h
    simp only [serving, Client.answer, Handler.step, at_hs] at h
    cases h
    refine ⟨now, _, rfl, rfl, ?_, rfl⟩
    cases sh.history.get key <;> rfl

/-- Task `k` made its lookup in the run `is`, and its client is sent what the journal said then. -/
def Answered (s : Sys) (is : List Input) (k : Nat) (peer : IpAddr) (target : Text) (hs : Handler.State) : Prop :=
  ∃ before now later, is = before ++ .task k (.op now) :: later ∧ Handler.Replies (report peer target (s.journal before)) hs

variable {target : Text}

/-- An answer that is given stays given. -/
theorem Answered.concat (ctx : ConnCtx) {hs' : Handler.State} (answered : s.Answered is k peer target hs)
    (kept : hs' = hs ∨ ∃ j, Handler.step ctx hs j = some hs') (i : Input) : s.Answered (is ++ [i]) k peer target hs' := by
  obtain ⟨before, now, later, rfl, replies⟩ := answered
  refine ⟨before, now, later ++ [i], by simp, ?_⟩
  rcases kept with rfl | ⟨j, next⟩
  · exact replies
  · exact Handler.replies_step replies next

/-- **A query is answered from the journal.** -/
theorem query_answered (initial : s.Initial) (connects : s.Connects is k peer stream budget) (h : run step s is = some u) :
    ∃ task ctx hs, u.tasks[k]? = some task ∧ task.client = .serving ctx hs ∧ ctx.peerIp = peer ∧
      ∀ target, Handler.Query ctx stream budget target →
        Handler.Asking stream budget (historyKey peer target) hs ∨ s.Answered is k peer target hs := by
  obtain ⟨before, later, t, rfl, ran, rfl⟩ := connects
  rw [run_append ran] at h
  obtain ⟨t', first, rest⟩ := run_cons_iff.1 h
  refine run_reached (P := fun later u => ∃ task ctx hs, u.tasks[t.tasks.length]? = some task ∧ task.client = .serving ctx hs ∧
    ctx.peerIp = peer ∧ ∀ target, Handler.Query ctx stream budget target →
      Handler.Asking stream budget (historyKey peer target) hs ∨
      s.Answered (before ++ .accept peer stream budget :: later) t.tasks.length peer target hs) ?_ ?_ rest
  · rintro later v i w reached ⟨task, ctx, hs, at_k, serving, rfl, answered⟩ next
    have here : run step s (before ++ .accept ctx.peerIp stream budget :: later) = some v := by
      rw [run_append ran, run_cons_iff]
      exact ⟨t', first, reached⟩
    rw [← List.cons_append, ← List.append_assoc]
    rcases task_step at_k next with same | ⟨j, task', rfl, moved, at_k'⟩
    · refine ⟨task, ctx, hs, same, serving, rfl, fun target query => ?_⟩
      exact (answered target query).imp_right fun given => given.concat ctx (Or.inl rfl) i
    · obtain ⟨hs', serving', kept⟩ := Task.step_serving serving moved
      refine ⟨task', ctx, hs', at_k', serving', rfl, fun target query => ?_⟩
      rcases answered target query with ⟨quiet, reading | asking⟩ | given
      · rcases kept with rfl | ⟨j, read⟩
        · exact Or.inl ⟨quiet, Or.inl reading⟩
        · exact Or.inl (Handler.asking_read query reading read)
      · obtain ⟨now, hs'', rfl, serving'', answering, preface⟩ := lookup_step serving asking moved
        rw [serving'] at serving''
        cases serving''
        refine Or.inr ⟨_, now, [], rfl, Or.inl ⟨_, answering, ?_⟩⟩
        rw [preface, quiet, List.nil_append, lookupReply_get (agrees_run initial here)]
      · exact Or.inr (given.concat ctx kept _)
  · cases first
    refine ⟨Task.start (.serving (t.connCtx peer) (Handler.accept stream budget)), t.connCtx peer, Handler.accept stream budget,
      by simp, rfl, rfl, ?_⟩
    intro target query
    exact Or.inl ⟨rfl, Or.inl rfl⟩

/-- A query is never stuck. -/
theorem query_moves (at_k : u.tasks[k]? = some task) (serving : task.client = .serving ctx hs)
    (waits : Handler.Asking stream budget (historyKey peer target) hs ∨ s.Answered is k peer target hs)
    (going : hs.phase ≠ .finished) : ∃ j t, step u (.task k j) = some t := by
  have io (i : Handler.Input) {hs' : Handler.State} (silent : (Client.serving ctx hs).demand = .nothing)
      (next : Handler.step ctx hs i = some hs') : ∃ j t, step u (.task k j) = some t := by
    refine ⟨.io (.serve i), ?_⟩
    simp only [step, at_k, Task.step, serving, Client.io, silent, next, Option.map_some]
    exact ⟨_, rfl⟩
  rcases waits with ⟨-, reading | asking⟩ | ⟨-, -, -, -, ⟨rest, answering, -⟩ | ⟨ended, -⟩⟩
  · have silent : (Client.serving ctx hs).demand = .nothing := by rw [Client.demand, reading]
    cases parsed : parseClientRequest ctx.expectedAuth ⟨stream, [], budget⟩ with
    | mk req after =>
      cases req with
      | none => exact io .parse silent (by simp only [Handler.step, reading, parsed]; rfl)
      | some req => exact io .parse silent (by simp only [Handler.step, reading, parsed]; rfl)
  · have demand : task.client.demand = .lookUp (historyKey peer target) := by rw [serving, Client.demand, asking]
    refine ⟨.op 0, ?_⟩
    simp only [step, at_k, Task.step, demand]
    simp only [serving, Client.answer, Handler.step, asking, Option.map_some]
    exact ⟨_, rfl⟩
  · exact io (.client (.wrote 0)) (by rw [Client.demand, answering]) (by simp only [Handler.step, answering]; rfl)
  · exact absurd ended going

/-- **History isolation.** In every run of any number of clients: the map has at most `CAP` entries, no two
pairs of an address and a target share a key, the journal holds genuine relays only, and a control request for
the history of a target waits for its lookup, or is sent what the journal says of its own address and that
target when the lookup is made: the upstream of the last relay, or 204. -/
theorem history_isolated (initial : s.Initial) (h : run step s is = some u) :
    u.shared.history.map.length ≤ History.cap ∧
    (∀ c target c' target', historyKey c target = historyKey c' target' → c = c' ∧ target = target') ∧
    (∀ r ∈ s.journal is, s.Genuine is u r) ∧
    ∀ k peer stream budget, s.Connects is k peer stream budget →
      ∃ task ctx hs, u.tasks[k]? = some task ∧ task.client = .serving ctx hs ∧ ctx.peerIp = peer ∧
        ∀ target, Handler.Query ctx stream budget target →
          (Handler.Asking stream budget (historyKey peer target) hs ∨ s.Answered is k peer target hs) ∧
          (hs.phase ≠ .finished → ∃ j t, step u (.task k j) = some t) := by
  refine ⟨(agrees_run initial h).bounded, fun c target c' target' => historyKey_inj, genuine_journal initial h, ?_⟩
  intro k peer stream budget connects
  obtain ⟨task, ctx, hs, at_k, serving, same, answered⟩ := query_answered initial connects h
  refine ⟨task, ctx, hs, at_k, serving, same, fun target query => ⟨answered target query, fun going => ?_⟩⟩
  exact query_moves at_k serving (answered target query) going

/-- A server with one proxy. -/
def oneProxy : Sys := fromProxies none [httpProxy 80] PoolConfig.default

/-- An upstream that answers `H 200` and closes. -/
def okRelay : List Relay.Input :=
  [.connected, .upstream (.wrote 26), .upstream .flushed] ++ (ascii "H 200\r\n").map (fun b => .upstream (.read [b])) ++
    [.client (.wrote 100), .client .flushed, .upstream .eof, .client .shut, .client .eof, .upstream .shut]

/-- A client whose request for `http://h/` is relayed and recorded. -/
def relayedTask : List Task.Input :=
  [.io (.serve .parse), .io (.serve (.resolved none)), .lease .notified, .lease (.read 0), .lease (.choose 0), .lease (.note 0),
    .op 0] ++ okRelay.map (fun i => .io (.serve (.relay i))) ++ [.op 0, .op 0, .op 0]

def queryStream : Bytes := ascii "GET http://proxycontrol/api/history/url:http://h/ HTTP/1.1\r\n\r\n"

/-- A client that asks who served it, and is answered. -/
def queryTask : List Task.Input :=
  [.io (.serve .parse), .op 0, .io (.serve (.client (.wrote 300))), .io (.serve (.client .flushed))]

def askedRun : List Input :=
  [.accept (.v4 7) forwardGet.raw none] ++ relayedTask.map (.task 0) ++ [.accept (.v4 7) queryStream none] ++
    queryTask.map (.task 1)

/-- What the handler of task `k` has written itself. -/
def prefaceOf (u : Sys) (k : Nat) : Option Bytes :=
  u.tasks[k]?.bind fun task =>
    match task.client with
    | .serving _ hs => some hs.preface
    | .connecting _ => none

/-- The client is told the proxy that served it. -/
theorem history_isolated_asked : ∃ u, run step oneProxy askedRun = some u ∧ u.prefaceOf 1 = some (historyReply "1.1.1.1:80".toList) ∧
    u.shared.history.map.length ≤ History.cap ∧ ∃ r ∈ oneProxy.journal askedRun, oneProxy.Genuine askedRun u r := by
  have both : (run (noting step noteRelayed) (oneProxy, []) askedRun).map (fun w => (w.1.prefaceOf 1, w.2)) =
      some (some (historyReply "1.1.1.1:80".toList), [⟨.v4 7, "http://h/".toList, "1.1.1.1:80".toList⟩]) := by decide +kernel
  obtain ⟨⟨u, js⟩, noted, eq⟩ := Option.map_eq_some_iff.1 both
  obtain ⟨told, rfl⟩ := Prod.mk.inj eq
  have ran : run step oneProxy askedRun = some u := run_of_noting noted
  obtain ⟨bounded, -, genuine, -⟩ := history_isolated (Or.inl ⟨none, [httpProxy 80], PoolConfig.default, rfl⟩) ran
  have mem : ⟨.v4 7, "http://h/".toList, "1.1.1.1:80".toList⟩ ∈ oneProxy.journal askedRun := by
    rw [journal_eq noted]
    exact List.mem_singleton_self _
  exact ⟨u, ran, told, bounded, _, mem, genuine _ mem⟩

end Sys

end ProxyBroker
