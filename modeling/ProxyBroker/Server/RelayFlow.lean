import ProxyBroker.Server.Relay

/-!
# What flows through a relay attempt

Two invariants of the machine of `Server/Relay.lean`. `Up`: the upstream stream gets the request and
then the client's bytes in order, and the client's bytes are untouched until the splice. `Down`: the
client gets nothing before the commit point, and then a part of `output`: the acknowledgement or the
rewritten status line, and what the upstream sends.
-/

namespace ProxyBroker.Server
open Lib

/-- The status line of a response: through its first line feed, at most `n` bytes. -/
def statusLineUpTo : Nat → Bytes → Bytes
  | 0, _ => []
  | _, [] => []
  | n + 1, b :: t => if b = 10 then [b] else b :: statusLineUpTo n t

/-- What `read_status_line` reads of a response. -/
def statusLine (response : Bytes) : Bytes := statusLineUpTo 256 response

namespace Relay
variable {α : Type} {val : α → UInt8} {own : UInt8 → α} {job : Job α} {s t : State α}

/-! ## Towards the upstream -/

variable (val own) in
/-- The bytes `relay` itself sends on the upstream stream. -/
def request (job : Job α) : List α :=
  match job.frontend with
  | .httpForward => toSend val own job
  | _ => []

variable (val own) in
/-- What was written upstream is the request and then the client's bytes, in order; before the splice
the client's bytes are untouched. -/
def Up (job : Job α) (unread : List α) (s : State α) : Prop :=
  match s.phase with
  | .connecting | .negotiating _ => s.upWritten = [] ∧ s.unread = unread
  | .sending rest => s.upWritten ++ rest = request val own job ∧ s.unread = unread
  | .peeking _ | .replying _ => s.upWritten = request val own job ∧ s.unread = unread
  | .splicing sp => s.upWritten ++ sp.up ++ s.unread = request val own job ++ unread
  | .done o => s.upWritten <+: request val own job ++ unread ∧ ∀ e, o = .retryableFailure e → s.unread = unread

theorem up_start (unread : List α) : Up val own job unread (start unread) := ⟨rfl, rfl⟩

theorem up_early {unread : List α} (up : Up val own job unread s) (early : s.phase.early) :
    s.upWritten <+: request val own job ∧ s.unread = unread := by
  unfold Up at up
  split at up
  · exact ⟨by simp [up.1], up.2⟩
  · exact ⟨by simp [up.1], up.2⟩
  · exact ⟨⟨_, up.1⟩, up.2⟩
  · exact ⟨up.1 ▸ List.prefix_refl _, up.2⟩
  all_goals rename_i at_s; rw [at_s] at early; exact early.elim

theorem up_dialling {unread : List α} (up : Up val own job unread s) (dialling : s.phase.dialling) :
    s.upWritten = [] ∧ s.unread = unread := by
  unfold Up at up
  split at up
  · exact up
  · exact up
  all_goals rename_i at_s; rw [at_s] at dialling; exact dialling.elim

theorem up_move {unread : List α} (up : Up val own job unread s) (move : Move val own job s t) :
    Up val own job unread t := by
  cases move with
  | retry e bs early =>
    obtain ⟨written, same⟩ := up_early up early
    exact ⟨written.trans (List.prefix_append _ _), fun _ _ => same⟩
  | negotiate n bs dialling =>
    obtain ⟨nothing, same⟩ := up_dialling up dialling
    exact ⟨nothing, same⟩
  | opened bs dialling =>
    obtain ⟨nothing, same⟩ := up_dialling up dialling
    unfold ackOrSend Up
    cases frontend : job.frontend <;> simp [request, frontend, nothing, same]
  | send n at_s =>
    rw [Up, at_s] at up
    exact ⟨by simpa using up.1, up.2⟩
  | sentBody at_s body =>
    rw [Up, at_s] at up
    obtain ⟨sent, same⟩ := up
    rw [List.append_nil] at sent
    simp [Up, emptySplice, sent, same]
  | sent at_s body =>
    rw [Up, at_s] at up
    obtain ⟨sent, same⟩ := up
    exact ⟨by simpa using sent, same⟩
  | peek b at_s partly => rw [Up, at_s] at up; exact up
  | peeked b at_s complete =>
    rw [Up, at_s] at up
    rcases gate_cases job (_ ++ [b]) with ⟨pass, -⟩ | ⟨e, block⟩
    · rw [pass]; exact up
    · rw [block]; exact ⟨up.1 ▸ List.prefix_append _ _, fun _ _ => up.2⟩
  | reply n at_s => rw [Up, at_s] at up; exact up
  | replied at_s =>
    rw [Up, at_s] at up
    simp [Up, emptySplice, up.1, up.2]
  | gone at_s =>
    rw [Up, at_s] at up
    exact ⟨by rw [up.1]; exact List.prefix_append _ _, by simp⟩
  | readClient n at_s =>
    rw [Up, at_s] at up
    simpa [Up] using up
  | writeUpstream n at_s =>
    rw [Up, at_s] at up
    simpa [Up] using up
  | readUpstream bs at_s => rw [Up, at_s] at up; exact up
  | writeClient n at_s => rw [Up, at_s] at up; exact up
  | mark at_s same _ => rw [Up, at_s] at up; simpa [Up, same] using up
  | finish o at_s final =>
    rw [Up, at_s] at up
    refine ⟨?_, fun e eq => absurd eq (final e)⟩
    rw [← up, List.append_assoc]
    exact List.prefix_append _ _

theorem Up.written {unread : List α} (up : Up val own job unread s) : s.upWritten <+: request val own job ++ unread := by
  unfold Up at up
  split at up
  · rw [up.1]; exact List.nil_prefix
  · rw [up.1]; exact List.nil_prefix
  · rw [← up.1, List.append_assoc]; exact List.prefix_append _ _
  · rw [up.1]; exact List.prefix_append _ _
  · rw [up.1]; exact List.prefix_append _ _
  · rw [← up, List.append_assoc]; exact List.prefix_append _ _
  · exact up.1

/-- **Towards the upstream, over every run.** -/
theorem up_run {unread : List α} {is : List Input} (h : run (step val own job) (start unread) is = some t) :
    Up val own job unread t :=
  run_preserves (fun _ _ _ up step => up_move up (step_move step)) (up_start unread) h

/-! ## Towards the client -/

theorem statusLineUpTo_stop {n : Nat} {head : Bytes} {b : UInt8} (noFeed : 10 ∉ head) (short : head.length < n)
    (stop : b = 10 ∨ head.length + 1 = n) (more : Bytes) : statusLineUpTo n (head ++ [b] ++ more) = head ++ [b] := by
  induction head generalizing n with
  | nil =>
    obtain ⟨m, rfl⟩ : ∃ m, n = m + 1 := ⟨n - 1, by simp at short; omega⟩
    rcases stop with rfl | len
    · simp [statusLineUpTo]
    · have : m = 0 := by simpa using len.symm
      subst this
      by_cases feed : b = 10 <;> simp [statusLineUpTo, feed]
  | cons c head ih =>
    obtain ⟨m, rfl⟩ : ∃ m, n = m + 1 := ⟨n - 1, by omega⟩
    have other : c ≠ 10 := fun eq => noFeed (by simp [eq])
    have rest := ih (fun mem => noFeed (List.mem_cons_of_mem c mem)) (by simpa using short) (by simpa using stop)
    simp only [List.cons_append, statusLineUpTo, other, if_false, rest]

variable (val) in
/-- `relay` reads the status line before it answers. -/
def Peeks (job : Job α) : Prop := job.frontend = .httpForward ∧ requestHasBody (job.raw.map val) = false

variable (val) in
/-- What the client gets of an upstream that has sent `response`. -/
def output (job : Job α) (response : Bytes) : Bytes :=
  match job.frontend with
  | .httpConnect => connectAck job.proxy ++ response
  | .socks5 => socks5Reply 0x00 ++ response
  | .httpForward =>
    if requestHasBody (job.raw.map val) then response
    else injectHeader id (statusLine response) (infoLine job.proxy) ++ response.drop (statusLine response).length

variable (val) in
/-- The commit point is passed: where `relay` reads a status line, it has read it whole and its status
is allowed. -/
def Committed (job : Job α) (response : Bytes) : Prop :=
  Peeks val job → ∃ line more, response = line ++ more ∧ (∀ more, statusLine (line ++ more) = line) ∧
    ∀ allowed, job.allowedCodes = some allowed → parseHttpStatus line ∈ allowed

variable (val) in
/-- What was written to the client is a part of `output`, and nothing before the commit point. -/
def Down (job : Job α) (s : State α) : Prop :=
  match s.phase with
  | .connecting | .negotiating _ => s.clientWritten = [] ∧ s.upRead = []
  | .sending _ => s.clientWritten = [] ∧ s.upRead = [] ∧ job.frontend = .httpForward
  | .peeking head => s.clientWritten = [] ∧ s.upRead = head ∧ Peeks val job ∧ 10 ∉ head ∧ head.length < 256
  | .replying rest => s.clientWritten ++ rest = output val job s.upRead ∧ Committed val job s.upRead
  | .splicing sp => s.clientWritten ++ sp.down = output val job s.upRead ∧ Committed val job s.upRead
  | .done (.retryableFailure _) => s.clientWritten = []
  | .done _ => s.clientWritten <+: output val job s.upRead ∧ Committed val job s.upRead

theorem down_start (unread : List α) : Down val job (start unread) := ⟨rfl, rfl⟩

/-- Past the commit point the client gets what the upstream sends. -/
theorem output_append {response : Bytes} (committed : Committed val job response) (bs : Bytes) :
    output val job (response ++ bs) = output val job response ++ bs := by
  unfold output
  cases frontend : job.frontend with
  | httpConnect => simp
  | socks5 => simp
  | httpForward =>
    cases body : requestHasBody (job.raw.map val) with
    | true => simp
    | false =>
      obtain ⟨line, more, rfl, whole, -⟩ := committed ⟨frontend, body⟩
      have here := whole more
      have later := whole (more ++ bs)
      simp only [List.append_assoc, Bool.false_eq_true, if_false, here, later, List.drop_left]

theorem Committed.append {response : Bytes} (committed : Committed val job response) (bs : Bytes) :
    Committed val job (response ++ bs) := by
  intro peeks
  obtain ⟨line, more, rfl, whole, allowed⟩ := committed peeks
  exact ⟨line, more ++ bs, by simp, whole, allowed⟩

theorem down_early (down : Down val job s) (early : s.phase.early) : s.clientWritten = [] := by
  unfold Down at down
  split at down
  all_goals first
    | exact down.1
    | rename_i at_s; rw [at_s] at early; exact early.elim

theorem down_dialling (down : Down val job s) (dialling : s.phase.dialling) : s.clientWritten = [] ∧ s.upRead = [] := by
  unfold Down at down
  split at down
  all_goals first
    | exact down
    | rename_i at_s; rw [at_s] at dialling; exact dialling.elim

theorem down_ackOrSend (nothing : s.clientWritten = []) (unread : s.upRead = []) :
    Down val job { s with phase := ackOrSend val own job } := by
  unfold ackOrSend Down
  cases frontend : job.frontend <;> simp [nothing, unread, output, frontend, Committed, Peeks]

theorem down_move (down : Down val job s) (move : Move val own job s t) : Down val job t := by
  cases move with
  | retry e bs early =>
    have nothing := down_early down early
    exact nothing
  | negotiate n bs dialling =>
    obtain ⟨nothing, unread⟩ := down_dialling down dialling
    exact ⟨nothing, unread⟩
  | opened bs dialling =>
    obtain ⟨nothing, unread⟩ := down_dialling down dialling
    exact down_ackOrSend (s := { s with toProxy := s.toProxy ++ bs }) nothing unread
  | send n at_s => rw [Down, at_s] at down; exact down
  | sentBody at_s body =>
    rw [Down, at_s] at down
    obtain ⟨nothing, unread, forward⟩ := down
    refine ⟨by simp [nothing, unread, emptySplice, output, forward, body], ?_⟩
    intro peeks
    rw [peeks.2] at body
    cases body
  | sent at_s body =>
    rw [Down, at_s] at down
    obtain ⟨nothing, unread, forward⟩ := down
    exact ⟨nothing, unread, ⟨forward, body⟩, by simp, by simp⟩
  | peek b at_s partly =>
    rw [Down, at_s] at down
    obtain ⟨nothing, rfl, peeks, noFeed, short⟩ := down
    simp only [lineComplete, List.getLast?_append, List.getLast?_singleton, Option.some_or, Option.some.injEq,
      List.length_append, List.length_singleton, Bool.or_eq_false_iff, decide_eq_false_iff_not, not_le] at partly
    refine ⟨nothing, rfl, peeks, ?_, by simpa using partly.2⟩
    simp only [List.mem_append, List.mem_singleton, not_or]
    exact ⟨noFeed, fun eq => partly.1 eq.symm⟩
  | peeked b at_s complete =>
    rw [Down, at_s] at down
    obtain ⟨nothing, rfl, peeks, noFeed, short⟩ := down
    have stop : b = 10 ∨ s.upRead.length + 1 = 256 := by
      simp only [lineComplete, List.getLast?_append, List.getLast?_singleton, Option.some_or, Option.some.injEq,
        List.length_append, List.length_singleton, Bool.or_eq_true, decide_eq_true_eq] at complete
      rcases complete with feed | long
      · exact Or.inl feed
      · exact Or.inr (by omega)
    have whole : ∀ more, statusLine (s.upRead ++ [b] ++ more) = s.upRead ++ [b] := statusLineUpTo_stop noFeed short stop
    rcases gate_cases job (s.upRead ++ [b]) with ⟨pass, allowed⟩ | ⟨e, block⟩
    · have line : statusLine (s.upRead ++ [b]) = s.upRead ++ [b] := by simpa using whole []
      rw [pass]
      refine ⟨?_, fun _ => ⟨s.upRead ++ [b], [], by simp, whole, allowed⟩⟩
      simp [nothing, output, peeks.1, peeks.2, line]
    · rw [block]; exact nothing
  | reply n at_s =>
    rw [Down, at_s] at down
    exact ⟨by simpa using down.1, down.2⟩
  | replied at_s =>
    rw [Down, at_s] at down
    exact ⟨by simpa [emptySplice] using down.1, down.2⟩
  | gone at_s =>
    rw [Down, at_s] at down
    exact ⟨⟨_, down.1⟩, down.2⟩
  | readClient n at_s => rw [Down, at_s] at down; exact down
  | writeUpstream n at_s => rw [Down, at_s] at down; exact down
  | readUpstream bs at_s =>
    rw [Down, at_s] at down
    obtain ⟨flows, committed⟩ := down
    refine ⟨?_, committed.append bs⟩
    show s.clientWritten ++ (_ ++ bs) = _
    rw [output_append committed, ← flows, List.append_assoc]
  | writeClient n at_s =>
    rw [Down, at_s] at down
    exact ⟨by simpa using down.1, down.2⟩
  | mark at_s _ same =>
    rw [Down, at_s] at down
    exact ⟨by simpa [same] using down.1, down.2⟩
  | finish o at_s final =>
    rw [Down, at_s] at down
    have written : s.clientWritten <+: output val job s.upRead := ⟨_, down.1⟩
    cases o with
    | retryableFailure e => exact absurd rfl (final e)
    | ok => exact ⟨written, down.2⟩
    | clientCommitted e => exact ⟨written, down.2⟩
    | clientGone => exact ⟨written, down.2⟩

/-- What the client got stays with it. -/
theorem clientWritten_move (move : Move val own job s t) : s.clientWritten <+: t.clientWritten := by
  cases move
  case reply => exact List.prefix_append _ _
  case writeClient => exact List.prefix_append _ _
  all_goals exact List.prefix_refl _

/-- **Towards the client, over every run.** -/
theorem down_run {unread : List α} {is : List Input} (h : run (step val own job) (start unread) is = some t) :
    Down val job t :=
  run_preserves (fun _ _ _ down step => down_move down (step_move step)) (down_start unread) h

/-- What the client got is a part of `output`, and is nothing before the commit point. -/
theorem Down.written (down : Down val job s) :
    s.clientWritten <+: output val job s.upRead ∧ (s.clientWritten ≠ [] → Committed val job s.upRead) := by
  unfold Down at down
  split at down
  · exact ⟨by simp [down.1], fun loud => absurd down.1 loud⟩
  · exact ⟨by simp [down.1], fun loud => absurd down.1 loud⟩
  · exact ⟨by simp [down.1], fun loud => absurd down.1 loud⟩
  · exact ⟨by simp [down.1], fun loud => absurd down.1 loud⟩
  · exact ⟨⟨_, down.1⟩, fun _ => down.2⟩
  · exact ⟨⟨_, down.1⟩, fun _ => down.2⟩
  · exact ⟨by simp [down], fun loud => absurd down loud⟩
  · exact ⟨down.1, fun _ => down.2⟩

/-- `relay` is past the commit point, or ended there. -/
def State.committed (s : State α) : Bool :=
  match s.phase with
  | .replying _ | .splicing _ | .done .ok | .done (.clientCommitted _) | .done .clientGone => true
  | _ => false

/-! ## Before the splice -/

/-- The splice has begun. Only the splice ends in `ok` or `clientCommitted`. -/
def State.spliced (s : State α) : Bool :=
  match s.phase with
  | .splicing _ | .done .ok | .done (.clientCommitted _) => true
  | _ => false

theorem spliceStep_spliced {sp : Splice α} {i : Input} (h : spliceStep s sp i = some t) : t.spliced = true := by
  have ends (shut : Bool) (sp' : Splice α) (u : State α) (at_u : u.phase = if shut then .done .ok else .splicing sp') :
      u.spliced = true := by
    cases shut <;> simp_all [State.spliced]
  unfold spliceStep at h
  split at h
  · split at h
    · cases h; rfl
    · cases h
  · split at h
    · cases h; rfl
    · cases h
  · cases h; rfl
  · split at h
    · cases h; exact ends sp.downShut _ _ rfl
    · cases h
  · split at h
    · cases h; rfl
    · cases h
  · split at h
    · cases h; rfl
    · cases h
  · cases h; rfl
  · split at h
    · cases h; exact ends sp.upShut _ _ rfl
    · cases h
  all_goals first
    | cases h; rfl
    | cases h

theorem committed_of_spliced (spliced : s.spliced = true) : s.committed = true := by
  unfold State.spliced at spliced
  unfold State.committed
  split at spliced
  all_goals first
    | rename_i at_s; rw [at_s]
    | cases spliced

theorem spliced_of_early (early : s.phase.early) : s.spliced = false := by
  unfold State.spliced
  split
  all_goals first
    | rfl
    | rename_i at_s; rw [at_s] at early; exact early.elim

theorem request_tunnel (tunnel : job.frontend ≠ .httpForward) : request val own job = [] := by
  unfold request
  cases frontend : job.frontend with
  | httpForward => exact absurd frontend tunnel
  | _ => rfl

theorem output_tunnel (tunnel : job.frontend ≠ .httpForward) (response : Bytes) :
    output val job response = output val job [] ++ response := by
  unfold output
  cases frontend : job.frontend with
  | httpForward => exact absurd frontend tunnel
  | _ => simp

/-- A tunnel reads nothing of the upstream's payload before its splice, and the splice follows the
acknowledgement. -/
theorem tunnel_run {unread : List α} {is : List Input} (tunnel : job.frontend ≠ .httpForward)
    (h : run (step val own job) (start unread) is = some t) :
    (t.spliced = false → t.upRead = []) ∧ (t.spliced = true → output val job [] <+: t.clientWritten) := by
  refine (run_preserves (P := fun s => Down val job s ∧ (s.spliced = false → s.upRead = []) ∧
    (s.spliced = true → output val job [] <+: s.clientWritten)) ?_ ⟨down_start unread, fun _ => rfl, fun begun => by cases begun⟩ h).2
  rintro s i t ⟨down, nothing, acked⟩ next
  have move := step_move next
  have written : s.clientWritten <+: t.clientWritten := clientWritten_move move
  refine ⟨down_move down move, ?_⟩
  have begun {sp : Splice α} (at_s : s.phase = .splicing sp) :
      (t.spliced = false → t.upRead = []) ∧ (t.spliced = true → output val job [] <+: t.clientWritten) := by
    simp only [step, at_s] at next
    refine ⟨?_, fun _ => (acked (by rw [State.spliced, at_s])).trans written⟩
    rw [spliceStep_spliced next]
    intro contra
    cases contra
  have early (before : s.spliced = false) (after : t.spliced = false) (same : t.upRead = s.upRead) :
      (t.spliced = false → t.upRead = []) ∧ (t.spliced = true → output val job [] <+: t.clientWritten) := by
    refine ⟨fun _ => same.trans (nothing before), ?_⟩
    rw [after]
    intro contra
    cases contra
  have forward {P : Prop} (is_forward : job.frontend = .httpForward) : P := absurd is_forward tunnel
  cases move with
  | retry e bs before => exact early (spliced_of_early before) rfl rfl
  | negotiate n bs dialling => exact early (spliced_of_early dialling.early) rfl rfl
  | opened bs dialling =>
    refine early (spliced_of_early dialling.early) ?_ rfl
    unfold State.spliced ackOrSend
    cases job.frontend <;> rfl
  | send n at_s =>
    rw [Down, at_s] at down
    exact forward down.2.2
  | sentBody at_s body =>
    rw [Down, at_s] at down
    exact forward down.2.2
  | sent at_s body =>
    rw [Down, at_s] at down
    exact forward down.2.2
  | peek b at_s partly =>
    rw [Down, at_s] at down
    exact forward down.2.2.1.1
  | peeked b at_s complete =>
    rw [Down, at_s] at down
    exact forward down.2.2.1.1
  | reply n at_s => exact early (by rw [State.spliced, at_s]) rfl rfl
  | replied at_s =>
    have unread : s.upRead = [] := nothing (by rw [State.spliced, at_s])
    rw [Down, at_s] at down
    dsimp only at down
    rw [unread, List.append_nil] at down
    refine ⟨fun contra => (by cases contra), fun _ => ?_⟩
    exact down.1 ▸ List.prefix_refl _
  | gone at_s => exact early (by rw [State.spliced, at_s]) rfl rfl
  | readClient n at_s => exact begun at_s
  | writeUpstream n at_s => exact begun at_s
  | readUpstream bs at_s => exact begun at_s
  | writeClient n at_s => exact begun at_s
  | mark at_s _ _ => exact begun at_s
  | finish o at_s _ => exact begun at_s

/-! ## A splice that has ended -/

variable (val own) in
/-- A direction that was shut down had come to its end and has nothing left; so a splice that ended well has
handed over everything. -/
def Drained (job : Job α) (unread : List α) (s : State α) : Prop :=
  match s.phase with
  | .splicing sp =>
    (sp.upEof = true → s.unread = []) ∧ (sp.upShut = true → sp.upEof = true ∧ sp.up = []) ∧
      (sp.downShut = true → sp.downEof = true ∧ sp.down = [])
  | .done .ok => s.upWritten = request val own job ++ unread ∧ s.clientWritten = output val job s.upRead
  | _ => True

theorem drained_splice {unread : List α} {sp : Splice α} {i : Input} (at_s : s.phase = .splicing sp)
    (up : Up val own job unread s) (down : Down val job s) (drained : Drained val own job unread s)
    (h : spliceStep s sp i = some t) : Drained val own job unread t := by
  rw [Drained, at_s] at drained
  rw [Up, at_s] at up
  rw [Down, at_s] at down
  dsimp only at up down
  obtain ⟨ended, upDone, downDone⟩ := drained
  unfold spliceStep at h
  split at h
  · split at h
    · rename_i reading
      cases h
      refine ⟨fun eof => absurd eof (by simp [reading.1]), fun shut => ?_, downDone⟩
      exact absurd (upDone shut).1 (by simp [reading.1])
    · cases h
  · split at h
    · rename_i all
      cases h
      exact ⟨fun _ => all.2, fun shut => ⟨rfl, (upDone shut).2⟩, downDone⟩
    · cases h
  · cases h
    refine ⟨ended, fun shut => ⟨(upDone shut).1, ?_⟩, downDone⟩
    show sp.up.drop _ = []
    rw [(upDone shut).2, List.drop_nil]
  · split at h
    · rename_i last
      obtain ⟨eof, -, empty⟩ := last
      cases h
      cases shut : sp.downShut with
      | true =>
        rw [empty, ended eof, List.append_nil, List.append_nil] at up
        rw [(downDone shut).2, List.append_nil] at down
        exact ⟨up, down.1⟩
      | false => exact ⟨ended, fun _ => ⟨eof, empty⟩, fun contra => absurd contra (by simp)⟩
    · cases h
  · split at h
    · rename_i reading
      cases h
      refine ⟨ended, upDone, fun shut => ?_⟩
      exact absurd (downDone shut).1 (by simp [reading])
    · cases h
  · split at h
    · cases h
      exact ⟨ended, upDone, fun shut => ⟨rfl, (downDone shut).2⟩⟩
    · cases h
  · cases h
    refine ⟨ended, upDone, fun shut => ⟨(downDone shut).1, ?_⟩⟩
    show sp.down.drop _ = []
    rw [(downDone shut).2, List.drop_nil]
  · split at h
    · rename_i last
      obtain ⟨eof, -, empty⟩ := last
      cases h
      cases shut : sp.upShut with
      | true =>
        rw [(upDone shut).2, ended (upDone shut).1, List.append_nil, List.append_nil] at up
        rw [empty, List.append_nil] at down
        exact ⟨up, down.1⟩
      | false => exact ⟨ended, fun contra => absurd contra (by simp), fun _ => ⟨eof, empty⟩⟩
    · cases h
  all_goals first
    | cases h; trivial
    | cases h

/-- **A splice that ended well handed over everything**, in both directions. -/
theorem drained_run {unread : List α} {is : List Input} (h : run (step val own job) (start unread) is = some t) :
    Drained val own job unread t := by
  refine (run_preserves (P := fun s => Up val own job unread s ∧ Down val job s ∧ Drained val own job unread s) ?_
    ⟨up_start unread, down_start unread, trivial⟩ h).2.2
  rintro s i t ⟨up, down, drained⟩ next
  have move := step_move next
  refine ⟨up_move up move, down_move down move, ?_⟩
  have spliced {sp : Splice α} (at_s : s.phase = .splicing sp) : Drained val own job unread t := by
    simp only [step, at_s] at next
    exact drained_splice at_s up down drained next
  have begins : Drained val own job unread { s with phase := .splicing emptySplice } := by simp [Drained, emptySplice]
  cases move with
  | retry e bs early => trivial
  | negotiate n bs dialling => trivial
  | opened bs dialling =>
    unfold Drained ackOrSend
    cases job.frontend <;> trivial
  | send n at_s => trivial
  | sentBody at_s body => exact begins
  | sent at_s body => trivial
  | peek b at_s partly => trivial
  | peeked b at_s complete =>
    rcases gate_cases job (_ ++ [b]) with ⟨pass, -⟩ | ⟨e, block⟩
    · rw [pass]
      trivial
    · rw [block]
      trivial
  | reply n at_s => trivial
  | replied at_s => exact begins
  | gone at_s => trivial
  | readClient n at_s => exact spliced at_s
  | writeUpstream n at_s => exact spliced at_s
  | readUpstream bs at_s => exact spliced at_s
  | writeClient n at_s => exact spliced at_s
  | mark at_s _ _ => exact spliced at_s
  | finish o at_s _ => exact spliced at_s

end Relay

end ProxyBroker.Server
