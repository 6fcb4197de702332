import ProxyBroker.Server.RelayFlow

/-!
# Relaying bytes that carry their origin

`Traced` is a byte with an account of where it comes from: the client, the client inside one of its
`Proxy-Authorization` lines, or `relay` itself. The machine of `Server/Relay.lean` runs over it
unchanged, and forgetting the origins of a traced run gives the run of the code (`run_map`). What a
traced run writes upstream therefore says which of the client's bytes the code forwards.
-/

namespace ProxyBroker.Server
open Lib

/-- Where a byte that goes upstream comes from. -/
inductive Origin where
  | client
  | clientAuth
  | relay
deriving DecidableEq, Repr

structure Traced where
  byte : UInt8
  origin : Origin
deriving DecidableEq, Repr

/-- A byte that `relay` writes itself. -/
def Traced.own (b : UInt8) : Traced := ⟨b, .relay⟩

namespace Relay
variable {α β : Type} (f : α → β)

def Job.map (job : Job α) : Job β := ⟨job.proxy, job.proto, job.target, job.frontend, job.raw.map f, job.allowedCodes⟩

def Splice.map (sp : Splice α) : Splice β := ⟨sp.up.map f, sp.down, sp.upEof, sp.upShut, sp.downEof, sp.downShut⟩

def Phase.map : Phase α → Phase β
  | .connecting => .connecting
  | .negotiating n => .negotiating n
  | .sending rest => .sending (rest.map f)
  | .peeking head => .peeking head
  | .replying rest => .replying rest
  | .splicing sp => .splicing (sp.map f)
  | .done o => .done o

def State.map (s : State α) : State β :=
  ⟨s.phase.map f, s.unread.map f, s.toProxy, s.upWritten.map f, s.upRead, s.clientWritten⟩

variable {f} {val : α → UInt8} {own : UInt8 → α} {val' : β → UInt8} {own' : UInt8 → β} {job : Job α}

section
variable (same : ∀ a, val' (f a) = val a) (mine : ∀ b, f (own b) = own' b)
include same

theorem requestHasBody_map : requestHasBody ((job.map f).raw.map val') = requestHasBody (job.raw.map val) := by
  have bytes : (job.raw.map f).map val' = job.raw.map val := by
    rw [List.map_map]
    exact List.map_congr_left fun a _ => same a
  rw [← bytes]
  rfl

include mine

theorem toSend_map : (toSend val own job).map f = toSend val' own' (job.map f) := by
  unfold toSend
  have line (c : Credentials) : ((authLine c).map own).map f = (authLine c).map own' := by
    rw [List.map_map]
    exact List.map_congr_left fun b _ => mine b
  simp only [Job.map]
  cases job.proxy.auth with
  | none => exact stripHeader_map f same _ _
  | some c => simp only [injectHeader_map f same, stripHeader_map f same, line]

theorem ackOrSend_map : (ackOrSend val own job).map f = ackOrSend val' own' (job.map f) := by
  unfold ackOrSend
  simp only [Job.map]
  cases job.frontend with
  | httpConnect => rfl
  | socks5 => rfl
  | httpForward => exact congrArg Phase.sending (toSend_map same mine)

theorem negotiationPhase_map (n : Negotiation) :
    (negotiationPhase val own job n).map f = negotiationPhase val' own' (job.map f) n := by
  cases n with
  | opened => exact ackOrSend_map same mine
  | _ => rfl

theorem negotiationStep_map (s : State α) (n : Negotiation) (i : Negotiation.Input) :
    (negotiationStep val own job s n i).map (State.map f) = negotiationStep val' own' (job.map f) (s.map f) n i := by
  unfold negotiationStep
  rw [Option.map_map]
  congr 1
  funext n
  simp only [Function.comp, State.map, negotiationPhase_map same mine]

end

theorem gate_map (line : Bytes) : (gate job line).map f = gate (job.map f) line := by
  unfold gate
  simp only [Job.map]
  cases job.allowedCodes with
  | none => rfl
  | some allowed => exact apply_ite (Phase.map f) _ _ _

theorem spliceStep_map (s : State α) (sp : Splice α) (i : Input) :
    (spliceStep s sp i).map (State.map f) = spliceStep (s.map f) (sp.map f) i := by
  obtain ⟨up, down, upEof, upShut, downEof, downShut⟩ := sp
  cases i with
  | upstream a =>
    cases a with
    | wrote n => simp [spliceStep, State.map, Splice.map, Phase.map]
    | read bs => cases downEof <;> rfl
    | eof => cases downEof <;> rfl
    | shut => cases up <;> cases upEof <;> cases upShut <;> cases downShut <;> rfl
    | _ => rfl
  | client a =>
    cases a with
    | read n =>
      simp only [spliceStep, State.map, Splice.map, List.length_map]
      split
      · simp [Splice.map, Phase.map, State.map]
      · rfl
    | eof =>
      simp only [spliceStep, State.map, Splice.map, List.map_eq_nil_iff]
      split
      · rfl
      · rfl
    | shut => cases down <;> cases downEof <;> cases downShut <;> cases upShut <;> rfl
    | _ => rfl
  | _ => rfl

/-- One event on bytes with more information is that event on the bytes. -/
theorem step_map (same : ∀ a, val' (f a) = val a) (mine : ∀ b, f (own b) = own' b) (s : State α) (i : Input) :
    (step val own job s i).map (State.map f) = step val' own' (job.map f) (s.map f) i := by
  obtain ⟨phase, unread, toProxy, upWritten, upRead, clientWritten⟩ := s
  cases phase with
  | connecting =>
    cases i with
    | connected =>
      simp only [step, State.map, Option.map_some, negotiationPhase_map same mine]
      rfl
    | _ => rfl
  | negotiating n =>
    cases i with
    | upstream a => exact negotiationStep_map same mine _ n (.net a)
    | handshake h => exact negotiationStep_map same mine _ n (.handshake h)
    | _ => rfl
  | sending rest =>
    cases i with
    | upstream a =>
      cases a with
      | wrote n => simp [step, State.map, Phase.map]
      | flushed =>
        cases rest with
        | nil =>
          have body : requestHasBody ((job.map f).raw.map val') = _ := requestHasBody_map same
          cases has : requestHasBody (job.raw.map val) <;> simp [step, State.map, Phase.map, body, has, emptySplice, Splice.map]
        | cons b rest => rfl
      | writeFailed => cases rest <;> rfl
      | _ => rfl
    | _ => rfl
  | peeking head =>
    cases i with
    | upstream a =>
      cases a with
      | read bs =>
        cases bs with
        | nil => rfl
        | cons b bs =>
          cases bs with
          | nil =>
            cases complete : lineComplete (head ++ [b]) with
            | false => simp [step, State.map, Phase.map, complete]
            | true =>
              have peeking : Phase.map f (.peeking head) = .peeking head := rfl
              simp only [step, State.map, Option.map_some, peeking, complete, if_true, gate_map]
          | cons c bs => rfl
      | _ => rfl
    | _ => rfl
  | replying rest =>
    cases i with
    | client a => cases a <;> cases rest <;> rfl
    | _ => rfl
  | splicing sp => exact spliceStep_map _ sp i
  | done o => rfl

/-- **A run on bytes with more information is that run on the bytes.** -/
theorem run_map (same : ∀ a, val' (f a) = val a) (mine : ∀ b, f (own b) = own' b) (s : State α) (is : List Input) :
    (run (step val own job) s is).map (State.map f) = run (step val' own' (job.map f)) (s.map f) is := by
  induction is generalizing s with
  | nil => rfl
  | cons i is ih =>
    have first : (step val own job s i).map (State.map f) = _ := step_map same mine s i
    unfold run
    rw [← first]
    cases step val own job s i with
    | none => rfl
    | some t => exact ih t

end Relay

end ProxyBroker.Server
