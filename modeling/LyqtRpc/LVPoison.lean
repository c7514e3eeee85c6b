import LyqtRpc.Lib.StepRun
import LyqtRpc.LVBoundary

/-!
The receive loops of `MuduoServer` and `MuduoClient` turn by turn, and what
each of them still reads from a connection whose stream has gone bad.
`shutdown()` closes the write half only: the peer's bytes keep coming.
-/

set_option autoImplicit false

namespace LyqtRpc

open StepRun ChunkStream

namespace MuduoClient
variable {B : Type}

/-- One turn of the client's loop. Too much unprocessable data ends the
callback, and nothing closes the connection. -/
def nextMessage (ser : Serializer B) (buf : Bytes) :
    Next (BaseMessage B) (Option MuduoServer.Close × Bytes) :=
  if LVProtocol.canProcessed buf = false then
    if MuduoServer.maxDataLen < buf.length then .fault (none, buf) else .more
  else
    match LVProtocol.onMessage ser buf with
    | .fail rest => .fault (some .shutdown, rest)
    | .threw e rest => .fault (some (.threw e), rest)
    | .underflow => .fault (some .abort, [])
    | .ok m rest => .item m rest

end MuduoClient

inductive Side where
  | server | client
  deriving DecidableEq, Repr

section Receiver
variable {B : Type}

def Side.nextMessage (side : Side) (ser : Serializer B) (registered : Bool) (buf : Bytes) :
    Next (BaseMessage B) (Option MuduoServer.Close × Bytes) :=
  match side with
  | .server =>
    match MuduoServer.nextMessage ser registered buf with
    | .more => .more
    | .item m rest => .item m rest
    | .fault (e, rest) => .fault (some e, rest)
  | .client => MuduoClient.nextMessage ser buf

/-- A length field is at the head and it is negative. -/
def negativeHead (buf : Bytes) : Bool := decide (4 ≤ buf.length) && decide (peekInt32 buf < 0)

/-- More than the limit, and no frame to take off. -/
def oversized (buf : Bytes) : Bool :=
  !LVProtocol.canProcessed buf && decide (MuduoServer.maxDataLen < buf.length)

def rejected (ser : Serializer B) (buf : Bytes) : Bool :=
  match LVProtocol.onMessage ser buf with
  | .fail _ => LVProtocol.canProcessed buf
  | _ => false

/-- What a turn can find that makes the stream bad. -/
def poisonous (ser : Serializer B) (buf : Bytes) : Bool :=
  rejected ser buf || negativeHead buf || oversized buf

/-- `running`: the callback has not returned. `told`: `shutdown()` was called.
`gone`: an exception or a failed assertion ended the loop's thread. `poisoned`
and `late`, the messages dispatched after that, are read by no step. -/
structure Receiver (B : Type) where
  buffer : Bytes := []
  running : Bool := false
  told : Bool := false
  gone : Bool := false
  dispatched : List (BaseMessage B) := []
  poisoned : Bool := false
  late : List (BaseMessage B) := []

inductive ReceiverAct where
  /-- The network delivers a chunk and muduo calls the callback. -/
  | deliver (chunk : Bytes)
  /-- One turn of the loop in the callback; the server also looks whether the
  connection is in `_connections`. -/
  | turn (registered : Bool)

def receiverStep (side : Side) (ser : Serializer B) (s : Receiver B) :
    ReceiverAct → Option (Receiver B)
  | .deliver chunk =>
    if s.running || s.gone then none
    else some { s with buffer := s.buffer ++ chunk, running := true }
  | .turn registered =>
    if s.running then
      let poisoned := s.poisoned || poisonous ser s.buffer
      match side.nextMessage ser registered s.buffer with
      | .more => some { s with running := false, poisoned }
      | .item m rest =>
        some { s with
          buffer := rest
          dispatched := s.dispatched ++ [m]
          poisoned
          late := if s.poisoned then s.late ++ [m] else s.late }
      | .fault (e, rest) =>
        some { s with
          buffer := rest
          running := false
          told := s.told || decide (e = some .shutdown)
          gone := decide (e ≠ some .shutdown ∧ e ≠ none)
          poisoned }
    else none

/-- The loop of this side closes the connection over what it finds: a negative
length or too much data, on a connection not yet told to close. -/
def Side.closesOver (side : Side) (buf : Bytes) : Bool :=
  decide (side = .server) && decide (MuduoServer.maxDataLen < buf.length)

/-- Nothing of a poisoned stream is offered to the parser again, and a turn that
poisons it without parsing is one whose loop then closes the connection. -/
def CleanTurn (side : Side) (s : Receiver B) : ReceiverAct → Prop
  | .deliver _ => True
  | .turn _ =>
    (s.poisoned = true → LVProtocol.canProcessed s.buffer = false) ∧
    (s.told = false → negativeHead s.buffer || oversized s.buffer →
      side.closesOver s.buffer = true)

instance (side : Side) (s : Receiver B) (a : ReceiverAct) : Decidable (CleanTurn side s a) :=
  match a with
  | .deliver _ => inferInstanceAs (Decidable True)
  | .turn _ => inferInstanceAs (Decidable (_ ∧ _))

/-- The connection was told to close and nothing later was dispatched. -/
structure Quarantined (s : Receiver B) : Prop where
  told : s.poisoned = true → s.told = true
  late : s.late = []

variable {side : Side} {ser : Serializer B} {s s' : Receiver B} {a : ReceiverAct}

theorem canProcessed_negativeHead {buf : Bytes} (h : negativeHead buf = true) :
    LVProtocol.canProcessed buf = false := by
  simp only [negativeHead, Bool.and_eq_true, decide_eq_true_eq] at h
  rw [LVProtocol.canProcessed, if_neg (by omega), if_pos h.2]

theorem rejected_iff {buf : Bytes} : rejected ser buf = true ↔
    LVProtocol.canProcessed buf = true ∧ ∃ rest, LVProtocol.onMessage ser buf = .fail rest := by
  unfold rejected
  cases LVProtocol.onMessage ser buf <;> simp

/-- With nothing to take off the buffer, the server closes over the limit and
waits below it. -/
theorem Side.nextMessage_unprocessable {registered : Bool} {buf : Bytes}
    (h : LVProtocol.canProcessed buf = false) :
    side.nextMessage ser registered buf = .more ∧ side.closesOver buf = false ∨
    side.nextMessage ser registered buf = .fault (none, buf) ∧ side.closesOver buf = false ∨
    side.nextMessage ser registered buf = .fault (some .shutdown, buf) := by
  cases side with
  | server =>
      by_cases hmax : MuduoServer.maxDataLen < buf.length
      · right
        right
        simp only [nextMessage, MuduoServer.nextMessage, if_pos h, if_pos hmax]
      · left
        simp only [nextMessage, MuduoServer.nextMessage, if_pos h, if_neg hmax]
        exact ⟨trivial, by simp [closesOver, hmax]⟩
  | client =>
      by_cases hmax : MuduoServer.maxDataLen < buf.length
      · right
        left
        simp only [nextMessage, MuduoClient.nextMessage, if_pos h, if_pos hmax]
        exact ⟨trivial, rfl⟩
      · left
        simp only [nextMessage, MuduoClient.nextMessage, if_pos h, if_neg hmax]
        exact ⟨trivial, rfl⟩

theorem Side.nextMessage_rejected {registered : Bool} {buf rest : Bytes}
    (h : LVProtocol.canProcessed buf = true) (hr : LVProtocol.onMessage ser buf = .fail rest) :
    side.nextMessage ser registered buf = .fault (some .shutdown, rest) := by
  cases side with
  | server =>
      simp only [nextMessage, MuduoServer.nextMessage, h, Bool.true_eq_false, if_false, hr]
  | client =>
      simp only [nextMessage, MuduoClient.nextMessage, h, Bool.true_eq_false, if_false, hr]

/-- A turn that finds the stream bad while the connection is not told to close:
under the condition it tells it. -/
theorem poisonous_closes {registered : Bool} {buf : Bytes} (hbad : poisonous ser buf = true)
    (hok : negativeHead buf || oversized buf → side.closesOver buf = true) :
    ∃ rest, side.nextMessage ser registered buf = .fault (some .shutdown, rest) := by
  cases hcan : LVProtocol.canProcessed buf with
  | true =>
      have hneg : negativeHead buf = false := by
        cases hn : negativeHead buf with
        | false => rfl
        | true =>
            rw [canProcessed_negativeHead hn] at hcan
            cases hcan
      simp only [poisonous, oversized, hcan, hneg, Bool.not_true, Bool.false_and,
        Bool.or_false] at hbad
      obtain ⟨_, rest, hr⟩ := rejected_iff.mp hbad
      exact ⟨rest, Side.nextMessage_rejected hcan hr⟩
  | false =>
      have hnot : rejected ser buf = false := by
        cases hr : rejected ser buf with
        | false => rfl
        | true =>
            rw [(rejected_iff.mp hr).1] at hcan
            cases hcan
      simp only [poisonous, hnot, Bool.false_or] at hbad
      have hcloses := hok hbad
      rcases @Side.nextMessage_unprocessable B side ser registered _ hcan with
        ⟨_, hno⟩ | ⟨_, hno⟩ | hshut
      · rw [hno] at hcloses
        cases hcloses
      · rw [hno] at hcloses
        cases hcloses
      · exact ⟨buf, hshut⟩

/-- What a turn leaves behind, by what the loop found. -/
theorem receiverStep_turn {registered : Bool}
    (hs : receiverStep side ser s (.turn registered) = some s') :
    s'.poisoned = (s.poisoned || poisonous ser s.buffer) ∧
    (s.told = true → s'.told = true) ∧
    (∀ rest, side.nextMessage ser registered s.buffer = .fault (some .shutdown, rest) →
      s'.told = true) ∧
    (s'.late = s.late ∨
      s.poisoned = true ∧ ∃ m rest, side.nextMessage ser registered s.buffer = .item m rest) := by
  simp only [receiverStep] at hs
  split at hs
  · split at hs
    · rename_i hn
      obtain rfl := Option.some.inj hs
      exact ⟨rfl, id, fun rest h => by simp [hn] at h, .inl rfl⟩
    · rename_i m rest hn
      obtain rfl := Option.some.inj hs
      refine ⟨rfl, id, fun rest h => by simp [hn] at h, ?_⟩
      cases hp : s.poisoned with
      | true => exact .inr ⟨rfl, m, rest, hn⟩
      | false => exact .inl rfl
    · rename_i e rest hn
      obtain rfl := Option.some.inj hs
      refine ⟨rfl, fun h => by simp [h], fun rest' h => ?_, .inl rfl⟩
      rw [hn] at h
      cases h
      simp
  · cases hs

theorem receiverStep_quarantined (hi : Quarantined s) (hok : CleanTurn side s a)
    (hs : receiverStep side ser s a = some s') : Quarantined s' := by
  cases a with
  | deliver chunk =>
      simp only [receiverStep] at hs
      split at hs
      · cases hs
      · obtain rfl := Option.some.inj hs
        exact ⟨hi.told, hi.late⟩
  | turn registered =>
      obtain ⟨hpoisoned, htold, hshut, hlate⟩ := receiverStep_turn hs
      constructor
      · intro hp
        rw [hpoisoned, Bool.or_eq_true] at hp
        by_cases ht : s.told = true
        · exact htold ht
        · rcases hp with hold | hbad
          · exact absurd (hi.told hold) ht
          · obtain ⟨rest, hn⟩ := @poisonous_closes B side ser registered _ hbad
              (hok.2 (by simpa using ht))
            exact hshut rest hn
      · rcases hlate with hsame | ⟨hp, m, rest, hn⟩
        · rw [hsame]
          exact hi.late
        · have hcan := hok.1 hp
          rcases @Side.nextMessage_unprocessable B side ser registered _ hcan with
            ⟨h, _⟩ | ⟨h, _⟩ | h <;>
            simp [h] at hn

/-- A poisoned connection was told to close and no later message is dispatched,
as long as the parser finds nothing to process in it again. -/
theorem poisoned_quarantined (side : Side) (ser : Serializer B) {s : Receiver B}
    (h : Run (receiverStep side ser) (CleanTurn side) {} s) : Quarantined s :=
  h.invariant Quarantined ⟨fun hp => absurd hp Bool.false_ne_true, rfl⟩
    (fun _ _ _ hi hok hs => receiverStep_quarantined hi hok hs)

end Receiver

/-- A codec that knows requests only. -/
def requestSerializer : Serializer Bytes where
  create t := if t = .named .REQ_RPC then some { msgType := t, body := [] } else none
  encode m := .ok m.body
  decode data m := .ok (some { m with body := data })

/-- A frame without id and body, of a type nobody knows. -/
def unknownFrame : Bytes := putInt32 8 ++ (putInt32 99 ++ putInt32 0)

def requestFrame : Bytes :=
  LVProtocol.frame requestSerializer ⟨[], .named .REQ_RPC, str "x"⟩

/-- The bad frame is rejected, two more bytes arrive and stay in the buffer. -/
theorem poisoned_quarantined_waits : ∃ s,
    exec (guarded (receiverStep .server requestSerializer) (CleanTurn .server)) {}
      [.deliver unknownFrame, .turn true, .deliver [0, 0], .turn true] = some s ∧
    s.poisoned = true ∧ s.buffer = [0, 0] ∧ Quarantined s := by
  obtain ⟨s, hs, hview⟩ := Option.map_eq_some_iff.mp
    (show (exec (guarded (receiverStep .server requestSerializer) (CleanTurn .server)) {}
      [.deliver unknownFrame, .turn true, .deliver [0, 0], .turn true]).map
        (fun s => (s.poisoned, s.buffer)) = some (true, [0, 0]) by decide +kernel)
  obtain ⟨hpoisoned, hbuffer⟩ := Prod.mk.inj hview
  exact ⟨s, hs, hpoisoned, hbuffer, poisoned_quarantined _ _ (Run.of_guarded hs)⟩

/-- The request behind a rejected frame is dispatched when its chunk arrives. -/
theorem rejected_stream_reparsed : ¬ ∀ (side : Side) (s : Receiver Bytes),
    Reachable (receiverStep side requestSerializer) {} s → Quarantined s := by
  intro h
  obtain ⟨s, hs, hview⟩ := Option.map_eq_some_iff.mp
    (show (exec (receiverStep .server requestSerializer) {}
      [.deliver unknownFrame, .turn true, .deliver requestFrame, .turn true]).map
        (fun s => s.late) = some [⟨[], .named .REQ_RPC, str "x"⟩] by decide +kernel)
  have hlate := (h .server s (Reachable.of_exec hs)).late
  rw [hview] at hlate
  cases hlate

end LyqtRpc
