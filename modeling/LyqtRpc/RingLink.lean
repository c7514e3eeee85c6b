import LyqtRpc.Lib.OrderedLink
import LyqtRpc.RingFifo
import LyqtRpc.MessageRoundTrip

/-!
One direction of a shared-memory connection as a link: the frames of the ring, and over
them the messages that `ShmClient` and `ShmServer` make of them.
-/

set_option autoImplicit false

namespace LyqtRpc

/-- The ring takes a frame over in the step that publishes it. -/
def ringLink (dataSize : Nat) (data : Memory) : Link Frame Frame where
  State := RingState
  Act := RingAct
  init := ringInitial dataSize data
  take s f :=
    match s.producer with
    | .publish f' _ => if f' = f then ringStep s (.producer .run) else none
    | _ => none
  move s a :=
    match ringStep s a with
    | none => none
    | some t =>
      if t.committed = s.committed then some (t, t.obtained.drop s.obtained.length) else none

/-- `none`: the serialization throws, and nothing is written. -/
def ShmClient.frame {B : Type} (ser : Serializer B) (m : BaseMessage B) : Option Frame :=
  match ser.encode m with
  | .ok body => some { type := m.msgType, body }
  | .error _ => none

/-- What the reading loop hands to `_cb_message`. An exception of `unserialize` ends the
process; here nothing comes of the frame then. -/
def ShmClient.message {B : Type} (ser : Serializer B) (f : Frame) : Option (BaseMessage B) :=
  match ser.create f.type with
  | none => none
  | some msg =>
    match ser.decode f.body msg with
    | .ok (some msg) => some (msg.setMsgType f.type)
    | _ => none

/-- The message is read as `o`, with its id: nothing but the body carries one. -/
def ShmClient.Carries {B : Type} (ser : Serializer B) (m o : BaseMessage B) : Prop :=
  (ShmClient.frame ser m).bind (ShmClient.message ser) = some o ∧ o.rid = m.rid

def shmLink {B : Type} (ser : Serializer B) (dataSize : Nat) (data : Memory) :
    Link (BaseMessage B) (BaseMessage B) :=
  (ringLink dataSize data).coded (ShmClient.frame ser) (ShmClient.message ser)

theorem ringStep_obtained {s t : RingState} {a : RingAct} (h : ringStep s a = some t) :
    s.obtained <+: t.obtained := by
  cases a with
  | producer a =>
      obtain ⟨x, _, rfl⟩ := Option.map_eq_some_iff.mp h
      exact List.prefix_rfl
  | consumer a =>
      obtain ⟨x, _, rfl⟩ := Option.map_eq_some_iff.mp h
      exact List.prefix_append _ _

def ringLink_ordered {dataSize : Nat} (hds : 0 < dataSize) (data : Memory) :
    (ringLink dataSize data).Ordered Eq where
  Holds s queue := RingInv dataSize s ∧ s.committed = s.obtained ++ queue
  init := ⟨ringInitial_inv hds data, rfl⟩
  take := by
    intro s t f queue h hstep _
    obtain ⟨hinv, hqueue⟩ := h
    simp only [ringLink] at hstep
    split at hstep
    · rename_i f' w hpc
      split at hstep
      · rename_i hf
        subst hf
        refine ⟨ringStep_inv hinv hstep, ?_⟩
        obtain ⟨x, hx, rfl⟩ := Option.map_eq_some_iff.mp hstep
        rw [hpc] at hx
        cases hx
        simp only [RingState.afterProducer, hqueue, List.append_assoc]
      · cases hstep
    · cases hstep
  move := by
    intro s t a os queue h hstep
    obtain ⟨hinv, hqueue⟩ := h
    simp only [ringLink] at hstep
    split at hstep
    · cases hstep
    · rename_i u hu
      split at hstep
      · rename_i hcommitted
        cases hstep
        have hinv' := ringStep_inv hinv hu
        obtain ⟨os, hos⟩ := ringStep_obtained hu
        obtain ⟨pending, hpending⟩ := hinv'.fifo
        rw [hcommitted, hqueue, ← hos, List.append_assoc, List.append_cancel_left_eq] at hpending
        refine ⟨os, pending, hpending.symm, ?_, hinv', ?_⟩
        · rw [← hos, List.drop_left]
          exact List.forall₂_refl os
        · rw [hcommitted, hqueue, ← hos, ← hpending, List.append_assoc]
      · cases hstep

/-- Messages that are read with their ids come out in order. -/
def shmLink_ordered {B : Type} (ser : Serializer B) {dataSize : Nat} (hds : 0 < dataSize)
    (data : Memory) : (shmLink ser dataSize data).Ordered (ShmClient.Carries ser) :=
  ((ringLink_ordered hds data).coded (ShmClient.frame ser) (ShmClient.message ser)).restrict
    (fun m o => o.rid = m.rid) fun h h' => Option.some.inj (h.symm.trans h')

/-- Nothing is in a ring whose indices have met, whatever its frames carry. -/
theorem ringLink_drained {I O : Type} {dataSize : Nat} {hds : 0 < dataSize} {data : Memory}
    {encode : I → Option Frame} {decode : Frame → Option O} {s : RingState} {queue : List I}
    (h : ((ringLink_ordered hds data).coded encode decode).Holds s queue)
    (hempty : s.ch.readIdx = s.ch.writeIdx) : queue = [] := by
  obtain ⟨fs, ⟨hinv, hcommitted⟩, hframes⟩ := h
  have hall := hinv.drained hempty
  rw [hcommitted] at hall
  rw [List.self_eq_append_right.mp hall] at hframes
  exact List.forall₂_nil_right_iff.mp hframes

theorem shmLink_drained {B : Type} {ser : Serializer B} {dataSize : Nat} {hds : 0 < dataSize}
    {data : Memory} {s : RingState} {queue : List (BaseMessage B)}
    (h : (shmLink_ordered ser hds data).Holds s queue) (hempty : s.ch.readIdx = s.ch.writeIdx) :
    queue = [] :=
  ringLink_drained h.1 hempty

/-- The classes whose body carries the id: all JSON ones, and of the protobuf ones the RPC
request and response. -/
def MessageBody.CarriesId : MessageBody → Prop
  | .json .. | .protoRpcRequest _ | .protoRpcResponse _ => True
  | _ => False

section Built
variable {json : Jsoncpp} {proto : Protobuf} {m : BaseMessage MessageBody}

/-- Whatever the class, the id comes back with the body. -/
theorem decode_rid {fresh d : BaseMessage MessageBody} (hrid : m.rid ≠ [])
    (hbody : m.body.CarriesId) (hclean : m.body.Clean) (hlib : LibraryRoundTrips json proto m)
    (hcreate : MessageFactory.create (.named m.body.type) = some fresh)
    (hdecode : ProtobufSerializer.decode json proto ((protobufSerializer json proto).encoded m)
      fresh = .ok (some d)) : d.rid = m.rid := by
  obtain ⟨rid, msgType, body⟩ := m
  cases body with
  | json cls data =>
      obtain ⟨text, hencoded, hparse, _⟩ := encoded_json hlib
      have hfresh : fresh = ⟨[], .named cls.type, .json cls .null⟩ := by
        cases cls <;> exact (Option.some.inj hcreate).symm
      subst hfresh
      rw [hencoded] at hdecode
      obtain ⟨read, hread, hd⟩ := bind_eq_ok.mp hdecode
      obtain ⟨d', rfl, rfl⟩ := Option.map_eq_some_iff.mp (Except.ok.inj hd)
      rw [JsonMessage.unserialize_written_of_rid hrid hclean.1 hparse] at hread
      cases hread
      rfl
  | protoRpcRequest e =>
      cases hcreate
      obtain ⟨d', hread, rfl⟩ := Option.map_eq_some_iff.mp (Except.ok.inj hdecode)
      have hwith : ProtoRpcRequest.withId rid e = { e with id := rid } := if_neg hrid
      have hparse : proto.rpcRequest.parseFromArray
          (ProtoMessage.serialize proto.rpcRequest { e with id := rid }) =
            some { e with id := rid } := hwith ▸ ProtoMessage.parse_serialize hlib
      have hencoded : (protobufSerializer json proto).encoded ⟨rid, msgType, .protoRpcRequest e⟩ =
          ProtoMessage.serialize proto.rpcRequest { e with id := rid } := by
        rw [← hwith]
        rfl
      rw [hencoded, ProtoRpcRequest.unserialize, ProtoMessage.unserialize] at hread
      simp only [hparse, if_neg hrid] at hread
      cases hread
      rfl
  | protoRpcResponse r =>
      cases hcreate
      obtain ⟨d', hread, rfl⟩ := Option.map_eq_some_iff.mp (Except.ok.inj hdecode)
      have hwith : ProtoRpcResponse.withId rid r.envelope = { r.envelope with id := rid } :=
        if_neg hrid
      have hparse : proto.rpcResponse.parseFromArray
          (ProtoMessage.serialize proto.rpcResponse { r.envelope with id := rid }) =
            some { r.envelope with id := rid } := hwith ▸ ProtoMessage.parse_serialize hlib
      have hencoded : (protobufSerializer json proto).encoded ⟨rid, msgType, .protoRpcResponse r⟩ =
          ProtoMessage.serialize proto.rpcResponse { r.envelope with id := rid } := by
        rw [← hwith]
        rfl
      rw [hencoded, ProtoRpcResponse.unserialize] at hread
      simp only [hparse, if_neg hrid] at hread
      cases hread
      rfl
  | _ => exact hbody.elim

/-- The messages of an RPC go through a ring, if their library reads them back. -/
theorem ShmClient.carries_received (hbuilt : BuiltBySetters m) (hrid : m.rid ≠ [])
    (hbody : m.body.CarriesId) (hlib : LibraryRoundTrips json proto m) :
    ShmClient.Carries (protobufSerializer json proto) m
      { m with body := m.body.received m.rid } := by
  obtain ⟨htype, hclean⟩ := hbuilt.type_clean
  obtain ⟨fresh, d, hcreate, hdecode, hd⟩ := decode_encoded hclean hlib
  have hdrid := decode_rid hrid hbody hclean hlib hcreate hdecode
  refine ⟨?_, rfl⟩
  have hcreate' : (protobufSerializer json proto).create m.msgType = some fresh := by
    rw [htype]
    exact hcreate
  have hdecode' : (protobufSerializer json proto).decode
      ((protobufSerializer json proto).encoded m) fresh = .ok (some d) := hdecode
  simp only [ShmClient.frame, encode_eq_encoded hlib, Option.bind_some, ShmClient.message, hcreate',
    hdecode']
  rw [← hd, ← hdrid]
  rfl

end Built

end LyqtRpc
