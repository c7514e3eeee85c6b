import LyqtRpc.Lib.AssocTable
import LyqtRpc.CallModes
import LyqtRpc.MessageRoundTrip

/-!
`send` through its layers: `LVProtocol`, `MuduoConnection`, `MuduoClient`, and
what `Requestor` makes of the answer. A connection is what `connected()` says
each time it is asked.
-/

set_option autoImplicit false

namespace LyqtRpc

variable {B : Type}

structure SendResult where
  /-- What `send` returned, or the exception that left it. -/
  outcome : Except CppException Bool
  /-- What `TcpConnection::send` was given. -/
  handed : List Bytes := []

/-- `BaseConnection::lastSendError`, which `MuduoConnection` leaves as it is. -/
def lastSendError : RpcError := .CONN_CLOSED

def MuduoConnection.send (ser : Serializer B) (connected : Nat → Bool) (msg : BaseMessage B) :
    SendResult :=
  if !connected 0 then { outcome := .ok false }
  else
    match LVProtocol.serialize ser msg with
    | .error e => { outcome := .error e }
    | .ok data => { outcome := .ok true, handed := [data] }

/-- `none`: there is no connection object. -/
def MuduoClient.send (ser : Serializer B) (connection : Option (Nat → Bool))
    (msg : BaseMessage B) : SendResult :=
  match connection with
  | none => { outcome := .ok false }
  | some connected =>
    if !connected 0 then { outcome := .ok false }
    else
      let sent := MuduoConnection.send ser (fun n => connected (n + 1)) msg
      -- what the connection's `send` returns is not looked at
      { sent with outcome := sent.outcome.map fun _ => true }

structure RequestorSend where
  outcome : Except CppException Bool
  /-- What was written to `*err`. -/
  err : Option RpcError
  requestDesc : AList (fun _ : Bytes => ReqType)

/-- `Requestor::send` with a future or a callback; the synchronous `send` starts with
the first and returns false where it does. -/
def Requestor.send (requestDesc : AList (fun _ : Bytes => ReqType)) (type : ReqType)
    (req : BaseMessage B) (sent : SendResult) : RequestorSend :=
  let requestDesc := requestDesc.insert req.rid type
  match sent.outcome with
  | .error e => { outcome := .error e, err := none, requestDesc }
  | .ok false =>
    { outcome := .ok false, err := some lastSendError, requestDesc := requestDesc.erase req.rid }
  | .ok true => { outcome := .ok true, err := some .OK, requestDesc }

/-- A frame of the message: with something in it, and as long as it says itself. -/
def Handed (ser : Serializer B) (m : BaseMessage B) (r : SendResult) : Prop :=
  ∃ bytes ∈ r.handed, LVProtocol.serialize ser m = .ok bytes ∧ bytes ≠ [] ∧
    (bytes.length : Int) = 4 + (peekInt32 bytes).toInt

structure Truthful (ser : Serializer B) (m : BaseMessage B) (r : SendResult) : Prop where
  returned : Returns r.outcome
  sent : r.outcome = .ok true → Handed ser m r
  cause : r.outcome = .ok false → lastSendError ≠ .OK

/-- A request that is not on its way has failed: with a cause, and nobody waits for it. -/
structure FailsAtOnce (ser : Serializer B) (m : BaseMessage B) (r : SendResult)
    (s : RequestorSend) : Prop where
  returned : Returns s.outcome
  sent : s.outcome = .ok true → Handed ser m r
  cause : s.outcome = .ok false → ∃ err, s.err = some err ∧ err ≠ .OK
  forgotten : s.outcome = .ok false → m.rid ∉ s.requestDesc

/-- The codec writes something, and the frame is shorter than 2 GiB. -/
def Encodes (ser : Serializer B) (m : BaseMessage B) : Prop :=
  ∃ data, ser.encode m = .ok data ∧ data ≠ [] ∧ 8 + m.rid.length + data.length < 2 ^ 31

section Send
variable {ser : Serializer B} {m : BaseMessage B} {r : SendResult}

theorem Encodes.iff : Encodes ser m ↔ ser.encoded m ≠ [] ∧ LVProtocol.totalLen ser m < 2 ^ 31 := by
  constructor
  · rintro ⟨data, hencode, hne, hsize⟩
    rw [LVProtocol.totalLen, Serializer.encoded_of_encode hencode]
    exact ⟨hne, hsize⟩
  · rintro ⟨hne, hsize⟩
    exact ⟨_, LVProtocol.encode_eq_of_encoded hne, hne, hsize⟩

namespace LVProtocol

/-- The length field is right if and only if nothing overflowed. -/
theorem serialize_whole_iff {bytes : Bytes} (h : serialize ser m = .ok bytes) :
    bytes ≠ [] ∧ (bytes.length : Int) = 4 + (peekInt32 bytes).toInt ↔ Encodes ser m := by
  rw [Encodes.iff]
  constructor
  · rintro ⟨hbytes, hwhole⟩
    have hne : ser.encoded m ≠ [] := fun hnil => hbytes (serialize_of_encoded_nil hnil h)
    have hlen := serialize_length hne h
    have hfield := (peekInt32 bytes).toInt_lt
    exact ⟨hne, by omega⟩
  · rintro ⟨hne, hsize⟩
    have hlen := serialize_length hne h
    have hfield : (peekInt32 bytes).toInt = totalLen ser m := by
      rw [← frame_of_serialize h, frame_eq hne hsize, peekInt32_putInt32, Int32.toInt_ofWord hsize]
    refine ⟨?_, by omega⟩
    rintro rfl
    rw [List.length_nil] at hlen
    omega

end LVProtocol

section Connection
variable {connected : Nat → Bool}

theorem MuduoConnection.send_closed (h : connected 0 = false) :
    MuduoConnection.send ser connected m = { outcome := .ok false } := by
  simp [send, h]

/-- Over an open connection it never returns false. -/
theorem MuduoConnection.send_open (h : connected 0 = true) :
    (∃ e, LVProtocol.serialize ser m = .error e ∧
      MuduoConnection.send ser connected m = { outcome := .error e }) ∨
    ∃ data, LVProtocol.serialize ser m = .ok data ∧
      MuduoConnection.send ser connected m = { outcome := .ok true, handed := [data] } := by
  cases hserialize : LVProtocol.serialize ser m with
  | error e => exact .inl ⟨e, rfl, by simp [send, h, hserialize]⟩
  | ok data => exact .inr ⟨data, rfl, by simp [send, h, hserialize]⟩

theorem MuduoConnection.handed_iff :
    Handed ser m (MuduoConnection.send ser connected m)
      ↔ connected 0 = true ∧ Encodes ser m := by
  constructor
  · rintro ⟨bytes, hmem, hserialize, hwhole⟩
    refine ⟨?_, (LVProtocol.serialize_whole_iff hserialize).mp hwhole⟩
    by_contra hclosed
    rw [send_closed (Bool.eq_false_of_not_eq_true hclosed)] at hmem
    cases hmem
  · rintro ⟨hopen, hencodes⟩
    obtain ⟨hne, hsize⟩ := Encodes.iff.mp hencodes
    have hserialize := LVProtocol.serialize_eq_frame hne hsize
    refine ⟨LVProtocol.frame ser m, ?_, hserialize,
      (LVProtocol.serialize_whole_iff hserialize).mpr hencodes⟩
    simp [send, hopen, hserialize]

theorem MuduoClient.send_open (h : connected 0 = true) :
    MuduoClient.send ser (some connected) m =
      { MuduoConnection.send ser (fun n => connected (n + 1)) m with
        outcome := (MuduoConnection.send ser (fun n => connected (n + 1)) m).outcome.map
          fun _ => true } := by
  simp [MuduoClient.send, h]

theorem MuduoClient.handed_iff (hopen : connected 0 = true) :
    Handed ser m (MuduoClient.send ser (some connected) m)
      ↔ connected 1 = true ∧ Encodes ser m := by
  rw [send_open hopen]
  exact @MuduoConnection.handed_iff B ser m fun n => connected (n + 1)

end Connection

theorem Truthful.iff : Truthful ser m r ↔
    r.outcome = .ok false ∨ r.outcome = .ok true ∧ Handed ser m r := by
  constructor
  · intro h
    obtain ⟨ok, hok⟩ := h.returned
    cases ok with
    | false => exact .inl hok
    | true => exact .inr ⟨hok, h.sent hok⟩
  · rintro (hok | ⟨hok, hhanded⟩)
    · refine ⟨⟨_, hok⟩, fun h => ?_, fun _ => by decide⟩
      rw [hok] at h
      cases h
    · exact ⟨⟨_, hok⟩, fun _ => hhanded, fun _ => by decide⟩

/-- What was handed over was handed over by a `send` that did not return false. -/
theorem Truthful.iff_handed (h : r.outcome ≠ .ok false)
    (hreturns : Handed ser m r → r.outcome = .ok true) : Truthful ser m r ↔ Handed ser m r := by
  rw [Truthful.iff]
  constructor
  · rintro (hok | ⟨_, hhanded⟩)
    · exact absurd hok h
    · exact hhanded
  · exact fun hhanded => .inr ⟨hreturns hhanded, hhanded⟩

theorem MuduoConnection.truthful_iff {connected : Nat → Bool} (hopen : connected 0 = true) :
    Truthful ser m (MuduoConnection.send ser connected m) ↔ Encodes ser m := by
  have hiff : Truthful ser m (MuduoConnection.send ser connected m) ↔
      Handed ser m (MuduoConnection.send ser connected m) := by
    obtain ⟨e, hserialize, hsend⟩ | ⟨data, hserialize, hsend⟩ :=
      MuduoConnection.send_open hopen <;> rw [hsend]
    · exact Truthful.iff_handed (by simp) fun ⟨_, hmem, _⟩ => nomatch hmem
    · exact Truthful.iff_handed (by simp) fun _ => rfl
  rw [hiff, MuduoConnection.handed_iff, hopen, eq_self_iff_true, true_and]

theorem MuduoClient.truthful_iff {connected : Nat → Bool} (hopen : connected 0 = true) :
    Truthful ser m (MuduoClient.send ser (some connected) m) ↔
      connected 1 = true ∧ Encodes ser m := by
  rw [← MuduoClient.handed_iff hopen, send_open hopen]
  refine Truthful.iff_handed ?_ ?_
  · cases (MuduoConnection.send ser (fun n => connected (n + 1)) m).outcome <;> simp [Except.map]
  · rintro ⟨bytes, hmem, hserialize, hwhole⟩
    cases hagain : connected 1 with
    | false =>
      rw [MuduoConnection.send_closed hagain] at hmem
      cases hmem
    | true =>
      obtain ⟨e, herror, _⟩ | ⟨data, _, hsend⟩ :=
        @MuduoConnection.send_open B ser m (fun n => connected (n + 1)) hagain
      · rw [hserialize] at herror
        cases herror
      · rw [hsend]
        rfl

/-- A `Requestor` is served as its connection is. -/
theorem FailsAtOnce.iff {requestDesc : AList (fun _ : Bytes => ReqType)} {type : ReqType} :
    FailsAtOnce ser m r (Requestor.send requestDesc type m r) ↔ Truthful ser m r := by
  have houtcome : (Requestor.send requestDesc type m r).outcome = r.outcome := by
    unfold Requestor.send
    split <;> rename_i hr <;> exact hr.symm
  constructor
  · intro h
    refine ⟨houtcome ▸ h.returned, fun hok => h.sent (houtcome.trans hok), fun _ => by decide⟩
  · intro h
    refine ⟨houtcome.symm ▸ h.returned, fun hok => h.sent (houtcome ▸ hok), ?_, ?_⟩
    · intro hok
      simp [Requestor.send, houtcome ▸ hok, lastSendError]
    · intro hok
      simp [Requestor.send, houtcome ▸ hok, AList.mem_erase]

end Send

/-- `send` of a connection tells the truth exactly when an open one is given
something to write that a frame can carry; `send` of a client, when moreover the
connection is still open when it is asked again; and a `Requestor` is served as its
connection is. -/
theorem send_truthful_iff (ser : Serializer B) (m : BaseMessage B) (connected : Nat → Bool)
    (connection : Option (Nat → Bool)) (type : ReqType)
    (requestDesc : AList (fun _ : Bytes => ReqType)) :
    (Truthful ser m (MuduoConnection.send ser connected m)
      ↔ (connected 0 = true → Encodes ser m)) ∧
    (Truthful ser m (MuduoClient.send ser connection m)
      ↔ ∀ asked, connection = some asked → asked 0 = true →
        asked 1 = true ∧ Encodes ser m) ∧
    (FailsAtOnce ser m (MuduoConnection.send ser connected m)
        (Requestor.send requestDesc type m (MuduoConnection.send ser connected m))
      ↔ (connected 0 = true → Encodes ser m)) := by
  have hconnection : Truthful ser m (MuduoConnection.send ser connected m)
      ↔ (connected 0 = true → Encodes ser m) := by
    cases hopen : connected 0 with
    | false => simp [Truthful.iff, MuduoConnection.send_closed hopen]
    | true => simp [MuduoConnection.truthful_iff hopen]
  refine ⟨hconnection, ?_, FailsAtOnce.iff.trans hconnection⟩
  cases connection with
  | none => simp [Truthful.iff, MuduoClient.send]
  | some asked =>
    simp only [Option.some.injEq, forall_eq']
    cases hopen : asked 0 with
    | false => simp [Truthful.iff, MuduoClient.send, hopen]
    | true => simp [MuduoClient.truthful_iff hopen]

/-- The response to a REGISTER that succeeded has nothing to write, and is reported as
sent over an open connection; a connection that closes between the two looks of a
client takes nothing, and the client reports the message as sent. -/
theorem send_untruthful :
    ¬Truthful (protobufSerializer .unused sampleProtobuf) registerResponse
        (MuduoConnection.send (protobufSerializer .unused sampleProtobuf) (fun _ => true)
          registerResponse) ∧
      ¬Truthful (protobufSerializer .unused sampleProtobuf)
        ⟨str "r1", .named .RSP_SERVICE_PROTO, .protoServiceResponse discoverEnvelope⟩
        (MuduoClient.send (protobufSerializer .unused sampleProtobuf)
          (some (fun n => n = 0))
          ⟨str "r1", .named .RSP_SERVICE_PROTO, .protoServiceResponse discoverEnvelope⟩) := by
  constructor
  · intro h
    obtain ⟨bytes, _, hserialize, hne, _⟩ := h.sent rfl
    exact hne (Except.ok.inj hserialize).symm
  · intro h
    obtain ⟨bytes, hin, _⟩ := h.sent rfl
    simp [MuduoClient.send, MuduoConnection.send] at hin

end LyqtRpc
