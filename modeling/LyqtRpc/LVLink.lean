import LyqtRpc.Lib.OrderedLink
import LyqtRpc.LVPoison
import LyqtRpc.MessageRoundTrip

/-!
One direction of a TCP connection: the bytes that `send` handed to the socket, and the
receive loop of the other side, which gets them cut anyhow.
-/

set_option autoImplicit false

namespace LyqtRpc

open ChunkStream

/-- The message is written, under the limit, and read as `o`. -/
structure LVProtocol.Carries {B : Type} (ser : Serializer B) (m o : BaseMessage B) : Prop where
  nonempty : ser.encoded m ≠ []
  size : MuduoServer.fits ser m = true
  reads : ∃ fresh d, ser.create m.msgType = some fresh ∧
    ser.decode (ser.encoded m) fresh = .ok (some d) ∧ o = (d.setId m.rid).setMsgType m.msgType

/-- `wire`: handed to the socket and not yet arrived. -/
structure LVWire (B : Type) where
  wire : Bytes := []
  receiver : Receiver B := {}

inductive WireAct where
  /-- The next bytes arrive, at most `n`, and muduo calls the callback. -/
  | arrive (n : Nat)
  /-- One turn of the loop; the server has the connection in `_connections`. -/
  | turn
  deriving DecidableEq, Repr

def lvLink {B : Type} (side : Side) (ser : Serializer B) :
    Link (BaseMessage B) (BaseMessage B) where
  State := LVWire B
  Act := WireAct
  init := {}
  take s m :=
    match LVProtocol.serialize ser m with
    | .ok bytes => some { s with wire := s.wire ++ bytes }
    | .error _ => none
  move s
    | .arrive n =>
      (receiverStep side ser s.receiver (.deliver (s.wire.take n))).map
        fun receiver => ({ wire := s.wire.drop n, receiver }, [])
    | .turn =>
      (receiverStep side ser s.receiver (.turn true)).map
        fun receiver =>
          ({ s with receiver }, receiver.dispatched.drop s.receiver.dispatched.length)

section Wire
variable {B : Type} {ser : Serializer B} {m o : BaseMessage B}

namespace LVProtocol.Carries

theorem rid (h : Carries ser m o) : o.rid = m.rid := by
  obtain ⟨_, _, _, _, rfl⟩ := h.reads
  rfl

theorem msgType (h : Carries ser m o) : o.msgType = m.msgType := by
  obtain ⟨_, _, _, _, rfl⟩ := h.reads
  rfl

theorem totalLen_lt (h : Carries ser m o) : totalLen ser m < 2 ^ 31 := by
  have hlen := MuduoServer.totalLen_of_fits h.nonempty h.size
  have hmax : MuduoServer.maxDataLen = 10485760 := rfl
  omega

theorem serialize_eq (h : Carries ser m o) : serialize ser m = .ok (frame ser m) :=
  serialize_eq_frame h.nonempty h.totalLen_lt

theorem onMessage (h : Carries ser m o) (rest : Bytes) :
    LVProtocol.onMessage ser (frame ser m ++ rest) = .ok o rest := by
  obtain ⟨fresh, d, hcreate, hdecode, rfl⟩ := h.reads
  exact onMessage_frame h.nonempty h.totalLen_lt hcreate hdecode rest

/-- Either loop takes the frame off as soon as it is whole. -/
theorem framed (h : Carries ser m o) (side : Side) :
    Framed (side.nextMessage ser true) (fun _ => frame ser m) o := by
  constructor
  · intro rest
    have hcan := canProcessed_frame h.nonempty h.totalLen_lt rest
    cases side with
    | server =>
        simp only [Side.nextMessage, MuduoServer.nextMessage, hcan, h.onMessage rest,
          Bool.true_eq_false, if_false, if_true]
    | client =>
        simp only [Side.nextMessage, MuduoClient.nextMessage, hcan, h.onMessage rest,
          Bool.true_eq_false, if_false]
  · intro p q hpq hq
    have hcan := canProcessed_incomplete h.nonempty h.totalLen_lt hpq hq
    have hp := congrArg List.length hpq
    have hsize := MuduoServer.totalLen_of_fits h.nonempty h.size
    rw [List.length_append, frame_length h.nonempty h.totalLen_lt] at hp
    have hsmall : ¬ MuduoServer.maxDataLen < p.length := by omega
    cases side with
    | server =>
        simp only [Side.nextMessage, MuduoServer.nextMessage, if_pos hcan, if_neg hsmall]
    | client =>
        simp only [Side.nextMessage, MuduoClient.nextMessage, if_pos hcan, if_neg hsmall]

end LVProtocol.Carries

/-- A message built through its setters is carried, if the library reads it back and there
is something to write. -/
theorem LVProtocol.carries_received {json : Jsoncpp} {proto : Protobuf}
    {m : BaseMessage MessageBody} (hbuilt : BuiltBySetters m)
    (hlib : LibraryRoundTrips json proto m)
    (hne : (protobufSerializer json proto).encoded m ≠ [])
    (hsize : MuduoServer.fits (protobufSerializer json proto) m = true) :
    Carries (protobufSerializer json proto) m { m with body := m.body.received m.rid } := by
  obtain ⟨htype, hclean⟩ := hbuilt.type_clean
  obtain ⟨fresh, d, hcreate, hdecode, hd⟩ := decode_encoded hclean hlib
  rw [← htype] at hcreate
  exact ⟨hne, hsize, fresh, d, hcreate, hdecode, by rw [← hd]; rfl⟩

theorem Side.nextMessage_nil (side : Side) : side.nextMessage ser true [] = .more := by
  cases side <;> rfl

/-- What stands in the buffer and on the wire is the frames of the queue, and the
connection is up. -/
structure WireHolds (ser : Serializer B) (s : LVWire B) (queue : List (BaseMessage B)) :
    Prop where
  bytes : s.receiver.buffer ++ s.wire = queue.flatMap (LVProtocol.frame ser)
  carried : ∀ m ∈ queue, ∃ o, LVProtocol.Carries ser m o
  told : s.receiver.told = false
  gone : s.receiver.gone = false

/-- The loop finds nothing, or the first message of the queue. -/
theorem WireHolds.turn {side : Side} {s : LVWire B} {r : Receiver B}
    {queue : List (BaseMessage B)} (h : WireHolds ser s queue)
    (hstep : receiverStep side ser s.receiver (.turn true) = some r) :
    ∃ ms later os, queue = ms ++ later ∧ List.Forall₂ (LVProtocol.Carries ser) ms os ∧
      r.dispatched = s.receiver.dispatched ++ os ∧
      WireHolds ser { s with receiver := r } later := by
  have hframed : ∀ m ∈ queue, ∃ o, LVProtocol.Carries ser m o ∧
      Framed (side.nextMessage ser true) (fun _ => LVProtocol.frame ser m) o := fun m hm =>
    (h.carried m hm).imp fun o ho => ⟨ho, ho.framed side⟩
  have hfront := next_front (Side.nextMessage_nil side) hframed h.bytes
  simp only [receiverStep] at hstep
  split at hstep
  · rcases hfront with hmore | ⟨m, later, o, rest, rfl, ho, hitem, hrest⟩
    · rw [hmore] at hstep
      cases hstep
      exact ⟨[], queue, [], rfl, .nil, (List.append_nil _).symm, h.bytes, h.carried, h.told,
        h.gone⟩
    · rw [hitem] at hstep
      cases hstep
      exact ⟨[m], later, [o], rfl, .cons ho .nil, rfl, hrest,
        fun m' hm' => h.carried m' (List.mem_cons_of_mem _ hm'), h.told, h.gone⟩
  · cases hstep

theorem WireHolds.drained {s : LVWire B} {queue : List (BaseMessage B)}
    (h : WireHolds ser s queue) (hwire : s.wire = []) (hbuffer : s.receiver.buffer = []) :
    queue = [] := by
  have hbytes := h.bytes
  rw [hwire, hbuffer, List.append_nil] at hbytes
  cases queue with
  | nil => rfl
  | cons m rest =>
      obtain ⟨o, ho⟩ := h.carried m (List.mem_cons_self ..)
      have hlen := LVProtocol.frame_length ho.nonempty ho.totalLen_lt
      have hnil := congrArg List.length hbytes
      rw [List.flatMap_cons, List.length_append, List.length_nil] at hnil
      omega

/-- However the bytes are cut, the frames of one direction come out as messages, in
order. -/
def lvLink_ordered (side : Side) (ser : Serializer B) :
    (lvLink side ser).Ordered (LVProtocol.Carries ser) where
  Holds := WireHolds ser
  init := ⟨rfl, fun m hm => absurd hm List.not_mem_nil, rfl, rfl⟩
  take := by
    intro s t m queue h hstep hfits
    obtain ⟨o, ho⟩ := hfits
    simp only [lvLink, ho.serialize_eq] at hstep
    cases hstep
    refine ⟨?_, ?_, h.told, h.gone⟩
    · rw [← List.append_assoc, h.bytes, List.flatMap_append, List.flatMap_singleton]
    · intro m' hmem
      rcases List.mem_append.mp hmem with hold | hnew
      · exact h.carried m' hold
      · rw [List.mem_singleton.mp hnew]
        exact ⟨o, ho⟩
  move := by
    intro s t a os queue h hstep
    cases a with
    | arrive n =>
        obtain ⟨r, hr, heq⟩ := Option.map_eq_some_iff.mp hstep
        cases heq
        simp only [receiverStep] at hr
        split at hr
        · cases hr
        · cases hr
          refine ⟨[], queue, rfl, .nil, ?_, h.carried, h.told, h.gone⟩
          show s.receiver.buffer ++ s.wire.take n ++ s.wire.drop n = _
          rw [List.append_assoc, List.take_append_drop, h.bytes]
    | turn =>
        obtain ⟨r, hr, heq⟩ := Option.map_eq_some_iff.mp hstep
        cases heq
        obtain ⟨ms, later, os, hqueue, hms, hdispatched, hholds⟩ := h.turn hr
        rw [hdispatched, List.drop_left]
        exact ⟨ms, later, hqueue, hms, hholds⟩

end Wire

end LyqtRpc
