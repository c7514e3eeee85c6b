import LyqtRpc.LVLink
import LyqtRpc.ProtoRouter
import LyqtRpc.RingLink

/-!
`dispacher.hpp`: the handler of a message by its type, and the handlers of an
`RpcServer`.
-/

set_option autoImplicit false

namespace LyqtRpc

open StepRun

/-- `R` is what a callback does. `none` stands for a callback that was given a null
pointer. -/
structure Dispacher (R : Type) where
  handlers : AList (fun _ : EnumValue MsgType => BaseMessage MessageBody → Option R) := ∅

namespace Dispacher
variable {R : Type}

/-- `CallbackType<T>::onMessage`; `cast` is the `dynamic_pointer_cast<T>`. -/
def callbackType {T : Type} (cast : MessageBody → Option T) (handler : BaseMessage T → R)
    (msg : BaseMessage MessageBody) : Option R :=
  (cast msg.body).map fun body => handler (msg.mapBody fun _ => body)

/-- `_handlers.emplace`: what is there stays. -/
def registerhandler {T : Type} (d : Dispacher R) (msgtype : EnumValue MsgType)
    (cast : MessageBody → Option T) (handler : BaseMessage T → R) : Dispacher R :=
  if msgtype ∈ d.handlers then d
  else { handlers := d.handlers.insert msgtype (callbackType cast handler) }

/-- `shutdown`: what is done with a connection that sent an unknown type. -/
def onMessage (d : Dispacher R) (shutdown : R) (msg : BaseMessage MessageBody) : Option R :=
  match d.handlers.lookup msg.msgType with
  | some callback => callback msg
  | none => some shutdown

end Dispacher

/-- What a server's callback does with a message. -/
structure Served (M : Type) where
  sent : List M := []
  /-- `conn->shutdown()` -/
  shutdown : Bool := false
  /-- An exception left the callback. -/
  escaped : Bool := false

/-- `dynamic_pointer_cast` to a JSON message class. -/
def MessageBody.asJson (cls : JsonClass) : MessageBody → Option JsonValue
  | .json cls' data => if cls' = cls then some data else none
  | _ => none

def MessageBody.asProtoRpcRequest : MessageBody → Option RpcRequestEnvelope
  | .protoRpcRequest e => some e
  | _ => none

namespace RpcServer

def rpcCallback (json : Jsoncpp) (manager : ServiceManager) (limiter : Option Admission)
    (req : BaseMessage JsonValue) : Served (BaseMessage MessageBody) :=
  let routed := RpcRouter.onrpcRequst json manager limiter req
  { sent := routed.sent.map (BaseMessage.mapBody (.json .RpcResponse))
    escaped := routed.escaped.isSome }

def protoRpcCallback (router : ProtoRpcRouter) (limiter : Option Admission)
    (req : BaseMessage RpcRequestEnvelope) : Served (BaseMessage MessageBody) :=
  match router.onProtoRequest limiter req with
  | .ok sent => { sent := sent.map (BaseMessage.mapBody .protoRpcResponse) }
  | .error _ => { escaped := true }

/-- The handlers that the constructor registers. -/
def dispacher (json : Jsoncpp) (manager : ServiceManager) (router : ProtoRpcRouter)
    (limiter : Option Admission) : Dispacher (Served (BaseMessage MessageBody)) :=
  (({} : Dispacher _).registerhandler (.named .REQ_RPC) (MessageBody.asJson .RpcRequest)
    (rpcCallback json manager limiter)).registerhandler (.named .REQ_RPC_PROTO)
      MessageBody.asProtoRpcRequest (protoRpcCallback router limiter)

def onMessage (json : Jsoncpp) (manager : ServiceManager) (router : ProtoRpcRouter)
    (limiter : Option Admission) (msg : BaseMessage MessageBody) :
    Option (Served (BaseMessage MessageBody)) :=
  (dispacher json manager router limiter).onMessage { shutdown := true } msg

end RpcServer

/-- A request is answered once, under its id, unless an exception left the callback; then it
is not answered. -/
def Replies (rid : Bytes) (served : Served (BaseMessage MessageBody)) : Prop :=
  served.shutdown = false ∧
  (served.sent = [] ∧ served.escaped = true ∨
    ∃ resp, served.sent = [resp] ∧ served.escaped = false ∧ resp.rid = rid ∧
      (resp.msgType = .named .RSP_RPC ∨ resp.msgType = .named .RSP_RPC_PROTO))

namespace RpcServer
variable {json : Jsoncpp} {manager : ServiceManager} {limiter : Option Admission}

theorem tried_sent {α : Type} {x : Except CppException α} {next : α → Routed}
    {p : List (BaseMessage JsonValue) → Option CppException → Prop}
    (hthrow : ∀ e, p [] (some e)) (hnext : ∀ a, p (next a).sent (next a).escaped) :
    p (tried x next).sent (tried x next).escaped := by
  cases x with
  | error e => exact hthrow e
  | ok a => exact hnext a

/-- No exception and one response, or an exception and none. -/
def SentOnce (rid : Bytes) (sent : List (BaseMessage JsonValue))
    (escaped : Option CppException) : Prop :=
  sent = [] ∧ escaped ≠ none ∨
    ∃ resp, sent = [resp] ∧ escaped = none ∧ resp.rid = rid ∧ resp.msgType = .named .RSP_RPC

theorem dispatch_sentOnce (service : ServiceDescribe) (req : BaseMessage JsonValue) :
    SentOnce req.rid (RpcRouter.dispatch service req).sent
      (RpcRouter.dispatch service req).escaped := by
  unfold RpcRouter.dispatch
  apply tried_sent (p := SentOnce req.rid) (fun e => .inl ⟨rfl, by simp⟩)
  intro params
  apply tried_sent (p := SentOnce req.rid) (fun e => .inl ⟨rfl, by simp⟩)
  intro passed
  split
  · exact .inr ⟨_, rfl, rfl, rfl, rfl⟩
  · split
    · exact .inl ⟨rfl, by simp⟩
    · exact .inr ⟨_, rfl, rfl, rfl, rfl⟩
    · exact .inr ⟨_, rfl, rfl, rfl, rfl⟩

theorem onrpcRequst_sentOnce (json : Jsoncpp) (manager : ServiceManager)
    (limiter : Option Admission) (req : BaseMessage JsonValue) :
    SentOnce req.rid (RpcRouter.onrpcRequst json manager limiter req).sent
      (RpcRouter.onrpcRequst json manager limiter req).escaped := by
  unfold RpcRouter.onrpcRequst
  split
  · apply tried_sent (p := SentOnce req.rid) (fun e => .inl ⟨rfl, by simp⟩)
    intro method
    exact .inr ⟨_, rfl, rfl, rfl, rfl⟩
  · apply tried_sent (p := SentOnce req.rid) (fun e => .inl ⟨rfl, by simp⟩)
    intro method
    apply tried_sent (p := SentOnce req.rid) (fun e => .inl ⟨rfl, by simp⟩)
    intro traceId
    apply tried_sent (p := SentOnce req.rid) (fun e => .inl ⟨rfl, by simp⟩)
    intro spanId
    split
    · exact .inr ⟨_, rfl, rfl, rfl, rfl⟩
    · exact dispatch_sentOnce _ req

theorem rpcCallback_replies (req : BaseMessage JsonValue) :
    Replies req.rid (rpcCallback json manager limiter req) := by
  refine ⟨rfl, ?_⟩
  rcases onrpcRequst_sentOnce json manager limiter req with
    ⟨hsent, hescaped⟩ | ⟨resp, hsent, hescaped, hrid, htype⟩
  · left
    exact ⟨by simp only [rpcCallback, hsent, List.map_nil], Option.isSome_iff_ne_none.mpr hescaped⟩
  · right
    refine ⟨resp.mapBody (.json .RpcResponse), ?_, ?_, hrid, .inl htype⟩
    · simp only [rpcCallback, hsent, List.map_cons, List.map_nil]
    · simp only [rpcCallback, hescaped, Option.isSome_none]

theorem protoRpcCallback_replies (regs : List ProtoRegistration)
    (req : BaseMessage RpcRequestEnvelope) :
    Replies req.rid (protoRpcCallback (ProtoRpcRouter.registered regs) limiter req) := by
  obtain ⟨rcode, body, houtcome⟩ := exists_protoOutcome regs limiter req
  obtain ⟨resp, hsent, hanswers⟩ := houtcome.sent
  refine ⟨?_, .inr ⟨resp.mapBody .protoRpcResponse, ?_, ?_, hanswers.rid, .inr hanswers.msgType⟩⟩
  · simp only [protoRpcCallback, hsent]
  · simp only [protoRpcCallback, hsent, List.map_cons, List.map_nil]
  · simp only [protoRpcCallback, hsent]

end RpcServer

theorem Dispacher.lookup_registerhandler {R T : Type} {d : Dispacher R}
    {msgtype : EnumValue MsgType} {cast : MessageBody → Option T} {handler : BaseMessage T → R}
    (hnew : msgtype ∉ d.handlers) (t : EnumValue MsgType) :
    (d.registerhandler msgtype cast handler).handlers.lookup t =
      if t = msgtype then some (callbackType cast handler) else d.handlers.lookup t := by
  rw [registerhandler, if_neg hnew]
  split
  · rename_i ht
    rw [ht, AList.lookup_insert]
  · rename_i ht
    exact AList.lookup_insert_ne ht

theorem Dispacher.onMessage_registerhandler {R T : Type} {d : Dispacher R}
    {msgtype : EnumValue MsgType} {cast : MessageBody → Option T} {handler : BaseMessage T → R}
    (hnew : msgtype ∉ d.handlers) (shutdown : R) (msg : BaseMessage MessageBody) :
    (d.registerhandler msgtype cast handler).onMessage shutdown msg =
      if msg.msgType = msgtype then callbackType cast handler msg
      else d.onMessage shutdown msg := by
  rw [onMessage, lookup_registerhandler hnew]
  by_cases ht : msg.msgType = msgtype
  · rw [if_pos ht, if_pos ht]
  · rw [if_neg ht, if_neg ht, onMessage]

theorem RpcServer.lookup_dispacher {json : Jsoncpp} {manager : ServiceManager}
    {router : ProtoRpcRouter} {limiter : Option Admission} (t : EnumValue MsgType) :
    (dispacher json manager router limiter).handlers.lookup t =
      if t = .named .REQ_RPC_PROTO then
        some (Dispacher.callbackType MessageBody.asProtoRpcRequest
          (protoRpcCallback router limiter))
      else if t = .named .REQ_RPC then
        some (Dispacher.callbackType (MessageBody.asJson .RpcRequest)
          (rpcCallback json manager limiter))
      else none := by
  have hempty : ∀ t, t ∉ ({} : Dispacher (Served (BaseMessage MessageBody))).handlers :=
    fun t => AList.notMem_empty t
  rw [dispacher, Dispacher.lookup_registerhandler, Dispacher.lookup_registerhandler (hempty _),
    AList.lookup_eq_none.mpr (hempty t)]
  rw [← AList.lookup_eq_none, Dispacher.lookup_registerhandler (hempty _), if_neg (by decide),
    AList.lookup_eq_none.mpr (hempty _)]

/-- The message is of the class of its type, as those the factory makes. -/
def BaseMessage.Typed (m : BaseMessage MessageBody) : Prop := m.msgType = .named m.body.type

section Typed
variable {json : Jsoncpp} {proto : Protobuf} {m o : BaseMessage MessageBody}

theorem MessageFactory.create_typed {t : EnumValue MsgType} {fresh : BaseMessage MessageBody}
    (h : MessageFactory.create t = some fresh) : t = .named fresh.body.type := by
  cases t with
  | unnamed c hc => cases h
  | named t =>
      obtain ⟨body, hmake, rfl⟩ := Option.map_eq_some_iff.mp h
      rw [(MessageBody.make_type hmake).1]

/-- `unserialize` fills an object and leaves its class. -/
theorem ProtobufSerializer.decode_type {data : Bytes} {fresh d : BaseMessage MessageBody}
    (h : decode json proto data fresh = .ok (some d)) : d.body.type = fresh.body.type := by
  obtain ⟨rid, msgType, body⟩ := fresh
  cases body with
  | json cls old =>
      obtain ⟨read, _, hd⟩ := bind_eq_ok.mp h
      obtain ⟨d', rfl, rfl⟩ := Option.map_eq_some_iff.mp (Except.ok.inj hd)
      rfl
  | _ =>
      obtain ⟨d', _, rfl⟩ := Option.map_eq_some_iff.mp (Except.ok.inj h)
      rfl

theorem ShmClient.message_typed {f : Frame}
    (h : ShmClient.message (protobufSerializer json proto) f = some o) : o.Typed := by
  unfold ShmClient.message at h
  split at h
  · cases h
  · rename_i fresh hcreate
    split at h
    · rename_i d hdecode
      cases h
      show f.type = .named d.body.type
      rw [MessageFactory.create_typed hcreate, ProtobufSerializer.decode_type hdecode]
    · cases h

/-- Whatever the bytes are, what is parsed from them is of the class of its type. -/
theorem LVProtocol.onMessage_typed {buf rest : Bytes}
    (h : onMessage (protobufSerializer json proto) buf = .ok o rest) : o.Typed := by
  simp only [onMessage, parseBody] at h
  repeat' split at h
  all_goals try cases h
  rename_i fresh hcreate _ d hdecode _
  show EnumValue.ofInt32 _ = .named d.body.type
  exact (MessageFactory.create_typed hcreate).trans
    (congrArg _ (ProtobufSerializer.decode_type hdecode).symm)

theorem MuduoServer.nextMessage_item {B : Type} {ser : Serializer B} {registered : Bool}
    {buf rest : Bytes} {m : BaseMessage B} (h : nextMessage ser registered buf = .item m rest) :
    LVProtocol.onMessage ser buf = .ok m rest := by
  simp only [nextMessage] at h
  split at h
  · split at h <;> cases h
  · split at h
    · cases h
    · cases h
    · cases h
    · rename_i hread
      split at h
      · cases h
        exact hread
      · cases h

/-- So is everything that the loop of the server dispatches, however the bytes come. -/
theorem receiver_typed {r : Receiver MessageBody}
    (h : Reachable (receiverStep .server (protobufSerializer json proto)) {} r) :
    ∀ m ∈ r.dispatched, m.Typed := by
  refine h.invariant (fun r => ∀ m ∈ r.dispatched, m.Typed)
    (fun m hm => absurd hm List.not_mem_nil) fun r a r' hi _ hstep => ?_
  cases a with
  | deliver chunk =>
    simp only [receiverStep] at hstep
    split at hstep
    · cases hstep
    · cases hstep
      exact hi
  | turn registered =>
    simp only [receiverStep] at hstep
    split at hstep
    · split at hstep
      · cases hstep
        exact hi
      · rename_i m rest hitem
        cases hstep
        have hread : LVProtocol.onMessage (protobufSerializer json proto) r.buffer =
            .ok m rest := by
          simp only [Side.nextMessage] at hitem
          split at hitem
          · cases hitem
          · rename_i hnext
            cases hitem
            exact MuduoServer.nextMessage_item hnext
          · cases hitem
        intro m' hm'
        rcases List.mem_append.mp hm' with hold | hnew
        · exact hi m' hold
        · rw [List.mem_singleton.mp hnew]
          exact LVProtocol.onMessage_typed hread
      · cases hstep
        exact hi
    · cases hstep

/-- The callback of a message of the right class is not given a null pointer; what is no
RPC request costs the connection. -/
theorem RpcServer.onMessage_replies {manager : ServiceManager} {regs : List ProtoRegistration}
    {limiter : Option Admission} (h : m.Typed) :
    ∃ served, onMessage json manager (ProtoRpcRouter.registered regs) limiter m = some served ∧
      (served = { shutdown := true } ∨ Replies m.rid served) := by
  obtain ⟨rid, msgType, body⟩ := m
  have htype : msgType = .named body.type := h
  subst htype
  cases body with
  | json cls data =>
      cases cls with
      | RpcRequest => exact ⟨_, rfl, .inr (rpcCallback_replies ⟨rid, _, data⟩)⟩
      | _ => exact ⟨_, rfl, .inl rfl⟩
  | protoRpcRequest e =>
      exact ⟨_, rfl, .inr (protoRpcCallback_replies regs ⟨rid, _, e⟩)⟩
  | _ => exact ⟨_, rfl, .inl rfl⟩

end Typed

end LyqtRpc
