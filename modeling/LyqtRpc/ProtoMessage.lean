import LyqtRpc.LVProtocol

/-!
`rpc_envelope.proto` and the protobuf message classes of `message.hpp`. The
generated code that writes and parses an envelope is a parameter.
-/

set_option autoImplicit false

namespace LyqtRpc

structure RpcRequestEnvelope where
  id : Bytes := []
  method : Bytes := []
  body : Bytes := []
  traceId : Bytes := []
  spanId : Bytes := []
  deriving DecidableEq, Repr

structure RpcResponseEnvelope where
  rcode : Int32 := 0
  body : Bytes := []
  id : Bytes := []
  deriving DecidableEq, Repr

structure TopicRequestEnvelope where
  method : Bytes := []
  topicKey : Bytes := []
  optype : Int32 := 0
  topicMsg : Bytes := []
  forwardStrategy : Int32 := 0
  fanout : Int32 := 0
  shardKey : Bytes := []
  priority : Int32 := 0
  tags : List Bytes := []
  redundant : Int32 := 0
  deriving DecidableEq, Repr

structure TopicResponseEnvelope where
  rcode : Int32 := 0
  result : Bytes := []
  deriving DecidableEq, Repr

structure HostEntry where
  ip : Bytes := []
  port : Int32 := 0
  load : Int32 := 0
  deriving DecidableEq, Repr

structure ServiceRequestEnvelope where
  method : Bytes := []
  optype : Int32 := 0
  hostIp : Bytes := []
  hostPort : Int32 := 0
  load : Int32 := 0
  traceId : Bytes := []
  deriving DecidableEq, Repr

structure ServiceResponseEnvelope where
  rcode : Int32 := 0
  optype : Int32 := 0
  method : Bytes := []
  host : List HostEntry := []
  deriving DecidableEq, Repr

/-- `SerializeToString` and `ParseFromArray`; `none` for false. -/
structure ProtoCodec (E : Type) where
  serializeToString : E → Option Bytes
  parseFromArray : Bytes → Option E

namespace ProtoMessage
variable {E : Type}

def serialize (codec : ProtoCodec E) (envelope : E) : Bytes :=
  match codec.serializeToString envelope with
  | none => []
  | some serialized => serialized

def unserialize (codec : ProtoCodec E) (msg : Bytes) (m : BaseMessage E) :
    Option (BaseMessage E) :=
  match codec.parseFromArray msg with
  | none => none
  | some envelope => some { m with body := envelope }

end ProtoMessage

namespace ProtoRpcRequest

/-- The envelope after `set_id`. -/
def withId (rid : Bytes) (e : RpcRequestEnvelope) : RpcRequestEnvelope :=
  if rid = [] then e else { e with id := rid }

def serialize (codec : ProtoCodec RpcRequestEnvelope) (m : BaseMessage RpcRequestEnvelope) :
    Bytes :=
  ProtoMessage.serialize codec (withId m.rid m.body)

def unserialize (codec : ProtoCodec RpcRequestEnvelope) (msg : Bytes)
    (m : BaseMessage RpcRequestEnvelope) : Option (BaseMessage RpcRequestEnvelope) :=
  match ProtoMessage.unserialize codec msg m with
  | none => none
  | some m => some (if m.body.id = [] then m else m.setId m.body.id)

def check (e : RpcRequestEnvelope) : Bool := e.method ≠ []

def method (e : RpcRequestEnvelope) : Bytes := e.method

def setMethod (e : RpcRequestEnvelope) (m : Bytes) : RpcRequestEnvelope := { e with method := m }

def body (e : RpcRequestEnvelope) : Bytes := e.body

def setBody (e : RpcRequestEnvelope) (b : Bytes) : RpcRequestEnvelope := { e with body := b }

def traceId (e : RpcRequestEnvelope) : Bytes := e.traceId

def setTraceId (e : RpcRequestEnvelope) (t : Bytes) : RpcRequestEnvelope :=
  { e with traceId := t }

def spanId (e : RpcRequestEnvelope) : Bytes := e.spanId

def setSpanId (e : RpcRequestEnvelope) (s : Bytes) : RpcRequestEnvelope := { e with spanId := s }

end ProtoRpcRequest

/-- `retryAfterMs` is not part of the envelope. -/
structure ProtoRpcResponse where
  envelope : RpcResponseEnvelope := {}
  retryAfterMs : Int64 := 0
  deriving DecidableEq, Repr

namespace ProtoRpcResponse

def withId (rid : Bytes) (e : RpcResponseEnvelope) : RpcResponseEnvelope :=
  if rid = [] then e else { e with id := rid }

def serialize (codec : ProtoCodec RpcResponseEnvelope) (m : BaseMessage ProtoRpcResponse) :
    Bytes :=
  ProtoMessage.serialize codec (withId m.rid m.body.envelope)

def unserialize (codec : ProtoCodec RpcResponseEnvelope) (msg : Bytes)
    (m : BaseMessage ProtoRpcResponse) : Option (BaseMessage ProtoRpcResponse) :=
  match codec.parseFromArray msg with
  | none => none
  | some envelope =>
    let filled := { m with body := { m.body with envelope } }
    some (if envelope.id = [] then filled else filled.setId envelope.id)

def check (_ : ProtoRpcResponse) : Bool := true

def rcode (m : ProtoRpcResponse) : EnumValue RespCode := .ofInt32 m.envelope.rcode

def setRcode (m : ProtoRpcResponse) (c : EnumValue RespCode) : ProtoRpcResponse :=
  { m with envelope := { m.envelope with rcode := c.toInt32 } }

def body (m : ProtoRpcResponse) : Bytes := m.envelope.body

def setBody (m : ProtoRpcResponse) (b : Bytes) : ProtoRpcResponse :=
  { m with envelope := { m.envelope with body := b } }

def setRetryAfterMs (m : ProtoRpcResponse) (ms : Int64) : ProtoRpcResponse :=
  { m with retryAfterMs := ms }

end ProtoRpcResponse

namespace ProtoTopicRequest

def method (e : TopicRequestEnvelope) : Bytes := e.method

def setMethod (e : TopicRequestEnvelope) (m : Bytes) : TopicRequestEnvelope :=
  { e with method := m }

def topicKey (e : TopicRequestEnvelope) : Bytes := e.topicKey

def setTopicKey (e : TopicRequestEnvelope) (k : Bytes) : TopicRequestEnvelope :=
  { e with topicKey := k }

def optype (e : TopicRequestEnvelope) : EnumValue TopicOpType := .ofInt32 e.optype

def setOptype (e : TopicRequestEnvelope) (o : EnumValue TopicOpType) : TopicRequestEnvelope :=
  { e with optype := o.toInt32 }

def topicMsg (e : TopicRequestEnvelope) : Bytes := e.topicMsg

def setTopicMsg (e : TopicRequestEnvelope) (m : Bytes) : TopicRequestEnvelope :=
  { e with topicMsg := m }

def forwardStrategy (e : TopicRequestEnvelope) : EnumValue TopicForwardStrategy :=
  .ofInt32 e.forwardStrategy

def setForwardStrategy (e : TopicRequestEnvelope) (s : EnumValue TopicForwardStrategy) :
    TopicRequestEnvelope :=
  { e with forwardStrategy := s.toInt32 }

def fanoutLimit (e : TopicRequestEnvelope) : Int32 := e.fanout

def setFanoutLimit (e : TopicRequestEnvelope) (v : Int32) : TopicRequestEnvelope :=
  { e with fanout := v }

def shardKey (e : TopicRequestEnvelope) : Bytes := e.shardKey

def setShardKey (e : TopicRequestEnvelope) (k : Bytes) : TopicRequestEnvelope :=
  { e with shardKey := k }

def priority (e : TopicRequestEnvelope) : Int32 := e.priority

def setPriority (e : TopicRequestEnvelope) (v : Int32) : TopicRequestEnvelope :=
  { e with priority := v }

def tags (e : TopicRequestEnvelope) : List Bytes := e.tags

def setTags (e : TopicRequestEnvelope) (v : List Bytes) : TopicRequestEnvelope :=
  { e with tags := v }

def redundantCount (e : TopicRequestEnvelope) : Int32 := e.redundant

def setRedundantCount (e : TopicRequestEnvelope) (v : Int32) : TopicRequestEnvelope :=
  { e with redundant := v }

def check (e : TopicRequestEnvelope) : Bool :=
  if e.topicKey = [] then false
  else if e.optype < 0 then false
  else if optype e = .named .PUBLISH ∧ e.topicMsg = [] then false
  else
    match forwardStrategy e with
    | .named .FANOUT => 0 < fanoutLimit e
    | .named .SOURCE_HASH => shardKey e ≠ []
    | .named .PRIORITY => 0 < priority e ∨ tags e ≠ []
    | .named .REDUNDANT => 1 < redundantCount e
    | _ => true

end ProtoTopicRequest

namespace ProtoTopicResponse

def check (_ : TopicResponseEnvelope) : Bool := true

def rcode (e : TopicResponseEnvelope) : EnumValue RespCode := .ofInt32 e.rcode

def setRcode (e : TopicResponseEnvelope) (c : EnumValue RespCode) : TopicResponseEnvelope :=
  { e with rcode := c.toInt32 }

def result (e : TopicResponseEnvelope) : Bytes := e.result

def setResult (e : TopicResponseEnvelope) (r : Bytes) : TopicResponseEnvelope :=
  { e with result := r }

end ProtoTopicResponse

namespace ProtoServiceRequest

def method (e : ServiceRequestEnvelope) : Bytes := e.method

def setMethod (e : ServiceRequestEnvelope) (m : Bytes) : ServiceRequestEnvelope :=
  { e with method := m }

def optype (e : ServiceRequestEnvelope) : EnumValue ServiceOpType := .ofInt32 e.optype

def setOptype (e : ServiceRequestEnvelope) (o : EnumValue ServiceOpType) :
    ServiceRequestEnvelope :=
  { e with optype := o.toInt32 }

def host (e : ServiceRequestEnvelope) : HostInfo := { ip := e.hostIp, port := e.hostPort }

def setHost (e : ServiceRequestEnvelope) (h : HostInfo) : ServiceRequestEnvelope :=
  { e with hostIp := h.ip, hostPort := h.port }

def load (e : ServiceRequestEnvelope) : Int32 := e.load

def setLoad (e : ServiceRequestEnvelope) (v : Int32) : ServiceRequestEnvelope :=
  { e with load := v }

def traceId (e : ServiceRequestEnvelope) : Bytes := e.traceId

def setTraceId (e : ServiceRequestEnvelope) (t : Bytes) : ServiceRequestEnvelope :=
  { e with traceId := t }

def check (e : ServiceRequestEnvelope) : Bool :=
  if e.method = [] then false
  else if e.optype < 0 then false
  else if optype e ≠ .named .DISCOVER ∧ (e.hostIp = [] ∨ e.hostPort ≤ 0) then false
  else true

end ProtoServiceRequest

namespace ProtoServiceResponse

def rcode (e : ServiceResponseEnvelope) : EnumValue RespCode := .ofInt32 e.rcode

def setRcode (e : ServiceResponseEnvelope) (c : EnumValue RespCode) : ServiceResponseEnvelope :=
  { e with rcode := c.toInt32 }

def method (e : ServiceResponseEnvelope) : Bytes := e.method

def setMethod (e : ServiceResponseEnvelope) (m : Bytes) : ServiceResponseEnvelope :=
  { e with method := m }

def optype (e : ServiceResponseEnvelope) : EnumValue ServiceOpType := .ofInt32 e.optype

def setOptype (e : ServiceResponseEnvelope) (o : EnumValue ServiceOpType) :
    ServiceResponseEnvelope :=
  { e with optype := o.toInt32 }

def hosts (e : ServiceResponseEnvelope) : List HostInfo :=
  e.host.map (fun entry => { ip := entry.ip, port := entry.port })

def setHost (e : ServiceResponseEnvelope) (addresses : List HostInfo) : ServiceResponseEnvelope :=
  { e with host := addresses.map (fun a => { ip := a.ip, port := a.port }) }

def hostsDetail (e : ServiceResponseEnvelope) : List HostDetail :=
  e.host.map (fun entry => { host := { ip := entry.ip, port := entry.port }, load := entry.load })

def setHostDetails (e : ServiceResponseEnvelope) (addresses : List HostDetail) :
    ServiceResponseEnvelope :=
  { e with
    host := addresses.map (fun d => { ip := d.host.ip, port := d.host.port, load := d.load }) }

def check (e : ServiceResponseEnvelope) : Bool :=
  if optype e = .named .DISCOVER ∧ (e.method = [] ∨ e.host = []) then false else true

end ProtoServiceResponse

end LyqtRpc
