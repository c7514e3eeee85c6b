import LyqtRpc.MessageFactory

/-!
The setters of every message class as labels of a step function, what every
accessor of a class reads, and what it means that a message comes back.
-/

set_option autoImplicit false

namespace LyqtRpc

open StepRun

/-- One setter call. The arguments tell overloads apart. -/
inductive Setter where
  | setMethod (m : Bytes)
  | setTraceId (t : Bytes)
  | setSpanId (s : Bytes)
  | setParams (params : JsonValue)
  | setBody (b : Bytes)
  | setRcode (c : EnumValue RespCode)
  | setJsonResult (result : JsonValue)
  | setResult (r : Bytes)
  | setRetryAfterMs (ms : Int64)
  | setForwardStrategy (s : EnumValue TopicForwardStrategy)
  | setFanoutLimit (v : Int32)
  | setShardKey (k : Bytes)
  | setPriority (v : Int32)
  | setTags (v : List Bytes)
  | setRedundantCount (v : Int32)
  | setTopicKey (k : Bytes)
  | setTopicOptype (o : EnumValue TopicOpType)
  | setTopicMsg (m : Bytes)
  | setLoad (v : Int32)
  | setServiceOptype (o : EnumValue ServiceOpType)
  | setHost (h : HostInfo)
  | setHosts (addresses : List HostInfo)
  | setHostDetails (addresses : List HostDetail)

/-- What one accessor call does. -/
inductive Reading where
  | text (x : Except CppException Bytes)
  | texts (x : Except CppException (List Bytes))
  | int (x : Except CppException Int32)
  | int64 (x : Except CppException Int64)
  | value (x : Except CppException JsonValue)
  | rcode (x : Except CppException (EnumValue RespCode))
  | strategy (x : Except CppException (EnumValue TopicForwardStrategy))
  | topicOptype (x : Except CppException (EnumValue TopicOpType))
  | serviceOptype (x : Except CppException (EnumValue ServiceOpType))
  | host (x : Except CppException HostInfo)
  | hosts (x : Except CppException (List HostInfo))
  | hostsDetail (x : Except CppException (List HostDetail))

/-! `apply` is `none` for a setter the class does not have, and where the setter throws: on
JSON data that is no table. -/

namespace JsonRequest

def apply (data : JsonTable) : Setter → Option JsonTable
  | .setMethod m => some (setMethod data m)
  | .setTraceId t => some (setTraceId data t)
  | .setSpanId s => some (setSpanId data s)
  | _ => none

def readings (json : Jsoncpp) (data : JsonValue) : List Reading :=
  [.text (method json data), .text (traceId json data), .text (spanId json data)]

end JsonRequest

namespace JsonResponse

def apply (data : JsonTable) : Setter → Option JsonTable
  | .setRcode c => some (setRcode data c)
  | .setJsonResult r => some (setResult data r)
  | .setRetryAfterMs ms => some (setRetryAfterMs data ms)
  | _ => none

def readings (data : JsonValue) : List Reading :=
  [.rcode (rcode data), .value (result data), .int64 (retryAfterMs data)]

end JsonResponse

namespace RpcRequest

def apply (data : JsonTable) : Setter → Option JsonTable
  | .setParams p => some (setParams data p)
  | s => JsonRequest.apply data s

def readings (json : Jsoncpp) (data : JsonValue) : List Reading :=
  .value (params data) :: JsonRequest.readings json data

end RpcRequest

namespace TopicRequest

def apply (data : JsonTable) : Setter → Option JsonTable
  | .setForwardStrategy s => some (setForwardStrategy data s)
  | .setFanoutLimit v => some (setFanoutLimit data v)
  | .setShardKey k => some (setShardKey data k)
  | .setPriority v => some (setPriority data v)
  | .setTags v => some (setTags data v)
  | .setRedundantCount v => some (setRedundantCount data v)
  | .setTopicKey k => some (setTopicKey data k)
  | .setTopicOptype o => some (setOptype data o)
  | .setTopicMsg m => some (setTopicMsg data m)
  | s => JsonRequest.apply data s

def readings (json : Jsoncpp) (data : JsonValue) : List Reading :=
  .strategy (forwardStrategy data) :: .int (fanoutLimit data) :: .text (shardKey json data) ::
  .int (priority data) :: .texts (tags data) :: .int (redundantCount data) ::
  .text (topicKey json data) :: .topicOptype (optype data) :: .text (topicMsg json data) ::
  JsonRequest.readings json data

end TopicRequest

namespace ServiceRequest

def apply (data : JsonTable) : Setter → Option JsonTable
  | .setLoad v => some (setLoad data v)
  | .setServiceOptype o => some (setOptype data o)
  | .setHost h => some (setHost data h)
  | s => JsonRequest.apply data s

def readings (json : Jsoncpp) (data : JsonValue) : List Reading :=
  .int (load data) :: .serviceOptype (optype data) :: .host (host json data) ::
  JsonRequest.readings json data

end ServiceRequest

namespace ServiceResponse

def apply (data : JsonTable) : Setter → Option JsonTable
  | .setMethod m => some (setMethod data m)
  | .setServiceOptype o => some (setOptype data o)
  | .setHosts addresses => some (setHost data addresses)
  | .setHostDetails addresses => some (setHostDetails data addresses)
  | s => JsonResponse.apply data s

def readings (json : Jsoncpp) (data : JsonValue) : List Reading :=
  .text (method json data) :: .serviceOptype (optype data) :: .hosts (hosts json data) ::
  .hostsDetail (hostsDetail json data) :: JsonResponse.readings data

end ServiceResponse

namespace JsonClass

def apply : JsonClass → JsonTable → Setter → Option JsonTable
  | .RpcRequest => RpcRequest.apply
  | .RpcResponse | .TopicResponse => JsonResponse.apply
  | .TopicRequest => TopicRequest.apply
  | .ServiceRequest => ServiceRequest.apply
  | .ServiceResponse => ServiceResponse.apply

def readings (json : Jsoncpp) : JsonClass → JsonValue → List Reading
  | .RpcRequest => RpcRequest.readings json
  | .RpcResponse | .TopicResponse => JsonResponse.readings
  | .TopicRequest => TopicRequest.readings json
  | .ServiceRequest => ServiceRequest.readings json
  | .ServiceResponse => ServiceResponse.readings json

end JsonClass

namespace ProtoRpcRequest

def apply (e : RpcRequestEnvelope) : Setter → Option RpcRequestEnvelope
  | .setMethod m => some (setMethod e m)
  | .setBody b => some (setBody e b)
  | .setTraceId t => some (setTraceId e t)
  | .setSpanId s => some (setSpanId e s)
  | _ => none

def readings (e : RpcRequestEnvelope) : List Reading :=
  [.text (.ok (method e)), .text (.ok (body e)), .text (.ok (traceId e)), .text (.ok (spanId e))]

end ProtoRpcRequest

namespace ProtoRpcResponse

def apply (m : ProtoRpcResponse) : Setter → Option ProtoRpcResponse
  | .setRcode c => some (setRcode m c)
  | .setBody b => some (setBody m b)
  | .setRetryAfterMs ms => some (setRetryAfterMs m ms)
  | _ => none

def readings (m : ProtoRpcResponse) : List Reading :=
  [.rcode (.ok (rcode m)), .text (.ok (body m)), .int64 (.ok m.retryAfterMs)]

end ProtoRpcResponse

namespace ProtoTopicRequest

def apply (e : TopicRequestEnvelope) : Setter → Option TopicRequestEnvelope
  | .setMethod m => some (setMethod e m)
  | .setTopicKey k => some (setTopicKey e k)
  | .setTopicOptype o => some (setOptype e o)
  | .setTopicMsg m => some (setTopicMsg e m)
  | .setForwardStrategy s => some (setForwardStrategy e s)
  | .setFanoutLimit v => some (setFanoutLimit e v)
  | .setShardKey k => some (setShardKey e k)
  | .setPriority v => some (setPriority e v)
  | .setTags v => some (setTags e v)
  | .setRedundantCount v => some (setRedundantCount e v)
  | _ => none

def readings (e : TopicRequestEnvelope) : List Reading :=
  [.text (.ok (method e)), .text (.ok (topicKey e)), .topicOptype (.ok (optype e)),
    .text (.ok (topicMsg e)), .strategy (.ok (forwardStrategy e)), .int (.ok (fanoutLimit e)),
    .text (.ok (shardKey e)), .int (.ok (priority e)), .texts (.ok (tags e)),
    .int (.ok (redundantCount e))]

end ProtoTopicRequest

namespace ProtoTopicResponse

def apply (e : TopicResponseEnvelope) : Setter → Option TopicResponseEnvelope
  | .setRcode c => some (setRcode e c)
  | .setResult r => some (setResult e r)
  | _ => none

def readings (e : TopicResponseEnvelope) : List Reading :=
  [.rcode (.ok (rcode e)), .text (.ok (result e))]

end ProtoTopicResponse

namespace ProtoServiceRequest

def apply (e : ServiceRequestEnvelope) : Setter → Option ServiceRequestEnvelope
  | .setMethod m => some (setMethod e m)
  | .setServiceOptype o => some (setOptype e o)
  | .setHost h => some (setHost e h)
  | .setLoad v => some (setLoad e v)
  | .setTraceId t => some (setTraceId e t)
  | _ => none

def readings (e : ServiceRequestEnvelope) : List Reading :=
  [.text (.ok (method e)), .serviceOptype (.ok (optype e)), .host (.ok (host e)),
    .int (.ok (load e)), .text (.ok (traceId e))]

end ProtoServiceRequest

namespace ProtoServiceResponse

def apply (e : ServiceResponseEnvelope) : Setter → Option ServiceResponseEnvelope
  | .setRcode c => some (setRcode e c)
  | .setMethod m => some (setMethod e m)
  | .setServiceOptype o => some (setOptype e o)
  | .setHosts addresses => some (setHost e addresses)
  | .setHostDetails addresses => some (setHostDetails e addresses)
  | _ => none

def readings (e : ServiceResponseEnvelope) : List Reading :=
  [.rcode (.ok (rcode e)), .text (.ok (method e)), .serviceOptype (.ok (optype e)),
    .hosts (.ok (hosts e)), .hostsDetail (.ok (hostsDetail e))]

end ProtoServiceResponse

/-- The type whose class this is. -/
def JsonClass.type : JsonClass → MsgType
  | .RpcRequest => .REQ_RPC
  | .RpcResponse => .RSP_RPC
  | .TopicRequest => .REQ_TOPIC
  | .TopicResponse => .RSP_TOPIC
  | .ServiceRequest => .REQ_SERVICE
  | .ServiceResponse => .RSP_SERVICE

namespace MessageBody

def type : MessageBody → MsgType
  | .json cls _ => cls.type
  | .protoRpcRequest _ => .REQ_RPC_PROTO
  | .protoRpcResponse _ => .RSP_RPC_PROTO
  | .protoTopicRequest _ => .REQ_TOPIC_PROTO
  | .protoTopicResponse _ => .RSP_TOPIC_PROTO
  | .protoServiceRequest _ => .REQ_SERVICE_PROTO
  | .protoServiceResponse _ => .RSP_SERVICE_PROTO

def apply (body : MessageBody) (s : Setter) : Option MessageBody :=
  match body with
  | .json cls data => data.asTable.bind fun t => (cls.apply t s).map fun t => .json cls t.value
  | .protoRpcRequest e => (ProtoRpcRequest.apply e s).map .protoRpcRequest
  | .protoRpcResponse m => (ProtoRpcResponse.apply m s).map .protoRpcResponse
  | .protoTopicRequest e => (ProtoTopicRequest.apply e s).map .protoTopicRequest
  | .protoTopicResponse e => (ProtoTopicResponse.apply e s).map .protoTopicResponse
  | .protoServiceRequest e => (ProtoServiceRequest.apply e s).map .protoServiceRequest
  | .protoServiceResponse e => (ProtoServiceResponse.apply e s).map .protoServiceResponse

/-- What every accessor of the class does. -/
def readings (json : Jsoncpp) : MessageBody → List Reading
  | .json cls data => cls.readings json data
  | .protoRpcRequest e => ProtoRpcRequest.readings e
  | .protoRpcResponse m => ProtoRpcResponse.readings m
  | .protoTopicRequest e => ProtoTopicRequest.readings e
  | .protoTopicResponse e => ProtoTopicResponse.readings e
  | .protoServiceRequest e => ProtoServiceRequest.readings e
  | .protoServiceResponse e => ProtoServiceResponse.readings e

end MessageBody

/-- Made by the factory for its type and filled in by setters; the id is set
apart. -/
def BuiltBySetters (m : BaseMessage MessageBody) : Prop :=
  ∃ made, MessageFactory.create m.msgType = some made ∧
    Reachable MessageBody.apply made.body m.body

/-- The message is written, and what is read from exactly those bytes is a
message of the same type and class under the same id whose accessors all do
the same. -/
def RoundTrips (json : Jsoncpp) (proto : Protobuf) (m : BaseMessage MessageBody) : Prop :=
  ∃ bytes, LVProtocol.serialize (protobufSerializer json proto) m = .ok bytes ∧
    LVProtocol.canProcessed bytes = true ∧
    ∃ m', LVProtocol.onMessage (protobufSerializer json proto) bytes = .ok m' [] ∧
      m'.msgType = m.msgType ∧ m'.rid = m.rid ∧ m'.body.type = m.body.type ∧
      m'.body.readings json = m.body.readings json

/-- The envelope is parsed back, and is written as no bytes only if it is empty:
proto3 does not write default values. -/
def ProtoCodec.RoundTrips {E : Type} (codec : ProtoCodec E) (empty e : E) : Prop :=
  ∃ bytes, codec.serializeToString e = some bytes ∧ codec.parseFromArray bytes = some e ∧
    (bytes = [] ↔ e = empty)

/-- The text is not empty and is parsed back. -/
def Jsoncpp.RoundTrips (json : Jsoncpp) (data : JsonValue) : Prop :=
  ∃ text, json.write data = some text ∧ json.parse text = .ok (some data) ∧ text ≠ []

/-- The library reads back the value that the message hands to it. -/
def LibraryRoundTrips (json : Jsoncpp) (proto : Protobuf) (m : BaseMessage MessageBody) : Prop :=
  match m.body with
  | .json _ data => ∃ value, JsonMessage.copy m.rid data = .ok value ∧ json.RoundTrips value
  | .protoRpcRequest e => proto.rpcRequest.RoundTrips {} (ProtoRpcRequest.withId m.rid e)
  | .protoRpcResponse r =>
    proto.rpcResponse.RoundTrips {} (ProtoRpcResponse.withId m.rid r.envelope)
  | .protoTopicRequest e => proto.topicRequest.RoundTrips {} e
  | .protoTopicResponse e => proto.topicResponse.RoundTrips {} e
  | .protoServiceRequest e => proto.serviceRequest.RoundTrips {} e
  | .protoServiceResponse e => proto.serviceResponse.RoundTrips {} e

end LyqtRpc
