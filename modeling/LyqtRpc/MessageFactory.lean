import LyqtRpc.JsonMessage
import LyqtRpc.ProtoMessage
import LyqtRpc.Lib.StepRun

/-!
`MessageFactory`, `ProtobufSerializer` and what can be done to a message of any
of its classes: the setters that build it and the accessors that read it.
-/

set_option autoImplicit false

namespace LyqtRpc

def BaseMessage.mapBody {A B : Type} (f : A → B) (m : BaseMessage A) : BaseMessage B where
  rid := m.rid
  msgType := m.msgType
  body := f m.body

/-- The part of a message that its class adds. -/
inductive MessageBody where
  | json (cls : JsonClass) (data : JsonValue)
  | protoRpcRequest (e : RpcRequestEnvelope)
  | protoRpcResponse (m : ProtoRpcResponse)
  | protoTopicRequest (e : TopicRequestEnvelope)
  | protoTopicResponse (e : TopicResponseEnvelope)
  | protoServiceRequest (e : ServiceRequestEnvelope)
  | protoServiceResponse (e : ServiceResponseEnvelope)

/-- The generated code of the six envelopes. -/
structure Protobuf where
  rpcRequest : ProtoCodec RpcRequestEnvelope
  rpcResponse : ProtoCodec RpcResponseEnvelope
  topicRequest : ProtoCodec TopicRequestEnvelope
  topicResponse : ProtoCodec TopicResponseEnvelope
  serviceRequest : ProtoCodec ServiceRequestEnvelope
  serviceResponse : ProtoCodec ServiceResponseEnvelope

namespace MessageFactory

/-- A new object of the class, before its type is set. -/
def make : MsgType → Option MessageBody
  | .REQ_RPC => some (.json .RpcRequest .null)
  | .RSP_RPC => some (.json .RpcResponse .null)
  | .REQ_TOPIC => some (.json .TopicRequest .null)
  | .RSP_TOPIC => some (.json .TopicResponse .null)
  | .REQ_SERVICE => some (.json .ServiceRequest .null)
  | .RSP_SERVICE => some (.json .ServiceResponse .null)
  | .REQ_RPC_PROTO => some (.protoRpcRequest {})
  | .RSP_RPC_PROTO => some (.protoRpcResponse {})
  | .REQ_TOPIC_PROTO => some (.protoTopicRequest {})
  | .RSP_TOPIC_PROTO => some (.protoTopicResponse {})
  | .REQ_SERVICE_PROTO => some (.protoServiceRequest {})
  | .RSP_SERVICE_PROTO => some (.protoServiceResponse {})
  | .REQ_RPC_FLAT | .RSP_RPC_FLAT => none

def create : EnumValue MsgType → Option (BaseMessage MessageBody)
  | .named t => (make t).map fun body => { msgType := .named t, body }
  | .unnamed _ _ => none

end MessageFactory

namespace MessageBody

def check (json : Jsoncpp) : MessageBody → Except CppException Bool
  | .json cls data => cls.check json data
  | .protoRpcRequest e => .ok (ProtoRpcRequest.check e)
  | .protoRpcResponse m => .ok (ProtoRpcResponse.check m)
  | .protoTopicRequest e => .ok (ProtoTopicRequest.check e)
  | .protoTopicResponse e => .ok (ProtoTopicResponse.check e)
  | .protoServiceRequest e => .ok (ProtoServiceRequest.check e)
  | .protoServiceResponse e => .ok (ProtoServiceResponse.check e)

end MessageBody

namespace ProtobufSerializer

/-- `msg->serialize()` -/
def encode (json : Jsoncpp) (proto : Protobuf) (m : BaseMessage MessageBody) :
    Except CppException Bytes :=
  match m.body with
  | .json _ data => JsonMessage.serialize json (m.mapBody fun _ => data)
  | .protoRpcRequest e =>
    .ok (ProtoRpcRequest.serialize proto.rpcRequest (m.mapBody fun _ => e))
  | .protoRpcResponse r =>
    .ok (ProtoRpcResponse.serialize proto.rpcResponse (m.mapBody fun _ => r))
  | .protoTopicRequest e => .ok (ProtoMessage.serialize proto.topicRequest e)
  | .protoTopicResponse e => .ok (ProtoMessage.serialize proto.topicResponse e)
  | .protoServiceRequest e => .ok (ProtoMessage.serialize proto.serviceRequest e)
  | .protoServiceResponse e => .ok (ProtoMessage.serialize proto.serviceResponse e)

/-- `msg->unserialize(data)` -/
def decode (json : Jsoncpp) (proto : Protobuf) (data : Bytes) (m : BaseMessage MessageBody) :
    Except CppException (Option (BaseMessage MessageBody)) :=
  match m.body with
  | .json cls old => do
    return (← JsonMessage.unserialize json data (m.mapBody fun _ => old)).map
      (BaseMessage.mapBody (.json cls))
  | .protoRpcRequest e =>
    .ok ((ProtoRpcRequest.unserialize proto.rpcRequest data (m.mapBody fun _ => e)).map
      (BaseMessage.mapBody .protoRpcRequest))
  | .protoRpcResponse r =>
    .ok ((ProtoRpcResponse.unserialize proto.rpcResponse data (m.mapBody fun _ => r)).map
      (BaseMessage.mapBody .protoRpcResponse))
  | .protoTopicRequest e =>
    .ok ((ProtoMessage.unserialize proto.topicRequest data (m.mapBody fun _ => e)).map
      (BaseMessage.mapBody .protoTopicRequest))
  | .protoTopicResponse e =>
    .ok ((ProtoMessage.unserialize proto.topicResponse data (m.mapBody fun _ => e)).map
      (BaseMessage.mapBody .protoTopicResponse))
  | .protoServiceRequest e =>
    .ok ((ProtoMessage.unserialize proto.serviceRequest data (m.mapBody fun _ => e)).map
      (BaseMessage.mapBody .protoServiceRequest))
  | .protoServiceResponse e =>
    .ok ((ProtoMessage.unserialize proto.serviceResponse data (m.mapBody fun _ => e)).map
      (BaseMessage.mapBody .protoServiceResponse))

end ProtobufSerializer

/-- The serializer `LVProtocol` starts with. -/
def protobufSerializer (json : Jsoncpp) (proto : Protobuf) : Serializer MessageBody where
  create := MessageFactory.create
  encode := ProtobufSerializer.encode json proto
  decode := ProtobufSerializer.decode json proto

end LyqtRpc
