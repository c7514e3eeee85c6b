import LyqtRpc.LVProtocol
import LyqtRpc.Lib.JsonValue

/-!
The JSON message classes of `message.hpp`. Reading `_data[key]` in a `check` also
adds a null member where there is none; null is what a missing member reads as,
and a check that adds one returns false.
-/

set_option autoImplicit false

namespace LyqtRpc

namespace JSON

def deserialize (json : Jsoncpp) (input : Bytes) : Option JsonValue :=
  match json.parse input with
  | .ok data => data
  | .error _ => none

def serialize (json : Jsoncpp) (data : JsonValue) : Option Bytes := json.write data

end JSON

namespace JsonMessage

/-- The copy of `_data` that is written, with the id in it. -/
def copy (rid : Bytes) (data : JsonValue) : Except CppException JsonValue :=
  if rid = [] then .ok data else data.set (str "id") (.string rid)

/-- The copy; null where setting the id throws. -/
def written (rid : Bytes) (data : JsonValue) : JsonValue := (copy rid data).toOption.getD .null

def serialize (json : Jsoncpp) (m : BaseMessage JsonValue) : Except CppException Bytes := do
  match JSON.serialize json (← copy m.rid m.body) with
  | none => pure []
  | some output => pure output

/-- `none` for false. -/
def unserialize (json : Jsoncpp) (msg : Bytes) (m : BaseMessage JsonValue) :
    Except CppException (Option (BaseMessage JsonValue)) :=
  match JSON.deserialize json msg with
  | none => .ok none
  | some data =>
    if data.isObject then do
      if ← data.isMember (str "id") then
        let id ← (← data.index (str "id")).asString json
        pure (some ({ m with body := data }.setId id))
      else pure (some { m with body := data })
    else .ok (some { m with body := data })

end JsonMessage

namespace JsonRequest

def setMethod (data : JsonTable) (method : Bytes) : JsonTable :=
  data.set KEY_METHOD (.string method)

def setTraceId (data : JsonTable) (t : Bytes) : JsonTable := data.set KEY_TRACE_ID (.string t)

def setSpanId (data : JsonTable) (s : Bytes) : JsonTable := data.set KEY_SPAN_ID (.string s)

def method (json : Jsoncpp) (data : JsonValue) : Except CppException Bytes := do
  (← data.index KEY_METHOD).asString json

def traceId (json : Jsoncpp) (data : JsonValue) : Except CppException Bytes := do
  (← data.get KEY_TRACE_ID (.string [])).asString json

def spanId (json : Jsoncpp) (data : JsonValue) : Except CppException Bytes := do
  (← data.get KEY_SPAN_ID (.string [])).asString json

end JsonRequest

namespace JsonResponse

def setRcode (data : JsonTable) (rcode : EnumValue RespCode) : JsonTable :=
  data.set KEY_RCODE (.int rcode.toInt32.toInt64)

def setResult (data : JsonTable) (result : JsonValue) : JsonTable := data.set KEY_RESULT result

def setRetryAfterMs (data : JsonTable) (ms : Int64) : JsonTable :=
  data.set KEY_RETRY_AFTER_MS (.int ms)

def check (data : JsonValue) : Except CppException Bool := do
  if !(← data.isMember KEY_RCODE) then pure false
  else pure (← data.index KEY_RCODE).isIntegral

def rcode (data : JsonValue) : Except CppException (EnumValue RespCode) := do
  pure (.ofInt32 (← (← data.index KEY_RCODE).asInt))

def result (data : JsonValue) : Except CppException JsonValue := data.index KEY_RESULT

def retryAfterMs (data : JsonValue) : Except CppException Int64 := do
  (← data.get KEY_RETRY_AFTER_MS (.int 0)).asInt64

end JsonResponse

namespace RpcRequest

def check (data : JsonValue) : Except CppException Bool := do
  let method ← data.index KEY_METHOD
  if !method.isString || method.isNull then pure false
  else
    let params ← data.index KEY_PARAMS
    if !params.isObject || params.isNull then pure false
    else pure true

def setParams (data : JsonTable) (params : JsonValue) : JsonTable := data.set KEY_PARAMS params

def params (data : JsonValue) : Except CppException JsonValue := data.index KEY_PARAMS

end RpcRequest

namespace RpcResponse

def check (data : JsonValue) : Except CppException Bool := do
  let rcode ← data.index KEY_RCODE
  if !rcode.isIntegral || rcode.isNull then pure false
  else
    let result ← data.index KEY_RESULT
    if result.isNull then pure false
    else pure true

end RpcResponse

namespace TopicRequest

def forwardStrategy (data : JsonValue) : Except CppException (EnumValue TopicForwardStrategy) := do
  pure (.ofInt32 (← (← data.get KEY_TOPIC_FORWARD
    (.int TopicForwardStrategy.BROADCAST.code.toInt64)).asInt))

def setForwardStrategy (data : JsonTable) (forwardStrategy : EnumValue TopicForwardStrategy) :
    JsonTable :=
  data.set KEY_TOPIC_FORWARD (.int forwardStrategy.toInt32.toInt64)

def fanoutLimit (data : JsonValue) : Except CppException Int32 := do
  (← data.get KEY_TOPIC_FANOUT (.int 0)).asInt

def setFanoutLimit (data : JsonTable) (fanoutLimit : Int32) : JsonTable :=
  data.set KEY_TOPIC_FANOUT (.int fanoutLimit.toInt64)

def shardKey (json : Jsoncpp) (data : JsonValue) : Except CppException Bytes := do
  (← data.get KEY_TOPIC_SHARD_KEY (.string [])).asString json

def setShardKey (data : JsonTable) (shardKey : Bytes) : JsonTable :=
  data.set KEY_TOPIC_SHARD_KEY (.string shardKey)

def priority (data : JsonValue) : Except CppException Int32 := do
  (← data.get KEY_TOPIC_PRIORITY (.int 0)).asInt

def setPriority (data : JsonTable) (priority : Int32) : JsonTable :=
  data.set KEY_TOPIC_PRIORITY (.int priority.toInt64)

def tags (data : JsonValue) : Except CppException (List Bytes) := do
  pure (← data.get KEY_TOPIC_TAGS (.array [])).strings

def setTags (data : JsonTable) (tags : List Bytes) : JsonTable :=
  data.set KEY_TOPIC_TAGS (.array (tags.map .string))

def redundantCount (data : JsonValue) : Except CppException Int32 := do
  (← data.get KEY_TOPIC_REDUNDANT (.int 0)).asInt

def setRedundantCount (data : JsonTable) (redundantCount : Int32) : JsonTable :=
  data.set KEY_TOPIC_REDUNDANT (.int redundantCount.toInt64)

def topicKey (json : Jsoncpp) (data : JsonValue) : Except CppException Bytes := do
  (← data.index KEY_TOPIC_KEY).asString json

def setTopicKey (data : JsonTable) (topicKey : Bytes) : JsonTable :=
  data.set KEY_TOPIC_KEY (.string topicKey)

def optype (data : JsonValue) : Except CppException (EnumValue TopicOpType) := do
  pure (.ofInt32 (← (← data.index KEY_OPTYPE).asInt))

def setOptype (data : JsonTable) (optype : EnumValue TopicOpType) : JsonTable :=
  data.set KEY_OPTYPE (.int optype.toInt32.toInt64)

def topicMsg (json : Jsoncpp) (data : JsonValue) : Except CppException Bytes := do
  (← data.index KEY_TOPIC_MSG).asString json

def setTopicMsg (data : JsonTable) (topicMsg : Bytes) : JsonTable :=
  data.set KEY_TOPIC_MSG (.string topicMsg)

/-- The switch over the forward strategy. -/
def checkStrategy (json : Jsoncpp) (data : JsonValue) : Except CppException Bool := do
  match ← forwardStrategy data with
  | .named .FANOUT => return decide (0 < (← fanoutLimit data))
  | .named .SOURCE_HASH => return decide ((← shardKey json data) ≠ [])
  | .named .PRIORITY =>
    if 0 < (← priority data) then pure true
    else return decide ((← tags data) ≠ [])
  | .named .REDUNDANT => return decide (1 < (← redundantCount data))
  | _ => pure true

def check (json : Jsoncpp) (data : JsonValue) : Except CppException Bool := do
  let key ← data.index KEY_TOPIC_KEY
  if !key.isString || key.isNull then pure false
  else
    let optype ← data.index KEY_OPTYPE
    if !optype.isIntegral || optype.isNull then pure false
    else if (← optype.asInt) = TopicOpType.PUBLISH.code then
      let msg ← data.index KEY_TOPIC_MSG
      if !msg.isString || msg.isNull then pure false
      else checkStrategy json data
    else checkStrategy json data

end TopicRequest

namespace ServiceRequest

def load (data : JsonValue) : Except CppException Int32 := do
  (← data.get KEY_LOAD (.int 0)).asInt

def setLoad (data : JsonTable) (load : Int32) : JsonTable := data.set KEY_LOAD (.int load.toInt64)

def optype (data : JsonValue) : Except CppException (EnumValue ServiceOpType) := do
  pure (.ofInt32 (← (← data.index KEY_OPTYPE).asInt))

def setOptype (data : JsonTable) (optype : EnumValue ServiceOpType) : JsonTable :=
  data.set KEY_OPTYPE (.int optype.toInt32.toInt64)

def host (json : Jsoncpp) (data : JsonValue) : Except CppException HostInfo := do
  let ip ← (← (← data.index KEY_HOST).index KEY_HOST_IP).asString json
  let port ← (← (← data.index KEY_HOST).index KEY_HOST_PORT).asInt
  pure { ip, port }

def setHost (data : JsonTable) (host : HostInfo) : JsonTable :=
  data.set KEY_HOST (((JsonTable.object []).set KEY_HOST_IP (.string host.ip)).set
    KEY_HOST_PORT (.int host.port.toInt64)).value

/-- The host of a request that is not a DISCOVER. -/
def checkHost (data : JsonValue) : Except CppException Bool := do
  let host ← data.index KEY_HOST
  if !host.isObject || host.isNull then pure false
  else
    let ip ← host.index KEY_HOST_IP
    if !ip.isString || ip.isNull then pure false
    else
      let port ← host.index KEY_HOST_PORT
      if !port.isIntegral || port.isNull then pure false
      else pure true

/-- The load of a LOAD_REPORT. -/
def checkLoad (data : JsonValue) : Except CppException Bool := do
  let load ← data.index KEY_LOAD
  if !load.isIntegral || load.isNull then pure false
  else pure true

def check (data : JsonValue) : Except CppException Bool := do
  let method ← data.index KEY_METHOD
  if !method.isString || method.isNull then pure false
  else
    let optype ← data.index KEY_OPTYPE
    if !optype.isIntegral || optype.isNull then pure false
    else
      let code ← optype.asInt
      if code = ServiceOpType.DISCOVER.code then pure true
      else if !(← checkHost data) then pure false
      else if code = ServiceOpType.LOAD_REPORT.code then checkLoad data
      else pure true

end ServiceRequest

namespace ServiceResponse

def method (json : Jsoncpp) (data : JsonValue) : Except CppException Bytes := do
  (← data.index KEY_METHOD).asString json

def setMethod (data : JsonTable) (method : Bytes) : JsonTable :=
  data.set KEY_METHOD (.string method)

def setOptype (data : JsonTable) (optype : EnumValue ServiceOpType) : JsonTable :=
  data.set KEY_OPTYPE (.int optype.toInt32.toInt64)

def optype (data : JsonValue) : Except CppException (EnumValue ServiceOpType) := do
  pure (.ofInt32 (← (← data.index KEY_OPTYPE).asInt))

/-- The method and the host list of a DISCOVER response. -/
def checkDiscover (data : JsonValue) : Except CppException Bool := do
  let method ← data.index KEY_METHOD
  if !method.isString || method.isNull then pure false
  else
    let hosts ← data.index KEY_HOST
    if !hosts.isArray || hosts.isNull then pure false
    else pure true

def check (data : JsonValue) : Except CppException Bool := do
  let rcode ← data.index KEY_RCODE
  if !rcode.isIntegral || rcode.isNull then pure false
  else
    let optype ← data.index KEY_OPTYPE
    if !optype.isIntegral || optype.isNull then pure false
    else if (← optype.asInt) = ServiceOpType.DISCOVER.code then checkDiscover data
    else pure true

/-- One entry of the host list, as `hosts` reads it. -/
def hostOf (json : Jsoncpp) (item : JsonValue) : Except CppException HostInfo := do
  let ip ← (← item.index KEY_HOST_IP).asString json
  let port ← (← item.index KEY_HOST_PORT).asInt
  pure { ip, port }

def detailOf (json : Jsoncpp) (item : JsonValue) : Except CppException HostDetail := do
  let host ← hostOf json item
  let load ← (← item.get KEY_LOAD (.int 0)).asInt
  pure { host, load }

def hosts (json : Jsoncpp) (data : JsonValue) : Except CppException (List HostInfo) := do
  (← (← data.index KEY_HOST).items).mapM (hostOf json)

def hostObj (address : HostInfo) : JsonTable :=
  ((JsonTable.object []).set KEY_HOST_IP (.string address.ip)).set
    KEY_HOST_PORT (.int address.port.toInt64)

def setHost (data : JsonTable) (addresses : List HostInfo) : JsonTable :=
  data.set KEY_HOST (.array (addresses.map fun address => (hostObj address).value))

def hostsDetail (json : Jsoncpp) (data : JsonValue) : Except CppException (List HostDetail) := do
  (← (← data.index KEY_HOST).items).mapM (detailOf json)

def detailObj (detail : HostDetail) : JsonTable :=
  (hostObj detail.host).set KEY_LOAD (.int detail.load.toInt64)

def setHostDetails (data : JsonTable) (addresses : List HostDetail) : JsonTable :=
  data.set KEY_HOST (.array (addresses.map fun detail => (detailObj detail).value))

end ServiceResponse

inductive JsonClass where
  | RpcRequest | RpcResponse | TopicRequest | TopicResponse | ServiceRequest | ServiceResponse
  deriving DecidableEq, Repr

def JsonClass.check (json : Jsoncpp) : JsonClass → JsonValue → Except CppException Bool
  | .RpcRequest => RpcRequest.check
  | .RpcResponse => RpcResponse.check
  | .TopicRequest => TopicRequest.check json
  | .TopicResponse => JsonResponse.check
  | .ServiceRequest => ServiceRequest.check
  | .ServiceResponse => ServiceResponse.check

end LyqtRpc
