import LyqtRpc.Lib.ByteMemory
import LyqtRpc.Lib.ScopedEnum

/-!
`fields.hpp` and `publicconfig.hpp`: payload keys, the enumerations carried on
the wire, host descriptions.
-/

set_option autoImplicit false

namespace LyqtRpc

inductive MsgType where
  | REQ_RPC | RSP_RPC | REQ_TOPIC | RSP_TOPIC | REQ_SERVICE | RSP_SERVICE
  | REQ_RPC_PROTO | RSP_RPC_PROTO | REQ_TOPIC_PROTO | RSP_TOPIC_PROTO
  | REQ_SERVICE_PROTO | RSP_SERVICE_PROTO | REQ_RPC_FLAT | RSP_RPC_FLAT
  deriving DecidableEq, Repr

def MsgType.code : MsgType → Int32
  | .REQ_RPC => 0 | .RSP_RPC => 1 | .REQ_TOPIC => 2 | .RSP_TOPIC => 3
  | .REQ_SERVICE => 4 | .RSP_SERVICE => 5
  | .REQ_RPC_PROTO => 6 | .RSP_RPC_PROTO => 7 | .REQ_TOPIC_PROTO => 8 | .RSP_TOPIC_PROTO => 9
  | .REQ_SERVICE_PROTO => 10 | .RSP_SERVICE_PROTO => 11
  | .REQ_RPC_FLAT => 12 | .RSP_RPC_FLAT => 13

instance : ScopedEnum MsgType where
  all := [.REQ_RPC, .RSP_RPC, .REQ_TOPIC, .RSP_TOPIC, .REQ_SERVICE, .RSP_SERVICE,
    .REQ_RPC_PROTO, .RSP_RPC_PROTO, .REQ_TOPIC_PROTO, .RSP_TOPIC_PROTO,
    .REQ_SERVICE_PROTO, .RSP_SERVICE_PROTO, .REQ_RPC_FLAT, .RSP_RPC_FLAT]
  mem_all e := by cases e <;> simp
  code := MsgType.code
  code_injective e e' h := by
    cases e <;> cases e' <;> first | rfl | exact absurd h (by decide)

inductive RespCode where
  | SUCCESS | PARSE_FAILED | INVALID_MSGTYPE | INVALID_MSG | CONNECTION_CLOSED
  | INVALID_PARAMS | SERVICE_NOT_FOUND | INVALID_OPTYPE | TOPIC_NOT_FOUND
  | INTERNAL_ERROR | TIMEOUT | BACKOFF
  deriving DecidableEq, Repr

def RespCode.code : RespCode → Int32
  | .SUCCESS => 0 | .PARSE_FAILED => 1 | .INVALID_MSGTYPE => 2 | .INVALID_MSG => 3
  | .CONNECTION_CLOSED => 4 | .INVALID_PARAMS => 5 | .SERVICE_NOT_FOUND => 6
  | .INVALID_OPTYPE => 7 | .TOPIC_NOT_FOUND => 8 | .INTERNAL_ERROR => 9
  | .TIMEOUT => 10 | .BACKOFF => 11

instance : ScopedEnum RespCode where
  all := [.SUCCESS, .PARSE_FAILED, .INVALID_MSGTYPE, .INVALID_MSG, .CONNECTION_CLOSED,
    .INVALID_PARAMS, .SERVICE_NOT_FOUND, .INVALID_OPTYPE, .TOPIC_NOT_FOUND,
    .INTERNAL_ERROR, .TIMEOUT, .BACKOFF]
  mem_all e := by cases e <;> simp
  code := RespCode.code
  code_injective e e' h := by
    cases e <;> cases e' <;> first | rfl | exact absurd h (by decide)

inductive TopicOpType where
  | CREATE | REMOVE | SUBSCRIBE | UNSUBSCRIBE | PUBLISH
  deriving DecidableEq, Repr

def TopicOpType.code : TopicOpType → Int32
  | .CREATE => 0 | .REMOVE => 1 | .SUBSCRIBE => 2 | .UNSUBSCRIBE => 3 | .PUBLISH => 4

instance : ScopedEnum TopicOpType where
  all := [.CREATE, .REMOVE, .SUBSCRIBE, .UNSUBSCRIBE, .PUBLISH]
  mem_all e := by cases e <;> simp
  code := TopicOpType.code
  code_injective e e' h := by
    cases e <;> cases e' <;> first | rfl | exact absurd h (by decide)

inductive TopicForwardStrategy where
  | BROADCAST | ROUND_ROBIN | FANOUT | SOURCE_HASH | PRIORITY | REDUNDANT
  deriving DecidableEq, Repr

def TopicForwardStrategy.code : TopicForwardStrategy → Int32
  | .BROADCAST => 0 | .ROUND_ROBIN => 1 | .FANOUT => 2 | .SOURCE_HASH => 3
  | .PRIORITY => 4 | .REDUNDANT => 5

instance : ScopedEnum TopicForwardStrategy where
  all := [.BROADCAST, .ROUND_ROBIN, .FANOUT, .SOURCE_HASH, .PRIORITY, .REDUNDANT]
  mem_all e := by cases e <;> simp
  code := TopicForwardStrategy.code
  code_injective e e' h := by
    cases e <;> cases e' <;> first | rfl | exact absurd h (by decide)

inductive ServiceOpType where
  | REGISTER | DISCOVER | ONLINE | OFFLINE | LOAD_REPORT | HEARTBEAT_PROVIDER | UNKNOWN
  deriving DecidableEq, Repr

def ServiceOpType.code : ServiceOpType → Int32
  | .REGISTER => 0 | .DISCOVER => 1 | .ONLINE => 2 | .OFFLINE => 3 | .LOAD_REPORT => 4
  | .HEARTBEAT_PROVIDER => 5 | .UNKNOWN => 6

instance : ScopedEnum ServiceOpType where
  all := [.REGISTER, .DISCOVER, .ONLINE, .OFFLINE, .LOAD_REPORT, .HEARTBEAT_PROVIDER,
    .UNKNOWN]
  mem_all e := by cases e <;> simp
  code := ServiceOpType.code
  code_injective e e' h := by
    cases e <;> cases e' <;> first | rfl | exact absurd h (by decide)

inductive LoadBalanceStrategy where
  | ROUND_ROBIN | RANDOM | SOURCE_HASH | LOWEST_LOAD | CONSISTENT_HASH
  deriving DecidableEq, Repr

def LoadBalanceStrategy.code : LoadBalanceStrategy → Int32
  | .ROUND_ROBIN => 0 | .RANDOM => 1 | .SOURCE_HASH => 2 | .LOWEST_LOAD => 3
  | .CONSISTENT_HASH => 4

instance : ScopedEnum LoadBalanceStrategy where
  all := [.ROUND_ROBIN, .RANDOM, .SOURCE_HASH, .LOWEST_LOAD, .CONSISTENT_HASH]
  mem_all e := by cases e <;> simp
  code := LoadBalanceStrategy.code
  code_injective e e' h := by
    cases e <;> cases e' <;> first | rfl | exact absurd h (by decide)

def KEY_METHOD : Bytes := str "method"
def KEY_PARAMS : Bytes := str "parameters"
def KEY_TOPIC_KEY : Bytes := str "topic_key"
def KEY_TOPIC_MSG : Bytes := str "topic_msg"
def KEY_OPTYPE : Bytes := str "optype"
def KEY_HOST : Bytes := str "host"
def KEY_HOST_IP : Bytes := str "ip"
def KEY_HOST_PORT : Bytes := str "port"
def KEY_RCODE : Bytes := str "rcode"
def KEY_RESULT : Bytes := str "result"
def KEY_RETRY_AFTER_MS : Bytes := str "retry_after_ms"
def KEY_TRACE_ID : Bytes := str "trace_id"
def KEY_SPAN_ID : Bytes := str "span_id"
def KEY_LOAD : Bytes := str "load"
def KEY_TOPIC_FORWARD : Bytes := str "forward_strategy"
def KEY_TOPIC_PRIORITY : Bytes := str "priority"
def KEY_TOPIC_TAGS : Bytes := str "tags"
def KEY_TOPIC_FANOUT : Bytes := str "fanout"
def KEY_TOPIC_SHARD_KEY : Bytes := str "shard_key"
def KEY_TOPIC_REDUNDANT : Bytes := str "redundant"

/-- `std::pair<std::string, int32_t>` -/
structure HostInfo where
  ip : Bytes
  port : Int32
  deriving DecidableEq, Repr

structure HostDetail where
  host : HostInfo
  load : Int32 := 0
  deriving DecidableEq, Repr

end LyqtRpc
