import LyqtRpc.Dispacher

/-!
`shm_client_zc.hpp`, `shm_server_zc.hpp` and `shm_zc_adaptor.hpp`: a JSON request or
response is written as a FlatBuffers table and read from one in the ring.
-/

set_option autoImplicit false

namespace LyqtRpc

/-- What the builder writes for a table, and what `GetRoot` and `Verify` make of bytes. -/
structure FlatTable (T : Type) where
  finish : T → Bytes
  verified : Bytes → Option T

/-- A string or a vector may be missing from a table. -/
structure FlatRequest where
  id : Option Bytes := none
  method : Option Bytes := none
  traceId : Option Bytes := none
  spanId : Option Bytes := none
  params : Option Bytes := none
  deriving DecidableEq

structure FlatResponse where
  id : Option Bytes := none
  rcode : Int32 := 0
  result : Option Bytes := none
  deriving DecidableEq

structure Flatbuffers where
  request : FlatTable FlatRequest
  response : FlatTable FlatResponse

namespace ShmZcReader

/-- `as<T>()` -/
def as {T : Type} (table : FlatTable T) (data : Bytes) : Option T :=
  if data = [] then none else table.verified data

def strval (s : Option Bytes) : Bytes := s.getD []

/-- A payload that is there and is JSON goes into the message. -/
def payload (json : Jsoncpp) (set : JsonTable → JsonValue → JsonTable) (data : JsonTable) :
    Option Bytes → JsonTable
  | none => data
  | some [] => data
  | some text =>
    match JSON.deserialize json text with
    | some value => set data value
    | none => data

end ShmZcReader

/-- The text of a failed `serialize` stays empty. -/
def JSON.payload (json : Jsoncpp) (value : JsonValue) : Option Bytes :=
  some ((JSON.serialize json value).getD [])

namespace ShmClientZc

def table (json : Jsoncpp) (req : BaseMessage JsonValue) : Except CppException FlatRequest := do
  let method ← JsonRequest.method json req.body
  let traceId ← JsonRequest.traceId json req.body
  let spanId ← JsonRequest.spanId json req.body
  let params ← RpcRequest.params req.body
  pure { id := some req.rid, method := some method, traceId := some traceId,
         spanId := some spanId, params := JSON.payload json params }

/-- What `send` writes. It returns false for a message of another class, and an exception of
an accessor leaves it. -/
def frame (json : Jsoncpp) (flat : Flatbuffers) (m : BaseMessage MessageBody) : Option Frame :=
  match m.body.asJson .RpcRequest with
  | none => none
  | some data =>
    match table json (m.mapBody fun _ => data) with
    | .ok req => some { type := .named .REQ_RPC_FLAT, body := flat.request.finish req }
    | .error _ => none

def response (json : Jsoncpp) (fresp : FlatResponse) : BaseMessage JsonValue where
  rid := ShmZcReader.strval fresp.id
  msgType := .named .RSP_RPC
  body := ShmZcReader.payload json JsonResponse.setResult
    (JsonResponse.setRcode .null (.ofInt32 fresp.rcode)) fresp.result

/-- What `responseLoop` hands to `_cb_message`. -/
def message (json : Jsoncpp) (flat : Flatbuffers) (view : Frame) :
    Option (BaseMessage MessageBody) :=
  if view.type = .named .RSP_RPC_FLAT then
    (ShmZcReader.as flat.response view.body).map fun fresp =>
      (response json fresp).mapBody (.json .RpcResponse)
  else none

end ShmClientZc

namespace ShmServerZc

def request (json : Jsoncpp) (req : FlatRequest) : BaseMessage JsonValue where
  rid := ShmZcReader.strval req.id
  msgType := .named .REQ_RPC
  body := ShmZcReader.payload json RpcRequest.setParams
    (JsonRequest.setSpanId
      (JsonRequest.setTraceId (JsonRequest.setMethod .null (ShmZcReader.strval req.method))
        (ShmZcReader.strval req.traceId))
      (ShmZcReader.strval req.spanId)) req.params

/-- What `drain_requests` hands to `_cb_message`. -/
def message (json : Jsoncpp) (flat : Flatbuffers) (view : Frame) :
    Option (BaseMessage MessageBody) :=
  if view.type = .named .REQ_RPC_FLAT then
    (ShmZcReader.as flat.request view.body).map fun req =>
      (request json req).mapBody (.json .RpcRequest)
  else none

def table (json : Jsoncpp) (resp : BaseMessage JsonValue) : Except CppException FlatResponse := do
  let rcode ← JsonResponse.rcode resp.body
  let result ← JsonResponse.result resp.body
  pure { id := some resp.rid, rcode := rcode.toInt32, result := JSON.payload json result }

/-- What the sender of the connection writes. -/
def frame (json : Jsoncpp) (flat : Flatbuffers) (m : BaseMessage MessageBody) : Option Frame :=
  match m.body.asJson .RpcResponse with
  | none => none
  | some data =>
    match table json (m.mapBody fun _ => data) with
    | .ok resp => some { type := .named .RSP_RPC_FLAT, body := flat.response.finish resp }
    | .error _ => none

end ShmServerZc

/-! What the libraries are relied on for. -/

def FlatTable.Reads {T : Type} (table : FlatTable T) (t : T) : Prop :=
  table.finish t ≠ [] ∧ table.verified (table.finish t) = some t

def Jsoncpp.Reads (json : Jsoncpp) (value : JsonValue) : Prop :=
  ∃ text, json.write value = some text ∧ text ≠ [] ∧ json.parse text = .ok (some value)

theorem ShmZcReader.as_finish {T : Type} {table : FlatTable T} {t : T} (h : table.Reads t) :
    ShmZcReader.as table (table.finish t) = some t := by
  rw [ShmZcReader.as, if_neg h.1, h.2]

theorem ShmZcReader.payload_reads {json : Jsoncpp} {value : JsonValue} (h : json.Reads value)
    (set : JsonTable → JsonValue → JsonTable) (data : JsonTable) :
    ShmZcReader.payload json set data (JSON.payload json value) = set data value := by
  obtain ⟨text, hwrite, hne, hparse⟩ := h
  obtain ⟨b, rest, rfl⟩ := List.exists_cons_of_ne_nil hne
  have hread : JSON.deserialize json (b :: rest) = some value := by
    rw [JSON.deserialize, hparse]
  simp only [JSON.payload, JSON.serialize, hwrite, Option.getD_some, payload, hread]

/-! Requests. -/

/-- Every accessor of the request reads the same. -/
structure RequestKept (json : Jsoncpp) (m o : BaseMessage JsonValue) : Prop where
  rid : o.rid = m.rid
  msgType : o.msgType = .named .REQ_RPC
  method : JsonRequest.method json o.body = JsonRequest.method json m.body
  traceId : JsonRequest.traceId json o.body = JsonRequest.traceId json m.body
  spanId : JsonRequest.spanId json o.body = JsonRequest.spanId json m.body
  params : RpcRequest.params o.body = RpcRequest.params m.body

section Requests
variable {json : Jsoncpp} {flat : Flatbuffers} {m o : BaseMessage JsonValue}

theorem method_of_field {data : JsonValue} {t : Bytes} (htable : data.isTable = true)
    (hfield : data.field KEY_METHOD = .string t) : JsonRequest.method json data = .ok t := by
  rw [JsonRequest.method, JsonValue.index_eq htable, hfield]
  rfl

theorem traceId_of_field {data : JsonValue} {t : Bytes} (htable : data.isTable = true)
    (hfield : data.field KEY_TRACE_ID = .string t) : JsonRequest.traceId json data = .ok t := by
  have hread : JsonRequest.traceId json data = (data.field KEY_TRACE_ID).asString json :=
    JsonValue.get_bind htable _ rfl
  rw [hread, hfield]
  rfl

theorem spanId_of_field {data : JsonValue} {t : Bytes} (htable : data.isTable = true)
    (hfield : data.field KEY_SPAN_ID = .string t) : JsonRequest.spanId json data = .ok t := by
  have hread : JsonRequest.spanId json data = (data.field KEY_SPAN_ID).asString json :=
    JsonValue.get_bind htable _ rfl
  rw [hread, hfield]
  rfl

/-- What the client's table holds are the readings of the request. -/
theorem ShmClientZc.table_eq_ok {req : FlatRequest} (h : ShmClientZc.table json m = .ok req) :
    ∃ method traceId spanId params, JsonRequest.method json m.body = .ok method ∧
      JsonRequest.traceId json m.body = .ok traceId ∧
      JsonRequest.spanId json m.body = .ok spanId ∧
      RpcRequest.params m.body = .ok params ∧
      req = ⟨some m.rid, some method, some traceId, some spanId, JSON.payload json params⟩ := by
  obtain ⟨method, hmethod, h⟩ := bind_eq_ok.mp h
  obtain ⟨traceId, htrace, h⟩ := bind_eq_ok.mp h
  obtain ⟨spanId, hspan, h⟩ := bind_eq_ok.mp h
  obtain ⟨params, hparams, h⟩ := bind_eq_ok.mp h
  cases h
  exact ⟨method, traceId, spanId, params, hmethod, htrace, hspan, hparams, rfl⟩

/-- The server makes a request of the table that says the same. -/
theorem requestKept_table {req : FlatRequest} {params : JsonValue}
    (htable : ShmClientZc.table json m = .ok req)
    (hparams : RpcRequest.params m.body = .ok params) (hreads : json.Reads params) :
    RequestKept json m (ShmServerZc.request json req) := by
  obtain ⟨method, traceId, spanId, params', hmethod, htrace, hspan, hparams', rfl⟩ :=
    ShmClientZc.table_eq_ok htable
  rw [hparams] at hparams'
  obtain rfl := Except.ok.inj hparams'
  have hkeys : KEY_METHOD ≠ KEY_TRACE_ID ∧ KEY_METHOD ≠ KEY_SPAN_ID ∧ KEY_METHOD ≠ KEY_PARAMS ∧
      KEY_TRACE_ID ≠ KEY_SPAN_ID ∧ KEY_TRACE_ID ≠ KEY_PARAMS ∧ KEY_SPAN_ID ≠ KEY_PARAMS := by
    decide
  obtain ⟨hmt, hms, hmp, hts, htp, hsp⟩ := hkeys
  have hbody : (ShmServerZc.request json
      ⟨some m.rid, some method, some traceId, some spanId, JSON.payload json params⟩).body =
      RpcRequest.setParams (JsonRequest.setSpanId (JsonRequest.setTraceId
        (JsonRequest.setMethod .null method) traceId) spanId) params :=
    congrArg JsonTable.value (ShmZcReader.payload_reads hreads _ _)
  have hobject : (ShmServerZc.request json
      ⟨some m.rid, some method, some traceId, some spanId, JSON.payload json params⟩).body.isTable =
        true := by
    rw [hbody]
    exact JsonValue.isTable_value _
  have hfields := hbody
  simp only [RpcRequest.setParams, JsonRequest.setSpanId, JsonRequest.setTraceId,
    JsonRequest.setMethod] at hfields
  constructor
  · rfl
  · rfl
  · rw [hmethod]
    refine method_of_field hobject ?_
    rw [hfields, JsonValue.field_set_of_ne hmp, JsonValue.field_set_of_ne hms,
      JsonValue.field_set_of_ne hmt, JsonValue.field_set_self]
  · rw [htrace]
    refine traceId_of_field hobject ?_
    rw [hfields, JsonValue.field_set_of_ne htp, JsonValue.field_set_of_ne hts,
      JsonValue.field_set_self]
  · rw [hspan]
    refine spanId_of_field hobject ?_
    rw [hfields, JsonValue.field_set_of_ne hsp, JsonValue.field_set_self]
  · rw [hparams, RpcRequest.params, JsonValue.index_eq hobject, hfields, JsonValue.field_set_self]

/-- A router cannot tell the two apart. -/
theorem RequestKept.routed (h : RequestKept json m o) (manager : ServiceManager)
    (limiter : Option Admission) :
    RpcRouter.onrpcRequst json manager limiter o =
      RpcRouter.onrpcRequst json manager limiter m := by
  have hresponse : ∀ result rcode, RpcRouter.response o result rcode =
      RpcRouter.response m result rcode := by
    intro result rcode
    rw [RpcRouter.response, RpcRouter.response, h.rid]
  have hbackoff : ∀ ms, RpcRouter.backoff o ms = RpcRouter.backoff m ms := by
    intro ms
    rw [RpcRouter.backoff, RpcRouter.backoff, h.rid]
  have hdispatch : ∀ service, RpcRouter.dispatch service o = RpcRouter.dispatch service m := by
    intro service
    simp only [RpcRouter.dispatch, h.params, hresponse]
  simp only [RpcRouter.onrpcRequst, h.method, h.traceId, h.spanId, hbackoff, hresponse, hdispatch]

end Requests

/-! Responses. -/

/-- The code and the result read the same; a hint when to retry is not carried. -/
structure ResponseKept (m o : BaseMessage JsonValue) : Prop where
  rid : o.rid = m.rid
  msgType : o.msgType = .named .RSP_RPC
  rcode : JsonResponse.rcode o.body = JsonResponse.rcode m.body
  result : JsonResponse.result o.body = JsonResponse.result m.body
  noHint : JsonResponse.retryAfterMs o.body = .ok 0

section Responses
variable {json : Jsoncpp} {flat : Flatbuffers} {m : BaseMessage JsonValue}

theorem responseKept_table {resp : FlatResponse} {result : JsonValue}
    (htable : ShmServerZc.table json m = .ok resp)
    (hresult : JsonResponse.result m.body = .ok result) (hreads : json.Reads result) :
    ResponseKept m (ShmClientZc.response json resp) := by
  obtain ⟨rcode, hrcode, htable⟩ := bind_eq_ok.mp htable
  obtain ⟨result', hresult', htable⟩ := bind_eq_ok.mp htable
  rw [hresult] at hresult'
  obtain rfl := Except.ok.inj hresult'
  cases htable
  have hkeys : KEY_RCODE ≠ KEY_RESULT ∧ KEY_RETRY_AFTER_MS ≠ KEY_RESULT ∧
      KEY_RETRY_AFTER_MS ≠ KEY_RCODE := by decide
  obtain ⟨hrr, hhr, hhc⟩ := hkeys
  have hbody : (ShmClientZc.response json
      ⟨some m.rid, rcode.toInt32, JSON.payload json result⟩).body =
      JsonResponse.setResult (JsonResponse.setRcode .null rcode) result := by
    refine (congrArg JsonTable.value (ShmZcReader.payload_reads hreads _ _)).trans ?_
    rw [EnumValue.ofInt32_toInt32]
  have hobject : (ShmClientZc.response json
      ⟨some m.rid, rcode.toInt32, JSON.payload json result⟩).body.isTable = true := by
    rw [hbody]
    exact JsonValue.isTable_value _
  have hfields := hbody
  simp only [JsonResponse.setResult, JsonResponse.setRcode] at hfields
  constructor
  · rfl
  · rfl
  · rw [hrcode, JsonResponse.rcode, JsonValue.index_eq hobject, hfields,
      JsonValue.field_set_of_ne hrr, JsonValue.field_set_self]
    simp
  · rw [hresult, JsonResponse.result, JsonValue.index_eq hobject, hfields,
      JsonValue.field_set_self]
  · have hread : ∀ data : JsonValue, data.isTable = true →
        JsonResponse.retryAfterMs data = (data.field KEY_RETRY_AFTER_MS).asInt64 :=
      fun data hdata => JsonValue.get_bind hdata _ rfl
    rw [hread _ hobject, hfields, JsonValue.field_set_of_ne hhr, JsonValue.field_set_of_ne hhc]
    rfl

end Responses

end LyqtRpc
