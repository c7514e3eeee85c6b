import LyqtRpc.JsonMessage

/-!
Which input makes a JSON message class throw: what `unserialize` and `check`
convert without having looked at the type, and what the accessors convert that
`check` did not look at.
-/

set_option autoImplicit false

namespace LyqtRpc

/-- Call an accessor for the exception it may throw. -/
def called {α : Type} (x : Except CppException α) : Except CppException Unit := (fun _ => ()) <$> x

@[simp] theorem returns_called {α : Type} {x : Except CppException α} :
    Returns (called x) ↔ Returns x := returns_map

namespace JsonClass

/-- The accessors of the class that the handlers use. -/
def accessors (json : Jsoncpp) (data : JsonValue) : JsonClass → List (Except CppException Unit)
  | .RpcRequest =>
    [called (JsonRequest.method json data), called (RpcRequest.params data),
      called (JsonRequest.traceId json data)]
  | .RpcResponse | .TopicResponse => [called (JsonResponse.rcode data)]
  | .TopicRequest =>
    [called (JsonRequest.method json data), called (JsonRequest.traceId json data),
      called (TopicRequest.topicKey json data), called (TopicRequest.optype data),
      called (TopicRequest.topicMsg json data), called (TopicRequest.forwardStrategy data),
      called (TopicRequest.fanoutLimit data), called (TopicRequest.shardKey json data),
      called (TopicRequest.priority data), called (TopicRequest.tags data),
      called (TopicRequest.redundantCount data)]
  | .ServiceRequest =>
    [called (JsonRequest.method json data), called (JsonRequest.traceId json data),
      called (ServiceRequest.optype data), called (ServiceRequest.host json data),
      called (ServiceRequest.load data)]
  | .ServiceResponse =>
    [called (JsonResponse.rcode data), called (ServiceResponse.method json data),
      called (ServiceResponse.optype data)]

end JsonClass

/-- No exception from `unserialize`, from `check` on what it filled in, or from
an accessor after `check` returned true. -/
def NeverThrows (json : Jsoncpp) (cls : JsonClass) (m : BaseMessage JsonValue)
    (msg : Bytes) : Prop :=
  Returns (JsonMessage.unserialize json msg m) ∧
  ∀ filled, JsonMessage.unserialize json msg m = .ok (some filled) →
    Returns (cls.check json filled.body) ∧
    (cls.check json filled.body = .ok true → ∀ x ∈ cls.accessors json filled.body, Returns x)

namespace TopicRequest

/-- The field the forward strategy needs converts. -/
def strategyConverts (data : JsonValue) : Prop :=
  match (data.field KEY_TOPIC_FORWARD).asInt with
  | .error _ => False
  | .ok code =>
    match (.ofInt32 code : EnumValue TopicForwardStrategy) with
    | .named .FANOUT => (data.field KEY_TOPIC_FANOUT).fitsInt = true
    | .named .SOURCE_HASH => (data.field KEY_TOPIC_SHARD_KEY).isText = true
    | .named .PRIORITY => (data.field KEY_TOPIC_PRIORITY).fitsInt = true
    | .named .REDUNDANT => (data.field KEY_TOPIC_REDUNDANT).fitsInt = true
    | _ => True

/-- The field the forward strategy needs has a value it can use. -/
def strategyUsable (json : Jsoncpp) (data : JsonValue) : Prop :=
  match (data.field KEY_TOPIC_FORWARD).asInt with
  | .error _ => False
  | .ok code =>
    match (.ofInt32 code : EnumValue TopicForwardStrategy) with
    | .named .FANOUT => ∃ n, (data.field KEY_TOPIC_FANOUT).asInt = .ok n ∧ 0 < n
    | .named .SOURCE_HASH => ∃ s, (data.field KEY_TOPIC_SHARD_KEY).asString json = .ok s ∧ s ≠ []
    | .named .PRIORITY =>
      ∃ n, (data.field KEY_TOPIC_PRIORITY).asInt = .ok n ∧
        (0 < n ∨ (data.field KEY_TOPIC_TAGS).strings ≠ [])
    | .named .REDUNDANT => ∃ n, (data.field KEY_TOPIC_REDUNDANT).asInt = .ok n ∧ 1 < n
    | _ => True

end TopicRequest

namespace ServiceRequest

/-- The host has the types that a request other than DISCOVER must have. -/
def hostTyped (data : JsonValue) : Prop :=
  (data.field KEY_HOST).isObject = true ∧
  ((data.field KEY_HOST).field KEY_HOST_IP).isString = true ∧
  ((data.field KEY_HOST).field KEY_HOST_PORT).isIntegral = true

end ServiceRequest

namespace JsonClass

/-- Every value that `check` converts has a type and a range that converts. -/
def checkConverts (data : JsonValue) : JsonClass → Prop
  | .RpcRequest | .RpcResponse | .TopicResponse => True
  | .TopicRequest =>
    (data.field KEY_TOPIC_KEY).isString = true → (data.field KEY_OPTYPE).isIntegral = true →
      (data.field KEY_OPTYPE).fitsInt = true ∧
      (((data.field KEY_OPTYPE).asInt = .ok TopicOpType.PUBLISH.code →
          (data.field KEY_TOPIC_MSG).isString = true) → TopicRequest.strategyConverts data)
  | .ServiceRequest =>
    (data.field KEY_METHOD).isString = true → (data.field KEY_OPTYPE).isIntegral = true →
      (data.field KEY_OPTYPE).fitsInt = true
  | .ServiceResponse =>
    (data.field KEY_RCODE).isIntegral = true → (data.field KEY_OPTYPE).isIntegral = true →
      (data.field KEY_OPTYPE).fitsInt = true

/-- What `check` returns true for, where it converts. -/
def accepts (json : Jsoncpp) (data : JsonValue) : JsonClass → Prop
  | .RpcRequest =>
    (data.field KEY_METHOD).isString = true ∧ (data.field KEY_PARAMS).isObject = true
  | .RpcResponse =>
    (data.field KEY_RCODE).isIntegral = true ∧ (data.field KEY_RESULT).isNull = false
  | .TopicResponse => (data.field KEY_RCODE).isIntegral = true
  | .TopicRequest =>
    (data.field KEY_TOPIC_KEY).isString = true ∧ (data.field KEY_OPTYPE).isIntegral = true ∧
    (data.field KEY_OPTYPE).fitsInt = true ∧
    ((data.field KEY_OPTYPE).asInt = .ok TopicOpType.PUBLISH.code →
      (data.field KEY_TOPIC_MSG).isString = true) ∧
    TopicRequest.strategyUsable json data
  | .ServiceRequest =>
    (data.field KEY_METHOD).isString = true ∧ (data.field KEY_OPTYPE).isIntegral = true ∧
    (data.field KEY_OPTYPE).fitsInt = true ∧
    ((data.field KEY_OPTYPE).asInt ≠ .ok ServiceOpType.DISCOVER.code →
      ServiceRequest.hostTyped data) ∧
    ((data.field KEY_OPTYPE).asInt = .ok ServiceOpType.LOAD_REPORT.code →
      (data.field KEY_LOAD).isIntegral = true)
  | .ServiceResponse =>
    (data.field KEY_RCODE).isIntegral = true ∧ (data.field KEY_OPTYPE).isIntegral = true ∧
    (data.field KEY_OPTYPE).fitsInt = true ∧
    ((data.field KEY_OPTYPE).asInt = .ok ServiceOpType.DISCOVER.code →
      (data.field KEY_METHOD).isString = true ∧ (data.field KEY_HOST).isArray = true)

/-- Every value that an accessor converts has a type and a range that converts. -/
def accessorsConvert (data : JsonValue) : JsonClass → Prop
  | .RpcRequest =>
    (data.field KEY_METHOD).isText = true ∧ (data.field KEY_TRACE_ID).isText = true
  | .RpcResponse | .TopicResponse => (data.field KEY_RCODE).fitsInt = true
  | .TopicRequest =>
    (data.field KEY_METHOD).isText = true ∧ (data.field KEY_TRACE_ID).isText = true ∧
    (data.field KEY_TOPIC_KEY).isText = true ∧ (data.field KEY_OPTYPE).fitsInt = true ∧
    (data.field KEY_TOPIC_MSG).isText = true ∧ (data.field KEY_TOPIC_FORWARD).fitsInt = true ∧
    (data.field KEY_TOPIC_FANOUT).fitsInt = true ∧
    (data.field KEY_TOPIC_SHARD_KEY).isText = true ∧
    (data.field KEY_TOPIC_PRIORITY).fitsInt = true ∧
    (data.field KEY_TOPIC_REDUNDANT).fitsInt = true
  | .ServiceRequest =>
    (data.field KEY_METHOD).isText = true ∧ (data.field KEY_TRACE_ID).isText = true ∧
    (data.field KEY_OPTYPE).fitsInt = true ∧
    ((data.field KEY_HOST).isTable = true ∧
      ((data.field KEY_HOST).field KEY_HOST_IP).isText = true ∧
      ((data.field KEY_HOST).field KEY_HOST_PORT).fitsInt = true) ∧
    (data.field KEY_LOAD).fitsInt = true
  | .ServiceResponse =>
    (data.field KEY_RCODE).fitsInt = true ∧ (data.field KEY_METHOD).isText = true ∧
    (data.field KEY_OPTYPE).fitsInt = true

end JsonClass

variable {json : Jsoncpp} {data : JsonValue}

theorem JsonRequest.traceId_eq (h : data.isTable = true) :
    JsonRequest.traceId json data = (data.field KEY_TRACE_ID).asString json :=
  JsonValue.get_bind h _ rfl

theorem JsonRequest.spanId_eq (h : data.isTable = true) :
    JsonRequest.spanId json data = (data.field KEY_SPAN_ID).asString json :=
  JsonValue.get_bind h _ rfl

theorem JsonRequest.method_eq (h : data.isTable = true) :
    JsonRequest.method json data = (data.field KEY_METHOD).asString json := by
  simp only [JsonRequest.method, JsonValue.index_eq h, ok_bind]

theorem ServiceRequest.load_eq (h : data.isTable = true) :
    ServiceRequest.load data = (data.field KEY_LOAD).asInt := JsonValue.get_bind h _ rfl

theorem JsonResponse.check_eq (h : data.isTable = true) :
    JsonResponse.check data = .ok (data.field KEY_RCODE).isIntegral := by
  simp only [JsonResponse.check, JsonValue.isMember_eq h, JsonValue.index_eq h, ok_bind]
  cases hmember : data.hasMember KEY_RCODE with
  | false =>
      rw [JsonValue.field_of_not_hasMember hmember]
      rfl
  | true => rfl

namespace TopicRequest

theorem forwardStrategy_eq (h : data.isTable = true) :
    forwardStrategy data =
      (data.field KEY_TOPIC_FORWARD).asInt >>= fun code => pure (.ofInt32 code) :=
  JsonValue.get_bind (f := fun v => v.asInt >>= fun code => pure (EnumValue.ofInt32 code)) h _ rfl

theorem fanoutLimit_eq (h : data.isTable = true) :
    fanoutLimit data = (data.field KEY_TOPIC_FANOUT).asInt := JsonValue.get_bind h _ rfl

theorem shardKey_eq (h : data.isTable = true) :
    shardKey json data = (data.field KEY_TOPIC_SHARD_KEY).asString json :=
  JsonValue.get_bind h _ rfl

theorem priority_eq (h : data.isTable = true) :
    priority data = (data.field KEY_TOPIC_PRIORITY).asInt := JsonValue.get_bind h _ rfl

theorem tags_eq (h : data.isTable = true) :
    tags data = .ok (data.field KEY_TOPIC_TAGS).strings :=
  JsonValue.get_bind (f := fun v => .ok v.strings) h _ rfl

theorem redundantCount_eq (h : data.isTable = true) :
    redundantCount data = (data.field KEY_TOPIC_REDUNDANT).asInt := JsonValue.get_bind h _ rfl

theorem checkStrategy_returns (h : data.isTable = true) :
    Returns (checkStrategy json data) ↔ strategyConverts data := by
  unfold checkStrategy strategyConverts
  rw [forwardStrategy_eq h, fanoutLimit_eq h, shardKey_eq h, priority_eq h, tags_eq h,
    redundantCount_eq h]
  cases (data.field KEY_TOPIC_FORWARD).asInt with
  | error e => simp
  | ok code =>
      simp only [ok_bind]
      cases (.ofInt32 code : EnumValue TopicForwardStrategy) with
      | named strategy =>
          cases strategy with
          | PRIORITY =>
              have hpure : ∀ n : Int32, Returns (if 0 < n then pure true
                  else pure (decide ((data.field KEY_TOPIC_TAGS).strings ≠ [])) :
                    Except CppException Bool) := by
                intro n
                split <;> exact returns_pure _
              simp only [pure_bind]
              rw [returns_bind_of hpure, JsonValue.asInt_returns_iff]
          | _ => simp
      | unnamed c hc => simp

theorem checkStrategy_accepts (h : data.isTable = true) :
    checkStrategy json data = .ok true ↔ strategyUsable json data := by
  unfold checkStrategy strategyUsable
  rw [forwardStrategy_eq h, fanoutLimit_eq h, shardKey_eq h, priority_eq h, tags_eq h,
    redundantCount_eq h]
  cases (data.field KEY_TOPIC_FORWARD).asInt with
  | error e => simp
  | ok code =>
      simp only [ok_bind]
      cases (.ofInt32 code : EnumValue TopicForwardStrategy) with
      | named strategy =>
          cases strategy with
          | PRIORITY =>
              simp only [pure_bind, bind_eq_ok]
              refine exists_congr fun n => and_congr_right fun _ => ?_
              by_cases hn : 0 < n <;> simp [hn]
          | _ => simp [map_eq_ok]
      | unnamed c hc => simp

end TopicRequest

theorem RpcRequest.check_eq (h : data.isTable = true) :
    RpcRequest.check data =
      .ok ((data.field KEY_METHOD).isString && (data.field KEY_PARAMS).isObject) := by
  simp only [RpcRequest.check, JsonValue.index_eq h, ok_bind,
    JsonValue.not_isString_or_isNull, JsonValue.not_isObject_or_isNull]
  cases (data.field KEY_METHOD).isString <;> cases (data.field KEY_PARAMS).isObject <;> rfl

theorem RpcResponse.check_eq (h : data.isTable = true) :
    RpcResponse.check data =
      .ok ((data.field KEY_RCODE).isIntegral && !(data.field KEY_RESULT).isNull) := by
  simp only [RpcResponse.check, JsonValue.index_eq h, ok_bind, JsonValue.not_isIntegral_or_isNull]
  cases (data.field KEY_RCODE).isIntegral <;> cases (data.field KEY_RESULT).isNull <;> rfl

theorem ServiceRequest.checkHost_eq (h : data.isTable = true) :
    ServiceRequest.checkHost data = .ok ((data.field KEY_HOST).isObject &&
      ((data.field KEY_HOST).field KEY_HOST_IP).isString &&
      ((data.field KEY_HOST).field KEY_HOST_PORT).isIntegral) := by
  simp only [ServiceRequest.checkHost, JsonValue.index_eq h, ok_bind,
    JsonValue.not_isObject_or_isNull]
  cases hobject : (data.field KEY_HOST).isObject with
  | false => rfl
  | true =>
      have htable := JsonValue.isTable_of_isObject hobject
      simp only [JsonValue.index_eq htable, ok_bind, JsonValue.not_isString_or_isNull,
        JsonValue.not_isIntegral_or_isNull]
      cases ((data.field KEY_HOST).field KEY_HOST_IP).isString <;>
        cases ((data.field KEY_HOST).field KEY_HOST_PORT).isIntegral <;> rfl

theorem ServiceRequest.checkLoad_eq (h : data.isTable = true) :
    ServiceRequest.checkLoad data = .ok (data.field KEY_LOAD).isIntegral := by
  simp only [ServiceRequest.checkLoad, JsonValue.index_eq h, ok_bind,
    JsonValue.not_isIntegral_or_isNull]
  cases (data.field KEY_LOAD).isIntegral <;> rfl

theorem ServiceResponse.checkDiscover_eq (h : data.isTable = true) :
    ServiceResponse.checkDiscover data =
      .ok ((data.field KEY_METHOD).isString && (data.field KEY_HOST).isArray) := by
  simp only [ServiceResponse.checkDiscover, JsonValue.index_eq h, ok_bind,
    JsonValue.not_isString_or_isNull, JsonValue.not_isArray_or_isNull]
  cases (data.field KEY_METHOD).isString <;> cases (data.field KEY_HOST).isArray <;> rfl

section Typed
variable {first second : Bool} {v : JsonValue} {f : Int32 → Except CppException Bool} {Q : Prop}

/-- The way into a check: two members have their types, and only then is the
operation code converted. -/
theorem typed_returns (hcode : ∀ code, v.asInt = .ok code → (Returns (f code) ↔ Q)) :
    Returns (if (!first) = true then pure false
      else if (!second) = true then pure false else v.asInt >>= f) ↔
      (first = true → second = true → v.fitsInt = true ∧ Q) := by
  cases first with
  | false => simp
  | true =>
      cases second with
      | false => simp
      | true =>
          rcases JsonValue.asInt_cases v with ⟨e, herr, hfits⟩ | ⟨code, hok, hfits⟩
          · simp [herr, hfits]
          · simp [hok, hfits, hcode code hok]

theorem typed_accepts (hcode : ∀ code, v.asInt = .ok code → (f code = .ok true ↔ Q)) :
    (if (!first) = true then pure false
      else if (!second) = true then pure false else v.asInt >>= f) = .ok true ↔
      first = true ∧ second = true ∧ v.fitsInt = true ∧ Q := by
  cases first with
  | false => simp
  | true =>
      cases second with
      | false => simp
      | true =>
          rcases JsonValue.asInt_cases v with ⟨e, herr, hfits⟩ | ⟨code, hok, hfits⟩
          · simp [herr, hfits]
          · simp [hok, hfits, hcode code hok]

end Typed

namespace JsonClass

theorem check_returns (h : data.isTable = true) (cls : JsonClass) :
    Returns (cls.check json data) ↔ cls.checkConverts data := by
  cases cls with
  | RpcRequest => simp [check, checkConverts, RpcRequest.check_eq h]
  | RpcResponse => simp [check, checkConverts, RpcResponse.check_eq h]
  | TopicResponse => simp [check, checkConverts, JsonResponse.check_eq h]
  | TopicRequest =>
      simp only [check, checkConverts, TopicRequest.check, JsonValue.index_eq h, ok_bind,
        JsonValue.not_isString_or_isNull, JsonValue.not_isIntegral_or_isNull]
      refine typed_returns fun code hcode => ?_
      by_cases hpublish : code = TopicOpType.PUBLISH.code
      · cases (data.field KEY_TOPIC_MSG).isString <;>
          simp [hcode, hpublish, TopicRequest.checkStrategy_returns h]
      · simp [hcode, hpublish, TopicRequest.checkStrategy_returns h]
  | ServiceRequest =>
      simp only [check, checkConverts, ServiceRequest.check, JsonValue.index_eq h, ok_bind,
        JsonValue.not_isString_or_isNull, JsonValue.not_isIntegral_or_isNull,
        ServiceRequest.checkHost_eq h, ServiceRequest.checkLoad_eq h]
      refine (typed_returns (Q := True) fun code _ => iff_of_true ?_ trivial).trans ?_
      · repeat' split
        all_goals simp
      · simp only [and_true]
  | ServiceResponse =>
      simp only [check, checkConverts, ServiceResponse.check, JsonValue.index_eq h, ok_bind,
        JsonValue.not_isIntegral_or_isNull, ServiceResponse.checkDiscover_eq h]
      refine (typed_returns (Q := True) fun code _ => iff_of_true ?_ trivial).trans ?_
      · repeat' split
        all_goals simp
      · simp only [and_true]

theorem check_accepts (h : data.isTable = true) (cls : JsonClass) :
    cls.check json data = .ok true ↔ cls.accepts json data := by
  cases cls with
  | RpcRequest => simp [check, accepts, RpcRequest.check_eq h]
  | RpcResponse => simp [check, accepts, RpcResponse.check_eq h]
  | TopicResponse => simp [check, accepts, JsonResponse.check_eq h]
  | TopicRequest =>
      simp only [check, accepts, TopicRequest.check, JsonValue.index_eq h, ok_bind,
        JsonValue.not_isString_or_isNull, JsonValue.not_isIntegral_or_isNull]
      refine typed_accepts fun code hcode => ?_
      by_cases hpublish : code = TopicOpType.PUBLISH.code
      · cases (data.field KEY_TOPIC_MSG).isString <;>
          simp [hcode, hpublish, TopicRequest.checkStrategy_accepts h]
      · simp [hcode, hpublish, TopicRequest.checkStrategy_accepts h]
  | ServiceRequest =>
      simp only [check, accepts, ServiceRequest.check, JsonValue.index_eq h, ok_bind,
        JsonValue.not_isString_or_isNull, JsonValue.not_isIntegral_or_isNull,
        ServiceRequest.checkHost_eq h, ServiceRequest.checkLoad_eq h, ServiceRequest.hostTyped]
      refine typed_accepts fun code hcode => ?_
      by_cases hdiscover : code = ServiceOpType.DISCOVER.code
      · simp [hcode, hdiscover, ServiceOpType.code]
      · have hne : ServiceOpType.LOAD_REPORT.code ≠ ServiceOpType.DISCOVER.code := by decide
        cases (data.field KEY_HOST).isObject <;>
          cases ((data.field KEY_HOST).field KEY_HOST_IP).isString <;>
          cases ((data.field KEY_HOST).field KEY_HOST_PORT).isIntegral <;>
          by_cases hreport : code = ServiceOpType.LOAD_REPORT.code <;>
          simp [hcode, hdiscover, hreport, hne]
  | ServiceResponse =>
      simp only [check, accepts, ServiceResponse.check, JsonValue.index_eq h, ok_bind,
        JsonValue.not_isIntegral_or_isNull, ServiceResponse.checkDiscover_eq h]
      refine typed_accepts fun code hcode => ?_
      by_cases hdiscover : code = ServiceOpType.DISCOVER.code <;>
        simp [hcode, hdiscover]

theorem host_returns (h : data.isTable = true) :
    Returns (ServiceRequest.host json data) ↔
      (data.field KEY_HOST).isTable = true ∧
      ((data.field KEY_HOST).field KEY_HOST_IP).isText = true ∧
      ((data.field KEY_HOST).field KEY_HOST_PORT).fitsInt = true := by
  simp only [ServiceRequest.host, JsonValue.index_eq h, ok_bind]
  cases htable : (data.field KEY_HOST).isTable with
  | false =>
      have hthrow : ¬ Returns ((data.field KEY_HOST).index KEY_HOST_IP) := by
        simp [JsonValue.index_returns_iff, htable]
      simp only [returns_bind, Bool.false_eq_true, false_and, iff_false]
      rintro ⟨ip, hip, _⟩
      exact hthrow ⟨ip, hip⟩
  | true =>
      simp only [JsonValue.index_eq htable, ok_bind, true_and, returns_bind, returns_pure, and_true,
        exists_and_right]
      rw [← JsonValue.asString_returns_iff json, ← JsonValue.asInt_returns_iff]
      rfl

theorem accessors_return (h : data.isTable = true) (cls : JsonClass) :
    (∀ x ∈ cls.accessors json data, Returns x) ↔ cls.accessorsConvert data := by
  cases cls <;>
    simp [accessors, accessorsConvert, JsonRequest.method_eq h, JsonRequest.traceId_eq h,
      RpcRequest.params, JsonResponse.rcode, TopicRequest.topicKey, TopicRequest.optype,
      TopicRequest.topicMsg, TopicRequest.forwardStrategy_eq h, TopicRequest.fanoutLimit_eq h,
      TopicRequest.shardKey_eq h, TopicRequest.priority_eq h, TopicRequest.tags_eq h,
      TopicRequest.redundantCount_eq h, ServiceRequest.optype, host_returns h,
      ServiceRequest.load_eq h, ServiceResponse.method, ServiceResponse.optype,
      JsonValue.index_eq h]

/-- Every `check` starts with a member access. -/
theorem check_throws (h : data.isTable = false) (cls : JsonClass) :
    ¬ Returns (cls.check json data) := by
  have hindex : ∀ key (f : JsonValue → Except CppException Bool),
      ¬ Returns (data.index key >>= f) := by
    intro key f hreturns
    obtain ⟨v, hv, _⟩ := returns_bind.mp hreturns
    have htable := JsonValue.index_returns_iff.mp ⟨v, hv⟩
    rw [h] at htable
    cases htable
  cases cls with
  | TopicResponse =>
      intro hreturns
      obtain ⟨b, hb, _⟩ := returns_bind.mp hreturns
      obtain ⟨found, hfound, _⟩ := bind_eq_ok.mp hb
      have htable := JsonValue.find_returns_iff.mp ⟨found, hfound⟩
      rw [h] at htable
      cases htable
  | _ => exact hindex _ _

end JsonClass

/-- The input converts wherever a message of the class converts it. -/
structure Convertible (json : Jsoncpp) (cls : JsonClass) (data : JsonValue) : Prop where
  id : (data.field (str "id")).isText = true
  table : data.isTable = true
  check : cls.checkConverts data
  accessors : cls.accepts json data → cls.accessorsConvert data

theorem unserialize_eq {m : BaseMessage JsonValue} {msg : Bytes}
    (hdata : JSON.deserialize json msg = some data) :
    if (data.field (str "id")).isText then
      ∃ filled, JsonMessage.unserialize json msg m = .ok (some filled) ∧ filled.body = data
    else ¬ Returns (JsonMessage.unserialize json msg m) := by
  simp only [JsonMessage.unserialize, hdata]
  cases hobject : data.isObject with
  | false =>
      have hid : data.field (str "id") = .null := by
        cases data with
        | object members => cases hobject
        | _ => rfl
      simp [hid, JsonValue.isText]
  | true =>
      have htable := JsonValue.isTable_of_isObject hobject
      simp only [if_true, JsonValue.isMember_eq htable, ok_bind, JsonValue.index_eq htable]
      cases hmember : data.hasMember (str "id") with
      | false =>
          rw [JsonValue.field_of_not_hasMember hmember]
          exact ⟨_, rfl, rfl⟩
      | true =>
          simp only [if_true]
          cases htext : (data.field (str "id")).isText with
          | false =>
              simp only [Bool.false_eq_true, if_false, returns_bind]
              rintro ⟨id, hid, _⟩
              have htrue := (JsonValue.asString_returns_iff json).mp ⟨id, hid⟩
              rw [htext] at htrue
              cases htrue
          | true =>
              obtain ⟨id, hid⟩ := (JsonValue.asString_returns_iff json).mpr htext
              rw [hid]
              exact ⟨_, rfl, rfl⟩

/-- A JSON message class never throws on a byte string exactly if what the
string parses to, if it parses, converts wherever the class converts it. -/
theorem json_never_throws (json : Jsoncpp) (cls : JsonClass) (m : BaseMessage JsonValue)
    (msg : Bytes) :
    NeverThrows json cls m msg ↔
      ∀ data, JSON.deserialize json msg = some data → Convertible json cls data := by
  cases hdata : JSON.deserialize json msg with
  | none =>
      have hfalse : JsonMessage.unserialize json msg m = .ok none := by
        simp only [JsonMessage.unserialize, hdata]
      simp [NeverThrows, hfalse]
  | some data =>
      have hun := unserialize_eq (m := m) hdata
      simp only [Option.some.injEq, forall_eq']
      constructor
      · rintro ⟨hreturns, hfilled⟩
        split at hun
        · rename_i hid
          obtain ⟨filled, hok, rfl⟩ := hun
          obtain ⟨hcheck, haccess⟩ := hfilled filled hok
          have htable : filled.body.isTable = true := by
            cases ht : filled.body.isTable with
            | true => rfl
            | false => exact absurd hcheck (JsonClass.check_throws ht cls)
          refine ⟨hid, htable, (JsonClass.check_returns htable cls).mp hcheck, fun haccept => ?_⟩
          exact (JsonClass.accessors_return htable cls).mp
            (haccess ((JsonClass.check_accepts htable cls).mpr haccept))
        · exact absurd hreturns hun
      · rintro ⟨hid, htable, hcheck, haccess⟩
        rw [if_pos hid] at hun
        obtain ⟨filled, hok, rfl⟩ := hun
        refine ⟨⟨_, hok⟩, fun filled' hok' => ?_⟩
        rw [hok] at hok'
        cases hok'
        exact ⟨(JsonClass.check_returns htable cls).mpr hcheck, fun haccept =>
          (JsonClass.accessors_return htable cls).mpr
            (haccess ((JsonClass.check_accepts htable cls).mp haccept))⟩

/-- An object whose `id` is an object. -/
def objectIdText : Bytes := str "\x7b\"id\":\x7b\x7d\x7d"

/-- A reader that knows this one text. -/
def objectIdReader : Jsoncpp where
  realText _ := []
  parse input :=
    if input = objectIdText then .ok (some (.object [(str "id", .object [])])) else .ok none
  write _ := none

theorem json_object_id_throws :
    ¬ ∀ (json : Jsoncpp) (cls : JsonClass) (m : BaseMessage JsonValue) (msg : Bytes),
      NeverThrows json cls m msg := by
  intro h
  obtain ⟨⟨filled, hfilled⟩, _⟩ :=
    h objectIdReader .RpcRequest { msgType := .named .REQ_RPC, body := .null } objectIdText
  have hthrows : JsonMessage.unserialize objectIdReader objectIdText
      { msgType := .named .REQ_RPC, body := .null } = .error .jsonLogicError := by rfl
  rw [hthrows] at hfilled
  cases hfilled

end LyqtRpc
