import LyqtRpc.LVStream
import LyqtRpc.MessageAccess

/-!
Which messages come back from the wire: all but those with nothing to write,
those whose retry hint the envelope has no field for, and those whose length
does not fit the length field.
-/

set_option autoImplicit false

namespace LyqtRpc

open StepRun

variable {json : Jsoncpp} {proto : Protobuf}

/-! What the setters leave behind. -/

/-- A call that sets one member, and not the id. -/
def SetsMember (data data' : JsonTable) : Prop :=
  ∃ key w, str "id" ≠ key ∧ data' = data.set key w

theorem JsonRequest.apply_sets {data data' : JsonTable} {s : Setter}
    (h : JsonRequest.apply data s = some data') : SetsMember data data' := by
  unfold JsonRequest.apply at h
  split at h <;> cases h <;> exact ⟨_, _, by decide, rfl⟩

theorem JsonResponse.apply_sets {data data' : JsonTable} {s : Setter}
    (h : JsonResponse.apply data s = some data') : SetsMember data data' := by
  unfold JsonResponse.apply at h
  split at h <;> cases h <;> exact ⟨_, _, by decide, rfl⟩

theorem RpcRequest.apply_sets {data data' : JsonTable} {s : Setter}
    (h : RpcRequest.apply data s = some data') : SetsMember data data' := by
  unfold RpcRequest.apply at h
  split at h
  · cases h
    exact ⟨_, _, by decide, rfl⟩
  · exact JsonRequest.apply_sets h

theorem TopicRequest.apply_sets {data data' : JsonTable} {s : Setter}
    (h : TopicRequest.apply data s = some data') : SetsMember data data' := by
  unfold TopicRequest.apply at h
  split at h
  case h_10 => exact JsonRequest.apply_sets h
  all_goals
    cases h
    exact ⟨_, _, by decide, rfl⟩

theorem ServiceRequest.apply_sets {data data' : JsonTable} {s : Setter}
    (h : ServiceRequest.apply data s = some data') : SetsMember data data' := by
  unfold ServiceRequest.apply at h
  split at h
  case h_4 => exact JsonRequest.apply_sets h
  all_goals
    cases h
    exact ⟨_, _, by decide, rfl⟩

theorem ServiceResponse.apply_sets {data data' : JsonTable} {s : Setter}
    (h : ServiceResponse.apply data s = some data') : SetsMember data data' := by
  unfold ServiceResponse.apply at h
  split at h
  case h_5 => exact JsonResponse.apply_sets h
  all_goals
    cases h
    exact ⟨_, _, by decide, rfl⟩

theorem JsonClass.apply_sets {cls : JsonClass} {data data' : JsonTable} {s : Setter}
    (h : cls.apply data s = some data') : SetsMember data data' := by
  cases cls with
  | RpcRequest => exact RpcRequest.apply_sets h
  | RpcResponse => exact JsonResponse.apply_sets h
  | TopicRequest => exact TopicRequest.apply_sets h
  | TopicResponse => exact JsonResponse.apply_sets h
  | ServiceRequest => exact ServiceRequest.apply_sets h
  | ServiceResponse => exact ServiceResponse.apply_sets h

namespace MessageBody

/-- JSON data that setters made: a table in which nobody has put an id. -/
def Clean : MessageBody → Prop
  | .json _ data => data.isTable = true ∧ data.hasMember (str "id") = false
  | _ => True

theorem apply_json {cls : JsonClass} {data : JsonValue} {body' : MessageBody} {s : Setter}
    (h : (MessageBody.json cls data).apply s = some body') :
    ∃ t t' : JsonTable,
      data = t ∧ cls.apply t s = some t' ∧ body' = .json cls t'.value := by
  obtain ⟨t, ht, h⟩ := Option.bind_eq_some_iff.mp h
  obtain ⟨t', happly, rfl⟩ := Option.map_eq_some_iff.mp h
  exact ⟨t, t', JsonValue.asTable_eq_some.mp ht, happly, rfl⟩

theorem apply_type {body body' : MessageBody} {s : Setter} (h : body.apply s = some body') :
    body'.type = body.type := by
  cases body with
  | json cls data =>
      obtain ⟨t, t', _, _, rfl⟩ := apply_json h
      rfl
  | _ =>
      obtain ⟨_, _, rfl⟩ := Option.map_eq_some_iff.mp h
      rfl

theorem apply_clean {body body' : MessageBody} {s : Setter} (hclean : body.Clean)
    (h : body.apply s = some body') : body'.Clean := by
  cases body with
  | json cls data =>
      obtain ⟨t, t', rfl, happly, rfl⟩ := apply_json h
      obtain ⟨key, w, hkey, rfl⟩ := JsonClass.apply_sets happly
      refine ⟨JsonValue.isTable_value _, ?_⟩
      rw [JsonValue.hasMember_set_of_ne hkey, hclean.2]
  | _ =>
      obtain ⟨_, _, rfl⟩ := Option.map_eq_some_iff.mp h
      trivial

theorem make_type {t : MsgType} {body : MessageBody} (h : MessageFactory.make t = some body) :
    body.type = t ∧ body.Clean := by
  unfold MessageFactory.make at h
  split at h <;> cases h
  all_goals exact ⟨rfl, by trivial⟩

end MessageBody

theorem BuiltBySetters.type_clean {m : BaseMessage MessageBody} (h : BuiltBySetters m) :
    m.msgType = .named m.body.type ∧ m.body.Clean := by
  obtain ⟨made, hcreate, hrun⟩ := h
  cases ht : m.msgType with
  | unnamed c hc =>
      rw [ht] at hcreate
      cases hcreate
  | named t =>
      rw [ht] at hcreate
      obtain ⟨body, hmake, rfl⟩ := Option.map_eq_some_iff.mp hcreate
      have hinv : m.body.type = t ∧ m.body.Clean := by
        apply Run.invariant (fun body => body.type = t ∧ body.Clean)
          (MessageBody.make_type hmake) _ hrun
        intro b s b' hb _ hs
        exact ⟨(MessageBody.apply_type hs).trans hb.1, MessageBody.apply_clean hb.2 hs⟩
      exact ⟨by rw [hinv.1], hinv.2⟩

/-! What is parsed back. -/

namespace MessageBody

/-- What the receiver holds. -/
def received (rid : Bytes) : MessageBody → MessageBody
  | .json cls data => .json cls (JsonMessage.written rid data)
  | .protoRpcRequest e => .protoRpcRequest (ProtoRpcRequest.withId rid e)
  | .protoRpcResponse r => .protoRpcResponse { envelope := ProtoRpcResponse.withId rid r.envelope }
  | body => body

/-- A response all of whose fields have their default values. -/
def NothingToWrite (rid : Bytes) : MessageBody → Prop
  | .protoRpcResponse r => rid = [] ∧ r.envelope = {}
  | .protoTopicResponse e => e = {}
  | .protoServiceResponse e => e = {}
  | _ => False

/-- The hint that is kept beside the envelope. -/
def memoryHint : MessageBody → Int64
  | .protoRpcResponse r => r.retryAfterMs
  | _ => 0

end MessageBody

namespace JsonMessage
variable {rid : Bytes} {data : JsonValue} {t : JsonTable}

theorem written_nil : written [] data = data := rfl

theorem copy_value (rid : Bytes) (t : JsonTable) : copy rid t = .ok (written rid t) := by
  rw [written, copy, JsonValue.set_value]
  split <;> rfl

theorem written_of_ne (hrid : rid ≠ []) :
    written rid t = (t.set (str "id") (.string rid)).value := by
  rw [written, copy, if_neg hrid, JsonValue.set_value]
  rfl

theorem isTable_written (h : data.isTable = true) : (written rid data).isTable = true := by
  obtain ⟨t, rfl⟩ := JsonValue.eq_value_of_isTable h
  by_cases hrid : rid = []
  · rw [hrid, written_nil, JsonValue.isTable_value]
  · rw [written_of_ne hrid, JsonValue.isTable_value]

theorem serialize_of_copy {m : BaseMessage JsonValue} {value : JsonValue} {text : Bytes}
    (hcopy : copy m.rid m.body = .ok value) (hwrite : json.write value = some text) :
    serialize json m = .ok text := by
  have hserialize : JSON.serialize json value = some text := hwrite
  rw [serialize, hcopy, ok_bind, hserialize]
  rfl

theorem written_of_copy {value : JsonValue} (h : copy rid data = .ok value) :
    written rid data = value := by
  rw [written, h]
  rfl

/-- The id that comes with the body is a string. -/
theorem unserialize_written {m : BaseMessage JsonValue} {text : Bytes}
    (htable : data.isTable = true) (hid : data.hasMember (str "id") = false)
    (hparse : json.parse text = .ok (some (written rid data))) :
    ∃ d, unserialize json text m = .ok (some d) ∧ d.body = written rid data := by
  have hdeserialize : JSON.deserialize json text = some (written rid data) := by
    rw [JSON.deserialize, hparse]
  simp only [unserialize, hdeserialize]
  split
  · rw [JsonValue.isMember_eq (isTable_written htable), ok_bind]
    by_cases hrid : rid = []
    · rw [hrid, written_nil, hid]
      exact ⟨_, rfl, rfl⟩
    · have hfield : (written rid data).field (str "id") = .string rid := by
        obtain ⟨t, rfl⟩ := JsonValue.eq_value_of_isTable htable
        rw [written_of_ne hrid, JsonValue.field_set_self]
      rw [JsonValue.index_eq (isTable_written htable), hfield]
      split <;> exact ⟨_, rfl, rfl⟩
  · exact ⟨_, rfl, rfl⟩

/-- With an id, the copy is an object that has it. -/
theorem unserialize_written_of_rid {text : Bytes} {m : BaseMessage JsonValue} (hrid : rid ≠ [])
    (htable : data.isTable = true) (hparse : json.parse text = .ok (some (written rid data))) :
    unserialize json text m = .ok (some ({ m with body := written rid data }.setId rid)) := by
  obtain ⟨t, rfl⟩ := JsonValue.eq_value_of_isTable htable
  rw [written_of_ne hrid] at hparse ⊢
  have hmember : (t.set (str "id") (.string rid)).value.hasMember (str "id") = true := by
    by_contra hnot
    have hnone := JsonValue.field_of_not_hasMember (Bool.eq_false_iff.mpr hnot)
    rw [JsonValue.field_set_self] at hnone
    cases hnone
  have hdeserialize : JSON.deserialize json text =
      some (t.set (str "id") (.string rid)).value := by rw [JSON.deserialize, hparse]
  simp only [unserialize, hdeserialize, if_pos (JsonValue.isObject_set _ _ _),
    JsonValue.isMember_eq (JsonValue.isTable_value _), ok_bind,
    JsonValue.index_eq (JsonValue.isTable_value _), JsonValue.field_set_self, hmember, if_true]
  rfl

end JsonMessage

namespace ProtoMessage
variable {E : Type} {codec : ProtoCodec E} {empty e : E}

theorem parse_serialize (h : codec.RoundTrips empty e) :
    codec.parseFromArray (serialize codec e) = some e := by
  obtain ⟨bytes, hwrite, hparse, _⟩ := h
  rw [serialize, hwrite]
  exact hparse

theorem serialize_eq_nil_iff (h : codec.RoundTrips empty e) :
    serialize codec e = [] ↔ e = empty := by
  obtain ⟨bytes, hwrite, _, hempty⟩ := h
  rw [serialize, hwrite]
  exact hempty

theorem unserialize_serialize (h : codec.RoundTrips empty e) (m : BaseMessage E) :
    unserialize codec (serialize codec e) m = some { m with body := e } := by
  rw [unserialize, parse_serialize h]

end ProtoMessage

theorem ProtoRpcRequest.unserialize_serialize {codec : ProtoCodec RpcRequestEnvelope}
    {m : BaseMessage RpcRequestEnvelope} (h : codec.RoundTrips {} (withId m.rid m.body))
    (m' : BaseMessage RpcRequestEnvelope) :
    ∃ d, unserialize codec (serialize codec m) m' = some d ∧ d.body = withId m.rid m.body := by
  rw [unserialize, serialize, ProtoMessage.unserialize_serialize h]
  refine ⟨_, rfl, ?_⟩
  split <;> rfl

theorem ProtoRpcResponse.unserialize_serialize {codec : ProtoCodec RpcResponseEnvelope}
    {m : BaseMessage ProtoRpcResponse} (h : codec.RoundTrips {} (withId m.rid m.body.envelope))
    (m' : BaseMessage ProtoRpcResponse) :
    ∃ d, unserialize codec (serialize codec m) m' = some d ∧
      d.body = { m'.body with envelope := withId m.rid m.body.envelope } := by
  rw [unserialize, serialize, ProtoMessage.parse_serialize h]
  refine ⟨_, rfl, ?_⟩
  split <;> rfl

/-- What the library writes is written. -/
theorem encode_json {rid : Bytes} {msgType : EnumValue MsgType} {cls : JsonClass}
    {data : JsonValue} (hlib : LibraryRoundTrips json proto ⟨rid, msgType, .json cls data⟩) :
    ∃ text, (protobufSerializer json proto).encode ⟨rid, msgType, .json cls data⟩ = .ok text ∧
      json.parse text = .ok (some (JsonMessage.written rid data)) ∧ text ≠ [] := by
  obtain ⟨value, hcopy, text, hwrite, hparse, hne⟩ := hlib
  exact ⟨text, JsonMessage.serialize_of_copy (m := ⟨rid, msgType, data⟩) hcopy hwrite,
    (JsonMessage.written_of_copy hcopy).symm ▸ hparse, hne⟩

theorem encoded_json {rid : Bytes} {msgType : EnumValue MsgType} {cls : JsonClass}
    {data : JsonValue} (hlib : LibraryRoundTrips json proto ⟨rid, msgType, .json cls data⟩) :
    ∃ text, (protobufSerializer json proto).encoded ⟨rid, msgType, .json cls data⟩ = text ∧
      json.parse text = .ok (some (JsonMessage.written rid data)) ∧ text ≠ [] := by
  obtain ⟨text, hencode, hparse, hne⟩ := encode_json hlib
  exact ⟨text, Serializer.encoded_of_encode hencode, hparse, hne⟩

theorem encode_eq_encoded {m : BaseMessage MessageBody} (hlib : LibraryRoundTrips json proto m) :
    (protobufSerializer json proto).encode m = .ok ((protobufSerializer json proto).encoded m) := by
  obtain ⟨rid, msgType, body⟩ := m
  cases body with
  | json cls data =>
      obtain ⟨text, hencode, _⟩ := encode_json hlib
      rw [hencode, Serializer.encoded_of_encode hencode]
  | _ => rfl

theorem decode_encoded {m : BaseMessage MessageBody} (hclean : m.body.Clean)
    (hlib : LibraryRoundTrips json proto m) :
    ∃ fresh d, MessageFactory.create (.named m.body.type) = some fresh ∧
      ProtobufSerializer.decode json proto ((protobufSerializer json proto).encoded m) fresh =
        .ok (some d) ∧ d.body = m.body.received m.rid := by
  obtain ⟨rid, msgType, body⟩ := m
  cases body with
  | json cls data =>
      obtain ⟨text, hencoded, hparse, _⟩ := encoded_json hlib
      have hcreate : MessageFactory.create (.named cls.type) =
          some ⟨[], .named cls.type, .json cls .null⟩ := by cases cls <;> rfl
      obtain ⟨d, hd, hbody⟩ := JsonMessage.unserialize_written (m := ⟨[], .named cls.type, .null⟩)
        hclean.1 hclean.2 hparse
      refine ⟨_, d.mapBody (.json cls), hcreate, ?_, congrArg (MessageBody.json cls) hbody⟩
      rw [ProtobufSerializer.decode, hencoded]
      exact congrArg
        (fun x => x >>= fun d => pure (d.map (BaseMessage.mapBody (MessageBody.json cls)))) hd
  | protoRpcRequest e =>
      obtain ⟨d, hd, hbody⟩ := ProtoRpcRequest.unserialize_serialize (m := ⟨rid, msgType, e⟩) hlib
        ⟨[], .named .REQ_RPC_PROTO, {}⟩
      refine ⟨_, d.mapBody .protoRpcRequest, rfl, ?_, congrArg MessageBody.protoRpcRequest hbody⟩
      exact congrArg
        (fun x => Except.ok (x.map (BaseMessage.mapBody MessageBody.protoRpcRequest))) hd
  | protoRpcResponse r =>
      obtain ⟨d, hd, hbody⟩ := ProtoRpcResponse.unserialize_serialize (m := ⟨rid, msgType, r⟩) hlib
        ⟨[], .named .RSP_RPC_PROTO, {}⟩
      refine ⟨_, d.mapBody .protoRpcResponse, rfl, ?_, congrArg MessageBody.protoRpcResponse hbody⟩
      exact congrArg
        (fun x => Except.ok (x.map (BaseMessage.mapBody MessageBody.protoRpcResponse))) hd
  | protoTopicRequest e =>
      refine ⟨_, ⟨[], .named .REQ_TOPIC_PROTO, .protoTopicRequest e⟩, rfl, ?_, rfl⟩
      exact congrArg
        (fun x => Except.ok (x.map (BaseMessage.mapBody MessageBody.protoTopicRequest)))
        (ProtoMessage.unserialize_serialize hlib ⟨[], .named .REQ_TOPIC_PROTO, {}⟩)
  | protoTopicResponse e =>
      refine ⟨_, ⟨[], .named .RSP_TOPIC_PROTO, .protoTopicResponse e⟩, rfl, ?_, rfl⟩
      exact congrArg
        (fun x => Except.ok (x.map (BaseMessage.mapBody MessageBody.protoTopicResponse)))
        (ProtoMessage.unserialize_serialize hlib ⟨[], .named .RSP_TOPIC_PROTO, {}⟩)
  | protoServiceRequest e =>
      refine ⟨_, ⟨[], .named .REQ_SERVICE_PROTO, .protoServiceRequest e⟩, rfl, ?_, rfl⟩
      exact congrArg
        (fun x => Except.ok (x.map (BaseMessage.mapBody MessageBody.protoServiceRequest)))
        (ProtoMessage.unserialize_serialize hlib ⟨[], .named .REQ_SERVICE_PROTO, {}⟩)
  | protoServiceResponse e =>
      refine ⟨_, ⟨[], .named .RSP_SERVICE_PROTO, .protoServiceResponse e⟩, rfl, ?_, rfl⟩
      exact congrArg
        (fun x => Except.ok (x.map (BaseMessage.mapBody MessageBody.protoServiceResponse)))
        (ProtoMessage.unserialize_serialize hlib ⟨[], .named .RSP_SERVICE_PROTO, {}⟩)

/-- `check` turns down every request with nothing to write. -/
theorem encoded_eq_nil_iff {m : BaseMessage MessageBody} (hcheck : m.body.check json = .ok true)
    (hlib : LibraryRoundTrips json proto m) :
    (protobufSerializer json proto).encoded m = [] ↔ m.body.NothingToWrite m.rid := by
  obtain ⟨rid, msgType, body⟩ := m
  cases body with
  | json cls data =>
      obtain ⟨text, hencoded, _, hne⟩ := encoded_json hlib
      rw [hencoded]
      exact iff_of_false hne id
  | protoRpcRequest e =>
      have hmethod : e.method ≠ [] := by
        simpa [MessageBody.check, ProtoRpcRequest.check] using hcheck
      refine (ProtoMessage.serialize_eq_nil_iff hlib).trans (iff_of_false ?_ id)
      intro hempty
      apply hmethod
      have hkept : (ProtoRpcRequest.withId rid e).method = e.method := by
        unfold ProtoRpcRequest.withId
        split <;> rfl
      rw [← hkept, hempty]
  | protoRpcResponse r =>
      refine (ProtoMessage.serialize_eq_nil_iff hlib).trans ?_
      simp only [ProtoRpcResponse.withId, MessageBody.NothingToWrite]
      split
      · rename_i hrid
        simp [hrid]
      · rename_i hrid
        refine iff_of_false ?_ (fun h => hrid h.1)
        exact fun hempty => hrid (congrArg RpcResponseEnvelope.id hempty)
  | protoTopicRequest e =>
      refine (ProtoMessage.serialize_eq_nil_iff hlib).trans (iff_of_false ?_ id)
      rintro rfl
      exact absurd (Except.ok.inj hcheck) (by decide)
  | protoTopicResponse e => exact ProtoMessage.serialize_eq_nil_iff hlib
  | protoServiceRequest e =>
      refine (ProtoMessage.serialize_eq_nil_iff hlib).trans (iff_of_false ?_ id)
      rintro rfl
      exact absurd (Except.ok.inj hcheck) (by decide)
  | protoServiceResponse e => exact ProtoMessage.serialize_eq_nil_iff hlib

/-! What the accessors read. -/

/-- No accessor looks at the id. -/
theorem JsonClass.readings_set_id (t : JsonTable) (cls : JsonClass) (w : JsonValue) :
    cls.readings json (t.set (str "id") w) = cls.readings json t := by
  cases cls <;>
    simp (disch := decide) only [readings, RpcRequest.readings, TopicRequest.readings,
      ServiceRequest.readings, ServiceResponse.readings, JsonRequest.readings,
      JsonResponse.readings, JsonRequest.method, JsonRequest.traceId, JsonRequest.spanId,
      JsonResponse.rcode, JsonResponse.result, JsonResponse.retryAfterMs, RpcRequest.params,
      TopicRequest.forwardStrategy, TopicRequest.fanoutLimit, TopicRequest.shardKey,
      TopicRequest.priority, TopicRequest.tags, TopicRequest.redundantCount,
      TopicRequest.topicKey, TopicRequest.optype, TopicRequest.topicMsg, ServiceRequest.load,
      ServiceRequest.optype, ServiceRequest.host, ServiceResponse.method,
      ServiceResponse.optype, ServiceResponse.hosts, ServiceResponse.hostsDetail,
      JsonValue.index_set_of_ne, JsonValue.get_set_of_ne]

theorem JsonClass.readings_written {data : JsonValue} (h : data.isTable = true) (cls : JsonClass)
    (rid : Bytes) : cls.readings json (JsonMessage.written rid data) = cls.readings json data := by
  obtain ⟨t, rfl⟩ := JsonValue.eq_value_of_isTable h
  by_cases hrid : rid = []
  · rw [hrid, JsonMessage.written_nil]
  · rw [JsonMessage.written_of_ne hrid, readings_set_id]

namespace MessageBody

theorem received_type (rid : Bytes) (body : MessageBody) :
    (body.received rid).type = body.type := by
  cases body <;> rfl

/-- The receiver reads the same, but for the hint that stayed in memory. -/
theorem received_readings {body : MessageBody} (h : body.Clean) (rid : Bytes) :
    (body.received rid).readings json = body.readings json ↔ body.memoryHint = 0 := by
  cases body with
  | json cls data => exact iff_of_true (cls.readings_written h.1 rid) rfl
  | protoRpcRequest e =>
      refine iff_of_true ?_ rfl
      simp only [received, readings, ProtoRpcRequest.withId]
      split <;> rfl
  | protoRpcResponse r =>
      have hkept : (received rid (.protoRpcResponse r)).readings json =
          [.rcode (.ok r.rcode), .text (.ok r.body), .int64 (.ok 0)] := by
        simp only [received, ProtoRpcResponse.withId]
        split <;> rfl
      rw [hkept]
      simp only [readings, ProtoRpcResponse.readings, memoryHint, List.cons.injEq, true_and,
        and_true, Reading.int64.injEq, Except.ok.injEq]
      exact eq_comm
  | _ => exact iff_of_true rfl rfl

end MessageBody

open LVProtocol in
/-- What the receiver gets when there is something to write and its length fits. -/
theorem onMessage_received {m : BaseMessage MessageBody} (hbuilt : BuiltBySetters m)
    (hlib : LibraryRoundTrips json proto m) (hne : (protobufSerializer json proto).encoded m ≠ [])
    (hsize : totalLen (protobufSerializer json proto) m < 2 ^ 31) :
    onMessage (protobufSerializer json proto) (frame (protobufSerializer json proto) m) =
      .ok { m with body := m.body.received m.rid } [] := by
  obtain ⟨htype, hclean⟩ := hbuilt.type_clean
  obtain ⟨fresh, d, hcreate, hdecode, hbody⟩ := decode_encoded hclean hlib
  rw [← htype] at hcreate
  have h := onMessage_frame hne hsize hcreate hdecode []
  rw [List.append_nil] at h
  rw [h, ← hbody]
  rfl

/-- A message built through its setters that passes its check comes back whole
if and only if there is something to write, no hint that only the memory keeps,
and a length that fits an `int32_t`. -/
theorem message_round_trips (json : Jsoncpp) (proto : Protobuf) (m : BaseMessage MessageBody)
    (hbuilt : BuiltBySetters m) (hcheck : m.body.check json = .ok true)
    (hlib : LibraryRoundTrips json proto m) :
    RoundTrips json proto m ↔
      ¬ m.body.NothingToWrite m.rid ∧ m.body.memoryHint = 0 ∧
        LVProtocol.totalLen (protobufSerializer json proto) m < 2 ^ 31 := by
  have hclean := hbuilt.type_clean.2
  constructor
  · rintro ⟨bytes, hserialize, hprocessed, m', hread, _, _, _, hreadings⟩
    have hne : (protobufSerializer json proto).encoded m ≠ [] := by
      intro hempty
      rw [LVProtocol.serialize_of_encoded_nil hempty hserialize] at hprocessed
      cases hprocessed
    have hsize : LVProtocol.totalLen (protobufSerializer json proto) m < 2 ^ 31 := by
      have hlen := (LVProtocol.onMessage_length hread).2
      rw [LVProtocol.serialize_length hne hserialize, List.length_nil] at hlen
      omega
    rw [← LVProtocol.frame_of_serialize hserialize,
      onMessage_received hbuilt hlib hne hsize] at hread
    cases hread
    exact ⟨fun hnothing => hne ((encoded_eq_nil_iff hcheck hlib).mpr hnothing),
      (MessageBody.received_readings hclean m.rid).mp hreadings, hsize⟩
  · rintro ⟨hsomething, hhint, hsize⟩
    have hne : (protobufSerializer json proto).encoded m ≠ [] :=
      fun hempty => hsomething ((encoded_eq_nil_iff hcheck hlib).mp hempty)
    have hprocessed := LVProtocol.canProcessed_frame hne hsize []
    rw [List.append_nil] at hprocessed
    exact ⟨_, LVProtocol.serialize_eq_frame hne hsize, hprocessed, _,
      onMessage_received hbuilt hlib hne hsize, rfl, rfl, MessageBody.received_type m.rid m.body,
      (MessageBody.received_readings hclean m.rid).mpr hhint⟩

/-- The proto3 bytes of some envelopes. -/
def ProtoCodec.ofTable {E : Type} [DecidableEq E] (table : List (E × Bytes)) : ProtoCodec E where
  serializeToString e := table.lookup e
  parseFromArray bytes := (table.find? (fun entry => entry.2 = bytes)).map Prod.fst

def discoverEnvelope : ServiceResponseEnvelope where
  optype := ServiceOpType.DISCOVER.code
  method := str "add"
  host := [{ ip := str "h", port := 80, load := 2 }]

def backoffEnvelope : RpcResponseEnvelope where
  rcode := RespCode.BACKOFF.code
  id := str "r1"

def sampleProtobuf : Protobuf where
  rpcRequest := .ofTable [({}, [])]
  rpcResponse := .ofTable [({}, []), (backoffEnvelope, [8, 11, 26, 2, 114, 49])]
  topicRequest := .ofTable [({}, [])]
  topicResponse := .ofTable [({}, [])]
  serviceRequest := .ofTable [({}, [])]
  serviceResponse := .ofTable [({}, []),
    (discoverEnvelope, [16, 1, 26, 3, 97, 100, 100, 34, 7, 10, 1, 104, 16, 80, 24, 2])]

theorem message_round_trips_discover :
    RoundTrips .unused sampleProtobuf
      ⟨str "r1", .named .RSP_SERVICE_PROTO, .protoServiceResponse discoverEnvelope⟩ := by
  have hsetters : exec MessageBody.apply (.protoServiceResponse {})
      [.setRcode (.named .SUCCESS), .setServiceOptype (.named .DISCOVER), .setMethod (str "add"),
        .setHostDetails [⟨⟨str "h", 80⟩, 2⟩]] =
      some (.protoServiceResponse discoverEnvelope) := rfl
  have hlib : LibraryRoundTrips .unused sampleProtobuf
      ⟨str "r1", .named .RSP_SERVICE_PROTO, .protoServiceResponse discoverEnvelope⟩ :=
    ⟨_, rfl, rfl, by decide⟩
  refine (message_round_trips _ _ _ ⟨_, rfl, Reachable.of_exec hsetters⟩ rfl hlib).mpr
    ⟨?_, rfl, by decide +kernel⟩
  show discoverEnvelope ≠ {}
  decide

/-- The answer to a REGISTER that succeeded. -/
def registerResponse : BaseMessage MessageBody :=
  ⟨str "r1", .named .RSP_SERVICE_PROTO, .protoServiceResponse {}⟩

def backoffResponse : BaseMessage MessageBody :=
  ⟨str "r1", .named .RSP_RPC_PROTO, .protoRpcResponse ⟨{ rcode := RespCode.BACKOFF.code }, 100⟩⟩

/-- Both are built by setters and pass their check, and the library reads both
back; the first is never written, the second arrives without its hint. -/
theorem default_response_lost :
    (BuiltBySetters registerResponse ∧ registerResponse.body.check .unused = .ok true ∧
      LibraryRoundTrips .unused sampleProtobuf registerResponse ∧
      ¬ RoundTrips .unused sampleProtobuf registerResponse) ∧
    (BuiltBySetters backoffResponse ∧ backoffResponse.body.check .unused = .ok true ∧
      LibraryRoundTrips .unused sampleProtobuf backoffResponse ∧
      ¬ RoundTrips .unused sampleProtobuf backoffResponse) := by
  constructor
  · have hsetters : exec MessageBody.apply (.protoServiceResponse {})
        [.setRcode (.named .SUCCESS), .setServiceOptype (.named .REGISTER)] =
        some registerResponse.body := rfl
    refine ⟨⟨_, rfl, Reachable.of_exec hsetters⟩, rfl, ⟨_, rfl, rfl, by decide⟩, ?_⟩
    rintro ⟨bytes, hserialize, hprocessed, _⟩
    cases hserialize
    exact absurd hprocessed (by decide)
  · have hsetters : exec MessageBody.apply (.protoRpcResponse {})
        [.setRcode (.named .BACKOFF), .setBody [], .setRetryAfterMs 100] =
        some backoffResponse.body := rfl
    have hbuilt : BuiltBySetters backoffResponse := ⟨_, rfl, Reachable.of_exec hsetters⟩
    have hlib : LibraryRoundTrips .unused sampleProtobuf backoffResponse :=
      ⟨_, rfl, rfl, by decide⟩
    refine ⟨hbuilt, rfl, hlib, ?_⟩
    rintro ⟨bytes, hserialize, _, m', hread, _, _, _, hreadings⟩
    rw [← LVProtocol.frame_of_serialize hserialize,
      onMessage_received hbuilt hlib (by decide) (by decide +kernel)] at hread
    cases hread
    have hhint := (MessageBody.received_readings hbuilt.type_clean.2 _).mp hreadings
    exact absurd hhint (by decide)

end LyqtRpc
