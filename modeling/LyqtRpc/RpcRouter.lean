import LyqtRpc.JsonNoThrow

/-!
`rpc_router.hpp`, the JSON side: how `RpcRouter::onrpcRequst` answers a request,
and which requests it answers.
-/

set_option autoImplicit false

namespace LyqtRpc

inductive ValType where
  | BOOL | INTEGRAL | NUMERIC | STRING | ARRAY | OBJECT | NULL_TYPE
  deriving DecidableEq, Repr

def ValType.check : ValType → JsonValue → Bool
  | .BOOL, val => val.isBool
  | .INTEGRAL, val => val.isIntegral
  | .NUMERIC, val => val.isNumeric
  | .STRING, val => val.isString
  | .ARRAY, val => val.isArray
  | .OBJECT, val => val.isObject
  | .NULL_TYPE, val => val.isNull

/-- The callback's `result` starts as null. -/
structure ServiceDescribe where
  methodName : Bytes
  serviceCb : JsonValue → Except CppException JsonValue
  paramsDesc : List (Bytes × ValType)
  returnType : ValType

/-- The loop of `checkParams`, from some place in `_params_desc` on. -/
def checkParams (params : JsonValue) : List (Bytes × ValType) → Except CppException Bool
  | [] => .ok true
  | desc :: rest => do
    if !(← params.isMember desc.1) then pure false
    else if !desc.2.check (← params.index desc.1) then pure false
    else checkParams params rest

namespace ServiceDescribe

/-- `none`: the result is not of the declared type. -/
def call (service : ServiceDescribe) (param : JsonValue) :
    Except CppException (Option JsonValue) := do
  let result ← service.serviceCb param
  if service.returnType.check result then pure (some result) else pure none

/-- Every declared parameter is there with its declared type. -/
def Conforms (service : ServiceDescribe) (params : JsonValue) : Prop :=
  ∀ desc ∈ service.paramsDesc,
    params.isMember desc.1 = .ok true ∧ desc.2.check (params.field desc.1) = true

end ServiceDescribe

structure ServiceManager where
  services : List (Bytes × ServiceDescribe) := []

namespace ServiceManager

def add (manager : ServiceManager) (service : ServiceDescribe) : ServiceManager where
  services :=
    (service.methodName, service) ::
      manager.services.filter (fun entry => entry.1 ≠ service.methodName)

def select (manager : ServiceManager) (methodname : Bytes) : Option ServiceDescribe :=
  manager.services.lookup methodname

end ServiceManager

/-- What the token bucket answers when it is asked. -/
structure Admission where
  allow : Bool
  retryAfterMs : Int64

/-- What one call of `onrpcRequst` did. -/
structure Routed where
  sent : List (BaseMessage JsonValue) := []
  /-- The parameters of each callback call. -/
  handled : List JsonValue := []
  escaped : Option CppException := none

/-- Go on with the value of a call, outside any `try`. -/
def tried {α : Type} (x : Except CppException α) (next : α → Routed) : Routed :=
  match x with
  | .ok a => next a
  | .error e => { escaped := some e }

namespace RpcRouter

def response (req : BaseMessage JsonValue) (result : JsonValue) (rcode : RespCode) :
    BaseMessage JsonValue where
  rid := req.rid
  msgType := .named .RSP_RPC
  body := JsonResponse.setResult (JsonResponse.setRcode .null (.named rcode)) result

def backoff (req : BaseMessage JsonValue) (retryAfterMs : Int64) : BaseMessage JsonValue where
  rid := req.rid
  msgType := .named .RSP_RPC
  body :=
    JsonResponse.setRetryAfterMs (JsonResponse.setRcode .null (.named .BACKOFF)) retryAfterMs

/-- Check the parameters, call the service and answer. -/
def dispatch (service : ServiceDescribe) (req : BaseMessage JsonValue) : Routed :=
  tried (RpcRequest.params req.body) fun params =>
  tried (checkParams params service.paramsDesc) fun passed =>
    if passed = false then { sent := [response req .null .INVALID_PARAMS] }
    else
      match service.call params with
      | .error e => { handled := [params], escaped := some e }
      | .ok none => { handled := [params], sent := [response req .null .INTERNAL_ERROR] }
      | .ok (some result) => { handled := [params], sent := [response req result .SUCCESS] }

/-- `limiter`: the answer of the token bucket, if there is one. The log lines
call `method` too. -/
def onrpcRequst (json : Jsoncpp) (manager : ServiceManager) (limiter : Option Admission)
    (req : BaseMessage JsonValue) : Routed :=
  match limiter with
  | some { allow := false, retryAfterMs } =>
    tried (JsonRequest.method json req.body) fun _ => { sent := [backoff req retryAfterMs] }
  | _ =>
    tried (JsonRequest.method json req.body) fun method =>
    tried (JsonRequest.traceId json req.body) fun _ =>
    tried (JsonRequest.spanId json req.body) fun _ =>
      match manager.select method with
      | none => { sent := [response req .null .SERVICE_NOT_FOUND] }
      | some service => dispatch service req

end RpcRouter

/-- The service the request names. -/
def Selected (json : Jsoncpp) (manager : ServiceManager) (req : BaseMessage JsonValue)
    (service : ServiceDescribe) : Prop :=
  ∃ method, JsonRequest.method json req.body = .ok method ∧ manager.select method = some service

/-- One response under the request's id and no exception; the callback runs on
the checked parameters of a registered service only; a SUCCESS response has a
result of the declared type. -/
structure Answered (json : Jsoncpp) (manager : ServiceManager) (req : BaseMessage JsonValue)
    (routed : Routed) : Prop where
  once : ∃ resp, routed.sent = [resp] ∧ resp.rid = req.rid
  noThrow : routed.escaped = none
  checked : ∀ params ∈ routed.handled, ∃ service, Selected json manager req service ∧
    RpcRequest.params req.body = .ok params ∧ service.Conforms params
  typed : ∀ resp ∈ routed.sent, JsonResponse.rcode resp.body = .ok (.named .SUCCESS) →
    ∃ service result, Selected json manager req service ∧
      JsonResponse.result resp.body = .ok result ∧ service.returnType.check result = true

def admitted (limiter : Option Admission) : Bool :=
  match limiter with
  | some a => a.allow
  | none => true

/-- What `onrpcRequst` converts and accesses allows it, and the callback it
comes to does not throw. -/
structure Answerable (json : Jsoncpp) (manager : ServiceManager) (limiter : Option Admission)
    (req : BaseMessage JsonValue) : Prop where
  table : req.body.isTable = true
  method : (req.body.field KEY_METHOD).isText = true
  traceId : admitted limiter = true → (req.body.field KEY_TRACE_ID).isText = true
  spanId : admitted limiter = true → (req.body.field KEY_SPAN_ID).isText = true
  params : admitted limiter = true → ∀ service, Selected json manager req service →
    service.paramsDesc ≠ [] → (req.body.field KEY_PARAMS).isTable = true
  callback : admitted limiter = true → ∀ service, Selected json manager req service →
    service.Conforms (req.body.field KEY_PARAMS) →
    Returns (service.serviceCb (req.body.field KEY_PARAMS))

section Answers
variable {json : Jsoncpp} {manager : ServiceManager} {limiter : Option Admission}
  {req : BaseMessage JsonValue}

theorem tried_escaped {α : Type} {x : Except CppException α} {next : α → Routed} :
    (tried x next).escaped = none ↔ ∃ a, x = .ok a ∧ (next a).escaped = none := by
  cases x <;> simp [tried]

theorem rcode_response (result : JsonValue) (rcode : RespCode) :
    JsonResponse.rcode (RpcRouter.response req result rcode).body = .ok (.named rcode) := by
  have hne : KEY_RCODE ≠ KEY_RESULT := by decide
  simp [JsonResponse.rcode, RpcRouter.response, JsonResponse.setResult, JsonResponse.setRcode,
    JsonValue.index_eq, JsonValue.field_set_of_ne hne]

theorem result_response (result : JsonValue) (rcode : RespCode) :
    JsonResponse.result (RpcRouter.response req result rcode).body = .ok result := by
  simp [JsonResponse.result, RpcRouter.response, JsonResponse.setResult, JsonValue.index_eq]

theorem rcode_backoff (ms : Int64) :
    JsonResponse.rcode (RpcRouter.backoff req ms).body = .ok (.named .BACKOFF) := by
  have hne : KEY_RCODE ≠ KEY_RETRY_AFTER_MS := by decide
  simp [JsonResponse.rcode, RpcRouter.backoff, JsonResponse.setRetryAfterMs,
    JsonResponse.setRcode, JsonValue.index_eq, JsonValue.field_set_of_ne hne]

theorem checkParams_ok {params : JsonValue} {descs : List (Bytes × ValType)} :
    checkParams params descs = .ok true ↔
      ∀ desc ∈ descs, params.isMember desc.1 = .ok true ∧
        desc.2.check (params.field desc.1) = true := by
  induction descs with
  | nil => simp [checkParams]
  | cons desc descs ih =>
      rw [List.forall_mem_cons, ← ih]
      cases htable : params.isTable with
      | true =>
          simp only [checkParams, JsonValue.isMember_eq htable, JsonValue.index_eq htable, ok_bind]
          cases params.hasMember desc.1 <;> cases desc.2.check (params.field desc.1) <;> simp
      | false =>
          have hthrow := JsonValue.isMember_throws htable desc.1
          simp only [checkParams, bind_eq_ok, hthrow, false_and, exists_false]

theorem checkParams_returns {params : JsonValue} {descs : List (Bytes × ValType)} :
    Returns (checkParams params descs) ↔ (descs ≠ [] → params.isTable = true) := by
  induction descs with
  | nil => simp [checkParams]
  | cons desc descs ih =>
      cases htable : params.isTable with
      | true =>
          have hrest : Returns (checkParams params descs) := ih.mpr (fun _ => htable)
          simp only [checkParams, JsonValue.isMember_eq htable, JsonValue.index_eq htable, ok_bind]
          cases params.hasMember desc.1 <;> cases desc.2.check (params.field desc.1) <;>
            simp [hrest]
      | false =>
          have hthrow := JsonValue.isMember_throws htable desc.1
          simp [checkParams, returns_bind, hthrow]

/-- A response that promises no result. -/
theorem answered_failure (req : BaseMessage JsonValue) {resp : BaseMessage JsonValue}
    {rcode : RespCode} (hrcode : JsonResponse.rcode resp.body = .ok (.named rcode))
    (hrid : resp.rid = req.rid)
    (hne : rcode ≠ .SUCCESS) {handled : List JsonValue}
    (hchecked : ∀ params ∈ handled, ∃ service, Selected json manager req service ∧
      RpcRequest.params req.body = .ok params ∧ service.Conforms params) :
    Answered json manager req { sent := [resp], handled } where
  once := ⟨resp, rfl, hrid⟩
  noThrow := rfl
  checked := hchecked
  typed := by
    intro resp' hmem hsuccess
    rw [List.mem_singleton] at hmem
    rw [hmem, hrcode] at hsuccess
    cases hsuccess
    exact absurd rfl hne

theorem not_answered_of_escaped {routed : Routed} {e : CppException}
    (h : routed.escaped = some e) : ¬ Answered json manager req routed := by
  intro hanswered
  rw [hanswered.noThrow] at h
  cases h

theorem dispatch_answered {service : ServiceDescribe} (htable : req.body.isTable = true)
    (hselected : Selected json manager req service) :
    Answered json manager req (RpcRouter.dispatch service req) ↔
      (service.paramsDesc ≠ [] → (req.body.field KEY_PARAMS).isTable = true) ∧
      (service.Conforms (req.body.field KEY_PARAMS) →
        Returns (service.serviceCb (req.body.field KEY_PARAMS))) := by
  have hparams : RpcRequest.params req.body = .ok (req.body.field KEY_PARAMS) :=
    JsonValue.index_eq htable _
  rw [← checkParams_returns]
  simp only [RpcRouter.dispatch, hparams, tried]
  cases hcheck : checkParams (req.body.field KEY_PARAMS) service.paramsDesc with
  | error e => simp [not_answered_of_escaped]
  | ok passed =>
      cases passed with
      | false =>
          have hnot : ¬ service.Conforms (req.body.field KEY_PARAMS) := by
            intro hconforms
            rw [checkParams_ok.mpr hconforms] at hcheck
            cases hcheck
          simp only [if_true, returns_ok, hnot, false_implies, and_true, iff_true]
          exact answered_failure req (rcode_response .null .INVALID_PARAMS) rfl (by decide)
            (by simp)
      | true =>
          have hconforms : service.Conforms (req.body.field KEY_PARAMS) := checkParams_ok.mp hcheck
          have hchecked : ∀ params ∈ [req.body.field KEY_PARAMS], ∃ service,
              Selected json manager req service ∧ RpcRequest.params req.body = .ok params ∧
              service.Conforms params := by
            intro params hmem
            rw [List.mem_singleton] at hmem
            exact ⟨service, hselected, hmem ▸ hparams, hmem ▸ hconforms⟩
          simp only [Bool.true_eq_false, if_false, returns_ok, true_and, hconforms, true_implies,
            ServiceDescribe.call]
          cases hcb : service.serviceCb (req.body.field KEY_PARAMS) with
          | error e => simp [not_answered_of_escaped]
          | ok result =>
              simp only [ok_bind, returns_ok, iff_true]
              cases hty : service.returnType.check result with
              | false =>
                  exact answered_failure req (rcode_response .null .INTERNAL_ERROR) rfl
                    (by decide) hchecked
              | true =>
                  have htyped : ∀ resp ∈ [RpcRouter.response req result .SUCCESS],
                      JsonResponse.rcode resp.body = .ok (.named .SUCCESS) →
                      ∃ service result, Selected json manager req service ∧
                        JsonResponse.result resp.body = .ok result ∧
                        service.returnType.check result = true := by
                    intro resp hmem _
                    rw [List.mem_singleton] at hmem
                    exact ⟨service, result, hselected, hmem ▸ result_response _ _, hty⟩
                  exact ⟨⟨_, rfl, rfl⟩, rfl, hchecked, htyped⟩

theorem tried_ok {α : Type} {x : Except CppException α} {next : α → Routed} {a : α}
    (h : x = .ok a) : tried x next = next a := by rw [h, tried]

/-- What every call converts first. -/
theorem not_answered_of_method {next : Bytes → Routed}
    (h : ¬ (req.body.isTable = true ∧ (req.body.field KEY_METHOD).isText = true)) :
    ¬ Answered json manager req (tried (JsonRequest.method json req.body) next) := by
  cases hmethod : JsonRequest.method json req.body with
  | error e => exact not_answered_of_escaped rfl
  | ok name =>
      refine absurd ?_ h
      obtain ⟨v, hv, hname⟩ := bind_eq_ok.mp hmethod
      have htable := JsonValue.index_returns_iff.mp ⟨v, hv⟩
      rw [JsonRequest.method_eq htable] at hmethod
      exact ⟨htable, (JsonValue.asString_returns_iff json).mp ⟨name, hmethod⟩⟩

/-- A rejected request is answered as soon as its method can be logged. -/
theorem backoff_answered (retryAfterMs : Int64) :
    Answered json manager req (tried (JsonRequest.method json req.body)
      fun _ => { sent := [RpcRouter.backoff req retryAfterMs] }) ↔
    req.body.isTable = true ∧ (req.body.field KEY_METHOD).isText = true := by
  constructor
  · intro hanswered
    by_contra hnot
    exact not_answered_of_method hnot hanswered
  · rintro ⟨htable, htext⟩
    obtain ⟨name, hname⟩ := (JsonValue.asString_returns_iff json).mpr htext
    rw [tried_ok ((JsonRequest.method_eq htable).trans hname)]
    exact answered_failure req (rcode_backoff retryAfterMs) rfl (by decide) (by simp)

theorem admitted_eq_false (h : admitted limiter = false) :
    ∃ ms, limiter = some ⟨false, ms⟩ := by
  cases limiter with
  | none => cases h
  | some a =>
      obtain ⟨allow, ms⟩ := a
      cases allow with
      | true => cases h
      | false => exact ⟨ms, rfl⟩

/-- The way of an admitted request to its handler. -/
theorem onrpcRequst_admitted (h : admitted limiter = true) :
    RpcRouter.onrpcRequst json manager limiter req =
      tried (JsonRequest.method json req.body) fun method =>
      tried (JsonRequest.traceId json req.body) fun _ =>
      tried (JsonRequest.spanId json req.body) fun _ =>
        match manager.select method with
        | none => { sent := [RpcRouter.response req .null .SERVICE_NOT_FOUND] }
        | some service => RpcRouter.dispatch service req := by
  cases limiter with
  | none => rfl
  | some a =>
      obtain ⟨allow, ms⟩ := a
      cases allow with
      | true => rfl
      | false => cases h

theorem answerable_of_answered (hadmitted : admitted limiter = true)
    (htable : req.body.isTable = true) (htext : (req.body.field KEY_METHOD).isText = true)
    (h : Answered json manager req (RpcRouter.onrpcRequst json manager limiter req)) :
    Answerable json manager limiter req := by
  obtain ⟨name, hname⟩ := (JsonValue.asString_returns_iff json).mpr htext
  have hmethod := (JsonRequest.method_eq htable).trans hname
  rw [onrpcRequst_admitted hadmitted, tried_ok hmethod, JsonRequest.traceId_eq htable,
    JsonRequest.spanId_eq htable] at h
  obtain ⟨trace, htrace, hrest⟩ := tried_escaped.mp h.noThrow
  obtain ⟨span, hspan, _⟩ := tried_escaped.mp hrest
  rw [tried_ok htrace, tried_ok hspan] at h
  have hselect : ∀ service, Selected json manager req service →
      (service.paramsDesc ≠ [] → (req.body.field KEY_PARAMS).isTable = true) ∧
      (service.Conforms (req.body.field KEY_PARAMS) →
        Returns (service.serviceCb (req.body.field KEY_PARAMS))) := by
    rintro service ⟨name', hname', hservice⟩
    rw [hmethod] at hname'
    cases hname'
    rw [hservice] at h
    exact (dispatch_answered htable ⟨name, hmethod, hservice⟩).mp h
  exact ⟨htable, htext, fun _ => (JsonValue.asString_returns_iff json).mp ⟨trace, htrace⟩,
    fun _ => (JsonValue.asString_returns_iff json).mp ⟨span, hspan⟩,
    fun _ service hs => (hselect service hs).1, fun _ service hs => (hselect service hs).2⟩

theorem answered_of_answerable (hadmitted : admitted limiter = true)
    (h : Answerable json manager limiter req) :
    Answered json manager req (RpcRouter.onrpcRequst json manager limiter req) := by
  have htable := h.table
  obtain ⟨name, hname⟩ := (JsonValue.asString_returns_iff json).mpr h.method
  obtain ⟨trace, htrace⟩ := (JsonValue.asString_returns_iff json).mpr (h.traceId hadmitted)
  obtain ⟨span, hspan⟩ := (JsonValue.asString_returns_iff json).mpr (h.spanId hadmitted)
  have hmethod := (JsonRequest.method_eq htable).trans hname
  rw [onrpcRequst_admitted hadmitted, tried_ok hmethod, JsonRequest.traceId_eq htable,
    JsonRequest.spanId_eq htable, tried_ok htrace, tried_ok hspan]
  cases hservice : manager.select name with
  | none =>
      exact answered_failure req (rcode_response .null .SERVICE_NOT_FOUND) rfl (by decide) (by simp)
  | some service =>
      have hs : Selected json manager req service := ⟨name, hmethod, hservice⟩
      exact (dispatch_answered htable hs).mpr
        ⟨h.params hadmitted service hs, h.callback hadmitted service hs⟩

/-- `onrpcRequst` answers a request, whatever its JSON, exactly if what it
converts on the way converts and the callback does not throw. -/
theorem onrpcRequst_answers (json : Jsoncpp) (manager : ServiceManager)
    (limiter : Option Admission) (req : BaseMessage JsonValue) :
    Answered json manager req (RpcRouter.onrpcRequst json manager limiter req) ↔
      Answerable json manager limiter req := by
  cases hadmitted : admitted limiter with
  | false =>
      obtain ⟨ms, rfl⟩ := admitted_eq_false hadmitted
      rw [RpcRouter.onrpcRequst, backoff_answered]
      constructor
      · rintro ⟨htable, htext⟩
        exact ⟨htable, htext, by simp [admitted], by simp [admitted], by simp [admitted],
          by simp [admitted]⟩
      · exact fun h => ⟨h.table, h.method⟩
  | true =>
      constructor
      · intro hanswered
        by_cases hentry : req.body.isTable = true ∧ (req.body.field KEY_METHOD).isText = true
        · exact answerable_of_answered hadmitted hentry.1 hentry.2 hanswered
        · rw [onrpcRequst_admitted hadmitted] at hanswered
          exact absurd hanswered (not_answered_of_method hentry)
      · exact answered_of_answerable hadmitted

end Answers

/-- A request without a method name that converts: `method` is an array. -/
def arrayMethod : BaseMessage JsonValue where
  rid := str "1"
  msgType := .named .REQ_RPC
  body := .object [(KEY_METHOD, .array [])]

theorem onrpcRequst_throws :
    ¬ ∀ (json : Jsoncpp) (manager : ServiceManager) (limiter : Option Admission)
      (req : BaseMessage JsonValue),
      Answered json manager req (RpcRouter.onrpcRequst json manager limiter req) := by
  intro h
  have hescaped : (RpcRouter.onrpcRequst .unused {} none arrayMethod).escaped =
      some .jsonLogicError := by rfl
  rw [(h .unused {} none arrayMethod).noThrow] at hescaped
  cases hescaped

end LyqtRpc
