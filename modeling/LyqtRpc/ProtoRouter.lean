import LyqtRpc.Lib.AssocTable
import LyqtRpc.ProtoMessage
import LyqtRpc.RpcRouter

/-!
`rpc_router.hpp`, the protobuf side: `registerProtoHandler` wraps typed handlers
of any message types, and `onProtoRequest` answers a request.
-/

set_option autoImplicit false

namespace LyqtRpc

/-- A call of `registerProtoHandler`. What a handler sends on the connection by
itself is not looked at. -/
structure ProtoRegistration where
  Req : Type
  Resp : Type
  method : Bytes
  parseFromString : Bytes → Option Req
  /-- A response before the handler fills it. -/
  fresh : Resp
  handler : Req → Resp → Except CppException Resp
  serializeToString : Resp → Option Bytes

/-- The responses sent, unless an exception escapes; of the body and the request id. -/
abbrev HandlerFn := Bytes → Bytes → Except CppException (List (BaseMessage ProtoRpcResponse))

structure ProtoRpcRouter where
  handlers : AList (fun _ : Bytes => HandlerFn) := ∅

namespace ProtoRpcRouter

def sendProtoResponse (req_id : Bytes) (rcode : RespCode) (body : Bytes)
    (retry_after_ms : Int64) : BaseMessage ProtoRpcResponse :=
  let resp := (({} : ProtoRpcResponse).setRcode (.named rcode)).setBody body
  { rid := req_id
    msgType := .named .RSP_RPC_PROTO
    body := if 0 < retry_after_ms then resp.setRetryAfterMs retry_after_ms else resp }

/-- The lambda that `registerProtoHandler` stores. -/
def wrap (r : ProtoRegistration) : HandlerFn := fun body req_id => do
  match r.parseFromString body with
  | none => pure [sendProtoResponse req_id .PARSE_FAILED [] 0]
  | some req =>
    -- both `catch` clauses answer alike
    match ← tryCatch (some <$> r.handler req r.fresh) (fun _ => pure none) with
    | none => pure [sendProtoResponse req_id .INTERNAL_ERROR [] 0]
    | some resp =>
      match r.serializeToString resp with
      | none => pure [sendProtoResponse req_id .INTERNAL_ERROR [] 0]
      | some resp_body => pure [sendProtoResponse req_id .SUCCESS resp_body 0]

def registerProtoHandler (router : ProtoRpcRouter) (r : ProtoRegistration) : ProtoRpcRouter where
  handlers := router.handlers.insert r.method (wrap r)

def onProtoRequest (router : ProtoRpcRouter) (limiter : Option Admission)
    (req : BaseMessage RpcRequestEnvelope) :
    Except CppException (List (BaseMessage ProtoRpcResponse)) :=
  match limiter with
  | some { allow := false, retryAfterMs } =>
    pure [sendProtoResponse req.rid .BACKOFF [] retryAfterMs]
  | _ =>
    match router.handlers.lookup (ProtoRpcRequest.method req.body) with
    | none => pure [sendProtoResponse req.rid .SERVICE_NOT_FOUND [] 0]
    | some handler => handler (ProtoRpcRequest.body req.body) req.rid

end ProtoRpcRouter

/-- The limiter lets the request through, if there is one. -/
def Admitted (limiter : Option Admission) : Prop := ∀ a, limiter = some a → a.allow = true

/-- The handler registered last for the method. -/
def RegisteredFor (regs : List ProtoRegistration) (method : Bytes) (r : ProtoRegistration) :
    Prop :=
  ∃ before after, regs = before ++ r :: after ∧ r.method = method ∧
    ∀ r' ∈ after, r'.method ≠ method

/-- The code and the body that a request has to be answered with. -/
inductive ProtoOutcome (regs : List ProtoRegistration) (limiter : Option Admission)
    (req : BaseMessage RpcRequestEnvelope) : RespCode → Bytes → Prop where
  | rateLimited (h : ¬Admitted limiter) : ProtoOutcome regs limiter req .BACKOFF []
  | noHandler (ha : Admitted limiter) (h : ∀ r ∈ regs, r.method ≠ req.body.method) :
      ProtoOutcome regs limiter req .SERVICE_NOT_FOUND []
  | unparsable {r : ProtoRegistration} (ha : Admitted limiter)
      (hr : RegisteredFor regs req.body.method r)
      (h : r.parseFromString req.body.body = none) :
      ProtoOutcome regs limiter req .PARSE_FAILED []
  | threw {r : ProtoRegistration} {q : r.Req} {e : CppException} (ha : Admitted limiter)
      (hr : RegisteredFor regs req.body.method r)
      (hq : r.parseFromString req.body.body = some q)
      (h : r.handler q r.fresh = .error e) :
      ProtoOutcome regs limiter req .INTERNAL_ERROR []
  | unserializable {r : ProtoRegistration} {q : r.Req} {resp : r.Resp}
      (ha : Admitted limiter) (hr : RegisteredFor regs req.body.method r)
      (hq : r.parseFromString req.body.body = some q)
      (hresp : r.handler q r.fresh = .ok resp) (h : r.serializeToString resp = none) :
      ProtoOutcome regs limiter req .INTERNAL_ERROR []
  | success {r : ProtoRegistration} {q : r.Req} {resp : r.Resp} {body : Bytes}
      (ha : Admitted limiter) (hr : RegisteredFor regs req.body.method r)
      (hq : r.parseFromString req.body.body = some q)
      (hresp : r.handler q r.fresh = .ok resp) (h : r.serializeToString resp = some body) :
      ProtoOutcome regs limiter req .SUCCESS body

namespace ProtoRpcRouter

/-- The router after the handlers have been registered, one after the other. -/
def registered (regs : List ProtoRegistration) : ProtoRpcRouter :=
  regs.foldl registerProtoHandler {}

end ProtoRpcRouter

/-- The response that is sent for a request. -/
structure Answers (req : BaseMessage RpcRequestEnvelope) (rcode : RespCode) (body : Bytes)
    (resp : BaseMessage ProtoRpcResponse) : Prop where
  rid : resp.rid = req.rid
  msgType : resp.msgType = .named .RSP_RPC_PROTO
  rcode : resp.body.rcode = .named rcode
  body : resp.body.body = body

section Routing
variable {regs : List ProtoRegistration} {limiter : Option Admission}
  {req : BaseMessage RpcRequestEnvelope}

theorem Answers.sendProtoResponse {rcode : RespCode} {body : Bytes} {retry_after_ms : Int64} :
    Answers req rcode body
      (ProtoRpcRouter.sendProtoResponse req.rid rcode body retry_after_ms) := by
  constructor
  · rfl
  · rfl
  · unfold ProtoRpcRouter.sendProtoResponse
    split <;> simp [ProtoRpcResponse.rcode, ProtoRpcResponse.setRcode, ProtoRpcResponse.setBody,
      ProtoRpcResponse.setRetryAfterMs]
  · unfold ProtoRpcRouter.sendProtoResponse
    split <;> rfl

/-- Handlers of other methods do not matter. -/
theorem ProtoRpcRouter.lookup_foldl {method : Bytes} (router : ProtoRpcRouter)
    (hother : ∀ r ∈ regs, r.method ≠ method) :
    (regs.foldl registerProtoHandler router).handlers.lookup method
      = router.handlers.lookup method := by
  induction regs generalizing router with
  | nil => rfl
  | cons r rest ih =>
    have hne : method ≠ r.method := (hother r (List.mem_cons_self ..)).symm
    rw [List.foldl_cons, ih _ (fun r' hr' => hother r' (List.mem_cons_of_mem _ hr'))]
    simp [registerProtoHandler, AList.lookup_insert_ne hne]

theorem RegisteredFor.lookup {method : Bytes} {r : ProtoRegistration}
    (h : RegisteredFor regs method r) :
    (ProtoRpcRouter.registered regs).handlers.lookup method = some (ProtoRpcRouter.wrap r) := by
  obtain ⟨before, after, rfl, rfl, hlast⟩ := h
  rw [ProtoRpcRouter.registered, List.foldl_append, List.foldl_cons,
    ProtoRpcRouter.lookup_foldl _ hlast]
  simp [ProtoRpcRouter.registerProtoHandler]

theorem exists_registeredFor (method : Bytes) :
    (∀ r ∈ regs, r.method ≠ method) ∨ ∃ r, RegisteredFor regs method r := by
  induction regs with
  | nil => simp
  | cons r rest ih =>
    cases ih with
    | inr hrest =>
      obtain ⟨r', before, after, rfl, hmethod, hlast⟩ := hrest
      exact Or.inr ⟨r', r :: before, after, rfl, hmethod, hlast⟩
    | inl hnone =>
      by_cases hmethod : r.method = method
      · exact Or.inr ⟨r, [], rest, rfl, hmethod, hnone⟩
      · left
        intro r' hr'
        cases List.mem_cons.mp hr' with
        | inl heq => exact heq ▸ hmethod
        | inr hmem => exact hnone r' hmem

/-- Nothing that a handler throws gets past the `try`. -/
theorem tryCatch_handler {α : Type} (x : Except CppException α) :
    tryCatch (some <$> x) (fun _ => pure none) = (.ok x.toOption : Except CppException _) := by
  cases x <;> rfl

theorem onProtoRequest_admitted (router : ProtoRpcRouter) (ha : Admitted limiter) :
    router.onProtoRequest limiter req =
      match router.handlers.lookup req.body.method with
      | none => .ok [ProtoRpcRouter.sendProtoResponse req.rid .SERVICE_NOT_FOUND [] 0]
      | some handler => handler req.body.body req.rid := by
  unfold ProtoRpcRouter.onProtoRequest
  split
  · exact absurd (ha _ rfl) (by simp)
  · rfl

/-- Whatever the request has to be answered with is what is sent. -/
theorem ProtoOutcome.sent {rcode : RespCode} {body : Bytes}
    (h : ProtoOutcome regs limiter req rcode body) :
    ∃ resp, (ProtoRpcRouter.registered regs).onProtoRequest limiter req = .ok [resp] ∧
      Answers req rcode body resp := by
  cases h with
  | rateLimited h =>
    simp only [Admitted, not_forall] at h
    obtain ⟨⟨allow, retryAfterMs⟩, rfl, hno⟩ := h
    simp only [Bool.not_eq_true] at hno
    subst hno
    exact ⟨_, rfl, .sendProtoResponse⟩
  | noHandler ha h =>
    have hlookup := ProtoRpcRouter.lookup_foldl {} h
    rw [onProtoRequest_admitted _ ha, ProtoRpcRouter.registered, hlookup]
    exact ⟨_, rfl, .sendProtoResponse⟩
  | unparsable ha hr h =>
    rw [onProtoRequest_admitted _ ha, hr.lookup]
    simp only [ProtoRpcRouter.wrap, h]
    exact ⟨_, rfl, .sendProtoResponse⟩
  | threw ha hr hq h =>
    rw [onProtoRequest_admitted _ ha, hr.lookup]
    simp only [ProtoRpcRouter.wrap, hq, tryCatch_handler, h, ok_bind, Except.toOption]
    exact ⟨_, rfl, .sendProtoResponse⟩
  | unserializable ha hr hq hresp h =>
    rw [onProtoRequest_admitted _ ha, hr.lookup]
    simp only [ProtoRpcRouter.wrap, hq, tryCatch_handler, hresp, ok_bind, Except.toOption, h]
    exact ⟨_, rfl, .sendProtoResponse⟩
  | success ha hr hq hresp h =>
    rw [onProtoRequest_admitted _ ha, hr.lookup]
    simp only [ProtoRpcRouter.wrap, hq, tryCatch_handler, hresp, ok_bind, Except.toOption, h]
    exact ⟨_, rfl, .sendProtoResponse⟩

theorem exists_protoOutcome (regs : List ProtoRegistration) (limiter : Option Admission)
    (req : BaseMessage RpcRequestEnvelope) :
    ∃ rcode body, ProtoOutcome regs limiter req rcode body := by
  by_cases ha : Admitted limiter
  · cases @exists_registeredFor regs req.body.method with
    | inl hnone => exact ⟨_, _, .noHandler ha hnone⟩
    | inr hsome =>
      obtain ⟨r, hr⟩ := hsome
      cases hq : r.parseFromString req.body.body with
      | none => exact ⟨_, _, .unparsable ha hr hq⟩
      | some q =>
        cases hresp : r.handler q r.fresh with
        | error e => exact ⟨_, _, .threw ha hr hq hresp⟩
        | ok resp =>
          cases hbody : r.serializeToString resp with
          | none => exact ⟨_, _, .unserializable ha hr hq hresp hbody⟩
          | some body => exact ⟨_, _, .success ha hr hq hresp hbody⟩
  · exact ⟨_, _, .rateLimited ha⟩

theorem Answers.unique {rcode rcode' : RespCode} {body body' : Bytes}
    {resp : BaseMessage ProtoRpcResponse} (h : Answers req rcode body resp)
    (h' : Answers req rcode' body' resp) : rcode' = rcode ∧ body' = body := by
  have hcode := h'.rcode.symm.trans h.rcode
  exact ⟨EnumValue.named.inj hcode, h'.body.symm.trans h.body⟩

end Routing

/-- Every request is answered once, under its id, with the code and the body of the
one way there is to answer it; and nothing escapes. -/
theorem proto_request_answered (regs : List ProtoRegistration) (limiter : Option Admission)
    (req : BaseMessage RpcRequestEnvelope) :
    ∃ rcode body resp, ProtoOutcome regs limiter req rcode body ∧
      (∀ rcode' body', ProtoOutcome regs limiter req rcode' body' →
        rcode' = rcode ∧ body' = body) ∧
      (ProtoRpcRouter.registered regs).onProtoRequest limiter req = .ok [resp] ∧
      Answers req rcode body resp := by
  obtain ⟨rcode, body, hanswer⟩ := exists_protoOutcome regs limiter req
  obtain ⟨resp, hrun, hresp⟩ := hanswer.sent
  refine ⟨rcode, body, resp, hanswer, ?_, hrun, hresp⟩
  intro rcode' body' hanswer'
  obtain ⟨resp', hrun', hresp'⟩ := hanswer'.sent
  have hsame : resp' = resp := by simpa [hrun] using hrun'.symm
  exact hresp.unique (hsame ▸ hresp')

end LyqtRpc
