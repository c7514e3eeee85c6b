import LyqtRpc.ProtoRouter
import LyqtRpc.Lib.StepRun
import Mathlib.Logic.Function.Basic

/-!
`RpcServer::registerMethod` and `RpcServer::registerProtoHandler` beside the
registry: the calls to it, what it lists and passes on to clients, and the routers
that the clients' requests come to. `τ` is the type of the threads that register.
-/

set_option autoImplicit false

namespace LyqtRpc

open StepRun

/-- The router that serves a method. -/
inductive RpcPath where
  | json
  | proto
  deriving DecidableEq

/-- What `registerProtoHandler` makes of a typed handler. -/
structure ProtoHandler where
  fn : HandlerFn
  wraps : ∃ r : ProtoRegistration, fn = ProtoRpcRouter.wrap r

/-- A call of `registerMethod` or of `registerProtoHandler`. -/
inductive Registering where
  | registerMethod (service : ServiceDescribe)
  | registerProtoHandler (method : Bytes) (handler : ProtoHandler)

/-- What is registered; the registry itself is told the name alone. -/
def Registering.entry : Registering → RpcPath × Bytes
  | .registerMethod service => (.json, service.methodName)
  | .registerProtoHandler method _ => (.proto, method)

/-- What a thread does next. -/
inductive RegisterPhase where
  | idle
  | installing (call : Registering)
  /-- The `attempt`-th call of `methodRegistry` -/
  | registering (call : Registering) (attempt : Nat)
  | awaiting (call : Registering) (attempt : Nat)
  | recording (call : Registering)

structure RegisteringServer (τ : Type) where
  enablediscover : Bool
  manager : ServiceManager := {}
  proto : ProtoRpcRouter := {}
  registered_methods : List (RpcPath × Bytes) := []
  threads : τ → RegisterPhase := fun _ => .idle
  /-- REGISTER requests under way to the registry -/
  requests : List (RpcPath × Bytes) := []
  /-- What the registry lists for this server, and what it ever executed a REGISTER of. -/
  advertised : List (RpcPath × Bytes) := []
  executed : List (RpcPath × Bytes) := []
  /-- What a client was told of, by an ONLINE push or an answer. -/
  discovered : List (RpcPath × Bytes) := []

inductive RegisteringAct (τ : Type) where
  | register (thread : τ) (call : Registering)
  | goOn (thread : τ)
  /-- `methodRegistry` returns. -/
  | answered (thread : τ) (ok : Bool)
  | execute (entry : RpcPath × Bytes)
  /-- A heartbeat or a load report puts back what the registry has dropped. -/
  | renew (entry : RpcPath × Bytes)
  | drop (method : Bytes)
  | push (entry : RpcPath × Bytes)

/-- What follows `registerToRegistry`. -/
def RegisterPhase.afterRegistry : Registering → RegisterPhase
  | .registerMethod service => .installing (.registerMethod service)
  | .registerProtoHandler _ _ => .idle

namespace RegisteringServer
variable {τ : Type} [DecidableEq τ]

def registerToRegistry (s : RegisteringServer τ) (call : Registering) : RegisterPhase :=
  if s.enablediscover then .registering call 1 else .afterRegistry call

/-- The first thing that a call does. -/
def begin (s : RegisteringServer τ) : Registering → RegisterPhase
  | .registerMethod service => s.registerToRegistry (.registerMethod service)
  | .registerProtoHandler method handler => .installing (.registerProtoHandler method handler)

def put (s : RegisteringServer τ) (thread : τ) (phase : RegisterPhase) : RegisteringServer τ :=
  { s with threads := Function.update s.threads thread phase }

/-- The handler goes into its router, in one step: `_handlers` of `ProtoRpcRouter` has no
lock, and its insertions are taken as atomic. -/
def install (s : RegisteringServer τ) (thread : τ) : Registering → RegisteringServer τ
  | .registerMethod service => { s.put thread .idle with manager := s.manager.add service }
  | .registerProtoHandler method handler =>
    { s.put thread (s.registerToRegistry (.registerProtoHandler method handler)) with
      proto := { handlers := s.proto.handlers.insert method handler.fn } }

/-- A typed handler is installed as the router installs it. -/
theorem install_proto (s : RegisteringServer τ) (thread : τ) (r : ProtoRegistration) :
    (s.install thread (.registerProtoHandler r.method ⟨ProtoRpcRouter.wrap r, r, rfl⟩)).proto =
      s.proto.registerProtoHandler r := rfl

end RegisteringServer

def registeringStep {τ : Type} [DecidableEq τ] (s : RegisteringServer τ) :
    RegisteringAct τ → Option (RegisteringServer τ)
  | .register thread call =>
    match s.threads thread with
    | .idle => some (s.put thread (s.begin call))
    | _ => none
  | .goOn thread =>
    match s.threads thread with
    | .installing call => some (s.install thread call)
    | .registering call attempt =>
      some { s.put thread (.awaiting call attempt) with requests := call.entry :: s.requests }
    | .recording call =>
      some
        { s.put thread (.afterRegistry call) with
          registered_methods := s.registered_methods ++ [call.entry] }
    | _ => none
  | .answered thread ok =>
    match s.threads thread with
    | .awaiting call attempt =>
      if ok then if call.entry ∈ s.executed then some (s.put thread (.recording call)) else none
      else if attempt < 3 then some (s.put thread (.registering call (attempt + 1)))
      else some (s.put thread (.afterRegistry call))
    | _ => none
  | .execute entry =>
    if entry ∈ s.requests then
      some
        { s with
          requests := s.requests.erase entry
          advertised := entry :: s.advertised
          executed := entry :: s.executed }
    else none
  | .renew entry =>
    if entry ∈ s.registered_methods then some { s with advertised := entry :: s.advertised }
    else none
  | .drop method =>
    some { s with advertised := s.advertised.filter (fun entry => entry.2 ≠ method) }
  | .push entry =>
    if entry ∈ s.advertised then some { s with discovered := entry :: s.discovered } else none

section Servable
variable {τ : Type}

def RegisteringServer.Installed (s : RegisteringServer τ) : RpcPath × Bytes → Prop
  | (.json, method) => (s.manager.select method).isSome = true
  | (.proto, method) => (s.proto.handlers.lookup method).isSome = true

/-- What is advertised is installed, and no request for what a client has discovered is
answered with SERVICE_NOT_FOUND. -/
structure Servable (s : RegisteringServer τ) : Prop where
  installed : ∀ entry ∈ s.advertised, s.Installed entry
  found : ∀ method, (.json, method) ∈ s.discovered →
    ∀ (json : Jsoncpp) (limiter : Option Admission) (req : BaseMessage JsonValue),
      JsonRequest.method json req.body = .ok method →
        ∀ resp ∈ (RpcRouter.onrpcRequst json s.manager limiter req).sent,
          JsonResponse.rcode resp.body ≠ .ok (.named .SERVICE_NOT_FOUND)
  protoFound : ∀ method, (.proto, method) ∈ s.discovered →
    ∀ (limiter : Option Admission) (req : BaseMessage RpcRequestEnvelope),
      req.body.method = method → ∀ sent, s.proto.onProtoRequest limiter req = .ok sent →
        ∀ resp ∈ sent, resp.body.rcode ≠ .named .SERVICE_NOT_FOUND

/-- The registry executes a REGISTER of `registerMethod` when the service is there. -/
def InTime (s : RegisteringServer τ) : RegisteringAct τ → Prop
  | .execute (.json, method) =>
    (.json, method) ∈ s.requests → (s.manager.select method).isSome = true
  | _ => True

end Servable

section Answers
variable {json : Jsoncpp} {manager : ServiceManager} {limiter : Option Admission}
  {req : BaseMessage JsonValue} {resp : BaseMessage JsonValue}

theorem tried_sent {α : Type} {x : Except CppException α} {next : α → Routed}
    (h : resp ∈ (tried x next).sent) : ∃ a, x = .ok a ∧ resp ∈ (next a).sent := by
  cases x with
  | ok a => exact ⟨a, rfl, h⟩
  | error e => simp [tried] at h

theorem rcode_dispatch {service : ServiceDescribe}
    (h : resp ∈ (RpcRouter.dispatch service req).sent) :
    JsonResponse.rcode resp.body ≠ .ok (.named .SERVICE_NOT_FOUND) := by
  obtain ⟨params, _, h⟩ := tried_sent h
  obtain ⟨passed, _, h⟩ := tried_sent h
  split at h
  · obtain rfl := List.mem_singleton.mp h
    rw [rcode_response]
    nofun
  · split at h
    · cases h
    · obtain rfl := List.mem_singleton.mp h
      rw [rcode_response]
      nofun
    · obtain rfl := List.mem_singleton.mp h
      rw [rcode_response]
      nofun

/-- Only a method that is not there is not found. -/
theorem rcode_onrpcRequst {method : Bytes} (hmethod : JsonRequest.method json req.body = .ok method)
    (hfound : (manager.select method).isSome = true)
    (h : resp ∈ (RpcRouter.onrpcRequst json manager limiter req).sent) :
    JsonResponse.rcode resp.body ≠ .ok (.named .SERVICE_NOT_FOUND) := by
  unfold RpcRouter.onrpcRequst at h
  split at h
  · obtain ⟨_, _, h⟩ := tried_sent h
    obtain rfl := List.mem_singleton.mp h
    rw [rcode_backoff]
    nofun
  · obtain ⟨method', hmethod', h⟩ := tried_sent h
    obtain ⟨_, _, h⟩ := tried_sent h
    obtain ⟨_, _, h⟩ := tried_sent h
    rw [hmethod] at hmethod'
    cases hmethod'
    obtain ⟨service, hservice⟩ := Option.isSome_iff_exists.mp hfound
    rw [hservice] at h
    exact rcode_dispatch h

theorem rcode_sendProtoResponse (req_id : Bytes) (rcode : RespCode) (body : Bytes)
    (retry_after_ms : Int64) :
    (ProtoRpcRouter.sendProtoResponse req_id rcode body retry_after_ms).body.rcode =
      .named rcode :=
  (@Answers.sendProtoResponse { rid := req_id, msgType := .named .REQ_RPC_PROTO, body := {} } rcode
    body retry_after_ms).rcode

theorem rcode_wrap {r : ProtoRegistration} {body req_id : Bytes}
    {sent : List (BaseMessage ProtoRpcResponse)} {resp : BaseMessage ProtoRpcResponse}
    (hsent : ProtoRpcRouter.wrap r body req_id = .ok sent) (h : resp ∈ sent) :
    resp.body.rcode ≠ .named .SERVICE_NOT_FOUND := by
  have hone : ∀ rcode body', rcode ≠ RespCode.SERVICE_NOT_FOUND →
      (.ok [ProtoRpcRouter.sendProtoResponse req_id rcode body' 0] : Except CppException _) =
        .ok sent → resp.body.rcode ≠ .named .SERVICE_NOT_FOUND := by
    intro rcode body' hrcode hsent
    cases hsent
    obtain rfl := List.mem_singleton.mp h
    rw [rcode_sendProtoResponse]
    simpa using hrcode
  unfold ProtoRpcRouter.wrap at hsent
  cases hreq : r.parseFromString body with
  | none =>
      rw [hreq] at hsent
      exact hone .PARSE_FAILED _ (by decide) hsent
  | some q =>
      simp only [hreq, tryCatch_handler, ok_bind] at hsent
      cases hresp : (r.handler q r.fresh).toOption with
      | none =>
          simp only [hresp] at hsent
          exact hone .INTERNAL_ERROR _ (by decide) hsent
      | some answer =>
          simp only [hresp] at hsent
          cases hbody : r.serializeToString answer with
          | none =>
              simp only [hbody] at hsent
              exact hone .INTERNAL_ERROR _ (by decide) hsent
          | some text =>
              simp only [hbody] at hsent
              exact hone .SUCCESS _ (by decide) hsent

end Answers

theorem ServiceManager.select_add (manager : ServiceManager) (service : ServiceDescribe)
    (method : Bytes) : (manager.add service).select method =
      if method = service.methodName then some service else manager.select method := by
  have hfilter : ∀ services : List (Bytes × ServiceDescribe), method ≠ service.methodName →
      (services.filter (fun entry => entry.1 ≠ service.methodName)).lookup method =
        services.lookup method := by
    intro services hne
    induction services with
    | nil => rfl
    | cons entry services ih =>
      obtain ⟨name, other⟩ := entry
      by_cases hname : name = service.methodName
      · have hbeq : (method == name) = false := by simpa [hname] using hne
        rw [List.filter_cons_of_neg (by simp [hname]), List.lookup_cons, hbeq]
        exact ih
      · simp only [ne_eq, hname, not_false_eq_true, decide_true, List.filter_cons_of_pos,
          List.lookup_cons, ih]
  simp only [add, select]
  by_cases hmethod : method = service.methodName
  · simp [hmethod]
  · have hbeq : (method == service.methodName) = false := by simpa using hmethod
    rw [List.lookup_cons, hbeq, if_neg hmethod]
    exact hfilter manager.services hmethod

/-- Only what has been installed was ever listed. -/
structure AdvertisedInv {τ : Type} (s : RegisteringServer τ) : Prop where
  executed : ∀ entry ∈ s.executed, s.Installed entry
  advertised : ∀ entry ∈ s.advertised, entry ∈ s.executed
  discovered : ∀ entry ∈ s.discovered, entry ∈ s.executed
  recorded : ∀ entry ∈ s.registered_methods, entry ∈ s.executed
  recording : ∀ thread call, s.threads thread = .recording call → call.entry ∈ s.executed
  /-- A protobuf handler is installed before the registry hears of it. -/
  requested : ∀ method, (.proto, method) ∈ s.requests → s.Installed (.proto, method)
  registering : ∀ thread method handler attempt,
    s.threads thread = .registering (.registerProtoHandler method handler) attempt ∨
      s.threads thread = .awaiting (.registerProtoHandler method handler) attempt →
        s.Installed (.proto, method)
  wrapped : ∀ method fn, s.proto.handlers.lookup method = some fn →
    ∃ r : ProtoRegistration, fn = ProtoRpcRouter.wrap r

section Inv
variable {τ : Type} {s t : RegisteringServer τ}

theorem AdvertisedInv.servable (h : AdvertisedInv s) : Servable s := by
  refine ⟨fun entry hmem => h.executed entry (h.advertised entry hmem), ?_, ?_⟩
  · intro method hmem json limiter req hmethod resp hresp
    have hfound : s.Installed (.json, method) := h.executed _ (h.discovered _ hmem)
    exact rcode_onrpcRequst hmethod hfound hresp
  · intro method hmem limiter req hmethod sent hsent resp hresp
    have hfound : s.Installed (.proto, method) := h.executed _ (h.discovered _ hmem)
    obtain ⟨fn, hfn⟩ := Option.isSome_iff_exists.mp hfound
    obtain ⟨r, rfl⟩ := h.wrapped method fn hfn
    unfold ProtoRpcRouter.onProtoRequest at hsent
    split at hsent
    · cases hsent
      obtain rfl := List.mem_singleton.mp hresp
      rw [rcode_sendProtoResponse]
      nofun
    · have hlookup : s.proto.handlers.lookup (ProtoRpcRequest.method req.body) =
          some (ProtoRpcRouter.wrap r) := by
        rw [← hfn, ← hmethod]
        rfl
      rw [hlookup] at hsent
      exact rcode_wrap hsent hresp

/-- The routers only gain handlers. -/
theorem AdvertisedInv.routers (h : AdvertisedInv s) {manager : ServiceManager}
    {proto : ProtoRpcRouter}
    (hmanager : ∀ method, (s.manager.select method).isSome = true →
      (manager.select method).isSome = true)
    (hproto : ∀ method, (s.proto.handlers.lookup method).isSome = true →
      (proto.handlers.lookup method).isSome = true)
    (hwrapped : ∀ method fn, proto.handlers.lookup method = some fn →
      ∃ r : ProtoRegistration, fn = ProtoRpcRouter.wrap r) :
    AdvertisedInv { s with manager, proto } := by
  have hinstalled : ∀ entry, s.Installed entry →
      RegisteringServer.Installed { s with manager, proto } entry := by
    intro entry hentry
    obtain ⟨path, method⟩ := entry
    cases path with
    | json => exact hmanager method hentry
    | proto => exact hproto method hentry
  exact {
    executed := fun entry hmem => hinstalled entry (h.executed entry hmem)
    advertised := h.advertised
    discovered := h.discovered
    recorded := h.recorded
    recording := h.recording
    requested := fun method hmem => hinstalled _ (h.requested method hmem)
    registering := fun thread method handler attempt hphase =>
      hinstalled _ (h.registering thread method handler attempt hphase)
    wrapped := hwrapped }

variable [DecidableEq τ]

@[simp] theorem RegisteringServer.threads_put (s : RegisteringServer τ) (thread other : τ)
    (phase : RegisterPhase) :
    (s.put thread phase).threads other = if other = thread then phase else s.threads other :=
  Function.update_apply ..

/-- A thread goes on by itself, with what it has. -/
theorem AdvertisedInv.put (h : AdvertisedInv s) {thread : τ} {phase : RegisterPhase}
    (hrecording : ∀ call, phase = .recording call → call.entry ∈ s.executed)
    (hregistering : ∀ method handler attempt,
      phase = .registering (.registerProtoHandler method handler) attempt ∨
        phase = .awaiting (.registerProtoHandler method handler) attempt →
          s.Installed (.proto, method)) :
    AdvertisedInv (s.put thread phase) where
  executed := h.executed
  advertised := h.advertised
  discovered := h.discovered
  recorded := h.recorded
  recording := by
    intro other call hphase
    rw [RegisteringServer.threads_put] at hphase
    split at hphase
    · exact hrecording call hphase
    · exact h.recording other call hphase
  requested := h.requested
  registering := by
    intro other method handler attempt hphase
    rw [RegisteringServer.threads_put] at hphase
    split at hphase
    · exact hregistering method handler attempt hphase
    · exact h.registering other method handler attempt hphase
  wrapped := h.wrapped

/-- A call that has its handler installed, or is not a protobuf call, may go on. -/
theorem AdvertisedInv.phase (h : AdvertisedInv s) {thread : τ} {phase : RegisterPhase}
    (hrecording : ∀ call, phase ≠ .recording call)
    (hregistering : ∀ method handler attempt,
      phase = .registering (.registerProtoHandler method handler) attempt →
        s.Installed (.proto, method))
    (hawaiting : ∀ call attempt, phase ≠ .awaiting call attempt) :
    AdvertisedInv (s.put thread phase) := by
  refine h.put (fun call hphase => absurd hphase (hrecording call)) ?_
  intro method handler attempt hphase
  obtain hphase | hphase := hphase
  · exact hregistering method handler attempt hphase
  · exact absurd hphase (hawaiting _ _)

theorem AdvertisedInv.install (h : AdvertisedInv s) (thread : τ) (call : Registering) :
    AdvertisedInv (s.install thread call) := by
  cases call with
  | registerMethod service =>
      have hmanager : ∀ method, (s.manager.select method).isSome = true →
          ((s.manager.add service).select method).isSome = true := by
        intro method hfound
        rw [ServiceManager.select_add]
        split
        · rfl
        · exact hfound
      have hidle : AdvertisedInv (s.put thread .idle) := h.phase nofun nofun nofun
      exact hidle.routers hmanager (fun _ => id) h.wrapped
  | registerProtoHandler method handler =>
      let proto : ProtoRpcRouter := { handlers := s.proto.handlers.insert method handler.fn }
      have hlookup : ∀ other, proto.handlers.lookup other =
          if other = method then some handler.fn else s.proto.handlers.lookup other :=
        fun other => AssocTable.lookup_insert_ite s.proto.handlers method other handler.fn
      have hinstalled : AdvertisedInv { s with proto } := by
        refine h.routers (fun _ => id) (fun other hfound => ?_) (fun other fn hfn => ?_)
        · rw [hlookup]
          split
          · rfl
          · exact hfound
        · rw [hlookup] at hfn
          split at hfn
          · obtain ⟨r, hr⟩ := handler.wraps
            exact ⟨r, (Option.some.inj hfn).symm.trans hr⟩
          · exact h.wrapped other fn hfn
      refine hinstalled.phase (fun other => ?_) (fun other _ attempt hphase => ?_)
        (fun other n => ?_)
      · unfold RegisteringServer.registerToRegistry
        split <;> nofun
      · unfold RegisteringServer.registerToRegistry at hphase
        split at hphase
        · cases hphase
          simp [RegisteringServer.Installed, hlookup]
        · cases hphase
      · unfold RegisteringServer.registerToRegistry
        split <;> nofun

variable {a : RegisteringAct τ}

theorem afterRegistry_cases (call : Registering) :
    .afterRegistry call = RegisterPhase.idle ∨
      ∃ service, .afterRegistry call = RegisterPhase.installing (.registerMethod service) := by
  cases call with
  | registerMethod service => exact Or.inr ⟨service, rfl⟩
  | registerProtoHandler method handler => exact Or.inl rfl

theorem AdvertisedInv.afterRegistry (h : AdvertisedInv s) (thread : τ) (call : Registering) :
    AdvertisedInv (s.put thread (.afterRegistry call)) := by
  obtain heq | ⟨service, heq⟩ := afterRegistry_cases call
  · rw [heq]
    exact h.phase nofun nofun nofun
  · rw [heq]
    exact h.phase nofun nofun nofun

theorem AdvertisedInv.begin (h : AdvertisedInv s) (thread : τ) (call : Registering) :
    AdvertisedInv (s.put thread (s.begin call)) := by
  cases call with
  | registerMethod service =>
      simp only [RegisteringServer.begin, RegisteringServer.registerToRegistry]
      split <;> exact h.phase nofun nofun nofun
  | registerProtoHandler method handler => exact h.phase nofun nofun nofun

theorem AdvertisedInv.goOn (h : AdvertisedInv s) {thread : τ}
    (hs : registeringStep s (.goOn thread) = some t) : AdvertisedInv t := by
  simp only [registeringStep] at hs
  split at hs
  · cases hs
    exact h.install thread _
  · rename_i call attempt hphase
    cases hs
    have hinstalled : ∀ method handler, call = .registerProtoHandler method handler →
        s.Installed (.proto, method) := by
      intro method handler hcall
      subst hcall
      exact h.registering thread method handler attempt (Or.inl hphase)
    have hput : AdvertisedInv (s.put thread (.awaiting call attempt)) := by
      refine h.put nofun (fun method handler n hawaiting => ?_)
      obtain hawaiting | hawaiting := hawaiting
      · cases hawaiting
      · cases hawaiting
        exact hinstalled method handler rfl
    refine { hput with requested := fun method hmem => ?_ }
    obtain heq | hmem := List.mem_cons.mp hmem
    · cases call with
      | registerMethod service => cases heq
      | registerProtoHandler name handler =>
          cases heq
          exact hinstalled _ handler rfl
    · exact h.requested method hmem
  · rename_i call hphase
    cases hs
    refine { h.afterRegistry thread call with recorded := fun entry hmem => ?_ }
    obtain hold | hnew := List.mem_append.mp hmem
    · exact h.recorded entry hold
    · obtain rfl := List.mem_singleton.mp hnew
      exact h.recording thread call hphase
  · cases hs

theorem AdvertisedInv.answered (h : AdvertisedInv s) {thread : τ} {ok : Bool}
    (hs : registeringStep s (.answered thread ok) = some t) : AdvertisedInv t := by
  simp only [registeringStep] at hs
  split at hs
  · rename_i call attempt hphase
    split at hs
    · split at hs
      · rename_i hexecuted
        cases hs
        refine h.put (fun other heq => ?_) (fun method handler n hother => ?_)
        · cases heq
          exact hexecuted
        · obtain hother | hother := hother <;> cases hother
      · cases hs
    · split at hs
      · cases hs
        refine h.phase nofun (fun method handler n heq => ?_) nofun
        cases heq
        exact h.registering thread method handler attempt (Or.inr hphase)
      · cases hs
        exact h.afterRegistry thread call
  · cases hs

theorem AdvertisedInv.execute (h : AdvertisedInv s) {entry : RpcPath × Bytes}
    (hok : InTime s (.execute entry)) (hs : registeringStep s (.execute entry) = some t) :
    AdvertisedInv t := by
  simp only [registeringStep] at hs
  split at hs
  · rename_i hrequested
    cases hs
    have hinstalled : s.Installed entry := by
      obtain ⟨path, method⟩ := entry
      cases path with
      | json => exact hok hrequested
      | proto => exact h.requested method hrequested
    exact {
      executed := by
        intro other hmem
        obtain rfl | hold := List.mem_cons.mp hmem
        · exact hinstalled
        · exact h.executed other hold
      advertised := by
        intro other hmem
        obtain rfl | hold := List.mem_cons.mp hmem
        · exact List.mem_cons_self
        · exact List.mem_cons_of_mem _ (h.advertised other hold)
      discovered := fun other hmem => List.mem_cons_of_mem _ (h.discovered other hmem)
      recorded := fun other hmem => List.mem_cons_of_mem _ (h.recorded other hmem)
      recording := fun thread call hphase =>
        List.mem_cons_of_mem _ (h.recording thread call hphase)
      requested := fun method hmem => h.requested method (List.mem_of_mem_erase hmem)
      registering := h.registering
      wrapped := h.wrapped }
  · cases hs

theorem AdvertisedInv.step (h : AdvertisedInv s) (hok : InTime s a)
    (hs : registeringStep s a = some t) : AdvertisedInv t := by
  cases a with
  | register thread call =>
      simp only [registeringStep] at hs
      split at hs
      · cases hs
        exact h.begin thread call
      · cases hs
  | goOn thread => exact h.goOn hs
  | answered thread ok => exact h.answered hs
  | execute entry => exact h.execute hok hs
  | renew entry =>
      simp only [registeringStep] at hs
      split at hs
      · rename_i hrecorded
        cases hs
        refine { h with advertised := fun other hmem => ?_ }
        obtain rfl | hold := List.mem_cons.mp hmem
        · exact h.recorded other hrecorded
        · exact h.advertised other hold
      · cases hs
  | drop method =>
      cases hs
      exact { h with
        advertised := fun other hmem => h.advertised other (List.mem_of_mem_filter hmem) }
  | push entry =>
      simp only [registeringStep] at hs
      split at hs
      · rename_i hadvertised
        cases hs
        refine { h with discovered := fun other hmem => ?_ }
        obtain rfl | hold := List.mem_cons.mp hmem
        · exact h.advertised other hadvertised
        · exact h.discovered other hold
      · cases hs

/-- A REGISTER that is executed too early shows at once. -/
theorem AdvertisedInv.servable_iff (h : AdvertisedInv s) :
    (∀ t, registeringStep s a = some t → Servable t) ↔ InTime s a := by
  constructor
  · intro hservable
    cases a with
    | execute entry =>
        obtain ⟨path, method⟩ := entry
        cases path with
        | proto => trivial
        | json =>
            intro hrequested
            have hnext := hservable _ (if_pos hrequested)
            exact hnext.installed (.json, method) List.mem_cons_self
    | _ => trivial
  · intro hok t hs
    exact (h.step hok hs).servable

end Inv

theorem advertisedInv_init {τ : Type} (enablediscover : Bool) :
    AdvertisedInv ({ enablediscover } : RegisteringServer τ) := by
  refine ⟨nofun, nofun, nofun, nofun, nofun, nofun, fun _ _ _ _ hphase => ?_, nofun⟩
  obtain hphase | hphase := hphase <;> cases hphase

/-- Along a run, what is advertised is servable in every state exactly if no REGISTER of
`registerMethod` is executed before the service is there; those of `registerProtoHandler`
never are. -/
theorem advertised_servable_iff {τ : Type} [DecidableEq τ] (enablediscover : Bool)
    (acts : List (RegisteringAct τ)) :
    Along registeringStep (fun s a => ∀ t, registeringStep s a = some t → Servable t)
        { enablediscover } acts ↔
      Along registeringStep InTime { enablediscover } acts :=
  (Along.congr_of AdvertisedInv (fun _ _ _ h hok hs => h.step hok hs)
    (fun _ _ h => h.servable_iff.symm) (advertisedInv_init enablediscover)).symm

/-- The registry executes the REGISTER of a new method while `registerMethod` waits for it. -/
theorem registerMethod_advertises_early :
    ¬ ∀ (enablediscover : Bool) (acts : List (RegisteringAct Unit)),
      Along registeringStep (fun s a => ∀ t, registeringStep s a = some t → Servable t)
        { enablediscover } acts := by
  intro h
  let service : ServiceDescribe :=
    { methodName := str "add"
      serviceCb := fun params => .ok params
      paramsDesc := []
      returnType := .OBJECT }
  let entry : RpcPath × Bytes := (.json, str "add")
  let calls : List (RegisteringAct Unit) := [.register () (.registerMethod service), .goOn ()]
  have halong := h true (calls ++ [.execute entry])
  obtain ⟨s, hrun⟩ : ∃ s, exec registeringStep { enablediscover := true } calls = some s :=
    ⟨_, rfl⟩
  have hrequested : entry ∈ s.requests ∧ s.manager.services = [] := by
    cases hrun
    exact ⟨List.mem_cons_self, rfl⟩
  have hservable := halong.last hrun _ (if_pos hrequested.1)
  have hinstalled : (s.manager.select (str "add")).isSome = true :=
    hservable.installed entry List.mem_cons_self
  rw [ServiceManager.select, hrequested.2] at hinstalled
  cases hinstalled

end LyqtRpc
