import LyqtRpc.Requestor
import LyqtRpc.RpcCaller

/-!
`caller.hpp` and `RpcClient::call`: what one admitted request of each call mode
tells the breaker, from the send to the last response. The handlers of the
request run one at a time here.
-/

set_option autoImplicit false

namespace LyqtRpc

open StepRun

variable {M : Type}

namespace Request

/-- `Requestor::onResponse`, from its look-up to its `delDesc`. -/
def onResponse (r : Request M) (msg : M) : Request M :=
  if r.pending then
    if r.desc.timeoutTriggered then { r with found := true, pending := false }
    else
      match r.desc.reqtype with
      | .ASYNC =>
        match r.desc.response with
        | some _ => { r with found := true }
        | none =>
          { r with
            found := true
            pending := false
            settled := r.settled + 1
            desc := { r.desc with response := some (.response msg) } }
      | .CALLBACK =>
        { r with found := true, pending := false, calledBack := r.calledBack ++ [msg] }
  else r

/-- `Requestor::onTimeout` -/
def onTimeout (r : Request M) : Request M :=
  if r.pending then
    if r.desc.timeoutTriggered then { r with found := true }
    else
      match r.desc.reqtype, r.desc.response with
      | .ASYNC, none =>
        { r with
          found := true
          pending := false
          settled := r.settled + 1
          desc := { r.desc with
            timeoutTriggered := true, response := some (.timeout r.desc.proto) } }
      | _, _ =>
        { r with
          found := true, pending := false, desc := { r.desc with timeoutTriggered := true } }
  else r

end Request

namespace RequestorState

/-- The IO thread runs its handler to the end. -/
def runIo : Nat → RequestorState M → RequestorState M
  | 0, s => s
  | n + 1, s =>
    match ioStep s with
    | some t => runIo n t
    | none => s

def runTimeout (i : Nat) : Nat → RequestorState M → RequestorState M
  | 0, s => s
  | n + 1, s =>
    match timeoutStep s i with
    | some t => runTimeout i n t
    | none => s

end RequestorState

/-- `onResponse` with no other thread in between. -/
theorem runIo_onResponse (s : RequestorState M) (rid : Bytes) (msg : M) (late : Bool) :
    (RequestorState.runIo 4 { s with io := .getDesc rid msg late }).io = .idle ∧
      (RequestorState.runIo 4 { s with io := .getDesc rid msg late }).requests =
        Function.update s.requests rid ((s.requests rid).onResponse msg) := by
  by_cases hpending : (s.requests rid).pending
  · by_cases hlate : (s.requests rid).desc.timeoutTriggered
    · simp [RequestorState.runIo, ioStep, Request.onResponse, RequestorState.found,
        RequestorState.modify, RequestorState.delDesc, hpending, hlate]
    · cases htype : (s.requests rid).desc.reqtype with
      | ASYNC =>
          cases hset : (s.requests rid).desc.response with
          | some v =>
              simp [RequestorState.runIo, ioStep, Request.onResponse, RequestorState.found,
                RequestorState.modify, hpending, hlate, htype, hset]
          | none =>
              simp [RequestorState.runIo, ioStep, Request.onResponse, RequestorState.found,
                RequestorState.modify, RequestorState.delDesc, RequestorState.setValue,
                hpending, hlate, htype, hset]
      | CALLBACK =>
          simp [RequestorState.runIo, ioStep, Request.onResponse, RequestorState.found,
            RequestorState.modify, RequestorState.delDesc, hpending, hlate, htype]
  · simp [RequestorState.runIo, ioStep, Request.onResponse, hpending]

/-- `onTimeout` with no other thread in between. -/
theorem runTimeout_onTimeout (s : RequestorState M) (i : Nat) (rid : Bytes) :
    (RequestorState.runTimeout i 4 (s.setTimeout i (.getDesc rid))).timeouts i = .idle ∧
      (RequestorState.runTimeout i 4 (s.setTimeout i (.getDesc rid))).requests =
        Function.update s.requests rid (s.requests rid).onTimeout := by
  by_cases hpending : (s.requests rid).pending
  · by_cases hlate : (s.requests rid).desc.timeoutTriggered
    · simp [RequestorState.runTimeout, timeoutStep, Request.onTimeout, RequestorState.found,
        RequestorState.setTimeout, RequestorState.modify, hpending, hlate]
    · cases htype : (s.requests rid).desc.reqtype with
      | ASYNC =>
          cases hset : (s.requests rid).desc.response with
          | some v =>
              simp [RequestorState.runTimeout, timeoutStep, Request.onTimeout,
                RequestorState.found, RequestorState.setTimeout, RequestorState.modify,
                RequestorState.delDesc, hpending, hlate, htype, hset]
          | none =>
              simp [RequestorState.runTimeout, timeoutStep, Request.onTimeout,
                RequestorState.found, RequestorState.setTimeout, RequestorState.modify,
                RequestorState.delDesc, RequestorState.setValue, hpending, hlate, htype, hset]
      | CALLBACK =>
          simp [RequestorState.runTimeout, timeoutStep, Request.onTimeout,
            RequestorState.found, RequestorState.setTimeout, RequestorState.modify,
            RequestorState.delDesc, hpending, hlate, htype]
  · simp [RequestorState.runTimeout, timeoutStep, Request.onTimeout,
      RequestorState.setTimeout, hpending]

/-- A value of the promise; `onTimeout` makes up a response with code TIMEOUT. -/
def Reply.message : Reply RespMessage → RespMessage
  | .response msg => msg
  | .timeout true => .other
  | .timeout false => .rpcResponse (JsonResponse.setRcode .null (.named .TIMEOUT))

/-- `onSuccess` or `onFailure` of the circuit breaker. -/
structure BreakerReport where
  method : Bytes
  host : Bytes
  success : Bool
  deriving DecidableEq, Repr

namespace RpcCaller

/-- Nothing is reported past an exception. -/
def report (method host : Bytes) : Except CppException Bool → List BreakerReport
  | .ok success => [⟨method, host, success⟩]
  | .error _ => []

/-- The synchronous call copies the result. -/
def received (method host : Bytes) (resp : RespMessage) : List BreakerReport :=
  report method host (judge (fun _ => .ok ()) resp)

/-- The future's call sets its promise, for the first time. -/
def callBack (method host : Bytes) (msg : RespMessage) : List BreakerReport :=
  report method host (judge (fun _ => .ok ()) msg)

/-- The user's `cb` is run, and may throw. -/
def callBackself (cb : JsonValue → Except CppException Unit) (method host : Bytes)
    (msg : RespMessage) : List BreakerReport :=
  report method host (judge cb msg)

def sendFailed (method host : Bytes) (sendErr : RpcError) : List BreakerReport :=
  if isHostSendFailure sendErr then [⟨method, host, false⟩] else []

end RpcCaller

inductive TransportEvent where
  /-- A response to the request reaches `onResponse`. -/
  | response (msg : RespMessage)
  /-- The timer set with `runAfter` is due. -/
  | timer
  /-- The `wait_for` of the caller runs out. -/
  | waitFor

/-- How `wait_for` came back to the synchronous sender. -/
inductive WaitEnd where
  | timeout
  | ready (reply : Reply RespMessage)

def CallMode.reqtype : CallMode → ReqType
  | .sync => .ASYNC
  | .future | .callback => .CALLBACK

/-- A request that has been sent. An exception that leaves a callback ends the
IO thread; the callback of a request is not run twice either way. -/
structure CallRun where
  request : Request RespMessage
  timer : Bool
  waited : Option WaitEnd := none

namespace CallRun

def sent (mode : CallMode) : CallRun where
  request := { pending := true, desc := { reqtype := mode.reqtype, proto := false } }
  timer := mode = .sync

/-- The synchronous sender takes the value once there is one. -/
def wake (mode : CallMode) (c : CallRun) : CallRun :=
  match mode, c.waited, c.request.desc.response with
  | .sync, none, some reply => { c with waited := some (.ready reply) }
  | _, _, _ => c

def handle (mode : CallMode) (c : CallRun) : TransportEvent → CallRun
  | .response msg =>
    -- the timer of a request that is still in the table is cancelled
    wake mode
      { c with request := c.request.onResponse msg, timer := c.timer && !c.request.pending }
  | .timer =>
    if c.timer then wake mode { c with request := c.request.onTimeout, timer := false } else c
  | .waitFor =>
    match mode, c.waited with
    | .sync, none =>
      { c with
        request := c.request.onTimeout
        timer := c.timer && !c.request.pending
        waited := some .timeout }
    -- `RpcClient` gives the future up, and the request is left as it is
    | _, _ => c

def reports (mode : CallMode) (method host : Bytes) (cb : JsonValue → Except CppException Unit)
    (c : CallRun) : List BreakerReport :=
  match mode with
  | .sync =>
    match c.waited with
    | none => []
    | some .timeout => RpcCaller.sendFailed method host .TIMEOUT
    | some (.ready reply) => RpcCaller.received method host reply.message
  | .future => c.request.calledBack.flatMap (RpcCaller.callBack method host)
  | .callback => c.request.calledBack.flatMap (RpcCaller.callBackself cb method host)

end CallRun

/-- What becomes of an admitted request. -/
inductive Transport where
  | sendFailed (e : RpcError)
  | sent (events : List TransportEvent)

def RpcCaller.call (mode : CallMode) (method host : Bytes)
    (cb : JsonValue → Except CppException Unit) : Transport → List BreakerReport
  | .sendFailed e => RpcCaller.sendFailed method host e
  | .sent events =>
    (events.foldl (CallRun.handle mode) (.sent mode)).reports mode method host cb

/-- One attempt of `RpcClient::call` on a host; `conn` is the connection's peer
address, if there is a connection. -/
def RpcClient.attempt (mode : CallMode) (method hostKey : Bytes) (conn : Option Bytes)
    (cb : JsonValue → Except CppException Unit) (t : Transport) : List BreakerReport :=
  match conn with
  -- `onConnectionUnavailable`
  | none => [⟨method, hostKey, false⟩]
  | some peerAddress => RpcCaller.call mode method peerAddress cb t

def firstResponse : List TransportEvent → Option RespMessage
  | [] => none
  | .response msg :: _ => some msg
  | _ :: events => firstResponse events

/-- Not an `RpcResponse`, or one whose code is not SUCCESS. -/
def RespMessage.Failed : RespMessage → Prop
  | .other => True
  | .rpcResponse data => ∃ rcode, JsonResponse.rcode data = .ok rcode ∧ rcode ≠ .named .SUCCESS

/-- The user's callback does not throw on the result, if there is one. -/
def RespMessage.Accepted (cb : JsonValue → Except CppException Unit) : RespMessage → Prop
  | .other => True
  | .rpcResponse data => ∀ result, JsonResponse.rcode data = .ok (.named .SUCCESS) →
      JsonResponse.result data = .ok result → Returns (cb result)

/-- The response comes before the timeout, or it comes late and is a failure too. -/
def AnsweredInTime (cb : JsonValue → Except CppException Unit) : List TransportEvent → Prop
  | [] => True
  | .response msg :: _ => msg.Accepted cb
  | _ :: late => ∃ msg, firstResponse late = some msg ∧ msg.Failed

theorem received_timeout {method host : Bytes} :
    RpcCaller.received method host (Reply.timeout false).message = [⟨method, host, false⟩] := by
  have hcode : JsonResponse.rcode (JsonResponse.setRcode .null (.named .TIMEOUT)) =
      .ok (.named .TIMEOUT) := by
    simp [JsonResponse.rcode, JsonResponse.setRcode, JsonValue.index_eq]
  have hjudge : RpcCaller.judge (fun _ => .ok ()) (Reply.timeout false).message = .ok false := by
    simp only [Reply.message, RpcCaller.judge, hcode]
    rfl
  rw [RpcCaller.received, hjudge, RpcCaller.report]

/-- A request without a timer: the first response is the one called back. -/
theorem calledBack_foldl {mode : CallMode} (hmode : mode ≠ .sync)
    (events : List TransportEvent) {c : CallRun}
    (htimer : c.timer = false) (htype : c.request.desc.reqtype = .CALLBACK)
    (hlate : c.request.desc.timeoutTriggered = false) :
    (events.foldl (CallRun.handle mode) c).request.calledBack =
      c.request.calledBack ++
        (if c.request.pending then (firstResponse events).toList else []) := by
  induction events generalizing c with
  | nil => simp [firstResponse]
  | cons e events ih =>
      rw [List.foldl_cons]
      cases e with
      | response msg =>
          have hwake : ∀ c, CallRun.wake mode c = c := by
            intro c
            cases mode with
            | sync => exact absurd rfl hmode
            | future | callback => rfl
          have hhandle : (c.handle mode (.response msg)) =
              { c with request := c.request.onResponse msg } := by
            simp [CallRun.handle, hwake, htimer]
          rw [hhandle]
          cases hpending : c.request.pending with
          | false =>
              have hsame : c.request.onResponse msg = c.request := by
                simp [Request.onResponse, hpending]
              rw [hsame, ih htimer htype hlate, hpending]
              simp
          | true =>
              have hnext : c.request.onResponse msg =
                  { c.request with
                    found := true
                    pending := false
                    calledBack := c.request.calledBack ++ [msg] } := by
                simp [Request.onResponse, hpending, hlate, htype]
              have hrest := @ih { c with request := c.request.onResponse msg } htimer
                (by rw [hnext]; exact htype) (by rw [hnext]; exact hlate)
              rw [hrest, hnext]
              simp [firstResponse]
      | timer =>
          have hhandle : c.handle mode .timer = c := by simp [CallRun.handle, htimer]
          rw [hhandle]
          exact ih htimer htype hlate
      | waitFor =>
          have hhandle : c.handle mode .waitFor = c := by
            cases mode with
            | sync => exact absurd rfl hmode
            | future | callback => rfl
          rw [hhandle]
          exact ih htimer htype hlate

/-- The synchronous sender waits once. -/
theorem waited_foldl (events : List TransportEvent) {c : CallRun} {w : WaitEnd}
    (h : c.waited = some w) :
    (events.foldl (CallRun.handle .sync) c).waited = some w := by
  have hwake : ∀ c : CallRun, c.waited = some w → (c.wake .sync).waited = some w := by
    intro c hc
    simp [CallRun.wake, hc]
  induction events generalizing c with
  | nil => exact h
  | cons e events ih =>
      apply ih
      cases e with
      | response msg => exact hwake _ h
      | timer =>
          cases htimer : c.timer with
          | false =>
              simp only [CallRun.handle, htimer]
              exact h
          | true =>
              simp only [CallRun.handle, htimer]
              exact hwake _ h
      | waitFor =>
          simp only [CallRun.handle, h]

section Modes
variable {method host : Bytes} (cb : JsonValue → Except CppException Unit)

theorem call_future (events : List TransportEvent) :
    RpcCaller.call .future method host cb (.sent events) =
      (firstResponse events).elim [] (RpcCaller.callBack method host) := by
  have h := @calledBack_foldl .future (by decide) events (.sent .future) rfl rfl rfl
  simp only [RpcCaller.call, CallRun.reports, h]
  cases firstResponse events with
  | none => rfl
  | some msg => exact List.append_nil _

theorem call_callback (events : List TransportEvent) :
    RpcCaller.call .callback method host cb (.sent events) =
      (firstResponse events).elim [] (RpcCaller.callBackself cb method host) := by
  have h := @calledBack_foldl .callback (by decide) events (.sent .callback) rfl rfl rfl
  simp only [RpcCaller.call, CallRun.reports, h]
  cases firstResponse events with
  | none => rfl
  | some msg => exact List.append_nil _

/-- Whichever clock runs out first, a synchronous call reports a failure. -/
theorem call_sync_timeout {e : TransportEvent} (he : ∀ msg, e ≠ .response msg)
    (events : List TransportEvent) :
    RpcCaller.call .sync method host cb (.sent (e :: events)) = [⟨method, host, false⟩] := by
  cases e with
  | response msg => exact absurd rfl (he msg)
  | timer =>
      have h := @waited_foldl events ((CallRun.sent .sync).handle .sync .timer)
        (.ready (.timeout false)) rfl
      simp only [RpcCaller.call, List.foldl_cons, CallRun.reports, h]
      exact received_timeout
  | waitFor =>
      have h := @waited_foldl events ((CallRun.sent .sync).handle .sync .waitFor) .timeout rfl
      simp only [RpcCaller.call, List.foldl_cons, CallRun.reports, h]
      rfl

theorem call_sync_response (msg : RespMessage) (events : List TransportEvent) :
    RpcCaller.call .sync method host cb (.sent (.response msg :: events)) =
      RpcCaller.received method host msg := by
  have h := @waited_foldl events ((CallRun.sent .sync).handle .sync (.response msg))
    (.ready (.response msg)) rfl
  simp only [RpcCaller.call, List.foldl_cons, CallRun.reports, h, Reply.message]

end Modes

section Judge
variable {use : JsonValue → Except CppException Unit}

theorem judge_failed {msg : RespMessage} : RpcCaller.judge use msg = .ok false ↔ msg.Failed := by
  cases msg with
  | other => simp [RpcCaller.judge, RespMessage.Failed]
  | rpcResponse data =>
      cases h : JsonResponse.rcode data with
      | error e => simp [judge_throws h, RespMessage.Failed, h]
      | ok rcode =>
          by_cases hcode : rcode = .named .SUCCESS
          · subst hcode
            simp only [judge_success h, RespMessage.Failed, h, bind_eq_ok]
            simp
          · simp [judge_code h hcode, RespMessage.Failed, h, hcode]

/-- The user's callback changes the report only by throwing. -/
theorem judge_eq_iff {msg : RespMessage} {cb : JsonValue → Except CppException Unit} :
    RpcCaller.judge cb msg = .ok true ↔
      RpcCaller.judge (fun _ => .ok ()) msg = .ok true ∧ msg.Accepted cb := by
  cases msg with
  | other => simp [RpcCaller.judge]
  | rpcResponse data =>
      cases h : JsonResponse.rcode data with
      | error e => simp [judge_throws h]
      | ok rcode =>
          by_cases hcode : rcode = .named .SUCCESS
          · subst hcode
            simp only [judge_success h, RespMessage.Accepted, h, bind_eq_ok]
            cases hresult : JsonResponse.result data with
            | error e => simp
            | ok result => simp [Returns]
          · simp [judge_code h hcode]

end Judge

variable {method host : Bytes} {cb : JsonValue → Except CppException Unit}

theorem report_eq_singleton {x : Except CppException Bool} {b : Bool} :
    RpcCaller.report method host x = [⟨method, host, b⟩] ↔ x = .ok b := by
  cases x with
  | error e => simp [RpcCaller.report]
  | ok success => simp [RpcCaller.report]

theorem report_toList (method host : Bytes) (x : Except CppException Bool) :
    ∃ outcome : Option BreakerReport, RpcCaller.report method host x = outcome.toList := by
  cases x with
  | error e => exact ⟨none, rfl⟩
  | ok success => exact ⟨some ⟨method, host, success⟩, rfl⟩

/-- An accepted response is reported the same way by all three. -/
theorem callBackself_accepted {msg : RespMessage} (h : msg.Accepted cb) :
    RpcCaller.callBackself cb method host msg = RpcCaller.received method host msg := by
  unfold RpcCaller.callBackself RpcCaller.received
  cases hjudge : RpcCaller.judge (fun _ => .ok ()) msg with
  | ok success =>
      cases success with
      | true => rw [judge_eq_iff.mpr ⟨hjudge, h⟩]
      | false => rw [judge_failed.mpr (judge_failed.mp hjudge)]
  | error e =>
      cases hcb : RpcCaller.judge cb msg with
      | error e' => rfl
      | ok success =>
          cases success with
          | true =>
              rw [(judge_eq_iff.mp hcb).1] at hjudge
              cases hjudge
          | false =>
              rw [judge_failed.mpr (judge_failed.mp hcb)] at hjudge
              cases hjudge

theorem accepted_of_reported {msg : RespMessage}
    (h : RpcCaller.callBackself cb method host msg = RpcCaller.received method host msg) :
    msg.Accepted cb := by
  cases msg with
  | other => trivial
  | rpcResponse data =>
      intro result hcode hresult
      have hreceived : RpcCaller.judge (fun _ => .ok ()) (.rpcResponse data) = .ok true := by
        simp only [judge_success hcode, hresult]
        rfl
      unfold RpcCaller.callBackself RpcCaller.received at h
      rw [hreceived, RpcCaller.report.eq_1] at h
      exact (judge_eq_iff.mp (report_eq_singleton.mp h)).2 result hcode hresult

theorem report_failed (method host : Bytes) {use : JsonValue → Except CppException Unit}
    {msg : RespMessage} (h : msg.Failed) :
    RpcCaller.report method host (RpcCaller.judge use msg) = [⟨method, host, false⟩] :=
  report_eq_singleton.mpr (judge_failed.mpr h)

/-- A late failure is reported by the modes that still wait as the timeout is by the
synchronous one. -/
theorem late_failure {use : JsonValue → Except CppException Unit} {events : List TransportEvent}
    {msg : RespMessage} (hfirst : firstResponse events = some msg) (hfailed : msg.Failed) :
    (firstResponse events).elim [] (fun msg =>
      RpcCaller.report method host (RpcCaller.judge use msg)) = [⟨method, host, false⟩] := by
  rw [hfirst]
  exact report_failed method host hfailed

theorem answeredInTime_of_reports {events : List TransportEvent} {outcome : Option BreakerReport}
    (h : ∀ mode, RpcCaller.call mode method host cb (.sent events) = outcome.toList) :
    AnsweredInTime cb events := by
  have hsync := h .sync
  have hfuture := (call_future cb events).symm.trans (h .future)
  have hcallback := (call_callback cb events).symm.trans (h .callback)
  cases events with
  | nil => trivial
  | cons e late =>
      cases e with
      | response msg =>
          have hreceived := (call_sync_response cb msg late).symm.trans hsync
          exact accepted_of_reported (hcallback.trans hreceived.symm)
      | timer | waitFor =>
          have hfailure := (call_sync_timeout cb (by simp) late).symm.trans hsync
          rw [← hfailure] at hfuture
          cases hfirst : firstResponse late with
          | none =>
              simp only [firstResponse, hfirst] at hfuture
              cases hfuture
          | some msg =>
              simp only [firstResponse, hfirst] at hfuture
              exact ⟨msg, hfirst, judge_failed.mp (report_eq_singleton.mp hfuture)⟩

theorem reports_of_answeredInTime {events : List TransportEvent} (h : AnsweredInTime cb events) :
    ∃ outcome : Option BreakerReport, ∀ mode,
      RpcCaller.call mode method host cb (.sent events) = outcome.toList := by
  cases events with
  | nil =>
      refine ⟨none, fun mode => ?_⟩
      cases mode <;> rfl
  | cons e late =>
      cases e with
      | response msg =>
          obtain ⟨outcome, houtcome⟩ :=
            report_toList method host (RpcCaller.judge (fun _ => .ok ()) msg)
          refine ⟨outcome, fun mode => ?_⟩
          cases mode with
          | sync => exact (call_sync_response cb msg late).trans houtcome
          | future => exact (call_future cb _).trans houtcome
          | callback =>
              exact (call_callback cb _).trans ((callBackself_accepted h).trans houtcome)
      | timer | waitFor =>
          obtain ⟨msg, hfirst, hfailed⟩ := h
          refine ⟨some ⟨method, host, false⟩, fun mode => ?_⟩
          cases mode with
          | sync => exact call_sync_timeout cb (by simp) late
          | future => exact (call_future cb _).trans (late_failure hfirst hfailed)
          | callback => exact (call_callback cb _).trans (late_failure hfirst hfailed)

/-- The three modes of a call tell the breaker the same, once, exactly if the
response comes before the timeout, or comes late and is a failure too. -/
theorem callModes_agree_iff (method hostKey : Bytes) (conn : Option Bytes)
    (cb : JsonValue → Except CppException Unit) (t : Transport) :
    (∃ outcome : Option BreakerReport, ∀ mode,
      RpcClient.attempt mode method hostKey conn cb t = outcome.toList) ↔
    (conn.isSome → ∀ events, t = .sent events → AnsweredInTime cb events) := by
  constructor
  · rintro ⟨outcome, h⟩ hconn events rfl
    obtain ⟨host, rfl⟩ := Option.isSome_iff_exists.mp hconn
    exact answeredInTime_of_reports h
  · intro h
    cases conn with
    | none => exact ⟨some ⟨method, hostKey, false⟩, fun _ => rfl⟩
    | some host =>
        cases t with
        | sendFailed e =>
            by_cases he : isHostSendFailure e
            · exact ⟨some ⟨method, host, false⟩, fun _ => if_pos he⟩
            · exact ⟨none, fun _ => if_neg he⟩
        | sent events => exact reports_of_answeredInTime (h rfl events rfl)

/-- No response within the timeout: the synchronous call reports a failure, the
future's nothing. -/
theorem callModes_disagree :
    ¬ ∃ outcome : Option BreakerReport, ∀ mode,
      RpcClient.attempt mode (str "add") (str "10.0.0.1:8889") (some (str "10.0.0.1:8889"))
        (fun _ => .ok ()) (.sent [.waitFor]) = outcome.toList := by
  rintro ⟨outcome, h⟩
  have hsync : [⟨str "add", str "10.0.0.1:8889", false⟩] = outcome.toList := h .sync
  have hfuture : [] = outcome.toList := h .future
  rw [← hsync] at hfuture
  cases hfuture

/-- A success that comes too late for the synchronous call still counts here. -/
example :
    RpcClient.attempt .future (str "add") [] (some []) (fun _ => .ok ())
      (.sent [.waitFor, .response (.rpcResponse
        (JsonResponse.setRcode .null (.named .SUCCESS)))]) = [⟨str "add", [], true⟩] := by
  rfl

end LyqtRpc
