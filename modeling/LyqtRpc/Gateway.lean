import LyqtRpc.DiagnoseHandler
import LyqtRpc.HttpResponse
import LyqtRpc.HttpRouter
import LyqtRpc.Lib.StepRun
import LyqtRpc.RetryHint

/-!
The gateway: `HttpServer` with the callback of `gateway_server.cc`, its router, limiter
and handlers, over any number of connections. What comes in on a connection, and the
return of a backend call, are one step each. The limiter computes with rationals where the
code has doubles.
-/

set_option autoImplicit false

namespace LyqtRpc

open StepRun

/-! `GatewayHandler`. -/

structure EchoRequest where
  data : Bytes
  deriving DecidableEq

structure EchoResponse where
  data : Bytes
  deriving DecidableEq

structure AddRequest where
  num1 : Int32
  num2 : Int32
  deriving DecidableEq

structure AddResponse where
  result : Int32
  deriving DecidableEq

/-- `google::protobuf::util`, one function a message type; the error is the message of
the status. -/
structure JsonUtil where
  echoRequest : Bytes → Except Bytes EchoRequest
  echoResponse : EchoResponse → Bytes
  addRequest : Bytes → Except Bytes AddRequest
  addResponse : AddResponse → Bytes

/-- What `call_proto` is called with. The retries that one such call makes are its own. -/
inductive BackendCall where
  | echo (req : EchoRequest)
  | add (req : AddRequest)
  deriving DecidableEq

/-- What it comes back with. -/
inductive BackendReply where
  | failed
  | echo (resp : EchoResponse)
  | add (resp : AddResponse)
  deriving DecidableEq

/-- The reply is one to this method. -/
def BackendCall.Fits : BackendCall → BackendReply → Bool
  | _, .failed => true
  | .echo _, .echo _ => true
  | .add _, .add _ => true
  | _, _ => false

/-- A handler has filled the response, or waits for the backend. -/
inductive Handling where
  | done (resp : HttpResp)
  | calls (call : BackendCall) (resp : HttpResp)

namespace GatewayHandler

variable (util : JsonUtil)

/-- The text of the error has a quote on either side of the message. -/
def handleEcho (req : HttpReq) (resp : HttpResp) : Handling :=
  match util.echoRequest req.body with
  | .error message =>
    .done ({ resp with status := 400 }.setBody
      (str "\x7b\"error\":\"invalid JSON: \"" ++ message ++ str "\"\x7d"))
  | .ok proto_req => .calls (.echo proto_req) resp

def handleAdd (req : HttpReq) (resp : HttpResp) : Handling :=
  match util.addRequest req.body with
  | .error _ =>
    .done ({ resp with status := 400 }.setBody (str "\x7b\"error\":\"invalid JSON\"\x7d"))
  | .ok proto_req => .calls (.add proto_req) resp

/-- The rest of either, behind the call. -/
def finish (call : BackendCall) (reply : BackendReply) (resp : HttpResp) : HttpResp :=
  match reply with
  | .echo proto_resp => resp.setBody (util.echoResponse proto_resp)
  | .add proto_resp => resp.setBody (util.addResponse proto_resp)
  | .failed =>
    { resp with status := 502 }.setBody
      (match call with
      | .echo _ => str "\x7b\"error\":\"backend call failed\",\"method\":\"echo\"\x7d"
      | .add _ => str "\x7b\"error\":\"backend call failed\",\"method\":\"add\"\x7d")

end GatewayHandler

/-- The handlers that `main` registers. -/
inductive Endpoint where
  | echo
  | add
  | diagnose
  | health
  deriving DecidableEq

def routes : List (Registration Endpoint) :=
  [.addRoute (str "POST") (str "/api/echo") .echo,
    .addRoute (str "POST") (str "/api/add") .add,
    .addRoute (str "GET") (str "/diagnose") .diagnose,
    .addRoute (str "GET") (str "/api/health") .health]

/-- What a callback finds besides the request: the clock when it asks the limiter, and what
`/diagnose` would read. -/
structure CallbackEnv where
  now : ℚ
  diagnosis : DiagnoseInput := {}

def Endpoint.handle (util : JsonUtil) (env : CallbackEnv) :
    Endpoint → HttpReq → HttpResp → Handling
  | .echo, req, resp => GatewayHandler.handleEcho util req resp
  | .add, req, resp => GatewayHandler.handleAdd util req resp
  | .diagnose, _, resp => .done (resp.setBody (DiagnoseHandler.diagnose env.diagnosis))
  | .health, _, resp => .done (resp.setBody (str "\x7b\"status\":\"ok\"\x7d"))

/-- `gateway_requests_total` by path and method, `gateway_errors_total` by path and code. -/
structure GatewayCounters where
  requests : Bytes × Bytes → Nat := fun _ => 0
  errors : Bytes × Bytes → Nat := fun _ => 0

namespace GatewayCounters

def countRequest (c : GatewayCounters) (req : HttpReq) : GatewayCounters :=
  let series := (req.path, req.method)
  { c with requests := Function.update c.requests series (c.requests series + 1) }

def countError (c : GatewayCounters) (path code : Bytes) : GatewayCounters :=
  let series := (path, code)
  { c with errors := Function.update c.errors series (c.errors series + 1) }

/-- What the callback counts behind the handler. -/
def afterHandler (c : GatewayCounters) (req : HttpReq) (resp : HttpResp) : GatewayCounters :=
  let c := c.countRequest req
  if 400 ≤ resp.status then c.countError req.path (intText resp.status) else c

end GatewayCounters

/-- The response a callback starts with. -/
def jsonResp : HttpResp := HttpResp.setContentType {} (str "application/json")

def rateLimited (bucket : TokenBucket) : HttpResp :=
  { jsonResp with status := 429 }.setBody
    (str "\x7b\"error\":\"rate limited\",\"retry_after_ms\":" ++
      (bucket.retryAfterMs.map integerText).getD [] ++ str "\x7d")

def notFound (path : Bytes) : HttpResp :=
  { jsonResp with status := 404 }.setBody
    (str "\x7b\"error\":\"not found\",\"path\":\"" ++ path ++ str "\"\x7d")

/-! The server. -/

/-- A callback that waits for the backend. -/
structure Waiting where
  req : HttpReq
  env : CallbackEnv
  call : BackendCall
  resp : HttpResp

/-- `connected`: the server has not shut it down. `chunks` and `heard` are histories: what
has come, and what `onMessage` has made of it. -/
structure GatewayConn where
  buf : Bytes := []
  connected : Bool := true
  waiting : Option Waiting := none
  sent : List Bytes := []
  chunks : List Bytes := []
  heard : List HttpServer.HttpEffect := []

/-- A callback that has returned: what the limiter said, and what the backend. -/
structure Exchange where
  conn : Nat
  req : HttpReq
  env : CallbackEnv
  admitted : Bool
  reply : Option BackendReply
  resp : HttpResp

/-- `exchanges`, `readings` and `calls` are histories: the callbacks that have returned, the
clock readings the limiter was asked with, and the backend calls that were begun. -/
structure GatewayState where
  bucket : TokenBucket
  conns : Nat → GatewayConn := fun _ => {}
  counters : GatewayCounters := {}
  crashed : Bool := false
  exchanges : List Exchange := []
  readings : List ℚ := []
  calls : List (Nat × HttpReq × BackendCall) := []

inductive GatewayAct where
  | receive (c : Nat) (chunk : Bytes) (env : CallbackEnv)
  | backend (c : Nat) (reply : BackendReply)

/-- `send` on a connection that is shut down does nothing. -/
def GatewayConn.respond (conn : GatewayConn) (resp : HttpResp) : GatewayConn :=
  if conn.connected then
    { conn with sent := conn.sent ++ [HttpServer.sendResponse resp], connected := false }
  else conn

namespace GatewayState

def setConn (s : GatewayState) (c : Nat) (conn : GatewayConn) : GatewayState :=
  { s with conns := Function.update s.conns c conn }

@[simp] theorem setConn_self (s : GatewayState) (c : Nat) (conn : GatewayConn) :
    (s.setConn c conn).conns c = conn := Function.update_self ..

theorem setConn_ne (s : GatewayState) {c c' : Nat} (h : c' ≠ c) (conn : GatewayConn) :
    (s.setConn c conn).conns c' = s.conns c' := Function.update_of_ne h ..

/-- The callback returns. -/
def complete (s : GatewayState) (e : Exchange) : GatewayState :=
  { s with exchanges := s.exchanges ++ [e] }.setConn e.conn
    ({ s.conns e.conn with waiting := none }.respond e.resp)

/-- The callback of `main`, up to its return or to its backend call. -/
def callback (util : JsonUtil) (s : GatewayState) (c : Nat) (req : HttpReq)
    (env : CallbackEnv) : GatewayState :=
  let (admitted, bucket) := s.bucket.allow env.now
  let s := { s with bucket, readings := s.readings ++ [env.now] }
  if !admitted then
    { s with counters := s.counters.countError req.path (str "429") }.complete
      ⟨c, req, env, false, none, rateLimited bucket⟩
  else
    match (HttpRouter.build routes).dispatch req.method req.path with
    | none => s.complete ⟨c, req, env, true, none, notFound req.path⟩
    | some h =>
      match h.handle util env req jsonResp with
      | .done resp =>
        { s with counters := s.counters.afterHandler req resp }.complete
          ⟨c, req, env, true, none, resp⟩
      | .calls call resp =>
        { s with calls := s.calls ++ [(c, req, call)] }.setConn c
          { s.conns c with waiting := some ⟨req, env, call, resp⟩ }

end GatewayState

/-- An exception ends the process. A connection whose callback runs hears nothing. -/
def gatewayStep (util : JsonUtil) (s : GatewayState) : GatewayAct → Option GatewayState
  | .receive c chunk env =>
    let conn := s.conns c
    if s.crashed || conn.waiting.isSome then none
    else
      match HttpServer.onMessage (conn.buf ++ chunk) with
      | .error _ => some { s with crashed := true }
      | .ok (buf, effect) =>
        let conn := { conn with
          buf
          chunks := conn.chunks ++ [chunk]
          heard := conn.heard ++ [effect] }
        match effect with
        | .wait => some (s.setConn c conn)
        | .shutdown => some (s.setConn c { conn with connected := false })
        | .callback req => some ((s.setConn c conn).callback util c req env)
  | .backend c reply =>
    match (s.conns c).waiting with
    | none => none
    | some w =>
      if s.crashed || !w.call.Fits reply then none
      else
        let resp := GatewayHandler.finish util w.call reply w.resp
        some ({ s with counters := s.counters.afterHandler w.req resp }.complete
          ⟨c, w.req, w.env, true, some reply, resp⟩)

/-- A thousand tokens a second, two thousand at once. -/
def gatewayInit (start : ℚ) : GatewayState := { bucket := .create 1000 2000 start }

end LyqtRpc
