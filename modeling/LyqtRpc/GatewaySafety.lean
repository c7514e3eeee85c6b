import LyqtRpc.Gateway

/-!
What the gateway has done in any run: a connection is answered at most once, with the
response to the first request on it; every response is the one that the request, the
limiter and the backend call for; the backend is called for no request that the limiter
has not paid for; and the counters count what was answered.
-/

set_option autoImplicit false

namespace LyqtRpc

open StepRun Replies

namespace HttpServer

/-- What the calls of `onMessage` do while chunk after chunk comes. -/
def effects : Bytes → List Bytes → List HttpEffect
  | _, [] => []
  | buf, chunk :: chunks =>
    match onMessage (buf ++ chunk) with
    | .error _ => []
    | .ok (buf, effect) => effect :: effects buf chunks

namespace HttpEffect

def request : HttpEffect → Option HttpReq
  | .callback req => some req
  | _ => none

/-- A request, or the end of the connection. -/
def decisive : HttpEffect → Bool
  | .wait => false
  | _ => true

end HttpEffect

def firstEvent (heard : List HttpEffect) : Option HttpEffect := heard.find? (·.decisive)

theorem deliver_eq_effects (buf : Bytes) (chunks : List Bytes) :
    deliver buf chunks = (effects buf chunks).filterMap HttpEffect.request := by
  induction chunks generalizing buf with
  | nil => rfl
  | cons chunk chunks ih =>
    cases hcall : onMessage (buf ++ chunk) with
    | error e => simp only [deliver, effects, hcall, List.filterMap_nil]
    | ok result =>
      obtain ⟨left, effect⟩ := result
      cases effect <;>
        simp only [deliver, effects, hcall, List.filterMap_cons, HttpEffect.request, ih]

theorem firstEvent_of_open {heard : List HttpEffect} {req : HttpReq} {reqs : List HttpReq}
    (hopen : ∀ effect ∈ heard, effect ≠ .shutdown)
    (hreqs : heard.filterMap HttpEffect.request = req :: reqs) :
    firstEvent heard = some (.callback req) := by
  induction heard with
  | nil => cases hreqs
  | cons effect heard ih =>
    cases effect with
    | wait => exact ih (fun e he => hopen e (List.mem_cons_of_mem _ he)) hreqs
    | shutdown => exact absurd rfl (hopen _ (List.mem_cons_self ..))
    | callback q =>
      obtain rfl := (List.cons.inj hreqs).1
      rfl

theorem firstEvent_eq_none {heard : List HttpEffect} : firstEvent heard = none ↔
    heard.filterMap HttpEffect.request = [] ∧ ∀ effect ∈ heard, effect ≠ .shutdown := by
  rw [firstEvent, List.find?_eq_none, List.filterMap_eq_nil_iff, ← forall₂_and]
  refine forall₂_congr fun effect _ => ?_
  cases effect with
  | wait => exact iff_of_true nofun ⟨rfl, nofun⟩
  | shutdown => exact iff_of_false (fun h => h rfl) (fun h => h.2 rfl)
  | callback req => exact iff_of_false (fun h => h rfl) (fun h => nomatch h.1)

/-- What has been decided stays so. -/
theorem firstEvent_append {heard : List HttpEffect} {event : HttpEffect}
    (h : firstEvent heard = some event) (effect : HttpEffect) :
    firstEvent (heard ++ [effect]) = some event := by
  rw [firstEvent, List.find?_append, ← firstEvent, h, Option.some_or]

theorem firstEvent_now {heard : List HttpEffect} (h : firstEvent heard = none)
    {effect : HttpEffect} (heffect : effect.decisive = true) :
    firstEvent (heard ++ [effect]) = some effect := by
  rw [firstEvent, List.find?_append, ← firstEvent, h, Option.none_or, List.find?_singleton,
    if_pos heffect]

theorem firstEvent_of_wait {heard : List HttpEffect} :
    firstEvent (heard ++ [.wait]) = firstEvent heard := by
  rw [firstEvent, List.find?_append, firstEvent]
  cases heard.find? (·.decisive) <;> rfl

theorem method_of_onMessage {buf left : Bytes} {req : HttpReq}
    (h : onMessage buf = .ok (left, .callback req)) : 32 ∉ req.method := by
  cases hline : findCRLF buf with
  | none => simp [onMessage, hline] at h
  | some len =>
    rcases onMessage_line hline h with
      ⟨-, heffect⟩ | ⟨sp1, read, hsp1, -, ⟨-, heffect⟩ | ⟨path, buf', headers, -, hbody⟩⟩
    · cases heffect
    · cases heffect
    · rw [((readBody_length hbody).2 req rfl).1]
      have hfind : find (buf.take len) [32] = some sp1 := by simpa [findFrom] using hsp1
      exact notMem_take_of_find hfind

end HttpServer

open HttpServer

/-! What the gateway is to answer. -/

/-- At a thousand tokens a second the hint is always the same. -/
def tooMany : HttpResp :=
  { jsonResp with status := 429 }.setBody
    (str "\x7b\"error\":\"rate limited\",\"retry_after_ms\":2\x7d")

def badRequest (message : Bytes) : HttpResp :=
  { jsonResp with status := 400 }.setBody
    (str "\x7b\"error\":\"invalid JSON" ++ message ++ str "\"\x7d")

def badGateway (method : Bytes) : HttpResp :=
  { jsonResp with status := 502 }.setBody
    (str "\x7b\"error\":\"backend call failed\",\"method\":\"" ++ method ++ str "\"\x7d")

section Answer
variable (util : JsonUtil)

/-- The call that the request is for. -/
def callOf (req : HttpReq) : Option BackendCall :=
  match routeOf routes req.method req.path with
  | some .echo => (util.echoRequest req.body).toOption.map .echo
  | some .add => (util.addRequest req.body).toOption.map .add
  | _ => none

namespace Exchange

/-- The response that goes with the verdict of the limiter and the reply of the backend. -/
def due (e : Exchange) : HttpResp :=
  if !e.admitted then tooMany
  else
    match routeOf routes e.req.method e.req.path with
    | none => notFound e.req.path
    | some .health => jsonResp.setBody (str "\x7b\"status\":\"ok\"\x7d")
    | some .diagnose => jsonResp.setBody (DiagnoseHandler.diagnose e.env.diagnosis)
    | some .echo =>
      match util.echoRequest e.req.body, e.reply with
      | .error message, _ => badRequest (str ": \"" ++ message)
      | .ok _, some (.echo r) => jsonResp.setBody (util.echoResponse r)
      | .ok _, _ => badGateway (str "echo")
    | some .add =>
      match util.addRequest e.req.body, e.reply with
      | .error _, _ => badRequest []
      | .ok _, some (.add r) => jsonResp.setBody (util.addResponse r)
      | .ok _, _ => badGateway (str "add")

/-- The backend call behind it. -/
def call (e : Exchange) : Option BackendCall := if e.admitted then callOf util e.req else none

structure Right (e : Exchange) : Prop where
  answer : e.resp = e.due util
  asked : e.reply.isSome = (e.call util).isSome
  fits : ∀ call ∈ e.call util, ∀ reply ∈ e.reply, call.Fits reply = true

/-- What the first event has sent. -/
def firstAnswer (first : Option HttpEffect) (es : List Exchange) : List Bytes :=
  match first with
  | some (.callback _) => (es.head?.map fun e => sendResponse e.resp).toList
  | _ => []

/-- A handler has run. -/
def handled (e : Exchange) : Bool :=
  e.admitted && (routeOf routes e.req.method e.req.path).isSome

/-- The code under which it is counted as an error: requests without a route are not. -/
def errorCode (e : Exchange) : Option Bytes :=
  if !e.admitted then some (str "429")
  else if e.handled && decide (400 ≤ e.resp.status) then some (intText e.resp.status)
  else none

end Exchange

/-- The counters after the exchanges. -/
structure GatewayCounters.Counts (c : GatewayCounters) (es : List Exchange) : Prop where
  requests : ∀ series, c.requests series =
    es.countP fun e => e.handled && decide ((e.req.path, e.req.method) = series)
  errors : ∀ path code, c.errors (path, code) =
    es.countP fun e => decide (e.req.path = path) && decide (e.errorCode = some code)

/-- One connection: the callbacks that have returned, the backend calls made for it, and
the callback that runs, with its backend call. -/
structure GatewayConn.Inv (conn : GatewayConn) (es : List Exchange)
    (calls : List (HttpReq × BackendCall)) (running : Option (HttpReq × Option BackendCall)) :
    Prop where
  parsed : ∀ later, effects [] (conn.chunks ++ later) = conn.heard ++ effects conn.buf later
  requests : conn.heard.filterMap HttpEffect.request =
    es.map (·.req) ++ (running.map (·.1)).toList
  called : calls = es.filterMap (fun e => (e.call util).map (e.req, ·)) ++
    (running.bind fun r => r.2.map (r.1, ·)).toList
  /-- The response to the first request, where no malformed line came before it. -/
  sent : conn.sent = Exchange.firstAnswer (firstEvent conn.heard) es
  opened : conn.connected = true → es = [] ∧ ∀ effect ∈ conn.heard, effect ≠ .shutdown
  closed : conn.connected = false → es ≠ [] ∨ firstEvent conn.heard = some .shutdown

end Answer

namespace GatewayState

def ofConn (s : GatewayState) (c : Nat) : List Exchange := s.exchanges.filter (·.conn = c)

def callsOf (s : GatewayState) (c : Nat) : List (HttpReq × BackendCall) :=
  (s.calls.filter (·.1 = c)).map (·.2)

end GatewayState

/-- The callback that waits for the backend on a connection. -/
def GatewayConn.running (conn : GatewayConn) : Option (HttpReq × Option BackendCall) :=
  conn.waiting.map fun w => (w.req, some w.call)

structure GatewayInv (util : JsonUtil) (start : ℚ) (s : GatewayState) : Prop where
  right : ∀ e ∈ s.exchanges, e.Right util
  conn : ∀ c, (s.conns c).Inv util (s.ofConn c) (s.callsOf c) (s.conns c).running
  waits : ∀ c, ∀ w ∈ (s.conns c).waiting, w.resp = jsonResp ∧ callOf util w.req = some w.call
  counted : s.counters.Counts s.exchanges
  bucket : s.bucket = after TokenBucket.allow (.create 1000 2000 start) s.readings
  /-- A backend call has cost a token. -/
  paid : s.calls.length ≤ granted TokenBucket.allow (.create 1000 2000 start) s.readings

/-! One connection. -/

theorem GatewayConn.respond_open (conn : GatewayConn) (resp : HttpResp)
    (h : conn.connected = true) : conn.respond resp =
      { conn with sent := conn.sent ++ [sendResponse resp], connected := false } := if_pos h

theorem GatewayConn.respond_closed (conn : GatewayConn) (resp : HttpResp)
    (h : ¬ conn.connected = true) : conn.respond resp = conn := if_neg h

namespace GatewayConn.Inv

variable {util : JsonUtil} {conn : GatewayConn} {es : List Exchange}
  {calls : List (HttpReq × BackendCall)} {running : Option (HttpReq × Option BackendCall)}
  {chunk buf : Bytes} {req : HttpReq}

/-- The connection after a call of `onMessage`. -/
def hear (conn : GatewayConn) (chunk buf : Bytes) (effect : HttpEffect) : GatewayConn :=
  { conn with buf, chunks := conn.chunks ++ [chunk], heard := conn.heard ++ [effect] }

theorem parsed_hear (h : conn.Inv util es calls running) {effect : HttpEffect}
    (hcall : onMessage (conn.buf ++ chunk) = .ok (buf, effect)) (later : List Bytes) :
    effects [] ((hear conn chunk buf effect).chunks ++ later) =
      (hear conn chunk buf effect).heard ++ effects buf later := by
  have hstep : effects conn.buf (chunk :: later) = effect :: effects buf later := by
    simp only [effects, hcall]
  have hnext := h.parsed (chunk :: later)
  rw [hstep] at hnext
  simpa only [hear, List.append_assoc, List.singleton_append] using hnext

theorem wait (h : conn.Inv util es calls none)
    (hcall : onMessage (conn.buf ++ chunk) = .ok (buf, .wait)) :
    (hear conn chunk buf .wait).Inv util es calls none where
  parsed := h.parsed_hear hcall
  requests := by
    rw [hear, List.filterMap_append, h.requests]
    simp [HttpEffect.request]
  called := h.called
  sent := by
    rw [hear, firstEvent_of_wait]
    exact h.sent
  opened hopen := by
    obtain ⟨hes, hheard⟩ := h.opened hopen
    refine ⟨hes, fun effect heffect => ?_⟩
    rcases List.mem_append.mp heffect with hold | hnew
    · exact hheard effect hold
    · rw [List.mem_singleton.mp hnew]
      exact HttpEffect.noConfusion
  closed hclosed := by
    rw [hear, firstEvent_of_wait]
    exact h.closed hclosed

theorem shutdown (h : conn.Inv util es calls none)
    (hcall : onMessage (conn.buf ++ chunk) = .ok (buf, .shutdown)) :
    { hear conn chunk buf .shutdown with connected := false }.Inv util es calls none where
  parsed := h.parsed_hear hcall
  requests := by
    show (conn.heard ++ [HttpEffect.shutdown]).filterMap _ = _
    rw [List.filterMap_append, h.requests]
    simp [HttpEffect.request]
  called := h.called
  sent := by
    show conn.sent = Exchange.firstAnswer (firstEvent (conn.heard ++ [.shutdown])) es
    rw [h.sent]
    cases hfirst : firstEvent conn.heard with
    | some event => rw [firstEvent_append hfirst]
    | none =>
      rw [firstEvent_now hfirst rfl]
      rfl
  opened hopen := by cases hopen
  closed _ := by
    show es ≠ [] ∨ firstEvent (conn.heard ++ [.shutdown]) = some .shutdown
    cases hfirst : firstEvent conn.heard with
    | none => exact .inr (firstEvent_now hfirst rfl)
    | some event =>
      rw [firstEvent_append hfirst, ← hfirst]
      cases hconn : conn.connected with
      | false => exact h.closed hconn
      | true =>
        -- an open connection has neither answered nor heard the end
        obtain ⟨rfl, hheard⟩ := h.opened hconn
        rw [firstEvent_eq_none.mpr ⟨h.requests, hheard⟩] at hfirst
        cases hfirst

/-- A callback begins. -/
theorem callback (h : conn.Inv util es calls none)
    (hcall : onMessage (conn.buf ++ chunk) = .ok (buf, .callback req)) :
    (hear conn chunk buf (.callback req)).Inv util es calls (some (req, none)) where
  parsed := h.parsed_hear hcall
  requests := by
    rw [hear, List.filterMap_append, h.requests]
    simp [HttpEffect.request]
  called := h.called
  sent := by
    show conn.sent = Exchange.firstAnswer (firstEvent (conn.heard ++ [.callback req])) es
    rw [h.sent]
    cases hfirst : firstEvent conn.heard with
    | some event => rw [firstEvent_append hfirst]
    | none =>
      have hes : es = [] := by
        have hnone := (firstEvent_eq_none.mp hfirst).1
        rw [h.requests] at hnone
        simpa using hnone
      rw [firstEvent_now hfirst rfl, hes]
      rfl
  opened hopen := by
    obtain ⟨hes, hheard⟩ := h.opened hopen
    refine ⟨hes, fun effect heffect => ?_⟩
    rcases List.mem_append.mp heffect with hold | hnew
    · exact hheard effect hold
    · rw [List.mem_singleton.mp hnew]
      exact HttpEffect.noConfusion
  closed hclosed := by
    rcases h.closed hclosed with hes | hshut
    · exact .inl hes
    · exact .inr (firstEvent_append hshut _)

/-- It calls the backend. -/
theorem calling (h : conn.Inv util es calls (some (req, none))) (call : BackendCall)
    (waiting : Option Waiting) :
    { conn with waiting }.Inv util es (calls ++ [(req, call)]) (some (req, some call)) where
  parsed := h.parsed
  requests := h.requests
  called := by
    rw [h.called]
    simp
  sent := h.sent
  opened := h.opened
  closed := h.closed

/-- It returns. -/
theorem complete (h : conn.Inv util es calls running) {e : Exchange}
    (hrunning : running = some (e.req, e.call util)) :
    ({ conn with waiting := none }.respond e.resp).Inv util (es ++ [e]) calls none := by
  subst hrunning
  have hrequests : conn.heard.filterMap HttpEffect.request = (es ++ [e]).map (·.req) ++ [] := by
    rw [h.requests, List.map_append, List.append_nil]
    rfl
  have hcalled : calls =
      (es ++ [e]).filterMap (fun e => (e.call util).map (e.req, ·)) ++ [] := by
    rw [h.called, List.filterMap_append, List.append_nil, List.filterMap_cons]
    cases e.call util <;> rfl
  have hne : es ++ [e] ≠ [] := by simp
  by_cases hconn : conn.connected = true
  · obtain ⟨rfl, hheard⟩ := h.opened hconn
    have hfirst : firstEvent conn.heard = some (.callback e.req) :=
      firstEvent_of_open hheard hrequests
    have hsent : conn.sent = [] := by
      rw [h.sent, hfirst]
      rfl
    rw [GatewayConn.respond_open { conn with waiting := none } e.resp hconn]
    refine ⟨h.parsed, hrequests, hcalled, ?_, nofun, fun _ => .inl hne⟩
    show conn.sent ++ _ = Exchange.firstAnswer (firstEvent conn.heard) ([] ++ [e])
    rw [hfirst, hsent]
    rfl
  · rw [GatewayConn.respond_closed { conn with waiting := none } e.resp hconn]
    refine ⟨h.parsed, hrequests, hcalled, ?_, ?_, fun _ => .inl hne⟩
    · show conn.sent = Exchange.firstAnswer (firstEvent conn.heard) (es ++ [e])
      rw [h.sent]
      rcases h.closed (Bool.eq_false_iff.mpr hconn) with hes | hclosed
      · cases es with
        | nil => exact absurd rfl hes
        | cons e' es => rfl
      · rw [hclosed]
        rfl
    · intro hopen
      exact absurd hopen hconn

end GatewayConn.Inv

/-! The counters. -/

namespace GatewayCounters.Counts

variable {c : GatewayCounters} {es : List Exchange} {e : Exchange}

theorem unrouted (h : c.Counts es) (hhandled : e.handled = false) (hcode : e.errorCode = none) :
    c.Counts (es ++ [e]) where
  requests series := by
    simp [h.requests, List.countP_append, hhandled]
  errors path code := by
    simp [h.errors, List.countP_append, hcode]

theorem countError (h : c.Counts es) (hhandled : e.handled = false) {code : Bytes}
    (hcode : e.errorCode = some code) : (c.countError e.req.path code).Counts (es ++ [e]) where
  requests series := by
    simp [GatewayCounters.countError, h.requests, List.countP_append, hhandled]
  errors path code' := by
    simp only [GatewayCounters.countError, Function.update_apply, h.errors, List.countP_append,
      List.countP_singleton, hcode, Prod.mk.injEq, Option.some.injEq, Bool.and_eq_true,
      decide_eq_true_eq]
    by_cases hsame : path = e.req.path ∧ code' = code
    · obtain ⟨rfl, rfl⟩ := hsame
      rw [if_pos ⟨rfl, rfl⟩, if_pos ⟨rfl, rfl⟩]
    · rw [if_neg hsame, if_neg fun hother => hsame ⟨hother.1.symm, hother.2.symm⟩, Nat.add_zero]

theorem afterHandler (h : c.Counts es) (hhandled : e.handled = true) :
    (c.afterHandler e.req e.resp).Counts (es ++ [e]) := by
  have hadmitted : e.admitted = true := (Bool.and_eq_true_iff.mp hhandled).1
  have hcode : e.errorCode =
      if 400 ≤ e.resp.status then some (intText e.resp.status) else none := by
    simp [Exchange.errorCode, hadmitted, hhandled]
  constructor
  · intro series
    have hsame : (c.afterHandler e.req e.resp).requests series =
        if series = (e.req.path, e.req.method) then c.requests (e.req.path, e.req.method) + 1
        else c.requests series := by
      unfold GatewayCounters.afterHandler
      dsimp only
      split <;> exact Function.update_apply ..
    rw [hsame, h.requests, h.requests, List.countP_append, List.countP_singleton, hhandled,
      Bool.true_and]
    by_cases hseries : series = (e.req.path, e.req.method)
    · subst hseries
      simp
    · rw [if_neg hseries, if_neg (by simpa using Ne.symm hseries), Nat.add_zero]
  · intro path code
    unfold GatewayCounters.afterHandler
    dsimp only
    rw [List.countP_append, List.countP_singleton, hcode]
    split
    · simp only [GatewayCounters.countError, GatewayCounters.countRequest, Function.update_apply,
        h.errors, Prod.mk.injEq, Option.some.injEq, Bool.and_eq_true, decide_eq_true_eq]
      by_cases hsame : path = e.req.path ∧ code = intText e.resp.status
      · obtain ⟨rfl, rfl⟩ := hsame
        rw [if_pos ⟨rfl, rfl⟩, if_pos ⟨rfl, rfl⟩]
      · rw [if_neg hsame, if_neg fun hother => hsame ⟨hother.1.symm, hother.2.symm⟩,
          Nat.add_zero]
    · simp [GatewayCounters.countRequest, h.errors]

end GatewayCounters.Counts

/-! The callback. -/

theorem rateLimited_eq (bucket : TokenBucket) (h : bucket.rate = 1000) :
    rateLimited bucket = tooMany := by
  have hquot : ⌊(1000 : ℚ) / bucket.rate⌋ = 1 := by
    rw [h]
    norm_num
  have htwo : (some (2 : Int)).map integerText = some (str "2") := by decide
  rw [rateLimited, TokenBucket.retryAfterMs_of_pos (by rw [h]; norm_num), hquot]
  show HttpResp.setBody _ (_ ++ ((some (2 : Int)).map integerText).getD [] ++ _) = _
  rw [htwo]
  rfl

namespace GatewayState

/-- The limiter has been asked. -/
def asked (s : GatewayState) (env : CallbackEnv) : GatewayState :=
  { s with bucket := (s.bucket.allow env.now).2, readings := s.readings ++ [env.now] }

/-- The handler of a route, behind the limiter and the router. -/
def route (util : JsonUtil) (s : GatewayState) (c : Nat) (req : HttpReq) (env : CallbackEnv)
    (h : Endpoint) : GatewayState :=
  match h.handle util env req jsonResp with
  | .done resp =>
    { s with counters := s.counters.afterHandler req resp }.complete
      ⟨c, req, env, true, none, resp⟩
  | .calls call resp =>
    { s with calls := s.calls ++ [(c, req, call)] }.setConn c
      { s.conns c with waiting := some ⟨req, env, call, resp⟩ }

theorem parsable_routes : ∀ reg ∈ routes, reg.Parsable := by
  intro reg hreg
  simp only [routes, List.mem_cons, List.not_mem_nil, or_false] at hreg
  rcases hreg with rfl | rfl | rfl | rfl
  all_goals
    unfold Registration.Parsable
    decide

theorem callback_eq (util : JsonUtil) (s : GatewayState) (c : Nat) (req : HttpReq)
    (env : CallbackEnv) (hmethod : 32 ∉ req.method) (hrate : s.bucket.rate = 1000) :
    s.callback util c req env =
      if !(s.bucket.allow env.now).1 then
        { s.asked env with counters := s.counters.countError req.path (str "429") }.complete
          ⟨c, req, env, false, none, tooMany⟩
      else
        match routeOf routes req.method req.path with
        | none => (s.asked env).complete ⟨c, req, env, true, none, notFound req.path⟩
        | some h => (s.asked env).route util c req env h := by
  rw [← rateLimited_eq (s.bucket.allow env.now).2
    (by rw [TokenBucket.allow_rate, hrate]), ← dispatch_build parsable_routes hmethod]
  rfl

end GatewayState

/-- What a callback comes to: it returns, or it waits for the backend. -/
inductive Called (util : JsonUtil) (s : GatewayState) (c : Nat) (req : HttpReq)
    (env : CallbackEnv) : GatewayState → Prop where
  | returned (e : Exchange) (counters : GatewayCounters) (hconn : e.conn = c) (hreq : e.req = req)
      (hright : e.Right util) (hcall : e.call util = none)
      (hcounts : ∀ es, s.counters.Counts es → counters.Counts (es ++ [e])) :
      Called util s c req env ({ s.asked env with counters }.complete e)
  | waits (call : BackendCall) (hcall : callOf util req = some call)
      (hpaid : (s.bucket.allow env.now).1 = true) :
      Called util s c req env
        ({ s.asked env with calls := s.calls ++ [(c, req, call)] }.setConn c
          { s.conns c with waiting := some ⟨req, env, call, jsonResp⟩ })

theorem called_route (util : JsonUtil) (s : GatewayState) (c : Nat) (req : HttpReq)
    (env : CallbackEnv) {h : Endpoint} (hroute : routeOf routes req.method req.path = some h)
    (hpaid : (s.bucket.allow env.now).1 = true) :
    Called util s c req env ((s.asked env).route util c req env h) := by
  have hhandled : ∀ resp, Exchange.handled ⟨c, req, env, true, none, resp⟩ = true := by
    intro resp
    simp [Exchange.handled, hroute]
  have hreturned : ∀ resp, Exchange.due util ⟨c, req, env, true, none, resp⟩ = resp →
      callOf util req = none → h.handle util env req jsonResp = .done resp →
      Called util s c req env ((s.asked env).route util c req env h) := by
    intro resp hdue hcall hhandle
    rw [GatewayState.route, hhandle]
    refine .returned ⟨c, req, env, true, none, resp⟩ _ rfl rfl ⟨hdue.symm, ?_, ?_⟩ hcall
      fun es hes => hes.afterHandler (hhandled resp)
    · simp [Exchange.call, hcall]
    · simp
  cases h with
  | health => exact hreturned _ (by simp [Exchange.due, hroute]) (by simp [callOf, hroute]) rfl
  | diagnose => exact hreturned _ (by simp [Exchange.due, hroute]) (by simp [callOf, hroute]) rfl
  | echo =>
    cases hjson : util.echoRequest req.body with
    | error message =>
      refine hreturned (badRequest (str ": \"" ++ message)) ?_ ?_ ?_
      · simp [Exchange.due, hroute, hjson]
      · simp [callOf, hroute, hjson, Except.toOption]
      · have htext : str "\x7b\"error\":\"invalid JSON: \"" =
            str "\x7b\"error\":\"invalid JSON" ++ str ": \"" := by decide
        simp only [Endpoint.handle, GatewayHandler.handleEcho, hjson, badRequest, htext,
          List.append_assoc]
    | ok proto_req =>
      rw [GatewayState.route, Endpoint.handle, GatewayHandler.handleEcho, hjson]
      exact .waits (.echo proto_req) (by simp [callOf, hroute, hjson, Except.toOption]) hpaid
  | add =>
    cases hjson : util.addRequest req.body with
    | error message =>
      refine hreturned (badRequest []) ?_ ?_ ?_
      · simp [Exchange.due, hroute, hjson]
      · simp [callOf, hroute, hjson, Except.toOption]
      · have htext : str "\x7b\"error\":\"invalid JSON\"\x7d" =
            str "\x7b\"error\":\"invalid JSON" ++ [] ++ str "\"\x7d" := by decide
        simp only [Endpoint.handle, GatewayHandler.handleAdd, hjson, badRequest, htext]
    | ok proto_req =>
      rw [GatewayState.route, Endpoint.handle, GatewayHandler.handleAdd, hjson]
      exact .waits (.add proto_req) (by simp [callOf, hroute, hjson, Except.toOption]) hpaid

theorem called_callback (util : JsonUtil) (s : GatewayState) (c : Nat) (req : HttpReq)
    (env : CallbackEnv) (hmethod : 32 ∉ req.method) (hrate : s.bucket.rate = 1000) :
    Called util s c req env (s.callback util c req env) := by
  rw [GatewayState.callback_eq util s c req env hmethod hrate]
  cases hpaid : (s.bucket.allow env.now).1 with
  | false =>
    rw [Bool.not_false, if_pos rfl]
    refine .returned ⟨c, req, env, false, none, tooMany⟩ _ rfl rfl ⟨rfl, rfl, ?_⟩ rfl
      fun es hes => hes.countError (e := ⟨c, req, env, false, none, tooMany⟩) rfl rfl
    simp
  | true =>
    rw [Bool.not_true, if_neg Bool.false_ne_true]
    cases hroute : routeOf routes req.method req.path with
    | some h => exact called_route util s c req env hroute hpaid
    | none =>
      have hcall : callOf util req = none := by simp [callOf, hroute]
      refine .returned ⟨c, req, env, true, none, notFound req.path⟩ s.counters rfl rfl
        ⟨?_, ?_, ?_⟩ hcall fun es hes => hes.unrouted ?_ ?_
      · simp [Exchange.due, hroute]
      · simp [Exchange.call, hcall]
      · simp
      · simp [Exchange.handled, hroute]
      · simp [Exchange.errorCode, Exchange.handled, hroute]

/-- The requests that call the backend. -/
theorem callOf_eq_some {util : JsonUtil} {req : HttpReq} {call : BackendCall}
    (h : callOf util req = some call) :
    (routeOf routes req.method req.path = some .echo ∧
      ∃ r, util.echoRequest req.body = .ok r ∧ call = .echo r) ∨
    (routeOf routes req.method req.path = some .add ∧
      ∃ r, util.addRequest req.body = .ok r ∧ call = .add r) := by
  unfold callOf at h
  split at h
  · rename_i hroute
    cases hjson : util.echoRequest req.body with
    | error message => simp [hjson, Except.toOption] at h
    | ok r =>
      rw [hjson] at h
      exact .inl ⟨hroute, r, rfl, (Option.some.inj h).symm⟩
  · rename_i hroute
    cases hjson : util.addRequest req.body with
    | error message => simp [hjson, Except.toOption] at h
    | ok r =>
      rw [hjson] at h
      exact .inr ⟨hroute, r, rfl, (Option.some.inj h).symm⟩
  · cases h

/-- The response behind a call is the one that is due. -/
theorem due_of_call {util : JsonUtil} {e : Exchange} {call : BackendCall}
    (hcall : callOf util e.req = some call) (hadmitted : e.admitted = true) {reply : BackendReply}
    (hreply : e.reply = some reply) (hfits : call.Fits reply = true) :
    e.due util = GatewayHandler.finish util call reply jsonResp := by
  have hecho : badGateway (str "echo") = { jsonResp with status := 502 }.setBody
      (str "\x7b\"error\":\"backend call failed\",\"method\":\"echo\"\x7d") :=
    congrArg (HttpResp.setBody _) (by decide)
  have hadd : badGateway (str "add") = { jsonResp with status := 502 }.setBody
      (str "\x7b\"error\":\"backend call failed\",\"method\":\"add\"\x7d") :=
    congrArg (HttpResp.setBody _) (by decide)
  rcases callOf_eq_some hcall with ⟨hroute, r, hjson, rfl⟩ | ⟨hroute, r, hjson, rfl⟩
  · cases reply with
    | failed => simp [Exchange.due, hadmitted, hroute, hjson, hreply, hecho, GatewayHandler.finish]
    | echo resp => simp [Exchange.due, hadmitted, hroute, hjson, hreply, GatewayHandler.finish]
    | add resp => cases hfits
  · cases reply with
    | failed => simp [Exchange.due, hadmitted, hroute, hjson, hreply, hadd, GatewayHandler.finish]
    | echo resp => cases hfits
    | add resp => simp [Exchange.due, hadmitted, hroute, hjson, hreply, GatewayHandler.finish]

/-! Runs. -/

namespace GatewayInv

variable {util : JsonUtil} {start : ℚ} {s t : GatewayState}

theorem rate (h : GatewayInv util start s) : s.bucket.rate = 1000 := by
  rw [h.bucket]
  exact (TokenBucket.after_allow_spec 1000 2000 start s.readings).1

/-- The histories that a return leaves. -/
theorem ofConn_complete (s : GatewayState) (e : Exchange) (c : Nat) :
    (s.complete e).ofConn c = s.ofConn c ++ if e.conn = c then [e] else [] := by
  show (s.exchanges ++ [e]).filter _ = _
  rw [List.filter_append, List.filter_singleton]
  by_cases hc : e.conn = c
  · simp [hc, GatewayState.ofConn]
  · simp [hc, GatewayState.ofConn]

theorem conns_complete (s : GatewayState) (e : Exchange) (c : Nat) :
    (s.complete e).conns c = if c = e.conn
      then { s.conns e.conn with waiting := none }.respond e.resp else s.conns c := by
  show Function.update s.conns e.conn _ c = _
  by_cases hc : c = e.conn
  · subst hc
    rw [Function.update_self, if_pos rfl]
  · rw [Function.update_of_ne hc, if_neg hc]

theorem waiting_respond (conn : GatewayConn) (resp : HttpResp) :
    (conn.respond resp).waiting = conn.waiting := by
  unfold GatewayConn.respond
  split <;> rfl

/-- A callback returns. -/
theorem conn_complete {running : Nat → Option (HttpReq × Option BackendCall)}
    (h : ∀ c, (s.conns c).Inv util (s.ofConn c) (s.callsOf c) (running c)) {e : Exchange}
    (hrunning : running e.conn = some (e.req, e.call util))
    (hothers : ∀ c, c ≠ e.conn → running c = (s.conns c).running) (c : Nat) :
    ((s.complete e).conns c).Inv util ((s.complete e).ofConn c) ((s.complete e).callsOf c)
      ((s.complete e).conns c).running := by
  have hcalls : (s.complete e).callsOf c = s.callsOf c := rfl
  rw [conns_complete, ofConn_complete, hcalls]
  by_cases hc : c = e.conn
  · subst hc
    rw [if_pos rfl, if_pos rfl, GatewayConn.running, waiting_respond]
    exact (h e.conn).complete hrunning
  · rw [if_neg hc, if_neg (Ne.symm hc), List.append_nil, ← hothers c hc]
    exact h c

theorem waits_complete {e : Exchange}
    (h : ∀ c, c ≠ e.conn → ∀ w ∈ (s.conns c).waiting,
      w.resp = jsonResp ∧ callOf util w.req = some w.call) (c : Nat) :
    ∀ w ∈ ((s.complete e).conns c).waiting,
      w.resp = jsonResp ∧ callOf util w.req = some w.call := by
  rw [conns_complete]
  by_cases hc : c = e.conn
  · rw [if_pos hc, waiting_respond]
    exact fun w hw => nomatch hw
  · rw [if_neg hc]
    exact h c hc

/-- `onMessage` has been called on a connection without a callback. -/
theorem conn_hear (h : GatewayInv util start s) {c : Nat} {conn : GatewayConn}
    {running : Option (HttpReq × Option BackendCall)}
    (hconn : conn.Inv util (s.ofConn c) (s.callsOf c) running) (c' : Nat) :
    ((s.setConn c conn).conns c').Inv util (s.ofConn c') (s.callsOf c')
      (Function.update (fun c => (s.conns c).running) c running c') := by
  by_cases hc : c' = c
  · subst hc
    rw [s.setConn_self, Function.update_self]
    exact hconn
  · rw [s.setConn_ne hc, Function.update_of_ne hc]
    exact h.conn c'

/-- Without a callback: some bytes have been kept or thrown away. -/
theorem quiet (h : GatewayInv util start s) {c : Nat} {conn : GatewayConn}
    (hwaiting : conn.waiting = none)
    (hconn : conn.Inv util (s.ofConn c) (s.callsOf c) none) :
    GatewayInv util start (s.setConn c conn) where
  right := h.right
  conn c' := by
    have hall := h.conn_hear hconn c'
    have hrunning : ((s.setConn c conn).conns c').running =
        Function.update (fun c => (s.conns c).running) c none c' := by
      by_cases hc : c' = c
      · subst hc
        rw [s.setConn_self, Function.update_self, GatewayConn.running, hwaiting]
        rfl
      · rw [s.setConn_ne hc, Function.update_of_ne hc]
    rw [hrunning]
    exact hall
  waits c' := by
    by_cases hc : c' = c
    · subst hc
      rw [s.setConn_self, hwaiting]
      exact fun w hw => nomatch hw
    · rw [s.setConn_ne hc]
      exact h.waits c'
  counted := h.counted
  bucket := h.bucket
  paid := h.paid

/-- A callback has begun on connection `c`, and comes to what it comes to. -/
theorem callback (h : GatewayInv util start s) {c : Nat} {conn : GatewayConn} {req : HttpReq}
    {env : CallbackEnv}
    (hconn : conn.Inv util (s.ofConn c) (s.callsOf c) (some (req, none)))
    (ht : Called util (s.setConn c conn) c req env t) : GatewayInv util start t := by
  have hbucket : (s.bucket.allow env.now).2 =
      after TokenBucket.allow (.create 1000 2000 start) (s.readings ++ [env.now]) := by
    rw [after_append, ← h.bucket]
    rfl
  have hgranted : granted TokenBucket.allow (.create 1000 2000 start) (s.readings ++ [env.now]) =
      granted TokenBucket.allow (.create 1000 2000 start) s.readings +
        if (s.bucket.allow env.now).1 = true then 1 else 0 := by
    rw [granted_append, ← h.bucket, granted_cons]
    exact congrArg (_ + ·) (Nat.zero_add _)
  have hpaid := h.paid
  have hothers : ∀ c', c' ≠ c → (s.setConn c conn).conns c' = s.conns c' :=
    fun c' hc => s.setConn_ne hc conn
  cases ht with
  | returned e counters he hreq hright hcall hcounts =>
    subst he hreq
    refine ⟨?_, ?_, ?_, hcounts _ h.counted, hbucket, ?_⟩
    · exact List.forall_mem_append.mpr ⟨h.right, by simpa using hright⟩
    · refine conn_complete (s := { (s.setConn e.conn conn).asked env with counters })
        (h.conn_hear hconn) ?_ ?_
      · rw [Function.update_self, hcall]
      · intro c' hc
        rw [Function.update_of_ne hc]
        exact congrArg GatewayConn.running (hothers c' hc).symm
    · refine waits_complete (s := { (s.setConn e.conn conn).asked env with counters }) ?_
      intro c' hc
      show ∀ w ∈ ((s.setConn e.conn conn).conns c').waiting, _
      rw [hothers c' hc]
      exact h.waits c'
    · show s.calls.length ≤ granted _ _ (s.readings ++ [env.now])
      omega
  | waits call hcallOf hallow =>
    rw [s.setConn_self]
    have hcalls : ∀ c', ((s.calls ++ [(c, req, call)]).filter (·.1 = c')).map (·.2) =
        s.callsOf c' ++ if c = c' then [(req, call)] else [] := by
      intro c'
      rw [List.filter_append, List.map_append, List.filter_singleton]
      by_cases hc : c = c'
      · simp [hc, GatewayState.callsOf]
      · simp [hc, GatewayState.callsOf]
    refine ⟨h.right, fun c' => ?_, fun c' => ?_, h.counted, hbucket, ?_⟩
    · show GatewayConn.Inv util _ (s.ofConn c')
        (((s.calls ++ [(c, req, call)]).filter (·.1 = c')).map (·.2)) _
      rw [hcalls]
      by_cases hc : c' = c
      · subst hc
        rw [GatewayState.setConn_self, if_pos rfl]
        exact hconn.calling call (some ⟨req, env, call, jsonResp⟩)
      · rw [GatewayState.setConn_ne _ hc, if_neg (Ne.symm hc), List.append_nil]
        show GatewayConn.Inv util ((s.setConn c conn).conns c') _ _
          ((s.setConn c conn).conns c').running
        rw [hothers c' hc]
        exact h.conn c'
    · by_cases hc : c' = c
      · subst hc
        rw [GatewayState.setConn_self]
        intro w hw
        obtain rfl := Option.some.inj hw
        exact ⟨rfl, hcallOf⟩
      · rw [GatewayState.setConn_ne _ hc]
        show ∀ w ∈ ((s.setConn c conn).conns c').waiting, _
        rw [hothers c' hc]
        exact h.waits c'
    · have hallowed : (s.bucket.allow env.now).1 = true := hallow
      show (s.calls ++ [(c, req, call)]).length ≤ granted _ _ (s.readings ++ [env.now])
      rw [hgranted, hallowed, if_pos rfl, List.length_append, List.length_singleton]
      omega

/-- The backend has replied. -/
theorem backend (h : GatewayInv util start s) {c : Nat} {w : Waiting}
    (hw : (s.conns c).waiting = some w) {reply : BackendReply} (hfits : w.call.Fits reply = true) :
    GatewayInv util start
      ({ s with counters :=
          s.counters.afterHandler w.req (GatewayHandler.finish util w.call reply w.resp) }.complete
        ⟨c, w.req, w.env, true, some reply, GatewayHandler.finish util w.call reply w.resp⟩) := by
  obtain ⟨hresp, hcall⟩ := h.waits c w hw
  have hrunning : (s.conns c).running = some (w.req, some w.call) := by
    rw [GatewayConn.running, hw]
    rfl
  refine ⟨?_, ?_, ?_, ?_, h.bucket, h.paid⟩
  · refine List.forall_mem_append.mpr ⟨h.right, ?_⟩
    intro e he
    obtain rfl := List.mem_singleton.mp he
    rw [hresp]
    refine ⟨(due_of_call hcall rfl rfl hfits).symm, ?_, ?_⟩
    · simp [Exchange.call, hcall]
    · intro call hmem reply' hreply
      obtain rfl := Option.some.inj (hcall.symm.trans hmem)
      obtain rfl := Option.some.inj hreply
      exact hfits
  · refine conn_complete (s := { s with counters := _ }) h.conn ?_ fun c' _ => rfl
    rw [hrunning]
    exact congrArg (fun call => some (w.req, call)) hcall.symm
  · exact waits_complete (s := { s with counters := _ }) fun c' _ => h.waits c'
  · refine h.counted.afterHandler
      (e := ⟨c, w.req, w.env, true, some reply, GatewayHandler.finish util w.call reply w.resp⟩) ?_
    rcases callOf_eq_some hcall with ⟨hroute, -⟩ | ⟨hroute, -⟩ <;>
      simp [Exchange.handled, hroute]

theorem step {a : GatewayAct} (h : GatewayInv util start s) (hs : gatewayStep util s a = some t) :
    GatewayInv util start t := by
  cases a with
  | receive c chunk env =>
    simp only [gatewayStep] at hs
    split at hs
    · cases hs
    · rename_i hidle
      have hwaiting : (s.conns c).waiting = none := by
        simpa using (Bool.or_eq_false_iff.mp (Bool.eq_false_iff.mpr hidle)).2
      have hconn := h.conn c
      rw [GatewayConn.running, hwaiting] at hconn
      cases hcall : onMessage ((s.conns c).buf ++ chunk) with
      | error e =>
        rw [hcall] at hs
        obtain rfl := Option.some.inj hs
        exact ⟨h.right, h.conn, h.waits, h.counted, h.bucket, h.paid⟩
      | ok result =>
        obtain ⟨buf, effect⟩ := result
        rw [hcall] at hs
        cases effect with
        | wait =>
          obtain rfl := Option.some.inj hs
          exact h.quiet hwaiting (hconn.wait hcall)
        | shutdown =>
          obtain rfl := Option.some.inj hs
          exact h.quiet hwaiting (hconn.shutdown hcall)
        | callback req =>
          obtain rfl := Option.some.inj hs
          exact h.callback (hconn.callback hcall)
            (called_callback util _ c req env (method_of_onMessage hcall) h.rate)
  | backend c reply =>
    simp only [gatewayStep] at hs
    cases hw : (s.conns c).waiting with
    | none =>
      rw [hw] at hs
      cases hs
    | some w =>
      simp only [hw] at hs
      split at hs
      · cases hs
      · rename_i hok
        have hfits : w.call.Fits reply = true := by
          simpa using (Bool.or_eq_false_iff.mp (Bool.eq_false_iff.mpr hok)).2
        obtain rfl := Option.some.inj hs
        exact h.backend hw hfits

theorem init (util : JsonUtil) (start : ℚ) : GatewayInv util start (gatewayInit start) where
  right := nofun
  conn _ :=
    { parsed := fun _ => rfl
      requests := rfl
      called := rfl
      sent := rfl
      opened := fun _ => ⟨rfl, nofun⟩
      closed := nofun }
  waits _ _ hw := nomatch hw
  counted := ⟨fun _ => rfl, fun _ _ => rfl⟩
  bucket := rfl
  paid := Nat.le_refl 0

end GatewayInv

/-- What holds of the gateway in every run. -/
structure GatewaySafe (util : JsonUtil) (start : ℚ) (s : GatewayState) : Prop where
  /-- Each response is the one that is due, and the backend was called where it had to be. -/
  right : ∀ e ∈ s.exchanges, e.Right util
  /-- The callbacks are called with the requests on the connection, in their order. -/
  requests : ∀ c, deliver [] (s.conns c).chunks =
    (s.ofConn c).map (·.req) ++ ((s.conns c).waiting.map (·.req)).toList
  /-- One answer at most: that to the first request, if nothing malformed came before. -/
  answered : ∀ c, (s.conns c).sent =
    Exchange.firstAnswer (firstEvent (effects [] (s.conns c).chunks)) (s.ofConn c)
  /-- The backend is called once for each request that needs it and was let in. -/
  called : ∀ c, s.callsOf c =
    (s.ofConn c).filterMap (fun e => (e.call util).map (e.req, ·)) ++
      ((s.conns c).waiting.map fun w => (w.req, w.call)).toList
  /-- No more than two thousand calls, and a thousand for each second. -/
  limited : (s.calls.length : ℚ) ≤
    2000 + 1000 * (TokenBucket.latest start s.readings - start)
  counted : s.counters.Counts s.exchanges

theorem GatewayInv.safe {util : JsonUtil} {start : ℚ} {s : GatewayState}
    (h : GatewayInv util start s) : GatewaySafe util start s := by
  have heffects : ∀ c, effects [] (s.conns c).chunks = (s.conns c).heard := by
    intro c
    have hparsed := (h.conn c).parsed []
    rwa [List.append_nil, effects, List.append_nil] at hparsed
  refine ⟨h.right, fun c => ?_, fun c => ?_, fun c => ?_, ?_, h.counted⟩
  · rw [deliver_eq_effects, heffects, (h.conn c).requests, GatewayConn.running]
    cases (s.conns c).waiting <;> rfl
  · rw [heffects]
    exact (h.conn c).sent
  · rw [(h.conn c).called, GatewayConn.running]
    cases (s.conns c).waiting <;> rfl
  · have hpaid : (s.calls.length : ℚ) ≤
        granted TokenBucket.allow (.create 1000 2000 start) s.readings := by
      exact_mod_cast h.paid
    have hlatest : start ≤ TokenBucket.latest start s.readings := TokenBucket.le_latest.1
    have hrate : 0 ≤ (TokenBucket.create 1000 2000 start).rate := (by decide : (0 : ℚ) ≤ 1000)
    rcases TokenBucket.granted_allow_le hrate s.readings with hnone | hsome
    · rw [hnone, Nat.cast_zero] at hpaid
      linarith
    · exact hpaid.trans hsome

theorem gatewayInv_of_reachable {util : JsonUtil} {start : ℚ} {s : GatewayState}
    (h : Reachable (gatewayStep util) (gatewayInit start) s) : GatewayInv util start s :=
  h.invariant (GatewayInv util start) (.init util start) fun _ _ _ hi _ hs => hi.step hs

/-- Any number of connections, any bytes on them in any chunks, any clock and backend. -/
theorem gateway_safe (util : JsonUtil) (start : ℚ) {s : GatewayState}
    (h : Reachable (gatewayStep util) (gatewayInit start) s) : GatewaySafe util start s :=
  (gatewayInv_of_reachable h).safe

/-- The JSON texts of the messages below: an echo request of `hi`, and any response whose
text needs no escape. -/
def hiJson : JsonUtil where
  echoRequest body :=
    if body = str "\x7b\"data\":\"hi\"\x7d" then .ok ⟨str "hi"⟩ else .error (str "unknown")
  echoResponse resp :=
    if resp.data = [] then str "\x7b\x7d" else str "\x7b\"data\":\"" ++ resp.data ++ str "\"\x7d"
  addRequest _ := .error (str "unknown")
  addResponse resp :=
    if resp.result = 0 then str "\x7b\x7d"
    else str "\x7b\"result\":" ++ intText resp.result ++ str "\x7d"

/-- Two requests on one connection, with one on another in between. -/
def pipelined : List GatewayAct :=
  [.receive 0 (str "POST /a") ⟨1, {}⟩,
    .receive 1 (str "GET /nothing HTTP/1.1\r\n\r\n") ⟨1, {}⟩,
    .receive 0 (echo.wire.drop 7) ⟨1, {}⟩,
    .backend 0 (.echo ⟨str "hi"⟩),
    .receive 0 echo.wire ⟨2, {}⟩,
    .backend 0 .failed]

/-- The second is carried out, and its response goes nowhere. -/
theorem gateway_safe_pipelined : ∃ s,
    exec (gatewayStep hiJson) (gatewayInit 0) pipelined = some s ∧
      s.exchanges.map (fun e => (e.conn, e.resp.status)) = [(1, 404), (0, 200), (0, 502)] ∧
      (s.conns 0).sent.length = 1 ∧ GatewaySafe hiJson 0 s := by
  have hview : (exec (gatewayStep hiJson) (gatewayInit 0) pipelined).map (fun s =>
      (s.exchanges.map (fun e => (e.conn, e.resp.status)), (s.conns 0).sent.length)) =
      some ([(1, 404), (0, 200), (0, 502)], 1) := by decide +kernel
  obtain ⟨s, hs, hs'⟩ := Option.map_eq_some_iff.mp hview
  obtain ⟨hexchanges, hsent⟩ := Prod.mk.inj hs'
  exact ⟨s, hs, hexchanges, hsent, gateway_safe hiJson 0 (.of_exec hs)⟩

end LyqtRpc
