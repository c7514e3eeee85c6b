import LyqtRpc.ClientTopics
import LyqtRpc.Dispacher
import LyqtRpc.Lib.Duplex
import LyqtRpc.TopicMembership

/-!
A `TopicServer` and its `TopicClient`s. The server has one IO thread, so it handles one
message or one closed connection at a time; users, clients and the network may take a
step between any two.
-/

set_option autoImplicit false

namespace LyqtRpc

/-- What a handler of the server or of a client is called with. -/
inductive TopicIncoming where
  | topicRequest (req : BaseMessage JsonValue)
  | topicResponse (msg : BaseMessage MessageBody)
  /-- There is no handler, and the connection is shut down. -/
  | unknown

/-- The handler that the constructor registers. -/
def TopicServer.dispacher : Dispacher TopicIncoming :=
  ({} : Dispacher _).registerhandler (.named .REQ_TOPIC) (MessageBody.asJson .TopicRequest)
    .topicRequest

/-- `onResponse` and `onTopicPublish`. -/
def TopicClient.dispacher : Dispacher TopicIncoming :=
  (({} : Dispacher _).registerhandler (.named .RSP_TOPIC) some .topicResponse).registerhandler
    (.named .REQ_TOPIC) (MessageBody.asJson .TopicRequest) .topicRequest

/-- `topicResponse` and `errorResponse` -/
def topicResponseMessage (rid : Bytes) (rcode : RespCode) : BaseMessage MessageBody where
  rid
  msgType := .named .RSP_TOPIC
  body := .json .TopicResponse (JsonResponse.setRcode .null (.named rcode))

/-- The messages among `sent` that go to a connection. -/
def messagesTo (c : Nat) (sent : List TopicSend) : List (BaseMessage MessageBody) :=
  sent.filterMap fun
    | .publish conn msg => if conn = c then some (msg.mapBody (.json .TopicRequest)) else none
    | .response conn rid rcode => if conn = c then some (topicResponseMessage rid rcode) else none
    | .pastEnd => none

/-- The pushes among them. -/
def pushesTo (c : Nat) (sent : List TopicSend) : List (BaseMessage JsonValue) :=
  sent.filterMap fun
    | .publish conn msg => if conn = c then some msg else none
    | .response .. | .pastEnd => none

def TopicSend.inRange : TopicSend → Bool
  | .pastEnd => false
  | .publish .. | .response .. => true

structure TopicSystem where
  json : Jsoncpp
  up : Link (BaseMessage MessageBody) (BaseMessage MessageBody)
  down : Link (BaseMessage MessageBody) (BaseMessage MessageBody)

/-- One thing that the server has handled, and what it sent. -/
structure TopicHandled where
  act : TopicAct
  sent : List TopicSend

/-- A client and its connection. `since` and `invoked` are histories: how much the server
had handled before the connection came up, and the calls of the callbacks. -/
structure TopicClient (sys : TopicSystem) (γ : Type) where
  link : Duplex sys.up sys.down := {}
  topics : ClientTopics γ := {}
  /-- This end called `shutdown()`: it sends no more. -/
  clientShut : Bool := false
  serverShut : Bool := false
  since : Nat := 0
  invoked : List (γ × Bytes × Bytes) := []

structure TopicState (sys : TopicSystem) (γ : Type) where
  server : TopicServer := {}
  clients : Nat → TopicClient sys γ := fun _ => {}
  /-- All that the server has handled. -/
  log : List TopicHandled := []

inductive TopicSystemAct (sys : TopicSystem) (γ : Type) where
  /-- A new client; the address of an old connection may be used again. -/
  | onConnection (c : Nat)
  /-- A call of the user, or what `Requestor::send` leaves for it, which may be anything. -/
  | call (c : Nat) (a : ClientTopicAct γ)
  /-- `conn->send(req)` of the client. -/
  | ask (c : Nat) (req : BaseMessage MessageBody)
  | wire (c : Nat) (a : Duplex.Act sys.up sys.down)
  /-- `Dispacher::onMessage` of the server. -/
  | onMessage (c fresh : Nat) (env : TopicEnv)
  /-- `Dispacher::onMessage` of the client. -/
  | dispatch (c : Nat)
  | onconnShoutdown (c : Nat)

section System
variable {sys : TopicSystem} {γ : Type}

namespace TopicState

def setClient (s : TopicState sys γ) (c : Nat) (k : TopicClient sys γ) : TopicState sys γ :=
  { s with clients := Function.update s.clients c k }

/-- The server takes a step, and what it sends goes to the connections. A send past the
end of the subscribers is undefined. -/
def serve (s : TopicState sys γ) (a : TopicAct) : Option (TopicState sys γ) :=
  match topicStep sys.json s.server a with
  | none => none
  | some server =>
    if server.sent.all TopicSend.inRange then
      some {
        server
        clients c :=
          { s.clients c with link := (s.clients c).link.post (messagesTo c server.sent) }
        log := s.log ++ [⟨a, server.sent⟩] }
    else none

end TopicState

/-- An exception that leaves `onTopicPublish` ends the client's process. -/
def TopicClient.onTopicPublish (k : TopicClient sys γ) (req : BaseMessage JsonValue) :
    Option (TopicClient sys γ) :=
  match LyqtRpc.onTopicPublish sys.json k.topics.topic_cb req.body,
    clientTopicStep sys.json k.topics (.push req.body) with
  | .ok call, some topics => some { k with topics, invoked := k.invoked ++ call.toList }
  | _, _ => none

/-- What the client does with the next message. -/
def TopicClient.dispatch (k : TopicClient sys γ) : Option (TopicClient sys γ) :=
  match k.link.dispatch with
  | none => none
  | some (msg, link) =>
    match TopicClient.dispacher.onMessage .unknown msg with
    | none => none
    | some (.topicRequest req) => { k with link }.onTopicPublish req
    | some (.topicResponse _) => some { k with link }
    | some .unknown => some { k with link, clientShut := true }

def topicSystemStep (s : TopicState sys γ) : TopicSystemAct sys γ → Option (TopicState sys γ)
  | .onConnection c => (s.setClient c { since := s.log.length }).serve (.onConnection c)
  | .call c a =>
    match a with
    | .push _ => none
    | a =>
      (clientTopicStep sys.json (s.clients c).topics a).map fun topics =>
        s.setClient c { s.clients c with topics }
  | .ask c req =>
    if (s.clients c).clientShut then none
    else ((s.clients c).link.ask req).map fun link => s.setClient c { s.clients c with link }
  | .wire c a =>
    match a, (s.clients c).serverShut with
    | .reply, true => none
    | a, _ => ((s.clients c).link.step a).map fun link => s.setClient c { s.clients c with link }
  | .onMessage c fresh env =>
    match (s.clients c).link.arrive with
    | none => none
    | some (msg, link) =>
      match TopicServer.dispacher.onMessage .unknown msg with
      | none => none
      | some (.topicRequest req) =>
        (s.setClient c { s.clients c with link }).serve (.ontopicRequest c fresh env req)
      | some _ => some (s.setClient c { s.clients c with link, serverShut := true })
  | .dispatch c => (s.clients c).dispatch.map (s.setClient c)
  | .onconnShoutdown c => s.serve (.onconnShoutdown c)

end System

end LyqtRpc
