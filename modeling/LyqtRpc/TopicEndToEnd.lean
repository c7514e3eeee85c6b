import LyqtRpc.TopicDelivery

/-!
Topics from end to end: a `TopicServer`, any number of `TopicClient`s, and TCP between
them.
-/

set_option autoImplicit false

namespace LyqtRpc

open StepRun

section EndToEnd
variable (json : Jsoncpp) (proto : Protobuf)

def tcpTopics : TopicSystem where
  json
  up := lvLink .server (protobufSerializer json proto)
  down := lvLink .client (protobufSerializer json proto)

def tcpTopics_orders : (tcpTopics json proto).Orders where
  upBecomes := MessageCarries json proto
  downBecomes := MessageCarries json proto
  up := (lvLink_ordered .server _).restrict (SameBody json) LVProtocol.Carries.unique
  down := (lvLink_ordered .client _).restrict (SameBody json) LVProtocol.Carries.unique
  up_same := MessageCarries.same
  down_same := MessageCarries.same

variable {json proto} {γ : Type}

/-- However the network cuts the streams, and the users, the clients and the server take
their steps. -/
theorem tcp_topic_safe {s : TopicState (tcpTopics json proto) γ}
    (hrun : Run topicSystemStep ((tcpTopics json proto).Carried (tcpTopics_orders json proto))
      {} s) : TopicSafe (tcpTopics_orders json proto) s :=
  TopicSystem.run_safe _ hrun

/-- Where no send fails: of a connection on which nothing is left on its way to the client,
and of one on which nothing is left on its way to the server either. -/
theorem tcp_topic_delivers {s : TopicState (tcpTopics json proto) γ}
    (hrun : Run topicSystemStep ((tcpTopics json proto).Lossless (tcpTopics_orders json proto))
      {} s) {c : Nat}
    (hwire : (s.clients c).link.down.wire = [] ∧ (s.clients c).link.down.receiver.buffer = [])
    (hqueues : (s.clients c).link.outbox = [] ∧ (s.clients c).link.inbox = []) :
    TopicDelivered (tcpTopics_orders json proto) s c ∧
    ((s.clients c).link.up.wire = [] ∧ (s.clients c).link.up.receiver.buffer = [] ∧
        (s.clients c).link.incoming = [] →
      List.Forall₂ (SameAs .TopicRequest json)
        ((s.clients c).link.asked.filterMap (messageAs .TopicRequest))
        (s.requests c)) := by
  have hs := TopicSystem.run_kept _ hrun
  constructor
  · exact hs.delivered
      { down := fun _ hholds => WireHolds.drained hholds.1 hwire.1 hwire.2
        outbox := hqueues.1
        inbox := hqueues.2 }
  · intro hup
    have hclient := hs.inv.client c
    have hall := hclient.link.all_arrived
      (fun _ hholds => WireHolds.drained hholds.1 hup.1 hup.2.1) hup.2.2
    have hsame := SameMessage.messagesAs .TopicRequest (tcpTopics_orders json proto).up_same hall
    rw [hclient.arrived, List.append_nil] at hsame
    exact hsame

end EndToEnd

/-! One client that subscribes to what it publishes. -/

def selfRequest (rid : Bytes) (data : JsonTable) : BaseMessage MessageBody where
  rid
  msgType := .named .REQ_TOPIC
  body := .json .TopicRequest (TopicRequest.setTopicKey data (str "t"))

def selfCreate : BaseMessage MessageBody :=
  selfRequest (str "1") (TopicRequest.setOptype .null (.named .CREATE))

def selfSubscribe : BaseMessage MessageBody :=
  selfRequest (str "2") (TopicRequest.setOptype .null (.named .SUBSCRIBE))

def selfPublish : BaseMessage MessageBody :=
  selfRequest (str "3") (TopicRequest.setForwardStrategy (TopicRequest.setTopicMsg
    (TopicRequest.setOptype .null (.named .PUBLISH)) (str "hi")) (.named .BROADCAST))

def selfWritten (m : BaseMessage MessageBody) : List FlatMember :=
  match m.body with
  | .json _ data => (flatMembers (JsonMessage.written m.rid data)).getD []
  | _ => []

def selfValues : List (List FlatMember) :=
  [selfCreate, selfSubscribe, selfPublish, topicResponseMessage (str "1") .SUCCESS,
    topicResponseMessage (str "2") .SUCCESS,
    topicResponseMessage (str "3") .SUCCESS].map selfWritten

/-- With the id in it, as it stands on the wire. -/
example : flatText (selfWritten selfCreate) =
    str "\x7b\n\t\"id\" : \"1\",\n\t\"optype\" : 0,\n\t\"topic_key\" : \"t\"\n\x7d" := by
  decide +kernel

abbrev selfTopics : TopicSystem := tcpTopics (flatLibrary selfValues) sampleProtobuf

abbrev selfTopics_orders : selfTopics.Orders :=
  tcpTopics_orders (flatLibrary selfValues) sampleProtobuf

def selfCarries (m : BaseMessage MessageBody) : Bool :=
  match m.body with
  | .json cls data =>
    m.msgType = .named cls.type ∧ m.rid ≠ [] ∧ data.isTable = true ∧
      flatReads selfValues (JsonMessage.written m.rid data) = true ∧
      MuduoServer.fits (protobufSerializer (flatLibrary selfValues) sampleProtobuf) m = true
  | _ => false

theorem selfCarries_carries {m : BaseMessage MessageBody} (h : selfCarries m = true) :
    ∃ o, MessageCarries (flatLibrary selfValues) sampleProtobuf m o := by
  obtain ⟨rid, msgType, body⟩ := m
  unfold selfCarries at h
  split at h
  · rename_i cls data hbody
    obtain rfl : body = .json cls data := hbody
    obtain ⟨htype, hrid, htable, hreads, hsize⟩ := of_decide_eq_true h
    obtain rfl : msgType = .named cls.type := htype
    obtain ⟨t, rfl⟩ := JsonValue.eq_value_of_isTable htable
    exact MessageCarries.of_json hrid htable
      ⟨_, JsonMessage.copy_value rid t, flatLibrary_roundTrips hreads⟩ hsize
  · cases h

def selfAllowed (s : TopicState selfTopics Unit) (a : TopicSystemAct selfTopics Unit) : Bool :=
  match a with
  | .ask _ req => selfCarries req
  | .wire _ .drop => false
  | .wire c .reply => (s.clients c).link.outbox.all selfCarries
  | _ => true

theorem selfAllowed_lossless {s : TopicState selfTopics Unit} {a : TopicSystemAct selfTopics Unit}
    (h : selfAllowed s a = true) : selfTopics.Lossless selfTopics_orders s a := by
  cases a with
  | ask c req => exact ⟨selfCarries_carries h, fun _ hdrop => nomatch hdrop⟩
  | wire c a =>
      cases a with
      | drop => cases h
      | reply =>
          refine ⟨fun m rest houtbox => ?_, fun _ hdrop => nomatch hdrop⟩
          rw [selfAllowed, houtbox, List.all_cons, Bool.and_eq_true] at h
          exact selfCarries_carries h.1
      | up a => exact ⟨trivial, fun _ hdrop => nomatch hdrop⟩
      | down a => exact ⟨trivial, fun _ hdrop => nomatch hdrop⟩
  | _ => exact ⟨trivial, fun _ hdrop => nomatch hdrop⟩

/-- It creates the topic, subscribes, and publishes `hi`. -/
def selfRun : List (TopicSystemAct selfTopics Unit) :=
  [.onConnection 1, .call 1 (.subscribeTopic (str "t") (some ())), .ask 1 selfCreate,
    .ask 1 selfSubscribe, .ask 1 selfPublish, .wire 1 (.up (.arrive 1000))] ++
  List.replicate 4 (.wire 1 (.up .turn)) ++
  [.onMessage 1 5 inOrder, .onMessage 1 6 inOrder, .onMessage 1 7 inOrder] ++
  List.replicate 4 (.wire 1 .reply) ++ [.wire 1 (.down (.arrive 1000))] ++
  List.replicate 5 (.wire 1 (.down .turn)) ++ List.replicate 4 (.dispatch 1)

def selfView (s : TopicState selfTopics Unit) :
    List (Bytes × Bytes) × List Bytes × List Nat :=
  let link := (s.clients 1).link
  ((s.clients 1).invoked.map Prod.snd,
    [link.up.wire, link.up.receiver.buffer, link.down.wire, link.down.receiver.buffer],
    [link.incoming.length, link.outbox.length, link.inbox.length])

theorem selfRun_lossless : ∃ s, Run topicSystemStep (selfTopics.Lossless selfTopics_orders)
      ({} : TopicState selfTopics Unit) s ∧
    selfView s = ([(str "t", str "hi")], [[], [], [], []], [0, 0, 0]) := by
  obtain ⟨s, hs, hview⟩ := Option.map_eq_some_iff.mp
    (show (exec (guarded topicSystemStep fun s a => selfAllowed s a = true) {} selfRun).map
      selfView = some ([(str "t", str "hi")], [[], [], [], []], [0, 0, 0]) by decide +kernel)
  exact ⟨s, (Run.of_guarded hs).mono fun _ _ => selfAllowed_lossless, hview⟩

/-- Its callback was called with what it published. -/
theorem tcp_topic_safe_self : ∃ s : TopicState selfTopics Unit,
    (s.clients 1).invoked.map Prod.snd = [(str "t", str "hi")] ∧
      TopicSafe selfTopics_orders s := by
  obtain ⟨s, hrun, hview⟩ := selfRun_lossless
  exact ⟨s, congrArg Prod.fst hview, tcp_topic_safe (hrun.mono fun _ _ h => h.1)⟩

theorem tcp_topic_delivers_self : ∃ s : TopicState selfTopics Unit,
    (s.clients 1).invoked.map Prod.snd = [(str "t", str "hi")] ∧
      TopicDelivered selfTopics_orders s 1 := by
  obtain ⟨s, hrun, hview⟩ := selfRun_lossless
  simp only [selfView, Prod.mk.injEq, List.cons.injEq, List.length_eq_zero_iff, and_true] at hview
  obtain ⟨hinvoked, ⟨_, _, hwire, hbuffer⟩, _, houtbox, hinbox⟩ := hview
  exact ⟨s, hinvoked, (tcp_topic_delivers hrun ⟨hwire, hbuffer⟩ ⟨houtbox, hinbox⟩).1⟩

end LyqtRpc
