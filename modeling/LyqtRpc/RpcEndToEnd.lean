import LyqtRpc.RpcDelivery

/-!
Remote calls from end to end: a `Requestor`, any number of `RpcServer`s, and TCP or
shared memory between them.
-/

set_option autoImplicit false

namespace LyqtRpc

/-- The types that the constructor of `RpcClient` registers `onResponse` for. -/
def RpcClient.expects (t : EnumValue MsgType) : Bool :=
  t = .named .RSP_RPC ∨ t = .named .RSP_RPC_PROTO

/-- What is registered at one server. -/
structure RpcServices where
  manager : ServiceManager := {}
  regs : List ProtoRegistration := []

/-- A null pointer given to a callback is the end of the server, as an exception is. -/
def RpcServer.serve (json : Jsoncpp) (services : RpcServices) (limiter : Option Admission)
    (m : BaseMessage MessageBody) : Served (BaseMessage MessageBody) :=
  (onMessage json services.manager (ProtoRpcRouter.registered services.regs) limiter m).getD
    { escaped := true }

section EndToEnd
variable {ι : Type} (json : Jsoncpp) (proto : Protobuf) (servers : ι → RpcServices)

def tcpSystem : RpcSystem ι MessageBody where
  up := lvLink .server (protobufSerializer json proto)
  down := lvLink .client (protobufSerializer json proto)
  serve c := RpcServer.serve json (servers c)
  expects := RpcClient.expects

/-- Each direction is a ring of its own. -/
def shmSystem (reqSize respSize : Nat) (data : Memory) : RpcSystem ι MessageBody where
  up := shmLink (protobufSerializer json proto) reqSize data
  down := shmLink (protobufSerializer json proto) respSize data
  serve c := RpcServer.serve json (servers c)
  expects := RpcClient.expects

variable {json proto servers}

/-- Either no response goes out, or the one of the request. -/
def AtMostOnce (rid : Bytes) (served : Served (BaseMessage MessageBody)) : Prop :=
  served.sent = [] ∨ ∃ resp, served.sent = [resp] ∧ resp.rid = rid ∧
    RpcClient.expects resp.msgType = true

theorem Replies.atMostOnce {rid : Bytes} {served : Served (BaseMessage MessageBody)}
    (h : Replies rid served) : AtMostOnce rid served := by
  rcases h.2 with ⟨hnone, _⟩ | ⟨resp, hone, _, hrid, htype⟩
  · exact .inl hnone
  · exact .inr ⟨resp, hone, hrid, by simpa [RpcClient.expects] using htype⟩

theorem Dispacher.callbackType_atMostOnce {T : Type} {cast : MessageBody → Option T}
    {handler : BaseMessage T → Served (BaseMessage MessageBody)}
    (hhandler : ∀ req, Replies req.rid (handler req)) (m : BaseMessage MessageBody) :
    AtMostOnce m.rid ((callbackType cast handler m).getD { escaped := true }) := by
  unfold callbackType
  cases cast m.body with
  | none => exact .inl rfl
  | some body => exact (hhandler (m.mapBody fun _ => body)).atMostOnce

/-- Of whatever class and type the message is. -/
theorem RpcServer.serve_atMostOnce (services : RpcServices) (limiter : Option Admission)
    (m : BaseMessage MessageBody) : AtMostOnce m.rid (serve json services limiter m) := by
  rw [serve, onMessage, Dispacher.onMessage, lookup_dispacher]
  by_cases hproto : m.msgType = .named .REQ_RPC_PROTO
  · rw [if_pos hproto]
    exact Dispacher.callbackType_atMostOnce (protoRpcCallback_replies services.regs) m
  · rw [if_neg hproto]
    by_cases hjson : m.msgType = .named .REQ_RPC
    · rw [if_pos hjson]
      exact Dispacher.callbackType_atMostOnce rpcCallback_replies m
    · rw [if_neg hjson]
      exact .inl rfl

variable (json proto servers)

def tcpSystem_orders : (tcpSystem json proto servers).Orders where
  upBecomes := LVProtocol.Carries (protobufSerializer json proto)
  downBecomes := LVProtocol.Carries (protobufSerializer json proto)
  up := lvLink_ordered .server _
  down := lvLink_ordered .client _
  up_rid h := h.rid
  down_rid h := h.rid
  down_type h := h.msgType
  serve_once c limiter m := RpcServer.serve_atMostOnce (servers c) limiter m

theorem ShmClient.message_type {B : Type} {ser : Serializer B} {m o : BaseMessage B}
    (h : ShmClient.Carries ser m o) : o.msgType = m.msgType := by
  obtain ⟨f, hframe, hmessage⟩ := Option.bind_eq_some_iff.mp h.1
  have hf : f.type = m.msgType := by
    unfold ShmClient.frame at hframe
    split at hframe <;> cases hframe
    rfl
  unfold ShmClient.message at hmessage
  split at hmessage
  · cases hmessage
  · split at hmessage
    · cases hmessage
      exact hf
    · cases hmessage

def shmSystem_orders {reqSize respSize : Nat} (hreq : 0 < reqSize) (hresp : 0 < respSize)
    (data : Memory) : (shmSystem json proto servers reqSize respSize data).Orders where
  upBecomes := ShmClient.Carries (protobufSerializer json proto)
  downBecomes := ShmClient.Carries (protobufSerializer json proto)
  up := shmLink_ordered _ hreq data
  down := shmLink_ordered _ hresp data
  up_rid h := h.2
  down_rid h := h.2
  down_type h := ShmClient.message_type h
  serve_once c limiter m := RpcServer.serve_atMostOnce (servers c) limiter m

variable [DecidableEq ι] {json proto servers}

/-- Over TCP: however the network cuts the streams and the threads interleave, no caller
gets another one's answer, or two, and no server handles a request twice. -/
theorem tcp_rpc_safe {s : RpcState (tcpSystem json proto servers)}
    (hrun : StepRun.Run (tcpSystem json proto servers).step
      (RpcSystem.Carried (tcpSystem_orders json proto servers))
      (tcpSystem json proto servers).initial s) :
    RpcSafe (tcpSystem_orders json proto servers) s :=
  RpcSystem.run_safe _ hrun

/-- The same through two rings. -/
theorem shm_rpc_safe {reqSize respSize : Nat} (hreq : 0 < reqSize) (hresp : 0 < respSize)
    (data : Memory) {s : RpcState (shmSystem json proto servers reqSize respSize data)}
    (hrun : StepRun.Run (shmSystem json proto servers reqSize respSize data).step
      (RpcSystem.Carried (shmSystem_orders json proto servers hreq hresp data))
      (shmSystem json proto servers reqSize respSize data).initial s) :
    RpcSafe (shmSystem_orders json proto servers hreq hresp data) s :=
  RpcSystem.run_safe _ hrun

/-- Over TCP, where nothing goes wrong: once the queues and the wires of a connection are
empty and `onResponse` has returned, every request sent on it has got its answer. -/
theorem tcp_rpc_delivers {s : RpcState (tcpSystem json proto servers)}
    (hrun : StepRun.Run (tcpSystem json proto servers).step
      (RpcSystem.Lossless (tcpSystem_orders json proto servers))
      (tcpSystem json proto servers).initial s)
    {c : ι} (hup : (s.conns c).up.wire = [] ∧ (s.conns c).up.receiver.buffer = [])
    (hdown : (s.conns c).down.wire = [] ∧ (s.conns c).down.receiver.buffer = [])
    (hqueues : (s.conns c).incoming = [] ∧ (s.conns c).outbox = [] ∧ (s.conns c).inbox = [])
    (hio : s.client.core.io = .idle) :
    ∀ req ∈ (s.conns c).asked, ∃ msg, s.Receives req.rid msg ∧
      AnsweredBy (tcpSystem_orders json proto servers) c (s.conns c) req.rid msg := by
  have hd : (s.conns c).Drained (tcpSystem_orders json proto servers) :=
    { asked := fun _ hholds => WireHolds.drained hholds hup.1 hup.2
      incoming := hqueues.1
      posted := ⟨fun _ hholds => WireHolds.drained hholds hdown.1 hdown.2, hqueues.2.1,
        hqueues.2.2⟩ }
  exact fun req hreq => (RpcSystem.run_delivers _ hrun).receives hd hio hreq

/-- Through rings: once their indices have met. -/
theorem shm_rpc_delivers {reqSize respSize : Nat} (hreq : 0 < reqSize) (hresp : 0 < respSize)
    (data : Memory) {s : RpcState (shmSystem json proto servers reqSize respSize data)}
    (hrun : StepRun.Run (shmSystem json proto servers reqSize respSize data).step
      (RpcSystem.Lossless (shmSystem_orders json proto servers hreq hresp data))
      (shmSystem json proto servers reqSize respSize data).initial s)
    {c : ι} (hup : (s.conns c).up.ch.readIdx = (s.conns c).up.ch.writeIdx)
    (hdown : (s.conns c).down.ch.readIdx = (s.conns c).down.ch.writeIdx)
    (hqueues : (s.conns c).incoming = [] ∧ (s.conns c).outbox = [] ∧ (s.conns c).inbox = [])
    (hio : s.client.core.io = .idle) :
    ∀ req ∈ (s.conns c).asked, ∃ msg, s.Receives req.rid msg ∧
      AnsweredBy (shmSystem_orders json proto servers hreq hresp data) c (s.conns c) req.rid
        msg := by
  have hd : (s.conns c).Drained (shmSystem_orders json proto servers hreq hresp data) :=
    { asked := fun _ hholds => shmLink_drained hholds hup
      incoming := hqueues.1
      posted := ⟨fun _ hholds => shmLink_drained hholds hdown, hqueues.2.1, hqueues.2.2⟩ }
  exact fun req hreq => (RpcSystem.run_delivers _ hrun).receives hd hio hreq

end EndToEnd

/-- A service that sends the body of the request back. -/
def echoServices : RpcServices where
  regs := [{ Req := Bytes, Resp := Bytes, method := str "e", parseFromString := some,
             fresh := [], handler := fun q _ => .ok q, serializeToString := some }]

def echoEnvelope : RpcRequestEnvelope where
  id := str "r1"
  method := str "e"
  body := str "hi"

def echoedEnvelope : RpcResponseEnvelope where
  body := str "hi"
  id := str "r1"

/-- The library on these two. -/
def echoProtobuf : Protobuf :=
  { sampleProtobuf with
    rpcRequest := .ofTable [(echoEnvelope, [10, 2, 114, 49, 18, 1, 101, 26, 2, 104, 105])]
    rpcResponse := .ofTable [(echoedEnvelope, [18, 2, 104, 105, 26, 2, 114, 49])] }

def echoRequest : BaseMessage MessageBody :=
  ⟨str "r1", .named .REQ_RPC_PROTO, .protoRpcRequest { echoEnvelope with id := [] }⟩

def echoResponse : BaseMessage MessageBody :=
  ⟨str "r1", .named .RSP_RPC_PROTO, .protoRpcResponse ⟨{ echoedEnvelope with id := [] }, 0⟩⟩

/-- What tells the messages of the run apart. -/
def echoKey (m : BaseMessage MessageBody) :
    Bytes × EnumValue MsgType × Option (RpcRequestEnvelope ⊕ ProtoRpcResponse) :=
  (m.rid, m.msgType, match m.body with
    | .protoRpcRequest e => some (.inl e)
    | .protoRpcResponse r => some (.inr r)
    | _ => none)

theorem eq_of_echoKey {m m' : BaseMessage MessageBody} (hm' : (echoKey m').2.2 ≠ none)
    (h : echoKey m = echoKey m') : m = m' := by
  obtain ⟨rid, msgType, body⟩ := m
  obtain ⟨rid', msgType', body'⟩ := m'
  cases body <;> cases body' <;> simp_all [echoKey]

/-- Only the request of the run is sent and handled, and only its response goes back. -/
def echoAllowed (sys : RpcSystem Unit MessageBody) (s : RpcState sys) (a : RpcAct sys) : Bool :=
  match a with
  | .client (.timerFires ..) | .client (.waitTimeout ..) | .client .callbackThrows => false
  | .send _ req => echoKey req = echoKey echoRequest
  | .connection _ .dropReply => false
  | .connection c (.handle limiter) =>
    limiter.isNone && (s.conns c).incoming.all fun m =>
      echoKey m = echoKey { echoRequest with body := .protoRpcRequest echoEnvelope }
  | .connection c .reply => (s.conns c).outbox.all fun m => echoKey m = echoKey echoResponse
  | _ => true

theorem echoAllowed_lossless {sys : RpcSystem Unit MessageBody} {h : sys.Orders}
    (hreq : ∃ o, h.upBecomes echoRequest o) (hresp : ∃ o, h.downBecomes echoResponse o)
    (hserve : (sys.serve () none
      { echoRequest with body := .protoRpcRequest echoEnvelope }).sent ≠ [])
    {s : RpcState sys} {a : RpcAct sys} (ha : echoAllowed sys s a = true) :
    RpcSystem.Lossless h s a := by
  cases a with
  | client a => cases a <;> trivial
  | send c req =>
      obtain rfl := eq_of_echoKey (by decide) (of_decide_eq_true ha)
      exact hreq
  | dispatch c => trivial
  | connection c a =>
      cases a with
      | up a => trivial
      | down a => trivial
      | dropReply => cases ha
      | handle limiter =>
          intro req rest hincoming
          simp only [echoAllowed, hincoming, List.all_cons, Bool.and_eq_true,
            decide_eq_true_eq] at ha
          obtain rfl := eq_of_echoKey (by decide) ha.2.1
          obtain rfl := Option.isNone_iff_eq_none.mp ha.1
          exact hserve
      | reply =>
          intro resp rest houtbox
          simp only [echoAllowed, houtbox, List.all_cons, Bool.and_eq_true,
            decide_eq_true_eq] at ha
          obtain rfl := eq_of_echoKey (by decide) ha.1
          exact hresp

/-- What the witnesses look at: the ids of the answers, and what is on its way. -/
def echoView {sys : RpcSystem Unit MessageBody} (s : RpcState sys) : List Bytes × List Nat × Bool :=
  ((s.client.core.requests (str "r1")).calledBack.map BaseMessage.rid,
    [(s.conns ()).asked.length, (s.conns ()).incoming.length, (s.conns ()).outbox.length,
      (s.conns ()).inbox.length],
    match s.client.core.io with
    | .idle => true
    | _ => false)

/-- One request was sent, and it is over. -/
theorem echoView_over {sys : RpcSystem Unit MessageBody} {s : RpcState sys}
    (h : echoView s = ([str "r1"], [1, 0, 0, 0], true)) :
    (s.client.core.requests (str "r1")).calledBack.length = 1 ∧
    (∃ req, req ∈ (s.conns ()).asked) ∧
    ((s.conns ()).incoming = [] ∧ (s.conns ()).outbox = [] ∧ (s.conns ()).inbox = []) ∧
    s.client.core.io = .idle := by
  simp only [echoView, Prod.mk.injEq, List.cons.injEq, List.length_eq_zero_iff,
    List.length_eq_one_iff] at h
  obtain ⟨hids, ⟨⟨req, hasked⟩, hincoming, houtbox, hinbox, _⟩, hidle⟩ := h
  have hcalled := congrArg List.length hids
  rw [List.length_map] at hcalled
  refine ⟨hcalled, ⟨req, by simp [hasked]⟩, ⟨hincoming, houtbox, hinbox⟩, ?_⟩
  cases hio : s.client.core.io with
  | idle => rfl
  | _ => simp [hio] at hidle

abbrev tcpEcho : RpcSystem Unit MessageBody :=
  tcpSystem .unused echoProtobuf fun _ => echoServices

def tcpEcho.onTheWay (s : RpcState tcpEcho) : List Bytes :=
  [(s.conns ()).up.wire, (s.conns ()).up.receiver.buffer, (s.conns ()).down.wire,
    (s.conns ()).down.receiver.buffer]

/-- The request comes in two pieces. -/
def tcpEchoRun : List (RpcAct tcpEcho) :=
  [.client (.newDesc (str "r1") .callback true), .send () echoRequest,
    .connection () (.up (.arrive 9)), .connection () (.up .turn),
    .connection () (.up (.arrive 100)), .connection () (.up .turn), .connection () (.up .turn),
    .connection () (.handle none), .connection () .reply,
    .connection () (.down (.arrive 100)), .connection () (.down .turn),
    .connection () (.down .turn), .dispatch ()] ++ List.replicate 4 (.client .ioRun)

theorem echo_carries : (∃ o, LVProtocol.Carries (protobufSerializer .unused echoProtobuf)
      echoRequest o) ∧
    ∃ o, LVProtocol.Carries (protobufSerializer .unused echoProtobuf) echoResponse o :=
  ⟨⟨_, by decide, by decide +kernel, _, _, rfl, rfl, rfl⟩,
    ⟨_, by decide, by decide +kernel, _, _, rfl, rfl, rfl⟩⟩

theorem tcpEchoRun_lossless : ∃ s, StepRun.Run tcpEcho.step
      (RpcSystem.Lossless (tcpSystem_orders .unused echoProtobuf fun _ => echoServices))
      tcpEcho.initial s ∧
    echoView s = ([str "r1"], [1, 0, 0, 0], true) ∧ tcpEcho.onTheWay s = [[], [], [], []] := by
  obtain ⟨s, hs, hview⟩ := Option.map_eq_some_iff.mp
    (show (StepRun.exec (StepRun.guarded tcpEcho.step fun s a => echoAllowed tcpEcho s a = true)
        tcpEcho.initial tcpEchoRun).map
      (fun s => (echoView s, tcpEcho.onTheWay s)) =
      some (([str "r1"], [1, 0, 0, 0], true), [[], [], [], []]) by decide +kernel)
  have hlossless := (StepRun.Run.of_guarded hs).mono fun _ _ =>
    echoAllowed_lossless (h := tcpSystem_orders .unused echoProtobuf fun _ => echoServices)
      echo_carries.1 echo_carries.2 (by decide +kernel)
  obtain ⟨hecho, hway⟩ := Prod.mk.inj hview
  exact ⟨s, hlossless, hecho, hway⟩

theorem tcp_rpc_safe_echo : ∃ s,
    (s.client.core.requests (str "r1")).calledBack.length = 1 ∧
    RpcSafe (tcpSystem_orders .unused echoProtobuf fun _ : Unit => echoServices) s := by
  obtain ⟨s, hrun, hview, _⟩ := tcpEchoRun_lossless
  exact ⟨s, (echoView_over hview).1, tcp_rpc_safe (hrun.mono fun _ _ => RpcSystem.Lossless.carried)⟩

theorem tcp_rpc_delivers_echo : ∃ (s : RpcState tcpEcho) (req msg : BaseMessage MessageBody),
    req ∈ (s.conns ()).asked ∧ s.Receives req.rid msg ∧
    AnsweredBy (tcpSystem_orders .unused echoProtobuf fun _ => echoServices) () (s.conns ())
      req.rid msg := by
  obtain ⟨s, hrun, hview, hway⟩ := tcpEchoRun_lossless
  simp only [tcpEcho.onTheWay, List.cons.injEq, and_true] at hway
  obtain ⟨hup, hup', hdown, hdown'⟩ := hway
  obtain ⟨_, ⟨req, hreq⟩, hqueues, hio⟩ := echoView_over hview
  obtain ⟨msg, hmsg⟩ := tcp_rpc_delivers hrun ⟨hup, hup'⟩ ⟨hdown, hdown'⟩ hqueues hio req hreq
  exact ⟨s, req, msg, hreq, hmsg⟩

/-- Rings of 64 and of 48 bytes. -/
abbrev shmEcho : RpcSystem Unit MessageBody :=
  shmSystem .unused echoProtobuf (fun _ => echoServices) 64 48 (fun _ => 0)

abbrev shmEcho_orders : shmEcho.Orders :=
  shmSystem_orders .unused echoProtobuf (fun _ => echoServices) (by decide) (by decide) _

/-- `write_to` up to the step that publishes the frame, and `read_to`. -/
def ringWrite (ser : Serializer MessageBody) (m : BaseMessage MessageBody) : List RingAct :=
  .producer (.writeTo (ser.encoded m) m.msgType 0) :: List.replicate 5 (.producer .run)

def ringRead : List RingAct :=
  .consumer .readFrameView :: (List.replicate 4 (.consumer .run) ++ [.consumer .releaseFrameView])

def shmEcho.onTheWay (s : RpcState shmEcho) : List Nat :=
  [(s.conns ()).up.ch.readIdx, (s.conns ()).up.ch.writeIdx, (s.conns ()).down.ch.readIdx,
    (s.conns ()).down.ch.writeIdx]

def shmEchoRun : List (RpcAct shmEcho) :=
  let ser := protobufSerializer .unused echoProtobuf
  let up : List RingAct → List (RpcAct shmEcho) := List.map fun a => .connection () (.up a)
  let down : List RingAct → List (RpcAct shmEcho) := List.map fun a => .connection () (.down a)
  .client (.newDesc (str "r1") .callback true) :: up (ringWrite ser echoRequest) ++
    .send () echoRequest :: up ringRead ++
    .connection () (.handle none) :: down (ringWrite ser echoResponse) ++
    .connection () .reply :: down ringRead ++
    .dispatch () :: List.replicate 4 (.client .ioRun)

theorem shmEchoRun_lossless : ∃ s, StepRun.Run shmEcho.step
      (RpcSystem.Lossless shmEcho_orders) shmEcho.initial s ∧
    echoView s = ([str "r1"], [1, 0, 0, 0], true) ∧ shmEcho.onTheWay s = [19, 19, 16, 16] := by
  obtain ⟨s, hs, hview⟩ := Option.map_eq_some_iff.mp
    (show (StepRun.exec (StepRun.guarded shmEcho.step fun s a => echoAllowed shmEcho s a = true)
        shmEcho.initial shmEchoRun).map
      (fun s => (echoView s, shmEcho.onTheWay s)) =
      some (([str "r1"], [1, 0, 0, 0], true), [19, 19, 16, 16]) by decide +kernel)
  have hlossless := (StepRun.Run.of_guarded hs).mono fun _ _ =>
    echoAllowed_lossless (h := shmEcho_orders) ⟨_, rfl, rfl⟩ ⟨_, rfl, rfl⟩ (by decide +kernel)
  obtain ⟨hecho, hway⟩ := Prod.mk.inj hview
  exact ⟨s, hlossless, hecho, hway⟩

theorem shm_rpc_safe_echo : ∃ s,
    (s.client.core.requests (str "r1")).calledBack.length = 1 ∧ RpcSafe shmEcho_orders s := by
  obtain ⟨s, hrun, hview, _⟩ := shmEchoRun_lossless
  exact ⟨s, (echoView_over hview).1,
    shm_rpc_safe _ _ _ (hrun.mono fun _ _ => RpcSystem.Lossless.carried)⟩

theorem shm_rpc_delivers_echo : ∃ (s : RpcState shmEcho) (req msg : BaseMessage MessageBody),
    req ∈ (s.conns ()).asked ∧ s.Receives req.rid msg ∧
    AnsweredBy shmEcho_orders () (s.conns ()) req.rid msg := by
  obtain ⟨s, hrun, hview, hway⟩ := shmEchoRun_lossless
  simp only [shmEcho.onTheWay, List.cons.injEq, and_true] at hway
  obtain ⟨hup, hup', hdown, hdown'⟩ := hway
  obtain ⟨_, ⟨req, hreq⟩, hqueues, hio⟩ := echoView_over hview
  obtain ⟨msg, hmsg⟩ := shm_rpc_delivers _ _ _ hrun (hup.trans hup'.symm)
    (hdown.trans hdown'.symm) hqueues hio req hreq
  exact ⟨s, req, msg, hreq, hmsg⟩

/-- Whatever the limiter says: the callback gets no null pointer, and it answers once, throws
or shuts the connection down. -/
def RpcServer.Handles (json : Jsoncpp) (services : RpcServices) (m : BaseMessage MessageBody) :
    Prop :=
  ∀ limiter, ∃ served, onMessage json services.manager
      (ProtoRpcRouter.registered services.regs) limiter m = some served ∧
    (served = { shutdown := true } ∨ Replies m.rid served)

/-- Whatever bytes a connection brings and however they are cut, and whatever frames a ring
holds: the server handles every message that it takes from them. -/
theorem any_bytes_handled (json : Jsoncpp) (proto : Protobuf) (services : RpcServices)
    {r : Receiver MessageBody}
    (h : StepRun.Reachable (receiverStep .server (protobufSerializer json proto)) {} r) :
    (∀ m ∈ r.dispatched, RpcServer.Handles json services m) ∧
    ∀ f m, ShmClient.message (protobufSerializer json proto) f = some m →
      RpcServer.Handles json services m := by
  constructor
  · intro m hm limiter
    exact RpcServer.onMessage_replies (receiver_typed h m hm)
  · intro f m hm limiter
    exact RpcServer.onMessage_replies (ShmClient.message_typed hm)

/-- A request, and then a response that no server waits for. -/
theorem any_bytes_handled_echo : ∃ r : Receiver MessageBody,
    r.dispatched.map BaseMessage.msgType = [.named .REQ_RPC_PROTO, .named .RSP_RPC_PROTO] ∧
    ∀ m ∈ r.dispatched, RpcServer.Handles .unused echoServices m := by
  have hview : (StepRun.exec (receiverStep .server (protobufSerializer .unused echoProtobuf)) {}
      [.deliver (LVProtocol.frame (protobufSerializer .unused echoProtobuf) echoRequest ++
        LVProtocol.frame (protobufSerializer .unused echoProtobuf) echoResponse),
        .turn true, .turn true]).map (fun r => r.dispatched.map BaseMessage.msgType) =
      some [.named .REQ_RPC_PROTO, .named .RSP_RPC_PROTO] := by decide +kernel
  obtain ⟨r, hr, htypes⟩ := Option.map_eq_some_iff.mp hview
  exact ⟨r, htypes, (any_bytes_handled .unused echoProtobuf echoServices (.of_exec hr)).1⟩

end LyqtRpc
