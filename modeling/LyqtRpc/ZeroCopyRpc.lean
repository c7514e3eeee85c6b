import LyqtRpc.CarriedMessage
import LyqtRpc.FlatMessage
import LyqtRpc.Lib.ByteText
import LyqtRpc.Lib.Duplex
import LyqtRpc.Lib.StepRun

/-!
A `ShmClientZc` connected to a `ShmServerZc`: requests and responses as FlatBuffers tables
through one ring each. The callbacks at both ends are anything.
-/

set_option autoImplicit false

namespace LyqtRpc

section ZeroCopy
variable (json : Jsoncpp) (flat : Flatbuffers)

def zcRequests (reqSize : Nat) (data : Memory) :
    Link (BaseMessage MessageBody) (BaseMessage MessageBody) :=
  (ringLink reqSize data).coded (ShmClientZc.frame json flat) (ShmServerZc.message json flat)

def zcResponses (respSize : Nat) (data : Memory) :
    Link (BaseMessage MessageBody) (BaseMessage MessageBody) :=
  (ringLink respSize data).coded (ShmServerZc.frame json flat) (ShmClientZc.message json flat)

abbrev ZcConnection (reqSize respSize : Nat) (data : Memory) :=
  Duplex (zcRequests json flat reqSize data) (zcResponses json flat respSize data)

/-- One sender at a time on each ring. -/
inductive ZcAct (reqSize respSize : Nat) (data : Memory) where
  /-- `ShmClientZc::send` publishes the request. -/
  | send (req : BaseMessage MessageBody)
  /-- `_cb_message` of the server is called with the next request. -/
  | request
  /-- `conn->send(resp)` at the server. -/
  | respond (resp : BaseMessage MessageBody)
  /-- A step of a ring; the sender of a response publishes it, or fails. -/
  | wire (a : Duplex.Act (zcRequests json flat reqSize data) (zcResponses json flat respSize data))
  /-- `_cb_message` of the client is called with the next response. -/
  | response

variable {json flat} {reqSize respSize : Nat} {data : Memory}

def zcStep (k : ZcConnection json flat reqSize respSize data) :
    ZcAct json flat reqSize respSize data → Option (ZcConnection json flat reqSize respSize data)
  | .send req => k.ask req
  | .request => k.arrive.map Prod.snd
  | .respond resp => some (k.post [resp])
  | .wire a => k.step a
  | .response => k.dispatch.map Prod.snd

/-! What the libraries make of a message. -/

variable (json flat) in
def RequestReads (m : BaseMessage MessageBody) : Prop :=
  ∀ d : BaseMessage JsonValue, m = d.mapBody (.json .RpcRequest) →
    (∀ req, ShmClientZc.table json d = .ok req → flat.request.Reads req) ∧
      ∀ params, RpcRequest.params d.body = .ok params → json.Reads params

variable (json flat) in
def ResponseReads (m : BaseMessage MessageBody) : Prop :=
  ∀ d : BaseMessage JsonValue, m = d.mapBody (.json .RpcResponse) →
    (∀ resp, ShmServerZc.table json d = .ok resp → flat.response.Reads resp) ∧
      ∀ result, JsonResponse.result d.body = .ok result → json.Reads result

/-- The libraries read back what they write for the messages that are sent. -/
def ZcReads (k : ZcConnection json flat reqSize respSize data) :
    ZcAct json flat reqSize respSize data → Prop
  | .send req => RequestReads json flat req
  | .wire .reply => ∀ resp rest, k.outbox = resp :: rest → ResponseReads json flat resp
  | _ => True

variable (json) in
/-- The request comes as one that every accessor and every router reads alike. -/
def RequestArrives (m o : BaseMessage MessageBody) : Prop :=
  ∃ d d' : BaseMessage JsonValue, m = d.mapBody (.json .RpcRequest) ∧
    o = d'.mapBody (.json .RpcRequest) ∧ RequestKept json d d' ∧
    ∀ manager limiter, RpcRouter.onrpcRequst json manager limiter d' =
      RpcRouter.onrpcRequst json manager limiter d

def ResponseArrives (m o : BaseMessage MessageBody) : Prop :=
  ∃ d d' : BaseMessage JsonValue, m = d.mapBody (.json .RpcResponse) ∧
    o = d'.mapBody (.json .RpcResponse) ∧ ResponseKept d d'

theorem asJson_eq_some {cls : JsonClass} {m : BaseMessage MessageBody} {body : JsonValue}
    (h : m.body.asJson cls = some body) :
    m = BaseMessage.mapBody (.json cls) (m.mapBody fun _ => body) := by
  obtain ⟨rid, msgType, mbody⟩ := m
  cases mbody with
  | json cls' body' =>
    simp only [MessageBody.asJson] at h
    split at h
    · rename_i hcls
      subst hcls
      obtain rfl := Option.some.inj h
      rfl
    · cases h
  | _ => cases h

theorem RequestReads.arrives {m : BaseMessage MessageBody} {f : Frame}
    (h : RequestReads json flat m) (hframe : ShmClientZc.frame json flat m = some f) :
    ∃ o, ShmServerZc.message json flat f = some o ∧ RequestArrives json m o := by
  unfold ShmClientZc.frame at hframe
  split at hframe
  · cases hframe
  · rename_i body hbody
    split at hframe
    · rename_i req htable
      cases hframe
      obtain ⟨hflat, hjson⟩ := h _ (asJson_eq_some hbody)
      obtain ⟨_, _, _, params, _, _, _, hparams, _⟩ := ShmClientZc.table_eq_ok htable
      have hsame := requestKept_table htable hparams (hjson params hparams)
      refine ⟨_, ?_, _, _, asJson_eq_some hbody, rfl, hsame, hsame.routed⟩
      rw [ShmServerZc.message, if_pos rfl, ShmZcReader.as_finish (hflat req htable),
        Option.map_some]
    · cases hframe

theorem ResponseReads.arrives {m : BaseMessage MessageBody} {f : Frame}
    (h : ResponseReads json flat m) (hframe : ShmServerZc.frame json flat m = some f) :
    ∃ o, ShmClientZc.message json flat f = some o ∧ ResponseArrives m o := by
  unfold ShmServerZc.frame at hframe
  split at hframe
  · cases hframe
  · rename_i body hbody
    split at hframe
    · rename_i resp htable
      cases hframe
      obtain ⟨hflat, hjson⟩ := h _ (asJson_eq_some hbody)
      obtain ⟨_, _, hread⟩ := bind_eq_ok.mp htable
      obtain ⟨result, hresult, _⟩ := bind_eq_ok.mp hread
      refine ⟨_, ?_, _, _, asJson_eq_some hbody, rfl,
        responseKept_table htable hresult (hjson result hresult)⟩
      rw [ShmClientZc.message, if_pos rfl, ShmZcReader.as_finish (hflat resp htable),
        Option.map_some]
    · cases hframe

variable (json flat) in
def zcRequests_ordered (hreq : 0 < reqSize) (data : Memory) :
    (zcRequests json flat reqSize data).Ordered fun m o =>
      (ShmClientZc.frame json flat m).bind (ShmServerZc.message json flat) = some o ∧
        RequestArrives json m o :=
  ((ringLink_ordered hreq data).coded (ShmClientZc.frame json flat)
    (ShmServerZc.message json flat)).restrict (RequestArrives json)
      fun h h' => Option.some.inj (h.symm.trans h')

variable (json flat) in
def zcResponses_ordered (hresp : 0 < respSize) (data : Memory) :
    (zcResponses json flat respSize data).Ordered fun m o =>
      (ShmServerZc.frame json flat m).bind (ShmClientZc.message json flat) = some o ∧
        ResponseArrives m o :=
  ((ringLink_ordered hresp data).coded (ShmServerZc.frame json flat)
    (ShmClientZc.message json flat)).restrict ResponseArrives
      fun h h' => Option.some.inj (h.symm.trans h')

/-- A link takes only what has a frame. -/
theorem frame_of_take {I O F : Type} {L : Link F F} {encode : I → Option F}
    {decode : F → Option O} {s t : L.State} {m : I}
    (h : (L.coded encode decode).take s m = some t) : ∃ f, encode m = some f := by
  simp only [Link.coded] at h
  split at h
  · rename_i f hf
    exact ⟨f, hf⟩
  · cases h

/-- In order and alike: the requests that came, of those that were sent, and the responses
that came, of those the server was given to send. -/
structure ZcFaithful (k : ZcConnection json flat reqSize respSize data) : Prop where
  requests : ∃ done, done <+: k.asked ∧ List.Forall₂ (RequestArrives json) done k.arrived
  responses : ∃ done, done.Sublist k.posted ∧ List.Forall₂ ResponseArrives done k.dispatched
  allRequests : k.up.ch.readIdx = k.up.ch.writeIdx → k.incoming = [] →
    List.Forall₂ (RequestArrives json) k.asked k.arrived
  allResponses : k.down.ch.readIdx = k.down.ch.writeIdx → k.outbox = [] → k.inbox = [] →
    List.Forall₂ ResponseArrives k.replied k.dispatched

section Runs
variable {hreq : 0 < reqSize} {hresp : 0 < respSize}
  {k k' : ZcConnection json flat reqSize respSize data}

abbrev ZcInv (hreq : 0 < reqSize) (hresp : 0 < respSize)
    (k : ZcConnection json flat reqSize respSize data) : Prop :=
  Duplex.Inv (zcRequests_ordered json flat hreq data) (zcResponses_ordered json flat hresp data) k

theorem ZcInv.step {a : ZcAct json flat reqSize respSize data} (h : ZcInv hreq hresp k)
    (hok : ZcReads k a) (hstep : zcStep k a = some k') : ZcInv hreq hresp k' := by
  cases a with
  | send req =>
    refine Duplex.Inv.ask h ?_ hstep
    obtain ⟨s, htake, _⟩ := Option.map_eq_some_iff.mp hstep
    obtain ⟨f, hf⟩ := frame_of_take htake
    obtain ⟨o, ho, harrives⟩ := RequestReads.arrives hok hf
    exact ⟨o, by rw [hf, Option.bind_some, ho], harrives⟩
  | request =>
    obtain ⟨⟨m, k''⟩, harrive, rfl⟩ := Option.map_eq_some_iff.mp hstep
    exact Duplex.Inv.arrive h harrive
  | respond resp =>
    obtain rfl := Option.some.inj hstep
    exact Duplex.Inv.post h [resp]
  | wire a =>
    refine Duplex.Inv.step h ?_ hstep
    intro resp rest ha houtbox
    subst ha
    simp only [zcStep, Duplex.step, Duplex.reply, houtbox] at hstep
    obtain ⟨s, htake, _⟩ := Option.map_eq_some_iff.mp hstep
    obtain ⟨f, hf⟩ := frame_of_take htake
    obtain ⟨o, ho, harrives⟩ := ResponseReads.arrives (hok resp rest houtbox) hf
    exact ⟨o, by rw [hf, Option.bind_some, ho], harrives⟩
  | response =>
    obtain ⟨⟨m, k''⟩, hdispatch, rfl⟩ := Option.map_eq_some_iff.mp hstep
    exact Duplex.Inv.dispatch h hdispatch

theorem ZcInv.faithful (h : ZcInv hreq hresp k) : ZcFaithful k where
  requests := by
    obtain ⟨done, hdone, harrived⟩ := Duplex.Inv.arrived_forall₂ h
    exact ⟨done, hdone, harrived.imp fun _ _ hboth => hboth.2⟩
  responses := by
    obtain ⟨done, hdone, hcame⟩ := Duplex.Inv.dispatched_forall₂ h
    exact ⟨done, hdone, hcame.imp fun _ _ hboth => hboth.2⟩
  allRequests hempty hincoming := by
    have hall := Duplex.Inv.all_arrived h (fun _ hholds => ringLink_drained hholds.1 hempty)
      hincoming
    exact hall.imp fun _ _ hboth => hboth.2
  allResponses hempty houtbox hinbox := by
    obtain ⟨done, queue, hreplied, hdone, hholds⟩ := h.down
    rw [ringLink_drained hholds.1 hempty, List.append_nil] at hreplied
    rw [hinbox, List.append_nil] at hdone
    rw [hreplied]
    exact hdone.imp fun _ _ hboth => hboth.2

/-- However the rings and the threads at both ends interleave, as long as no two senders share
a ring at one moment: nothing is lost, repeated or reordered, and nothing that an accessor
reads has changed, but for the hint when to retry. -/
theorem zc_faithful (hreq : 0 < reqSize) (hresp : 0 < respSize)
    (hrun : StepRun.Run zcStep ZcReads ({} : ZcConnection json flat reqSize respSize data) k) :
    ZcFaithful k :=
  (hrun.invariant (ZcInv hreq hresp) Duplex.inv_init
    fun _ _ _ hinv hok hstep => hinv.step hok hstep).faithful

end Runs

end ZeroCopy

/-! A sum, asked for and answered. -/

namespace ZcSum

def params : JsonValue := .object [(str "n", .int 2)]

def request : BaseMessage JsonValue where
  rid := str "r1"
  msgType := .named .REQ_RPC
  body := .object [(KEY_METHOD, .string (str "add")), (KEY_TRACE_ID, .string (str "t")),
    (KEY_SPAN_ID, .string (str "s")), (KEY_PARAMS, params)]

def response : BaseMessage JsonValue where
  rid := str "r1"
  msgType := .named .RSP_RPC
  body := .object [(KEY_RCODE, .int 0), (KEY_RESULT, .int 3)]

/-- The library on what this run writes: an object of texts and numbers, or a number. -/
def json : Jsoncpp where
  realText _ := []
  write
    | .int i => some (integerText i.toInt)
    | value => (flatMembers value).map flatText
  parse text :=
    .ok (if text = str "3" then some (.int 3)
      else if text = str "\x7b\n\t\"n\" : 2\n\x7d" then some params else none)

def flatRequest : FlatRequest where
  id := some (str "r1")
  method := some (str "add")
  traceId := some (str "t")
  spanId := some (str "s")
  params := some (str "\x7b\n\t\"n\" : 2\n\x7d")

def flatResponse : FlatResponse where
  id := some (str "r1")
  result := some (str "3")

/-- The offset of the table, its vtable, the offsets of its fields from the first to the last,
and their values from the last to the first. -/
def requestBytes : Bytes :=
  [20, 0, 0, 0, 0, 0] ++ [14, 0, 24, 0, 4, 0, 8, 0, 12, 0, 16, 0, 20, 0] ++ [14, 0, 0, 0] ++
    [60, 0, 0, 0, 48, 0, 0, 0, 36, 0, 0, 0, 24, 0, 0, 0, 4, 0, 0, 0] ++
    [12, 0, 0, 0] ++ str "\x7b\n\t\"n\" : 2\n\x7d" ++ [1, 0, 0, 0] ++ str "s" ++ [0, 0, 0] ++
    [1, 0, 0, 0] ++ str "t" ++ [0, 0, 0] ++ [3, 0, 0, 0] ++ str "add" ++ [0] ++
    [2, 0, 0, 0] ++ str "r1" ++ [0, 0]

/-- The code 0 is the default of its field, and not written. -/
def responseBytes : Bytes :=
  [16, 0, 0, 0, 0, 0] ++ [10, 0, 12, 0, 4, 0, 0, 0, 8, 0] ++ [10, 0, 0, 0] ++
    [16, 0, 0, 0, 4, 0, 0, 0] ++ [1, 0, 0, 0] ++ str "3" ++ [0, 0, 0] ++
    [2, 0, 0, 0] ++ str "r1" ++ [0, 0]

/-- The library on these two tables. -/
def flat : Flatbuffers where
  request :=
    { finish := fun t => if t = flatRequest then requestBytes else []
      verified := fun data => if data = requestBytes then some flatRequest else none }
  response :=
    { finish := fun t => if t = flatResponse then responseBytes else []
      verified := fun data => if data = responseBytes then some flatResponse else none }

/-- What tells the messages of the run apart. -/
structure Key where
  rid : Bytes
  msgType : EnumValue MsgType
  members : List (Bytes × Bytes × Int64)
  deriving DecidableEq

def key (m : BaseMessage MessageBody) : Option Key :=
  match m.body with
  | .json .RpcRequest (.object [(k₁, .string v₁), (k₂, .string v₂), (k₃, .string v₃),
      (k₄, .object [(k₅, .int v₅)])]) =>
    some ⟨m.rid, m.msgType, [(k₁, v₁, 0), (k₂, v₂, 0), (k₃, v₃, 0), (k₄, k₅, v₅)]⟩
  | .json .RpcResponse (.object [(k₁, .int v₁), (k₂, .int v₂)]) =>
    some ⟨m.rid, m.msgType, [(k₁, [], v₁), (k₂, [], v₂)]⟩
  | _ => none

def ask : BaseMessage MessageBody := request.mapBody (.json .RpcRequest)

def answer : BaseMessage MessageBody := response.mapBody (.json .RpcResponse)

theorem eq_ask {m : BaseMessage MessageBody} (h : key m = key ask) : m = ask := by
  have hask : key ask = some ⟨str "r1", .named .REQ_RPC, [(KEY_METHOD, str "add", 0),
      (KEY_TRACE_ID, str "t", 0), (KEY_SPAN_ID, str "s", 0), (KEY_PARAMS, str "n", 2)]⟩ := rfl
  obtain ⟨rid, msgType, body⟩ := m
  rw [hask] at h
  unfold key at h
  split at h
  · rename_i hbody
    cases hbody
    simp only [Option.some.injEq, Key.mk.injEq, Prod.mk.injEq, List.cons.injEq, and_true] at h
    obtain ⟨rfl, rfl, ⟨rfl, rfl⟩, ⟨rfl, rfl⟩, ⟨rfl, rfl⟩, rfl, rfl, rfl⟩ := h
    rfl
  · simp at h
  · cases h

theorem eq_answer {m : BaseMessage MessageBody} (h : key m = key answer) : m = answer := by
  have hanswer : key answer =
      some ⟨str "r1", .named .RSP_RPC, [(KEY_RCODE, [], 0), (KEY_RESULT, [], 3)]⟩ := rfl
  obtain ⟨rid, msgType, body⟩ := m
  rw [hanswer] at h
  unfold key at h
  split at h
  · simp at h
  · rename_i hbody
    cases hbody
    simp only [Option.some.injEq, Key.mk.injEq, Prod.mk.injEq, List.cons.injEq, true_and,
      and_true] at h
    obtain ⟨rfl, rfl, ⟨rfl, rfl⟩, rfl, rfl⟩ := h
    rfl
  · cases h

theorem mapBody_inj {cls : JsonClass} {d d' : BaseMessage JsonValue}
    (h : d.mapBody (MessageBody.json cls) = d'.mapBody (.json cls)) : d = d' := by
  obtain ⟨rid, msgType, body⟩ := d
  obtain ⟨rid', msgType', body'⟩ := d'
  cases h
  rfl

theorem reads_params : json.Reads params := ⟨_, rfl, by decide, rfl⟩

theorem requestReads : RequestReads json flat ask := by
  intro d hd
  obtain rfl := mapBody_inj hd
  have htable : ShmClientZc.table json request = .ok flatRequest := rfl
  have hparams : RpcRequest.params request.body = .ok params := rfl
  constructor
  · intro req hreq
    rw [htable] at hreq
    obtain rfl := Except.ok.inj hreq
    exact ⟨by decide, by decide⟩
  · intro value hvalue
    rw [hparams] at hvalue
    obtain rfl := Except.ok.inj hvalue
    exact reads_params

theorem responseReads : ResponseReads json flat answer := by
  intro d hd
  obtain rfl := mapBody_inj hd
  have htable : ShmServerZc.table json response = .ok flatResponse := rfl
  have hresult : JsonResponse.result response.body = .ok (.int 3) := rfl
  constructor
  · intro resp hresp
    rw [htable] at hresp
    obtain rfl := Except.ok.inj hresp
    exact ⟨by decide, by decide⟩
  · intro value hvalue
    rw [hresult] at hvalue
    obtain rfl := Except.ok.inj hvalue
    exact ⟨_, rfl, by decide, rfl⟩

/-- Rings of 104 and of 56 bytes. -/
abbrev Connection := ZcConnection json flat 104 56 fun _ => 0

/-- Only these two messages are sent. -/
def allowed (k : Connection) (a : ZcAct json flat 104 56 fun _ => 0) : Bool :=
  match a with
  | .send req => key req = key ask
  | .wire .reply => k.outbox.all fun resp => key resp = key answer
  | _ => true

theorem allowed_reads {k : Connection} {a : ZcAct json flat 104 56 fun _ => 0}
    (h : allowed k a = true) : ZcReads k a := by
  cases a with
  | send req =>
    obtain rfl := eq_ask (of_decide_eq_true h)
    exact requestReads
  | wire a =>
    cases a with
    | reply =>
      intro resp rest houtbox
      simp only [allowed, houtbox, List.all_cons, Bool.and_eq_true, decide_eq_true_eq] at h
      obtain rfl := eq_answer h.1
      exact responseReads
    | _ => trivial
  | _ => trivial

def writes (body : Bytes) (type : MsgType) : List RingAct :=
  .producer (.writeTo body (.named type) 0) :: List.replicate 5 (.producer .run)

def reads : List RingAct :=
  .consumer .readFrameView :: (List.replicate 4 (.consumer .run) ++ [.consumer .releaseFrameView])

def acts : List (ZcAct json flat 104 56 fun _ => 0) :=
  let up : List RingAct → List (ZcAct json flat 104 56 fun _ => 0) :=
    List.map fun a => .wire (.up a)
  let down : List RingAct → List (ZcAct json flat 104 56 fun _ => 0) :=
    List.map fun a => .wire (.down a)
  up (writes requestBytes .REQ_RPC_FLAT) ++ .send ask :: up reads ++
    .request :: .respond answer :: down (writes responseBytes .RSP_RPC_FLAT) ++
    .wire .reply :: down reads ++ [.response]

end ZcSum

open ZcSum in
theorem zc_faithful_sum : ∃ k : Connection, ZcFaithful k ∧ k.arrived.length = 1 ∧
    k.dispatched.length = 1 := by
  have hview : (StepRun.exec (StepRun.guarded zcStep fun k a => allowed k a = true)
      ({} : Connection) acts).map (fun k => (k.arrived.length, k.dispatched.length)) =
        some (1, 1) := by decide +kernel
  obtain ⟨k, hk, hlengths⟩ := Option.map_eq_some_iff.mp hview
  have hrun := (StepRun.Run.of_guarded hk).mono fun _ _ => allowed_reads
  exact ⟨k, zc_faithful (by decide) (by decide) hrun, (Prod.mk.inj hlengths).1,
    (Prod.mk.inj hlengths).2⟩

end LyqtRpc
