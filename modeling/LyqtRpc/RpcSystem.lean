import LyqtRpc.Dispacher
import LyqtRpc.Lib.Duplex
import LyqtRpc.RequestorTrace

/-!
An `RpcClient` and the servers it is connected to: one `Requestor` and one `Dispacher`
for all connections, and between each pair of ends a link for the requests and one for
the responses. Every thread, every server and the network may take the next step.
-/

set_option autoImplicit false

namespace LyqtRpc

/-- The links, and what the callback of server `c` does. -/
structure RpcSystem (ι B : Type) where
  up : Link (BaseMessage B) (BaseMessage B)
  down : Link (BaseMessage B) (BaseMessage B)
  serve : ι → Option Admission → BaseMessage B → Served (BaseMessage B)
  /-- The types that the client's dispatcher has `onResponse` for. -/
  expects : EnumValue MsgType → Bool

/-- A connection: `incoming` are requests given to `_cb_message` of the server, `inbox`
responses given to that of the client, `outbox` what the server's callback still has to
send. `handled` is a history that no step reads. -/
structure RpcConnection {ι B : Type} (sys : RpcSystem ι B) extends Duplex sys.up sys.down where
  /-- This end called `shutdown()`: it sends no more. -/
  clientShut : Bool := false
  serverShut : Bool := false
  /-- An exception left the server's callback. -/
  crashed : Bool := false
  handled : List (BaseMessage B × Served (BaseMessage B)) := []

/-- `delivered` is the history of the calls of `onResponse`, with the connection. -/
structure RpcState {ι B : Type} (sys : RpcSystem ι B) where
  client : PendingState (BaseMessage B)
  conns : ι → RpcConnection sys
  delivered : List (ι × BaseMessage B) := []

/-- What happens on one connection and does not touch the requestor. -/
inductive ConnectionAct {ι B : Type} (sys : RpcSystem ι B) where
  | up (a : sys.up.Act)
  /-- The server's callback runs; `limiter` is what its token bucket answers. -/
  | handle (limiter : Option Admission)
  /-- `conn->send(resp)` -/
  | reply
  /-- `conn->send(resp)` returned false, which nobody looks at. -/
  | dropReply
  | down (a : sys.down.Act)

inductive RpcAct {ι B : Type} (sys : RpcSystem ι B) where
  /-- The senders, the timers, and `onResponse` once it is called. -/
  | client (a : PendingAct (BaseMessage B))
  /-- `conn->send(req)` takes the request and returns true. -/
  | send (c : ι) (req : BaseMessage B)
  | connection (c : ι) (a : ConnectionAct sys)
  /-- `Dispacher::onMessage` of the client, which holds its lock while the callback runs. -/
  | dispatch (c : ι)

namespace RpcSystem
variable {ι B : Type}

def connectionStep (sys : RpcSystem ι B) (c : ι) (k : RpcConnection sys) :
    ConnectionAct sys → Option (RpcConnection sys)
  | .up a => (k.moveUp a).map fun link => { k with toDuplex := link }
  | .handle limiter =>
    match k.arrive, k.outbox, k.crashed with
    | some (req, link), [], false =>
      let served := sys.serve c limiter req
      some { k with
        toDuplex := link.post served.sent
        serverShut := k.serverShut || served.shutdown
        crashed := served.escaped
        handled := k.handled ++ [(req, served)] }
    | _, _, _ => none
  | .reply =>
    if k.crashed || k.serverShut then none
    else k.toDuplex.reply.map fun link => { k with toDuplex := link }
  | .dropReply => k.drop.map fun link => { k with toDuplex := link }
  | .down a => (k.moveDown a).map fun link => { k with toDuplex := link }

end RpcSystem

variable {ι B : Type} {sys : RpcSystem ι B}

def RpcState.setConn [DecidableEq ι] (s : RpcState sys) (c : ι) (k : RpcConnection sys) :
    RpcState sys :=
  { s with conns := Function.update s.conns c k }

def RpcSystem.step [DecidableEq ι] (sys : RpcSystem ι B) (s : RpcState sys) :
    RpcAct sys → Option (RpcState sys)
  | .client a =>
    match a with
    | .onResponse _ _ => none
    | a => (pendingStep s.client a).map fun client => { s with client }
  | .send c req =>
    match (s.conns c).clientShut, pendingStep s.client (.connSend req.rid true),
      (s.conns c).ask req with
    | false, some client, some link =>
      some { s.setConn c { s.conns c with toDuplex := link } with client }
    | _, _, _ => none
  | .connection c a => (sys.connectionStep c (s.conns c) a).map (s.setConn c)
  | .dispatch c =>
    match (s.conns c).toDuplex.dispatch with
    | none => none
    | some (msg, link) =>
      let k := { s.conns c with toDuplex := link }
      if sys.expects msg.msgType then
        (pendingStep s.client (.onResponse msg.rid msg)).map fun client =>
          { s.setConn c k with client, delivered := s.delivered ++ [(c, msg)] }
      else
        match s.client.core.io with
        | .idle => some (s.setConn c { k with clientShut := true })
        | _ => none

/-- Nothing sent yet. -/
def RpcSystem.initial (sys : RpcSystem ι B) : RpcState sys where
  client := pendingInitial
  conns _ := {}

/-- What the links make of a message keeps its id and its type, and a server answers a
request once or not at all, under its id and with a type that the client expects. -/
structure RpcSystem.Orders (sys : RpcSystem ι B) where
  upBecomes : BaseMessage B → BaseMessage B → Prop
  downBecomes : BaseMessage B → BaseMessage B → Prop
  up : sys.up.Ordered upBecomes
  down : sys.down.Ordered downBecomes
  up_rid : ∀ {m o}, upBecomes m o → o.rid = m.rid
  down_rid : ∀ {m o}, downBecomes m o → o.rid = m.rid
  down_type : ∀ {m o}, downBecomes m o → o.msgType = m.msgType
  serve_once : ∀ c limiter m, (sys.serve c limiter m).sent = [] ∨
    ∃ resp, (sys.serve c limiter m).sent = [resp] ∧ resp.rid = m.rid ∧
      sys.expects resp.msgType = true

/-- The links take only what comes out at the other end. -/
def RpcSystem.Carried (h : sys.Orders) (s : RpcState sys) : RpcAct sys → Prop
  | .send _ req => ∃ o, h.upBecomes req o
  | .connection c .reply => ∀ resp rest, (s.conns c).outbox = resp :: rest →
      ∃ o, h.downBecomes resp o
  | _ => True

/-- The callback or the promise of the request has the message. -/
def RpcState.Receives (s : RpcState sys) (rid : Bytes) (msg : BaseMessage B) : Prop :=
  msg ∈ (s.client.core.requests rid).calledBack ∨
    (s.client.core.requests rid).desc.response = some (.response msg)

/-- The messages for the request that `onResponse` was called with. -/
def RpcState.came (s : RpcState sys) (rid : Bytes) : List (BaseMessage B) :=
  (s.delivered.map Prod.snd).filter fun msg => msg.rid = rid

/-- What was looked at, the server has handled, and what it sent was posted. -/
structure ConnInv (h : sys.Orders) (c : ι) (k : RpcConnection sys) : Prop where
  link : Duplex.Inv h.up h.down k.toDuplex
  arrived : k.arrived = k.handled.map Prod.fst
  posted : k.posted = k.handled.flatMap fun e => e.2.sent
  served : ∀ e ∈ k.handled, ∃ limiter, e.2 = sys.serve c limiter e.1

namespace ConnInv
variable {h : sys.Orders} {c : ι} {k k' : RpcConnection sys}

theorem initial : ConnInv h c {} where
  link := Duplex.inv_init
  arrived := rfl
  posted := rfl
  served _ he := nomatch he

/-- A step of the links. -/
theorem of_wire {link : Duplex sys.up sys.down} {a : Duplex.Act sys.up sys.down}
    (hk : ConnInv h c k)
    (hfits : ∀ resp rest, a = .reply → k.outbox = resp :: rest → ∃ o, h.downBecomes resp o)
    (hstep : k.toDuplex.step a = some link) : ConnInv h c { k with toDuplex := link } := by
  obtain ⟨_, harrived, hposted, _⟩ := Duplex.step_frame hstep
  exact ⟨hk.link.step hfits hstep, harrived.trans hk.arrived, hposted.trans hk.posted, hk.served⟩

theorem step {a : ConnectionAct sys} (hk : ConnInv h c k)
    (hfits : ∀ resp rest, a = .reply → k.outbox = resp :: rest → ∃ o, h.downBecomes resp o)
    (hstep : sys.connectionStep c k a = some k') : ConnInv h c k' := by
  cases a with
  | up a =>
      obtain ⟨link, hlink, rfl⟩ := Option.map_eq_some_iff.mp hstep
      exact hk.of_wire (a := .up a) (fun _ _ ha => nomatch ha) hlink
  | handle limiter =>
      simp only [RpcSystem.connectionStep] at hstep
      split at hstep
      · rename_i req link harrive _ _
        cases hstep
        have hlink := hk.link.arrive harrive
        obtain ⟨⟨_, hposted, _⟩, harrived⟩ := Duplex.arrive_frame harrive
        refine ⟨hlink.post _, ?_, ?_, ?_⟩
        · rw [List.map_append, List.map_singleton, ← hk.arrived]
          exact harrived
        · rw [List.flatMap_append, List.flatMap_singleton, ← hk.posted]
          exact congrArg (· ++ _) hposted
        · intro e he
          rcases List.mem_append.mp he with hold | hnew
          · exact hk.served e hold
          · rw [List.mem_singleton.mp hnew]
            exact ⟨limiter, rfl⟩
      · cases hstep
  | reply =>
      simp only [RpcSystem.connectionStep] at hstep
      split at hstep
      · cases hstep
      · obtain ⟨link, hlink, rfl⟩ := Option.map_eq_some_iff.mp hstep
        exact hk.of_wire (a := .reply) (fun resp rest _ => hfits resp rest rfl) hlink
  | dropReply =>
      obtain ⟨link, hlink, rfl⟩ := Option.map_eq_some_iff.mp hstep
      exact hk.of_wire (a := .drop) (fun _ _ ha => nomatch ha) hlink
  | down a =>
      obtain ⟨link, hlink, rfl⟩ := Option.map_eq_some_iff.mp hstep
      exact hk.of_wire (a := .down a) (fun _ _ ha => nomatch ha) hlink

/-- What came back is what became of responses to requests handled. -/
theorem came_forall₂ (hk : ConnInv h c k) :
    ∃ done, done.Sublist (k.handled.flatMap fun e => e.2.sent) ∧
      List.Forall₂ h.downBecomes done (k.dispatched ++ k.inbox) :=
  hk.posted ▸ hk.link.came_forall₂

/-- The server has handled the first of the requests. -/
theorem handled_forall₂ (hk : ConnInv h c k) :
    ∃ done, done <+: k.asked ∧ List.Forall₂ h.upBecomes done (k.handled.map Prod.fst) :=
  hk.arrived ▸ hk.link.arrived_forall₂

/-- A server sends at most one response for each request it handled. -/
theorem sent_rids {handled : List (BaseMessage B × Served (BaseMessage B))} (h : sys.Orders)
    (hserved : ∀ e ∈ handled, ∃ limiter, e.2 = sys.serve c limiter e.1) :
    ((handled.flatMap fun e => e.2.sent).map BaseMessage.rid).Sublist
      (handled.map fun e => e.1.rid) := by
  induction handled with
  | nil => exact .refl _
  | cons e rest ih =>
      obtain ⟨limiter, he⟩ := hserved e (List.mem_cons_self ..)
      have hrest := ih fun e' he' => hserved e' (List.mem_cons_of_mem _ he')
      rw [List.flatMap_cons, List.map_append, List.map_cons, he]
      rcases h.serve_once c limiter e.1 with hnone | ⟨resp, hone, hrid, _⟩
      · rw [hnone]
        exact hrest.cons _
      · rw [hone, List.map_singleton, hrid]
        exact hrest.cons_cons _

/-- The ids of what came back are ids of what was asked, in the same order. -/
theorem came_rids (hk : ConnInv h c k) :
    ((k.dispatched ++ k.inbox).map BaseMessage.rid).Sublist (k.asked.map BaseMessage.rid) := by
  obtain ⟨done, hdone, hcame⟩ := hk.came_forall₂
  obtain ⟨taken, htaken, hhandled⟩ := hk.handled_forall₂
  rw [map_eq_of_forall₂ BaseMessage.rid BaseMessage.rid (fun _ _ => h.down_rid) hcame]
  have hasked := map_eq_of_forall₂ BaseMessage.rid BaseMessage.rid (fun _ _ => h.up_rid) hhandled
  rw [List.map_map] at hasked
  have hhead : (k.handled.map fun e => e.1.rid).Sublist (k.asked.map BaseMessage.rid) :=
    hasked ▸ htaken.sublist.map _
  exact (hdone.map _).trans ((sent_rids h hk.served).trans hhead)

theorem rid_asked (hk : ConnInv h c k) {msg : BaseMessage B}
    (hmsg : msg ∈ k.dispatched ++ k.inbox) : msg.rid ∈ k.asked.map BaseMessage.rid :=
  hk.came_rids.subset (List.mem_map_of_mem hmsg)

end ConnInv

/-- The message is what became of a response of server `c` to what became of the request. -/
def AnsweredBy (h : sys.Orders) (c : ι) (k : RpcConnection sys) (rid : Bytes)
    (msg : BaseMessage B) : Prop :=
  ∃ req got limiter resp, req ∈ k.asked ∧ req.rid = rid ∧ h.upBecomes req got ∧
    (got, sys.serve c limiter got) ∈ k.handled ∧ resp ∈ (sys.serve c limiter got).sent ∧
    h.downBecomes resp msg

theorem exists_of_forall₂ {α β : Type} {r : α → β → Prop} {as : List α} {bs : List β} {b : β}
    (h : List.Forall₂ r as bs) (hb : b ∈ bs) : ∃ a ∈ as, r a b := by
  induction h with
  | nil => cases hb
  | cons hab _ ih =>
      cases hb with
      | head => exact ⟨_, List.mem_cons_self .., hab⟩
      | tail _ hb =>
          obtain ⟨a, ha, hr⟩ := ih hb
          exact ⟨a, List.mem_cons_of_mem _ ha, hr⟩

/-- A response that was sent has the id of its request and a type the client expects. -/
theorem RpcSystem.Orders.sent_mem (h : sys.Orders) {c : ι} {limiter : Option Admission}
    {got resp : BaseMessage B} (hresp : resp ∈ (sys.serve c limiter got).sent) :
    resp.rid = got.rid ∧ sys.expects resp.msgType = true := by
  rcases h.serve_once c limiter got with hnone | ⟨resp', hone, hrid, htype⟩
  · rw [hnone] at hresp
    cases hresp
  · rw [hone, List.mem_singleton] at hresp
    rw [hresp]
    exact ⟨hrid, htype⟩

theorem ConnInv.answeredBy {h : sys.Orders} {c : ι} {k : RpcConnection sys} (hk : ConnInv h c k)
    {msg : BaseMessage B} (hmsg : msg ∈ k.dispatched ++ k.inbox) :
    AnsweredBy h c k msg.rid msg := by
  obtain ⟨done, hdone, hcame⟩ := hk.came_forall₂
  obtain ⟨resp, hresp, hbecomes⟩ := exists_of_forall₂ hcame hmsg
  obtain ⟨⟨got, served⟩, hgot, hserved⟩ := List.mem_flatMap.mp (hdone.subset hresp)
  obtain ⟨limiter, hserve⟩ := hk.served _ hgot
  have hserve : served = sys.serve c limiter got := hserve
  subst hserve
  obtain ⟨taken, htaken, hhandled⟩ := hk.handled_forall₂
  obtain ⟨req, hreq, hup⟩ := exists_of_forall₂ hhandled (List.mem_map_of_mem hgot)
  have hrid := (h.sent_mem hserved).1
  refine ⟨req, got, limiter, resp, htaken.subset hreq, ?_, hup, hgot, hserved, hbecomes⟩
  rw [h.down_rid hbecomes, hrid, h.up_rid hup]

theorem ConnInv.expects {h : sys.Orders} {c : ι} {k : RpcConnection sys} (hk : ConnInv h c k)
    {msg : BaseMessage B} (hmsg : msg ∈ k.dispatched ++ k.inbox) :
    sys.expects msg.msgType = true := by
  obtain ⟨_, _, _, _, _, _, _, _, hserved, hbecomes⟩ := hk.answeredBy hmsg
  rw [h.down_type hbecomes]
  exact (h.sent_mem hserved).2

/-- The invariant of the system. -/
structure RpcInv (h : sys.Orders) (s : RpcState sys) : Prop where
  conn : ∀ c, ConnInv h c (s.conns c)
  handed : ∀ c, ∀ req ∈ (s.conns c).asked, (s.client.calls req.rid).pc.handed = true
  distinct : ∀ c, ((s.conns c).asked.map BaseMessage.rid).Nodup
  apart : ∀ c c' rid, rid ∈ (s.conns c).asked.map BaseMessage.rid →
    rid ∈ (s.conns c').asked.map BaseMessage.rid → c = c'
  delivered : ∀ d ∈ s.delivered, d.2 ∈ (s.conns d.1).dispatched
  once : (s.delivered.map fun d => d.2.rid).Nodup
  shut : ∀ c, (s.conns c).clientShut = false
  traced : ∀ rid, Traced s.client.core rid (s.came rid)

theorem RpcSystem.connectionStep_frame {c : ι} {k k' : RpcConnection sys} {a : ConnectionAct sys}
    (hstep : sys.connectionStep c k a = some k') :
    k'.asked = k.asked ∧ k'.dispatched = k.dispatched ∧ k'.clientShut = k.clientShut := by
  have hwire : ∀ {link : Duplex sys.up sys.down} {a : Duplex.Act sys.up sys.down},
      k.toDuplex.step a = some link → k' = { k with toDuplex := link } →
      k'.asked = k.asked ∧ k'.dispatched = k.dispatched ∧ k'.clientShut = k.clientShut := by
    intro link a hlink hk'
    obtain ⟨hasked, _, _, hdispatched⟩ := Duplex.step_frame hlink
    subst hk'
    exact ⟨hasked, hdispatched, rfl⟩
  cases a with
  | up a =>
      obtain ⟨link, hlink, rfl⟩ := Option.map_eq_some_iff.mp hstep
      exact hwire (a := .up a) hlink rfl
  | handle limiter =>
      simp only [RpcSystem.connectionStep] at hstep
      split at hstep <;> cases hstep
      rename_i harrive _ _
      obtain ⟨⟨hasked, _, hdispatched⟩, _⟩ := Duplex.arrive_frame harrive
      exact ⟨hasked, hdispatched, rfl⟩
  | reply =>
      simp only [RpcSystem.connectionStep] at hstep
      split at hstep
      · cases hstep
      · obtain ⟨link, hlink, rfl⟩ := Option.map_eq_some_iff.mp hstep
        exact hwire (a := .reply) hlink rfl
  | dropReply =>
      obtain ⟨link, hlink, rfl⟩ := Option.map_eq_some_iff.mp hstep
      exact hwire (a := .drop) hlink rfl
  | down a =>
      obtain ⟨link, hlink, rfl⟩ := Option.map_eq_some_iff.mp hstep
      exact hwire (a := .down a) hlink rfl

namespace RpcInv
variable {h : sys.Orders} {s t : RpcState sys}

theorem initial : RpcInv h sys.initial where
  conn _ := .initial
  handed _ _ hreq := nomatch hreq
  distinct _ := .nil
  apart _ _ _ hrid := nomatch hrid
  delivered _ hd := nomatch hd
  once := .nil
  shut _ := rfl
  traced _ := ⟨.refl _, fun _ hmsg => nomatch hmsg⟩

theorem client {a : PendingAct (BaseMessage B)} {client : PendingState (BaseMessage B)}
    (hs : RpcInv h s) (ha : ∀ rid msg, a ≠ .onResponse rid msg)
    (hstep : pendingStep s.client a = some client) : RpcInv h { s with client } where
  conn := hs.conn
  handed c req hreq := pendingStep_handed (hs.handed c req hreq) hstep
  distinct := hs.distinct
  apart := hs.apart
  delivered := hs.delivered
  once := hs.once
  shut := hs.shut
  traced rid := (hs.traced rid).handsOn (pendingStep_handsOn ha hstep rid)

/-- A message that comes in has an id that none before it had. -/
theorem not_delivered {c : ι} {msg : BaseMessage B} (hs : RpcInv h s)
    (hmsg : msg ∈ (s.conns c).inbox) : msg.rid ∉ s.delivered.map fun d => d.2.rid := by
  intro hmem
  obtain ⟨⟨c', msg'⟩, hd, hrid⟩ := List.mem_map.mp hmem
  have hdispatched := hs.delivered _ hd
  have hasked' := (hs.conn c').rid_asked (List.mem_append_left _ hdispatched)
  have hasked := (hs.conn c).rid_asked (List.mem_append_right _ hmsg)
  have hc : c' = c := hs.apart c' c msg.rid (hrid ▸ hasked') hasked
  subst hc
  have hnodup := (hs.conn c').came_rids.nodup (hs.distinct c')
  rw [List.map_append, List.nodup_append] at hnodup
  exact hnodup.2.2 _ (List.mem_map_of_mem hdispatched) _ (List.mem_map_of_mem hmsg) hrid

variable [DecidableEq ι]

/-- A step of a connection that asks nothing and dispatches nothing. -/
theorem setConn {c : ι} {k : RpcConnection sys} (hs : RpcInv h s) (hk : ConnInv h c k)
    (hasked : k.asked = (s.conns c).asked) (hdispatched : (s.conns c).dispatched ⊆ k.dispatched)
    (hshut : k.clientShut = (s.conns c).clientShut) :
    RpcInv h (s.setConn c k) := by
  have hsame : ∀ c', ((s.setConn c k).conns c').asked = (s.conns c').asked := by
    intro c'
    by_cases hc : c' = c
    · subst hc
      simp only [RpcState.setConn, Function.update_self, hasked]
    · simp only [RpcState.setConn, Function.update_of_ne hc]
  constructor
  · intro c'
    by_cases hc : c' = c
    · subst hc
      simpa only [RpcState.setConn, Function.update_self] using hk
    · simpa only [RpcState.setConn, Function.update_of_ne hc] using hs.conn c'
  · intro c' req hreq
    exact hs.handed c' req (hsame c' ▸ hreq)
  · intro c'
    rw [hsame c']
    exact hs.distinct c'
  · intro c₁ c₂ rid h₁ h₂
    rw [hsame] at h₁ h₂
    exact hs.apart c₁ c₂ rid h₁ h₂
  · intro d hd
    by_cases hc : d.1 = c
    · have hold := hs.delivered d hd
      rw [hc] at hold
      rw [hc]
      simpa only [RpcState.setConn, Function.update_self] using hdispatched hold
    · simpa only [RpcState.setConn, Function.update_of_ne hc] using hs.delivered d hd
  · exact hs.once
  · intro c'
    by_cases hc : c' = c
    · subst hc
      simpa only [RpcState.setConn, Function.update_self, hshut] using hs.shut c'
    · simpa only [RpcState.setConn, Function.update_of_ne hc] using hs.shut c'
  · exact hs.traced

theorem conns_setConn (s : RpcState sys) (c : ι) (k : RpcConnection sys) (c' : ι) :
    (s.setConn c k).conns c' = if c' = c then k else s.conns c' :=
  Function.update_apply ..

/-- The id of a request that is being sent is new to every connection. -/
theorem send {c : ι} {req : BaseMessage B} {client : PendingState (BaseMessage B)}
    {link : Duplex sys.up sys.down} (hs : RpcInv h s) (hfits : ∃ o, h.upBecomes req o)
    (hclient : pendingStep s.client (.connSend req.rid true) = some client)
    (hask : (s.conns c).ask req = some link) :
    RpcInv h { s.setConn c { s.conns c with toDuplex := link } with client } := by
  obtain ⟨hbefore, hafter⟩ := connSend_handed hclient
  obtain ⟨⟨harrived, hposted, hdispatched⟩, hasked⟩ := Duplex.ask_frame hask
  have hnew : ∀ c', req.rid ∉ (s.conns c').asked.map BaseMessage.rid := by
    intro c' hmem
    obtain ⟨req', hreq', hrid⟩ := List.mem_map.mp hmem
    have hhanded := hs.handed c' req' hreq'
    rw [hrid, hbefore] at hhanded
    cases hhanded
  have hrids : ∀ c' rid,
      rid ∈ ((s.setConn c { s.conns c with toDuplex := link }).conns c').asked.map
        BaseMessage.rid →
      rid ∈ (s.conns c').asked.map BaseMessage.rid ∨ rid = req.rid ∧ c' = c := by
    intro c' rid hrid
    rw [conns_setConn] at hrid
    split at hrid
    · rename_i hc
      rw [hasked, List.map_append, List.map_singleton, List.mem_append,
        List.mem_singleton] at hrid
      subst hc
      exact hrid.imp_right fun heq => ⟨heq, rfl⟩
    · exact .inl hrid
  constructor
  · intro c'
    show ConnInv h c' ((s.setConn c _).conns c')
    rw [conns_setConn]
    split
    · rename_i hc
      subst hc
      have hk := hs.conn c'
      exact ⟨hk.link.ask hfits hask, harrived.trans hk.arrived, hposted.trans hk.posted, hk.served⟩
    · exact hs.conn c'
  · intro c' req' hreq'
    rcases hrids c' req'.rid (List.mem_map_of_mem hreq') with hold | ⟨heq, _⟩
    · obtain ⟨old, hmem, hrid⟩ := List.mem_map.mp hold
      exact hrid ▸ pendingStep_handed (hs.handed c' old hmem) hclient
    · exact heq ▸ hafter
  · intro c'
    show (((s.setConn c _).conns c').asked.map BaseMessage.rid).Nodup
    rw [conns_setConn]
    split
    · rw [hasked, List.map_append, List.map_singleton, List.nodup_append]
      refine ⟨hs.distinct c, List.nodup_singleton _, ?_⟩
      intro rid hold rid' hnew' heq
      rw [List.mem_singleton.mp hnew'] at heq
      exact hnew c (heq ▸ hold)
    · exact hs.distinct c'
  · intro c₁ c₂ rid h₁ h₂
    rcases hrids c₁ rid h₁ with hold₁ | ⟨heq₁, hc₁⟩
    · rcases hrids c₂ rid h₂ with hold₂ | ⟨heq₂, _⟩
      · exact hs.apart c₁ c₂ rid hold₁ hold₂
      · exact absurd (heq₂ ▸ hold₁) (hnew c₁)
    · rcases hrids c₂ rid h₂ with hold₂ | ⟨_, hc₂⟩
      · exact absurd (heq₁ ▸ hold₂) (hnew c₂)
      · rw [hc₁, hc₂]
  · intro d hd
    show d.2 ∈ ((s.setConn c _).conns d.1).dispatched
    rw [conns_setConn]
    split
    · rename_i hc
      show d.2 ∈ link.dispatched
      rw [hdispatched]
      exact hc ▸ hs.delivered d hd
    · exact hs.delivered d hd
  · exact hs.once
  · intro c'
    show ((s.setConn c _).conns c').clientShut = false
    rw [conns_setConn]
    split
    · exact hs.shut c
    · exact hs.shut c'
  · exact fun rid => (hs.traced rid).handsOn (pendingStep_handsOn (by simp) hclient rid)

theorem deliver {c : ι} {msg : BaseMessage B} {link : Duplex sys.up sys.down}
    {client : PendingState (BaseMessage B)} (hs : RpcInv h s)
    (hdispatch : (s.conns c).toDuplex.dispatch = some (msg, link))
    (hclient : pendingStep s.client (.onResponse msg.rid msg) = some client) :
    RpcInv h { s.setConn c { s.conns c with toDuplex := link } with
      client, delivered := s.delivered ++ [(c, msg)] } := by
  have hk := hs.conn c
  obtain ⟨⟨hasked, hposted, harrived⟩, hdispatched⟩ := Duplex.dispatch_frame hdispatch
  have hset : RpcInv h (s.setConn c { s.conns c with toDuplex := link }) := by
    refine hs.setConn ⟨hk.link.dispatch hdispatch, harrived.trans hk.arrived,
      hposted.trans hk.posted, hk.served⟩ hasked ?_ rfl
    show _ ⊆ link.dispatched
    rw [hdispatched]
    exact List.subset_append_left _ _
  constructor
  · exact hset.conn
  · intro c' req hreq
    exact pendingStep_handed (hset.handed c' req hreq) hclient
  · exact hset.distinct
  · exact hset.apart
  · intro d hd
    rcases List.mem_append.mp hd with hold | hnew
    · exact hset.delivered d hold
    · rw [List.mem_singleton.mp hnew]
      show msg ∈ ((s.setConn c _).conns c).dispatched
      rw [conns_setConn, if_pos rfl]
      show msg ∈ link.dispatched
      rw [hdispatched]
      exact List.mem_append_right _ (List.mem_singleton_self _)
  · rw [List.map_append, List.map_singleton, List.nodup_append]
    refine ⟨hs.once, List.nodup_singleton _, ?_⟩
    intro rid hold rid' hnew heq
    rw [List.mem_singleton.mp hnew] at heq
    exact hs.not_delivered (Duplex.mem_inbox_of_dispatch hdispatch) (heq ▸ hold)
  · exact hset.shut
  · intro rid
    have htraced := onResponse_traced (hs.traced rid) hclient
    by_cases hrid : msg.rid = rid
    · simpa [RpcState.came, hrid] using htraced
    · simpa [RpcState.came, hrid] using htraced

theorem step {a : RpcAct sys} (hs : RpcInv h s) (hcarried : RpcSystem.Carried h s a)
    (hstep : sys.step s a = some t) : RpcInv h t := by
  cases a with
  | client a =>
      simp only [RpcSystem.step] at hstep
      split at hstep
      · cases hstep
      · rename_i hnot
        obtain ⟨client, hclient, rfl⟩ := Option.map_eq_some_iff.mp hstep
        exact hs.client hnot hclient
  | send c req =>
      simp only [RpcSystem.step] at hstep
      split at hstep
      · rename_i client link _ hclient hask
        cases hstep
        exact hs.send hcarried hclient hask
      · cases hstep
  | connection c a =>
      obtain ⟨k, hk, rfl⟩ := Option.map_eq_some_iff.mp hstep
      have hfits : ∀ resp rest, a = .reply → (s.conns c).outbox = resp :: rest →
          ∃ o, h.downBecomes resp o := by
        intro resp rest ha houtbox
        subst ha
        exact hcarried resp rest houtbox
      obtain ⟨hasked, hdispatched, hshut⟩ := RpcSystem.connectionStep_frame hk
      exact hs.setConn ((hs.conn c).step hfits hk) hasked (hdispatched ▸ List.Subset.refl _) hshut
  | dispatch c =>
      simp only [RpcSystem.step] at hstep
      split at hstep
      · cases hstep
      · rename_i msg link hdispatch
        split at hstep
        · obtain ⟨client, hclient, rfl⟩ := Option.map_eq_some_iff.mp hstep
          exact hs.deliver hdispatch hclient
        · rename_i hnot
          have hmem : msg ∈ (s.conns c).dispatched ++ (s.conns c).inbox :=
            List.mem_append_right _ (Duplex.mem_inbox_of_dispatch hdispatch)
          exact absurd ((hs.conn c).expects hmem) hnot

end RpcInv

/-- Every message that a caller gets is its own server's answer to its own request, and it is
one message; a server handles each request at most once, in the order they were sent; and
no response makes the client shut the connection. -/
structure RpcSafe (h : sys.Orders) (s : RpcState sys) : Prop where
  answered : ∀ rid msg, s.Receives rid msg → ∃ c, AnsweredBy h c (s.conns c) rid msg
  alone : ∀ rid msg msg', s.Receives rid msg → s.Receives rid msg' → msg = msg'
  once : ∀ rid, (s.client.core.requests rid).calledBack.length ≤ 1
  handled : ∀ c, ∃ done, done <+: (s.conns c).asked ∧
    List.Forall₂ h.upBecomes done ((s.conns c).handled.map Prod.fst)
  distinct : ∀ c c' rid, rid ∈ (s.conns c).asked.map BaseMessage.rid →
    rid ∈ (s.conns c').asked.map BaseMessage.rid → c = c'
  unique : ∀ c, ((s.conns c).asked.map BaseMessage.rid).Nodup
  shut : ∀ c, (s.conns c).clientShut = false

theorem RpcInv.came_length {h : sys.Orders} {s : RpcState sys} (hs : RpcInv h s) (rid : Bytes) :
    (s.came rid).length ≤ 1 := by
  have hnodup : ((s.delivered.map Prod.snd).map BaseMessage.rid).Nodup := by
    rw [List.map_map]
    exact hs.once
  have hcount := List.nodup_iff_count_le_one.mp hnodup rid
  rw [List.count_eq_countP, List.countP_map, List.countP_eq_length_filter] at hcount
  simpa [RpcState.came, Function.comp_def, beq_eq_decide] using hcount

theorem RpcInv.came_unique {h : sys.Orders} {s : RpcState sys} (hs : RpcInv h s) {rid : Bytes}
    {msg : BaseMessage B} (hmsg : msg ∈ s.came rid) : s.came rid = [msg] := by
  have hlength := hs.came_length rid
  match hlist : s.came rid with
  | [] =>
    rw [hlist] at hmsg
    cases hmsg
  | [only] =>
    rw [hlist, List.mem_singleton] at hmsg
    rw [hmsg]
  | _ :: _ :: _ =>
    rw [hlist] at hlength
    simp at hlength

theorem RpcInv.receives {h : sys.Orders} {s : RpcState sys} (hs : RpcInv h s) {rid : Bytes}
    {msg : BaseMessage B} (hmsg : s.Receives rid msg) : msg ∈ s.came rid := by
  rcases hmsg with hcalled | hset
  · exact (hs.traced rid).called.subset (List.mem_append_left _ hcalled)
  · exact (hs.traced rid).set msg hset

theorem RpcInv.safe {h : sys.Orders} {s : RpcState sys} (hs : RpcInv h s) : RpcSafe h s where
  answered rid msg hmsg := by
    have hmem := hs.receives hmsg
    rw [RpcState.came, List.mem_filter, decide_eq_true_eq] at hmem
    obtain ⟨hdelivered, hrid⟩ := hmem
    obtain ⟨⟨c, msg'⟩, hd, rfl⟩ := List.mem_map.mp hdelivered
    have hdispatched := hs.delivered _ hd
    exact ⟨c, hrid ▸ (hs.conn c).answeredBy (List.mem_append_left _ hdispatched)⟩
  alone rid msg msg' hmsg hmsg' := by
    have hmem := hs.receives hmsg
    rw [hs.came_unique (hs.receives hmsg'), List.mem_singleton] at hmem
    exact hmem
  once rid := by
    have hcalled := (hs.traced rid).called.length_le
    have hlength := hs.came_length rid
    rw [List.length_append] at hcalled
    omega
  handled c := (hs.conn c).handled_forall₂
  distinct := hs.apart
  unique := hs.distinct
  shut := hs.shut

/-- Whatever the order in which threads, timers, servers and links take their steps. -/
theorem RpcSystem.run_safe [DecidableEq ι] {sys : RpcSystem ι B} (h : sys.Orders)
    {s : RpcState sys} (hrun : StepRun.Run sys.step (RpcSystem.Carried h) sys.initial s) :
    RpcSafe h s :=
  (hrun.invariant (RpcInv h) .initial fun _ _ _ hi hok hstep => hi.step hok hstep).safe

end LyqtRpc
