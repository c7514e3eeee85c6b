import LyqtRpc.CarriedMessage
import LyqtRpc.TopicSystem

/-!
What a callback of a `TopicClient` is called with: what a publisher has published to the
topic, while the client was subscribed, in the one order in which the server handled it.
-/

set_option autoImplicit false

namespace LyqtRpc

open StepRun

theorem TopicServer.onMessage_dispacher (m : BaseMessage MessageBody) :
    TopicServer.dispacher.onMessage .unknown m =
      if m.msgType = .named .REQ_TOPIC then (messageAs .TopicRequest m).map .topicRequest
      else some .unknown := by
  rw [dispacher, Dispacher.onMessage_registerhandler (AList.notMem_empty _)]
  split
  · rename_i htype
    exact messageAs_eq_callbackType .TopicRequest _ htype
  · rfl

theorem TopicClient.onMessage_dispacher (m : BaseMessage MessageBody) :
    TopicClient.dispacher.onMessage .unknown m =
      if m.msgType = .named .REQ_TOPIC then (messageAs .TopicRequest m).map .topicRequest
      else if m.msgType = .named .RSP_TOPIC then some (.topicResponse m)
      else some .unknown := by
  rw [dispacher, Dispacher.onMessage_registerhandler,
    Dispacher.onMessage_registerhandler (AList.notMem_empty _)]
  · split
    · rename_i htype
      exact messageAs_eq_callbackType .TopicRequest _ htype
    · rfl
  · rw [← AList.lookup_eq_none, Dispacher.lookup_registerhandler (AList.notMem_empty _)]
    rfl

/-- The request reads as a push of the text to the topic. -/
def Says (json : Jsoncpp) (req : BaseMessage JsonValue) (call : Bytes × Bytes) : Prop :=
  TopicRequest.optype req.body = .ok (.named .PUBLISH) ∧
    TopicRequest.topicKey json req.body = .ok call.1 ∧
    TopicRequest.topicMsg json req.body = .ok call.2

theorem SameAs.says {json : Jsoncpp} {q r : BaseMessage JsonValue} {call : Bytes × Bytes}
    (h : SameAs .TopicRequest json q r) (hr : Says json r call) : Says json q call := by
  have hreadings := h.readings
  simp only [JsonClass.readings, TopicRequest.readings, List.cons.injEq, Reading.text.injEq,
    Reading.topicOptype.injEq] at hreadings
  obtain ⟨_, _, _, _, _, _, hkey, hoptype, hmsg, _⟩ := hreadings
  exact ⟨hoptype ▸ hr.1, hkey ▸ hr.2.1, hmsg ▸ hr.2.2⟩

theorem onTopicPublish_says {γ : Type} {json : Jsoncpp} {topic_cb : TopicCallbacks γ}
    {req : BaseMessage JsonValue} {call : γ × Bytes × Bytes}
    (h : onTopicPublish json topic_cb req.body = .ok (some call)) : Says json req call.2 := by
  unfold onTopicPublish at h
  obtain ⟨optype, hoptype, h⟩ := bind_eq_ok.mp h
  split at h
  · obtain ⟨name, hname, h⟩ := bind_eq_ok.mp h
    obtain ⟨text, htext, h⟩ := bind_eq_ok.mp h
    obtain ⟨cb, _, rfl⟩ := Option.map_eq_some_iff.mp (Except.ok.inj h)
    exact ⟨hoptype, hname, htext⟩
  · cases h

/-- Each call is what one of the requests says, in their order. -/
def Invokes {γ : Type} (json : Jsoncpp) (requests : List (BaseMessage JsonValue))
    (calls : List (γ × Bytes × Bytes)) : Prop :=
  ∃ said, said.Sublist requests ∧ List.Forall₂ (fun q call => Says json q call.2) said calls

theorem Invokes.append {γ : Type} {json : Jsoncpp} {requests : List (BaseMessage JsonValue)}
    {calls : List (γ × Bytes × Bytes)} {req : BaseMessage JsonValue}
    {call : Option (γ × Bytes × Bytes)} (h : Invokes json requests calls)
    (hcall : ∀ e, call = some e → Says json req e.2) :
    Invokes json (requests ++ [req]) (calls ++ call.toList) := by
  obtain ⟨said, hsaid, hsays⟩ := h
  cases call with
  | none =>
      refine ⟨said, hsaid.trans (List.sublist_append_left _ _), ?_⟩
      rw [Option.toList_none, List.append_nil]
      exact hsays
  | some e =>
      exact ⟨said ++ [req], hsaid.append (.refl _),
        List.rel_append hsays (.cons (hcall e rfl) .nil)⟩

/-! What the server sends. -/

theorem TopicManager.topicPublish_sent {json : Jsoncpp} {env : TopicEnv} {s t : TopicManager}
    {name : Bytes} {msg m : BaseMessage JsonValue} {ret : Bool} {sent : List TopicSend} {c : Nat}
    (hs : topicPublish json env s name msg = .ok (ret, t, sent)) (hm : .publish c m ∈ sent) :
    m = msg := by
  unfold topicPublish at hs
  split at hs
  · cases hs
    cases hm
  · obtain ⟨publish, _, hs⟩ := bind_eq_ok.mp hs
    cases hs
    obtain ⟨target, _, hsend⟩ := List.mem_map.mp hm
    cases target with
    | none => cases hsend
    | some sub =>
        cases hsend
        rfl

/-- Only a PUBLISH pushes, and what it pushes is the request itself. -/
theorem TopicManager.ontopicRequest_publish {json : Jsoncpp} {env : TopicEnv} {s t : TopicManager}
    {p fresh c : Nat} {msg m : BaseMessage JsonValue} {sent : List TopicSend}
    (hs : s.ontopicRequest json env p fresh msg = .ok (t, sent)) (hm : .publish c m ∈ sent) :
    m = msg ∧ ∃ name, PublishesTo json name (.ontopicRequest p fresh env msg) := by
  unfold ontopicRequest at hs
  obtain ⟨optype, hop, hs⟩ := bind_eq_ok.mp hs
  split at hs
  case h_5 =>
    obtain ⟨name, hname, hs⟩ := bind_eq_ok.mp hs
    obtain ⟨⟨ret, u, pushed⟩, hpub, hs⟩ := bind_eq_ok.mp hs
    cases hs
    rcases List.mem_append.mp hm with hpushed | hresponse
    · exact ⟨topicPublish_sent hpub hpushed, name, hop, hname⟩
    · cases List.mem_singleton.mp hresponse
  case h_3 =>
    obtain ⟨name, _, hs⟩ := bind_eq_ok.mp hs
    obtain ⟨⟨ret, u⟩, _, hs⟩ := bind_eq_ok.mp hs
    cases hs
    cases List.mem_singleton.mp hm
  case h_6 =>
    cases hs
    cases List.mem_singleton.mp hm
  all_goals
    obtain ⟨name, _, hs⟩ := bind_eq_ok.mp hs
    cases hs
    cases List.mem_singleton.mp hm

theorem topicStep_publish {json : Jsoncpp} {s t : TopicServer} {a : TopicAct} {c : Nat}
    {m : BaseMessage JsonValue} (hs : topicStep json s a = some t) (hm : .publish c m ∈ t.sent) :
    ∃ p fresh env name, a = .ontopicRequest p fresh env m ∧ PublishesTo json name a := by
  cases a with
  | onConnection conn =>
      simp only [topicStep] at hs
      split at hs <;> cases hs
      cases hm
  | onconnShoutdown conn =>
      simp only [topicStep] at hs
      split at hs <;> cases hs
      cases hm
  | ontopicRequest p fresh env msg =>
      simp only [topicStep] at hs
      split at hs
      · split at hs
        · rename_i manager sent hr
          cases hs
          obtain ⟨rfl, name, hname⟩ := TopicManager.ontopicRequest_publish hr hm
          exact ⟨p, fresh, env, name, rfl, hname⟩
        · cases hs
      · cases hs

theorem messagesTo_requests {c : Nat} {sent : List TopicSend}
    (htyped : ∀ m, .publish c m ∈ sent → m.msgType = .named .REQ_TOPIC) :
    (messagesTo c sent).filterMap (messageAs .TopicRequest) = pushesTo c sent := by
  unfold messagesTo pushesTo
  rw [List.filterMap_filterMap]
  refine List.filterMap_congr fun x hx => ?_
  cases x with
  | pastEnd => rfl
  | response conn rid rcode =>
      by_cases hc : conn = c
      · simp only [if_pos hc]
        rfl
      · simp only [if_neg hc, Option.bind_none]
  | publish conn m =>
      by_cases hc : conn = c
      · subst hc
        simp only [if_true, Option.bind_some]
        exact messageAs_mapBody (htyped m hx)
      · simp only [if_neg hc, Option.bind_none]

/-- What the links make of a message reads the same. -/
structure TopicSystem.Orders (sys : TopicSystem) where
  upBecomes : BaseMessage MessageBody → BaseMessage MessageBody → Prop
  downBecomes : BaseMessage MessageBody → BaseMessage MessageBody → Prop
  up : sys.up.Ordered upBecomes
  down : sys.down.Ordered downBecomes
  up_same : ∀ {m o}, upBecomes m o → SameMessage sys.json m o
  down_same : ∀ {m o}, downBecomes m o → SameMessage sys.json m o

def rosterEvents (json : Jsoncpp) (log : List TopicHandled) : List (RosterEvent Bytes Nat) :=
  log.map fun e => topicEvent json e.act

/-- The request with which a connection called the server. -/
def requestFrom (c : Nat) : TopicAct → Option (BaseMessage JsonValue)
  | .ontopicRequest conn _ _ msg => if conn = c then some msg else none
  | .onConnection _ | .onconnShoutdown _ => none

section System
variable {sys : TopicSystem} {γ : Type}

/-- The server was at its step `i` in the PUBLISH of the request, and the connection was
subscribed to the topic. -/
def PushedAt (json : Jsoncpp) (log : List TopicHandled) (i c : Nat)
    (req : BaseMessage JsonValue) : Prop :=
  ∃ p fresh env name sent, log[i]? = some ⟨.ontopicRequest p fresh env req, sent⟩ ∧
    PublishesTo json name (.ontopicRequest p fresh env req) ∧
    Roster.Joined c name (rosterEvents json (log.take i))

/-- What the server pushed to the connection, with the steps in which it did. -/
def TopicState.pushes (s : TopicState sys γ) (c : Nat) : List (Nat × BaseMessage JsonValue) :=
  (s.log.zipIdx.drop (s.clients c).since).flatMap fun e => (pushesTo c e.1.sent).map (e.2, ·)

/-- The requests that came from the connection. -/
def TopicState.requests (s : TopicState sys γ) (c : Nat) : List (BaseMessage JsonValue) :=
  (s.log.drop (s.clients c).since).filterMap fun e => requestFrom c e.act

/-- `calls` are the requests that the server is being called with. -/
structure TopicClientInv (h : sys.Orders) (log : List TopicHandled)
    (calls : List (BaseMessage JsonValue)) (c : Nat) (k : TopicClient sys γ) : Prop where
  link : Duplex.Inv h.up h.down k.link
  since : k.since ≤ log.length
  posted : k.link.posted = (log.drop k.since).flatMap fun e => messagesTo c e.sent
  arrived : k.link.arrived.filterMap (messageAs .TopicRequest) =
    ((log.drop k.since).filterMap fun e => requestFrom c e.act) ++ calls
  invoked : Invokes sys.json (k.link.dispatched.filterMap (messageAs .TopicRequest)) k.invoked

structure TopicInv (h : sys.Orders) (calls : Nat → List (BaseMessage JsonValue))
    (s : TopicState sys γ) : Prop where
  linked : s.server.manager.Linked
  roster : s.server.manager.roster = Roster.ofEvents (rosterEvents sys.json s.log)
  client : ∀ c, TopicClientInv h s.log (calls c) c (s.clients c)
  pushed : ∀ i e, s.log[i]? = some e → ∀ c m, .publish c m ∈ e.sent →
    m.msgType = .named .REQ_TOPIC ∧ PushedAt sys.json s.log i c m

theorem TopicClientInv.serve {h : sys.Orders} {log : List TopicHandled} {e : TopicHandled}
    {c : Nat} {k : TopicClient sys γ}
    (hk : TopicClientInv h log (requestFrom c e.act).toList c k) :
    TopicClientInv h (log ++ [e]) [] c
      { k with link := k.link.post (messagesTo c e.sent) } where
  link := hk.link.post _
  since := by
    have hsince := hk.since
    rw [List.length_append]
    exact Nat.le_add_right_of_le hsince
  posted := by
    rw [List.drop_append_of_le_length hk.since, List.flatMap_append, List.flatMap_singleton]
    exact congrArg (· ++ messagesTo c e.sent) hk.posted
  arrived := by
    rw [List.drop_append_of_le_length hk.since, List.filterMap_append, List.append_nil]
    refine hk.arrived.trans (congrArg (_ ++ ·) ?_)
    cases hreq : requestFrom c e.act with
    | none => simp [hreq]
    | some req => simp [hreq]
  invoked := hk.invoked

theorem take_append_singleton {α : Type} {as : List α} {i : Nat} (hi : i < as.length) (a : α) :
    (as ++ [a]).take i = as.take i := List.take_append_of_le_length (Nat.le_of_lt hi)

theorem PushedAt.append {json : Jsoncpp} {log : List TopicHandled} {i c : Nat}
    {req : BaseMessage JsonValue} (hp : PushedAt json log i c req) (e : TopicHandled) :
    PushedAt json (log ++ [e]) i c req := by
  obtain ⟨p, fresh, env, name, sent, hget, hpub, hjoined⟩ := hp
  have hi := (List.getElem?_eq_some_iff.mp hget).1
  refine ⟨p, fresh, env, name, sent, ?_, hpub, ?_⟩
  · rw [List.getElem?_append_left hi, hget]
  · rw [take_append_singleton hi]
    exact hjoined

theorem TopicState.serve_eq_some {s t : TopicState sys γ} {a : TopicAct}
    (hserve : s.serve a = some t) :
    ∃ server, topicStep sys.json s.server a = some server ∧
      t = { server
            clients c :=
              { s.clients c with link := (s.clients c).link.post (messagesTo c server.sent) }
            log := s.log ++ [⟨a, server.sent⟩] } := by
  unfold TopicState.serve at hserve
  split at hserve
  · cases hserve
  · rename_i server hstep
    split at hserve
    · exact ⟨server, hstep, (Option.some.inj hserve).symm⟩
    · cases hserve

theorem TopicInv.serve {h : sys.Orders} {s t : TopicState sys γ} {a : TopicAct}
    (hs : TopicInv h (fun c => (requestFrom c a).toList) s)
    (htyped : ∀ c req, requestFrom c a = some req → req.msgType = .named .REQ_TOPIC)
    (hserve : s.serve a = some t) : TopicInv h (fun _ => []) t := by
  obtain ⟨server, hstep, rfl⟩ := TopicState.serve_eq_some hserve
  obtain ⟨hlinked, hroster, hsent⟩ := topicStep_spec hs.linked hstep
  refine ⟨hlinked, ?_, fun c => (hs.client c).serve (e := ⟨a, server.sent⟩), ?_⟩
  · rw [hroster, hs.roster, rosterEvents, rosterEvents, List.map_append, List.map_singleton,
      Roster.ofEvents_append_singleton]
  · intro i e hget c m hm
    rw [List.getElem?_append] at hget
    split at hget
    · obtain ⟨htype, hp⟩ := hs.pushed i e hget c m hm
      exact ⟨htype, hp.append _⟩
    · rename_i hi
      obtain ⟨hlast, heq⟩ := List.getElem?_eq_some_iff.mp hget
      rw [List.length_singleton, Nat.lt_one_iff] at hlast
      have hi : i = s.log.length := Nat.le_antisymm (Nat.sub_eq_zero_iff_le.mp hlast) (by omega)
      subst hi
      rw [List.getElem_singleton] at heq
      subst heq
      obtain ⟨p, fresh, env, name, rfl, hpub⟩ := topicStep_publish hstep hm
      have hmember := hsent c m name hm hpub
      rw [hs.roster, Roster.mem_ofEvents] at hmember
      refine ⟨htyped p m (if_pos rfl), p, fresh, env, name, server.sent, ?_, hpub, ?_⟩
      · rw [List.getElem?_append_right (Nat.le_refl _), Nat.sub_self]
        rfl
      · rw [List.take_left]
        exact hmember

theorem filterMap_append_singleton {α β : Type} (f : α → Option β) (as : List α) (a : α) :
    (as ++ [a]).filterMap f = as.filterMap f ++ (f a).toList := by
  rw [List.filterMap_append]
  cases hf : f a <;> simp [hf]

/-- The links take only what comes out at the other end. -/
def TopicSystem.Carried (h : sys.Orders) (s : TopicState sys γ) : TopicSystemAct sys γ → Prop
  | .ask _ req => ∃ o, h.upBecomes req o
  | .wire c .reply => ∀ m rest, (s.clients c).link.outbox = m :: rest → ∃ o, h.downBecomes m o
  | _ => True

theorem TopicInv.setClient {h : sys.Orders} {s : TopicState sys γ}
    {calls calls' : Nat → List (BaseMessage JsonValue)} {c : Nat} {k : TopicClient sys γ}
    (hs : TopicInv h calls s) (hcalls : ∀ c', c' ≠ c → calls' c' = calls c')
    (hk : TopicClientInv h s.log (calls' c) c k) : TopicInv h calls' (s.setClient c k) where
  linked := hs.linked
  roster := hs.roster
  client c' := by
    by_cases hc : c' = c
    · subst hc
      simpa only [TopicState.setClient, Function.update_self] using hk
    · rw [hcalls c' hc]
      simpa only [TopicState.setClient, Function.update_of_ne hc] using hs.client c'
  pushed := hs.pushed

namespace TopicClientInv
variable {h : sys.Orders} {log : List TopicHandled} {calls : List (BaseMessage JsonValue)}
  {c : Nat} {k k' : TopicClient sys γ}

theorem fresh (h : sys.Orders) (log : List TopicHandled) (c : Nat) :
    TopicClientInv h log [] c ({ since := log.length } : TopicClient sys γ) where
  link := Duplex.inv_init
  since := Nat.le_refl _
  posted := by
    rw [List.drop_length]
    rfl
  arrived := by
    rw [List.drop_length]
    rfl
  invoked := ⟨[], List.nil_sublist _, .nil⟩

theorem dispatched {link : Duplex sys.up sys.down} {invoked : List (γ × Bytes × Bytes)}
    {topics : ClientTopics γ} {shut : Bool} (hk : TopicClientInv h log calls c k)
    (hlink : Duplex.Inv h.up h.down link)
    (hframe : link.posted = k.link.posted ∧ link.arrived = k.link.arrived)
    (hinvoked : Invokes sys.json (link.dispatched.filterMap (messageAs .TopicRequest)) invoked) :
    TopicClientInv h log calls c { k with link, topics, invoked, clientShut := shut } where
  link := hlink
  since := hk.since
  posted := hframe.1.trans hk.posted
  arrived := (congrArg (List.filterMap (messageAs .TopicRequest)) hframe.2).trans hk.arrived
  invoked := hinvoked

theorem dispatch (hk : TopicClientInv h log calls c k) (hstep : k.dispatch = some k') :
    TopicClientInv h log calls c k' := by
  unfold TopicClient.dispatch at hstep
  split at hstep
  · cases hstep
  · rename_i msg link hdispatch
    have hlink := hk.link.dispatch hdispatch
    obtain ⟨⟨_, hframe⟩, hdispatched⟩ := Duplex.dispatch_frame hdispatch
    have hrequests : link.dispatched.filterMap (messageAs .TopicRequest) =
        k.link.dispatched.filterMap (messageAs .TopicRequest) ++
          (messageAs .TopicRequest msg).toList := by
      rw [hdispatched, filterMap_append_singleton]
    rw [TopicClient.onMessage_dispacher] at hstep
    by_cases htype : msg.msgType = .named .REQ_TOPIC
    · rw [if_pos htype] at hstep
      cases hreq : messageAs .TopicRequest msg with
      | none => simp [hreq] at hstep
      | some req =>
          simp only [hreq, Option.map_some, TopicClient.onTopicPublish] at hstep
          split at hstep
          · rename_i call topics hcall _
            cases hstep
            refine hk.dispatched hlink hframe ?_
            rw [hrequests, hreq]
            exact hk.invoked.append fun e he => onTopicPublish_says (he ▸ hcall)
          · cases hstep
    · rw [if_neg htype] at hstep
      have hsame :
          Invokes sys.json (link.dispatched.filterMap (messageAs .TopicRequest)) k.invoked := by
        rw [hrequests, messageAs_of_ne htype, Option.toList_none, List.append_nil]
        exact hk.invoked
      by_cases hresponse : msg.msgType = .named .RSP_TOPIC
      · simp only [if_pos hresponse, Option.some.injEq] at hstep
        subst hstep
        exact hk.dispatched hlink hframe hsame
      · simp only [if_neg hresponse, Option.some.injEq] at hstep
        subst hstep
        exact hk.dispatched hlink hframe hsame

end TopicClientInv

theorem topicSystem_step {h : sys.Orders} {s t : TopicState sys γ}
    {a : TopicSystemAct sys γ} (hs : TopicInv h (fun _ => []) s) (ha : sys.Carried h s a)
    (hstep : topicSystemStep s a = some t) : TopicInv h (fun _ => []) t := by
  cases a with
  | onConnection c =>
      refine (hs.setClient (fun _ _ => rfl) (.fresh h s.log c)).serve ?_ hstep
      intro c' req hreq
      cases hreq
  | onconnShoutdown c =>
      refine TopicInv.serve (a := .onconnShoutdown c) hs ?_ hstep
      intro c' req hreq
      cases hreq
  | call c a =>
      obtain ⟨topics, rfl⟩ : ∃ topics, t = s.setClient c { s.clients c with topics } := by
        cases a with
        | push data => cases hstep
        | _ =>
            obtain ⟨topics, _, rfl⟩ := Option.map_eq_some_iff.mp hstep
            exact ⟨topics, rfl⟩
      have hk := hs.client c
      exact hs.setClient (fun _ _ => rfl) ⟨hk.link, hk.since, hk.posted, hk.arrived, hk.invoked⟩
  | ask c req =>
      simp only [topicSystemStep] at hstep
      split at hstep
      · cases hstep
      · obtain ⟨link, hask, rfl⟩ := Option.map_eq_some_iff.mp hstep
        have hk := hs.client c
        obtain ⟨up, _, rfl⟩ := Option.map_eq_some_iff.mp hask
        exact hs.setClient (fun _ _ => rfl)
          ⟨hk.link.ask ha hask, hk.since, hk.posted, hk.arrived, hk.invoked⟩
  | wire c a =>
      obtain ⟨link, hlink, rfl⟩ : ∃ link, (s.clients c).link.step a = some link ∧
          t = s.setClient c { s.clients c with link } := by
        simp only [topicSystemStep] at hstep
        split at hstep
        · cases hstep
        · obtain ⟨link, hlink, rfl⟩ := Option.map_eq_some_iff.mp hstep
          exact ⟨link, hlink, rfl⟩
      have hk := hs.client c
      obtain ⟨_, harrived, hposted, hdispatched⟩ := Duplex.step_frame hlink
      refine hs.setClient (fun _ _ => rfl) ⟨hk.link.step ?_ hlink, hk.since,
        hposted.trans hk.posted, ?_, ?_⟩
      · intro m rest hreply houtbox
        subst hreply
        exact ha m rest houtbox
      · exact (congrArg (List.filterMap (messageAs .TopicRequest)) harrived).trans hk.arrived
      · show Invokes sys.json (link.dispatched.filterMap (messageAs .TopicRequest)) _
        rw [hdispatched]
        exact hk.invoked
  | dispatch c =>
      obtain ⟨k, hk, rfl⟩ := Option.map_eq_some_iff.mp hstep
      exact hs.setClient (fun _ _ => rfl) ((hs.client c).dispatch hk)
  | onMessage c fresh env =>
      simp only [topicSystemStep] at hstep
      split at hstep
      · cases hstep
      · rename_i msg link harrive
        have hk := hs.client c
        have hlink := hk.link.arrive harrive
        obtain ⟨⟨_, hposted, hdispatched⟩, harrived⟩ := Duplex.arrive_frame harrive
        have hclient : TopicClientInv h s.log (messageAs .TopicRequest msg).toList c
            { s.clients c with link } := by
          refine ⟨hlink, hk.since, hposted.trans hk.posted, ?_, ?_⟩
          · show link.arrived.filterMap (messageAs .TopicRequest) = _
            rw [harrived, filterMap_append_singleton, hk.arrived, List.append_nil]
          · show Invokes sys.json (link.dispatched.filterMap (messageAs .TopicRequest)) _
            rw [hdispatched]
            exact hk.invoked
        rw [TopicServer.onMessage_dispacher] at hstep
        by_cases htype : msg.msgType = .named .REQ_TOPIC
        · rw [if_pos htype] at hstep
          cases hreq : messageAs .TopicRequest msg with
          | none => simp [hreq] at hstep
          | some req =>
              simp only [hreq, Option.map_some] at hstep
              rw [hreq] at hclient
              refine TopicInv.serve (hs.setClient (fun c' hc => ?_) ?_) ?_ hstep
              · exact congrArg Option.toList (if_neg hc.symm)
              · rw [requestFrom, if_pos rfl]
                exact hclient
              · intro c' req' hreq'
                rw [requestFrom] at hreq'
                split at hreq' <;> cases hreq'
                exact (messageAs_msgType hreq).1.trans htype
        · have hnone : messageAs .TopicRequest msg = none := messageAs_of_ne htype
          simp only [if_neg htype, Option.some.injEq] at hstep
          subst hstep
          rw [hnone] at hclient
          exact hs.setClient (fun _ _ => rfl) ⟨hclient.link, hclient.since, hclient.posted,
            hclient.arrived, hclient.invoked⟩

/-- What holds in every state of the system. -/
structure TopicSafe (h : sys.Orders) (s : TopicState sys γ) : Prop where
  /-- A callback is called with what the server pushed to that client, each push once at
  most, in the order of the pushes. -/
  invoked : ∀ c, ∃ ps, ps.Sublist (s.pushes c) ∧
    List.Forall₂ (fun p call => Says sys.json p.2 call.2) ps (s.clients c).invoked
  /-- A push is a PUBLISH to a topic that the client is subscribed to. -/
  pushed : ∀ c, ∀ p ∈ s.pushes c, PushedAt sys.json s.log p.1 c p.2
  /-- All clients get their pushes in the order in which the server handled the requests. -/
  ordered : ∀ c, ((s.pushes c).map Prod.fst).Pairwise (· ≤ ·)
  /-- The server handles the first of the requests of a client, each once, in order. -/
  requests : ∀ c, ∃ ms, ms <+: (s.clients c).link.asked ∧
    List.Forall₂ (SameAs .TopicRequest sys.json) (ms.filterMap (messageAs .TopicRequest))
      (s.requests c)

theorem TopicState.pushes_map_snd {s : TopicState sys γ} {c : Nat} :
    (s.pushes c).map Prod.snd =
      (s.log.drop (s.clients c).since).flatMap fun e => pushesTo c e.sent := by
  have hlog : (s.log.zipIdx.drop (s.clients c).since).map Prod.fst =
      s.log.drop (s.clients c).since := by
    rw [List.map_drop, List.zipIdx_map_fst]
  rw [← hlog, TopicState.pushes, List.map_flatMap, List.flatMap_map]
  simp only [List.map_map, Function.comp_def, List.map_id']

theorem TopicState.indices_lt (s : TopicState sys γ) (c : Nat) :
    (s.log.zipIdx.drop (s.clients c).since).Pairwise fun e e' => e.2 < e'.2 := by
  refine List.Pairwise.drop ?_
  rw [← List.pairwise_map (R := (· < ·)) (f := Prod.snd), List.zipIdx_map_snd]
  exact List.pairwise_lt_range'

theorem TopicState.pushes_ordered (s : TopicState sys γ) (c : Nat) :
    ((s.pushes c).map Prod.fst).Pairwise (· ≤ ·) := by
  rw [List.pairwise_map, TopicState.pushes, List.pairwise_flatMap]
  constructor
  · intro e _
    rw [List.pairwise_map]
    exact List.pairwise_of_forall fun _ _ => Nat.le_refl _
  · refine (s.indices_lt c).imp ?_
    intro e e' hlt p hp p' hp'
    obtain ⟨_, _, rfl⟩ := List.mem_map.mp hp
    obtain ⟨_, _, rfl⟩ := List.mem_map.mp hp'
    exact Nat.le_of_lt hlt

theorem TopicInv.mem_pushes {h : sys.Orders} {s : TopicState sys γ}
    (hs : TopicInv h (fun _ => []) s) {c : Nat} {p : Nat × BaseMessage JsonValue}
    (hp : p ∈ s.pushes c) :
    p.2.msgType = .named .REQ_TOPIC ∧ PushedAt sys.json s.log p.1 c p.2 := by
  obtain ⟨⟨e, i⟩, he, hpush⟩ := List.mem_flatMap.mp hp
  obtain ⟨m, hm, rfl⟩ := List.mem_map.mp hpush
  have hget := List.mem_zipIdx_iff_getElem?.mp (List.mem_of_mem_drop he)
  obtain ⟨x, hx, hsend⟩ := List.mem_filterMap.mp hm
  cases x with
  | pastEnd => cases hsend
  | response => cases hsend
  | publish conn m' =>
      simp only [Option.ite_none_right_eq_some, Option.some.injEq] at hsend
      obtain ⟨rfl, rfl⟩ := hsend
      exact hs.pushed i e hget conn m' hx

theorem TopicInv.posted_requests {h : sys.Orders} {s : TopicState sys γ}
    (hs : TopicInv h (fun _ => []) s) (c : Nat) :
    (s.clients c).link.posted.filterMap (messageAs .TopicRequest) = (s.pushes c).map Prod.snd := by
  rw [(hs.client c).posted, TopicState.pushes_map_snd, List.filterMap_flatMap]
  refine List.flatMap_congr fun e he => messagesTo_requests ?_
  intro m hm
  obtain ⟨i, hget⟩ := List.mem_iff_getElem?.mp (List.mem_of_mem_drop he)
  exact (hs.pushed i e hget c m hm).1

theorem TopicInv.safe {h : sys.Orders} {s : TopicState sys γ} (hs : TopicInv h (fun _ => []) s) :
    TopicSafe h s where
  pushed c p hp := (hs.mem_pushes hp).2
  ordered := s.pushes_ordered
  invoked c := by
    obtain ⟨said, hsaid, hsays⟩ := (hs.client c).invoked
    obtain ⟨done, hdone, hcame⟩ := (hs.client c).link.dispatched_forall₂
    have hsame := SameMessage.messagesAs .TopicRequest h.down_same hcame
    obtain ⟨said', hsaid', hrel⟩ := exists_sublist_of_forall₂ hsame hsaid
    have hposted := hsaid'.trans (hdone.filterMap (messageAs .TopicRequest))
    rw [hs.posted_requests c] at hposted
    obtain ⟨ps, hps, rfl⟩ := List.sublist_map_iff.mp hposted
    refine ⟨ps, hps, ?_⟩
    have hall : List.Forall₂ (fun q call => Says sys.json q call.2) (ps.map Prod.snd)
        (s.clients c).invoked := by
      refine forall₂_trans ?_ hrel hsays
      intro q r call hsame hr
      exact hsame.says hr
    exact List.forall₂_map_left_iff.mp hall
  requests c := by
    obtain ⟨ms, hms, harrived⟩ := (hs.client c).link.arrived_forall₂
    refine ⟨ms, hms, ?_⟩
    have hsame := SameMessage.messagesAs .TopicRequest h.up_same harrived
    rw [(hs.client c).arrived, List.append_nil] at hsame
    exact hsame

theorem topicInv_initial (h : sys.Orders) :
    TopicInv h (fun _ => []) ({} : TopicState sys γ) where
  linked := linked_init
  roster := by
    ext name c
    · simp [TopicManager.roster, Roster.ofEvents, rosterEvents]
    · simp [TopicManager.roster, Roster.ofEvents, rosterEvents]
  client c := .fresh h [] c
  pushed i e hget := by
    cases hget

theorem TopicSystem.run_safe (h : sys.Orders) {s : TopicState sys γ}
    (hrun : Run topicSystemStep (sys.Carried h) {} s) : TopicSafe h s :=
  (hrun.invariant (TopicInv h fun _ => []) (topicInv_initial h)
    fun _ _ _ hs ha hstep => topicSystem_step hs ha hstep).safe

end System

end LyqtRpc
