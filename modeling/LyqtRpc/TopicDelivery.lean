import LyqtRpc.TopicSafety

/-!
Where no send fails: once the connection of a client has run dry, it has got every push
the server made to it and one answer to each of its requests; and each broadcast to a
topic was pushed once to who was subscribed.
-/

set_option autoImplicit false

namespace LyqtRpc

open StepRun

def BroadcastsTo (json : Jsoncpp) (name : Bytes) (a : TopicAct) : Prop :=
  PublishesTo json name a ∧
    match a with
    | .ontopicRequest _ _ _ msg =>
      TopicRequest.forwardStrategy msg.body = .ok (.named .BROADCAST)
    | _ => False

def isTopicResponse (m : BaseMessage MessageBody) : Bool := m.msgType = .named .RSP_TOPIC

/-- The ids of the requests that are answered to a connection. -/
def answersTo (c : Nat) (sent : List TopicSend) : List Bytes :=
  sent.filterMap fun
    | .response conn rid _ => if conn = c then some rid else none
    | .publish .. | .pastEnd => none

theorem answersTo_append (c : Nat) (sent sent' : List TopicSend) :
    answersTo c (sent ++ sent') = answersTo c sent ++ answersTo c sent' := List.filterMap_append

theorem pushesTo_append (c : Nat) (sent sent' : List TopicSend) :
    pushesTo c (sent ++ sent') = pushesTo c sent ++ pushesTo c sent' := List.filterMap_append

namespace TopicManager
variable {json : Jsoncpp} {env : TopicEnv} {s t : TopicManager} {msg : BaseMessage JsonValue}
  {sent : List TopicSend}

theorem readPublish_strategy {data : JsonValue} {copySub : List Subscribe} {p : TopicPublish}
    (h : readPublish json data copySub = .ok p) :
    TopicRequest.forwardStrategy data = .ok p.forwardStrategy := by
  unfold readPublish at h
  obtain ⟨strategy, hstrategy, h⟩ := bind_eq_ok.mp h
  split at h
  · cases h
    exact hstrategy
  · split at h
    case h_1 | h_2 | h_3 | h_4 =>
      obtain ⟨x, _, h⟩ := bind_eq_ok.mp h
      cases h
      exact hstrategy
    all_goals
      cases h
      exact hstrategy

theorem pushesTo_broadcast (c : Nat) (subs : List Subscribe) :
    (pushesTo c ((Topic.broadcastSend subs).map (send msg))).length =
      (subs.map Subscribe.conn).count c := by
  induction subs with
  | nil => rfl
  | cons sub rest ih =>
      rw [List.map_cons, List.count_cons, ← ih]
      by_cases hc : sub.conn = c
      · simp [Topic.broadcastSend, pushesTo, send, hc]
      · simp [Topic.broadcastSend, pushesTo, send, hc]

/-- A broadcast is pushed once to each member. -/
theorem topicPublish_broadcast {name : Bytes} {ret : Bool} {c : Nat} (h : s.Linked)
    (hs : topicPublish json env s name msg = .ok (ret, t, sent))
    (hbroadcast : TopicRequest.forwardStrategy msg.body = .ok (.named .BROADCAST))
    (hc : c ∈ s.roster.members name) : (pushesTo c sent).length = 1 := by
  obtain ⟨topic, sub, x, ht, hsub, hx, hconn⟩ := hc
  simp only [topicPublish, ht] at hs
  obtain ⟨publish, hpublish, hs⟩ := bind_eq_ok.mp hs
  have hstrategy : publish.forwardStrategy = .named .BROADCAST :=
    Except.ok.inj ((readPublish_strategy hpublish).symm.trans hbroadcast)
  cases hs
  simp only [Topic.pushMessage, Topic.dispatchMessage, hstrategy]
  rw [pushesTo_broadcast]
  have hconns : (s.copySub env topic).map Subscribe.conn =
      (env.iterate topic.subscribes).filterMap fun sub => (s.objects sub).map (·.conn) := by
    rw [copySub, List.map_filterMap]
    simp only [Option.map_map, Function.comp_def]
  have hperm := (env.iterate_perm topic.subscribes).filterMap
    fun sub => (s.objects sub).map (·.conn)
  rw [hconns, hperm.count_eq]
  refine List.count_eq_one_of_mem (h.conns_nodup ht) (List.mem_filterMap.mpr ⟨sub, hsub, ?_⟩)
  rw [hx, Option.map_some, hconn]

theorem ontopicRequest_broadcast {p fresh c : Nat} {name : Bytes} (h : s.Linked)
    (hs : s.ontopicRequest json env p fresh msg = .ok (t, sent))
    (hbroadcast : BroadcastsTo json name (.ontopicRequest p fresh env msg))
    (hc : c ∈ s.roster.members name) : (pushesTo c sent).length = 1 := by
  obtain ⟨⟨hop, hname⟩, hstrategy⟩ := hbroadcast
  unfold ontopicRequest at hs
  obtain ⟨optype, hop', hs⟩ := bind_eq_ok.mp hs
  obtain rfl := Except.ok.inj (hop.symm.trans hop')
  obtain ⟨name', hname', hs⟩ := bind_eq_ok.mp hs
  obtain rfl := Except.ok.inj (hname.symm.trans hname')
  obtain ⟨⟨ret, u, pushed⟩, hpub, hs⟩ := bind_eq_ok.mp hs
  cases hs
  have hresponse : ∀ code, pushesTo c [.response p msg.rid code] = [] := fun _ => rfl
  rw [pushesTo_append, hresponse, List.append_nil]
  exact topicPublish_broadcast h hpub hstrategy hc

theorem topicPublish_sends {name : Bytes} {ret : Bool} {c : Nat}
    (hs : topicPublish json env s name msg = .ok (ret, t, sent)) : answersTo c sent = [] := by
  unfold topicPublish at hs
  split at hs
  · cases hs
    rfl
  · obtain ⟨publish, _, hs⟩ := bind_eq_ok.mp hs
    cases hs
    rw [answersTo, List.filterMap_map]
    refine List.filterMap_eq_nil_iff.mpr fun target _ => ?_
    cases target <;> rfl

/-- A request is answered once, to whom it came from. -/
theorem ontopicRequest_answers {p fresh c : Nat}
    (hs : s.ontopicRequest json env p fresh msg = .ok (t, sent)) :
    answersTo c sent = if p = c then [msg.rid] else [] := by
  have hone : ∀ code, answersTo c [.response p msg.rid code] = if p = c then [msg.rid] else [] := by
    intro code
    by_cases hp : p = c
    · simp [answersTo, hp]
    · simp [answersTo, hp]
  unfold ontopicRequest at hs
  obtain ⟨optype, _, hs⟩ := bind_eq_ok.mp hs
  split at hs
  case h_5 =>
    obtain ⟨name, _, hs⟩ := bind_eq_ok.mp hs
    obtain ⟨⟨ret, u, pushed⟩, hpub, hs⟩ := bind_eq_ok.mp hs
    cases hs
    rw [answersTo_append, topicPublish_sends hpub, List.nil_append]
    exact hone _
  case h_3 =>
    obtain ⟨name, _, hs⟩ := bind_eq_ok.mp hs
    obtain ⟨⟨ret, u⟩, _, hs⟩ := bind_eq_ok.mp hs
    cases hs
    exact hone _
  case h_6 =>
    cases hs
    exact hone _
  all_goals
    obtain ⟨name, _, hs⟩ := bind_eq_ok.mp hs
    cases hs
    exact hone _

end TopicManager

theorem topicStep_answers {json : Jsoncpp} {s t : TopicServer} {a : TopicAct} {c : Nat}
    (hs : topicStep json s a = some t) :
    answersTo c t.sent = (requestFrom c a).toList.map BaseMessage.rid := by
  cases a with
  | onConnection conn =>
      simp only [topicStep] at hs
      split at hs <;> cases hs
      rfl
  | onconnShoutdown conn =>
      simp only [topicStep] at hs
      split at hs <;> cases hs
      rfl
  | ontopicRequest p fresh env msg =>
      simp only [topicStep] at hs
      split at hs
      · split at hs
        · rename_i manager sent hr
          cases hs
          rw [requestFrom, TopicManager.ontopicRequest_answers hr]
          split <;> rfl
        · cases hs
      · cases hs

theorem topicStep_broadcast {json : Jsoncpp} {s t : TopicServer} {a : TopicAct} {c : Nat}
    {name : Bytes} (h : s.manager.Linked) (hs : topicStep json s a = some t)
    (hbroadcast : BroadcastsTo json name a) :
    (c ∈ s.manager.roster.members name → (pushesTo c t.sent).length = 1) ∧
      (c ∉ s.manager.roster.members name → pushesTo c t.sent = []) := by
  constructor
  · intro hc
    cases a with
    | onConnection conn => exact hbroadcast.2.elim
    | onconnShoutdown conn => exact hbroadcast.2.elim
    | ontopicRequest p fresh env msg =>
        simp only [topicStep] at hs
        split at hs
        · split at hs
          · rename_i manager sent hr
            cases hs
            exact TopicManager.ontopicRequest_broadcast h hr hbroadcast hc
          · cases hs
        · cases hs
  · intro hc
    refine List.filterMap_eq_nil_iff.mpr fun x hx => ?_
    cases x with
    | pastEnd => rfl
    | response => rfl
    | publish conn m =>
        by_cases hconn : conn = c
        · subst hconn
          exact absurd ((topicStep_spec h hs).2.2 conn m name hx hbroadcast.1) hc
        · simp only [if_neg hconn]

section System
variable {sys : TopicSystem} {γ : Type}

/-- `send` never returns false. -/
def TopicSystem.Lossless (h : sys.Orders) (s : TopicState sys γ) (a : TopicSystemAct sys γ) :
    Prop :=
  sys.Carried h s a ∧ ∀ c, a ≠ .wire c .drop

/-- What the server has done with one thing, after those before it. -/
structure HandledWell (json : Jsoncpp) (before : List TopicHandled) (e : TopicHandled) : Prop where
  answers : ∀ c, answersTo c e.sent = (requestFrom c e.act).toList.map BaseMessage.rid
  broadcast : ∀ name, BroadcastsTo json name e.act → ∀ c,
    (Roster.Joined c name (rosterEvents json before) → (pushesTo c e.sent).length = 1) ∧
      (¬ Roster.Joined c name (rosterEvents json before) → pushesTo c e.sent = [])

structure TopicKept (h : sys.Orders) (s : TopicState sys γ) : Prop where
  inv : TopicInv h (fun _ => []) s
  kept : ∀ c, (s.clients c).link.Kept
  handled : ∀ i e, s.log[i]? = some e → HandledWell sys.json (s.log.take i) e

/-- In a step the server handles nothing, or one more thing. -/
theorem topicSystemStep_log {s t : TopicState sys γ} {a : TopicSystemAct sys γ}
    (hstep : topicSystemStep s a = some t) :
    t.log = s.log ∨ ∃ e server, t.log = s.log ++ [e] ∧
      topicStep sys.json s.server e.act = some server ∧ e.sent = server.sent := by
  have hserve : ∀ (s' : TopicState sys γ) {a' : TopicAct}, s'.log = s.log →
      s'.server = s.server → s'.serve a' = some t →
      t.log = s.log ∨ ∃ e server, t.log = s.log ++ [e] ∧
        topicStep sys.json s.server e.act = some server ∧ e.sent = server.sent := by
    intro s' a' hlog hserver hserve
    obtain ⟨server, hserved, rfl⟩ := TopicState.serve_eq_some hserve
    exact .inr ⟨⟨a', server.sent⟩, server, by rw [hlog], hserver ▸ hserved, rfl⟩
  cases a with
  | onConnection c => exact hserve (s.setClient c { since := s.log.length }) rfl rfl hstep
  | onconnShoutdown c => exact hserve s rfl rfl hstep
  | call c a =>
      cases a with
      | push data => cases hstep
      | _ =>
          obtain ⟨topics, _, rfl⟩ := Option.map_eq_some_iff.mp hstep
          exact .inl rfl
  | ask c req =>
      simp only [topicSystemStep] at hstep
      split at hstep
      · cases hstep
      · obtain ⟨link, _, rfl⟩ := Option.map_eq_some_iff.mp hstep
        exact .inl rfl
  | wire c a =>
      simp only [topicSystemStep] at hstep
      split at hstep
      · cases hstep
      · obtain ⟨link, _, rfl⟩ := Option.map_eq_some_iff.mp hstep
        exact .inl rfl
  | dispatch c =>
      obtain ⟨k, _, rfl⟩ := Option.map_eq_some_iff.mp hstep
      exact .inl rfl
  | onMessage c fresh env =>
      simp only [topicSystemStep] at hstep
      split at hstep
      · cases hstep
      · split at hstep
        · cases hstep
        · exact hserve (s.setClient c { s.clients c with link := _ }) rfl rfl hstep
        · cases hstep
          exact .inl rfl

theorem HandledWell.of_step {h : sys.Orders} {s : TopicState sys γ} {e : TopicHandled}
    {server : TopicServer} (hs : TopicInv h (fun _ => []) s)
    (hstep : topicStep sys.json s.server e.act = some server) (hsent : e.sent = server.sent) :
    HandledWell sys.json s.log e where
  answers c := by
    rw [hsent]
    exact topicStep_answers hstep
  broadcast name hb c := by
    rw [hsent, ← Roster.mem_ofEvents, ← hs.roster]
    exact topicStep_broadcast hs.linked hstep hb

theorem kept_setClient {s : TopicState sys γ} {c : Nat} {k : TopicClient sys γ}
    (hs : ∀ c, (s.clients c).link.Kept) (hk : k.link.Kept) (c' : Nat) :
    ((s.setClient c k).clients c').link.Kept := by
  by_cases hc : c' = c
  · subst hc
    simpa only [TopicState.setClient, Function.update_self] using hk
  · simpa only [TopicState.setClient, Function.update_of_ne hc] using hs c'

theorem kept_serve {s t : TopicState sys γ} {a : TopicAct} (hs : ∀ c, (s.clients c).link.Kept)
    (hserve : s.serve a = some t) (c : Nat) : (t.clients c).link.Kept := by
  obtain ⟨server, _, rfl⟩ := TopicState.serve_eq_some hserve
  exact (hs c).post _

theorem TopicClient.dispatch_link {k k' : TopicClient sys γ} (hstep : k.dispatch = some k') :
    ∃ msg, k.link.dispatch = some (msg, k'.link) := by
  unfold TopicClient.dispatch at hstep
  split at hstep
  · cases hstep
  · rename_i msg link hdispatch
    split at hstep
    · cases hstep
    · unfold TopicClient.onTopicPublish at hstep
      split at hstep <;> cases hstep
      exact ⟨msg, hdispatch⟩
    · cases hstep
      exact ⟨msg, hdispatch⟩
    · cases hstep
      exact ⟨msg, hdispatch⟩

theorem topicSystemStep_kept {s t : TopicState sys γ} {a : TopicSystemAct sys γ}
    (hs : ∀ c, (s.clients c).link.Kept) (ha : ∀ c, a ≠ .wire c .drop)
    (hstep : topicSystemStep s a = some t) : ∀ c, (t.clients c).link.Kept := by
  cases a with
  | onConnection c => exact kept_serve (kept_setClient hs Duplex.kept_init) hstep
  | onconnShoutdown c => exact kept_serve hs hstep
  | call c a =>
      cases a with
      | push data => cases hstep
      | _ =>
          obtain ⟨topics, _, rfl⟩ := Option.map_eq_some_iff.mp hstep
          exact kept_setClient hs (hs c)
  | ask c req =>
      simp only [topicSystemStep] at hstep
      split at hstep
      · cases hstep
      · obtain ⟨link, hlink, rfl⟩ := Option.map_eq_some_iff.mp hstep
        exact kept_setClient hs ((hs c).ask hlink)
  | wire c a =>
      simp only [topicSystemStep] at hstep
      split at hstep
      · cases hstep
      · obtain ⟨link, hlink, rfl⟩ := Option.map_eq_some_iff.mp hstep
        exact kept_setClient hs ((hs c).step (fun hdrop => ha c (congrArg _ hdrop)) hlink)
  | dispatch c =>
      obtain ⟨k, hk, rfl⟩ := Option.map_eq_some_iff.mp hstep
      obtain ⟨msg, hlink⟩ := TopicClient.dispatch_link hk
      exact kept_setClient hs ((hs c).dispatch hlink)
  | onMessage c fresh env =>
      simp only [topicSystemStep] at hstep
      split at hstep
      · cases hstep
      · rename_i msg link harrive
        have hlink := (hs c).arrive harrive
        split at hstep
        · cases hstep
        · exact kept_serve (kept_setClient hs hlink) hstep
        · cases hstep
          exact kept_setClient hs hlink

theorem TopicKept.step {h : sys.Orders} {s t : TopicState sys γ} {a : TopicSystemAct sys γ}
    (hs : TopicKept h s) (ha : sys.Lossless h s a) (hstep : topicSystemStep s a = some t) :
    TopicKept h t where
  inv := topicSystem_step hs.inv ha.1 hstep
  kept := topicSystemStep_kept hs.kept ha.2 hstep
  handled i e hget := by
    rcases topicSystemStep_log hstep with hlog | ⟨e', server, hlog, hserver, hsent⟩
    · rw [hlog] at hget ⊢
      exact hs.handled i e hget
    · rw [hlog] at hget ⊢
      rw [List.getElem?_append] at hget
      split at hget
      · rename_i hi
        rw [take_append_singleton hi]
        exact hs.handled i e hget
      · rename_i hi
        obtain ⟨hlast, heq⟩ := List.getElem?_eq_some_iff.mp hget
        rw [List.length_singleton, Nat.lt_one_iff] at hlast
        have hlength : i = s.log.length := by omega
        subst hlength
        rw [List.getElem_singleton] at heq
        subst heq
        rw [List.take_left]
        exact .of_step hs.inv hserver hsent

/-- What a client has got when nothing is left on its way. -/
structure TopicDelivered (h : sys.Orders) (s : TopicState sys γ) (c : Nat) : Prop where
  /-- Every push, once, in order. -/
  pushes : List.Forall₂ (fun p m => SameAs .TopicRequest sys.json p.2 m) (s.pushes c)
    ((s.clients c).link.dispatched.filterMap (messageAs .TopicRequest))
  /-- One answer to each request, in order. -/
  answers : ((s.clients c).link.dispatched.filter isTopicResponse).map BaseMessage.rid =
    (s.requests c).map BaseMessage.rid
  /-- A broadcast was pushed once if the client was subscribed, and else not. -/
  broadcast : ∀ i e name, s.log[i]? = some e → (s.clients c).since ≤ i →
    BroadcastsTo sys.json name e.act →
    (Roster.Joined c name (rosterEvents sys.json (s.log.take i)) →
      (s.pushes c).countP (·.1 = i) = 1) ∧
    (¬ Roster.Joined c name (rosterEvents sys.json (s.log.take i)) →
      (s.pushes c).countP (·.1 = i) = 0)

/-- Of items with rising indices, those of one index. -/
theorem countP_index {α β : Type} (f : α → List β) {items : List (α × Nat)} {a : α} {i : Nat}
    (hrising : items.Pairwise fun e e' => e.2 < e'.2) (ha : (a, i) ∈ items) :
    (items.flatMap fun e => (f e.1).map (e.2, ·)).countP (·.1 = i) = (f a).length := by
  have hother : ∀ rest : List (α × Nat), (∀ e ∈ rest, e.2 ≠ i) →
      (rest.flatMap fun e => (f e.1).map (e.2, ·)).countP (·.1 = i) = 0 := by
    intro rest hrest
    refine List.countP_eq_zero.mpr fun p hp => ?_
    obtain ⟨e, he, hpe⟩ := List.mem_flatMap.mp hp
    obtain ⟨b, _, rfl⟩ := List.mem_map.mp hpe
    simpa using hrest e he
  induction items with
  | nil => cases ha
  | cons e rest ih =>
      obtain ⟨hfirst, hrest⟩ := List.pairwise_cons.mp hrising
      rw [List.flatMap_cons, List.countP_append]
      rcases List.mem_cons.mp ha with rfl | hmem
      · rw [hother rest fun e he => Nat.ne_of_gt (hfirst e he), Nat.add_zero]
        rw [List.countP_eq_length.mpr, List.length_map]
        intro p hp
        obtain ⟨b, _, rfl⟩ := List.mem_map.mp hp
        simp
      · have hne : e.2 ≠ i := Nat.ne_of_lt (hfirst (a, i) hmem)
        have hnone := hother [e] fun e' he' => (List.mem_singleton.mp he') ▸ hne
        rw [List.flatMap_singleton] at hnone
        rw [hnone, ih hrest hmem, Nat.zero_add]

theorem TopicState.countP_pushes {s : TopicState sys γ} {c i : Nat} {e : TopicHandled}
    (hget : s.log[i]? = some e) (hsince : (s.clients c).since ≤ i) :
    (s.pushes c).countP (·.1 = i) = (pushesTo c e.sent).length := by
  refine countP_index (fun e => pushesTo c e.sent) (s.indices_lt c) ?_
  refine List.mem_of_getElem? (i := i - (s.clients c).since) ?_
  rw [List.getElem?_drop, Nat.add_sub_cancel' hsince, List.getElem?_zipIdx, hget]
  simp

theorem messagesTo_responses {c : Nat} {sent : List TopicSend}
    (htyped : ∀ m, .publish c m ∈ sent → m.msgType = .named .REQ_TOPIC) :
    ((messagesTo c sent).filter isTopicResponse).map BaseMessage.rid = answersTo c sent := by
  induction sent with
  | nil => rfl
  | cons x rest ih =>
      have hrest := ih fun m hm => htyped m (List.mem_cons_of_mem _ hm)
      cases x with
      | pastEnd => exact hrest
      | response conn rid rcode =>
          by_cases hc : conn = c
          · simpa [messagesTo, answersTo, hc, isTopicResponse, topicResponseMessage] using hrest
          · simpa [messagesTo, answersTo, hc] using hrest
      | publish conn m =>
          by_cases hc : conn = c
          · subst hc
            have htype := htyped m (List.mem_cons_self ..)
            simpa [messagesTo, answersTo, isTopicResponse, BaseMessage.mapBody, htype] using hrest
          · simpa [messagesTo, answersTo, hc] using hrest

theorem TopicKept.delivered {h : sys.Orders} {s : TopicState sys γ} {c : Nat} (hs : TopicKept h s)
    (hd : (s.clients c).link.Drained h.down) : TopicDelivered h s c := by
  have hall := (hs.inv.client c).link.all_dispatched (hs.kept c) hd
  refine ⟨?_, ?_, ?_⟩
  · have hsame := SameMessage.messagesAs .TopicRequest h.down_same hall
    rw [hs.inv.posted_requests c] at hsame
    exact List.forall₂_map_left_iff.mp hsame
  · have hfilter : List.Forall₂ h.downBecomes ((s.clients c).link.posted.filter isTopicResponse)
        ((s.clients c).link.dispatched.filter isTopicResponse) := by
      refine List.rel_filter ?_ hall
      intro m o hb
      simp only [isTopicResponse, (h.down_same hb).msgType]
    have hrid := map_eq_of_forall₂ BaseMessage.rid BaseMessage.rid
      (fun _ _ hb => (h.down_same hb).rid) hfilter
    rw [hrid, (hs.inv.client c).posted, List.filter_flatMap, List.map_flatMap, TopicState.requests,
      List.filterMap_eq_flatMap_toList, List.map_flatMap]
    refine List.flatMap_congr fun e he => ?_
    obtain ⟨i, hget⟩ := List.mem_iff_getElem?.mp (List.mem_of_mem_drop he)
    rw [messagesTo_responses fun m hm => (hs.inv.pushed i e hget c m hm).1]
    exact (hs.handled i e hget).answers c
  · intro i e name hget hsince hb
    rw [TopicState.countP_pushes hget hsince]
    obtain ⟨hin, hout⟩ := (hs.handled i e hget).broadcast name hb c
    exact ⟨hin, fun hno => by rw [hout hno, List.length_nil]⟩

theorem topicKept_initial (h : sys.Orders) : TopicKept h ({} : TopicState sys γ) where
  inv := topicInv_initial h
  kept _ := Duplex.kept_init
  handled i e hget := by
    cases hget

theorem TopicSystem.run_kept (h : sys.Orders) {s : TopicState sys γ}
    (hrun : Run topicSystemStep (sys.Lossless h) {} s) : TopicKept h s :=
  hrun.invariant (TopicKept h) (topicKept_initial h) fun _ _ _ hs ha hstep => hs.step ha hstep

end System

end LyqtRpc
