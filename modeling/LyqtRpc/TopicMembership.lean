import LyqtRpc.TopicManager
import LyqtRpc.Lib.Roster

/-!
The relation between topics and subscribers is stored three times: in the set of
each topic, in the names of each subscriber, and in the map of connections. The
three agree in every state the topic server reaches.
-/

set_option autoImplicit false

namespace LyqtRpc

open StepRun

namespace TopicManager

/-- The subscriber of the connection names the topic. -/
def Names (s : TopicManager) (conn : Nat) (name : Bytes) : Prop :=
  ∃ sub x, s.subscribes conn = some sub ∧ s.objects sub = some x ∧ name ∈ x.topics

structure Linked (s : TopicManager) : Prop where
  entry : ∀ conn sub, s.subscribes conn = some sub → ∃ x, s.objects sub = some x ∧ x.conn = conn
  nodup : ∀ name t, s.topics name = some t → t.subscribes.Nodup
  mem : ∀ name t, s.topics name = some t → ∀ sub, sub ∈ t.subscribes ↔
    ∃ x, s.objects sub = some x ∧ name ∈ x.topics ∧ s.subscribes x.conn = some sub
  live : ∀ conn sub x name, s.subscribes conn = some sub → s.objects sub = some x →
    name ∈ x.topics → (s.topics name).isSome

/-- The topics, and the connections whose subscribers are in their sets. -/
def roster (s : TopicManager) : Roster Bytes Nat where
  live := {name | (s.topics name).isSome}
  members name := {conn | ∃ t sub x, s.topics name = some t ∧ sub ∈ t.subscribes ∧
    s.objects sub = some x ∧ x.conn = conn}
  members_live name conn h := by
    obtain ⟨t, _, _, ht, _⟩ := h
    exact Option.isSome_of_mem ht

theorem Linked.mem_members {s : TopicManager} (h : s.Linked) {conn : Nat} {name : Bytes} :
    conn ∈ s.roster.members name ↔ s.Names conn name := by
  constructor
  · rintro ⟨t, sub, x, ht, hsub, hx, rfl⟩
    obtain ⟨x', hx', hname, hentry⟩ := (h.mem name t ht sub).mp hsub
    obtain rfl := Option.some.inj (hx.symm.trans hx')
    exact ⟨sub, x, hentry, hx, hname⟩
  · intro hnames
    obtain ⟨sub, x, hentry, hx, hname⟩ := hnames
    obtain ⟨t, ht⟩ := Option.isSome_iff_exists.mp (h.live conn sub x name hentry hx hname)
    obtain ⟨x', hx', hconn⟩ := h.entry conn sub hentry
    obtain rfl := Option.some.inj (hx.symm.trans hx')
    exact ⟨t, sub, x, ht, (h.mem name t ht sub).mpr ⟨x, hx, hname, hconn ▸ hentry⟩, hx, hconn⟩

/-- Two linked managers with the same topics and the same names show the same roster. -/
theorem Linked.roster_eq {s : TopicManager} {r : Roster Bytes Nat} (h : s.Linked)
    (hlive : ∀ name, (s.topics name).isSome ↔ name ∈ r.live)
    (hnames : ∀ conn name, s.Names conn name ↔ conn ∈ r.members name) : s.roster = r := by
  ext name conn
  · exact hlive name
  · rw [h.mem_members]
    exact hnames conn name

theorem mem_live {s : TopicManager} {name : Bytes} :
    name ∈ s.roster.live ↔ (s.topics name).isSome := Iff.rfl

theorem topicCreate_of_some {s : TopicManager} {name : Bytes} {t : TopicObject}
    (ht : s.topics name = some t) : s.topicCreate name = s := by
  simp only [topicCreate, ht]

theorem topicCreate_of_none {s : TopicManager} {name : Bytes} (ht : s.topics name = none) :
    s.topicCreate name =
      { s with topics n := if n = name then some { topicName := name } else s.topics n } := by
  simp only [topicCreate, ht]
  congr 1
  funext n
  exact Function.update_apply ..

theorem linked_topicCreate {s : TopicManager} {name : Bytes} (h : s.Linked) :
    (s.topicCreate name).Linked := by
  cases ht : s.topics name with
  | some t => exact (topicCreate_of_some ht).symm ▸ h
  | none =>
    rw [topicCreate_of_none ht]
    obtain ⟨hentry, hnodup, hmem, hlive⟩ := h
    exact ⟨hentry, by grind, by grind, by grind⟩

theorem roster_topicCreate {s : TopicManager} {name : Bytes} (h : s.Linked) :
    (s.topicCreate name).roster = s.roster.apply (.create name) := by
  refine (linked_topicCreate h).roster_eq (fun n => ?_) (fun conn n => ?_)
  · simp only [Roster.apply, Set.mem_insert_iff, mem_live]
    cases ht : s.topics name with
    | some t =>
      rw [topicCreate_of_some ht]
      grind
    | none =>
      rw [topicCreate_of_none ht]
      grind
  · simp only [Roster.apply, h.mem_members]
    cases ht : s.topics name with
    | some t => rw [topicCreate_of_some ht]
    | none => rw [topicCreate_of_none ht]; rfl

theorem linked_topicRemove {s : TopicManager} {name : Bytes} (h : s.Linked) :
    (s.topicRemove name).Linked := by
  cases ht : s.topics name with
  | none => simpa only [topicRemove, ht] using h
  | some t =>
    rw [topicRemove_eq ht]
    obtain ⟨hentry, hnodup, hmem, hlive⟩ := h
    have htm := hmem name t ht
    refine ⟨?_, ?_, ?_, ?_⟩
    · intro conn sub hsub
      obtain ⟨x, hx, hconn⟩ := hentry conn sub hsub
      grind [Subscriber.removeTopic]
    · grind
    · grind [Subscriber.removeTopic]
    · grind [Subscriber.removeTopic]

theorem roster_topicRemove {s : TopicManager} {name : Bytes} (h : s.Linked) :
    (s.topicRemove name).roster = s.roster.apply (.remove name) := by
  refine (linked_topicRemove h).roster_eq (fun n => ?_) (fun conn n => ?_)
  · simp only [Roster.apply, Set.mem_sdiff, Set.mem_singleton_iff, mem_live]
    cases ht : s.topics name with
    | none =>
      simp only [topicRemove, ht]
      grind
    | some t =>
      rw [topicRemove_eq ht]
      grind
  · simp only [Roster.apply, Set.mem_ofPred_eq, h.mem_members]
    obtain ⟨hentry, _, hmem, hlive⟩ := h
    cases ht : s.topics name with
    | none =>
      simp only [topicRemove, ht, Names]
      grind
    | some t =>
      rw [topicRemove_eq ht]
      have htm := hmem name t ht
      simp only [Names]
      grind [Subscriber.removeTopic]

/-- Changes of a subscriber's priority and tags. -/
theorem Linked.modifySubscriber {s : TopicManager} (h : s.Linked) (sub : Nat)
    {f : Subscriber → Subscriber} (hconn : ∀ x, (f x).conn = x.conn)
    (htopics : ∀ x, (f x).topics = x.topics) :
    (s.modifySubscriber sub f).Linked ∧ (s.modifySubscriber sub f).roster = s.roster := by
  have hlinked : (s.modifySubscriber sub f).Linked := by
    obtain ⟨hentry, hnodup, hmem, hlive⟩ := h
    rw [modifySubscriber_eq]
    refine ⟨?_, hnodup, by grind, by grind⟩
    intro conn p hp
    obtain ⟨x, hx, hc⟩ := hentry conn p hp
    grind
  refine ⟨hlinked, hlinked.roster_eq (fun n => Iff.rfl) (fun conn n => ?_)⟩
  rw [h.mem_members, modifySubscriber_eq]
  simp only [Names]
  grind [Option.map_eq_some_iff]

theorem Linked.subscriber {s : TopicManager} (h : s.Linked) (conn : Nat) {fresh : Nat}
    (hfresh : s.objects fresh = none) :
    (s.subscriber conn fresh).2.Linked ∧
    (s.subscriber conn fresh).2.roster = s.roster ∧
    (s.subscriber conn fresh).2.topics = s.topics ∧
    (s.subscriber conn fresh).2.subscribes conn = some (s.subscriber conn fresh).1 := by
  cases hsub : s.subscribes conn with
  | some sub =>
    simp only [TopicManager.subscriber, hsub]
    exact ⟨h, trivial, trivial, trivial⟩
  | none =>
    have hnew : Linked { s with
        objects := Function.update s.objects fresh (some { conn })
        subscribes := Function.update s.subscribes conn (some fresh) } := by
      obtain ⟨hentry, hnodup, hmem, hlive⟩ := h
      refine ⟨fun c p hp => ?_, hnodup, fun n t ht p => ?_, fun c p x n hp hx => ?_⟩
      · simp only [Function.update_apply] at hp ⊢
        by_cases hc : c = conn
        · simp only [hc, if_true, Option.some.injEq] at hp
          exact ⟨{ conn }, by simp [hp], hc.symm⟩
        · simp only [hc, if_false] at hp
          grind
      · simp only [Function.update_apply]
        rw [hmem n t ht p]
        grind
      · simp only [Function.update_apply] at hp hx
        grind
    simp only [TopicManager.subscriber, hsub]
    refine ⟨hnew, hnew.roster_eq (fun n => Iff.rfl) (fun c n => ?_), trivial,
      Function.update_self ..⟩
    rw [h.mem_members]
    simp only [Names, Function.update_apply]
    grind

theorem Linked.join {s : TopicManager} (h : s.Linked) {conn sub : Nat} {name : Bytes}
    (hsub : s.subscribes conn = some sub) (hlive : (s.topics name).isSome) :
    ((s.modifyTopic name (·.addSubscribe sub)).modifySubscriber sub (·.addTopic name)).Linked ∧
    ((s.modifyTopic name (·.addSubscribe sub)).modifySubscriber sub (·.addTopic name)).roster =
      s.roster.apply (.join conn name) := by
  obtain ⟨x, hx, hconn⟩ := h.entry conn sub hsub
  rw [modifyTopic_eq, modifySubscriber_eq]
  have hlinked : Linked { s with
      topics n := if n = name then (s.topics n).map (·.addSubscribe sub) else s.topics n
      objects p := if p = sub then (s.objects p).map (·.addTopic name) else s.objects p } := by
    obtain ⟨hentry, hnodup, hmem, hnames⟩ := h
    refine ⟨fun c p hp => ?_, fun n t ht => ?_, fun n t ht p => ?_, fun c p y n hp hy => ?_⟩
    · obtain ⟨y, hy, hc⟩ := hentry c p hp
      grind [Subscriber.addTopic]
    · obtain ⟨t', ht', rfl⟩ := topic_of_modify ht
      split
      · exact (hnodup n t' ht').insert
      · exact hnodup n t' ht'
    · obtain ⟨t', ht', rfl⟩ := topic_of_modify ht
      split
      · rw [TopicObject.mem_addSubscribe, hmem n t' ht' p]
        grind [Subscriber.addTopic]
      · rw [hmem n t' ht' p]
        grind [Subscriber.addTopic]
    · grind [Subscriber.addTopic]
  refine ⟨hlinked, hlinked.roster_eq (fun n => ?_) (fun c n => ?_)⟩
  · simp only [Roster.apply, mem_live]
    grind
  · simp only [Roster.apply, Set.mem_ofPred_eq, h.mem_members, mem_live]
    have hentry := h.entry
    simp only [Names]
    grind [Subscriber.addTopic]

theorem topicSubscribe_spec {s t : TopicManager} {conn fresh : Nat} {name : Bytes}
    {data : JsonValue} {ret : Bool} (h : s.Linked) (hfresh : s.objects fresh = none)
    (hs : s.topicSubscribe conn fresh name data = .ok (ret, t)) :
    t.Linked ∧ t.roster = s.roster.apply (.join conn name) := by
  unfold topicSubscribe at hs
  cases ht : s.topics name with
  | none =>
    simp only [ht, Except.ok.injEq, Prod.mk.injEq] at hs
    obtain ⟨-, rfl⟩ := hs
    refine ⟨h, ?_⟩
    ext n c
    · rfl
    · simp only [Roster.apply, Set.mem_ofPred_eq, mem_live, ht]
      grind
  | some topic =>
    simp only [ht] at hs
    obtain ⟨priority, -, hs⟩ := bind_eq_ok.mp hs
    obtain ⟨tags, -, hs⟩ := bind_eq_ok.mp hs
    simp only [pure_eq_ok, Prod.mk.injEq] at hs
    obtain ⟨-, rfl⟩ := hs
    obtain ⟨hlinked, hroster, htopics, hsub⟩ := h.subscriber conn hfresh
    obtain ⟨hlinked', hroster'⟩ := hlinked.modifySubscriber (s.subscriber conn fresh).1
      (f := fun x => { x with priority, tags }) (fun _ => rfl) (fun _ => rfl)
    rw [← hroster, ← hroster']
    refine hlinked'.join hsub ?_
    simp only [TopicManager.modifySubscriber, htopics, ht, Option.isSome_some]

theorem topicancelSubscribe_spec {s : TopicManager} (h : s.Linked) (conn : Nat) (name : Bytes) :
    (s.topicancelSubscribe conn name).Linked ∧
    (s.topicancelSubscribe conn name).roster = s.roster.apply (.leave conn name) := by
  unfold topicancelSubscribe
  cases hsub : s.subscribes conn with
  | none =>
    refine ⟨h, h.roster_eq (fun n => Iff.rfl) (fun c n => ?_)⟩
    simp only [Roster.apply, Set.mem_ofPred_eq, h.mem_members, Names]
    grind
  | some sub =>
    obtain ⟨x, hx, hconn⟩ := h.entry conn sub hsub
    have hlinked : ((s.modifySubscriber sub (·.removeTopic name)).modifyTopic name
        (·.delSubscribe sub)).Linked := by
      rw [modifySubscriber_eq, modifyTopic_eq]
      obtain ⟨hentry, hnodup, hmem, hnames⟩ := h
      refine ⟨fun c p hp => ?_, fun n t ht => ?_, fun n t ht p => ?_, fun c p y n hp hy => ?_⟩
      · obtain ⟨y, hy, hc⟩ := hentry c p hp
        grind [Subscriber.removeTopic]
      · obtain ⟨t', ht', rfl⟩ := topic_of_modify ht
        split
        · exact (hnodup n t' ht').filter _
        · exact hnodup n t' ht'
      · obtain ⟨t', ht', rfl⟩ := topic_of_modify ht
        split
        · rw [TopicObject.mem_delSubscribe, hmem n t' ht' p]
          grind [Subscriber.removeTopic]
        · rw [hmem n t' ht' p]
          grind [Subscriber.removeTopic]
      · grind [Subscriber.removeTopic]
    refine ⟨hlinked, hlinked.roster_eq (fun n => ?_) (fun c n => ?_)⟩
    · rw [modifySubscriber_eq, modifyTopic_eq]
      simp only [Roster.apply, mem_live]
      grind
    · rw [modifySubscriber_eq, modifyTopic_eq]
      simp only [Roster.apply, Set.mem_ofPred_eq, h.mem_members]
      have hentry := h.entry
      simp only [Names]
      grind [Subscriber.removeTopic]

theorem onconnShoutdown_spec {s : TopicManager} (h : s.Linked) (conn : Nat) :
    (s.onconnShoutdown conn).Linked ∧
    (s.onconnShoutdown conn).roster = s.roster.apply (.depart conn) := by
  cases hsub : s.subscribes conn with
  | none =>
    simp only [onconnShoutdown, hsub]
    refine ⟨h, h.roster_eq (fun n => Iff.rfl) (fun c n => ?_)⟩
    simp only [Roster.apply, Set.mem_ofPred_eq, h.mem_members, Names]
    grind
  | some sub =>
    obtain ⟨x, hx, hconn⟩ := h.entry conn sub hsub
    rw [onconnShoutdown_eq hsub hx]
    have hlinked : Linked { s with
        subscribes := Function.update s.subscribes conn none
        topics n := if n ∈ x.topics then (s.topics n).map (·.delSubscribe sub)
          else s.topics n } := by
      obtain ⟨hentry, hnodup, hmem, hnames⟩ := h
      refine ⟨fun c p hp => ?_, fun n t ht => ?_, fun n t ht p => ?_, fun c p y n hp hy => ?_⟩
      · simp only [Function.update_apply] at hp
        exact hentry c p (by grind)
      · obtain ⟨t', ht', rfl⟩ := topic_of_modify ht
        split
        · exact (hnodup n t' ht').filter _
        · exact hnodup n t' ht'
      · simp only [Function.update_apply]
        obtain ⟨t', ht', rfl⟩ := topic_of_modify ht
        split
        · rw [TopicObject.mem_delSubscribe, hmem n t' ht' p]
          grind
        · rw [hmem n t' ht' p]
          grind
      · simp only [Function.update_apply] at hp
        grind
    refine ⟨hlinked, hlinked.roster_eq (fun n => ?_) (fun c n => ?_)⟩
    · simp only [Roster.apply, mem_live]
      grind
    · simp only [Roster.apply, Set.mem_ofPred_eq, h.mem_members]
      simp only [Names, Function.update_apply]
      grind

/-- A push changes cursors. -/
theorem Linked.of_push {s : TopicManager} (h : s.Linked) (name : Bytes) (cursor : Nat)
    (priCursor : Nat) :
    Linked { s.modifyTopic name (fun t => { t with rrCursor := cursor }) with priCursor } ∧
    roster { s.modifyTopic name (fun t => { t with rrCursor := cursor }) with priCursor } =
      s.roster := by
  rw [modifyTopic_eq]
  have hlinked : Linked { s with
      topics n := if n = name then (s.topics n).map (fun t => { t with rrCursor := cursor })
        else s.topics n
      priCursor } := by
    obtain ⟨hentry, hnodup, hmem, hnames⟩ := h
    refine ⟨hentry, fun n t ht => ?_, fun n t ht p => ?_, fun c p y n hp hy => ?_⟩
    · obtain ⟨t', ht', rfl⟩ := topic_of_modify ht
      split <;> exact hnodup n t' ht'
    · obtain ⟨t', ht', rfl⟩ := topic_of_modify ht
      split <;> exact hmem n t' ht' p
    · grind
  refine ⟨hlinked, hlinked.roster_eq (fun n => ?_) (fun c n => ?_)⟩
  · simp only [mem_live]
    grind
  · rw [h.mem_members]
    rfl

/-- A publish goes to members of the topic's roster. -/
theorem topicPublish_spec {json : Jsoncpp} {env : TopicEnv} {s t : TopicManager} {name : Bytes}
    {msg : BaseMessage JsonValue} {ret : Bool} {sent : List TopicSend} (h : s.Linked)
    (hs : topicPublish json env s name msg = .ok (ret, t, sent)) :
    t.Linked ∧ t.roster = s.roster ∧
    ∀ conn m, .publish conn m ∈ sent → conn ∈ s.roster.members name := by
  unfold topicPublish at hs
  cases ht : s.topics name with
  | none =>
    simp only [ht, Except.ok.injEq, Prod.mk.injEq] at hs
    obtain ⟨-, rfl, rfl⟩ := hs
    exact ⟨h, rfl, fun conn m hm => nomatch hm⟩
  | some topic =>
    simp only [ht] at hs
    obtain ⟨publish, -, hs⟩ := bind_eq_ok.mp hs
    simp only [pure_eq_ok, Prod.mk.injEq] at hs
    obtain ⟨-, rfl, rfl⟩ := hs
    obtain ⟨hlinked, hroster⟩ := h.of_push name _ _
    refine ⟨hlinked, hroster, fun conn m hm => ?_⟩
    obtain ⟨target, htarget, hsend⟩ := List.mem_map.mp hm
    cases target with
    | none => cases hsend
    | some target =>
      cases hsend
      have hmem := Topic.mem_subscribes_of_sent htarget
      obtain ⟨sub, hsub, hcopy⟩ := List.mem_filterMap.mp hmem
      obtain ⟨x, hx, rfl⟩ := Option.map_eq_some_iff.mp hcopy
      exact ⟨topic, sub, x, ht, (env.iterate_perm _).subset hsub, hx, rfl⟩

/-- A subscriber is in a set for its connection, so a connection is in it once. -/
theorem Linked.conns_nodup {s : TopicManager} (h : s.Linked) {name : Bytes} {t : TopicObject}
    (ht : s.topics name = some t) :
    (t.subscribes.filterMap (fun sub => (s.objects sub).map (·.conn))).Nodup := by
  refine List.pairwise_filterMap.mpr ((h.nodup name t ht).imp_of_mem ?_)
  intro p q hp hq hne c hc c' hc' heq
  obtain ⟨x, hx, -, hpe⟩ := (h.mem name t ht p).mp hp
  obtain ⟨y, hy, -, hqe⟩ := (h.mem name t ht q).mp hq
  simp only [hx, Option.map_some, Option.some.injEq] at hc
  simp only [hy, Option.map_some, Option.some.injEq] at hc'
  rw [hc] at hpe
  rw [hc', ← heq, hpe] at hqe
  exact hne (Option.some.inj hqe)

end TopicManager

structure TopicServer where
  manager : TopicManager := {}
  /-- The connections that are up. -/
  connections : Nat → Bool := fun _ => false
  /-- What the last step has sent. -/
  sent : List TopicSend := []

inductive TopicAct where
  | onConnection (conn : Nat)
  | ontopicRequest (conn fresh : Nat) (env : TopicEnv) (msg : BaseMessage JsonValue)
  | onconnShoutdown (conn : Nat)

/-- A request comes from a connection that is up. An exception that leaves the handler
ends the process. -/
def topicStep (json : Jsoncpp) (s : TopicServer) : TopicAct → Option TopicServer
  | .onConnection conn =>
    if s.connections conn then none
    else some { s with connections := Function.update s.connections conn true, sent := [] }
  | .ontopicRequest conn fresh env msg =>
    if s.connections conn && (s.manager.objects fresh).isNone then
      match s.manager.ontopicRequest json env conn fresh msg with
      | .ok (manager, sent) => some { s with manager, sent }
      | .error _ => none
    else none
  | .onconnShoutdown conn =>
    if s.connections conn then
      some {
        manager := s.manager.onconnShoutdown conn
        connections := Function.update s.connections conn false
        sent := [] }
    else none

/-- What a request means for the roster. -/
def requestEvent (conn : Nat) (optype : EnumValue TopicOpType) (name : Bytes) :
    RosterEvent Bytes Nat :=
  match optype with
  | .named .CREATE => .create name
  | .named .REMOVE => .remove name
  | .named .SUBSCRIBE => .join conn name
  | .named .UNSUBSCRIBE => .leave conn name
  | .named .PUBLISH | .unnamed _ _ => .other

def topicEvent (json : Jsoncpp) : TopicAct → RosterEvent Bytes Nat
  | .onConnection _ => .other
  | .ontopicRequest conn _ _ msg =>
    match TopicRequest.optype msg.body, TopicRequest.topicKey json msg.body with
    | .ok optype, .ok name => requestEvent conn optype name
    | _, _ => .other
  | .onconnShoutdown conn => .depart conn

/-- The step is a PUBLISH to the topic. -/
def PublishesTo (json : Jsoncpp) (name : Bytes) : TopicAct → Prop
  | .ontopicRequest _ _ _ msg =>
    TopicRequest.optype msg.body = .ok (.named .PUBLISH) ∧
      TopicRequest.topicKey json msg.body = .ok name
  | _ => False

theorem ontopicRequest_spec {json : Jsoncpp} {env : TopicEnv} {s t : TopicManager}
    {conn fresh : Nat} {msg : BaseMessage JsonValue} {sent : List TopicSend} (h : s.Linked)
    (hfresh : s.objects fresh = none)
    (hs : s.ontopicRequest json env conn fresh msg = .ok (t, sent)) :
    t.Linked ∧
    t.roster = s.roster.apply (topicEvent json (.ontopicRequest conn fresh env msg)) ∧
    ∀ c m name, .publish c m ∈ sent → TopicRequest.topicKey json msg.body = .ok name →
      c ∈ s.roster.members name := by
  unfold TopicManager.ontopicRequest at hs
  obtain ⟨optype, hop, hs⟩ := bind_eq_ok.mp hs
  cases optype with
  | unnamed c hc =>
    simp only [pure_eq_ok, Prod.mk.injEq] at hs
    obtain ⟨rfl, rfl⟩ := hs
    refine ⟨h, ?_, fun c m name hm _ => by simp at hm⟩
    simp only [topicEvent, hop]
    split
    · rename_i heq _
      cases heq
      rfl
    · rfl
  | named op =>
    cases op with
    | CREATE =>
      obtain ⟨name, hname, hs⟩ := bind_eq_ok.mp hs
      simp only [pure_eq_ok, Prod.mk.injEq] at hs
      obtain ⟨rfl, rfl⟩ := hs
      simp only [topicEvent, hop, hname, requestEvent]
      exact ⟨TopicManager.linked_topicCreate h, TopicManager.roster_topicCreate h,
        fun c m name hm _ => by simp at hm⟩
    | REMOVE =>
      obtain ⟨name, hname, hs⟩ := bind_eq_ok.mp hs
      simp only [pure_eq_ok, Prod.mk.injEq] at hs
      obtain ⟨rfl, rfl⟩ := hs
      simp only [topicEvent, hop, hname, requestEvent]
      exact ⟨TopicManager.linked_topicRemove h, TopicManager.roster_topicRemove h,
        fun c m name hm _ => by simp at hm⟩
    | SUBSCRIBE =>
      obtain ⟨name, hname, hs⟩ := bind_eq_ok.mp hs
      obtain ⟨⟨ret, u⟩, hsub, hs⟩ := bind_eq_ok.mp hs
      simp only [pure_eq_ok, Prod.mk.injEq] at hs
      obtain ⟨rfl, rfl⟩ := hs
      simp only [topicEvent, hop, hname, requestEvent]
      obtain ⟨hlinked, hroster⟩ := TopicManager.topicSubscribe_spec h hfresh hsub
      exact ⟨hlinked, hroster, fun c m name hm _ => by simp at hm⟩
    | UNSUBSCRIBE =>
      obtain ⟨name, hname, hs⟩ := bind_eq_ok.mp hs
      simp only [pure_eq_ok, Prod.mk.injEq] at hs
      obtain ⟨rfl, rfl⟩ := hs
      simp only [topicEvent, hop, hname, requestEvent]
      obtain ⟨hlinked, hroster⟩ :=
        TopicManager.topicancelSubscribe_spec h conn name
      exact ⟨hlinked, hroster, fun c m name hm _ => by simp at hm⟩
    | PUBLISH =>
      obtain ⟨name, hname, hs⟩ := bind_eq_ok.mp hs
      obtain ⟨⟨ret, u, pushed⟩, hpub, hs⟩ := bind_eq_ok.mp hs
      simp only [pure_eq_ok, Prod.mk.injEq] at hs
      obtain ⟨rfl, rfl⟩ := hs
      simp only [topicEvent, hop, hname, requestEvent]
      obtain ⟨hlinked, hroster, hsent⟩ := TopicManager.topicPublish_spec h hpub
      refine ⟨hlinked, hroster, fun c m name' hm heq => ?_⟩
      cases heq
      refine hsent c m ?_
      simpa using hm

theorem topicStep_spec {json : Jsoncpp} {s t : TopicServer} {a : TopicAct}
    (h : s.manager.Linked) (hs : topicStep json s a = some t) :
    t.manager.Linked ∧ t.manager.roster = s.manager.roster.apply (topicEvent json a) ∧
    ∀ c m name, .publish c m ∈ t.sent → PublishesTo json name a →
      c ∈ s.manager.roster.members name := by
  cases a with
  | onConnection conn =>
    simp only [topicStep] at hs
    split at hs
    · cases hs
    · cases hs
      exact ⟨h, rfl, fun c m name hm _ => nomatch hm⟩
  | ontopicRequest conn fresh env msg =>
    simp only [topicStep, Bool.and_eq_true, Option.isNone_iff_eq_none] at hs
    split at hs
    · rename_i hok
      cases hr : s.manager.ontopicRequest json env conn fresh msg with
      | error e => simp [hr] at hs
      | ok r =>
        simp only [hr, Option.some.injEq] at hs
        subst hs
        obtain ⟨hlinked, hroster, hsent⟩ := ontopicRequest_spec h hok.2 hr
        exact ⟨hlinked, hroster, fun c m name hm hp => hsent c m name hm hp.2⟩
    · cases hs
  | onconnShoutdown conn =>
    simp only [topicStep] at hs
    split at hs
    · cases hs
      obtain ⟨hlinked, hroster⟩ := TopicManager.onconnShoutdown_spec h conn
      exact ⟨hlinked, hroster, fun c m name hm _ => nomatch hm⟩
    · cases hs

theorem linked_init : ({} : TopicServer).manager.Linked :=
  ⟨by simp, by simp, by simp, by simp⟩

theorem linked_of_exec {json : Jsoncpp} {acts : List TopicAct} {s : TopicServer}
    (h : exec (topicStep json) {} acts = some s) : s.manager.Linked :=
  Run.invariant (fun s => s.manager.Linked) linked_init
    (fun _ _ _ hi _ hs => (topicStep_spec hi hs).1) (Reachable.of_exec h)

/-- Who has unsubscribed, closed, or lost the topic gets nothing that is published to a
topic of that name before it has subscribed again. -/
theorem no_publish_after_end {json : Jsoncpp} {s t u v : TopicServer} {a b : TopicAct}
    {conn : Nat} {name : Bytes} {mid : List TopicAct} (h : s.manager.Linked)
    (hend : Roster.Ends conn name (topicEvent json a)) (ha : topicStep json s a = some t)
    (halong : Along (topicStep json) (fun s b =>
      ¬ (topicEvent json b = .join conn name ∧ (s.manager.topics name).isSome)) t mid)
    (hmid : exec (topicStep json) t mid = some u) (hb : topicStep json u b = some v)
    (hpub : PublishesTo json name b) (m : BaseMessage JsonValue) :
    .publish conn m ∉ v.sent := by
  obtain ⟨hlinked, hroster, -⟩ := topicStep_spec h ha
  have hout : conn ∉ t.manager.roster.members name := by
    rw [hroster]
    exact Roster.notMem_of_ends hend
  have hrun := halong.run hmid
  obtain ⟨hlinked', hout'⟩ := Roster.notMem_of_run
    (fun s : TopicServer => s.manager.roster) (fun _ a => topicEvent json a)
    (fun _ _ _ hi hs => (topicStep_spec hi hs).1)
    (fun _ _ _ hi hs => (topicStep_spec hi hs).2.1) hlinked hout hrun
  intro hsent
  exact hout' ((topicStep_spec hlinked' hb).2.2 conn m name hsent hpub)

/-- In every run of the topic server. -/
theorem topic_membership (json : Jsoncpp) (acts : List TopicAct) (s : TopicServer)
    (h : exec (topicStep json) {} acts = some s) :
    (∀ name t, s.manager.topics name = some t → ∀ sub, sub ∈ t.subscribes ↔
      ∃ x, s.manager.objects sub = some x ∧ name ∈ x.topics ∧
        s.manager.subscribes x.conn = some sub) ∧
    (∀ name t, s.manager.topics name = some t →
      (t.subscribes.filterMap (fun sub => (s.manager.objects sub).map (·.conn))).Nodup) ∧
    (∀ before a mid conn name r t, acts = before ++ a :: mid →
      exec (topicStep json) {} before = some r → topicStep json r a = some t →
      Roster.Ends conn name (topicEvent json a) →
      Along (topicStep json) (fun s b =>
        ¬ (topicEvent json b = .join conn name ∧ (s.manager.topics name).isSome)) t mid →
      ∀ b u, topicStep json s b = some u → PublishesTo json name b →
        ∀ m, .publish conn m ∉ u.sent) := by
  have hlinked := linked_of_exec h
  refine ⟨hlinked.mem, fun name t ht => hlinked.conns_nodup ht, ?_⟩
  intro before a mid conn name r t hacts hr ha hend halong b u hb hpub m
  rw [hacts, exec_append hr, exec_cons ha] at h
  exact no_publish_after_end (linked_of_exec hr) hend ha halong h hb hpub m

def topicRequest (optype : TopicOpType) : BaseMessage JsonValue where
  msgType := .named .REQ_TOPIC
  body := .object [(KEY_TOPIC_KEY, .string (str "t")), (KEY_OPTYPE, .int optype.code.toInt64)]

def inOrder : TopicEnv where
  shuffle := id
  shuffle_perm _ := .refl _
  hash := List.length
  iterate := id
  iterate_perm _ := .refl _

/-- Connection 1 asks for an operation on topic `t`. -/
def asks (optype : TopicOpType) (fresh : Nat) : TopicAct :=
  .ontopicRequest 1 fresh inOrder (topicRequest optype)

def subscribed : List TopicAct := [.onConnection 1, asks .CREATE 5, asks .SUBSCRIBE 5]

/-- The topic is removed under its subscriber and made again. -/
theorem topic_membership_madeAgain : ∃ r t s u,
    exec (topicStep .unused) {} subscribed = some r ∧
    topicStep .unused r (asks .REMOVE 6) = some t ∧
    topicStep .unused t (asks .CREATE 6) = some s ∧
    topicStep .unused s (asks .PUBLISH 6) = some u ∧ ∀ m, .publish 1 m ∉ u.sent := by
  obtain ⟨u, hu⟩ := Option.isSome_iff_exists.mp (show
    ((exec (topicStep .unused) {} subscribed).bind fun r =>
      (topicStep .unused r (asks .REMOVE 6)).bind fun t =>
      (topicStep .unused t (asks .CREATE 6)).bind fun s =>
      topicStep .unused s (asks .PUBLISH 6)).isSome by decide +kernel)
  simp only [Option.bind_eq_some_iff] at hu
  obtain ⟨r, hr, t, ht, s, hs, hu⟩ := hu
  refine ⟨r, t, s, u, hr, ht, hs, hu, ?_⟩
  have hexec : exec (topicStep .unused) {} (subscribed ++ asks .REMOVE 6 :: [asks .CREATE 6]) =
      some s := by
    rw [exec_append hr, exec_cons ht, exec_cons hs]
    rfl
  have hcreate : topicEvent .unused (asks .CREATE 6) = .create (str "t") := rfl
  exact (topic_membership .unused _ s hexec).2.2 subscribed _ _ 1 (str "t") r t rfl hr ht rfl
    ⟨by simp [hcreate], fun _ _ => trivial⟩ _ u hu ⟨rfl, rfl⟩

end LyqtRpc
