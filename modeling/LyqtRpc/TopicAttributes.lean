import LyqtRpc.TopicMembership

/-!
Priority and tags belong to the subscriber, which a connection has one of for all its
topics: what a SUBSCRIBE to one topic does to the PRIORITY candidates of another.
-/

set_option autoImplicit false

namespace LyqtRpc

open StepRun

namespace TopicManager

/-- `copy_sub` of the topic, if there is one. -/
def subscribersOf (s : TopicManager) (env : TopicEnv) (name : Bytes) : List Subscribe :=
  match s.topics name with
  | none => []
  | some t => s.copySub env t

/-- The connections that a PRIORITY publish with the tags selects from. -/
def recipients (s : TopicManager) (env : TopicEnv) (name : Bytes) (tags : List Bytes) : List Nat :=
  (Topic.candidates tags (s.subscribersOf env name)).map (·.conn)

/-- Every PRIORITY publish to the topic selects from the same connections. -/
def SameRecipients (s t : TopicManager) (name : Bytes) : Prop :=
  ∀ env tags conn, conn ∈ t.recipients env name tags ↔ conn ∈ s.recipients env name tags

end TopicManager

/-- The attributes of a SUBSCRIBE go to the subscriber of its connection. -/
def Subscribe.withAttributes (conn : Nat) (priority : Int32) (tags : List Bytes)
    (sub : Subscribe) : Subscribe :=
  if sub.conn = conn then { sub with priority, tags } else sub

section Attributes
variable {s t : TopicManager} {conn fresh : Nat} {name other : Bytes} {data : JsonValue}
  {env : TopicEnv} {priority : Int32} {tags : List Bytes}

open TopicManager

theorem mem_subscribersOf {sub : Subscribe} :
    sub ∈ s.subscribersOf env name ↔ ∃ topic p x, s.topics name = some topic ∧
      p ∈ topic.subscribes ∧ s.objects p = some x ∧ x.toSubscribe = sub := by
  unfold subscribersOf copySub
  cases htopic : s.topics name with
  | none => simp
  | some topic =>
    simp only [List.mem_filterMap, Option.map_eq_some_iff, (env.iterate_perm _).mem_iff]
    constructor
    · intro h
      obtain ⟨p, hp, x, hx, hsub⟩ := h
      exact ⟨topic, p, x, rfl, hp, hx, hsub⟩
    · intro h
      obtain ⟨_, p, x, htopic', hp, hx, hsub⟩ := h
      cases htopic'
      exact ⟨p, hp, x, hx, hsub⟩

/-- Whoever is not subscribed to a topic has no attributes in it. -/
theorem map_withAttributes (hout : conn ∉ s.roster.members name) :
    (s.subscribersOf env name).map (Subscribe.withAttributes conn priority tags) =
      s.subscribersOf env name := by
  have hother : ∀ sub ∈ s.subscribersOf env name,
      Subscribe.withAttributes conn priority tags sub = id sub := by
    intro sub hsub
    obtain ⟨topic, p, x, htopic, hp, hx, rfl⟩ := mem_subscribersOf.mp hsub
    refine if_neg fun hconn => hout ?_
    exact ⟨topic, p, x, htopic, hp, hx, hconn⟩
  rw [List.map_congr_left hother, List.map_id]

theorem topicSubscribe_true (hpriority : TopicRequest.priority data = .ok priority)
    (htags : TopicRequest.tags data = .ok tags)
    (hs : s.topicSubscribe conn fresh name data = .ok (true, t)) :
    t = (((s.subscriber conn fresh).2.modifySubscriber (s.subscriber conn fresh).1
      (fun x => { x with priority, tags })).modifyTopic name
        (·.addSubscribe (s.subscriber conn fresh).1)).modifySubscriber
          (s.subscriber conn fresh).1 (·.addTopic name) := by
  unfold topicSubscribe at hs
  cases htopic : s.topics name with
  | none => simp [htopic] at hs
  | some topic =>
    simp only [htopic, hpriority, htags, ok_bind, pure_eq_ok, Prod.mk.injEq, true_and] at hs
    exact hs.symm

theorem topicSubscribe_reads {topic : TopicObject} {ret : Bool}
    (htopic : s.topics name = some topic)
    (hs : s.topicSubscribe conn fresh name data = .ok (ret, t)) :
    ∃ priority tags, TopicRequest.priority data = .ok priority ∧
      TopicRequest.tags data = .ok tags ∧ ret = true := by
  simp only [topicSubscribe, htopic] at hs
  obtain ⟨priority, hpriority, hs⟩ := bind_eq_ok.mp hs
  obtain ⟨tags, htags, hs⟩ := bind_eq_ok.mp hs
  simp only [pure_eq_ok, Prod.mk.injEq] at hs
  exact ⟨priority, tags, hpriority, htags, hs.1.symm⟩

/-- The subscriber of the connection, wherever it is found, has the new attributes. -/
theorem topicSubscribe_objects (h : s.Linked) (hfresh : s.objects fresh = none)
    (hpriority : TopicRequest.priority data = .ok priority)
    (htags : TopicRequest.tags data = .ok tags)
    (hs : s.topicSubscribe conn fresh name data = .ok (true, t)) {p : Nat} {x : Subscriber}
    (hx : s.objects p = some x) (hp : s.subscribes x.conn = some p) :
    (t.objects p).map (·.toSubscribe) =
      some (x.toSubscribe.withAttributes conn priority tags) := by
  have hnew : p ≠ fresh := by
    intro heq
    rw [heq, hfresh] at hx
    cases hx
  have hold : (s.subscriber conn fresh).2.objects p = some x := by
    unfold subscriber
    split
    · exact hx
    · simp [Function.update_of_ne hnew, hx]
  have hself : p = (s.subscriber conn fresh).1 ↔ x.conn = conn := by
    unfold subscriber
    cases hsub : s.subscribes conn with
    | some sub =>
      constructor
      · intro heq
        obtain ⟨y, hy, hconn⟩ := h.entry conn sub hsub
        rw [← show p = sub from heq, hx] at hy
        cases hy
        exact hconn
      · intro heq
        rw [heq, hsub] at hp
        exact (Option.some.inj hp).symm
    | none =>
      refine iff_of_false hnew fun heq => ?_
      rw [heq, hsub] at hp
      cases hp
  rw [topicSubscribe_true hpriority htags hs, modifySubscriber_eq, modifyTopic_eq,
    modifySubscriber_eq]
  by_cases hconn : x.conn = conn
  · simp [hself.mpr hconn ▸ hold, hself.mpr hconn, Subscribe.withAttributes, hconn,
      Subscriber.addTopic]
  · have hother : p ≠ (s.subscriber conn fresh).1 := fun heq => hconn (hself.mp heq)
    simp [hold, hother, Subscribe.withAttributes, hconn]

/-- Another topic keeps its set, and sees the new attributes through it. -/
theorem topicSubscribe_subscribersOf (h : s.Linked) (hfresh : s.objects fresh = none)
    (hne : other ≠ name) (hpriority : TopicRequest.priority data = .ok priority)
    (htags : TopicRequest.tags data = .ok tags)
    (hs : s.topicSubscribe conn fresh name data = .ok (true, t)) :
    t.subscribersOf env other =
      (s.subscribersOf env other).map (Subscribe.withAttributes conn priority tags) := by
  have htopic : t.topics other = s.topics other := by
    rw [topicSubscribe_true hpriority htags hs]
    simp only [modifySubscriber, modifyTopic, Function.update_of_ne hne]
    rw [(h.subscriber conn hfresh).2.2.1]
  unfold subscribersOf copySub
  rw [htopic]
  cases hother : s.topics other with
  | none => rfl
  | some topic =>
    simp only [List.map_filterMap]
    refine List.filterMap_congr fun p hp => ?_
    have hmem := (env.iterate_perm _).mem_iff.mp hp
    obtain ⟨x, hx, _, hentry⟩ := (h.mem other topic hother p).mp hmem
    rw [topicSubscribe_objects h hfresh hpriority htags hs hx hentry, hx]
    rfl

theorem TopicManager.SameRecipients.of_subscribersOf
    (h : ∀ env, t.subscribersOf env other = s.subscribersOf env other) :
    SameRecipients s t other := by
  intro env tags conn
  simp only [recipients, h env]

end Attributes

/-- A SUBSCRIBE of a connection to one topic leaves the candidates of another as they are
unless the connection is subscribed to it, and then they are those of the same subscribers
with the new priority and tags of this one. -/
theorem subscribe_shares_attributes {json : Jsoncpp} {acts : List TopicAct} {s t : TopicServer}
    (hrun : exec (topicStep json) {} acts = some s) {conn fresh : Nat} {env : TopicEnv}
    {msg : BaseMessage JsonValue} {name other : Bytes}
    (hop : TopicRequest.optype msg.body = .ok (.named .SUBSCRIBE))
    (hname : TopicRequest.topicKey json msg.body = .ok name) (hne : other ≠ name)
    (hs : topicStep json s (.ontopicRequest conn fresh env msg) = some t) :
    (conn ∉ s.manager.roster.members other → s.manager.SameRecipients t.manager other) ∧
    (s.manager.topics name = none → s.manager.SameRecipients t.manager other) ∧
    ((s.manager.topics name).isSome = true → ∃ priority tags,
      TopicRequest.priority msg.body = .ok priority ∧ TopicRequest.tags msg.body = .ok tags ∧
      ∀ env accessible, t.manager.recipients env other accessible =
        (Topic.candidates accessible ((s.manager.subscribersOf env other).map
          (Subscribe.withAttributes conn priority tags))).map (·.conn)) := by
  have hlinked := linked_of_exec hrun
  simp only [topicStep] at hs
  split at hs
  · rename_i hready
    simp only [Bool.and_eq_true, Option.isNone_iff_eq_none] at hready
    split at hs
    · rename_i manager sent hrequest
      cases hs
      simp only [TopicManager.ontopicRequest, hop, hname, ok_bind] at hrequest
      obtain ⟨⟨ret, u⟩, hsub, hret⟩ := bind_eq_ok.mp hrequest
      simp only [pure_eq_ok, Prod.mk.injEq] at hret
      obtain ⟨rfl, -⟩ := hret
      cases htopic : s.manager.topics name with
      | none =>
        simp only [TopicManager.topicSubscribe, htopic, Except.ok.injEq, Prod.mk.injEq] at hsub
        obtain ⟨-, rfl⟩ := hsub
        have hsame := @TopicManager.SameRecipients.of_subscribersOf s.manager s.manager other
          (fun _ => rfl)
        exact ⟨fun _ => hsame, fun _ => hsame, fun h => (by cases h)⟩
      | some topic =>
        obtain ⟨priority, tags, hpriority, htags, rfl⟩ := topicSubscribe_reads htopic hsub
        have hothers : ∀ env, u.subscribersOf env other =
            (s.manager.subscribersOf env other).map
              (Subscribe.withAttributes conn priority tags) := fun env =>
          topicSubscribe_subscribersOf hlinked hready.2 hne hpriority htags hsub
        refine ⟨fun hout => ?_, fun h => (by cases h),
          fun _ => ⟨priority, tags, hpriority, htags, ?_⟩⟩
        · exact .of_subscribersOf fun env => by rw [hothers env, map_withAttributes hout]
        · intro env accessible
          simp only [TopicManager.recipients, hothers env]
    · cases hs
  · cases hs

def attributed (optype : TopicOpType) (name : Bytes) (priority : Int64) :
    BaseMessage JsonValue where
  msgType := .named .REQ_TOPIC
  body := .object [(KEY_TOPIC_KEY, .string name), (KEY_OPTYPE, .int optype.code.toInt64),
    (KEY_TOPIC_PRIORITY, .int priority)]

/-- Two connections subscribe to topic `t`, the first with a higher priority. -/
def twoSubscribers : List TopicAct :=
  [.onConnection 1, .onConnection 2, .ontopicRequest 1 5 inOrder (attributed .CREATE (str "t") 0),
    .ontopicRequest 1 5 inOrder (attributed .CREATE (str "u") 0),
    .ontopicRequest 1 5 inOrder (attributed .SUBSCRIBE (str "t") 1),
    .ontopicRequest 2 6 inOrder (attributed .SUBSCRIBE (str "t") 0)]

/-- The second connection subscribes to topic `u` with a higher priority still. -/
theorem twoSubscribers_recipients :
    ((exec (topicStep .unused) {} twoSubscribers).bind fun s =>
      (topicStep .unused s
        (.ontopicRequest 2 7 inOrder (attributed .SUBSCRIBE (str "u") 5))).map fun t =>
          (s.manager.recipients inOrder (str "t") [], t.manager.recipients inOrder (str "t") [])) =
      some ([1], [2]) := by decide +kernel

theorem subscribe_changes_recipients :
    ¬ ∀ (json : Jsoncpp) (acts : List TopicAct) (s t : TopicServer) (conn fresh : Nat)
      (env : TopicEnv) (msg : BaseMessage JsonValue) (name other : Bytes),
      exec (topicStep json) {} acts = some s →
      TopicRequest.optype msg.body = .ok (.named .SUBSCRIBE) →
      TopicRequest.topicKey json msg.body = .ok name → other ≠ name →
      topicStep json s (.ontopicRequest conn fresh env msg) = some t →
        s.manager.SameRecipients t.manager other := by
  intro h
  obtain ⟨s, hrun, hs⟩ := Option.bind_eq_some_iff.mp twoSubscribers_recipients
  obtain ⟨t, ht, heq⟩ := Option.map_eq_some_iff.mp hs
  simp only [Prod.mk.injEq] at heq
  have hsame := h .unused _ s t 2 7 inOrder _ (str "u") (str "t") hrun rfl rfl (by decide) ht
    inOrder [] 1
  rw [heq.1, heq.2] at hsame
  simp at hsame

theorem subscribe_shares_attributes_raised : ∃ s t : TopicServer,
    exec (topicStep .unused) {} twoSubscribers = some s ∧
    topicStep .unused s
      (.ontopicRequest 2 7 inOrder (attributed .SUBSCRIBE (str "u") 5)) = some t ∧
    ∀ env accessible, t.manager.recipients env (str "t") accessible =
      (Topic.candidates accessible ((s.manager.subscribersOf env (str "t")).map
        (Subscribe.withAttributes 2 5 []))).map (·.conn) := by
  obtain ⟨s, hrun, hs⟩ := Option.bind_eq_some_iff.mp twoSubscribers_recipients
  obtain ⟨t, ht, -⟩ := Option.map_eq_some_iff.mp hs
  have hlive : (s.manager.topics (str "u")).isSome = true := by
    have hlive : (exec (topicStep .unused) {} twoSubscribers).map
        (fun s => (s.manager.topics (str "u")).isSome) = some true := by decide +kernel
    rw [hrun] at hlive
    exact Option.some.inj hlive
  obtain ⟨-, -, hshared⟩ :=
    subscribe_shares_attributes hrun rfl rfl (by decide : str "t" ≠ str "u") ht
  obtain ⟨priority, tags, hpriority, htags, hall⟩ := hshared hlive
  cases hpriority
  cases htags
  exact ⟨s, t, hrun, ht, hall⟩

end LyqtRpc
