import LyqtRpc.TopicDispatch
import LyqtRpc.JsonMessage
import Mathlib.Logic.Function.Basic

/-!
`TopicManager` of `rpc_topic.hpp`: the topics with their subscribers, the
subscribers with their topics, and the subscriber of each connection.
-/

set_option autoImplicit false

namespace LyqtRpc

structure Subscriber extends Subscribe where
  topics : List Bytes := []
  deriving DecidableEq, Repr

namespace Subscriber

def addTopic (x : Subscriber) (topicname : Bytes) : Subscriber :=
  { x with topics := x.topics.insert topicname }

def removeTopic (x : Subscriber) (topicname : Bytes) : Subscriber :=
  { x with topics := x.topics.filter (· ≠ topicname) }

theorem removeTopic_removeTopic (x : Subscriber) (name : Bytes) :
    (x.removeTopic name).removeTopic name = x.removeTopic name := by
  simp [removeTopic]

end Subscriber

/-- A `Topic` of the manager: its subscribers are known by their addresses. -/
structure TopicObject where
  topicName : Bytes
  subscribes : List Nat := []
  rrCursor : Nat := 0
  deriving DecidableEq, Repr

namespace TopicObject

def addSubscribe (t : TopicObject) (sub : Nat) : TopicObject :=
  { t with subscribes := t.subscribes.insert sub }

def delSubscribe (t : TopicObject) (sub : Nat) : TopicObject :=
  { t with subscribes := t.subscribes.filter (· ≠ sub) }

@[simp] theorem mem_addSubscribe {t : TopicObject} {sub p : Nat} :
    p ∈ (t.addSubscribe sub).subscribes ↔ p = sub ∨ p ∈ t.subscribes := List.mem_insert_iff

@[simp] theorem mem_delSubscribe {t : TopicObject} {sub p : Nat} :
    p ∈ (t.delSubscribe sub).subscribes ↔ p ∈ t.subscribes ∧ p ≠ sub := by
  simp [delSubscribe]

theorem delSubscribe_delSubscribe (t : TopicObject) (sub : Nat) :
    (t.delSubscribe sub).delSubscribe sub = t.delSubscribe sub := by
  simp [delSubscribe]

end TopicObject

/-- In addition, one order in which a set of subscribers is iterated. -/
structure TopicEnv extends DispatchEnv where
  iterate : List Nat → List Nat
  iterate_perm : ∀ subs, (iterate subs).Perm subs

inductive TopicSend where
  | publish (conn : Nat) (msg : BaseMessage JsonValue)
  /-- A send through an index past the end. -/
  | pastEnd
  | response (conn : Nat) (rid : Bytes) (rcode : RespCode)

structure TopicManager where
  /-- Every `Subscribe` made so far. -/
  objects : Nat → Option Subscriber := fun _ => none
  topics : Bytes → Option TopicObject := fun _ => none
  subscribes : Nat → Option Nat := fun _ => none
  /-- The cursor that all topics share. -/
  priCursor : Nat := 0

namespace TopicManager

def modifySubscriber (s : TopicManager) (sub : Nat) (f : Subscriber → Subscriber) :
    TopicManager :=
  { s with objects := Function.update s.objects sub ((s.objects sub).map f) }

def modifyTopic (s : TopicManager) (name : Bytes) (f : TopicObject → TopicObject) :
    TopicManager :=
  { s with topics := Function.update s.topics name ((s.topics name).map f) }

def topicCreate (s : TopicManager) (name : Bytes) : TopicManager :=
  match s.topics name with
  | some _ => s
  | none => { s with topics := Function.update s.topics name (some { topicName := name }) }

def topicRemove (s : TopicManager) (name : Bytes) : TopicManager :=
  match s.topics name with
  | none => s
  | some t =>
    t.subscribes.foldl (fun s sub => s.modifySubscriber sub (·.removeTopic name))
      { s with topics := Function.update s.topics name none }

/-- The subscriber of a connection, made at `fresh` where it has none. -/
def subscriber (s : TopicManager) (conn fresh : Nat) : Nat × TopicManager :=
  match s.subscribes conn with
  | some sub => (sub, s)
  | none =>
    (fresh, { s with
      objects := Function.update s.objects fresh (some { conn })
      subscribes := Function.update s.subscribes conn (some fresh) })

def topicSubscribe (s : TopicManager) (conn fresh : Nat) (name : Bytes) (data : JsonValue) :
    Except CppException (Bool × TopicManager) :=
  match s.topics name with
  | none => .ok (false, s)
  | some _ => do
    let (sub, s) := s.subscriber conn fresh
    let priority ← TopicRequest.priority data
    let tags ← TopicRequest.tags data
    let s := s.modifySubscriber sub (fun x => { x with priority, tags })
    let s := s.modifyTopic name (·.addSubscribe sub)
    pure (true, s.modifySubscriber sub (·.addTopic name))

/-- `delSubscribe` of a topic that is not there does nothing. -/
def topicancelSubscribe (s : TopicManager) (conn : Nat) (name : Bytes) : TopicManager :=
  match s.subscribes conn with
  | none => s
  | some sub => (s.modifySubscriber sub (·.removeTopic name)).modifyTopic name (·.delSubscribe sub)

/-- `copy_sub` -/
def copySub (s : TopicManager) (env : TopicEnv) (t : TopicObject) : List Subscribe :=
  (env.iterate t.subscribes).filterMap (fun sub => (s.objects sub).map (·.toSubscribe))

/-- What the strategy reads of the request; nothing where there is nobody to send to. -/
def readPublish (json : Jsoncpp) (data : JsonValue) (copySub : List Subscribe) :
    Except CppException TopicPublish := do
  let forwardStrategy ← TopicRequest.forwardStrategy data
  if copySub = [] then pure { forwardStrategy }
  else
    match forwardStrategy with
    | .named .FANOUT =>
      let fanoutLimit ← TopicRequest.fanoutLimit data
      pure { forwardStrategy, fanoutLimit }
    | .named .SOURCE_HASH =>
      let shardKey ← TopicRequest.shardKey json data
      pure { forwardStrategy, shardKey }
    | .named .PRIORITY =>
      let tags ← TopicRequest.tags data
      pure { forwardStrategy, tags }
    | .named .REDUNDANT =>
      let redundantCount ← TopicRequest.redundantCount data
      pure { forwardStrategy, redundantCount }
    | .named .BROADCAST | .named .ROUND_ROBIN | .unnamed _ _ => pure { forwardStrategy }

def send (msg : BaseMessage JsonValue) : Option Subscribe → TopicSend
  | some sub => .publish sub.conn msg
  | none => .pastEnd

def topicPublish (json : Jsoncpp) (env : TopicEnv) (s : TopicManager) (name : Bytes)
    (msg : BaseMessage JsonValue) : Except CppException (Bool × TopicManager × List TopicSend) :=
  match s.topics name with
  | none => .ok (false, s, [])
  | some t => do
    let topic : Topic :=
      { topicName := t.topicName, subscribes := s.copySub env t, rrCursor := t.rrCursor }
    let d := topic.pushMessage env.toDispatchEnv (← readPublish json msg.body topic.subscribes)
      s.priCursor
    pure (true,
      { s.modifyTopic name (fun t => { t with rrCursor := d.topic.rrCursor }) with
        priCursor := d.priCursor },
      d.sent.map (send msg))

def ontopicRequest (json : Jsoncpp) (env : TopicEnv) (conn fresh : Nat)
    (msg : BaseMessage JsonValue) (s : TopicManager) :
    Except CppException (TopicManager × List TopicSend) := do
  match ← TopicRequest.optype msg.body with
  | .named .CREATE =>
    let name ← TopicRequest.topicKey json msg.body
    pure (s.topicCreate name, [.response conn msg.rid .SUCCESS])
  | .named .REMOVE =>
    let name ← TopicRequest.topicKey json msg.body
    pure (s.topicRemove name, [.response conn msg.rid .SUCCESS])
  | .named .SUBSCRIBE =>
    let name ← TopicRequest.topicKey json msg.body
    let (ret, s) ← s.topicSubscribe conn fresh name msg.body
    pure (s, [.response conn msg.rid (if ret then .SUCCESS else .TOPIC_NOT_FOUND)])
  | .named .UNSUBSCRIBE =>
    let name ← TopicRequest.topicKey json msg.body
    pure (s.topicancelSubscribe conn name, [.response conn msg.rid .SUCCESS])
  | .named .PUBLISH =>
    let name ← TopicRequest.topicKey json msg.body
    let (ret, s, sent) ← topicPublish json env s name msg
    pure (s, sent ++ [.response conn msg.rid (if ret then .SUCCESS else .TOPIC_NOT_FOUND)])
  | .unnamed _ _ => pure (s, [.response conn msg.rid .INVALID_OPTYPE])

def onconnShoutdown (s : TopicManager) (conn : Nat) : TopicManager :=
  match s.subscribes conn with
  | none => s
  | some sub =>
    let names := ((s.objects sub).map (·.topics)).getD []
    (names.filter (fun name => (s.topics name).isSome)).foldl
      (fun s name => s.modifyTopic name (·.delSubscribe sub))
      { s with subscribes := Function.update s.subscribes conn none }

theorem modifySubscriber_eq (s : TopicManager) (sub : Nat) (f : Subscriber → Subscriber) :
    s.modifySubscriber sub f =
      { s with objects p := if p = sub then (s.objects p).map f else s.objects p } := by
  simp only [modifySubscriber]
  congr 1
  funext p
  rw [Function.update_apply]
  split
  · rename_i hp
    rw [hp]
  · rfl

theorem modifyTopic_eq (s : TopicManager) (name : Bytes) (f : TopicObject → TopicObject) :
    s.modifyTopic name f =
      { s with topics n := if n = name then (s.topics n).map f else s.topics n } := by
  simp only [modifyTopic]
  congr 1
  funext n
  rw [Function.update_apply]
  split
  · rename_i hn
    rw [hn]
  · rfl

/-- What a topic was before an update of some topics. -/
theorem topic_of_modify {c : Prop} [Decidable c] {o : Option TopicObject}
    {f : TopicObject → TopicObject} {t : TopicObject}
    (h : (if c then o.map f else o) = some t) : ∃ t', o = some t' ∧ t = if c then f t' else t' := by
  by_cases hc : c
  · rw [if_pos hc] at h
    obtain ⟨t', ht', rfl⟩ := Option.map_eq_some_iff.mp h
    exact ⟨t', ht', (if_pos hc).symm⟩
  · rw [if_neg hc] at h
    exact ⟨t, h, (if_neg hc).symm⟩

theorem foldl_modifySubscriber {f : Subscriber → Subscriber} (hf : ∀ x, f (f x) = f x)
    (subs : List Nat) (s : TopicManager) :
    subs.foldl (fun s sub => s.modifySubscriber sub f) s =
      { s with objects p := if p ∈ subs then (s.objects p).map f else s.objects p } := by
  have hff : f ∘ f = f := funext hf
  induction subs generalizing s with
  | nil => simp
  | cons sub subs ih =>
    rw [List.foldl_cons, ih, modifySubscriber_eq]
    congr 1
    funext p
    by_cases hp : p = sub
    · simp [hp, hff]
    · simp [hp]

theorem foldl_modifyTopic {f : TopicObject → TopicObject} (hf : ∀ t, f (f t) = f t)
    (names : List Bytes) (s : TopicManager) :
    names.foldl (fun s name => s.modifyTopic name f) s =
      { s with topics n := if n ∈ names then (s.topics n).map f else s.topics n } := by
  have hff : f ∘ f = f := funext hf
  induction names generalizing s with
  | nil => simp
  | cons name names ih =>
    rw [List.foldl_cons, ih, modifyTopic_eq]
    congr 1
    funext n
    by_cases hn : n = name
    · simp [hn, hff]
    · simp [hn]

/-- What a removal does: the topic is gone, and its subscribers do not name it. -/
theorem topicRemove_eq {s : TopicManager} {name : Bytes} {t : TopicObject}
    (ht : s.topics name = some t) :
    s.topicRemove name =
      { s with
        topics := Function.update s.topics name none
        objects p := if p ∈ t.subscribes then (s.objects p).map (·.removeTopic name)
          else s.objects p } := by
  simp only [topicRemove, ht]
  exact foldl_modifySubscriber (fun x => x.removeTopic_removeTopic name) _ _

/-- What a close does: the topics the subscriber names lose it, and its entry is gone. -/
theorem onconnShoutdown_eq {s : TopicManager} {conn sub : Nat} {x : Subscriber}
    (hsub : s.subscribes conn = some sub) (hx : s.objects sub = some x) :
    s.onconnShoutdown conn =
      { s with
        subscribes := Function.update s.subscribes conn none
        topics n := if n ∈ x.topics then (s.topics n).map (·.delSubscribe sub)
          else s.topics n } := by
  simp only [onconnShoutdown, hsub, hx]
  rw [foldl_modifyTopic (fun t => t.delSubscribe_delSubscribe sub)]
  simp only [mk.injEq, and_true, true_and]
  funext n
  cases ht : s.topics n <;> by_cases hn : n ∈ x.topics <;> simp [ht, hn]

end TopicManager

end LyqtRpc
