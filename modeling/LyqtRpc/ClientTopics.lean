import LyqtRpc.JsonMessage
import LyqtRpc.Lib.AssocTable
import LyqtRpc.Lib.StepRun

/-!
The client's `TopicManager`: the callbacks of its topics through calls of
`subscribeTopic` and `cancelTopic`, with pushes from the IO thread in between. `γ` is
the type of the functions that a `SubCallback` may hold.
-/

set_option autoImplicit false

namespace LyqtRpc

open StepRun

/-- What `Requestor::send` leaves for `commonRequest`. -/
inductive TopicReply where
  | sendFailed
  | topicResponse (data : JsonValue)
  /-- A message of another class. -/
  | other

def commonRequest : TopicReply → Except CppException Bool
  | .sendFailed | .other => pure false
  | .topicResponse data => do
    match ← JsonResponse.rcode data with
    | .named .SUCCESS => pure true
    | _ => pure false

/-- `_topic_cb`; a `SubCallback` may be empty. -/
abbrev TopicCallbacks (γ : Type) := AList (fun _ : Bytes => Option γ)

/-- The call that the user's thread is in. -/
inductive TopicCall (γ : Type) where
  | none
  /-- `before` are the callbacks when it was called. -/
  | subscribeTopic (topic_name : Bytes) (cb : Option γ) (before : TopicCallbacks γ)
  | cancelTopic (topic_name : Bytes)

structure ClientTopics (γ : Type) where
  topic_cb : TopicCallbacks γ := ∅
  call : TopicCall γ := .none
  /-- Cancelled with success, and not subscribed with success since. -/
  cancelled : Bytes → Bool := fun _ => false
  /-- It had a callback then. -/
  kept : Bytes → Bool := fun _ => false
  /-- The subscription under way is to a cancelled topic, and its callback was invoked. -/
  early : Bool := false

inductive ClientTopicAct (γ : Type) where
  | subscribeTopic (topic_name : Bytes) (cb : Option γ)
  | cancelTopic (topic_name : Bytes)
  | reply (reply : TopicReply)
  | push (data : JsonValue)

section Client
variable {γ : Type}

def getSubscribe (topic_cb : TopicCallbacks γ) (topic_name : Bytes) : Option γ :=
  (topic_cb.lookup topic_name).getD none

/-- The callback that is invoked, and what with. -/
def onTopicPublish (json : Jsoncpp) (topic_cb : TopicCallbacks γ) (data : JsonValue) :
    Except CppException (Option (γ × Bytes × Bytes)) := do
  match ← TopicRequest.optype data with
  | .named .PUBLISH =>
    let topic_name ← TopicRequest.topicKey json data
    let topic_msg ← TopicRequest.topicMsg json data
    pure ((getSubscribe topic_cb topic_name).map (fun cb => (cb, topic_name, topic_msg)))
  | _ => pure none

namespace ClientTopics

/-- The user's thread is in `subscribeTopic` for the topic. -/
def subscribing (s : ClientTopics γ) (topic_name : Bytes) : Bool :=
  match s.call with
  | .subscribeTopic name _ _ => name = topic_name
  | _ => false

/-- The topic whose callback a push invokes. -/
def invoked (json : Jsoncpp) (s : ClientTopics γ) (data : JsonValue) : Option Bytes :=
  match onTopicPublish json s.topic_cb data with
  | .ok (some (_, topic_name, _)) => some topic_name
  | _ => none

end ClientTopics

def clientTopicStep (json : Jsoncpp) (s : ClientTopics γ) :
    ClientTopicAct γ → Option (ClientTopics γ)
  | .subscribeTopic topic_name cb =>
    match s.call with
    | .none =>
      some
        { s with
          topic_cb := s.topic_cb.insert topic_name cb
          call := .subscribeTopic topic_name cb s.topic_cb
          early := false }
    | _ => none
  | .cancelTopic topic_name =>
    match s.call with
    | .none => some { s with call := .cancelTopic topic_name }
    | _ => none
  | .reply reply =>
    match s.call, commonRequest reply with
    | .none, _ => none
    | .subscribeTopic topic_name _ _, .ok true =>
      some
        { s with
          call := .none
          cancelled := fun name => if name = topic_name then false else s.cancelled name
          kept := fun name => if name = topic_name then false else s.kept name }
    | .subscribeTopic topic_name _ _, .ok false =>
      some { s with call := .none, topic_cb := s.topic_cb.erase topic_name }
    | .cancelTopic topic_name, .ok true =>
      some
        { s with
          call := .none
          cancelled := fun name => if name = topic_name then true else s.cancelled name
          kept := fun name =>
            if name = topic_name then (getSubscribe s.topic_cb name).isSome else s.kept name }
    | _, _ => some { s with call := .none }
  | .push data =>
    some { s with
      early := s.early || (s.invoked json data).any fun topic_name =>
        s.subscribing topic_name && s.cancelled topic_name }

/-- What a step may do to the callbacks. A push that comes while a subscription to its
topic is under way may invoke the new callback if the subscription succeeds. -/
def FollowsAnswers (json : Jsoncpp) (s : ClientTopics γ) (a : ClientTopicAct γ)
    (t : ClientTopics γ) : Prop :=
  match a with
  | .push data => ∀ topic_name, s.invoked json data = some topic_name →
      s.cancelled topic_name = true → s.subscribing topic_name = true
  | .reply reply =>
    match s.call with
    | .subscribeTopic topic_name cb before =>
      if commonRequest reply = .ok true then
        ∀ name, getSubscribe t.topic_cb name =
          if name = topic_name then cb else getSubscribe before name
      else
        (∀ name, getSubscribe t.topic_cb name = getSubscribe before name) ∧ s.early = false
    | _ => True
  | _ => True

/-- The push can be read, and is for the topic. -/
def IsPushTo (json : Jsoncpp) (data : JsonValue) (topic_name : Bytes) : Prop :=
  TopicRequest.optype data = .ok (.named .PUBLISH) ∧
    TopicRequest.topicKey json data = .ok topic_name ∧ Returns (TopicRequest.topicMsg json data)

/-- No push comes for a topic that had a callback when it was cancelled, and none for a
cancelled one while a subscription to it fails; a subscription fails only where the
topic had no callback, or the same one if it fails by an exception. -/
def Undoable (json : Jsoncpp) (s : ClientTopics γ) : ClientTopicAct γ → Prop
  | .push data => ∀ topic_name, IsPushTo json data topic_name →
      s.kept topic_name = true → s.subscribing topic_name = true
  | .reply reply =>
    match s.call with
    | .subscribeTopic topic_name cb before =>
      match commonRequest reply with
      | .ok true => True
      | .ok false => getSubscribe before topic_name = none ∧ s.early = false
      | .error _ => getSubscribe before topic_name = cb ∧ s.early = false
    | _ => True
  | _ => True

theorem getSubscribe_insert (m : TopicCallbacks γ) (topic_name name : Bytes) (cb : Option γ) :
    getSubscribe (m.insert topic_name cb) name =
      if name = topic_name then cb else getSubscribe m name := by
  unfold getSubscribe
  rw [AssocTable.lookup_insert_ite]
  split <;> rfl

theorem getSubscribe_erase (m : TopicCallbacks γ) (topic_name name : Bytes) :
    getSubscribe (m.erase topic_name) name =
      if name = topic_name then none else getSubscribe m name := by
  unfold getSubscribe
  rw [AssocTable.lookup_erase_ite]
  split <;> rfl

variable {json : Jsoncpp} {s t : ClientTopics γ} {a : ClientTopicAct γ}

theorem invoked_eq_some {data : JsonValue} {topic_name : Bytes} :
    s.invoked json data = some topic_name ↔
      IsPushTo json data topic_name ∧ (getSubscribe s.topic_cb topic_name).isSome = true := by
  unfold ClientTopics.invoked onTopicPublish IsPushTo
  cases hoptype : TopicRequest.optype data with
  | error e => simp [bind, Except.bind]
  | ok optype =>
    rw [ok_bind]
    by_cases hpublish : optype = .named .PUBLISH
    · subst hpublish
      cases hkey : TopicRequest.topicKey json data with
      | error e => simp [bind, Except.bind]
      | ok name =>
        cases hmsg : TopicRequest.topicMsg json data with
        | error e => simp [bind, Except.bind]
        | ok msg =>
          simp only [ok_bind, pure, Except.pure, returns_ok, and_true, true_and, Except.ok.injEq]
          cases hcb : getSubscribe s.topic_cb name with
          | none =>
            simp only [Option.map_none, reduceCtorEq, false_iff, not_and]
            intro heq
            rw [← heq, hcb]
            simp
          | some cb =>
            simp only [Option.map_some, Option.some.injEq]
            constructor
            · intro heq
              rw [← heq, hcb]
              exact ⟨rfl, rfl⟩
            · intro h
              exact h.1
    · simp [pure, Except.pure, hpublish]

/-- The callbacks that no call is about to change. -/
def ClientTopics.settled (s : ClientTopics γ) : TopicCallbacks γ :=
  match s.call with
  | .subscribeTopic _ _ before => before
  | _ => s.topic_cb

structure ClientInv (s : ClientTopics γ) : Prop where
  installed : ∀ topic_name cb before, s.call = .subscribeTopic topic_name cb before →
    s.topic_cb = before.insert topic_name cb
  kept : ∀ topic_name, s.kept topic_name = true ↔
    s.cancelled topic_name = true ∧ (getSubscribe s.settled topic_name).isSome = true

theorem clientInv_init (topic_cb : TopicCallbacks γ) :
    ClientInv ({ topic_cb } : ClientTopics γ) :=
  ⟨nofun, by simp⟩

/-- Only the topic of the subscription under way has another callback. -/
theorem ClientInv.getSubscribe_settled (h : ClientInv s) {topic_name : Bytes}
    (hother : s.subscribing topic_name = false) :
    getSubscribe s.topic_cb topic_name = getSubscribe s.settled topic_name := by
  cases hcall : s.call with
  | none => simp [ClientTopics.settled, hcall]
  | cancelTopic name => simp [ClientTopics.settled, hcall]
  | subscribeTopic name cb before =>
    have hne : topic_name ≠ name := by
      intro heq
      simp [ClientTopics.subscribing, hcall, heq] at hother
    rw [h.installed name cb before hcall, getSubscribe_insert, if_neg hne]
    simp [ClientTopics.settled, hcall]

theorem ClientInv.push_iff (h : ClientInv s) (data : JsonValue) :
    (∀ topic_name, s.invoked json data = some topic_name → s.cancelled topic_name = true →
      s.subscribing topic_name = true) ↔
    ∀ topic_name, IsPushTo json data topic_name → s.kept topic_name = true →
      s.subscribing topic_name = true := by
  refine forall_congr' fun topic_name => ?_
  rw [invoked_eq_some, h.kept]
  cases hsub : s.subscribing topic_name with
  | true => simp
  | false =>
    rw [h.getSubscribe_settled hsub]
    constructor
    · intro hlaw hpush hkept
      exact hlaw ⟨hpush, hkept.2⟩ hkept.1
    · intro hfits hpush hcancelled
      exact hfits hpush.1 ⟨hcancelled, hpush.2⟩

/-- What the end of a subscription has to leave is left exactly where there is nothing that
was overwritten. -/
theorem ClientInv.reply_iff (h : ClientInv s) {reply : TopicReply}
    (ht : clientTopicStep json s (.reply reply) = some t) :
    FollowsAnswers json s (.reply reply) t ↔ Undoable json s (.reply reply) := by
  cases hcall : s.call with
  | none => simp [FollowsAnswers, Undoable, hcall]
  | cancelTopic topic_name => simp [FollowsAnswers, Undoable, hcall]
  | subscribeTopic topic_name cb before =>
    have hinstalled := h.installed topic_name cb before hcall
    simp only [FollowsAnswers, Undoable, hcall]
    simp only [clientTopicStep, hcall] at ht
    -- one name decides, since the others are as they were
    have hrestored : ∀ found : Option γ,
        (∀ name, (if name = topic_name then found else getSubscribe before name) =
          getSubscribe before name) ↔ getSubscribe before topic_name = found := by
      intro found
      constructor
      · intro hall
        have hself := hall topic_name
        rw [if_pos rfl] at hself
        exact hself.symm
      · intro hfound name
        split
        · rename_i heq
          rw [heq, hfound]
        · rfl
    cases hreply : commonRequest reply with
    | error e =>
      rw [hreply] at ht
      cases ht
      simp only [reduceCtorEq, if_false, hinstalled, getSubscribe_insert, hrestored]
    | ok succeeded =>
      rw [hreply] at ht
      cases succeeded with
      | true =>
        cases ht
        simp [hinstalled, getSubscribe_insert]
      | false =>
        cases ht
        have herased : ∀ name, getSubscribe (s.topic_cb.erase topic_name) name =
            if name = topic_name then none else getSubscribe before name := by
          intro name
          rw [getSubscribe_erase, hinstalled, getSubscribe_insert]
          split <;> rfl
        simp only [Except.ok.injEq, Bool.false_eq_true, if_false, herased, hrestored]

/-- The thread goes on after every reply. -/
theorem reply_enabled (hcall : s.call ≠ .none) (reply : TopicReply) :
    ∃ t, clientTopicStep json s (.reply reply) = some t := by
  simp only [clientTopicStep]
  split
  · rename_i heq
    exact absurd heq hcall
  · exact ⟨_, rfl⟩
  · exact ⟨_, rfl⟩
  · exact ⟨_, rfl⟩
  · exact ⟨_, rfl⟩

theorem ClientInv.step_iff (h : ClientInv s) :
    (∀ t, clientTopicStep json s a = some t → FollowsAnswers json s a t) ↔
      Undoable json s a := by
  cases a with
  | subscribeTopic topic_name cb => exact iff_of_true (fun _ _ => trivial) trivial
  | cancelTopic topic_name => exact iff_of_true (fun _ _ => trivial) trivial
  | push data =>
    constructor
    · intro hlaw
      exact (h.push_iff data).mp (hlaw _ rfl)
    · intro hfits _ _
      exact (h.push_iff data).mpr hfits
  | reply reply =>
    by_cases hcall : s.call = .none
    · simp [clientTopicStep, Undoable, hcall]
    · obtain ⟨t, ht⟩ := @reply_enabled _ json s hcall reply
      constructor
      · intro hlaw
        exact (h.reply_iff ht).mp (hlaw t ht)
      · intro hfits u hu
        exact (h.reply_iff hu).mpr hfits

/-- A reply that leaves what it has to leave settles the callbacks. -/
theorem ClientInv.reply (h : ClientInv s) {reply : TopicReply}
    (hok : FollowsAnswers json s (.reply reply) t)
    (ht : clientTopicStep json s (.reply reply) = some t) : ClientInv t := by
  have hkept := h.kept
  cases hcall : s.call with
  | none => simp [clientTopicStep, hcall] at ht
  | cancelTopic topic_name =>
    simp only [ClientTopics.settled, hcall] at hkept
    simp only [clientTopicStep, hcall] at ht
    cases hreply : commonRequest reply with
    | error e =>
      rw [hreply] at ht
      cases ht
      exact ⟨nofun, hkept⟩
    | ok succeeded =>
      rw [hreply] at ht
      cases succeeded with
      | true =>
        cases ht
        refine ⟨nofun, fun other => ?_⟩
        simp only [ClientTopics.settled]
        split
        · simp
        · exact hkept other
      | false =>
        cases ht
        exact ⟨nofun, hkept⟩
  | subscribeTopic topic_name cb before =>
    simp only [ClientTopics.settled, hcall] at hkept
    simp only [FollowsAnswers, hcall] at hok
    simp only [clientTopicStep, hcall] at ht
    cases hreply : commonRequest reply with
    | error e =>
      rw [hreply] at ht hok
      cases ht
      rw [if_neg nofun] at hok
      refine ⟨nofun, fun name => ?_⟩
      rw [hkept, ClientTopics.settled, ← hok.1 name]
    | ok succeeded =>
      rw [hreply] at ht hok
      cases succeeded with
      | true =>
        cases ht
        rw [if_pos rfl] at hok
        refine ⟨nofun, fun name => ?_⟩
        simp only [ClientTopics.settled]
        split
        · simp
        · rename_i hne
          have hother := hok name
          rw [if_neg hne] at hother
          rw [hother]
          exact hkept name
      | false =>
        cases ht
        rw [if_neg nofun] at hok
        refine ⟨nofun, fun name => ?_⟩
        rw [hkept, ClientTopics.settled, ← hok.1 name]

theorem ClientInv.step (h : ClientInv s) (hok : FollowsAnswers json s a t)
    (ht : clientTopicStep json s a = some t) : ClientInv t := by
  cases a with
  | subscribeTopic topic_name cb =>
    cases hcall : s.call with
    | none =>
      simp only [clientTopicStep, hcall, Option.some.injEq] at ht
      subst ht
      refine ⟨fun _ _ _ heq => ?_, fun name => ?_⟩
      · cases heq
        rfl
      · have hkept := h.kept name
        simp only [ClientTopics.settled, hcall] at hkept
        exact hkept
    | _ => simp [clientTopicStep, hcall] at ht
  | cancelTopic topic_name =>
    cases hcall : s.call with
    | none =>
      simp only [clientTopicStep, hcall, Option.some.injEq] at ht
      subst ht
      have hkept := h.kept
      simp only [ClientTopics.settled, hcall] at hkept
      exact ⟨nofun, hkept⟩
    | _ => simp [clientTopicStep, hcall] at ht
  | reply reply => exact h.reply hok ht
  | push data =>
    cases ht
    exact ⟨h.installed, h.kept⟩

end Client

/-- From any callbacks, along any run: the callbacks follow the answers exactly if what is
undone overwrote nothing and no push comes for what was cancelled. -/
theorem client_topics_iff {γ : Type} (json : Jsoncpp) (topic_cb : TopicCallbacks γ)
    (acts : List (ClientTopicAct γ)) :
    Along (clientTopicStep json)
        (fun s a => ∀ t, clientTopicStep json s a = some t → FollowsAnswers json s a t)
        { topic_cb } acts ↔
      Along (clientTopicStep json) (Undoable json) { topic_cb } acts :=
  Along.congr_of ClientInv (fun _ _ t h hok ht => h.step (hok t ht) ht)
    (fun _ _ h => h.step_iff) (clientInv_init topic_cb)

/-- A second subscription to a topic is not answered, and takes the first one's callback
with it. -/
theorem subscribeTopic_loses_callback :
    ¬ ∀ (json : Jsoncpp) (topic_cb : TopicCallbacks Nat) (acts : List (ClientTopicAct Nat)),
      Along (clientTopicStep json)
        (fun s a => ∀ t, clientTopicStep json s a = some t → FollowsAnswers json s a t)
        { topic_cb } acts := by
  intro h
  let topic := str "t"
  let success : TopicReply := .topicResponse (JsonResponse.setRcode .null (.named .SUCCESS))
  let acts : List (ClientTopicAct Nat) :=
    [.subscribeTopic topic (some 1), .reply success, .subscribeTopic topic (some 2)]
  have halong := h .unused ∅ (acts ++ [.reply .sendFailed])
  obtain ⟨s, hrun⟩ : ∃ s, exec (clientTopicStep .unused) {} acts = some s := ⟨_, rfl⟩
  obtain ⟨before, hcall, hbefore⟩ : ∃ before, s.call = .subscribeTopic topic (some 2) before ∧
      getSubscribe before topic = some 1 := by
    cases hrun
    exact ⟨_, rfl, by decide +kernel⟩
  have hlaw := halong.last hrun
    { s with call := .none, topic_cb := s.topic_cb.erase topic }
    (by simp [clientTopicStep, hcall, commonRequest, pure, Except.pure])
  simp only [FollowsAnswers, hcall, commonRequest, pure_eq_ok, Bool.false_eq_true, if_false]
    at hlaw
  have hlost := hlaw.1 topic
  rw [getSubscribe_erase, if_pos rfl, hbefore] at hlost
  cases hlost

end LyqtRpc
