import LyqtRpc.Fields
import Mathlib.Data.List.Nodup
import Mathlib.Data.List.Perm.Subperm

/-!
`rpc_topic.hpp`: how `Topic::pushMessage` picks the subscribers of a topic that
a published message goes to.
-/

set_option autoImplicit false

namespace LyqtRpc

structure Subscribe where
  conn : Nat
  priority : Int32 := 0
  tags : List Bytes := []
  deriving DecidableEq, Repr

/-- `subscribes` in the order the set is iterated in. -/
structure Topic where
  topicName : Bytes := []
  subscribes : List Subscribe
  rrCursor : Nat := 0
  deriving DecidableEq, Repr

/-- What `dispatchMessage` reads of a `TopicRequest`. -/
structure TopicPublish where
  forwardStrategy : EnumValue TopicForwardStrategy
  fanoutLimit : Int32 := 0
  shardKey : Bytes := []
  tags : List Bytes := []
  redundantCount : Int32 := 0

/-- One outcome of `std::shuffle`, and `std::hash<std::string>`. -/
structure DispatchEnv where
  shuffle : List Subscribe → List Subscribe
  shuffle_perm : ∀ subs, (shuffle subs).Perm subs
  hash : Bytes → Nat

/-- The sends of one push, `none` for an index past the end, and the cursors it
leaves: the topic's, and the one all topics share. -/
structure Dispatch where
  sent : List (Option Subscribe)
  topic : Topic
  priCursor : Nat

namespace Topic

def broadcastSend (copySub : List Subscribe) : List (Option Subscribe) := copySub.map some

/-- `subs[0]`, ..., `subs[count - 1]`, unchecked. -/
def sendFirst (subs : List Subscribe) (count : Int32) : List (Option Subscribe) :=
  (List.range count.toInt.toNat).map (fun i => subs[i]?)

def roundRobinSend (t : Topic) (copySub : List Subscribe) : List (Option Subscribe) × Topic :=
  if copySub = [] then ([], t)
  else if t.subscribes = [] then ([], t)
  else
    let cursor := t.rrCursor % t.subscribes.length
    ([copySub[cursor % copySub.length]?],
      { t with rrCursor := (cursor + 1) % copySub.length })

/-- The broadcast does not return: the loop follows it. -/
def fanoutSend (env : DispatchEnv) (msg : TopicPublish) (copySub : List Subscribe) :
    List (Option Subscribe) :=
  if copySub = [] then []
  else
    (if msg.fanoutLimit ≤ 0 ∨ copySub.length ≤ msg.fanoutLimit.toInt.toNat then
      broadcastSend copySub else []) ++
    sendFirst (env.shuffle copySub) msg.fanoutLimit

def sourceHashSend (env : DispatchEnv) (msg : TopicPublish) (copySub : List Subscribe) :
    List (Option Subscribe) :=
  if copySub = [] then []
  else if msg.shardKey = [] then []
  else [copySub[env.hash msg.shardKey % copySub.length]?]

def matchTags (accessibleTags : List Bytes) (sub : Subscribe) : Bool :=
  if accessibleTags = [] then true else accessibleTags.all (fun tag => sub.tags.contains tag)

/-- One turn of the loop that collects the candidates of the highest priority. -/
def collect (accessibleTags : List Bytes) (best : Int32 × List Subscribe) (sub : Subscribe) :
    Int32 × List Subscribe :=
  if matchTags accessibleTags sub = false then best
  else if best.1 < sub.priority then (sub.priority, [sub])
  else if sub.priority = best.1 then (best.1, best.2 ++ [sub])
  else best

def candidates (accessibleTags : List Bytes) (copySub : List Subscribe) : List Subscribe :=
  (copySub.foldl (collect accessibleTags) (Int32.minValue, [])).2

def prioritySend (msg : TopicPublish) (priCursor : Nat) (copySub : List Subscribe) :
    List (Option Subscribe) × Nat :=
  if copySub = [] then ([], priCursor)
  else
    let best := candidates msg.tags copySub
    if best = [] then (broadcastSend copySub, priCursor)
    else ([best[priCursor % best.length]?], (priCursor + 1) % best.length)

def redundantSend (env : DispatchEnv) (msg : TopicPublish) (copySub : List Subscribe) :
    List (Option Subscribe) :=
  if copySub = [] then []
  else if msg.redundantCount ≤ 1 then broadcastSend copySub
  else
    let size := Int32.ofWord copySub.length
    sendFirst (env.shuffle copySub)
      (if size < msg.redundantCount then size else msg.redundantCount)

def dispatchMessage (env : DispatchEnv) (msg : TopicPublish) (priCursor : Nat) (t : Topic)
    (copySub : List Subscribe) : Dispatch :=
  match msg.forwardStrategy with
  | .named .ROUND_ROBIN =>
    let r := t.roundRobinSend copySub
    ⟨r.1, r.2, priCursor⟩
  | .named .FANOUT => ⟨fanoutSend env msg copySub, t, priCursor⟩
  | .named .SOURCE_HASH => ⟨sourceHashSend env msg copySub, t, priCursor⟩
  | .named .PRIORITY =>
    let r := prioritySend msg priCursor copySub
    ⟨r.1, t, r.2⟩
  | .named .REDUNDANT => ⟨redundantSend env msg copySub, t, priCursor⟩
  | .named .BROADCAST | .unnamed _ _ => ⟨broadcastSend copySub, t, priCursor⟩

def pushMessage (env : DispatchEnv) (msg : TopicPublish) (priCursor : Nat) (t : Topic) :
    Dispatch :=
  dispatchMessage env msg priCursor t t.subscribes

/-- Distinct subscribers out of `subs`, `k` of them, each sent to once. -/
def Reaches (subs : List Subscribe) (sent : List (Option Subscribe)) (k : Nat) : Prop :=
  ∃ rs : List Subscribe, sent = rs.map some ∧ rs.Nodup ∧ (∀ r ∈ rs, r ∈ subs) ∧ rs.length = k

/-- Carries the tags, and nobody who does has a higher priority. -/
def Best (tags : List Bytes) (subs : List Subscribe) (sub : Subscribe) : Prop :=
  sub ∈ subs ∧ matchTags tags sub = true ∧
    ∀ other ∈ subs, matchTags tags other = true → other.priority ≤ sub.priority

theorem reaches_broadcast {subs : List Subscribe} (hnodup : subs.Nodup) :
    Reaches subs (broadcastSend subs) subs.length :=
  ⟨subs, rfl, hnodup, fun _ h => h, rfl⟩

theorem reaches_one {subs : List Subscribe} {i : Nat} (h : i < subs.length) :
    Reaches subs [subs[i]?] 1 :=
  ⟨[subs[i]], by simp [h], List.nodup_singleton _, by simp, rfl⟩

/-- The first elements of a shuffled list, when there are as many. -/
theorem reaches_sendFirst {subs shuffled : List Subscribe} {count : Int32}
    (hnodup : subs.Nodup) (hperm : shuffled.Perm subs)
    (hcount : count.toInt.toNat ≤ subs.length) :
    Reaches subs (sendFirst shuffled count) count.toInt.toNat := by
  unfold sendFirst
  generalize count.toInt.toNat = k at *
  have hlen : k ≤ shuffled.length := by rwa [hperm.length_eq]
  refine ⟨shuffled.take k, ?_, ?_, ?_, by simp [hlen]⟩
  · apply List.ext_getElem
    · simp [hlen]
    · intro i h₁ h₂
      have hi : i < shuffled.length := by
        simp at h₁
        omega
      simp [hi]
  · exact (hperm.nodup_iff.mpr hnodup).sublist (List.take_sublist _ _)
  · intro r hr
    exact hperm.subset (List.mem_of_mem_take hr)

theorem mem_of_mem_sendFirst {subs : List Subscribe} {count : Int32} {sub : Subscribe}
    (h : some sub ∈ sendFirst subs count) : sub ∈ subs := by
  obtain ⟨i, _, hi⟩ := List.mem_map.mp h
  exact List.mem_of_getElem? hi

/-- What the collecting loop knows after some subscribers: its candidates are
the matching ones of its priority, and no matching one has a higher one. -/
structure Collected (tags : List Bytes) (seen : List Subscribe)
    (best : Int32 × List Subscribe) : Prop where
  mem : ∀ sub, sub ∈ best.2 ↔ sub ∈ seen ∧ matchTags tags sub = true ∧ sub.priority = best.1
  bound : ∀ sub ∈ seen, matchTags tags sub = true → sub.priority ≤ best.1
  attained : best.2 = [] → best.1 = Int32.minValue

theorem Collected.step {tags : List Bytes} {seen : List Subscribe}
    {best : Int32 × List Subscribe} (h : Collected tags seen best) (sub : Subscribe) :
    Collected tags (seen ++ [sub]) (collect tags best sub) := by
  obtain ⟨hmem, hbound, hattained⟩ := h
  unfold collect
  split
  · rename_i hno
    refine ⟨fun other => ?_, by grind, hattained⟩
    rw [hmem other]
    grind
  · rename_i hyes
    split
    · rename_i hlt
      refine ⟨fun other => ?_, by grind, by simp⟩
      simp only [List.mem_singleton]
      grind
    · split
      · refine ⟨fun other => ?_, by grind, by simp⟩
        simp only [List.mem_append, List.mem_singleton, hmem other]
        grind
      · refine ⟨fun other => ?_, by grind, hattained⟩
        rw [hmem other]
        grind

theorem Collected.fold {tags : List Bytes} {seen subs : List Subscribe}
    {best : Int32 × List Subscribe} (h : Collected tags seen best) :
    Collected tags (seen ++ subs) (subs.foldl (collect tags) best) := by
  induction subs generalizing seen best with
  | nil => simpa using h
  | cons sub subs ih =>
      have hrest := ih (h.step sub)
      rwa [List.append_assoc, List.singleton_append] at hrest

theorem candidates_collected (tags : List Bytes) (subs : List Subscribe) :
    ∃ priority, Collected tags subs (priority, candidates tags subs) := by
  have hnone : Collected tags [] (Int32.minValue, []) :=
    ⟨by simp, by simp, fun _ => rfl⟩
  have hall : Collected tags ([] ++ subs) (subs.foldl (collect tags) (Int32.minValue, [])) :=
    hnone.fold
  exact ⟨_, hall⟩

theorem mem_candidates {tags : List Bytes} {subs : List Subscribe} {sub : Subscribe}
    (h : sub ∈ candidates tags subs) : Best tags subs sub := by
  obtain ⟨priority, hmem, hbound, _⟩ := candidates_collected tags subs
  obtain ⟨hsub, hmatch, hprio⟩ := (hmem sub).mp h
  exact ⟨hsub, hmatch, fun other ho hm => hprio ▸ hbound other ho hm⟩

/-- No candidate means that nobody carries the tags. -/
theorem candidates_eq_nil {tags : List Bytes} {subs : List Subscribe}
    (h : candidates tags subs = []) : ∀ sub ∈ subs, matchTags tags sub = false := by
  obtain ⟨priority, hmem, hbound, hattained⟩ := candidates_collected tags subs
  intro sub hsub
  cases hmatch : matchTags tags sub with
  | false => rfl
  | true =>
      have hmin : priority = Int32.minValue := hattained h
      have hle := hbound sub hsub hmatch
      have heq : sub.priority = priority := by
        have hge := Int32.minValue_le sub.priority
        rw [hmin] at hle ⊢
        exact Int32.le_antisymm hle hge
      have hin := (hmem sub).mpr ⟨hsub, hmatch, heq⟩
      have hempty : (priority, candidates tags subs).2 = [] := h
      rw [hempty] at hin
      cases hin

theorem roundRobinSend_reaches {t : Topic} (hne : t.subscribes ≠ []) :
    Reaches t.subscribes (t.roundRobinSend t.subscribes).1 1 := by
  have hpos := List.length_pos_of_ne_nil hne
  simp only [roundRobinSend, if_neg hne]
  exact reaches_one (Nat.mod_lt _ hpos)

theorem sourceHashSend_reaches {env : DispatchEnv} {msg : TopicPublish} {subs : List Subscribe}
    (hne : subs ≠ []) :
    Reaches subs (sourceHashSend env msg subs) (if msg.shardKey = [] then 0 else 1) := by
  have hpos := List.length_pos_of_ne_nil hne
  simp only [sourceHashSend, if_neg hne]
  split
  · exact ⟨[], rfl, List.nodup_nil, by simp, rfl⟩
  · exact reaches_one (Nat.mod_lt _ hpos)

theorem int32_toNat_of_nonpos {k : Int32} (h : k ≤ 0) : k.toInt.toNat = 0 := by
  have hle : k.toInt ≤ 0 := Int32.le_iff_toInt_le.mp h
  omega

theorem fanoutSend_reaches {env : DispatchEnv} {msg : TopicPublish} {subs : List Subscribe}
    (hne : subs ≠ []) (hnodup : subs.Nodup)
    (hlimit : msg.fanoutLimit.toInt < subs.length) :
    Reaches subs (fanoutSend env msg subs)
      (if msg.fanoutLimit ≤ 0 then subs.length else msg.fanoutLimit.toInt.toNat) := by
  simp only [fanoutSend, if_neg hne]
  by_cases hle : msg.fanoutLimit ≤ 0
  · rw [if_pos (.inl hle), if_pos hle, sendFirst, int32_toNat_of_nonpos hle]
    simpa using reaches_broadcast hnodup
  · have hpos := List.length_pos_of_ne_nil hne
    have hlt : ¬ (msg.fanoutLimit ≤ 0 ∨ subs.length ≤ msg.fanoutLimit.toInt.toNat) := by
      rintro (hneg | hover)
      · exact hle hneg
      · omega
    rw [if_neg hlt, if_neg hle, List.nil_append]
    exact reaches_sendFirst hnodup (env.shuffle_perm subs) (by omega)

theorem sendFirst_overrun {subs : List Subscribe} {count : Int32}
    (h : subs.length ≤ count.toInt.toNat) :
    sendFirst subs count =
      subs.map some ++ List.replicate (count.toInt.toNat - subs.length) none := by
  unfold sendFirst
  generalize count.toInt.toNat = k at *
  apply List.ext_getElem
  · simp
    omega
  · intro i h₁ h₂
    simp only [List.getElem_map, List.getElem_range, List.getElem_append, List.length_map,
      List.getElem_replicate]
    split
    · rename_i hlt
      exact List.getElem?_eq_getElem hlt
    · rename_i hge
      exact List.getElem?_eq_none (Nat.le_of_not_lt hge)

/-- With a limit that is not below the number of subscribers the loop runs on
after the broadcast: everybody twice, then past the end. -/
theorem fanoutSend_overrun {env : DispatchEnv} {msg : TopicPublish} {subs : List Subscribe}
    (hne : subs ≠ []) (hlimit : subs.length ≤ msg.fanoutLimit.toInt.toNat) :
    fanoutSend env msg subs = subs.map some ++ ((env.shuffle subs).map some ++
      List.replicate (msg.fanoutLimit.toInt.toNat - subs.length) none) := by
  have hlen := (env.shuffle_perm subs).length_eq
  rw [fanoutSend, if_neg hne, if_pos (.inr hlimit), broadcastSend,
    sendFirst_overrun (by rwa [hlen]), hlen]

theorem redundantSend_reaches {env : DispatchEnv} {msg : TopicPublish} {subs : List Subscribe}
    (hne : subs ≠ []) (hnodup : subs.Nodup) (hsize : subs.length < 2 ^ 31) :
    Reaches subs (redundantSend env msg subs)
      (if msg.redundantCount ≤ 1 then subs.length
       else min msg.redundantCount.toInt.toNat subs.length) := by
  simp only [redundantSend, if_neg hne]
  split
  · exact reaches_broadcast hnodup
  · have hint := Int32.toInt_ofWord hsize
    have hperm := env.shuffle_perm subs
    split
    · rename_i hlt
      rw [Int32.lt_iff_toInt_lt, hint] at hlt
      have hr : Reaches subs (sendFirst (env.shuffle subs) (Int32.ofWord subs.length)) _ :=
        reaches_sendFirst hnodup hperm (by omega)
      have hmin : min msg.redundantCount.toInt.toNat subs.length =
          (Int32.ofWord subs.length).toInt.toNat := by omega
      rwa [hmin]
    · rename_i hge
      rw [Int32.lt_iff_toInt_lt, hint] at hge
      have hr : Reaches subs (sendFirst (env.shuffle subs) msg.redundantCount) _ :=
        reaches_sendFirst hnodup hperm (by omega)
      have hmin : min msg.redundantCount.toInt.toNat subs.length =
          msg.redundantCount.toInt.toNat := by omega
      rwa [hmin]

theorem prioritySend_best {msg : TopicPublish} {priCursor : Nat} {subs : List Subscribe}
    (h : candidates msg.tags subs ≠ []) :
    ∃ sub, (prioritySend msg priCursor subs).1 = [some sub] ∧ Best msg.tags subs sub := by
  have hne : subs ≠ [] := by
    intro hnil
    subst hnil
    exact h rfl
  have hlt := Nat.mod_lt priCursor (List.length_pos_of_ne_nil h)
  refine ⟨(candidates msg.tags subs)[priCursor % (candidates msg.tags subs).length], ?_,
    mem_candidates (List.getElem_mem hlt)⟩
  simp only [prioritySend, if_neg hne, if_neg h, List.getElem?_eq_getElem hlt]

/-- Whatever the strategy and its limits, nobody but a subscriber is sent to. -/
theorem mem_subscribes_of_sent {env : DispatchEnv} {msg : TopicPublish} {priCursor : Nat}
    {t : Topic} {sub : Subscribe} (h : some sub ∈ (pushMessage env msg priCursor t).sent) :
    sub ∈ t.subscribes := by
  have hbroadcast : some sub ∈ broadcastSend t.subscribes → sub ∈ t.subscribes := by
    simp [broadcastSend]
  have hat : ∀ {subs : List Subscribe} {i : Nat}, some sub ∈ [subs[i]?] → sub ∈ subs :=
    fun h => List.mem_of_getElem? (List.mem_singleton.mp h).symm
  have hfirst : ∀ {count}, some sub ∈ sendFirst (env.shuffle t.subscribes) count →
      sub ∈ t.subscribes :=
    fun h => (env.shuffle_perm _).subset (mem_of_mem_sendFirst h)
  simp only [pushMessage, dispatchMessage] at h
  split at h
  · simp only [roundRobinSend] at h
    split at h
    · cases h
    · exact hat h
  · simp only [fanoutSend] at h
    split at h
    · cases h
    · rcases List.mem_append.mp h with hall | hsome
      · split at hall
        · exact hbroadcast hall
        · cases hall
      · exact hfirst hsome
  · simp only [sourceHashSend] at h
    split at h
    · cases h
    · split at h
      · cases h
      · exact hat h
  · simp only [prioritySend] at h
    split at h
    · cases h
    · split at h
      · exact hbroadcast h
      · exact (mem_candidates (hat h)).1
  · simp only [redundantSend] at h
    split at h
    · cases h
    · split at h
      · exact hbroadcast h
      · exact hfirst h
  · exact hbroadcast h
  · exact hbroadcast h

/-- How many of its subscribers a message reaches. -/
def reachCount (msg : TopicPublish) (subs : List Subscribe) : Nat :=
  match msg.forwardStrategy with
  | .named .BROADCAST | .unnamed _ _ => subs.length
  | .named .ROUND_ROBIN => 1
  | .named .FANOUT =>
    if msg.fanoutLimit ≤ 0 then subs.length else msg.fanoutLimit.toInt.toNat
  | .named .SOURCE_HASH => if msg.shardKey = [] then 0 else 1
  | .named .PRIORITY => if subs.any (matchTags msg.tags) then 1 else subs.length
  | .named .REDUNDANT =>
    if msg.redundantCount ≤ 1 then subs.length
    else min msg.redundantCount.toInt.toNat subs.length

theorem prioritySend_reaches {msg : TopicPublish} {priCursor : Nat} {subs : List Subscribe}
    (hnodup : subs.Nodup) (hne : subs ≠ []) :
    Reaches subs (prioritySend msg priCursor subs).1
      (if subs.any (matchTags msg.tags) then 1 else subs.length) := by
  by_cases h : candidates msg.tags subs = []
  · have hnobody : subs.any (matchTags msg.tags) = false := by
      simpa using candidates_eq_nil h
    simp only [prioritySend, if_neg hne, if_pos h, hnobody]
    exact reaches_broadcast hnodup
  · have hone : ∃ sub, (prioritySend msg priCursor subs).1 = [some sub] ∧
        Best msg.tags subs sub := prioritySend_best h
    obtain ⟨sub, hsent, hbest⟩ := hone
    have hany : subs.any (matchTags msg.tags) = true :=
      List.any_eq_true.mpr ⟨sub, hbest.1, hbest.2.1⟩
    rw [hsent, if_pos hany]
    exact ⟨[sub], rfl, List.nodup_singleton _, by simpa using hbest.1, rfl⟩

theorem reachCount_eq_zero {msg : TopicPublish} {subs : List Subscribe} (hne : subs ≠ [])
    (h : reachCount msg subs = 0) :
    msg.forwardStrategy = .named .SOURCE_HASH ∧ msg.shardKey = [] := by
  have hpos := List.length_pos_of_ne_nil hne
  unfold reachCount at h
  split at h
  · omega
  · omega
  · cases h
  · split at h
    · omega
    · rename_i hlimit
      rw [Int32.le_iff_toInt_le] at hlimit
      have hzero : (0 : Int32).toInt = 0 := rfl
      omega
  · rename_i hs
    split at h
    · exact ⟨hs, by assumption⟩
    · cases h
  · split at h
    · cases h
    · omega
  · split at h
    · omega
    · rename_i hcount
      rw [Int32.le_iff_toInt_le] at hcount
      have hone : (1 : Int32).toInt = 1 := rfl
      omega

/-- The recipients of a push to a topic with subscribers: pairwise distinct,
each sent to once, as many as the strategy says. A fan-out limit has to be below
the number of subscribers, which for REDUNDANT has to fit an `int`. -/
theorem pushMessage_recipients (env : DispatchEnv) (msg : TopicPublish) (priCursor : Nat)
    (t : Topic) (hne : t.subscribes ≠ []) (hnodup : t.subscribes.Nodup)
    (hfanout : msg.forwardStrategy = .named .FANOUT →
      msg.fanoutLimit.toInt < t.subscribes.length)
    (hredundant : msg.forwardStrategy = .named .REDUNDANT → t.subscribes.length < 2 ^ 31) :
    Reaches t.subscribes (pushMessage env msg priCursor t).sent
      (reachCount msg t.subscribes) ∧
    (msg.forwardStrategy = .named .PRIORITY → t.subscribes.any (matchTags msg.tags) = true →
      ∃ sub, (pushMessage env msg priCursor t).sent = [some sub] ∧
        Best msg.tags t.subscribes sub) ∧
    ((pushMessage env msg priCursor t).sent = [] →
      msg.forwardStrategy = .named .SOURCE_HASH ∧ msg.shardKey = []) := by
  have hreach : Reaches t.subscribes (pushMessage env msg priCursor t).sent
      (reachCount msg t.subscribes) := by
    cases hs : msg.forwardStrategy with
    | unnamed c h =>
        simp only [pushMessage, dispatchMessage, reachCount, hs]
        exact reaches_broadcast hnodup
    | named strategy =>
        simp only [pushMessage, dispatchMessage, reachCount, hs]
        cases strategy with
        | BROADCAST => exact reaches_broadcast hnodup
        | ROUND_ROBIN => exact roundRobinSend_reaches hne
        | FANOUT => exact fanoutSend_reaches hne hnodup (hfanout hs)
        | SOURCE_HASH => exact sourceHashSend_reaches hne
        | PRIORITY => exact prioritySend_reaches hnodup hne
        | REDUNDANT => exact redundantSend_reaches hne hnodup (hredundant hs)
  refine ⟨hreach, fun hs hany => ?_, fun hnobody => ?_⟩
  · have hcand : candidates msg.tags t.subscribes ≠ [] := by
      intro hnil
      obtain ⟨sub, hsub, hmatch⟩ := List.any_eq_true.mp hany
      rw [candidates_eq_nil hnil sub hsub] at hmatch
      cases hmatch
    simp only [pushMessage, dispatchMessage, hs]
    exact prioritySend_best hcand
  · obtain ⟨rs, hsent, _, _, hcount⟩ := hreach
    rw [hnobody] at hsent
    have hnil : rs = [] := List.map_eq_nil_iff.mp hsent.symm
    subst hnil
    exact reachCount_eq_zero hne hcount.symm

/-- A shuffle that reverses, and a hash that counts. -/
def reversing : DispatchEnv where
  shuffle := List.reverse
  shuffle_perm := List.reverse_perm
  hash := List.length

def threeSubscribers : Topic where
  subscribes := [⟨1, 5, [str "a"]⟩, ⟨2, 7, [str "a"]⟩, ⟨3, 9, []⟩]

theorem pushMessage_recipients_fanout :
    Reaches threeSubscribers.subscribes
      (pushMessage reversing { forwardStrategy := .named .FANOUT, fanoutLimit := 2 } 0
        threeSubscribers).sent 2 :=
  (pushMessage_recipients reversing { forwardStrategy := .named .FANOUT, fanoutLimit := 2 } 0
    threeSubscribers (by decide) (by decide) (by decide) (by decide)).1

/-- A message with strategy SOURCE_HASH and no shard key is sent to nobody. -/
theorem pushMessage_reaches_nobody :
    ¬ ∀ (env : DispatchEnv) (msg : TopicPublish) (priCursor : Nat) (t : Topic),
      t.subscribes ≠ [] → t.subscribes.Nodup →
      msg.forwardStrategy = .named .SOURCE_HASH →
      Reaches t.subscribes (pushMessage env msg priCursor t).sent 1 := by
  intro h
  obtain ⟨rs, hsent, _, _, hcount⟩ := h reversing { forwardStrategy := .named .SOURCE_HASH } 0
    threeSubscribers (by decide) (by decide) rfl
  have hnone : (pushMessage reversing { forwardStrategy := .named .SOURCE_HASH } 0
      threeSubscribers).sent = [] := by decide
  rw [hnone] at hsent
  rw [List.map_eq_nil_iff.mp hsent.symm] at hcount
  cases hcount

end Topic

end LyqtRpc
