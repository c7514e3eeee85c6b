import LyqtRpc.TopicDispatch
import LyqtRpc.Lib.Candidates

/-!
The cursor of `Topic::prioritySend`, which all topics share: whom the PRIORITY publishes
to one topic reach, whatever is published in between.
-/

set_option autoImplicit false

namespace LyqtRpc

/-- A `pushMessage` of some topic. -/
structure TopicPush where
  env : DispatchEnv
  msg : TopicPublish
  topic : Topic

namespace TopicPush

def run (p : TopicPush) (priCursor : Nat) : Dispatch :=
  Topic.pushMessage p.env p.msg priCursor p.topic

/-- A PRIORITY publish to the topic, with the tag list. -/
def isOwn (name : Bytes) (tags : List Bytes) (p : TopicPush) : Bool :=
  p.topic.topicName = name ∧ p.msg.forwardStrategy = .named .PRIORITY ∧ p.msg.tags = tags

/-- It selects nobody. -/
def Quiet (p : TopicPush) : Prop :=
  p.msg.forwardStrategy ≠ .named .PRIORITY ∨
    Topic.candidates p.msg.tags p.topic.subscribes = []

/-- Whom the publishes of the one kind reach, in a run of all. -/
def sends (own : TopicPush → Bool) (priCursor : Nat) : List TopicPush → List (Option Subscribe)
  | [] => []
  | p :: ps =>
    (if own p then (p.run priCursor).sent else []) ++ sends own (p.run priCursor).priCursor ps

/-- The others leave the cursor where it was, modulo `k`. -/
def KeepTurn (own : TopicPush → Bool) (k : Nat) (priCursor : Nat) : List TopicPush → Prop
  | [] => True
  | p :: ps =>
    (own p = false → (p.run priCursor).priCursor % k = priCursor % k) ∧
      KeepTurn own k (p.run priCursor).priCursor ps

section Rotation
variable {name : Bytes} {tags : List Bytes} {subs : List Subscribe} {own : TopicPush → Bool}
  {p : TopicPush} {ps : List TopicPush} {priCursor : Nat}

theorem run_priority (hmsg : p.msg.forwardStrategy = .named .PRIORITY) :
    (p.run priCursor).sent = (Topic.prioritySend p.msg priCursor p.topic.subscribes).1 ∧
      (p.run priCursor).priCursor =
        (Topic.prioritySend p.msg priCursor p.topic.subscribes).2 := by
  simp [run, Topic.pushMessage, Topic.dispatchMessage, hmsg]

theorem Quiet.priCursor_run (h : p.Quiet) : (p.run priCursor).priCursor = priCursor := by
  by_cases hmsg : p.msg.forwardStrategy = .named .PRIORITY
  · rw [(run_priority hmsg).2, Topic.prioritySend]
    have hnone := h.resolve_left (fun hne => hne hmsg)
    split
    · rfl
    · rw [if_pos hnone]
  · unfold run Topic.pushMessage Topic.dispatchMessage
    split <;> simp_all

/-- An own publish takes the candidate at the cursor, and moves it on. -/
theorem run_own (hown : p.isOwn name tags = true) (hsubs : p.topic.subscribes = subs)
    (hbest : Topic.candidates tags subs ≠ []) :
    (p.run priCursor).sent =
        [(Topic.candidates tags subs)[priCursor % (Topic.candidates tags subs).length]?] ∧
      (p.run priCursor).priCursor = (priCursor + 1) % (Topic.candidates tags subs).length := by
  simp only [isOwn, decide_eq_true_eq] at hown
  obtain ⟨_, hmsg, rfl⟩ := hown
  subst hsubs
  have hne : p.topic.subscribes ≠ [] := by
    intro hnil
    rw [hnil] at hbest
    exact hbest rfl
  rw [(run_priority hmsg).1, (run_priority hmsg).2, Topic.prioritySend, if_neg hne, if_neg hbest]
  exact ⟨rfl, rfl⟩

theorem keepTurn_of_quiet {k : Nat} (h : ∀ p ∈ ps, own p = false → p.Quiet) :
    KeepTurn own k priCursor ps := by
  induction ps generalizing priCursor with
  | nil => trivial
  | cons p ps ih =>
    refine ⟨fun hother => ?_, ih fun q hq => h q (List.mem_cons_of_mem _ hq)⟩
    rw [(h p List.mem_cons_self hother).priCursor_run]

theorem keepTurn_one : KeepTurn own 1 priCursor ps := by
  induction ps generalizing priCursor with
  | nil => trivial
  | cons p ps ih => exact ⟨fun _ => by omega, ih⟩

/-- The i-th of them takes the candidate `i` places after the cursor. -/
theorem sends_eq (hsubs : ∀ p ∈ ps, p.topic.topicName = name → p.topic.subscribes = subs)
    (hbest : Topic.candidates tags subs ≠ [])
    (hkeep : KeepTurn (isOwn name tags) (Topic.candidates tags subs).length priCursor ps) :
    sends (isOwn name tags) priCursor ps =
      (List.range (ps.countP (isOwn name tags))).map (fun i =>
        (Topic.candidates tags subs)[(priCursor + i) % (Topic.candidates tags subs).length]?) := by
  induction ps generalizing priCursor with
  | nil => rfl
  | cons p ps ih =>
    obtain ⟨hother, hrest⟩ := hkeep
    have hnext := ih (fun q hq => hsubs q (List.mem_cons_of_mem _ hq)) hrest
    rw [sends, hnext]
    cases hown : p.isOwn name tags with
    | true =>
      have hname : p.topic.topicName = name := by
        simp only [isOwn, decide_eq_true_eq] at hown
        exact hown.1
      obtain ⟨hsent, hcursor⟩ :=
        @run_own name tags subs p priCursor hown (hsubs p List.mem_cons_self hname) hbest
      rw [hsent, hcursor, List.countP_cons_of_pos hown, List.range_succ_eq_map, List.map_cons,
        List.map_map]
      simp only [if_true, List.singleton_append, Nat.add_zero]
      congr 1
      refine List.map_congr_left fun i _ => ?_
      simp only [Function.comp_apply, Nat.mod_add_mod, Nat.succ_eq_add_one]
      congr 2
      omega
    | false =>
      rw [List.countP_cons_of_neg (by simp [hown])]
      simp only [Bool.false_eq_true, if_false, List.nil_append]
      refine List.map_congr_left fun i _ => ?_
      rw [Nat.add_mod, hother hown, ← Nat.add_mod]

end Rotation

end TopicPush

theorem Topic.sublist_foldl_collect {tags : List Bytes} {seen subs : List Subscribe}
    {best : Int32 × List Subscribe} (h : best.2.Sublist seen) :
    (subs.foldl (Topic.collect tags) best).2.Sublist (seen ++ subs) := by
  induction subs generalizing seen best with
  | nil => simpa using h
  | cons sub subs ih =>
    have hnext : (Topic.collect tags best sub).2.Sublist (seen ++ [sub]) := by
      unfold Topic.collect
      split
      · exact h.trans (List.sublist_append_left _ _)
      · split
        · exact List.sublist_append_right seen [sub]
        · split
          · exact h.append_right [sub]
          · exact h.trans (List.sublist_append_left _ _)
    have hrest := ih hnext
    rwa [List.append_assoc, List.singleton_append] at hrest

theorem Topic.nodup_candidates {tags : List Bytes} {subs : List Subscribe} (h : subs.Nodup) :
    (Topic.candidates tags subs).Nodup := by
  have hsub : (Topic.candidates tags subs).Sublist ([] ++ subs) :=
    Topic.sublist_foldl_collect (List.nil_sublist [])
  exact hsub.nodup h

/-- As many PRIORITY publishes with a tag list as there are candidates reach every one of
them once, if what comes in between leaves the cursor as it was modulo their number; what
selects nobody always does, and everything does where there is one candidate. -/
theorem priority_rotation {name : Bytes} {tags : List Bytes} {subs : List Subscribe}
    (priCursor : Nat) {ps : List TopicPush} (hnodup : subs.Nodup)
    (hsubs : ∀ p ∈ ps, p.topic.topicName = name → p.topic.subscribes = subs)
    (hbest : Topic.candidates tags subs ≠ [])
    (hcount : ps.countP (TopicPush.isOwn name tags) = (Topic.candidates tags subs).length) :
    (TopicPush.KeepTurn (TopicPush.isOwn name tags) (Topic.candidates tags subs).length
        priCursor ps →
      (TopicPush.sends (TopicPush.isOwn name tags) priCursor ps).Nodup ∧
      (TopicPush.sends (TopicPush.isOwn name tags) priCursor ps).Perm
        ((Topic.candidates tags subs).map some)) ∧
    ((∀ p ∈ ps, p.isOwn name tags = false → p.Quiet) ∨ (Topic.candidates tags subs).length = 1 →
      TopicPush.KeepTurn (TopicPush.isOwn name tags) (Topic.candidates tags subs).length
        priCursor ps) := by
  constructor
  · intro hkeep
    have hperm : (TopicPush.sends (TopicPush.isOwn name tags) priCursor ps).Perm
        ((Topic.candidates tags subs).map some) := by
      rw [TopicPush.sends_eq hsubs hbest hkeep, hcount, Candidates.map_getElem?_add_mod]
      exact (List.rotate_perm _ _).map some
    have honce : ((Topic.candidates tags subs).map some).Nodup :=
      (Topic.nodup_candidates hnodup).map fun _ _ => Option.some.inj
    exact ⟨hperm.nodup_iff.mpr honce, hperm⟩
  · intro h
    obtain hquiet | hone := h
    · exact TopicPush.keepTurn_of_quiet hquiet
    · rw [hone]
      exact TopicPush.keepTurn_one

section Runs

/-- A PRIORITY publish without tags, to a topic of some connections. -/
def publishTo (name : Bytes) (conns : List Nat) : TopicPush where
  env := Topic.reversing
  msg := { forwardStrategy := .named .PRIORITY }
  topic := { topicName := name, subscribes := conns.map (fun conn => { conn }) }

/-- Two publishes to two subscribers, one to nobody in between. -/
theorem priority_rotation_twoTurns :
    (TopicPush.sends (TopicPush.isOwn (str "t") []) 7
      [publishTo (str "t") [1, 2], publishTo (str "u") [], publishTo (str "t") [1, 2]]).Perm
        [some { conn := 1 }, some { conn := 2 }] := by
  have hrotation := @priority_rotation (str "t") [] [{ conn := 1 }, { conn := 2 }] 7
    [publishTo (str "t") [1, 2], publishTo (str "u") [], publishTo (str "t") [1, 2]] (by decide)
    (by decide) (by decide) (by decide)
  refine (hrotation.1 (hrotation.2 (Or.inl ?_))).2
  intro p hp hother
  simp only [List.mem_cons, List.not_mem_nil, or_false] at hp
  obtain rfl | rfl | rfl := hp
  · exact absurd hother (by decide)
  · exact Or.inr rfl
  · exact absurd hother (by decide)

/-- A publish to a topic of one subscriber in between, and the second of two is left out. -/
theorem priority_rotation_disturbed :
    ¬ ∀ (name : Bytes) (tags : List Bytes) (subs : List Subscribe) (priCursor : Nat)
      (ps : List TopicPush), subs.Nodup →
      (∀ p ∈ ps, p.topic.topicName = name → p.topic.subscribes = subs) →
      (∀ p ∈ ps, p.isOwn name tags = false →
        p.msg.forwardStrategy = .named .PRIORITY ∧ p.topic.topicName ≠ name) →
      Topic.candidates tags subs ≠ [] →
      ps.countP (TopicPush.isOwn name tags) = (Topic.candidates tags subs).length →
        (TopicPush.sends (TopicPush.isOwn name tags) priCursor ps).Nodup := by
  intro h
  have honce := h (str "t") [] [{ conn := 1 }, { conn := 2 }] 0
    [publishTo (str "t") [1, 2], publishTo (str "u") [3], publishTo (str "t") [1, 2]] (by decide)
    (by decide) (by decide) (by decide) (by decide)
  exact absurd honce (by decide)

end Runs

end LyqtRpc
