import LyqtRpc.Requestor

/-!
Every request is settled exactly once, as long as `onTimeout` does not set a
promise behind the back of an `onResponse` that is about to.
-/

set_option autoImplicit false

namespace LyqtRpc

open StepRun

variable {M : Type}

/-- The request whose timeout flag `onResponse` is about to check. -/
def ResponsePc.checking : ResponsePc M → Option Bytes
  | .checkTimeout rid _ _ => some rid
  | _ => none

/-- The request `onResponse` is about to settle. -/
def ResponsePc.settling : ResponsePc M → Option Bytes
  | .settle rid _ _ => some rid
  | _ => none

theorem ResponsePc.rid_of_checking {pc : ResponsePc M} {rid : Bytes}
    (h : pc.checking = some rid) : pc.rid = some rid := by
  cases pc <;> cases h
  rfl

theorem ResponsePc.rid_of_settling {pc : ResponsePc M} {rid : Bytes}
    (h : pc.settling = some rid) : pc.rid = some rid := by
  cases pc <;> cases h
  rfl

/-- Who may have set the promise of a request, and who still has to. -/
structure SettleInvAt (s : RequestorState M) (rid : Bytes) : Prop where
  counted : (s.requests rid).settled =
    if (s.requests rid).desc.response.isSome then 1 else 0
  /-- Past its check, `onResponse` finds the promise as it was. -/
  untaken : s.io.settling = some rid →
    (s.requests rid).desc.reqtype = .ASYNC → (s.requests rid).desc.response = none
  /-- A set promise shows: in the flag, or in the entry that is being erased. -/
  visible : (s.requests rid).desc.response ≠ none →
    (s.requests rid).desc.timeoutTriggered = true ∨ s.io = .delDesc rid ∨
      ((s.requests rid).pending = false ∧ s.io.checking ≠ some rid)
  decided : ∀ i, s.timeouts i = .settle rid →
    (s.requests rid).desc.timeoutTriggered = true
  /-- Whoever decided the timeout sets the promise. -/
  owedByTimeout : (s.requests rid).desc.timeoutTriggered = true →
    (s.requests rid).desc.reqtype = .ASYNC →
    (s.requests rid).desc.response ≠ none ∨ ∃ i, s.timeouts i = .settle rid
  /-- Whoever found the entry sets the promise, or leaves it to another call. -/
  owed : (s.requests rid).found = true → (s.requests rid).desc.reqtype = .ASYNC →
    (s.requests rid).desc.response ≠ none ∨
    s.io.checking = some rid ∨ s.io.settling = some rid ∨
    ∃ i, s.timeouts i = .triggerTimeout rid ∨ s.timeouts i = .settle rid

def SettleInv (s : RequestorState M) : Prop := ∀ rid, SettleInvAt s rid

/-- A step that touches neither the request nor a call for it. -/
theorem SettleInvAt.of_frame {s t : RequestorState M} {rid : Bytes} (h : SettleInvAt s rid)
    (hreq : t.requests rid = s.requests rid)
    (hio : t.io = s.io ∨ (s.io.rid ≠ some rid ∧ t.io.rid ≠ some rid))
    (htimeouts : ∀ i, t.timeouts i = s.timeouts i ∨
      ((s.timeouts i).rid ≠ some rid ∧ (t.timeouts i).rid ≠ some rid)) : SettleInvAt t rid := by
  have hchecking : t.io.checking = some rid ↔ s.io.checking = some rid := by
    rcases hio with hio | ⟨hs, ht⟩
    · rw [hio]
    · exact ⟨fun h => absurd (ResponsePc.rid_of_checking h) ht,
        fun h => absurd (ResponsePc.rid_of_checking h) hs⟩
  have hsettling : t.io.settling = some rid ↔ s.io.settling = some rid := by
    rcases hio with hio | ⟨hs, ht⟩
    · rw [hio]
    · exact ⟨fun h => absurd (ResponsePc.rid_of_settling h) ht,
        fun h => absurd (ResponsePc.rid_of_settling h) hs⟩
  have herasing : t.io = .delDesc rid ↔ s.io = .delDesc rid := by
    rcases hio with hio | ⟨hs, ht⟩
    · rw [hio]
    · exact ⟨fun h => absurd (by rw [h]; rfl) ht, fun h => absurd (by rw [h]; rfl) hs⟩
  have hpc : ∀ i pc, pc.rid = some rid → (t.timeouts i = pc ↔ s.timeouts i = pc) := by
    intro i pc hrid
    rcases htimeouts i with hi | ⟨hs, ht⟩
    · rw [hi]
    · exact ⟨fun h => absurd (h ▸ hrid) ht, fun h => absurd (h ▸ hrid) hs⟩
  have hdeciding := fun i => hpc i (.settle rid) rfl
  have htriggering := fun i => hpc i (.triggerTimeout rid) rfl
  constructor
  · rw [hreq]
    exact h.counted
  · rw [hreq, hsettling]
    exact h.untaken
  · rw [hreq, herasing, ne_eq (ResponsePc.checking _), hchecking]
    exact h.visible
  · simp only [hreq, hdeciding]
    exact h.decided
  · simp only [hreq, hdeciding]
    exact h.owedByTimeout
  · simp only [hreq, hchecking, hsettling, hdeciding, htriggering]
    exact h.owed

/-- Past the check `onResponse` makes, the promise is open. -/
theorem SettleInvAt.open_of_check {s : RequestorState M} {rid : Bytes} (h : SettleInvAt s rid)
    (hio : s.io.checking = some rid) (hnot : (s.requests rid).desc.timeoutTriggered = false) :
    (s.requests rid).desc.response = none := by
  by_cases hset : (s.requests rid).desc.response = none
  · exact hset
  · rcases h.visible hset with hflag | herase | ⟨_, hno⟩
    · rw [hflag] at hnot
      cases hnot
    · rw [herase] at hio
      cases hio
    · exact absurd hio hno

/-- A step of `onResponse` for one request leaves the others alone. -/
theorem ioStep_frame {s t : RequestorState M} (hstep : ioStep s = some t) :
    ∃ rid, s.io.rid = some rid ∧ (∀ rid', rid' ≠ rid → t.requests rid' = s.requests rid') ∧
      (t.requests rid).started = (s.requests rid).started ∧
      (∀ rid', t.io.rid = some rid' → rid = rid') ∧ t.timeouts = s.timeouts := by
  cases hio : s.io with
  | idle => simp [ioStep, hio] at hstep
  | getDesc rid msg late =>
      simp only [ioStep, hio] at hstep
      split at hstep <;> cases hstep <;> refine ⟨rid, rfl, ?_⟩ <;>
        simp +contextual [RequestorState.found, RequestorState.modify, ResponsePc.rid]
  | checkTimeout rid msg late =>
      simp only [ioStep, hio] at hstep
      split at hstep <;> cases hstep <;> refine ⟨rid, rfl, ?_⟩ <;>
        simp +contextual [RequestorState.delDesc, RequestorState.modify, ResponsePc.rid]
  | settle rid msg late =>
      simp only [ioStep, hio] at hstep
      split at hstep
      · split at hstep <;> cases hstep <;> refine ⟨rid, rfl, ?_⟩ <;>
          simp +contextual [RequestorState.setValue, RequestorState.modify, ResponsePc.rid]
      · cases hstep
        refine ⟨rid, rfl, ?_⟩
        simp +contextual [RequestorState.modify, ResponsePc.rid]
  | delDesc rid =>
      simp only [ioStep, hio] at hstep
      cases hstep
      refine ⟨rid, rfl, ?_⟩
      simp +contextual [RequestorState.delDesc, RequestorState.modify, ResponsePc.rid]

/-- A step of `onTimeout` leaves the other requests and the IO thread alone,
and never takes a decided timeout back. -/
theorem timeoutStep_frame {s t : RequestorState M} {i : Nat} (hstep : timeoutStep s i = some t) :
    ∃ rid, (s.timeouts i).rid = some rid ∧
      (∀ rid', rid' ≠ rid → t.requests rid' = s.requests rid') ∧
      (t.requests rid).started = (s.requests rid).started ∧
      ((s.requests rid).desc.timeoutTriggered = true →
        (t.requests rid).desc.timeoutTriggered = true) ∧
      (∀ rid', (t.timeouts i).rid = some rid' → rid = rid') ∧
      (∀ j, j ≠ i → t.timeouts j = s.timeouts j) ∧
      t.io = s.io ∧ t.escaped = s.escaped ∧ t.lateSettled = s.lateSettled := by
  cases hi : s.timeouts i with
  | idle => simp [timeoutStep, hi] at hstep
  | cancelTimer rid =>
      simp only [timeoutStep, hi] at hstep
      cases hstep
      refine ⟨rid, rfl, ?_⟩
      simp +contextual [RequestorState.setTimeout, TimeoutPc.rid]
  | getDesc rid =>
      simp only [timeoutStep, hi] at hstep
      split at hstep <;> cases hstep <;> refine ⟨rid, rfl, ?_⟩ <;>
        simp +contextual [RequestorState.found, RequestorState.modify, RequestorState.setTimeout,
          TimeoutPc.rid]
  | triggerTimeout rid =>
      simp only [timeoutStep, hi] at hstep
      split at hstep <;> cases hstep <;> refine ⟨rid, rfl, ?_⟩ <;>
        simp +contextual [RequestorState.modify, RequestorState.setTimeout, TimeoutPc.rid]
  | settle rid =>
      simp only [timeoutStep, hi] at hstep
      split at hstep
      · split at hstep <;> cases hstep <;> refine ⟨rid, rfl, ?_⟩ <;>
          simp +contextual [RequestorState.setValue, RequestorState.modify,
            RequestorState.setTimeout, TimeoutPc.rid]
      · cases hstep
        refine ⟨rid, rfl, ?_⟩
        simp +contextual [RequestorState.setTimeout, TimeoutPc.rid]
  | delDesc rid =>
      simp only [timeoutStep, hi] at hstep
      cases hstep
      refine ⟨rid, rfl, ?_⟩
      simp +contextual [RequestorState.delDesc, RequestorState.modify, RequestorState.setTimeout,
        TimeoutPc.rid]

/-- What the run condition buys: the promise `onTimeout` sets is not one that
`onResponse` has already checked. -/
theorem undisturbed_settle {s : RequestorState M} {i : Nat} {rid : Bytes}
    (hok : undisturbed s (.timeoutRun i) = true) (hi : s.timeouts i = .settle rid)
    (hasync : (s.requests rid).desc.reqtype = .ASYNC)
    (hopen : ¬ (s.requests rid).desc.response.isSome = true) : s.io.settling ≠ some rid := by
  intro hio
  cases h : s.io with
  | settle rid' msg late =>
      simp only [h, ResponsePc.settling, Option.some.injEq] at hio
      simp [undisturbed, hi, h, hio, hasync, hopen] at hok
  | _ => simp [h, ResponsePc.settling] at hio

/-- Past its look at the entry, `onResponse` sees a set promise in the flag. -/
theorem SettleInvAt.flag_of_set {s : RequestorState M} {rid : Bytes} (h : SettleInvAt s rid)
    (hio : s.io ≠ .delDesc rid) (hpending : (s.requests rid).pending = true)
    (hset : (s.requests rid).desc.response ≠ none) :
    (s.requests rid).desc.timeoutTriggered = true := by
  rcases h.visible hset with hflag | herase | ⟨hgone, _⟩
  · exact hflag
  · exact absurd herase hio
  · rw [hpending] at hgone
    cases hgone

theorem ioStep_settleInvAt {s t : RequestorState M} {rid : Bytes} (h : SettleInvAt s rid)
    (hrid : s.io.rid = some rid) (hstep : ioStep s = some t) : SettleInvAt t rid := by
  have hopen := h.open_of_check
  have hflag := h.flag_of_set
  obtain ⟨hcounted, huntaken, hvisible, hdecided, howedByTimeout, howed⟩ := h
  cases hio : s.io with
  | idle => simp [ioStep, hio] at hstep
  | getDesc rid' msg late =>
      obtain rfl : rid' = rid := by simpa [hio, ResponsePc.rid] using hrid
      rw [hio] at hvisible hflag howed
      simp only [ioStep, hio] at hstep
      split at hstep
      · cases hstep
        rename_i hpending
        simp only [RequestorState.found, RequestorState.modify]
        constructor <;> simp only [Function.update_self]
        · exact hcounted
        · exact fun hpc => nomatch hpc
        · exact fun hset => .inl (hflag (by simp) hpending hset)
        · exact hdecided
        · exact howedByTimeout
        · exact fun _ _ => .inr (.inl rfl)
      · cases hstep
        constructor
        · exact hcounted
        · exact fun hpc => nomatch hpc
        · intro hset
          rcases hvisible hset with hflag | herase | ⟨hgone, _⟩
          · exact .inl hflag
          · cases herase
          · exact .inr (.inr ⟨hgone, fun hpc => nomatch hpc⟩)
        · exact hdecided
        · exact howedByTimeout
        · exact howed
  | checkTimeout rid' msg late =>
      obtain rfl : rid' = rid := by simpa [hio, ResponsePc.rid] using hrid
      rw [hio] at hopen
      simp only [ioStep, hio] at hstep
      split at hstep
      · cases hstep
        rename_i htriggered
        simp only [RequestorState.delDesc, RequestorState.modify]
        constructor <;> simp only [Function.update_self]
        · exact hcounted
        · exact fun hpc => nomatch hpc
        · exact fun _ => .inl htriggered
        · exact hdecided
        · exact howedByTimeout
        · intro _ hasync
          -- whoever decided the timeout answers for the response that is dropped
          rcases howedByTimeout htriggered hasync with hset | ⟨i, hi⟩
          · exact .inl hset
          · exact .inr (.inr (.inr ⟨i, .inr hi⟩))
      · cases hstep
        rename_i hnot
        have hnone := hopen rfl (Bool.eq_false_iff.mpr hnot)
        exact ⟨hcounted, fun _ _ => hnone, fun hset => absurd hnone hset, hdecided,
          howedByTimeout, fun _ _ => .inr (.inr (.inl rfl))⟩
  | settle rid' msg late =>
      obtain rfl : rid' = rid := by simpa [hio, ResponsePc.rid] using hrid
      rw [hio] at huntaken
      simp only [ioStep, hio] at hstep
      split at hstep
      · rename_i hasync
        have hnone := huntaken rfl hasync
        rw [if_neg (by simp [hnone])] at hstep
        cases hstep
        have hzero : (s.requests rid').settled = 0 := by simp [hcounted, hnone]
        simp only [RequestorState.setValue, RequestorState.modify]
        constructor <;> simp only [Function.update_self]
        · rw [hzero]
          rfl
        · exact fun hpc => nomatch hpc
        · exact fun _ => .inr (.inl trivial)
        · exact hdecided
        · exact fun _ _ => .inl (Option.some_ne_none _)
        · exact fun _ _ => .inl (Option.some_ne_none _)
      · cases hstep
        rename_i hcallback
        simp only [RequestorState.modify]
        constructor <;> simp only [Function.update_self]
        · exact hcounted
        · exact fun hpc => nomatch hpc
        · exact fun _ => .inr (.inl trivial)
        · exact hdecided
        · exact howedByTimeout
        · intro _ hasync
          rw [hcallback] at hasync
          cases hasync
  | delDesc rid' =>
      obtain rfl : rid' = rid := by simpa [hio, ResponsePc.rid] using hrid
      rw [hio] at howed
      simp only [ioStep, hio] at hstep
      cases hstep
      simp only [RequestorState.delDesc, RequestorState.modify]
      constructor <;> simp only [Function.update_self]
      · exact hcounted
      · exact fun hpc => nomatch hpc
      · exact fun _ => .inr (.inr ⟨trivial, fun hpc => nomatch hpc⟩)
      · exact hdecided
      · exact howedByTimeout
      · exact howed

theorem ioStep_settleInv {s t : RequestorState M} (h : SettleInv s) (hstep : ioStep s = some t) :
    SettleInv t := by
  obtain ⟨rid, hrid, hother, _, hpc, htimeouts⟩ := ioStep_frame hstep
  intro rid'
  by_cases heq : rid' = rid
  · subst heq
    exact ioStep_settleInvAt (h rid') hrid hstep
  · refine (h rid').of_frame (hother rid' heq) (.inr ⟨fun hs => ?_, fun ht => ?_⟩)
      (fun i => .inl (by rw [htimeouts]))
    · rw [hrid] at hs
      exact heq (Option.some.inj hs).symm
    · exact heq (hpc rid' ht).symm

theorem exists_update {f : Nat → TimeoutPc} {P : TimeoutPc → Prop} {i : Nat} {pc : TimeoutPc}
    (h : ∃ j, P (f j)) (hi : ¬ P (f i)) : ∃ j, P (Function.update f i pc j) := by
  obtain ⟨j, hj⟩ := h
  have hne : j ≠ i := fun heq => hi (heq ▸ hj)
  exact ⟨j, by rwa [Function.update_of_ne hne]⟩

theorem forall_update {f : Nat → TimeoutPc} {P : TimeoutPc → Prop} {i : Nat} {pc : TimeoutPc}
    (h : ∀ j, P (f j)) (hpc : P pc) : ∀ j, P (Function.update f i pc j) := by
  intro j
  by_cases hj : j = i
  · rw [hj, Function.update_self]
    exact hpc
  · rw [Function.update_of_ne hj]
    exact h j

/-- The call moves on, to a place where it owes nothing, from one where it did
not either. -/
theorem SettleInvAt.setTimeout {s : RequestorState M} {rid : Bytes} {i : Nat} {pc : TimeoutPc}
    (h : SettleInvAt s rid) (hsettle : s.timeouts i ≠ .settle rid)
    (htrigger : s.timeouts i = .triggerTimeout rid →
      (s.requests rid).desc.timeoutTriggered = true)
    (hpc : pc ≠ .settle rid) : SettleInvAt (s.setTimeout i pc) rid := by
  have hdeciding : (∃ j, s.timeouts j = .settle rid) →
      ∃ j, Function.update s.timeouts i pc j = .settle rid :=
    fun hex => exists_update (P := fun x => x = .settle rid) hex hsettle
  refine ⟨h.counted, h.untaken, h.visible, ?_, ?_, ?_⟩
  · exact forall_update (P := fun x => x = .settle rid → _) h.decided (fun heq => absurd heq hpc)
  · exact fun hflag hasync => (h.owedByTimeout hflag hasync).imp_right hdeciding
  · intro hfound hasync
    by_cases hflag : (s.requests rid).desc.timeoutTriggered = true
    · rcases h.owedByTimeout hflag hasync with hset | hex
      · exact .inl hset
      · obtain ⟨j, hj⟩ := hdeciding hex
        exact .inr (.inr (.inr ⟨j, .inr hj⟩))
    · refine (h.owed hfound hasync).imp_right (Or.imp_right (Or.imp_right fun hex => ?_))
      refine exists_update (P := fun x => x = .triggerTimeout rid ∨ x = .settle rid) hex ?_
      rintro (heq | heq)
      · exact hflag (htrigger heq)
      · exact hsettle heq

/-- Nothing is owed for the request any more. -/
theorem SettleInvAt.setTimeout_done {s : RequestorState M} {rid : Bytes} {i : Nat}
    {pc : TimeoutPc} (h : SettleInvAt s rid)
    (hdone : (s.requests rid).desc.reqtype = .ASYNC → (s.requests rid).desc.response ≠ none)
    (hpc : pc ≠ .settle rid) : SettleInvAt (s.setTimeout i pc) rid := by
  refine ⟨h.counted, h.untaken, h.visible, ?_, ?_, ?_⟩
  · exact forall_update (P := fun x => x = .settle rid → _) h.decided (fun heq => absurd heq hpc)
  · exact fun _ hasync => .inl (hdone hasync)
  · exact fun _ hasync => .inl (hdone hasync)

theorem SettleInvAt.found {s : RequestorState M} {rid : Bytes} (h : SettleInvAt s rid) {i : Nat}
    (hi : s.timeouts i = .triggerTimeout rid) : SettleInvAt (s.found rid) rid := by
  obtain ⟨hcounted, huntaken, hvisible, hdecided, howedByTimeout, _⟩ := h
  simp only [RequestorState.found, RequestorState.modify]
  constructor <;> simp only [Function.update_self]
  · exact hcounted
  · exact huntaken
  · exact hvisible
  · exact hdecided
  · exact howedByTimeout
  · exact fun _ _ => .inr (.inr (.inr ⟨i, .inl hi⟩))

theorem SettleInvAt.delDesc {s : RequestorState M} {rid : Bytes} (h : SettleInvAt s rid) :
    SettleInvAt (s.delDesc rid) rid := by
  obtain ⟨hcounted, huntaken, hvisible, hdecided, howedByTimeout, howed⟩ := h
  simp only [RequestorState.delDesc, RequestorState.modify]
  constructor <;> simp only [Function.update_self]
  · exact hcounted
  · exact huntaken
  · intro hset
    rcases hvisible hset with hflag | herase | ⟨_, hno⟩
    · exact .inl hflag
    · exact .inr (.inl herase)
    · exact .inr (.inr ⟨trivial, hno⟩)
  · exact hdecided
  · exact howedByTimeout
  · exact howed

/-- `onTimeout` sets the open promise of a request it decided for, and
`onResponse` is not about to. -/
theorem SettleInvAt.setValue {s : RequestorState M} {rid : Bytes} {v : Reply M}
    (h : SettleInvAt s rid) (hopen : (s.requests rid).desc.response = none)
    (hflag : (s.requests rid).desc.timeoutTriggered = true)
    (hrace : s.io.settling ≠ some rid) : SettleInvAt (s.setValue rid v) rid := by
  have hzero : (s.requests rid).settled = 0 := by simp [h.counted, hopen]
  simp only [RequestorState.setValue, RequestorState.modify]
  constructor <;> simp only [Function.update_self]
  · rw [hzero]
    rfl
  · exact fun hio => absurd hio hrace
  · exact fun _ => .inl hflag
  · exact fun _ _ => hflag
  · exact fun _ _ => .inl (Option.some_ne_none v)
  · exact fun _ _ => .inl (Option.some_ne_none v)

theorem SettleInvAt.trigger {s : RequestorState M} {rid : Bytes} {i : Nat}
    (h : SettleInvAt s rid) :
    SettleInvAt ((s.modify rid
      (fun r => { r with desc := { r.desc with timeoutTriggered := true } })).setTimeout i
        (.settle rid)) rid := by
  obtain ⟨hcounted, huntaken, _, _, _, _⟩ := h
  simp only [RequestorState.modify, RequestorState.setTimeout]
  constructor <;> simp only [Function.update_self]
  · exact hcounted
  · exact huntaken
  · exact fun _ => .inl trivial
  · exact fun _ _ => trivial
  · exact fun _ _ => .inr ⟨i, Function.update_self ..⟩
  · exact fun _ _ => .inr (.inr (.inr ⟨i, .inr (Function.update_self ..)⟩))

theorem timeoutStep_settleInvAt {s t : RequestorState M} {i : Nat} {rid : Bytes}
    (h : SettleInvAt s rid) (hrid : (s.timeouts i).rid = some rid)
    (hok : undisturbed s (.timeoutRun i) = true) (hstep : timeoutStep s i = some t) :
    SettleInvAt t rid := by
  cases hi : s.timeouts i with
  | idle => simp [timeoutStep, hi] at hstep
  | cancelTimer rid' =>
      obtain rfl : rid' = rid := by simpa [hi, TimeoutPc.rid] using hrid
      simp only [timeoutStep, hi] at hstep
      cases hstep
      exact h.setTimeout (by simp [hi]) (by simp [hi]) (by simp)
  | getDesc rid' =>
      obtain rfl : rid' = rid := by simpa [hi, TimeoutPc.rid] using hrid
      simp only [timeoutStep, hi] at hstep
      split at hstep
      · cases hstep
        have htriggered : SettleInvAt (s.setTimeout i (.triggerTimeout rid')) rid' :=
          h.setTimeout (by simp [hi]) (by simp [hi]) (by simp)
        exact htriggered.found (Function.update_self ..)
      · cases hstep
        exact h.setTimeout (by simp [hi]) (by simp [hi]) (by simp)
  | triggerTimeout rid' =>
      obtain rfl : rid' = rid := by simpa [hi, TimeoutPc.rid] using hrid
      simp only [timeoutStep, hi] at hstep
      split at hstep
      · cases hstep
        exact h.setTimeout (by simp [hi]) (fun _ => by assumption) (by simp)
      · cases hstep
        exact h.trigger
  | settle rid' =>
      obtain rfl : rid' = rid := by simpa [hi, TimeoutPc.rid] using hrid
      simp only [timeoutStep, hi] at hstep
      split at hstep
      · rename_i hasync
        split at hstep
        · cases hstep
          rename_i hset
          exact h.setTimeout_done (fun _ => Option.isSome_iff_ne_none.mp hset) (by simp)
        · cases hstep
          rename_i hopen
          have hrace := undisturbed_settle hok hi hasync hopen
          have hnone : (s.requests rid').desc.response = none := by simpa using hopen
          refine (h.setValue hnone (h.decided i hi) hrace).setTimeout_done (fun _ => ?_) (by simp)
          simp [RequestorState.setValue, RequestorState.modify]
      · cases hstep
        rename_i hcallback
        exact h.setTimeout_done (fun hasync => by simp [hcallback] at hasync) (by simp)
  | delDesc rid' =>
      obtain rfl : rid' = rid := by simpa [hi, TimeoutPc.rid] using hrid
      simp only [timeoutStep, hi] at hstep
      cases hstep
      have hpc : (s.delDesc rid').timeouts i = .delDesc rid' := hi
      exact h.delDesc.setTimeout (by simp [hpc]) (by simp [hpc]) (by simp)

theorem timeoutStep_settleInv {s t : RequestorState M} {i : Nat} (h : SettleInv s)
    (hok : undisturbed s (.timeoutRun i) = true) (hstep : timeoutStep s i = some t) :
    SettleInv t := by
  obtain ⟨rid, hrid, hother, _, _, hpc, htimeouts, hio, _⟩ := timeoutStep_frame hstep
  intro rid'
  by_cases heq : rid' = rid
  · subst heq
    exact timeoutStep_settleInvAt (h rid') hrid hok hstep
  · refine (h rid').of_frame (hother rid' heq) (.inl hio) (fun j => ?_)
    by_cases hj : j = i
    · subst hj
      refine .inr ⟨fun hs => ?_, fun ht => heq (hpc rid' ht).symm⟩
      rw [hrid] at hs
      exact heq (Option.some.inj hs).symm
    · exact .inl (htimeouts j hj)

/-- A response that came after the timeout was decided is dropped at the check. -/
structure LateInv (s : RequestorState M) : Prop where
  notLate : s.lateSettled = false
  getDesc : ∀ rid msg, s.io = .getDesc rid msg true →
    (s.requests rid).desc.timeoutTriggered = true
  checkTimeout : ∀ rid msg, s.io = .checkTimeout rid msg true →
    (s.requests rid).desc.timeoutTriggered = true
  settle : ∀ rid msg, s.io ≠ .settle rid msg true

/-- Requests no call was started for are as they were sent. -/
structure UntouchedInv (sent : Bytes → Option (ReqType × Bool)) (s : RequestorState M) :
    Prop where
  untouched : ∀ rid, (s.requests rid).started = false →
    s.requests rid = (requestorInitial sent).requests rid
  io : ∀ rid, s.io.rid = some rid → (s.requests rid).started = true
  timeouts : ∀ i rid, (s.timeouts i).rid = some rid → (s.requests rid).started = true

theorem ioStep_lateInv {s t : RequestorState M} (h : LateInv s) (hstep : ioStep s = some t) :
    LateInv t := by
  obtain ⟨hnot, hgetDesc, hcheck, hsettle⟩ := h
  cases hio : s.io with
  | idle => simp [ioStep, hio] at hstep
  | getDesc rid msg late =>
      simp only [ioStep, hio] at hstep
      split at hstep
      · cases hstep
        refine ⟨hnot, by simp, fun rid' msg' hpc => ?_, by simp⟩
        cases hpc
        simpa [RequestorState.found, RequestorState.modify] using hgetDesc rid msg hio
      · cases hstep
        exact ⟨hnot, by simp, by simp, by simp⟩
  | checkTimeout rid msg late =>
      simp only [ioStep, hio] at hstep
      split at hstep
      · cases hstep
        exact ⟨hnot, by simp, by simp, by simp⟩
      · cases hstep
        rename_i hflag
        refine ⟨hnot, by simp, by simp, fun rid' msg' hpc => ?_⟩
        cases hpc
        exact hflag (hcheck rid msg hio)
  | settle rid msg late =>
      have hlate : late = false := by
        cases late with
        | false => rfl
        | true => exact absurd hio (hsettle rid msg)
      simp only [ioStep, hio] at hstep
      split at hstep
      · split at hstep <;> cases hstep
        · exact ⟨hnot, by simp, by simp, by simp⟩
        · exact ⟨by simp [hlate, hnot], by simp, by simp, by simp⟩
      · cases hstep
        exact ⟨by simp [hlate, hnot], by simp, by simp, by simp⟩
  | delDesc rid =>
      simp only [ioStep, hio] at hstep
      cases hstep
      exact ⟨hnot, by simp, by simp, by simp⟩

theorem timeoutStep_lateInv {s t : RequestorState M} {i : Nat} (h : LateInv s)
    (hstep : timeoutStep s i = some t) : LateInv t := by
  obtain ⟨rid, _, hother, _, hflag, _, _, hio, _, hlate⟩ := timeoutStep_frame hstep
  have hmono : ∀ rid', (s.requests rid').desc.timeoutTriggered = true →
      (t.requests rid').desc.timeoutTriggered = true := by
    intro rid' hset
    by_cases heq : rid' = rid
    · subst heq
      exact hflag hset
    · rw [hother rid' heq]
      exact hset
  refine ⟨hlate.trans h.notLate, ?_, ?_, ?_⟩
  · intro rid' msg hpc
    exact hmono _ (h.getDesc rid' msg (hio ▸ hpc))
  · intro rid' msg hpc
    exact hmono _ (h.checkTimeout rid' msg (hio ▸ hpc))
  · intro rid' msg hpc
    exact h.settle rid' msg (hio ▸ hpc)

section Untouched
variable {sent : Bytes → Option (ReqType × Bool)}

theorem started_of_frame {s t : RequestorState M} {rid : Bytes}
    (hother : ∀ rid', rid' ≠ rid → t.requests rid' = s.requests rid')
    (hstarted : (t.requests rid).started = (s.requests rid).started) (rid' : Bytes) :
    (t.requests rid').started = (s.requests rid').started := by
  by_cases heq : rid' = rid
  · subst heq
    exact hstarted
  · rw [hother rid' heq]

theorem ioStep_untouchedInv {s t : RequestorState M} (h : UntouchedInv sent s)
    (hstep : ioStep s = some t) : UntouchedInv sent t := by
  obtain ⟨rid, hio, hother, hstarted, hpc, htimeouts⟩ := ioStep_frame hstep
  have hkeep := started_of_frame hother hstarted
  refine ⟨fun rid' hnot => ?_, fun rid' hrid => ?_, fun j rid' hrid => ?_⟩
  · rw [hkeep] at hnot
    have hne : rid' ≠ rid := by
      intro heq
      rw [heq, h.io rid hio] at hnot
      cases hnot
    rw [hother rid' hne, h.untouched rid' hnot]
  · rw [hkeep, ← hpc rid' hrid]
    exact h.io rid hio
  · rw [hkeep]
    exact h.timeouts j rid' (htimeouts ▸ hrid)

theorem timeoutStep_untouchedInv {s t : RequestorState M} {i : Nat} (h : UntouchedInv sent s)
    (hstep : timeoutStep s i = some t) : UntouchedInv sent t := by
  obtain ⟨rid, hi, hother, hstarted, _, hpc, htimeouts, hio, _⟩ := timeoutStep_frame hstep
  have hkeep := started_of_frame hother hstarted
  refine ⟨fun rid' hnot => ?_, fun rid' hrid => ?_, fun j rid' hrid => ?_⟩
  · rw [hkeep] at hnot
    have hne : rid' ≠ rid := by
      intro heq
      rw [heq, h.timeouts i rid hi] at hnot
      cases hnot
    rw [hother rid' hne, h.untouched rid' hnot]
  · rw [hkeep]
    exact h.io rid' (hio ▸ hrid)
  · rw [hkeep]
    by_cases hj : j = i
    · subst hj
      rw [← hpc rid' hrid]
      exact h.timeouts j rid hi
    · exact h.timeouts j rid' (htimeouts j hj ▸ hrid)

end Untouched

theorem ioStep_escaped {s t : RequestorState M} (h : SettleInv s) (hstep : ioStep s = some t) :
    t.escaped = s.escaped := by
  cases hio : s.io with
  | settle rid msg late =>
      simp only [ioStep, hio] at hstep
      split at hstep
      · rename_i hasync
        have hopen := (h rid).untaken (by simp [hio, ResponsePc.settling]) hasync
        rw [if_neg (by simp [hopen])] at hstep
        cases hstep
        rfl
      · cases hstep
        rfl
  | idle => simp [ioStep, hio] at hstep
  | getDesc rid msg late =>
      simp only [ioStep, hio] at hstep
      split at hstep <;> cases hstep <;> rfl
  | checkTimeout rid msg late =>
      simp only [ioStep, hio] at hstep
      split at hstep <;> cases hstep <;> rfl
  | delDesc rid =>
      simp only [ioStep, hio] at hstep
      cases hstep
      rfl

structure RequestorInv (sent : Bytes → Option (ReqType × Bool)) (s : RequestorState M) :
    Prop where
  settle : SettleInv s
  late : LateInv s
  untouched : UntouchedInv sent s
  escaped : s.escaped = false

theorem requestorInitial_inv (sent : Bytes → Option (ReqType × Bool)) :
    RequestorInv (M := M) sent (requestorInitial sent) := by
  have hreq : ∀ rid, ((requestorInitial sent : RequestorState M).requests rid).desc.response =
      none ∧ ((requestorInitial sent : RequestorState M).requests rid).desc.timeoutTriggered =
      false ∧ ((requestorInitial sent : RequestorState M).requests rid).found = false ∧
      ((requestorInitial sent : RequestorState M).requests rid).settled = 0 := by
    intro rid
    cases h : sent rid with
    | none => simp [requestorInitial, h]
    | some p => simp [requestorInitial, h]
  have hio : (requestorInitial sent : RequestorState M).io = .idle := rfl
  have htimeouts : ∀ i, (requestorInitial sent : RequestorState M).timeouts i = .idle :=
    fun _ => rfl
  refine ⟨fun rid => ?_, ⟨rfl, by simp [hio], by simp [hio], by simp [hio]⟩,
    ⟨fun _ _ => rfl, by simp [hio, ResponsePc.rid], by simp [htimeouts, TimeoutPc.rid]⟩, rfl⟩
  constructor <;> simp [hreq rid, hio, htimeouts, ResponsePc.settling]

/-- `started` is a history no invariant of the promise mentions. -/
theorem SettleInvAt.started {s : RequestorState M} {rid : Bytes} (h : SettleInvAt s rid)
    (rid' : Bytes) : SettleInvAt (s.started rid') rid := by
  by_cases heq : rid = rid'
  · subst heq
    obtain ⟨hcounted, huntaken, hvisible, hdecided, howedByTimeout, howed⟩ := h
    simp only [RequestorState.started, RequestorState.modify]
    constructor <;> simp only [Function.update_self] <;> assumption
  · exact h.of_frame (by simp [RequestorState.started, RequestorState.modify, heq]) (.inl rfl)
      (fun _ => .inl rfl)

theorem SettleInvAt.onResponse {s : RequestorState M} {rid : Bytes} (h : SettleInvAt s rid)
    (hidle : s.io = .idle) (rid' : Bytes) (msg : M) (late : Bool) :
    SettleInvAt { s with io := .getDesc rid' msg late } rid := by
  obtain ⟨hcounted, _, hvisible, hdecided, howedByTimeout, howed⟩ := h
  refine ⟨hcounted, by simp [ResponsePc.settling], fun hset => ?_, hdecided, howedByTimeout, ?_⟩
  · rcases hvisible hset with hflag | herase | ⟨hgone, _⟩
    · exact .inl hflag
    · rw [hidle] at herase
      cases herase
    · exact .inr (.inr ⟨hgone, by simp [ResponsePc.checking]⟩)
  · simpa [hidle, ResponsePc.checking, ResponsePc.settling] using howed

theorem LateInv.started {s : RequestorState M} (h : LateInv s) (rid : Bytes) :
    LateInv (s.started rid) := by
  have hflag : ∀ rid', ((s.started rid).requests rid').desc = (s.requests rid').desc := by
    intro rid'
    by_cases heq : rid' = rid
    · subst heq
      simp [RequestorState.started, RequestorState.modify]
    · simp [RequestorState.started, RequestorState.modify, heq]
  refine ⟨h.notLate, fun rid' msg hpc => ?_, fun rid' msg hpc => ?_, h.settle⟩
  · rw [hflag]
    exact h.getDesc rid' msg hpc
  · rw [hflag]
    exact h.checkTimeout rid' msg hpc

theorem UntouchedInv.started {sent : Bytes → Option (ReqType × Bool)} {s : RequestorState M}
    (h : UntouchedInv sent s) (rid : Bytes) :
    UntouchedInv sent (s.started rid) ∧ ((s.started rid).requests rid).started = true := by
  have hkeep : ∀ rid', (s.requests rid').started = true →
      ((s.started rid).requests rid').started = true := by
    intro rid' hset
    by_cases heq : rid' = rid
    · subst heq
      simp [RequestorState.started, RequestorState.modify]
    · simpa [RequestorState.started, RequestorState.modify, heq] using hset
  refine ⟨⟨fun rid' hnot => ?_, fun rid' hpc => hkeep _ (h.io rid' hpc),
    fun j rid' hpc => hkeep _ (h.timeouts j rid' hpc)⟩, by
      simp [RequestorState.started, RequestorState.modify]⟩
  by_cases heq : rid' = rid
  · subst heq
    simp [RequestorState.started, RequestorState.modify] at hnot
  · simp only [RequestorState.started, RequestorState.modify, Function.update_of_ne heq] at hnot ⊢
    exact h.untouched rid' hnot

/-- Starting a call changes only where its thread is and the history. -/
theorem RequestorInv.onResponse {sent : Bytes → Option (ReqType × Bool)} {s : RequestorState M}
    (h : RequestorInv sent s) (rid : Bytes) (msg : M) (hidle : s.io = .idle) :
    RequestorInv sent
      { s.started rid with io := .getDesc rid msg (s.requests rid).desc.timeoutTriggered } := by
  obtain ⟨hsettle, hlate, hunt, hescaped⟩ := h
  obtain ⟨huntouched, hstarted⟩ := hunt.started rid
  refine ⟨fun rid' => ((hsettle rid').started rid).onResponse hidle rid msg _,
    ⟨hlate.notLate, fun rid' msg' hpc => ?_, by simp, by simp⟩,
    ⟨huntouched.untouched, fun rid' hpc => ?_, huntouched.timeouts⟩, hescaped⟩
  · obtain ⟨rfl, rfl, hflag⟩ : rid = rid' ∧ msg = msg' ∧
        (s.requests rid).desc.timeoutTriggered = true := by simpa using hpc
    simpa [RequestorState.started, RequestorState.modify] using hflag
  · cases hpc
    exact hstarted

theorem RequestorInv.onTimeout {sent : Bytes → Option (ReqType × Bool)} {s : RequestorState M}
    (h : RequestorInv sent s) {i : Nat} {rid : Bytes} {pc : TimeoutPc}
    (hidle : s.timeouts i = .idle) (hpc : pc = .getDesc rid ∨ pc = .cancelTimer rid) :
    RequestorInv sent ((s.started rid).setTimeout i pc) := by
  obtain ⟨hsettle, hlate, hunt, hescaped⟩ := h
  obtain ⟨hnot, hgetDesc, hcheck, hlateSettle⟩ := hlate.started rid
  obtain ⟨huntouched, hstarted⟩ := hunt.started rid
  have hi : (s.started rid).timeouts i = .idle := hidle
  have hrid : pc.rid = some rid := by rcases hpc with rfl | rfl <;> rfl
  have hne : ∀ rid', pc ≠ .settle rid' := by rcases hpc with rfl | rfl <;> simp
  refine ⟨fun rid' => ((hsettle rid').started rid).setTimeout (by simp [hi]) (by simp [hi])
      (hne rid'),
    ⟨hnot, hgetDesc, hcheck, hlateSettle⟩,
    ⟨huntouched.untouched, huntouched.io, fun j rid' hj => ?_⟩, hescaped⟩
  by_cases heq : j = i
  · subst heq
    simp only [RequestorState.setTimeout, Function.update_self, hrid] at hj
    cases hj
    exact hstarted
  · simp only [RequestorState.setTimeout, Function.update_of_ne heq] at hj
    exact huntouched.timeouts j rid' hj

theorem requestorStep_inv {sent : Bytes → Option (ReqType × Bool)} {s t : RequestorState M}
    {a : RequestorAct M} (h : RequestorInv sent s) (hok : undisturbed s a = true)
    (hstep : requestorStep s a = some t) : RequestorInv sent t := by
  cases a with
  | ioRun =>
      exact ⟨ioStep_settleInv h.settle hstep, ioStep_lateInv h.late hstep,
        ioStep_untouchedInv h.untouched hstep, (ioStep_escaped h.settle hstep).trans h.escaped⟩
  | timeoutRun i =>
      obtain ⟨_, _, _, _, _, _, _, _, hescaped, _⟩ := timeoutStep_frame hstep
      exact ⟨timeoutStep_settleInv h.settle hok hstep, timeoutStep_lateInv h.late hstep,
        timeoutStep_untouchedInv h.untouched hstep, hescaped.trans h.escaped⟩
  | onResponse rid msg =>
      simp only [requestorStep] at hstep
      split at hstep
      · cases hstep
        exact h.onResponse rid msg (by assumption)
      · cases hstep
  | onTimeout i rid =>
      simp only [requestorStep] at hstep
      split at hstep
      · cases hstep
        exact h.onTimeout (by assumption) (.inl rfl)
      · cases hstep
  | syncTimeout i rid =>
      simp only [requestorStep] at hstep
      split at hstep
      · cases hstep
        exact h.onTimeout (by assumption) (.inr rfl)
      · cases hstep

/-- In a run in which `onTimeout` never sets the promise of a request that
`onResponse` is past checking: no exception leaves a call, no late response is
delivered, requests no call was started for keep their entry and descriptor,
and once the calls for a request have finished and one of them found it, its
promise was set exactly once. -/
theorem requestor_settles_once (sent : Bytes → Option (ReqType × Bool)) {s : RequestorState M}
    (h : Run requestorStep (fun s a => undisturbed s a = true) (requestorInitial sent) s) :
    s.escaped = false ∧ s.lateSettled = false ∧
    (∀ rid, (s.requests rid).started = false →
      s.requests rid = (requestorInitial sent).requests rid) ∧
    ∀ rid, Finished s rid → (s.requests rid).found = true →
      (s.requests rid).desc.reqtype = .ASYNC →
      (s.requests rid).settled = 1 ∧ (s.requests rid).desc.response ≠ none := by
  have hinv : RequestorInv sent s :=
    h.invariant (RequestorInv sent) (requestorInitial_inv sent)
      (fun _ _ _ hi hok hstep => requestorStep_inv hi hok hstep)
  refine ⟨hinv.escaped, hinv.late.notLate, hinv.untouched.untouched, ?_⟩
  intro rid ⟨hio, htimeouts⟩ hfound hasync
  have hset : (s.requests rid).desc.response ≠ none := by
    rcases (hinv.settle rid).owed hfound hasync with hset | hpc | hpc | ⟨i, hpc | hpc⟩
    · exact hset
    · exact absurd (ResponsePc.rid_of_checking hpc) hio
    · exact absurd (ResponsePc.rid_of_settling hpc) hio
    · exact absurd (by rw [hpc]; rfl) (htimeouts i)
    · exact absurd (by rw [hpc]; rfl) (htimeouts i)
  refine ⟨?_, hset⟩
  rw [(hinv.settle rid).counted, if_pos (Option.isSome_iff_ne_none.mpr hset)]

/-- One ASYNC request, `r`. -/
def oneAsync : Bytes → Option (ReqType × Bool) := fun rid =>
  if rid = str "r" then some (.ASYNC, false) else none

/-- The response is handled first; the synchronous sender gives up later. -/
def settledRun : List (RequestorAct Bytes) :=
  [.onResponse (str "r") (str "ok"), .ioRun, .syncTimeout 1 (str "r"), .timeoutRun 1,
    .timeoutRun 1, .ioRun, .ioRun, .timeoutRun 1, .timeoutRun 1, .timeoutRun 1, .ioRun]

theorem requestor_settles_once_settledRun :
    ∃ s, exec (guarded requestorStep (fun s a => undisturbed s a = true))
        (requestorInitial oneAsync) settledRun = some s ∧
      (s.requests (str "r")).settled = 1 ∧ s.escaped = false := by
  obtain ⟨s, hs, hview⟩ := Option.map_eq_some_iff.mp
    (show (exec (guarded requestorStep (fun s a => undisturbed s a = true))
      (requestorInitial oneAsync) settledRun).map (fun s => (s.requests (str "r")).settled) =
        some 1 by decide +kernel)
  exact ⟨s, hs, hview, (requestor_settles_once oneAsync (Run.of_guarded hs)).1⟩

/-- The synchronous sender's `onTimeout` sets the promise between the check and
the `set_value` of `onResponse`. -/
def racingRun : List (RequestorAct Bytes) :=
  [.onResponse (str "r") (str "ok"), .ioRun, .ioRun, .syncTimeout 1 (str "r"), .timeoutRun 1,
    .timeoutRun 1, .timeoutRun 1, .timeoutRun 1, .ioRun, .timeoutRun 1]

theorem requestor_exception_escapes :
    ¬ ∀ s : RequestorState Bytes, Reachable requestorStep (requestorInitial oneAsync) s →
      s.escaped = false := by
  intro h
  obtain ⟨s, hs, hescaped⟩ := Option.map_eq_some_iff.mp
    (show (exec requestorStep (requestorInitial oneAsync) racingRun).map (·.escaped) =
      some true by decide +kernel)
  rw [h s (Reachable.of_exec hs)] at hescaped
  cases hescaped

end LyqtRpc
