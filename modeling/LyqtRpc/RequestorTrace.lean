import LyqtRpc.PendingTable

/-!
Where the messages come from that a `Requestor` hands to its promises and callbacks:
`onResponse` was called with each of them, and it hands a message on once.
-/

set_option autoImplicit false

namespace LyqtRpc

variable {M : Type}

/-- The message that `onResponse` has and may still hand on. -/
def ResponsePc.held (pc : ResponsePc M) (rid : Bytes) : List M :=
  match pc with
  | .getDesc rid' msg _ | .checkTimeout rid' msg _ | .settle rid' msg _ =>
    if rid' = rid then [msg] else []
  | .idle | .delDesc _ => []

/-- What the callback and the promise of the request get in a step is what `onResponse`
held. -/
structure HandsOn (s t : RequestorState M) (rid : Bytes) : Prop where
  called : ((t.requests rid).calledBack ++ t.io.held rid).Sublist
    ((s.requests rid).calledBack ++ s.io.held rid)
  set : ∀ msg, (t.requests rid).desc.response = some (.response msg) →
    (s.requests rid).desc.response = some (.response msg) ∨ msg ∈ s.io.held rid

/-- `came`: the messages that `onResponse` was called with for the request. -/
structure Traced (s : RequestorState M) (rid : Bytes) (came : List M) : Prop where
  called : ((s.requests rid).calledBack ++ s.io.held rid).Sublist came
  set : ∀ msg, (s.requests rid).desc.response = some (.response msg) → msg ∈ came

section Steps
variable {s t : RequestorState M} {rid : Bytes} {came : List M}

theorem Traced.handsOn (h : Traced s rid came) (hs : HandsOn s t rid) : Traced t rid came where
  called := hs.called.trans h.called
  set msg hmsg := by
    rcases hs.set msg hmsg with hold | hheld
    · exact h.set msg hold
    · exact h.called.subset (List.mem_append_right _ hheld)

theorem HandsOn.of_same (hrequest : t.requests rid = s.requests rid)
    (hio : (t.io.held rid).Sublist (s.io.held rid)) : HandsOn s t rid where
  called := by
    rw [hrequest]
    exact (List.Sublist.refl _).append hio
  set msg hmsg := .inl (hrequest ▸ hmsg)

/-- A change of a request that leaves its promise and its callback alone. -/
theorem HandsOn.of_modify (rid' : Bytes) (f : Request M → Request M)
    (hrequests : t.requests = (s.modify rid' f).requests)
    (hcalled : ∀ r, (f r).calledBack = r.calledBack)
    (hset : ∀ r msg, (f r).desc.response = some (.response msg) →
      r.desc.response = some (.response msg))
    (hio : (t.io.held rid).Sublist (s.io.held rid)) : HandsOn s t rid := by
  by_cases hrid : rid = rid'
  · subst hrid
    have hself : t.requests rid = f (s.requests rid) := by
      rw [hrequests]
      exact Function.update_self ..
    constructor
    · rw [hself, hcalled]
      exact (List.Sublist.refl _).append hio
    · intro msg hmsg
      rw [hself] at hmsg
      exact .inl (hset _ msg hmsg)
  · have hsame : t.requests rid = s.requests rid := by
      rw [hrequests]
      exact Function.update_of_ne hrid ..
    exact .of_same hsame hio

theorem ioStep_handsOn (hstep : ioStep s = some t) (rid : Bytes) : HandsOn s t rid := by
  cases hio : s.io with
  | idle => simp [ioStep, hio] at hstep
  | getDesc rid' msg late =>
      simp only [ioStep, hio] at hstep
      split at hstep
      · cases hstep
        exact .of_modify rid' (fun r => { r with found := true }) rfl (fun _ => rfl)
          (fun _ _ h => h) (hio ▸ .refl _)
      · cases hstep
        exact .of_same rfl (List.nil_sublist _)
  | checkTimeout rid' msg late =>
      simp only [ioStep, hio] at hstep
      split at hstep
      · cases hstep
        exact .of_modify rid' (fun r => { r with pending := false }) rfl (fun _ => rfl)
          (fun _ _ h => h) (List.nil_sublist _)
      · cases hstep
        exact .of_same rfl (hio ▸ .refl _)
  | settle rid' msg late =>
      simp only [ioStep, hio] at hstep
      split at hstep
      · split at hstep
        · cases hstep
          exact .of_same rfl (List.nil_sublist _)
        · cases hstep
          constructor
          · by_cases hrid : rid = rid'
            · subst hrid
              simp [RequestorState.setValue, RequestorState.modify, ResponsePc.held]
            · simp [RequestorState.setValue, RequestorState.modify, ResponsePc.held, hrid]
          · intro msg' hmsg'
            by_cases hrid : rid = rid'
            · subst hrid
              right
              simpa [RequestorState.setValue, RequestorState.modify, hio, ResponsePc.held,
                eq_comm] using hmsg'
            · left
              simpa [RequestorState.setValue, RequestorState.modify, hrid] using hmsg'
      · cases hstep
        constructor
        · by_cases hrid : rid = rid'
          · subst hrid
            simp [RequestorState.modify, hio, ResponsePc.held]
          · simp [RequestorState.modify, ResponsePc.held, hrid]
        · intro msg' hmsg'
          left
          by_cases hrid : rid = rid'
          · subst hrid
            simpa [RequestorState.modify] using hmsg'
          · simpa [RequestorState.modify, hrid] using hmsg'
  | delDesc rid' =>
      simp only [ioStep, hio] at hstep
      cases hstep
      exact .of_modify rid' (fun r => { r with pending := false }) rfl (fun _ => rfl)
          (fun _ _ h => h) (List.nil_sublist _)

/-- A timeout sets the promise to a response that it makes up. -/
theorem timeoutStep_handsOn {i : Nat} (hstep : timeoutStep s i = some t) (rid : Bytes) :
    HandsOn s t rid := by
  cases hpc : s.timeouts i with
  | idle => simp [timeoutStep, hpc] at hstep
  | cancelTimer rid' =>
      simp only [timeoutStep, hpc] at hstep
      cases hstep
      exact .of_same rfl (.refl _)
  | getDesc rid' =>
      simp only [timeoutStep, hpc] at hstep
      split at hstep
      · cases hstep
        exact .of_modify rid' (fun r => { r with found := true }) rfl (fun _ => rfl)
          (fun _ _ h => h) (.refl _)
      · cases hstep
        exact .of_same rfl (.refl _)
  | triggerTimeout rid' =>
      simp only [timeoutStep, hpc] at hstep
      split at hstep
      · cases hstep
        exact .of_same rfl (.refl _)
      · cases hstep
        exact .of_modify rid'
          (fun r => { r with desc := { r.desc with timeoutTriggered := true } }) rfl (fun _ => rfl)
          (fun _ _ h => h) (.refl _)
  | settle rid' =>
      simp only [timeoutStep, hpc] at hstep
      split at hstep
      · split at hstep
        · cases hstep
          exact .of_same rfl (.refl _)
        · cases hstep
          exact .of_modify rid' (fun r => { r with
            desc := { r.desc with response := some (.timeout (s.requests rid').desc.proto) }
            settled := r.settled + 1 }) rfl (fun _ => rfl) (fun _ _ h => by cases h) (.refl _)
      · cases hstep
        exact .of_same rfl (.refl _)
  | delDesc rid' =>
      simp only [timeoutStep, hpc] at hstep
      cases hstep
      exact .of_modify rid' (fun r => { r with pending := false }) rfl (fun _ => rfl)
          (fun _ _ h => h) (.refl _)

end Steps

section Pending
variable {s t : PendingState M}

theorem afterHandler_core (s : PendingState M) (a : PendingAct M) (t : RequestorState M) :
    (s.afterHandler a t).core = t := by
  unfold PendingState.afterHandler
  split <;> rfl

/-- Every step but a new call of `onResponse`. -/
theorem pendingStep_handsOn {a : PendingAct M} (ha : ∀ rid msg, a ≠ .onResponse rid msg)
    (hstep : pendingStep s a = some t) (rid : Bytes) : HandsOn s.core t.core rid := by
  cases a with
  | newDesc rid' mode proto =>
      simp only [pendingStep] at hstep
      split at hstep
      · cases hstep
        exact .of_modify rid' (fun r => { r with
          pending := true
          desc := { reqtype := mode.reqtype, proto } }) rfl (fun _ => rfl)
          (fun _ _ h => by cases h) (.refl _)
      · cases hstep
  | runAfter rid' =>
      simp only [pendingStep] at hstep
      split at hstep <;> cases hstep
      exact .of_same rfl (.refl _)
  | connSend rid' sent =>
      simp only [pendingStep] at hstep
      split at hstep <;> cases hstep
      exact .of_same rfl (.refl _)
  | delDesc rid' =>
      simp only [pendingStep] at hstep
      split at hstep <;> cases hstep
      exact .of_modify rid' (fun r => { r with pending := false }) rfl (fun _ => rfl)
        (fun _ _ h => h) (.refl _)
  | timerFires i rid' =>
      simp only [pendingStep] at hstep
      split at hstep <;> cases hstep
      exact .of_modify rid' (fun r => { r with started := true }) rfl (fun _ => rfl)
        (fun _ _ h => h) (.refl _)
  | waitTimeout i rid' =>
      simp only [pendingStep] at hstep
      split at hstep <;> cases hstep
      exact .of_modify rid' (fun r => { r with started := true }) rfl (fun _ => rfl)
        (fun _ _ h => h) (.refl _)
  | elapse rid' =>
      simp only [pendingStep] at hstep
      split at hstep <;> cases hstep <;> exact .of_same rfl (.refl _)
  | onResponse rid' msg => exact absurd rfl (ha rid' msg)
  | ioRun =>
      obtain ⟨core, hcore, rfl⟩ := Option.map_eq_some_iff.mp hstep
      rw [afterHandler_core]
      exact ioStep_handsOn hcore rid
  | callbackThrows =>
      simp only [pendingStep] at hstep
      split at hstep
      · rename_i rid' msg late hio
        split at hstep <;> cases hstep
        constructor
        · by_cases hrid : rid = rid'
          · subst hrid
            simp [RequestorState.modify, hio, ResponsePc.held]
          · simp [RequestorState.modify, ResponsePc.held, hrid]
        · intro msg' hmsg'
          left
          by_cases hrid : rid = rid'
          · subst hrid
            simpa [RequestorState.modify] using hmsg'
          · simpa [RequestorState.modify, hrid] using hmsg'
      · cases hstep
  | timeoutRun i =>
      obtain ⟨core, hcore, rfl⟩ := Option.map_eq_some_iff.mp hstep
      rw [afterHandler_core]
      exact timeoutStep_handsOn hcore rid

/-- The connection has taken the request. -/
def SendPc.handed (pc : SendPc) : Bool := pc = .sent ∨ pc = .timedOut

theorem handed_update {calls : Bytes → SendCall} {rid rid' : Bytes} {c : SendCall}
    (h : (calls rid).pc.handed = true) (hc : rid = rid' → c.pc.handed = true) :
    (Function.update calls rid' c rid).pc.handed = true := by
  by_cases hrid : rid = rid'
  · subst hrid
    rw [Function.update_self]
    exact hc rfl
  · rw [Function.update_of_ne hrid]
    exact h

theorem handed_afterHandler {a : PendingAct M} {core : RequestorState M} {rid : Bytes}
    (h : (s.calls rid).pc.handed = true) :
    ((s.afterHandler a core).calls rid).pc.handed = true := by
  unfold PendingState.afterHandler
  split
  · exact handed_update h (fun heq => heq ▸ h)
  · exact h

/-- A request is sent once. -/
theorem pendingStep_handed {a : PendingAct M} {rid : Bytes} (h : (s.calls rid).pc.handed = true)
    (hstep : pendingStep s a = some t) : (t.calls rid).pc.handed = true := by
  -- a step that needs another place of the sender is not one of this request
  have hother : ∀ {rid' : Bytes} {pc : SendPc}, (s.calls rid').pc = pc → pc.handed = false →
      rid ≠ rid' := by
    intro rid' pc hpc hnot heq
    subst heq
    rw [hpc, hnot] at h
    cases h
  cases a with
  | newDesc rid' mode proto =>
      simp only [pendingStep] at hstep
      split at hstep <;> cases hstep
      rename_i hpc
      simp only [Function.update_of_ne (hother hpc rfl)]
      exact h
  | runAfter rid' =>
      simp only [pendingStep] at hstep
      split at hstep <;> cases hstep
      rename_i hpc
      exact handed_update h fun heq => absurd heq (hother hpc rfl)
  | connSend rid' sent =>
      simp only [pendingStep] at hstep
      split at hstep <;> cases hstep
      rename_i hpc
      exact handed_update h fun heq => absurd heq (hother hpc rfl)
  | delDesc rid' =>
      simp only [pendingStep] at hstep
      split at hstep <;> cases hstep
      rename_i hpc
      have hcancel : ((s.cancel rid').calls rid).pc.handed = true :=
        handed_update h fun heq => absurd heq (hother hpc rfl)
      exact handed_update hcancel fun heq => absurd heq (hother hpc rfl)
  | timerFires i rid' =>
      simp only [pendingStep] at hstep
      split at hstep <;> cases hstep
      exact handed_update h fun heq => heq ▸ h
  | waitTimeout i rid' =>
      simp only [pendingStep] at hstep
      split at hstep <;> cases hstep
      exact handed_update h fun _ => rfl
  | elapse rid' =>
      simp only [pendingStep] at hstep
      split at hstep <;> cases hstep <;> exact handed_update h fun heq => heq ▸ h
  | onResponse rid' msg =>
      simp only [pendingStep] at hstep
      split at hstep <;> cases hstep
      exact handed_update h fun heq => heq ▸ h
  | ioRun =>
      obtain ⟨core, _, rfl⟩ := Option.map_eq_some_iff.mp hstep
      exact handed_afterHandler h
  | callbackThrows =>
      simp only [pendingStep] at hstep
      split at hstep
      · split at hstep <;> cases hstep
        exact h
      · cases hstep
  | timeoutRun i =>
      obtain ⟨core, _, rfl⟩ := Option.map_eq_some_iff.mp hstep
      exact handed_afterHandler h

/-- The request that a connection takes was not taken before, and is from now on. -/
theorem connSend_handed {rid : Bytes} (hstep : pendingStep s (.connSend rid true) = some t) :
    (s.calls rid).pc.handed = false ∧ (t.calls rid).pc.handed = true := by
  simp only [pendingStep] at hstep
  split at hstep <;> cases hstep
  rename_i hpc
  rw [hpc]
  refine ⟨rfl, ?_⟩
  simp only [PendingState.setPc, PendingState.setCall, Function.update_self, if_true]
  rfl

/-- `onResponse` is called when no other call of it is running. -/
theorem onResponse_traced {rid rid' : Bytes} {msg : M} {came : List M}
    (h : Traced s.core rid came) (hstep : pendingStep s (.onResponse rid' msg) = some t) :
    Traced t.core rid (if rid' = rid then came ++ [msg] else came) := by
  simp only [pendingStep] at hstep
  split at hstep
  · rename_i hio
    cases hstep
    have hcalled := h.called
    rw [hio] at hcalled
    by_cases hrid : rid' = rid
    · subst hrid
      rw [if_pos rfl]
      constructor
      · simpa [RequestorState.started, RequestorState.modify, ResponsePc.held] using hcalled
      · intro msg' hmsg'
        apply List.mem_append_left
        exact h.set msg' (by simpa [RequestorState.started, RequestorState.modify] using hmsg')
    · have hne : rid ≠ rid' := Ne.symm hrid
      rw [if_neg hrid]
      constructor
      · simpa [RequestorState.started, RequestorState.modify, ResponsePc.held, hrid, hne]
          using hcalled
      · intro msg' hmsg'
        exact h.set msg' (by simpa [RequestorState.started, RequestorState.modify, hne] using hmsg')
  · cases hstep

end Pending

end LyqtRpc
