import LyqtRpc.CallModes
import LyqtRpc.RequestorSettle

/-!
`_request_desc` of `requestor.hpp` over whole runs: the senders of the three call
modes, the timers and the IO thread. An entry whose request is over and done
with is gone, except where the timeout of a request without a timer passes.
-/

set_option autoImplicit false

namespace LyqtRpc

open StepRun

variable {M : Type}

/-- How far a `send` has come. -/
inductive SendPc where
  | unused
  /-- The entry is made, and the timer not yet set. -/
  | runAfter
  | connSend
  /-- `conn->send` returned false. -/
  | delDesc
  | failed
  | sent
  /-- The synchronous sender's `wait_for` ran out. -/
  | timedOut
  deriving DecidableEq, Repr

/-- The sender of a request, and what has happened to the request so far. -/
structure SendCall where
  mode : CallMode := .sync
  pc : SendPc := .unused
  timer : Bool := false
  answered : Bool := false
  elapsed : Bool := false
  deriving DecidableEq, Repr

structure PendingState (M : Type) where
  core : RequestorState M
  calls : Bytes → SendCall := fun _ => {}

inductive PendingAct (M : Type) where
  | newDesc (rid : Bytes) (mode : CallMode) (proto : Bool)
  | runAfter (rid : Bytes)
  | connSend (rid : Bytes) (sent : Bool)
  | delDesc (rid : Bytes)
  /-- The timer is due; `onTimeout` runs on thread `i`. -/
  | timerFires (i : Nat) (rid : Bytes)
  /-- The synchronous sender gives up; `onTimeout` runs on its thread `i`. -/
  | waitTimeout (i : Nat) (rid : Bytes)
  /-- The time of a future or callback request is up. -/
  | elapse (rid : Bytes)
  | onResponse (rid : Bytes) (msg : M)
  | ioRun
  /-- The callback that `onResponse` runs throws. -/
  | callbackThrows
  | timeoutRun (i : Nat)

namespace PendingState

def setCall (s : PendingState M) (rid : Bytes) (f : SendCall → SendCall) : PendingState M :=
  { s with calls := Function.update s.calls rid (f (s.calls rid)) }

def setPc (s : PendingState M) (rid : Bytes) (pc : SendPc) : PendingState M :=
  s.setCall rid fun c => { c with pc }

def cancel (s : PendingState M) (rid : Bytes) : PendingState M :=
  s.setCall rid fun c => { c with timer := false }

/-- `_request_desc` -/
def table (s : PendingState M) : Set Bytes := {rid | (s.core.requests rid).pending = true}

end PendingState

/-- The timer a handler step cancels. -/
def cancelled (s : RequestorState M) : PendingAct M → Option Bytes
  | .ioRun =>
    match s.io with
    | .checkTimeout rid _ _ =>
      if (s.requests rid).desc.timeoutTriggered then none else some rid
    | _ => none
  | .timeoutRun i =>
    match s.timeouts i with
    | .cancelTimer rid => if (s.requests rid).pending then some rid else none
    | _ => none
  | _ => none

def PendingState.afterHandler (s : PendingState M) (a : PendingAct M) (t : RequestorState M) :
    PendingState M :=
  match cancelled s.core a with
  | some rid => { s with core := t }.cancel rid
  | none => { s with core := t }

def pendingStep (s : PendingState M) : PendingAct M → Option (PendingState M)
  | .newDesc rid mode proto =>
    match (s.calls rid).pc with
    | .unused =>
      some { s with
        core := s.core.modify rid fun r =>
          { r with pending := true, desc := { reqtype := mode.reqtype, proto } }
        calls := Function.update s.calls rid
          { mode, pc := if mode = .sync then .runAfter else .connSend } }
    | _ => none
  | .runAfter rid =>
    match (s.calls rid).pc with
    | .runAfter => some (s.setCall rid fun c => { c with timer := true, pc := .connSend })
    | _ => none
  | .connSend rid sent =>
    match (s.calls rid).pc with
    | .connSend => some (s.setPc rid (if sent then .sent else .delDesc))
    | _ => none
  | .delDesc rid =>
    match (s.calls rid).pc with
    | .delDesc => some { (s.cancel rid).setPc rid .failed with core := s.core.delDesc rid }
    | _ => none
  | .timerFires i rid =>
    match (s.calls rid).timer, s.core.timeouts i with
    | true, .idle =>
      some { s.setCall rid (fun c => { c with timer := false, elapsed := true }) with
             core := (s.core.started rid).setTimeout i (.getDesc rid) }
    | _, _ => none
  | .waitTimeout i rid =>
    match (s.calls rid).pc, (s.calls rid).mode, (s.core.requests rid).desc.response,
      s.core.timeouts i with
    | .sent, .sync, none, .idle =>
      some { s.setCall rid (fun c => { c with pc := .timedOut, elapsed := true }) with
             core := (s.core.started rid).setTimeout i (.cancelTimer rid) }
    | _, _, _, _ => none
  | .elapse rid =>
    match (s.calls rid).pc, (s.calls rid).mode with
    | .sent, .future | .sent, .callback =>
      some (s.setCall rid fun c => { c with elapsed := true })
    | _, _ => none
  | .onResponse rid msg =>
    match s.core.io with
    | .idle =>
      some { s.setCall rid (fun c => { c with answered := c.pc ≠ .unused }) with
             core := { s.core.started rid with
                       io := .getDesc rid msg (s.core.requests rid).desc.timeoutTriggered } }
    | _ => none
  | .ioRun => (ioStep s.core).map (s.afterHandler .ioRun)
  | .callbackThrows =>
    match s.core.io with
    | .settle rid msg _ =>
      match (s.core.requests rid).desc.reqtype with
      | .ASYNC => none
      | .CALLBACK =>
        some { s with
          core := { s.core.modify rid
            (fun r => { r with calledBack := r.calledBack ++ [msg] }) with
              io := .idle, escaped := true } }
    | _ => none
  | .timeoutRun i => (timeoutStep s.core i).map (s.afterHandler (.timeoutRun i))

/-- Nothing sent yet. -/
def pendingInitial : PendingState M where
  core := requestorInitial fun _ => none

/-- Answered, not sent, or out of time. -/
def SendCall.over (c : SendCall) : Bool := c.answered || c.pc = .failed || c.elapsed

/-- The step does not end the time of a request that has no timer and is still
in the table, and no callback throws. -/
def removable (s : PendingState M) : PendingAct M → Bool
  | .elapse rid => !(s.core.requests rid).pending
  | .callbackThrows => false
  | _ => true

/-- What is kept for an entry: while it is in the table and its request is
over, a call that will erase it is running. -/
structure HeldInvAt (s : RequestorState M) (c : SendCall) (rid : Bytes) : Prop where
  unused : c.pc = .unused → (s.requests rid).pending = false ∧ c.timer = false ∧
    c.answered = false ∧ c.elapsed = false ∧ ∀ i, (s.timeouts i).rid ≠ some rid
  failed : c.pc = .failed → (s.requests rid).pending = false
  decided : ∀ i, s.timeouts i = .settle rid → (s.requests rid).desc.timeoutTriggered = true
  /-- Whoever decided the timeout erases the entry. -/
  flagged : (s.requests rid).pending = true →
    (s.requests rid).desc.timeoutTriggered = true →
    ∃ i, s.timeouts i = .settle rid ∨ s.timeouts i = .delDesc rid
  set : (s.requests rid).pending = true → (s.requests rid).desc.response ≠ none →
    (s.requests rid).desc.timeoutTriggered = true ∨ s.io = .delDesc rid
  owed : (s.requests rid).pending = true → c.answered = true ∨ c.elapsed = true →
    s.io.rid = some rid ∨ ∃ i, (s.timeouts i).rid = some rid

def HeldInv (s : PendingState M) : Prop := ∀ rid, HeldInvAt s.core (s.calls rid) rid

section Held
variable {s t : RequestorState M} {c : SendCall} {rid : Bytes}

theorem TimeoutPc.rid_of_erasing {pc : TimeoutPc} (h : pc = .settle rid ∨ pc = .delDesc rid) :
    pc.rid = some rid := by
  rcases h with rfl | rfl <;> rfl

/-- A step that touches neither the request nor a call for it. -/
theorem HeldInvAt.of_frame (h : HeldInvAt s c rid) (hreq : t.requests rid = s.requests rid)
    (hio : t.io = s.io ∨ (s.io.rid ≠ some rid ∧ t.io.rid ≠ some rid))
    (htimeouts : ∀ i, t.timeouts i = s.timeouts i ∨
      ((s.timeouts i).rid ≠ some rid ∧ (t.timeouts i).rid ≠ some rid)) : HeldInvAt t c rid := by
  have hpc : ∀ i pc, pc.rid = some rid → (t.timeouts i = pc ↔ s.timeouts i = pc) := by
    intro i pc hrid
    rcases htimeouts i with hi | ⟨hs, ht⟩
    · rw [hi]
    · exact ⟨fun h => absurd (h ▸ hrid) ht, fun h => absurd (h ▸ hrid) hs⟩
  have hrid : ∀ i, (t.timeouts i).rid = some rid ↔ (s.timeouts i).rid = some rid := by
    intro i
    rcases htimeouts i with hi | ⟨hs, ht⟩
    · rw [hi]
    · exact ⟨fun h => absurd h ht, fun h => absurd h hs⟩
  have herasing : t.io = .delDesc rid ↔ s.io = .delDesc rid := by
    rcases hio with hio | ⟨hs, ht⟩
    · rw [hio]
    · exact ⟨fun h => absurd (by rw [h]; rfl) ht, fun h => absurd (by rw [h]; rfl) hs⟩
  have hiorid : t.io.rid = some rid ↔ s.io.rid = some rid := by
    rcases hio with hio | ⟨hs, ht⟩
    · rw [hio]
    · exact ⟨fun h => absurd h ht, fun h => absurd h hs⟩
  have hsettle := fun i => hpc i (.settle rid) rfl
  have hdel := fun i => hpc i (.delDesc rid) rfl
  constructor
  · simp only [hreq, ne_eq, hrid]
    exact h.unused
  · rw [hreq]
    exact h.failed
  · simp only [hreq, hsettle]
    exact h.decided
  · simp only [hreq, hsettle, hdel]
    exact h.flagged
  · rw [hreq, herasing]
    exact h.set
  · simp only [hreq, hiorid, hrid]
    exact h.owed

/-- An entry that is not in the table owes nothing. -/
theorem HeldInvAt.of_erased (hpending : (t.requests rid).pending = false)
    (hunused : c.pc = .unused → c.timer = false ∧ c.answered = false ∧ c.elapsed = false ∧
      ∀ i, (t.timeouts i).rid ≠ some rid)
    (hdecided : ∀ i, t.timeouts i = .settle rid →
      (t.requests rid).desc.timeoutTriggered = true) : HeldInvAt t c rid := by
  refine ⟨fun hpc => ⟨hpending, hunused hpc⟩, fun _ => hpending, hdecided, ?_, ?_, ?_⟩ <;>
    · intro hheld
      rw [hpending] at hheld
      cases hheld

/-- A change of the request that leaves its entry and its flag. -/
theorem HeldInvAt.modify {f : Request M → Request M} (h : HeldInvAt s c rid)
    (hpending : (f (s.requests rid)).pending = (s.requests rid).pending)
    (hflag : (f (s.requests rid)).desc.timeoutTriggered =
      (s.requests rid).desc.timeoutTriggered)
    (hset : (s.requests rid).pending = true → (f (s.requests rid)).desc.response ≠ none →
      (s.requests rid).desc.timeoutTriggered = true ∨ s.io = .delDesc rid) :
    HeldInvAt (s.modify rid f) c rid := by
  simp only [RequestorState.modify]
  constructor <;> simp only [Function.update_self, hpending, hflag]
  · exact h.unused
  · exact h.failed
  · exact h.decided
  · exact h.flagged
  · exact hset
  · exact h.owed

/-- The same, by the call of `onResponse`, which goes on. -/
theorem HeldInvAt.advance {f : Request M → Request M} {io : ResponsePc M} {lateSettled : Bool}
    (h : HeldInvAt s c rid) (hio : io.rid = some rid)
    (hpending : (f (s.requests rid)).pending = (s.requests rid).pending)
    (hflag : (f (s.requests rid)).desc.timeoutTriggered =
      (s.requests rid).desc.timeoutTriggered)
    (hset : (s.requests rid).pending = true → (f (s.requests rid)).desc.response ≠ none →
      (s.requests rid).desc.timeoutTriggered = true ∨ io = .delDesc rid) :
    HeldInvAt { s.modify rid f with io, lateSettled } c rid := by
  simp only [RequestorState.modify]
  constructor <;> simp only [Function.update_self, hpending, hflag]
  · exact h.unused
  · exact h.failed
  · exact h.decided
  · exact h.flagged
  · exact hset
  · exact fun _ _ => .inl hio

theorem HeldInvAt.found (h : HeldInvAt s c rid) : HeldInvAt (s.found rid) c rid :=
  h.modify rfl rfl h.set

theorem ioStep_heldInvAt (h : HeldInvAt s c rid) (hrid : s.io.rid = some rid)
    (hstep : ioStep s = some t) : HeldInvAt t c rid := by
  have hunused := h.unused
  have hdecided := h.decided
  have hflagged := h.flagged
  have hset := h.set
  cases hio : s.io with
  | idle => simp [ioStep, hio] at hstep
  | getDesc rid' msg late =>
      obtain rfl : rid' = rid := by simpa [hio, ResponsePc.rid] using hrid
      rw [hio] at hset
      simp only [ioStep, hio] at hstep
      split at hstep
      · cases hstep
        exact h.advance rfl rfl rfl
          (fun hheld hsome => .inl ((hset hheld hsome).resolve_right (by simp)))
      · cases hstep
        rename_i hnot
        exact .of_erased (Bool.eq_false_iff.mpr hnot) (fun hpc => (hunused hpc).2) hdecided
  | checkTimeout rid' msg late =>
      obtain rfl : rid' = rid := by simpa [hio, ResponsePc.rid] using hrid
      rw [hio] at hset
      simp only [ioStep, hio] at hstep
      split at hstep
      · cases hstep
        simp only [RequestorState.delDesc, RequestorState.modify]
        apply HeldInvAt.of_erased <;> simp only [Function.update_self]
        · exact fun hpc => (hunused hpc).2
        · exact hdecided
      · cases hstep
        exact ⟨hunused, h.failed, hdecided, hflagged,
          fun hheld hsome => .inl ((hset hheld hsome).resolve_right (by simp)),
          fun _ _ => .inl rfl⟩
  | settle rid' msg late =>
      obtain rfl : rid' = rid := by simpa [hio, ResponsePc.rid] using hrid
      rw [hio] at hset
      simp only [ioStep, hio] at hstep
      split at hstep
      · split at hstep
        · cases hstep
          rename_i hsome
          -- the promise was set by a timeout, whose call erases the entry
          have hflag : (s.requests rid').pending = true →
              (s.requests rid').desc.timeoutTriggered = true := by
            intro hheld
            have hne := Option.ne_none_iff_isSome.mpr hsome
            exact (hset hheld hne).resolve_right (by simp)
          refine ⟨hunused, h.failed, hdecided, hflagged, fun hheld _ => .inl (hflag hheld), ?_⟩
          intro hheld _
          obtain ⟨i, hi⟩ := hflagged hheld (hflag hheld)
          exact .inr ⟨i, TimeoutPc.rid_of_erasing hi⟩
        · cases hstep
          exact h.advance rfl rfl rfl (fun _ _ => .inr rfl)
      · cases hstep
        exact h.advance rfl rfl rfl (fun _ _ => .inr rfl)
  | delDesc rid' =>
      obtain rfl : rid' = rid := by simpa [hio, ResponsePc.rid] using hrid
      simp only [ioStep, hio] at hstep
      cases hstep
      simp only [RequestorState.delDesc, RequestorState.modify]
      apply HeldInvAt.of_erased <;> simp only [Function.update_self]
      · exact fun hpc => (hunused hpc).2
      · exact hdecided

/-- A call of `onTimeout` goes on, and stays bound to erase if it was. -/
theorem HeldInvAt.setTimeout {i : Nat} {pc : TimeoutPc} (h : HeldInvAt s c rid)
    (hi : (s.timeouts i).rid = some rid) (hpc : pc.rid = some rid)
    (hdecided : pc = .settle rid → (s.requests rid).desc.timeoutTriggered = true)
    (herasing : s.timeouts i = .settle rid ∨ s.timeouts i = .delDesc rid →
      pc = .settle rid ∨ pc = .delDesc rid) : HeldInvAt (s.setTimeout i pc) c rid := by
  refine ⟨fun hnone => absurd hi ((h.unused hnone).2.2.2.2 i), h.failed, ?_, ?_, h.set, ?_⟩
  · exact forall_update (P := fun x => x = .settle rid → _) h.decided hdecided
  · intro hheld hflag
    obtain ⟨j, hj⟩ := h.flagged hheld hflag
    by_cases heq : j = i
    · refine ⟨i, ?_⟩
      simp only [RequestorState.setTimeout, Function.update_self]
      exact herasing (heq ▸ hj)
    · refine ⟨j, ?_⟩
      simp only [RequestorState.setTimeout, Function.update_of_ne heq]
      exact hj
  · intro _ _
    refine .inr ⟨i, ?_⟩
    simp only [RequestorState.setTimeout, Function.update_self]
    exact hpc

theorem timeoutStep_heldInvAt {i : Nat} (h : HeldInvAt s c rid)
    (hrid : (s.timeouts i).rid = some rid) (hstep : timeoutStep s i = some t) :
    HeldInvAt t c rid := by
  have hused : c.pc ≠ .unused := fun hnone => (h.unused hnone).2.2.2.2 i hrid
  cases hi : s.timeouts i with
  | idle => simp [timeoutStep, hi] at hstep
  | cancelTimer rid' =>
      obtain rfl : rid' = rid := by simpa [hi, TimeoutPc.rid] using hrid
      simp only [timeoutStep, hi] at hstep
      cases hstep
      exact h.setTimeout hrid rfl (by simp) (by simp [hi])
  | getDesc rid' =>
      obtain rfl : rid' = rid := by simpa [hi, TimeoutPc.rid] using hrid
      simp only [timeoutStep, hi] at hstep
      split at hstep
      · cases hstep
        refine h.found.setTimeout ?_ rfl (by simp) ?_
        · exact hrid
        · show s.timeouts i = _ ∨ s.timeouts i = _ → _
          simp [hi]
      · cases hstep
        rename_i hnot
        refine .of_erased (Bool.eq_false_iff.mpr hnot) (fun hnone => absurd hnone hused) ?_
        exact forall_update (P := fun x => x = .settle rid' → _) h.decided (by simp)
  | triggerTimeout rid' =>
      obtain rfl : rid' = rid := by simpa [hi, TimeoutPc.rid] using hrid
      simp only [timeoutStep, hi] at hstep
      split at hstep
      · cases hstep
        rename_i hflag
        -- another call decided the timeout, and is not done with the entry
        have hother : (s.requests rid').pending = true →
            ∃ j, j ≠ i ∧ (s.timeouts j = .settle rid' ∨ s.timeouts j = .delDesc rid') := by
          intro hheld
          obtain ⟨j, hj⟩ := h.flagged hheld hflag
          refine ⟨j, fun heq => ?_, hj⟩
          rw [heq, hi] at hj
          simp at hj
        refine ⟨fun hnone => absurd hnone hused, h.failed, ?_, ?_, h.set, ?_⟩
        · exact forall_update (P := fun x => x = .settle rid' → _) h.decided
            (by simp)
        · intro hheld _
          obtain ⟨j, hj, herasing⟩ := hother hheld
          refine ⟨j, ?_⟩
          simp only [RequestorState.setTimeout, Function.update_of_ne hj]
          exact herasing
        · intro hheld _
          obtain ⟨j, hj, herasing⟩ := hother hheld
          refine .inr ⟨j, ?_⟩
          simp only [RequestorState.setTimeout, Function.update_of_ne hj]
          exact TimeoutPc.rid_of_erasing herasing
      · cases hstep
        simp only [RequestorState.modify, RequestorState.setTimeout]
        constructor <;> simp only [Function.update_self]
        · exact fun hnone => absurd hnone hused
        · exact h.failed
        · exact fun _ _ => trivial
        · exact fun _ _ => ⟨i, .inl (Function.update_self ..)⟩
        · exact fun _ _ => .inl trivial
        · exact fun _ _ => .inr ⟨i, by rw [Function.update_self]; rfl⟩
  | settle rid' =>
      obtain rfl : rid' = rid := by simpa [hi, TimeoutPc.rid] using hrid
      have hflag := h.decided i hi
      simp only [timeoutStep, hi] at hstep
      split at hstep
      · split at hstep
        · cases hstep
          exact h.setTimeout hrid rfl (by simp) (fun _ => .inr rfl)
        · cases hstep
          have hvalue : HeldInvAt (s.setValue rid' (.timeout (s.requests rid').desc.proto)) c
              rid' :=
            h.modify rfl rfl (fun _ _ => .inl hflag)
          exact hvalue.setTimeout hrid rfl (by simp) (fun _ => .inr rfl)
      · cases hstep
        exact h.setTimeout hrid rfl (by simp) (fun _ => .inr rfl)
  | delDesc rid' =>
      obtain rfl : rid' = rid := by simpa [hi, TimeoutPc.rid] using hrid
      simp only [timeoutStep, hi] at hstep
      cases hstep
      simp only [RequestorState.delDesc, RequestorState.modify, RequestorState.setTimeout]
      apply HeldInvAt.of_erased <;> simp only [Function.update_self]
      · exact fun hnone => absurd hnone hused
      · exact forall_update (P := fun x => x = .settle rid' → _) h.decided
          (by simp)

end Held

theorem HeldInv.ioRun {s : PendingState M} {t : RequestorState M} (h : HeldInv s)
    (hstep : ioStep s.core = some t) (rid : Bytes) : HeldInvAt t (s.calls rid) rid := by
  obtain ⟨acting, hrid, hother, _, hpc, htimeouts⟩ := ioStep_frame hstep
  by_cases heq : rid = acting
  · subst heq
    exact ioStep_heldInvAt (h rid) hrid hstep
  · refine (h rid).of_frame (hother rid heq) (.inr ⟨fun hs => ?_, fun ht => ?_⟩)
      (fun i => .inl (by rw [htimeouts]))
    · rw [hrid] at hs
      exact heq (Option.some.inj hs).symm
    · exact heq (hpc rid ht).symm

theorem HeldInv.timeoutRun {s : PendingState M} {t : RequestorState M} {i : Nat} (h : HeldInv s)
    (hstep : timeoutStep s.core i = some t) (rid : Bytes) : HeldInvAt t (s.calls rid) rid := by
  obtain ⟨acting, hrid, hother, _, _, hpc, hrest, hio, _⟩ := timeoutStep_frame hstep
  by_cases heq : rid = acting
  · subst heq
    exact timeoutStep_heldInvAt (h rid) hrid hstep
  · refine (h rid).of_frame (hother rid heq) (.inl hio) (fun j => ?_)
    by_cases hj : j = i
    · subst hj
      refine .inr ⟨fun hs => ?_, fun ht => heq (hpc rid ht).symm⟩
      rw [hrid] at hs
      exact heq (Option.some.inj hs).symm
    · exact .inl (hrest j hj)

theorem HeldInvAt.cancel {s : RequestorState M} {c : SendCall} {rid : Bytes}
    (h : HeldInvAt s c rid) : HeldInvAt s { c with timer := false } rid := by
  refine ⟨fun hnone => ?_, h.failed, h.decided, h.flagged, h.set, h.owed⟩
  obtain ⟨hpending, _, hrest⟩ := h.unused hnone
  exact ⟨hpending, rfl, hrest⟩

theorem HeldInv.afterHandler {s : PendingState M} {t : RequestorState M} {a : PendingAct M}
    (h : ∀ rid, HeldInvAt t (s.calls rid) rid) : HeldInv (s.afterHandler a t) := by
  intro rid
  unfold PendingState.afterHandler
  split
  · rename_i timer _
    simp only [PendingState.cancel, PendingState.setCall]
    by_cases heq : rid = timer
    · subst heq
      rw [Function.update_self]
      exact (h rid).cancel
    · rw [Function.update_of_ne heq]
      exact h rid
  · exact h rid

/-- A step for one request, which leaves the others and their calls alone. -/
theorem HeldInv.of_acting {s t : PendingState M} {acting : Bytes} (h : HeldInv s)
    (hat : HeldInvAt t.core (t.calls acting) acting)
    (hcalls : ∀ rid, rid ≠ acting → t.calls rid = s.calls rid)
    (hreq : ∀ rid, rid ≠ acting → t.core.requests rid = s.core.requests rid)
    (hio : t.core.io = s.core.io ∨ (s.core.io.rid = none ∧ t.core.io.rid = some acting))
    (htimeouts : ∀ i, t.core.timeouts i = s.core.timeouts i ∨
      ((s.core.timeouts i).rid = none ∧ (t.core.timeouts i).rid = some acting)) : HeldInv t := by
  intro rid
  by_cases heq : rid = acting
  · rw [heq]
    exact hat
  · have hne : ∀ {x y : Option Bytes}, x = none ∧ y = some acting →
        x ≠ some rid ∧ y ≠ some rid := by
      rintro x y ⟨rfl, rfl⟩
      exact ⟨fun hx => (nomatch hx), fun hy => heq (Option.some.inj hy).symm⟩
    rw [hcalls rid heq]
    exact (h rid).of_frame (hreq rid heq) (hio.imp_right hne)
      (fun i => (htimeouts i).imp_right hne)

/-- The sender goes on, and nothing else happens. -/
theorem HeldInvAt.sender {s : RequestorState M} {c c' : SendCall} {rid : Bytes}
    (h : HeldInvAt s c rid) (hunused : c'.pc ≠ .unused) (hfailed : c'.pc ≠ .failed)
    (hover : c'.answered = true ∨ c'.elapsed = true → c.answered = true ∨ c.elapsed = true) :
    HeldInvAt s c' rid :=
  ⟨fun hnone => absurd hnone hunused, fun hfail => absurd hfail hfailed, h.decided, h.flagged,
    h.set, fun hheld hc => h.owed hheld (hover hc)⟩

/-- A call of `onTimeout` starts. -/
theorem HeldInvAt.startTimeout {s : RequestorState M} {c c' : SendCall} {rid : Bytes} {i : Nat}
    {pc : TimeoutPc} (h : HeldInvAt s c rid) (hi : s.timeouts i = .idle)
    (hunused : c'.pc ≠ .unused) (hfailed : c'.pc = .failed → c.pc = .failed)
    (hpc : pc.rid = some rid) (hsettle : pc ≠ .settle rid) :
    HeldInvAt ((s.started rid).setTimeout i pc) c' rid := by
  simp only [RequestorState.started, RequestorState.modify, RequestorState.setTimeout]
  constructor <;> simp only [Function.update_self]
  · exact fun hnone => absurd hnone hunused
  · exact fun hfail => h.failed (hfailed hfail)
  · exact forall_update (P := fun x => x = .settle rid → _) h.decided
      (fun heq => absurd heq hsettle)
  · intro hheld hflag
    exact exists_update (P := fun x => x = .settle rid ∨ x = .delDesc rid)
      (h.flagged hheld hflag) (by simp [hi])
  · exact h.set
  · exact fun _ _ => .inr ⟨i, by rw [Function.update_self]; exact hpc⟩

theorem started_timeouts {s : RequestorState M} {rid : Bytes} {i : Nat} {pc : TimeoutPc}
    (hi : s.timeouts i = .idle) (hpc : pc.rid = some rid) (j : Nat) :
    ((s.started rid).setTimeout i pc).timeouts j = s.timeouts j ∨
      (s.timeouts j).rid = none ∧
        (((s.started rid).setTimeout i pc).timeouts j).rid = some rid := by
  by_cases hj : j = i
  · subst hj
    refine .inr ⟨by rw [hi]; rfl, ?_⟩
    simp only [RequestorState.setTimeout, Function.update_self]
    exact hpc
  · refine .inl ?_
    simp only [RequestorState.setTimeout, Function.update_of_ne hj]
    rfl

/-- A call of `onResponse` starts. -/
theorem HeldInvAt.startResponse {s : RequestorState M} {c : SendCall} {rid : Bytes} {msg : M}
    {late : Bool} (h : HeldInvAt s c rid) (hio : s.io = .idle) :
    HeldInvAt { s.started rid with io := .getDesc rid msg late }
      { c with answered := c.pc ≠ .unused } rid := by
  obtain ⟨hunused, hfailed, hdecided, hflagged, hset, howed⟩ := h
  simp only [RequestorState.started, RequestorState.modify]
  constructor <;> simp only [Function.update_self]
  · intro hnone
    obtain ⟨hpending, htimer, _, helapsed, hquiet⟩ := hunused hnone
    exact ⟨hpending, htimer, by simp [hnone], helapsed, hquiet⟩
  · exact hfailed
  · exact hdecided
  · exact hflagged
  · intro hheld hsome
    rw [hio] at hset
    exact .inl ((hset hheld hsome).resolve_right (by simp))
  · exact fun _ _ => .inl rfl

/-- `onTimeout` is called, and what it finds of the sender is what the sender left. -/
theorem HeldInv.startTimeout {s : PendingState M} (h : HeldInv s) {rid : Bytes} {i : Nat}
    {pc : TimeoutPc} {f : SendCall → SendCall} (hi : s.core.timeouts i = .idle)
    (hunused : (f (s.calls rid)).pc ≠ .unused)
    (hfailed : (f (s.calls rid)).pc = .failed → (s.calls rid).pc = .failed)
    (hpc : pc.rid = some rid) (hsettle : pc ≠ .settle rid) :
    HeldInv { s.setCall rid f with core := (s.core.started rid).setTimeout i pc } := by
  apply @HeldInv.of_acting M s _ rid h
  · simp only [PendingState.setCall, Function.update_self]
    exact (h rid).startTimeout hi hunused hfailed hpc hsettle
  · simp +contextual [PendingState.setCall]
  · simp +contextual [RequestorState.started, RequestorState.setTimeout, RequestorState.modify]
  · exact .inl rfl
  · exact started_timeouts hi hpc

/-- A sender that waits is given up on: its entry is gone already. -/
theorem HeldInv.elapse {s : PendingState M} (h : HeldInv s) {rid : Bytes}
    (hgone : (s.core.requests rid).pending = false) (hpc : (s.calls rid).pc = .sent) :
    HeldInv (s.setCall rid fun c => { c with elapsed := true }) := by
  apply @HeldInv.of_acting M s _ rid h <;> simp +contextual [PendingState.setCall]
  refine .of_erased hgone (fun hnone => ?_) (h rid).decided
  rw [hpc] at hnone
  cases hnone

theorem pendingStep_heldInv {s t : PendingState M} {a : PendingAct M} (h : HeldInv s)
    (hok : removable s a = true) (hstep : pendingStep s a = some t) : HeldInv t := by
  cases a with
  | newDesc rid mode proto =>
      simp only [pendingStep] at hstep
      split at hstep
      · rename_i hpc
        cases hstep
        obtain ⟨_, _, _, _, hquiet⟩ := (h rid).unused hpc
        apply @HeldInv.of_acting M s _ rid h <;> simp +contextual [RequestorState.modify]
        constructor <;> simp only [Function.update_self]
        · cases mode <;> simp
        · cases mode <;> simp
        · intro i hi
          exact absurd (by rw [hi]; rfl) (hquiet i)
        · simp
        · exact fun _ hsome => absurd rfl hsome
        · simp
      · cases hstep
  | runAfter rid =>
      simp only [pendingStep] at hstep
      split at hstep
      · cases hstep
        apply @HeldInv.of_acting M s _ rid h <;> simp +contextual [PendingState.setCall]
        exact (h rid).sender (by simp) (by simp) id
      · cases hstep
  | connSend rid sent =>
      simp only [pendingStep] at hstep
      split at hstep
      · cases hstep
        apply @HeldInv.of_acting M s _ rid h <;>
          simp +contextual [PendingState.setPc, PendingState.setCall]
        exact (h rid).sender (by cases sent <;> simp) (by cases sent <;> simp) id
      · cases hstep
  | delDesc rid =>
      simp only [pendingStep] at hstep
      split at hstep
      · cases hstep
        apply @HeldInv.of_acting M s _ rid h <;>
          simp +contextual [PendingState.setPc, PendingState.cancel, PendingState.setCall,
            RequestorState.delDesc, RequestorState.modify]
        apply HeldInvAt.of_erased <;> simp only [Function.update_self]
        · simp
        · exact (h rid).decided
      · cases hstep
  | timerFires i rid =>
      simp only [pendingStep] at hstep
      split at hstep
      · rename_i htimer hi
        cases hstep
        have hused : (s.calls rid).pc ≠ .unused := by
          intro hnone
          have hoff := ((h rid).unused hnone).2.1
          rw [htimer] at hoff
          cases hoff
        exact h.startTimeout hi hused id rfl (by simp)
      · cases hstep
  | waitTimeout i rid =>
      simp only [pendingStep] at hstep
      split at hstep
      · rename_i hi
        cases hstep
        exact h.startTimeout hi (by simp) (by simp) rfl (by simp)
      · cases hstep
  | elapse rid =>
      simp only [removable, Bool.not_eq_true'] at hok
      simp only [pendingStep] at hstep
      split at hstep
      · rename_i hpc _
        cases hstep
        exact h.elapse hok hpc
      · rename_i hpc _
        cases hstep
        exact h.elapse hok hpc
      · cases hstep
  | onResponse rid msg =>
      simp only [pendingStep] at hstep
      split at hstep
      · rename_i hio
        cases hstep
        apply @HeldInv.of_acting M s _ rid h
        · simp only [PendingState.setCall, Function.update_self]
          exact (h rid).startResponse hio
        · simp +contextual [PendingState.setCall]
        · simp +contextual [RequestorState.started, RequestorState.modify]
        · exact .inr ⟨by rw [hio]; rfl, rfl⟩
        · exact fun _ => .inl rfl
      · cases hstep
  | ioRun =>
      simp only [pendingStep, Option.map_eq_some_iff] at hstep
      obtain ⟨core, hcore, rfl⟩ := hstep
      exact HeldInv.afterHandler (h.ioRun hcore)
  | callbackThrows => cases hok
  | timeoutRun i =>
      simp only [pendingStep, Option.map_eq_some_iff] at hstep
      obtain ⟨core, hcore, rfl⟩ := hstep
      exact HeldInv.afterHandler (h.timeoutRun hcore)

theorem pendingInitial_heldInv : HeldInv (pendingInitial : PendingState M) := by
  intro rid
  refine .of_erased rfl (fun _ => ⟨rfl, rfl, rfl, fun i hi => nomatch hi⟩) (fun i hi => ?_)
  cases hi

/-- A synchronous request and a future are answered, and a callback request is
not sent. -/
def threeModes : List (PendingAct Bytes) :=
  [.newDesc (str "a") .sync false, .runAfter (str "a"), .newDesc (str "b") .future false,
    .connSend (str "a") true, .connSend (str "b") true, .newDesc (str "c") .callback false,
    .onResponse (str "b") (str "ok"), .ioRun, .connSend (str "c") false, .ioRun, .ioRun,
    .delDesc (str "c"), .ioRun, .onResponse (str "a") (str "ok"), .ioRun, .ioRun, .ioRun, .ioRun]

end LyqtRpc
