import LyqtRpc.RingFifo

/-!
The notification protocol of `ShmServer::workerLoop` and `ShmClient`: a
semaphore eventfd beside the ring. The count is a hint and drifts away from the
number of frames; what matters is that a sleeping worker is never left with
frames and no count.
-/

set_option autoImplicit false

namespace LyqtRpc

open CircularLog StepRun

inductive WorkerPc where
  /-- In `epoll_wait`. -/
  | waiting
  /-- `epoll_wait` reported the eventfd; its `read` is next. -/
  | woken
  /-- About to call `read_frame_view`. -/
  | draining
  | reading
  /-- A frame was read; it is copied and released next. -/
  | holding
  deriving DecidableEq, Repr

/-- `notifying`: the producer has stored `write_idx` and not yet written the
eventfd. -/
structure WakeState where
  ring : RingState
  counter : Nat := 0
  notifying : Bool := false
  worker : WorkerPc := .waiting

inductive WakeAct where
  | producer (a : ProducerAct)
  | notify
  | wake
  /-- The 500 ms timeout of `epoll_wait`. -/
  | timeout
  | readEventfd
  | readFrameView
  | run
  | returned
  | release

def wakeInitial (ds : Nat) (data : Memory) : WakeState := { ring := ringInitial ds data }

def ProducerPc.isPublish : ProducerPc → Bool
  | .publish _ _ => true
  | _ => false

def wakeStep (s : WakeState) : WakeAct → Option WakeState
  | .producer a =>
    if s.notifying then none
    else (ringStep s.ring (.producer a)).map
      (fun ring => { s with ring, notifying := s.ring.producer.isPublish })
  | .notify =>
    if s.notifying then some { s with notifying := false, counter := s.counter + 1 } else none
  | .wake =>
    if s.worker = .waiting ∧ 0 < s.counter then some { s with worker := .woken } else none
  | .timeout => if s.worker = .waiting then some { s with worker := .draining } else none
  | .readEventfd =>
    if s.worker = .woken then some { s with worker := .draining, counter := s.counter - 1 }
    else none
  | .readFrameView =>
    if s.worker = .draining then
      (ringStep s.ring (.consumer .readFrameView)).map
        (fun ring => { s with ring, worker := .reading })
    else none
  | .run =>
    if s.worker = .reading then
      (ringStep s.ring (.consumer .run)).map (fun ring => { s with ring })
    else none
  | .returned =>
    if s.worker = .reading then
      match s.ring.consumer.pc with
      | .idle true => some { s with worker := .holding }
      | .idle false => some { s with worker := .waiting }
      | _ => none
    else none
  | .release =>
    if s.worker = .holding then
      (ringStep s.ring (.consumer .releaseFrameView)).map
        (fun ring => { s with ring, worker := .draining })
    else none

/-- Frames in the ring are announced by the count or about to be. -/
def Announced (s : WakeState) : Prop :=
  s.ring.ch.readIdx ≠ s.ring.ch.writeIdx → 0 < s.counter ∨ s.notifying = true

/-- What the worker knows where it stands. -/
def WorkerInv (s : WakeState) : Prop :=
  match s.worker with
  | .waiting => s.ring.consumer.pinnedEnd = 0 ∧ Announced s
  | .woken | .draining => s.ring.consumer.pinnedEnd = 0
  | .reading =>
    s.ring.consumer.pc = .idle false → s.ring.consumer.pinnedEnd = 0 ∧ Announced s
  | .holding => ∃ ret, s.ring.consumer.pc = .idle ret

structure WakeInv (ds : Nat) (s : WakeState) : Prop where
  ring : RingInv ds s.ring
  worker : WorkerInv s

theorem wakeInitial_inv {ds : Nat} (hds : 0 < ds) (data : Memory) :
    WakeInv ds (wakeInitial ds data) where
  ring := ringInitial_inv hds data
  worker := ⟨rfl, fun hne => absurd rfl hne⟩

/-- `read_frame_view` comes back empty-handed only from an empty ring. -/
theorem RingInv.read_false {ds : Nat} {s : RingState} {x : Consumed} (h : RingInv ds s)
    (hx : LyqtRpc.consumerRun s.ch s.data s.consumer = some x)
    (hfalse : x.consumer.pc = .idle false) :
    x.ch = s.ch ∧ s.ch.readIdx = s.ch.writeIdx ∧ x.consumer.pinnedEnd = 0 := by
  have hc := h.pin.running
  cases hpc : s.consumer.pc with
  | idle ret => simp [LyqtRpc.consumerRun, hpc] at hx
  | loadRead =>
      simp only [LyqtRpc.consumerRun, hpc] at hx
      cases hx
      cases hfalse
  | loadWrite r =>
      have hr := h.consumer
      have hc := hc (by simp [hpc])
      rw [hpc] at hr hc
      have hr : r = s.ch.readIdx := hr
      rw [hc] at hx
      simp only [LyqtRpc.consumerRun] at hx
      split at hx
      · cases hx
        rename_i hempty
        exact ⟨rfl, (hempty.trans hr).symm, rfl⟩
      · split at hx <;> cases hx <;> cases hfalse
  | jump i =>
      simp only [LyqtRpc.consumerRun, hpc] at hx
      cases hx
      cases hfalse
  | readLen r => exact absurd hfalse (h.readLen (hpc ▸ hc (by simp [hpc])) hx).2
  | readType r n =>
      simp only [LyqtRpc.consumerRun, hpc] at hx
      cases hx
      cases hfalse

theorem consumerStep_release {ch : ShmRingBuf} {m : Memory} {c : Consumer} {x : Consumed}
    (hx : consumerStep ch m c .releaseFrameView = some x) : x.consumer.pinnedEnd = 0 := by
  simp only [consumerStep] at hx
  split at hx
  · split at hx
    · cases hx
      assumption
    · cases hx
      rfl
  · cases hx

theorem producerRun_ch {ch : ShmRingBuf} {m : Memory} {pc : ProducerPc} {x : Produced}
    (h : producerRun ch m pc = some x) (hpc : pc.isPublish = false) : x.ch = ch := by
  cases pc with
  | publish f p => cases hpc
  | idle ret => cases h
  | full c => cases h
  | span base len => cases h
  | loadRead c w =>
      simp only [producerRun] at h
      split at h
      · cases h
        rfl
      · split at h <;> cases h <;> rfl
  | skipMark c w r =>
      simp only [producerRun] at h
      split at h <;> cases h <;> rfl
  | ptrLoadRead w =>
      simp only [producerRun] at h
      split at h
      · cases h
        rfl
      · split at h <;> cases h <;> rfl
  | _ =>
      cases h
      rfl

/-- Only the store of `write_idx` makes frames appear. -/
theorem producerStep_ch {ch : ShmRingBuf} {m : Memory} {pc : ProducerPc} {a : ProducerAct}
    {x : Produced} (h : producerStep ch m pc a = some x) (hpc : pc.isPublish = false) :
    x.ch = ch := by
  unfold producerStep at h
  split at h
  · split at h
    · cases h
      rfl
    · split at h <;> cases h <;> rfl
  · split at h <;> cases h
    rfl
  · cases h
    rfl
  · cases h
    rfl
  · split at h <;> cases h
    rfl
  · split at h <;> cases h
    rfl
  · cases h
    rfl
  · exact producerRun_ch h hpc
  · cases h

/-- A producer step leaves frames announced: a frame it adds is about to be. -/
theorem Announced.producer {s : WakeState} {ring : RingState} {a : ProducerAct}
    (h : Announced s) (hquiet : s.notifying = false)
    (hring : ringStep s.ring (.producer a) = some ring) :
    Announced { s with ring, notifying := s.ring.producer.isPublish } := by
  intro hne
  cases hpub : s.ring.producer.isPublish with
  | true => exact .inr rfl
  | false =>
      left
      obtain ⟨x, hx, rfl⟩ := Option.map_eq_some_iff.mp hring
      have hch := producerStep_ch hx hpub
      have hne : x.ch.readIdx ≠ x.ch.writeIdx := hne
      rw [hch] at hne
      rcases h hne with hcount | hnotify
      · exact hcount
      · rw [hquiet] at hnotify
        cases hnotify

theorem WorkerInv.stable {s t : WakeState} (h : WorkerInv s) (hworker : t.worker = s.worker)
    (hconsumer : t.ring.consumer = s.ring.consumer) (hann : Announced s → Announced t) :
    WorkerInv t := by
  unfold WorkerInv at *
  rw [hworker, hconsumer]
  cases hw : s.worker with
  | waiting =>
      rw [hw] at h
      exact ⟨h.1, hann h.2⟩
  | woken =>
      rw [hw] at h
      exact h
  | draining =>
      rw [hw] at h
      exact h
  | reading =>
      rw [hw] at h
      exact fun hfalse => ⟨(h hfalse).1, hann (h hfalse).2⟩
  | holding =>
      rw [hw] at h
      exact h

theorem wakeStep_inv {ds : Nat} {s t : WakeState} {a : WakeAct} (h : WakeInv ds s)
    (hstep : wakeStep s a = some t) : WakeInv ds t := by
  obtain ⟨hring, hworker⟩ := h
  cases a with
  | producer a =>
      simp only [wakeStep] at hstep
      split at hstep
      · cases hstep
      · rename_i hquiet
        obtain ⟨ring, hr, rfl⟩ := Option.map_eq_some_iff.mp hstep
        refine ⟨ringStep_inv hring hr, hworker.stable rfl ?_ (fun ha => ?_)⟩
        · obtain ⟨x, _, rfl⟩ := Option.map_eq_some_iff.mp hr
          rfl
        · exact ha.producer (by simpa using hquiet) hr
  | notify =>
      simp only [wakeStep] at hstep
      split at hstep
      · cases hstep
        exact ⟨hring, hworker.stable rfl rfl (fun _ _ => .inl (Nat.succ_pos _))⟩
      · cases hstep
  | wake =>
      simp only [wakeStep] at hstep
      split at hstep
      · cases hstep
        rename_i hw
        simp only [WorkerInv, hw.1] at hworker
        exact ⟨hring, hworker.1⟩
      · cases hstep
  | timeout =>
      simp only [wakeStep] at hstep
      split at hstep
      · cases hstep
        rename_i hw
        simp only [WorkerInv, hw] at hworker
        exact ⟨hring, hworker.1⟩
      · cases hstep
  | readEventfd =>
      simp only [wakeStep] at hstep
      split at hstep
      · cases hstep
        rename_i hw
        simp only [WorkerInv, hw] at hworker
        exact ⟨hring, hworker⟩
      · cases hstep
  | readFrameView =>
      simp only [wakeStep] at hstep
      split at hstep
      · rename_i hw
        obtain ⟨ring, hr, rfl⟩ := Option.map_eq_some_iff.mp hstep
        refine ⟨ringStep_inv hring hr, ?_⟩
        simp only [WorkerInv, hw] at hworker
        obtain ⟨x, hx, rfl⟩ := Option.map_eq_some_iff.mp hr
        simp only [WorkerInv]
        intro hfalse
        simp only [consumerStep] at hx
        split at hx
        · rw [if_neg (by simp [hworker])] at hx
          cases hx
          cases hfalse
        · cases hx
      · cases hstep
  | run =>
      simp only [wakeStep] at hstep
      split at hstep
      · rename_i hw
        obtain ⟨ring, hr, rfl⟩ := Option.map_eq_some_iff.mp hstep
        refine ⟨ringStep_inv hring hr, ?_⟩
        obtain ⟨x, hx, rfl⟩ := Option.map_eq_some_iff.mp hr
        simp only [WorkerInv, hw]
        intro hfalse
        obtain ⟨hch, hempty, hpin⟩ := hring.read_false hx hfalse
        refine ⟨hpin, fun hne => absurd ?_ hne⟩
        show x.ch.readIdx = x.ch.writeIdx
        rw [hch]
        exact hempty
      · cases hstep
  | returned =>
      simp only [wakeStep] at hstep
      split at hstep
      · rename_i hw
        simp only [WorkerInv, hw] at hworker
        split at hstep
        · cases hstep
          rename_i hpc
          exact ⟨hring, true, hpc⟩
        · cases hstep
          rename_i hpc
          exact ⟨hring, hworker hpc⟩
        · cases hstep
      · cases hstep
  | release =>
      simp only [wakeStep] at hstep
      split at hstep
      · obtain ⟨ring, hr, rfl⟩ := Option.map_eq_some_iff.mp hstep
        refine ⟨ringStep_inv hring hr, ?_⟩
        obtain ⟨x, hx, rfl⟩ := Option.map_eq_some_iff.mp hr
        exact consumerStep_release hx
      · cases hstep

theorem wake_reachable_inv {ds : Nat} (hds : 0 < ds) {data : Memory} {s : WakeState}
    (h : Reachable wakeStep (wakeInitial ds data) s) : WakeInv ds s :=
  h.invariant (WakeInv ds) (wakeInitial_inv hds data)
    (fun _ _ _ hi _ hstep => wakeStep_inv hi hstep)

/-- While the worker waits, frames in the ring are announced by the count or
about to be; once nothing is announced, every committed frame was obtained. -/
theorem wakeup_not_lost {ds : Nat} (hds : 0 < ds) (data : Memory) {s : WakeState}
    (h : Reachable wakeStep (wakeInitial ds data) s) (hwaiting : s.worker = .waiting) :
    (s.ring.ch.readIdx ≠ s.ring.ch.writeIdx → 0 < s.counter ∨ s.notifying = true) ∧
    (s.counter = 0 → s.notifying = false → s.ring.obtained = s.ring.committed) := by
  obtain ⟨hring, hworker⟩ := wake_reachable_inv hds h
  simp only [WorkerInv, hwaiting] at hworker
  refine ⟨hworker.2, fun hcount hquiet => hring.drained ?_⟩
  by_cases he : s.ring.ch.readIdx = s.ring.ch.writeIdx
  · exact he
  · rcases hworker.2 he with hpos | hnotify
    · omega
    · rw [hquiet] at hnotify
      cases hnotify

/-- One frame is written and announced, and read by a worker that woke up. -/
def wakeRun : List WakeAct :=
  .producer (.writeTo [1, 2] (.named .REQ_RPC) 0) ::
    (List.replicate 6 (.producer .run) ++
    [.notify, .wake, .readEventfd, .readFrameView, .run, .run, .run, .run, .returned, .release,
      .readFrameView, .run, .run, .returned])

theorem wakeup_not_lost_wakeRun :
    ∃ s, exec wakeStep (wakeInitial 32 (fun _ => 0)) wakeRun = some s ∧
      s.ring.obtained = s.ring.committed ∧
      s.ring.obtained = [⟨.named .REQ_RPC, [1, 2]⟩] := by
  obtain ⟨s, hs, hview⟩ := Option.map_eq_some_iff.mp
    (show (exec wakeStep (wakeInitial 32 (fun _ => 0)) wakeRun).map
      (fun s => (s.worker, s.counter, s.notifying, s.ring.obtained)) =
        some (.waiting, 0, false, [⟨.named .REQ_RPC, [1, 2]⟩]) by decide +kernel)
  obtain ⟨hwaiting, hrest⟩ := Prod.mk.inj hview
  obtain ⟨hcount, hrest⟩ := Prod.mk.inj hrest
  obtain ⟨hquiet, hobtained⟩ := Prod.mk.inj hrest
  have hsafe := wakeup_not_lost (by decide) _ (Reachable.of_exec hs) hwaiting
  exact ⟨s, hs, hsafe.2 hcount hquiet, hobtained⟩

end LyqtRpc
