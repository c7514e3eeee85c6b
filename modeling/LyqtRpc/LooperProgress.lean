import LyqtRpc.AsyncLooper
import LyqtRpc.Lib.FairRun

/-!
How long a producer of `log_system/looper.hpp` waits. `push` compares the record
with what is free now; the buffers grow only after that wait, so what a swap
brings into the producers' place decides.
-/

set_option autoImplicit false

namespace LyqtRpc

open StepRun

namespace Buffer

theorem size_push_le (b : Buffer) (data : Bytes) : b.size ≤ (b.push data).size := by
  show b.size ≤ (b.getenoughsize data.length).size
  unfold getenoughsize
  split
  · exact Nat.le_refl _
  · have h := size_add_le_newSize b.size data.length
    show b.size ≤ newSize b.size data.length
    omega

theorem readPos_push (b : Buffer) (data : Bytes) : (b.push data).readPos = b.readPos :=
  (b.getenoughsize_pos data.length).2

end Buffer

namespace AsyncLooper

/-- The reader's position never leaves 0, and the buffer that is not being
filled has been reset. -/
structure Room (s : AsyncLooper) : Prop where
  proSize : defaultBufferSize ≤ s.proBuf.size
  conSize : defaultBufferSize ≤ s.conBuf.size
  proRead : s.proBuf.readPos = 0
  conRead : s.conBuf.readPos = 0
  proReset : s.thread = .sinking ∨ s.thread = .resetting → s.proBuf.writePos = 0
  conReset : s.thread ≠ .sinking → s.thread ≠ .resetting → s.conBuf.writePos = 0

theorem room_initial : Room {} where
  proSize := Nat.le_refl _
  conSize := Nat.le_refl _
  proRead := rfl
  conRead := rfl
  proReset := fun _ => rfl
  conReset := fun _ _ => rfl

variable {type : AsyncType} {s s' : AsyncLooper}

theorem Room.append (h : s.Room) (hlock : s.thread.locked = false) (data : Bytes) :
    (s.append data).Room where
  proSize := Nat.le_trans h.proSize (s.proBuf.size_push_le data)
  conSize := h.conSize
  proRead := (s.proBuf.readPos_push data).trans h.proRead
  conRead := h.conRead
  proReset := by
    intro hpc
    rcases hpc with hpc | hpc <;> simp [show s.thread = _ from hpc, LooperPc.locked] at hlock
  conReset := h.conReset

theorem Room.setWaiting (h : s.Room) (w : Nat → Option Bytes) :
    { s with waiting := w }.Room where
  proSize := h.proSize
  conSize := h.conSize
  proRead := h.proRead
  conRead := h.conRead
  proReset := h.proReset
  conReset := h.conReset

theorem Room.stopStep (h : s.Room) (p : StopPc) (before after : List Bytes) :
    { s with stop := p, before := before, after := after }.Room where
  proSize := h.proSize
  conSize := h.conSize
  proRead := h.proRead
  conRead := h.conRead
  proReset := h.proReset
  conReset := h.conReset

theorem Room.move (h : s.Room) {pc : LooperPc}
    (hold : s.thread ≠ .sinking ∧ s.thread ≠ .resetting)
    (hnew : pc ≠ .sinking ∧ pc ≠ .resetting) : { s with thread := pc }.Room where
  proSize := h.proSize
  conSize := h.conSize
  proRead := h.proRead
  conRead := h.conRead
  proReset := fun hpc => (hpc.elim hnew.1 hnew.2).elim
  conReset := fun _ _ => h.conReset hold.1 hold.2

theorem ThreadSteps.room (hs : ThreadSteps s s') (h : s.Room) : s'.Room := by
  cases hs with
  | exit hpc | check hpc => exact h.move (by simp [hpc]) (by simp)
  | sleep hpc | work hpc => rcases hpc with hpc | hpc <;> exact h.move (by simp [hpc]) (by simp)
  | swap hpc =>
      exact ⟨h.conSize, h.proSize, h.conRead, h.proRead,
        fun _ => h.conReset (by simp [hpc]) (by simp [hpc]), fun hne => absurd rfl hne⟩
  | sink hpc =>
      exact ⟨h.proSize, h.conSize, h.proRead, h.conRead, fun _ => h.proReset (.inl hpc),
        fun _ hne => absurd rfl hne⟩
  | reset hpc =>
      exact ⟨h.proSize, h.conSize, h.proRead, rfl, fun hpc' => by simp at hpc', fun _ _ => rfl⟩

theorem step_room {a : Act} (h : s.Room) (hs : s.step type a = some s') : s'.Room := by
  cases step_steps hs with
  | append hfree => exact h.append hfree _
  | wait => exact h.setWaiting _
  | wake hfree => exact (h.append hfree _).setWaiting _
  | callStop | requestStop | joined => exact h.stopStep _ _ _
  | run hrun => exact hrun.room h

theorem reachable_room (h : Reachable (step type) {} s) : s.Room :=
  h.invariant Room room_initial (fun _ _ _ hi _ hs => step_room hi hs)

/-- The mutex is free, and what keeps a waiting producer back is gone. -/
def Admitting (s : AsyncLooper) : Prop :=
  s.thread.locked = false ∧ (s.stopRequested = true ∨ s.proBuf.empty = true)

theorem Room.mayPush (h : s.Room) (hempty : s.stopRequested = true ∨ s.proBuf.empty = true)
    {data : Bytes} (hlen : data.length ≤ defaultBufferSize) : s.mayPush type data = true := by
  rcases hempty with hstop | hempty
  · simp [AsyncLooper.mayPush, hstop]
  · have heq : s.proBuf.writePos = s.proBuf.readPos := by simpa [Buffer.empty] using hempty
    have hfree : data.length ≤ s.proBuf.abletowritelen := by
      rw [Buffer.abletowritelen, heq, h.proRead]
      exact Nat.le_trans hlen h.proSize
    simp [AsyncLooper.mayPush, hfree]

/-- Steps of the thread that are still to come before a swapped buffer is free. -/
def stepsLeft (s : AsyncLooper) : Nat :=
  match s.thread with
  | .top => 6
  | .checked => 5
  | .waiting => 4
  | .swapping => 3
  | .sinking => 2
  | .resetting => 1
  | .exited => 0

theorem threadRun_enabled (h : s.Inv) (hbusy : ¬ s.Admitting) : s.threadRun.isSome = true := by
  cases hpc : s.thread with
  | top | checked | waiting =>
      simp only [threadRun, hpc]
      split <;> rfl
  | swapping | sinking | resetting => simp [threadRun, hpc]
  | exited => exact absurd ⟨by simp [hpc, LooperPc.locked], .inl (h.exited hpc)⟩ hbusy

theorem ThreadSteps.lowers (hs : ThreadSteps s s') (hr : s.Room) (hbusy : ¬ s.Admitting) :
    s'.Admitting ∨ s'.stepsLeft < s.stepsLeft := by
  cases hs with
  | exit hpc hstop => exact absurd ⟨by simp [hpc, LooperPc.locked], .inl hstop⟩ hbusy
  | check hpc => exact .inr (by simp [stepsLeft, hpc])
  | sleep _ _ hempty => exact .inl ⟨rfl, .inr hempty⟩
  | work hpc => rcases hpc with hpc | hpc <;> exact .inr (by simp [stepsLeft, hpc])
  | swap hpc | sink hpc => exact .inr (by simp [stepsLeft, hpc])
  | reset hpc =>
      have hempty : s.proBuf.empty = true := by
        simp [Buffer.empty, hr.proReset (.inr hpc), hr.proRead]
      exact .inl ⟨rfl, .inr hempty⟩

theorem step_stepsLeft {a : Act} (hr : s.Room) (hbusy : ¬ s.Admitting)
    (hs : s.step type a = some s') : s'.Admitting ∨ s'.stepsLeft ≤ s.stepsLeft := by
  cases step_steps hs with
  | run hrun => exact (hrun.lowers hr hbusy).imp_right Nat.le_of_lt
  | append | wait | wake | callStop | requestStop | joined => exact .inr (Nat.le_refl _)

/-- Only its own wake-up takes a record out of the list of waiting ones. -/
theorem step_waiting {a : Act} {t : Nat} {data : Bytes} (hw : s.waiting t = some data)
    (ha : a ≠ .wake t) (hs : s.step type a = some s') : s'.waiting t = some data := by
  cases step_steps hs with
  | append | callStop | requestStop | joined => exact hw
  | wait _ hidle =>
      refine (Function.update_of_ne ?_ _ _).trans hw
      rintro rfl
      simp [hw] at hidle
  | wake =>
      refine (Function.update_of_ne ?_ _ _).trans hw
      rintro rfl
      exact ha rfl
  | run hrun => cases hrun <;> exact hw

/-- The consumer keeps running, and a producer whose predicate holds again and
again at a free mutex, as each swap announces to all of them, gets in. -/
structure Running (r : Trace (step type)) : Prop where
  initial : r.state 0 = {}
  consumer : r.WeaklyFair .run
  producers : ∀ t, r.StronglyFair (.wake t)

variable {r : Trace (step type)}

theorem Running.inv (h : Running r) (n : Nat) : (r.state n).Inv ∧ (r.state n).Room := by
  have hreach : Reachable (step type) {} (r.state n) := h.initial ▸ r.reachable n
  exact ⟨reachable_inv hreach, reachable_room hreach⟩

theorem Running.admitting_recurs (h : Running r) (n : Nat) :
    ∃ m, n ≤ m ∧ (r.state m).Admitting :=
  Trace.recurs_of_rank (fun s => s.Inv ∧ s.Room) Admitting stepsLeft h.consumer h.inv
    (fun _ hi hbusy => threadRun_enabled hi.1 hbusy)
    (fun _ _ _ hi hbusy hs => step_stepsLeft hi.2 hbusy hs)
    (fun _ _ hi hbusy hs => (threadRun_steps hs).lowers hi.2 hbusy) n

theorem Running.proceeds (h : Running r) {n t : Nat} {data : Bytes}
    (hw : (r.state n).waiting t = some data) (hlen : data.length ≤ defaultBufferSize) :
    ∃ m, n ≤ m ∧ r.Taken (.wake t) m := by
  refine Trace.taken_of_recurs (fun s => s.waiting t = some data) Admitting (h.producers t)
    (fun _ _ _ hw ha hs => step_waiting hw ha hs) h.admitting_recurs (fun m hwm hm => ?_) hw
  have hmay : (r.state m).mayPush type data = true := (h.inv m).2.mayPush hm.2 hlen
  simp [Trace.Enabled, step, hwm, hm.1, hmay]

/-- A producer whose record fits in no buffer, alone with the consumer. -/
def blockedPc : Nat → LooperPc
  | 0 => .top
  | 1 => .checked
  | _ + 2 => .waiting

def blockedState (data : Bytes) : Nat → AsyncLooper
  | 0 => {}
  | n + 1 =>
    { waiting := Function.update (fun _ => none) 0 (some data), thread := blockedPc n }

theorem mayPush_blocked {data : Bytes} (hlen : defaultBufferSize < data.length) (n : Nat) :
    (blockedState data n).mayPush .ASYNC_SAFE data = false := by
  have hfree : ¬ data.length ≤ defaultBufferSize := by omega
  cases n <;> exact decide_eq_false hfree

theorem step_blocked {data : Bytes} (n : Nat) :
    (blockedState data (n + 1)).step .ASYNC_SAFE .run = some (blockedState data (n + 2)) := by
  match n with
  | 0 | 1 | _ + 2 => rfl

def blocked (data : Bytes) (hlen : defaultBufferSize < data.length) :
    Trace (step .ASYNC_SAFE) where
  state := blockedState data
  act
    | 0 => some (.push 0 data)
    | _ + 1 => some .run
  rest := by
    intro n hn
    cases n <;> cases hn
  move := by
    intro n a ha
    cases n with
    | zero =>
        obtain rfl := Option.some.inj ha
        have hmay := mayPush_blocked hlen 0
        simp only [blockedState] at hmay
        simp [step, blockedState, blockedPc, LooperPc.locked, hmay]
    | succ n =>
        obtain rfl := Option.some.inj ha
        exact step_blocked n

theorem blocked_running {data : Bytes} (hlen : defaultBufferSize < data.length) :
    Running (blocked data hlen) where
  initial := rfl
  consumer := fun n _ => ⟨n + 1, Nat.le_succ n, rfl⟩
  producers := by
    intro t n hrecurs
    obtain ⟨m, _, hm⟩ := hrecurs n (Nat.le_refl n)
    exfalso
    have hmay := mayPush_blocked hlen m
    cases hw : (blockedState data m).waiting t with
    | none => simp [Trace.Enabled, blocked, step, hw] at hm
    | some d =>
        have hd : d = data := by
          cases m with
          | zero => cases hw
          | succ m =>
              by_cases ht : t = 0
              · subst ht
                simpa [blockedState] using hw.symm
              · simp [blockedState, Function.update_of_ne ht] at hw
        subst hd
        simp [Trace.Enabled, blocked, step, hw, hmay] at hm

/-- The wait predicate of `push` holds wherever the production buffer is empty. -/
def EmptyAdmits (len : Nat) : Prop :=
  ∀ s, Reachable (step .ASYNC_SAFE) {} s → s.proBuf.empty = true →
    ∀ data : Bytes, data.length = len → s.mayPush .ASYNC_SAFE data = true

/-- Beside a running consumer, every waiting record of that length gets in. -/
def EventuallyProceeds (len : Nat) : Prop :=
  ∀ r : Trace (step .ASYNC_SAFE), Running r → ∀ n t data,
    (r.state n).waiting t = some data → data.length = len → ∃ m, n ≤ m ∧ r.Taken (.wake t) m

theorem not_emptyAdmits {len : Nat} (hlen : defaultBufferSize < len) : ¬ EmptyAdmits len := by
  intro h
  have hdata : (List.replicate len (0 : UInt8)).length = len := List.length_replicate
  have hmay := h {} .refl rfl _ hdata
  rw [show ({} : AsyncLooper) = blockedState (List.replicate len 0) 0 from rfl,
    mayPush_blocked (hdata.symm ▸ hlen)] at hmay
  cases hmay

theorem not_eventuallyProceeds {len : Nat} (hlen : defaultBufferSize < len) :
    ¬ EventuallyProceeds len := by
  intro h
  have hdata : (List.replicate len (0 : UInt8)).length = len := List.length_replicate
  have hlt : defaultBufferSize < (List.replicate len (0 : UInt8)).length := hdata.symm ▸ hlen
  have hwaits : ((blocked _ hlt).state 1).waiting 0 = some (List.replicate len 0) := by
    simp [blocked, blockedState]
  obtain ⟨m, hm, hwake⟩ := h _ (blocked_running hlt) 1 0 _ hwaits hdata
  cases m with
  | zero => omega
  | succ m => simp [Trace.Taken, blocked] at hwake

end AsyncLooper

/-- A producer is sure to get in exactly with what fits in a buffer that has never grown. -/
theorem looper_admits_iff (len : Nat) :
    (AsyncLooper.EmptyAdmits len ↔ len ≤ defaultBufferSize) ∧
      (AsyncLooper.EventuallyProceeds len ↔ len ≤ defaultBufferSize) := by
  refine ⟨⟨fun h => ?_, fun hlen s hs hempty data hdata => ?_⟩, fun h => ?_,
    fun hlen r hr n t data hw hdata => ?_⟩
  · by_contra hne
    exact AsyncLooper.not_emptyAdmits (by omega) h
  · exact (AsyncLooper.reachable_room hs).mayPush (.inr hempty) (hdata.symm ▸ hlen)
  · by_contra hne
    exact AsyncLooper.not_eventuallyProceeds (by omega) h
  · exact hr.proceeds hw (hdata.symm ▸ hlen)

/-- One byte more than an empty buffer holds. -/
theorem looper_blocks_for_ever : ¬ AsyncLooper.EmptyAdmits (1024 * 1024 + 1) ∧
    ¬ AsyncLooper.EventuallyProceeds (1024 * 1024 + 1) :=
  ⟨AsyncLooper.not_emptyAdmits (by decide), AsyncLooper.not_eventuallyProceeds (by decide)⟩

end LyqtRpc
