import Mathlib.Logic.Function.Basic
import LyqtRpc.Lib.ByteMemory
import LyqtRpc.Lib.StepRun

/-!
`log_system/buffer.hpp` and `log_system/looper.hpp`: producers append records
to one buffer, a thread swaps it for the other one and hands the bytes to the
sink callback. A critical section of `push` is one step; the thread's own is
cut at every point where the stop flag may be read.
-/

set_option autoImplicit false

namespace LyqtRpc

open StepRun

def defaultBufferSize : Nat := 1 * 1024 * 1024
def thresholdBufferSize : Nat := 3 * 1024 * 1024
def incrementBufSize : Nat := 1 * 1024 * 1024

/-- `size` is `_buf.size()`; the bytes are kept in an unbounded memory. -/
structure Buffer where
  size : Nat
  data : Memory
  writePos : Nat
  readPos : Nat
  read_le : readPos ≤ writePos
  write_le : writePos ≤ size

namespace Buffer

def new : Buffer where
  size := defaultBufferSize
  data := fun _ => 0
  writePos := 0
  readPos := 0
  read_le := Nat.le_refl 0
  write_le := Nat.zero_le _

def abletowritelen (b : Buffer) : Nat := b.size - b.writePos
def abletoreadlen (b : Buffer) : Nat := b.writePos - b.readPos
def empty (b : Buffer) : Bool := b.writePos == b.readPos

/-- The view `begin()` returns. -/
def begin (b : Buffer) : Bytes := b.data.load b.readPos b.abletoreadlen

def newSize (size len : Nat) : Nat :=
  if size < thresholdBufferSize then size * 2 + len else size + incrementBufSize + len

theorem size_add_le_newSize (size len : Nat) : size + len ≤ newSize size len := by
  unfold newSize
  split <;> omega

/-- `vector::resize` keeps the old elements and zeroes the new ones. -/
def resized (m : Memory) (size new : Nat) : Memory := fun i =>
  if size ≤ i ∧ i < new then 0 else m i

def getenoughsize (b : Buffer) (len : Nat) : Buffer :=
  if len < b.abletowritelen then b
  else { b with
    size := newSize b.size len
    data := resized b.data b.size (newSize b.size len)
    write_le := Nat.le_trans (Nat.le_add_right_of_le b.write_le)
      (size_add_le_newSize b.size len) }

theorem getenoughsize_pos (b : Buffer) (len : Nat) :
    (b.getenoughsize len).writePos = b.writePos ∧ (b.getenoughsize len).readPos = b.readPos := by
  unfold getenoughsize
  split <;> exact ⟨rfl, rfl⟩

/-- What `movewriter` asserts. -/
theorem getenoughsize_room (b : Buffer) (len : Nat) :
    b.writePos + len ≤ (b.getenoughsize len).size := by
  have hw := b.write_le
  unfold getenoughsize
  split
  · rename_i h
    unfold abletowritelen at h
    omega
  · have hsize := size_add_le_newSize b.size len
    show b.writePos + len ≤ newSize b.size len
    omega

theorem getenoughsize_begin (b : Buffer) (len : Nat) :
    (b.getenoughsize len).begin = b.begin := by
  unfold getenoughsize
  split
  · rfl
  · apply Memory.load_congr
    intro i _ hi
    have hr := b.read_le
    have hw := b.write_le
    have hlt : i < b.size := by
      simp only [abletoreadlen] at hi
      omega
    simp only [resized]
    rw [if_neg (by omega)]

/-- `data` is the `len` bytes that are copied. -/
def push (b : Buffer) (data : Bytes) : Buffer :=
  let g := b.getenoughsize data.length
  { g with
    data := g.data.store g.writePos data
    writePos := g.writePos + data.length
    read_le := Nat.le_trans g.read_le (Nat.le_add_right _ _)
    write_le := by
      rw [(b.getenoughsize_pos data.length).1]
      exact b.getenoughsize_room data.length }

theorem push_begin (b : Buffer) (data : Bytes) : (b.push data).begin = b.begin ++ data := by
  rw [← b.getenoughsize_begin data.length]
  generalize hg : b.getenoughsize data.length = g
  have hr := g.read_le
  have hlen : (b.push data).abletoreadlen = g.abletoreadlen + data.length := by
    simp only [push, abletoreadlen, hg]
    omega
  have hpos : g.readPos + g.abletoreadlen = g.writePos := by
    unfold abletoreadlen
    omega
  have hdata : (b.push data).data = g.data.store g.writePos data := by
    simp only [push, hg]
  have hread : (b.push data).readPos = g.readPos := by
    simp only [push, hg]
  unfold begin
  rw [hlen, hdata, hread, Memory.load_append, hpos, Memory.load_store,
    Memory.load_store_disjoint _ (.inl (Nat.le_of_eq hpos))]

def reset (b : Buffer) : Buffer :=
  { b with writePos := 0, readPos := 0, read_le := Nat.le_refl 0, write_le := Nat.zero_le _ }

theorem begin_of_empty {b : Buffer} (h : b.empty = true) : b.begin = [] := by
  have heq : b.writePos = b.readPos := by simpa [empty] using h
  simp [begin, abletoreadlen, heq, Memory.load]

@[simp] theorem new_begin : new.begin = [] := begin_of_empty rfl

@[simp] theorem reset_begin (b : Buffer) : b.reset.begin = [] := begin_of_empty rfl

/-- `b` and `other` after `b.swap(other)`. -/
def swap (b other : Buffer) : Buffer × Buffer := (other, b)

end Buffer

inductive AsyncType where
  | ASYNC_SAFE
  | ASYNC_UNSAFE
  deriving DecidableEq, Repr

inductive LooperPc where
  /-- Before it takes the mutex. -/
  | top
  /-- Holds the mutex; the exit test was false. -/
  | checked
  /-- In `_cond_con.wait`, the mutex released. -/
  | waiting
  | swapping
  /-- The buffers are swapped, the callback is next. -/
  | sinking
  | resetting
  | exited
  deriving DecidableEq, Repr

def LooperPc.locked : LooperPc → Bool
  | .checked | .swapping | .sinking | .resetting => true
  | .top | .waiting | .exited => false

inductive StopPc where
  | notCalled
  | called
  /-- `request_stop` is done; `join` has not returned. -/
  | requested
  | returned
  deriving DecidableEq, Repr

/-- `waiting t` is the record with which thread `t` waits in `_cond_pro.wait`.
`sunk` are the blocks given to the callback and `pushed` the records in the
order of their critical sections; `before` and `after` are what `pushed` was
when `stop` was called and when it returned. No step reads these four. -/
structure AsyncLooper where
  proBuf : Buffer := .new
  conBuf : Buffer := .new
  thread : LooperPc := .top
  stop : StopPc := .notCalled
  waiting : Nat → Option Bytes := fun _ => none
  sunk : List Bytes := []
  pushed : List Bytes := []
  before : List Bytes := []
  after : List Bytes := []

namespace AsyncLooper

def stopRequested (s : AsyncLooper) : Bool :=
  s.stop == .requested || s.stop == .returned

/-- The predicate of `_cond_pro.wait`; the unbounded mode does not wait. -/
def mayPush (type : AsyncType) (s : AsyncLooper) (data : Bytes) : Bool :=
  type == .ASYNC_UNSAFE || s.stopRequested || decide (data.length ≤ s.proBuf.abletowritelen)

/-- The rest of the critical section, once the wait is over. -/
def append (s : AsyncLooper) (data : Bytes) : AsyncLooper :=
  { s with proBuf := s.proBuf.push data, pushed := s.pushed ++ [data] }

inductive Act where
  | push (t : Nat) (data : Bytes)
  /-- A waiting producer finds its predicate true. -/
  | wake (t : Nat)
  | callStop
  | requestStop
  | joined
  /-- The next step of the looper's thread. -/
  | run

/-- One step of `threadentry`. -/
def threadRun (s : AsyncLooper) : Option AsyncLooper :=
  match s.thread with
  | .top =>
    if s.stopRequested && s.proBuf.empty then some { s with thread := .exited }
    else some { s with thread := .checked }
  | .checked | .waiting =>
    if s.stopRequested || !s.proBuf.empty then some { s with thread := .swapping }
    else some { s with thread := .waiting }
  | .swapping =>
    some { s with proBuf := (s.proBuf.swap s.conBuf).1, conBuf := (s.proBuf.swap s.conBuf).2
                  thread := .sinking }
  | .sinking => some { s with sunk := s.sunk ++ [s.conBuf.begin], thread := .resetting }
  | .resetting => some { s with conBuf := s.conBuf.reset, thread := .top }
  | .exited => none

def step (type : AsyncType) (s : AsyncLooper) : Act → Option AsyncLooper
  | .push t data =>
    if s.thread.locked || (s.waiting t).isSome then none
    else if s.mayPush type data then some (s.append data)
    else some { s with waiting := Function.update s.waiting t (some data) }
  | .wake t =>
    match s.waiting t with
    | none => none
    | some data =>
      if s.thread.locked || !s.mayPush type data then none
      else some { s.append data with waiting := Function.update s.waiting t none }
  | .callStop =>
    if s.stop = .notCalled then some { s with stop := .called, before := s.pushed } else none
  | .requestStop => if s.stop = .called then some { s with stop := .requested } else none
  | .joined =>
    if s.stop = .requested ∧ s.thread = .exited then
      some { s with stop := .returned, after := s.pushed }
    else none
  | .run => s.threadRun

/-- What a step of the thread does. -/
inductive ThreadSteps (s : AsyncLooper) : AsyncLooper → Prop where
  | exit (hpc : s.thread = .top) (hstop : s.stopRequested = true)
      (hempty : s.proBuf.empty = true) : ThreadSteps s { s with thread := .exited }
  | check (hpc : s.thread = .top)
      (hgo : (s.stopRequested && s.proBuf.empty) = false) :
      ThreadSteps s { s with thread := .checked }
  | sleep (hpc : s.thread = .checked ∨ s.thread = .waiting) (hstop : s.stopRequested = false)
      (hempty : s.proBuf.empty = true) : ThreadSteps s { s with thread := .waiting }
  | work (hpc : s.thread = .checked ∨ s.thread = .waiting)
      (hwork : (s.stopRequested || !s.proBuf.empty) = true) :
      ThreadSteps s { s with thread := .swapping }
  | swap (hpc : s.thread = .swapping) :
      ThreadSteps s { s with proBuf := s.conBuf, conBuf := s.proBuf, thread := .sinking }
  | sink (hpc : s.thread = .sinking) :
      ThreadSteps s { s with sunk := s.sunk ++ [s.conBuf.begin], thread := .resetting }
  | reset (hpc : s.thread = .resetting) :
      ThreadSteps s { s with conBuf := s.conBuf.reset, thread := .top }

/-- What a step does, and where it is possible. -/
inductive Steps (type : AsyncType) (s : AsyncLooper) : Act → AsyncLooper → Prop where
  | append {t : Nat} {data : Bytes} (hfree : s.thread.locked = false)
      (hidle : s.waiting t = none) (hmay : s.mayPush type data = true) :
      Steps type s (.push t data) (s.append data)
  | wait {t : Nat} {data : Bytes} (hfree : s.thread.locked = false)
      (hidle : s.waiting t = none) (hmay : s.mayPush type data = false) :
      Steps type s (.push t data) { s with waiting := Function.update s.waiting t (some data) }
  | wake {t : Nat} {data : Bytes} (hfree : s.thread.locked = false)
      (hwaits : s.waiting t = some data) (hmay : s.mayPush type data = true) :
      Steps type s (.wake t) { s.append data with waiting := Function.update s.waiting t none }
  | callStop (hstop : s.stop = .notCalled) :
      Steps type s .callStop { s with stop := .called, before := s.pushed }
  | requestStop (hstop : s.stop = .called) : Steps type s .requestStop { s with stop := .requested }
  | joined (hstop : s.stop = .requested) (hpc : s.thread = .exited) :
      Steps type s .joined { s with stop := .returned, after := s.pushed }
  | run {s' : AsyncLooper} (h : ThreadSteps s s') : Steps type s .run s'

/-- The unread bytes of the consumer buffer, which only hold something between
the swap and the callback. -/
def inFlight (s : AsyncLooper) : Bytes :=
  match s.thread with
  | .sinking => s.conBuf.begin
  | _ => []

/-- `drained` are the records whose bytes have left the producer buffer. -/
structure Split (s : AsyncLooper) (drained rest : List Bytes) : Prop where
  pushed : s.pushed = drained ++ rest
  sunk : s.sunk.flatten ++ s.inFlight = drained.flatten
  unread : s.proBuf.begin = rest.flatten
  before : s.thread = .exited → s.before <+: drained
  after : s.stop = .returned → drained <+: s.after

structure Inv (s : AsyncLooper) : Prop where
  split : ∃ drained rest, s.Split drained rest
  conEmpty : s.thread = .sinking ∨ s.thread = .resetting ∨ s.conBuf.begin = []
  before : s.stop ≠ .notCalled → s.before <+: s.pushed
  exited : s.thread = .exited → s.stopRequested = true
  returned : s.stop = .returned → s.thread = .exited

theorem inv_initial : Inv {} where
  split := ⟨[], [], rfl, rfl, Buffer.new_begin, fun h => (nomatch h), fun h => (nomatch h)⟩
  conEmpty := .inr (.inr Buffer.new_begin)
  before := fun h => absurd rfl h
  exited := fun h => nomatch h
  returned := fun h => nomatch h

variable {type : AsyncType} {s s' : AsyncLooper}

theorem threadRun_steps (hs : s.threadRun = some s') : ThreadSteps s s' := by
  unfold threadRun at hs
  split at hs
  case h_1 hpc =>
    split at hs <;> obtain rfl := Option.some.inj hs
    · rename_i hexit
      obtain ⟨hstop, hempty⟩ := Bool.and_eq_true _ _ ▸ hexit
      exact .exit hpc hstop hempty
    · rename_i hgo
      exact .check hpc (Bool.eq_false_iff.mpr hgo)
  case h_2 hpc | h_3 hpc =>
    have hpc : s.thread = .checked ∨ s.thread = .waiting := by simp [hpc]
    split at hs <;> obtain rfl := Option.some.inj hs
    · rename_i hwork
      exact .work hpc hwork
    · rename_i hidle
      simp only [Bool.or_eq_true, not_or, Bool.not_eq_true, Bool.not_eq_false'] at hidle
      exact .sleep hpc hidle.1 hidle.2
  case h_4 hpc =>
    obtain rfl := Option.some.inj hs
    exact .swap hpc
  case h_5 hpc =>
    obtain rfl := Option.some.inj hs
    exact .sink hpc
  case h_6 hpc =>
    obtain rfl := Option.some.inj hs
    exact .reset hpc
  case h_7 => cases hs

theorem step_steps {a : Act} (hs : s.step type a = some s') : Steps type s a s' := by
  cases a with
  | push t data =>
      simp only [step] at hs
      split at hs
      · cases hs
      · rename_i hfree
        simp only [Bool.or_eq_true, not_or, Bool.not_eq_true, Option.isSome_eq_false_iff,
          Option.isNone_iff_eq_none] at hfree
        split at hs <;> rename_i hmay <;> obtain rfl := Option.some.inj hs
        · exact .append hfree.1 hfree.2 hmay
        · exact .wait hfree.1 hfree.2 (Bool.eq_false_iff.mpr hmay)
  | wake t =>
      cases hw : s.waiting t with
      | none => simp [step, hw] at hs
      | some data =>
          simp only [step, hw] at hs
          split at hs
          · cases hs
          · rename_i hfree
            simp only [Bool.or_eq_true, not_or, Bool.not_eq_true, Bool.not_eq_false'] at hfree
            obtain rfl := Option.some.inj hs
            exact .wake hfree.1 hw hfree.2
  | callStop =>
      obtain ⟨hstop, heq⟩ := Option.ite_none_right_eq_some.mp hs
      exact Option.some.inj heq ▸ .callStop hstop
  | requestStop =>
      obtain ⟨hstop, heq⟩ := Option.ite_none_right_eq_some.mp hs
      exact Option.some.inj heq ▸ .requestStop hstop
  | joined =>
      obtain ⟨⟨hstop, hpc⟩, heq⟩ := Option.ite_none_right_eq_some.mp hs
      exact Option.some.inj heq ▸ .joined hstop hpc
  | run => exact .run (threadRun_steps hs)

theorem Split.flatten {drained rest : List Bytes} (h : s.Split drained rest) :
    s.sunk.flatten ++ s.inFlight ++ s.proBuf.begin = s.pushed.flatten := by
  rw [h.sunk, h.unread, h.pushed, List.flatten_append]

theorem Split.append {drained rest : List Bytes} (h : s.Split drained rest) (data : Bytes) :
    (s.append data).Split drained (rest ++ [data]) where
  pushed := by
    show s.pushed ++ [data] = drained ++ (rest ++ [data])
    rw [h.pushed, List.append_assoc]
  sunk := h.sunk
  unread := by
    show (s.proBuf.push data).begin = (rest ++ [data]).flatten
    rw [Buffer.push_begin, h.unread]
    simp
  before := h.before
  after := h.after

theorem Inv.append (h : s.Inv) (data : Bytes) : (s.append data).Inv where
  split :=
    let ⟨drained, rest, hs⟩ := h.split
    ⟨drained, rest ++ [data], hs.append data⟩
  conEmpty := h.conEmpty
  before := fun hc => (h.before hc).trans (List.prefix_append _ _)
  exited := h.exited
  returned := h.returned

/-- The list of waiting threads is not looked at by the invariant. -/
theorem Inv.setWaiting (h : s.Inv) (w : Nat → Option Bytes) :
    { s with waiting := w }.Inv where
  split :=
    let ⟨drained, rest, hs⟩ := h.split
    ⟨drained, rest, hs.pushed, hs.sunk, hs.unread, hs.before, hs.after⟩
  conEmpty := h.conEmpty
  before := h.before
  exited := h.exited
  returned := h.returned

theorem Inv.thread_ne (h : s.Inv) (hne : s.thread ≠ .exited) : s.stop ≠ .returned :=
  fun hr => hne (h.returned hr)

/-- The thread moves on and touches no buffer. -/
theorem Inv.move (h : s.Inv) {pc : LooperPc} (hne : s.thread ≠ .exited)
    (hsink : s.thread ≠ .sinking) (hreset : s.thread ≠ .resetting)
    (hpc : pc ≠ .exited ∧ pc ≠ .sinking) : { s with thread := pc }.Inv := by
  obtain ⟨drained, rest, hs⟩ := h.split
  have hret := h.thread_ne hne
  have hold : s.inFlight = [] := by
    unfold inFlight
    split
    · contradiction
    · rfl
  have hnew : { s with thread := pc }.inFlight = [] := by
    unfold inFlight
    split
    · rename_i heq
      exact absurd heq hpc.2
    · rfl
  refine ⟨⟨drained, rest, hs.pushed, ?_, hs.unread, fun he => absurd he hpc.1,
    fun hr => absurd hr hret⟩, .inr (.inr ?_), h.before, fun he => absurd he hpc.1,
    fun hr => absurd hr hret⟩
  · rw [hnew, ← hs.sunk, hold]
  · rcases h.conEmpty with hc | hc | hc
    · exact absurd hc hsink
    · exact absurd hc hreset
    · exact hc

/-- Nothing unread is left when the exit test succeeds: every record pushed so
far has been drained, and `stop` had been called. -/
theorem Inv.exit (h : s.Inv) (htop : s.thread = .top) (hstop : s.stopRequested = true)
    (hempty : s.proBuf.empty = true) : { s with thread := .exited }.Inv := by
  obtain ⟨drained, rest, hs⟩ := h.split
  have hcalled : s.stop ≠ .notCalled := by
    intro hn
    simp [stopRequested, hn] at hstop
  have hret := h.thread_ne (by simp [htop])
  have hbegin := Buffer.begin_of_empty hempty
  have hflat := hs.flatten
  have hfly : s.inFlight = [] := by simp [inFlight, htop]
  rw [hbegin, hfly, List.append_nil, List.append_nil] at hflat
  refine ⟨⟨s.pushed, [], (List.append_nil _).symm, ?_, hbegin, fun _ => h.before hcalled,
    fun hr => absurd hr hret⟩, ?_, h.before, fun _ => hstop, fun _ => rfl⟩
  · show s.sunk.flatten ++ [] = s.pushed.flatten
    rw [List.append_nil, hflat]
  · rcases h.conEmpty with hc | hc | hc
    · simp [htop] at hc
    · simp [htop] at hc
    · exact .inr (.inr hc)

theorem Inv.swap (h : s.Inv) (hpc : s.thread = .swapping) :
    { s with proBuf := s.conBuf, conBuf := s.proBuf, thread := .sinking }.Inv := by
  obtain ⟨drained, rest, hs⟩ := h.split
  have hret := h.thread_ne (by simp [hpc])
  have hcon : s.conBuf.begin = [] := by
    rcases h.conEmpty with hc | hc | hc
    · simp [hpc] at hc
    · simp [hpc] at hc
    · exact hc
  have hsunk := hs.sunk
  simp only [inFlight, hpc, List.append_nil] at hsunk
  refine ⟨⟨drained ++ rest, [], ?_, ?_, hcon, fun he => (nomatch he), fun hr => absurd hr hret⟩,
    .inl rfl, h.before, fun he => (nomatch he), fun hr => absurd hr hret⟩
  · rw [List.append_nil]
    exact hs.pushed
  · show s.sunk.flatten ++ s.proBuf.begin = (drained ++ rest).flatten
    rw [hsunk, hs.unread, List.flatten_append]

theorem Inv.sink (h : s.Inv) (hpc : s.thread = .sinking) :
    { s with sunk := s.sunk ++ [s.conBuf.begin], thread := .resetting }.Inv := by
  obtain ⟨drained, rest, hs⟩ := h.split
  have hret := h.thread_ne (by simp [hpc])
  have hsunk := hs.sunk
  simp only [inFlight, hpc] at hsunk
  refine ⟨⟨drained, rest, hs.pushed, ?_, hs.unread, fun he => (nomatch he),
    fun hr => absurd hr hret⟩,
    .inr (.inl rfl), h.before, fun he => (nomatch he), fun hr => absurd hr hret⟩
  show (s.sunk ++ [s.conBuf.begin]).flatten ++ [] = drained.flatten
  rw [← hsunk]
  simp

theorem Inv.resetCon (h : s.Inv) (hpc : s.thread = .resetting) :
    { s with conBuf := s.conBuf.reset, thread := .top }.Inv := by
  obtain ⟨drained, rest, hs⟩ := h.split
  have hret := h.thread_ne (by simp [hpc])
  have hsunk := hs.sunk
  simp only [inFlight, hpc] at hsunk
  exact ⟨⟨drained, rest, hs.pushed, hsunk, hs.unread, fun he => (nomatch he),
    fun hr => absurd hr hret⟩,
    .inr (.inr s.conBuf.reset_begin), h.before, fun he => (nomatch he),
    fun hr => absurd hr hret⟩

theorem ThreadSteps.inv (hs : ThreadSteps s s') (h : s.Inv) : s'.Inv := by
  cases hs with
  | exit hpc hstop hempty => exact h.exit hpc hstop hempty
  | check hpc => exact h.move (by simp [hpc]) (by simp [hpc]) (by simp [hpc]) (by simp)
  | sleep hpc | work hpc =>
      rcases hpc with hpc | hpc <;>
        exact h.move (by simp [hpc]) (by simp [hpc]) (by simp [hpc]) (by simp)
  | swap hpc => exact h.swap hpc
  | sink hpc => exact h.sink hpc
  | reset hpc => exact h.resetCon hpc

/-- A step of `stop`. -/
theorem Inv.stopStep (h : s.Inv) {p : StopPc} {before after : List Bytes}
    (hbefore : p ≠ .notCalled → before <+: s.pushed)
    (hexited : s.thread = .exited →
      before = s.before ∧ (p = .requested ∨ p = .returned))
    (hreturned : p = .returned → s.thread = .exited ∧ after = s.pushed) :
    { s with stop := p, before := before, after := after }.Inv := by
  obtain ⟨drained, rest, hs⟩ := h.split
  refine ⟨⟨drained, rest, hs.pushed, hs.sunk, hs.unread, ?_, ?_⟩, h.conEmpty, hbefore, ?_,
    fun hr => (hreturned hr).1⟩
  · intro he
    exact (hexited he).1 ▸ hs.before he
  · intro hr
    show drained <+: after
    rw [(hreturned hr).2, hs.pushed]
    exact List.prefix_append _ _
  · intro he
    rcases (hexited he).2 with hp | hp <;> simp [stopRequested, hp]

theorem Inv.not_exited (h : s.Inv) (hstop : s.stopRequested = false) : s.thread ≠ .exited := by
  intro he
  simp [h.exited he] at hstop

theorem step_inv {a : Act} (h : s.Inv) (hs : s.step type a = some s') : s'.Inv := by
  cases step_steps hs with
  | append => exact h.append _
  | wait => exact h.setWaiting _
  | wake => exact (h.append _).setWaiting _
  | callStop hstop =>
      have hne := h.not_exited (by simp [stopRequested, hstop])
      exact h.stopStep (fun _ => List.prefix_refl _) (fun he => absurd he hne)
        (fun hr => (nomatch hr))
  | requestStop hstop =>
      exact h.stopStep (fun _ => h.before (by simp [hstop])) (fun _ => ⟨rfl, .inl rfl⟩)
        (fun hr => (nomatch hr))
  | joined hstop hpc =>
      exact h.stopStep (fun _ => h.before (by simp [hstop])) (fun _ => ⟨rfl, .inr rfl⟩)
        (fun _ => ⟨hpc, rfl⟩)
  | run hrun => exact hrun.inv h

theorem reachable_inv (h : Reachable (step type) {} s) : s.Inv :=
  h.invariant Inv inv_initial (fun _ _ _ hi _ hs => step_inv hi hs)

end AsyncLooper

/-- `stop` returns after a block sequence that holds every record pushed before
the call, then only records pushed while it ran. -/
theorem looper_exact {type : AsyncType} {s : AsyncLooper}
    (h : Reachable (AsyncLooper.step type) {} s) :
    s.sunk.flatten ++ s.inFlight ++ s.proBuf.begin = s.pushed.flatten ∧
      (s.stop = .returned →
        ∃ l, s.before <+: l ∧ l <+: s.after ∧ s.sunk.flatten = l.flatten) ∧
      ∀ (b other : Buffer) (data : Bytes),
        (b.getenoughsize data.length).begin = b.begin ∧
        (b.push data).begin = b.begin ++ data ∧
        (b.swap other).1.begin = other.begin ∧ (b.swap other).2.begin = b.begin := by
  have hi := AsyncLooper.reachable_inv h
  obtain ⟨drained, rest, hs⟩ := hi.split
  refine ⟨hs.flatten, fun hr => ?_, fun b other data => ?_⟩
  · have he := hi.returned hr
    have hsunk := hs.sunk
    simp only [AsyncLooper.inFlight, he, List.append_nil] at hsunk
    exact ⟨drained, hs.before he, hs.after hr, hsunk⟩
  · exact ⟨b.getenoughsize_begin data.length, b.push_begin data, rfl, rfl⟩

/-- One record before the call of `stop`, one between the call and its request. -/
def stopRun : List AsyncLooper.Act :=
  [.push 0 (str "ab"), .callStop, .push 1 (str "c"), .requestStop] ++
    List.replicate 6 .run ++ [.joined]

theorem looper_exact_stopRun : ∃ s, exec (AsyncLooper.step .ASYNC_SAFE) {} stopRun = some s ∧
    s.before = [str "ab"] ∧ s.after = [str "ab", str "c"] ∧
    ∃ l, s.before <+: l ∧ l <+: s.after ∧ s.sunk.flatten = l.flatten := by
  obtain ⟨s, hs, hview⟩ := Option.map_eq_some_iff.mp
    (show (exec (AsyncLooper.step .ASYNC_SAFE) {} stopRun).map
      (fun s => (s.stop, s.before, s.after)) =
        some (.returned, [str "ab"], [str "ab", str "c"]) by decide +kernel)
  obtain ⟨hreturned, hrest⟩ := Prod.mk.inj hview
  obtain ⟨hbefore, hafter⟩ := Prod.mk.inj hrest
  have hexact := looper_exact (Reachable.of_exec hs)
  exact ⟨s, hs, hbefore, hafter, hexact.2.1 hreturned⟩

end LyqtRpc
