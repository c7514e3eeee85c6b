import LyqtRpc.Lib.CircularLog
import LyqtRpc.Lib.StepRun
import LyqtRpc.Fields

/-!
`shm_channel.cc`: one direction of the shared-memory channel, as two threads
over one ring. Every atomic load or store and every `memcpy` is one step; what
a call keeps in locals between two steps is part of its program counter.
-/

set_option autoImplicit false

namespace LyqtRpc

open CircularLog

structure ShmRingBuf where
  writeIdx : Nat := 0
  readIdx : Nat := 0
  dataSize : Nat
  deriving DecidableEq, Repr

namespace ShmRingBuf

def offset (ch : ShmRingBuf) (i : Nat) : Nat := i % ch.dataSize

/-- Bytes from a position to the end of the data area. -/
def contig (ch : ShmRingBuf) (i : Nat) : Nat := ch.dataSize - ch.offset i

end ShmRingBuf

structure Frame where
  type : EnumValue MsgType
  body : Bytes
  deriving DecidableEq

/-- `frame_len`: it counts itself, the type and the body. -/
def Frame.len (f : Frame) : Nat := 8 + f.body.length

def typeWord (t : EnumValue MsgType) : Bytes := leBytes 4 (Int32.word t.toInt32)

/-- `| 4B frame_len | 4B msg_type | body |`; a zero length word marks a skipped
tail. -/
def frameFormat : Format Frame where
  encode f := leBytes 4 f.len ++ (typeWord f.type ++ f.body)
  mark := leBytes 4 0

/-- The arguments of `write_to`. -/
structure WriteCall where
  frame : Frame
  waitMs : Int32

inductive ProducerPc where
  /-- No call is running; `ret` is what the last one returned. -/
  | idle (ret : Bool)
  | loadWrite (c : WriteCall)
  | loadRead (c : WriteCall) (w : Nat)
  | skipMark (c : WriteCall) (w r : Nat)
  | full (c : WriteCall)
  | putLen (f : Frame) (w off : Nat)
  | putType (f : Frame) (w off : Nat)
  | putBody (f : Frame) (w off : Nat)
  | publish (f : Frame) (w : Nat)
  | ptrLoadWrite
  | ptrLoadRead (w : Nat)
  /-- `req_write_ptr` returned the `len` bytes from `base`. -/
  | span (base len : Nat)
  | commitLoad (f : Frame)
  | commitLen (f : Frame) (w off : Nat)
  | commitType (f : Frame) (w off : Nat)

inductive ProducerAct where
  | writeTo (body : Bytes) (type : EnumValue MsgType) (waitMs : Int32)
  /-- The ring is full and the deadline has not passed. -/
  | retry
  | giveUp
  | writePtr
  | fill (i : Nat) (bs : Bytes)
  | commit (bodyLen : Nat) (type : EnumValue MsgType)
  /-- The caller drops the span. -/
  | abandon
  /-- The next step of the call that is running. -/
  | run

/-- What one step of the producer leaves behind. `published` is the frame the
step made visible, if any. -/
structure Produced where
  ch : ShmRingBuf
  data : Memory
  pc : ProducerPc
  published : List Frame := []

def producerRun (ch : ShmRingBuf) (m : Memory) : ProducerPc → Option Produced
  | .loadWrite c => some { ch, data := m, pc := .loadRead c ch.writeIdx }
  | .loadRead c w =>
    if ch.dataSize - (w - ch.readIdx) < c.frame.len then
      some { ch, data := m, pc := .full c }
    else if ch.contig w < c.frame.len then
      some { ch, data := m, pc := .skipMark c w ch.readIdx }
    else
      some { ch, data := m, pc := .putLen c.frame w (ch.offset w) }
  | .skipMark c w r =>
    let zeros := if 4 ≤ ch.contig w then leBytes 4 0 else leBytes (ch.contig w) 0
    let marked := m.store (ch.offset w) zeros
    let w' := w + ch.contig w
    if ch.dataSize - (w' - r) < c.frame.len then
      some { ch, data := marked, pc := .full c }
    else
      some { ch, data := marked, pc := .putLen c.frame w' 0 }
  | .putLen f w off =>
    some { ch, data := m.store off (leBytes 4 f.len), pc := .putType f w off }
  | .putType f w off =>
    some { ch, data := m.store (off + 4) (typeWord f.type), pc := .putBody f w off }
  | .putBody f w off =>
    some { ch, data := m.store (off + 8) f.body, pc := .publish f w }
  | .publish f w =>
    some { ch := { ch with writeIdx := w + f.len }, data := m, pc := .idle true,
           published := [f] }
  | .ptrLoadWrite => some { ch, data := m, pc := .ptrLoadRead ch.writeIdx }
  | .ptrLoadRead w =>
    let avail := ch.dataSize - (w - ch.readIdx)
    if avail < 8 then some { ch, data := m, pc := .idle false }
    else if min avail (ch.contig w) ≤ 8 then some { ch, data := m, pc := .idle false }
    else some { ch, data := m,
                pc := .span (ch.offset w + 8) (min avail (ch.contig w) - 8) }
  | .commitLoad f =>
    some { ch, data := m, pc := .commitLen f ch.writeIdx (ch.offset ch.writeIdx) }
  | .commitLen f w off =>
    some { ch, data := m.store off (leBytes 4 f.len), pc := .commitType f w off }
  | .commitType f w off =>
    some { ch, data := m.store (off + 4) (typeWord f.type), pc := .publish f w }
  | .idle _ | .full _ | .span _ _ => none

/-- One step of the producer. Calls start where no call is running; a span is
filled and committed while the caller holds it. -/
def producerStep (ch : ShmRingBuf) (m : Memory) : ProducerPc → ProducerAct → Option Produced
  | .idle _, .writeTo body type waitMs =>
    if 2 ^ 32 - 1 - 8 < body.length then some { ch, data := m, pc := .idle false }
    else if ch.dataSize < 8 + body.length then some { ch, data := m, pc := .idle false }
    else some { ch, data := m, pc := .loadWrite ⟨⟨type, body⟩, waitMs⟩ }
  | .full c, .retry =>
    if 0 < c.waitMs then some { ch, data := m, pc := .loadWrite c } else none
  | .full _, .giveUp => some { ch, data := m, pc := .idle false }
  | .idle _, .writePtr => some { ch, data := m, pc := .ptrLoadWrite }
  | .span base len, .fill i bs =>
    if i + bs.length ≤ len then
      some { ch, data := m.store (base + i) bs, pc := .span base len }
    else none
  | .span base len, .commit n type =>
    if n ≤ len ∧ 8 + n < 2 ^ 32 then
      some { ch, data := m, pc := .commitLoad ⟨type, m.load base n⟩ }
    else none
  | .span _ _, .abandon => some { ch, data := m, pc := .idle false }
  | pc, .run => producerRun ch m pc
  | _, _ => none

/-- `body` is a span into the ring, here its bounds. -/
structure FrameView where
  type : EnumValue MsgType
  base : Nat
  len : Nat
  deriving DecidableEq

inductive ConsumerPc where
  /-- No call is running; `ret` is what the last `read_frame_view` returned. -/
  | idle (ret : Bool)
  | loadRead
  | loadWrite (r : Nat)
  | jump (i : Nat)
  | readLen (r : Nat)
  | readType (r n : Nat)
  deriving DecidableEq

/-- The consumer's side: `pinned_end`, and the view its caller holds. -/
structure Consumer where
  pc : ConsumerPc := .idle false
  pinnedEnd : Nat := 0
  view : Option FrameView := none
  deriving DecidableEq

inductive ConsumerAct where
  | readFrameView
  | releaseFrameView
  | run

/-- What one step of the consumer leaves behind. `obtained` is the frame the
step handed to the caller, if any, as read from memory. -/
structure Consumed where
  ch : ShmRingBuf
  consumer : Consumer
  obtained : List Frame := []

def consumerRun (ch : ShmRingBuf) (m : Memory) (c : Consumer) : Option Consumed :=
  match c.pc with
  | .loadRead => some { ch, consumer := { c with pc := .loadWrite ch.readIdx } }
  | .loadWrite r =>
    if ch.writeIdx = r then some { ch, consumer := { c with pc := .idle false } }
    else if ch.contig r < 4 then
      some { ch, consumer := { c with pc := .jump (r + ch.contig r) } }
    else some { ch, consumer := { c with pc := .readLen r } }
  | .jump i => some { ch := { ch with readIdx := i }, consumer := { c with pc := .loadRead } }
  | .readLen r =>
    let n := ofLe (m.load (ch.offset r) 4)
    if n = 0 then some { ch, consumer := { c with pc := .jump (r + ch.contig r) } }
    else if n < 8 ∨ ch.contig r < n then
      some { ch, consumer := { c with pc := .idle false } }
    else some { ch, consumer := { c with pc := .readType r n } }
  | .readType r n =>
    let type := EnumValue.ofInt32 (Int32.ofWord (ofLe (m.load (ch.offset r + 4) 4)))
    some { ch
           consumer := { pc := .idle true, pinnedEnd := r + n
                         view := some ⟨type, ch.offset r + 8, n - 8⟩ }
           obtained := [⟨type, m.load (ch.offset r + 8) (n - 8)⟩] }
  | .idle _ => none

/-- One step of the consumer. A second `read_frame_view` before the release
returns false at once; a release with nothing pinned does nothing. -/
def consumerStep (ch : ShmRingBuf) (m : Memory) (c : Consumer) :
    ConsumerAct → Option Consumed
  | .readFrameView =>
    match c.pc with
    | .idle _ =>
      if c.pinnedEnd ≠ 0 then some { ch, consumer := { c with pc := .idle false } }
      else some { ch, consumer := { c with pc := .loadRead } }
    | _ => none
  | .releaseFrameView =>
    match c.pc with
    | .idle _ =>
      if c.pinnedEnd = 0 then some { ch, consumer := c }
      else some { ch := { ch with readIdx := c.pinnedEnd }
                  consumer := { c with pinnedEnd := 0, view := none } }
    | _ => none
  | .run => consumerRun ch m c

/-- `committed` and `obtained` record every frame ever published and handed
out; no step reads them. -/
structure RingState where
  ch : ShmRingBuf
  data : Memory
  producer : ProducerPc := .idle false
  consumer : Consumer := {}
  committed : List Frame := []
  obtained : List Frame := []

inductive RingAct where
  | producer (a : ProducerAct)
  | consumer (a : ConsumerAct)

def ringInitial (ds : Nat) (data : Memory) : RingState := { ch := { dataSize := ds }, data }

def RingState.afterProducer (s : RingState) (x : Produced) : RingState :=
  { s with ch := x.ch, data := x.data, producer := x.pc
           committed := s.committed ++ x.published }

def RingState.afterConsumer (s : RingState) (x : Consumed) : RingState :=
  { s with ch := x.ch, consumer := x.consumer, obtained := s.obtained ++ x.obtained }

def ringStep (s : RingState) : RingAct → Option RingState
  | .producer a => (producerStep s.ch s.data s.producer a).map s.afterProducer
  | .consumer a => (consumerStep s.ch s.data s.consumer a).map s.afterConsumer

end LyqtRpc
