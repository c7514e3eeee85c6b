import Mathlib.Tactic.NormNum
import LyqtRpc.Lib.Word64
import LyqtRpc.RingFifo

/-!
The ring as compiled: indices are `uint64_t`, and a `pinned_end` of 0 stands
for no pinned frame. Beside it the ring of the other modules, whose indices
never wrap; the states of the one are those of the other taken modulo `2 ^ 64`.
-/

set_option autoImplicit false

namespace LyqtRpc

open StepRun Word64

def producerRun64 (ch : ShmRingBuf) (m : Memory) : ProducerPc → Option Produced
  | .loadRead c w =>
    if sub ch.dataSize (sub w ch.readIdx) < c.frame.len then
      some { ch, data := m, pc := .full c }
    else if ch.contig w < c.frame.len then
      some { ch, data := m, pc := .skipMark c w ch.readIdx }
    else
      some { ch, data := m, pc := .putLen c.frame w (ch.offset w) }
  | .skipMark c w r =>
    let zeros := if 4 ≤ ch.contig w then leBytes 4 0 else leBytes (ch.contig w) 0
    let marked := m.store (ch.offset w) zeros
    let w' := add w (ch.contig w)
    if sub ch.dataSize (sub w' r) < c.frame.len then
      some { ch, data := marked, pc := .full c }
    else
      some { ch, data := marked, pc := .putLen c.frame w' 0 }
  | .publish f w =>
    some { ch := { ch with writeIdx := add w f.len }, data := m, pc := .idle true,
           published := [f] }
  | .ptrLoadRead w =>
    let avail := sub ch.dataSize (sub w ch.readIdx)
    if avail < 8 then some { ch, data := m, pc := .idle false }
    else if min avail (ch.contig w) ≤ 8 then some { ch, data := m, pc := .idle false }
    else some { ch, data := m,
                pc := .span (ch.offset w + 8) (min avail (ch.contig w) - 8) }
  | pc => producerRun ch m pc

/-- Only `run` does arithmetic on indices. -/
def producerStep64 (ch : ShmRingBuf) (m : Memory) (pc : ProducerPc) :
    ProducerAct → Option Produced
  | .run => producerRun64 ch m pc
  | a => producerStep ch m pc a

def consumerRun64 (ch : ShmRingBuf) (m : Memory) (c : Consumer) : Option Consumed :=
  match c.pc with
  | .loadWrite r =>
    if ch.writeIdx = r then some { ch, consumer := { c with pc := .idle false } }
    else if ch.contig r < 4 then
      some { ch, consumer := { c with pc := .jump (add r (ch.contig r)) } }
    else some { ch, consumer := { c with pc := .readLen r } }
  | .readLen r =>
    let n := ofLe (m.load (ch.offset r) 4)
    if n = 0 then some { ch, consumer := { c with pc := .jump (add r (ch.contig r)) } }
    else if n < 8 ∨ ch.contig r < n then
      some { ch, consumer := { c with pc := .idle false } }
    else some { ch, consumer := { c with pc := .readType r n } }
  | .readType r n =>
    let type := EnumValue.ofInt32 (Int32.ofWord (ofLe (m.load (ch.offset r + 4) 4)))
    some { ch
           consumer := { pc := .idle true, pinnedEnd := add r n
                         view := some ⟨type, ch.offset r + 8, n - 8⟩ }
           obtained := [⟨type, m.load (ch.offset r + 8) (n - 8)⟩] }
  | _ => consumerRun ch m c

def consumerStep64 (ch : ShmRingBuf) (m : Memory) (c : Consumer) :
    ConsumerAct → Option Consumed
  | .run => consumerRun64 ch m c
  | a => consumerStep ch m c a

def ringStep64 (s : RingState) : RingAct → Option RingState
  | .producer a => (producerStep64 s.ch s.data s.producer a).map s.afterProducer
  | .consumer a => (consumerStep64 s.ch s.data s.consumer a).map s.afterConsumer

def ShmRingBuf.wrap (ch : ShmRingBuf) : ShmRingBuf :=
  { ch with writeIdx := word ch.writeIdx, readIdx := word ch.readIdx }

def ProducerPc.wrap : ProducerPc → ProducerPc
  | .loadRead c w => .loadRead c (word w)
  | .skipMark c w r => .skipMark c (word w) (word r)
  | .putLen f w off => .putLen f (word w) off
  | .putType f w off => .putType f (word w) off
  | .putBody f w off => .putBody f (word w) off
  | .publish f w => .publish f (word w)
  | .ptrLoadRead w => .ptrLoadRead (word w)
  | .commitLen f w off => .commitLen f (word w) off
  | .commitType f w off => .commitType f (word w) off
  | pc => pc

def ConsumerPc.wrap : ConsumerPc → ConsumerPc
  | .loadWrite r => .loadWrite (word r)
  | .jump i => .jump (word i)
  | .readLen r => .readLen (word r)
  | .readType r n => .readType (word r) n
  | pc => pc

def Consumer.wrap (c : Consumer) : Consumer :=
  { c with pc := c.pc.wrap, pinnedEnd := word c.pinnedEnd }

/-- The same state with its indices in words; what was committed, obtained and
returned does not change. -/
def RingState.wrap (s : RingState) : RingState :=
  { s with ch := s.ch.wrap, producer := s.producer.wrap, consumer := s.consumer.wrap }

/-- The step takes a frame whose end is 0 as a word. -/
def takesZeroEnd (s : RingState) (a : RingAct) : Bool :=
  match s.consumer.pc, a with
  | .readType r n, .consumer .run => word (r + n) == 0
  | _, _ => false

/-- Offsets can be taken from the words, and no frame is read whose end is the
value that says nothing is pinned. -/
def Unaliased (s : RingState) (a : RingAct) : Prop :=
  (s.ch.writeIdx < 2 ^ 64 ∨ s.ch.dataSize ∣ 2 ^ 64) ∧ takesZeroEnd s a = false

instance (s : RingState) (a : RingAct) : Decidable (Unaliased s a) :=
  inferInstanceAs (Decidable (_ ∧ _))

def Produced.wrap (x : Produced) : Produced := { x with ch := x.ch.wrap, pc := x.pc.wrap }

def Consumed.wrap (x : Consumed) : Consumed :=
  { x with ch := x.ch.wrap, consumer := x.consumer.wrap }

section Simulation
variable {ch : ShmRingBuf} {m : Memory}

/-- A position not past `write_idx` has its offset and its tail from the word. -/
theorem offset_wrap {p : Nat} (hp : p ≤ ch.writeIdx)
    (h : ch.writeIdx < 2 ^ 64 ∨ ch.dataSize ∣ 2 ^ 64) :
    ch.wrap.offset (word p) = ch.offset p := by
  have hlt : p < 2 ^ 64 ∨ ch.dataSize ∣ 2 ^ 64 := h.imp_left (Nat.lt_of_le_of_lt hp)
  exact word_mod hlt

theorem contig_wrap {p : Nat} (hp : p ≤ ch.writeIdx)
    (h : ch.writeIdx < 2 ^ 64 ∨ ch.dataSize ∣ 2 ^ 64) :
    ch.wrap.contig (word p) = ch.contig p := by
  unfold ShmRingBuf.contig
  rw [offset_wrap hp h]
  rfl

/-- The space check: `data_size - (w - r)` in words. -/
theorem space_wrap {ds w r : Nat} (hds : ds < 2 ^ 63) (hle : r ≤ w) (hused : w ≤ r + ds) :
    sub ds (sub (word w) (word r)) = ds - (w - r) := by
  rw [sub_word hle (by omega), sub_of_le (by omega) (by omega)]

theorem producerRun_wrap {pc : ProducerPc} (hidx : IndexInv ch) (hinv : ProducerInv ch m pc)
    (hds : ch.dataSize < 2 ^ 63) (h : ch.writeIdx < 2 ^ 64 ∨ ch.dataSize ∣ 2 ^ 64) :
    producerRun64 ch.wrap m pc.wrap = (producerRun ch m pc).map Produced.wrap := by
  have hspace := space_wrap hds hidx.le hidx.used
  have hoff := offset_wrap (Nat.le_refl _) h
  have hcontig := contig_wrap (Nat.le_refl _) h
  have hsize : ch.wrap.dataSize = ch.dataSize := rfl
  have hread : ch.wrap.readIdx = word ch.readIdx := rfl
  cases pc with
  | loadRead c w =>
      obtain ⟨_, rfl⟩ := hinv
      simp only [ProducerPc.wrap, producerRun64, producerRun, hsize, hread, hspace, hoff, hcontig]
      split
      · rfl
      · split <;> rfl
  | skipMark c w r =>
      obtain ⟨_, rfl, _, hle, hused, hfree, hwrap⟩ := hinv
      have hspace' : sub ch.dataSize (sub (word (ch.writeIdx + ch.contig ch.writeIdx)) (word r)) =
          ch.dataSize - (ch.writeIdx + ch.contig ch.writeIdx - r) :=
        space_wrap hds (by omega) (by omega)
      simp only [ProducerPc.wrap, producerRun64, producerRun, hsize, hoff, hcontig, add_word,
        hspace']
      split <;> rfl
  | publish f w =>
      simp only [ProducerPc.wrap, producerRun64, producerRun, add_word]
      rfl
  | ptrLoadRead w =>
      obtain rfl : w = ch.writeIdx := hinv
      simp only [ProducerPc.wrap, producerRun64, producerRun, hsize, hread, hspace, hoff, hcontig]
      split
      · rfl
      · split <;> rfl
  | commitLoad f =>
      have hwrite : ch.wrap.writeIdx = word ch.writeIdx := rfl
      simp only [ProducerPc.wrap, producerRun64, producerRun, hwrite, hoff]
      rfl
  | _ => rfl

theorem producerStep_wrap {pc : ProducerPc} {a : ProducerAct} (hidx : IndexInv ch)
    (hinv : ProducerInv ch m pc) (hds : ch.dataSize < 2 ^ 63)
    (h : ch.writeIdx < 2 ^ 64 ∨ ch.dataSize ∣ 2 ^ 64) :
    producerStep64 ch.wrap m pc.wrap a = (producerStep ch m pc a).map Produced.wrap := by
  cases a with
  | run =>
      have hrun : producerStep ch m pc .run = producerRun ch m pc := by cases pc <;> rfl
      rw [hrun]
      exact producerRun_wrap hidx hinv hds h
  | writeTo body type waitMs =>
      cases pc with
      | idle ret =>
          simp only [producerStep64, producerStep, ProducerPc.wrap]
          split
          · rfl
          · show (if ch.dataSize < _ then _ else _) = _
            split <;> rfl
      | _ => rfl
  | retry =>
      cases pc with
      | full c =>
          simp only [producerStep64, producerStep, ProducerPc.wrap]
          split <;> rfl
      | _ => rfl
  | fill i bs =>
      cases pc with
      | span base len =>
          simp only [producerStep64, producerStep, ProducerPc.wrap]
          split <;> rfl
      | _ => rfl
  | commit n type =>
      cases pc with
      | span base len =>
          simp only [producerStep64, producerStep, ProducerPc.wrap]
          split <;> rfl
      | _ => rfl
  | _ => cases pc <;> rfl

theorem consumerRun_wrap {c : Consumer} (hidx : IndexInv ch) (hpc : ConsumerPcInv ch m c.pc)
    (hds : ch.dataSize < 2 ^ 63) (h : ch.writeIdx < 2 ^ 64 ∨ ch.dataSize ∣ 2 ^ 64) :
    consumerRun64 ch.wrap m c.wrap = (consumerRun ch m c).map Consumed.wrap := by
  have hoff := offset_wrap hidx.le h
  have hcontig := contig_wrap hidx.le h
  have hwrite : ch.wrap.writeIdx = word ch.writeIdx := rfl
  obtain ⟨pc, pinnedEnd, view⟩ := c
  cases pc with
  | loadWrite r =>
      obtain rfl : r = ch.readIdx := hpc
      have hused := hidx.used
      have hempty : word ch.writeIdx = word ch.readIdx ↔ ch.writeIdx = ch.readIdx :=
        word_inj hidx.le (by omega)
      simp only [Consumer.wrap, ConsumerPc.wrap, consumerRun64, consumerRun, hwrite, hempty,
        hcontig, add_word]
      split
      · rfl
      · split <;> rfl
  | readLen r =>
      obtain ⟨rfl, _, _⟩ := hpc
      simp only [Consumer.wrap, ConsumerPc.wrap, consumerRun64, consumerRun, hoff, hcontig,
        add_word]
      split
      · rfl
      · split <;> rfl
  | readType r n =>
      obtain ⟨rfl, _⟩ := hpc
      simp only [Consumer.wrap, ConsumerPc.wrap, consumerRun64, consumerRun, hoff, add_word]
      rfl
  | _ => rfl

theorem consumerStep_wrap {c : Consumer} {a : ConsumerAct} (hidx : IndexInv ch)
    (hpc : ConsumerPcInv ch m c.pc) (hpin : word c.pinnedEnd = 0 → c.pinnedEnd = 0)
    (hds : ch.dataSize < 2 ^ 63) (h : ch.writeIdx < 2 ^ 64 ∨ ch.dataSize ∣ 2 ^ 64) :
    consumerStep64 ch.wrap m c.wrap a = (consumerStep ch m c a).map Consumed.wrap := by
  have hzero : word c.pinnedEnd = 0 ↔ c.pinnedEnd = 0 := ⟨hpin, fun he => by rw [he, word_zero]⟩
  cases a with
  | run => exact consumerRun_wrap hidx hpc hds h
  | readFrameView =>
      obtain ⟨pc, pinnedEnd, view⟩ := c
      cases pc with
      | idle ret =>
          simp only [consumerStep64, consumerStep, Consumer.wrap, ConsumerPc.wrap, ne_eq, hzero]
          split <;> rfl
      | _ => rfl
  | releaseFrameView =>
      obtain ⟨pc, pinnedEnd, view⟩ := c
      cases pc with
      | idle ret =>
          simp only [consumerStep64, consumerStep, Consumer.wrap, ConsumerPc.wrap, hzero]
          split <;> rfl
      | _ => rfl

end Simulation

section Run
variable {ds : Nat} {s t : RingState} {a : RingAct}

/-- The sentinel stands for itself only. -/
structure WrapInv (ds : Nat) (s : RingState) : Prop where
  ring : RingInv ds s
  pinned : word s.consumer.pinnedEnd = 0 → s.consumer.pinnedEnd = 0

/-- A step in words is the step of the unbounded machine. -/
theorem ringStep_wrap (h : WrapInv ds s) (hds : ds < 2 ^ 63) (hok : Unaliased s a) :
    ringStep64 s.wrap a = (ringStep s a).map RingState.wrap := by
  have hring := h.ring
  have hsize : s.ch.dataSize < 2 ^ 63 := hring.size ▸ hds
  cases a with
  | producer a =>
      have hstep := producerStep_wrap (a := a) hring.index hring.producer hsize hok.1
      show (producerStep64 s.ch.wrap s.data s.producer.wrap a).map s.wrap.afterProducer = _
      rw [hstep, ringStep, Option.map_map, Option.map_map]
      rfl
  | consumer a =>
      have hstep := consumerStep_wrap (a := a) hring.index hring.consumer h.pinned hsize hok.1
      show (consumerStep64 s.ch.wrap s.data s.consumer.wrap a).map s.wrap.afterConsumer = _
      rw [hstep, ringStep, Option.map_map, Option.map_map]
      rfl

theorem consumerRun_pinnedEnd {ch : ShmRingBuf} {m : Memory} {c : Consumer} {x : Consumed}
    (hx : consumerRun ch m c = some x) :
    x.consumer.pinnedEnd = c.pinnedEnd ∨
      ∃ r n, c.pc = .readType r n ∧ x.consumer.pinnedEnd = r + n := by
  cases hc : c.pc with
  | idle ret => simp only [consumerRun, hc] at hx; cases hx
  | loadRead =>
      simp only [consumerRun, hc] at hx
      cases hx
      exact .inl rfl
  | loadWrite r =>
      simp only [consumerRun, hc] at hx
      split at hx
      · cases hx
        exact .inl rfl
      · split at hx <;> cases hx <;> exact .inl rfl
  | jump i =>
      simp only [consumerRun, hc] at hx
      cases hx
      exact .inl rfl
  | readLen r =>
      simp only [consumerRun, hc] at hx
      split at hx
      · cases hx
        exact .inl rfl
      · split at hx <;> cases hx <;> exact .inl rfl
  | readType r n =>
      simp only [consumerRun, hc] at hx
      cases hx
      exact .inr ⟨r, n, rfl, rfl⟩

theorem WrapInv.step (h : WrapInv ds s) (hok : Unaliased s a) (hs : ringStep s a = some t) :
    WrapInv ds t := by
  refine ⟨ringStep_inv h.ring hs, ?_⟩
  cases a with
  | producer a =>
      obtain ⟨x, _, rfl⟩ := Option.map_eq_some_iff.mp hs
      exact h.pinned
  | consumer a =>
      obtain ⟨x, hx, rfl⟩ := Option.map_eq_some_iff.mp hs
      show word x.consumer.pinnedEnd = 0 → x.consumer.pinnedEnd = 0
      cases a with
      | run =>
          rcases consumerRun_pinnedEnd hx with he | ⟨r, n, hpc, he⟩
          · rw [he]
            exact h.pinned
          · have hend := hok.2
            simp only [takesZeroEnd, hpc, beq_eq_false_iff_ne] at hend
            rw [he]
            exact fun hzero => absurd hzero hend
      | readFrameView =>
          simp only [consumerStep] at hx
          split at hx
          · split at hx <;> cases hx <;> exact h.pinned
          · cases hx
      | releaseFrameView =>
          simp only [consumerStep] at hx
          split at hx
          · split at hx <;> cases hx
            · exact h.pinned
            · intro _
              rfl
          · cases hx

theorem PinInv.viewed {ch : ShmRingBuf} {m : Memory} {obtained : List Frame} {c : Consumer}
    {v : FrameView} (h : PinInv ch m obtained c) (hv : c.view = some v) :
    (∃ ret, c.pc = .idle ret) ∧ c.pinnedEnd ≠ 0 := by
  cases h with
  | unpinned pc => cases hv
  | pinned ret f _ _ _ =>
      refine ⟨⟨ret, rfl⟩, ?_⟩
      show ch.readIdx + (8 + f.body.length) ≠ 0
      omega

theorem consumerStep_release_pinned {ch : ShmRingBuf} {m : Memory} {c : Consumer} {ret : Bool}
    (hpc : c.pc = .idle ret) (hne : c.pinnedEnd ≠ 0) :
    consumerStep ch m c .releaseFrameView =
      some { ch := { ch with readIdx := c.pinnedEnd }
             consumer := { c with pinnedEnd := 0, view := none } } := by
  simp only [consumerStep, hpc]
  exact if_neg hne

/-- A frame that is viewed can be released, in words too. -/
theorem WrapInv.release (h : WrapInv ds s) {v : FrameView} (hv : s.consumer.view = some v) :
    ∃ t, ringStep64 s.wrap (.consumer .releaseFrameView) = some t ∧
      t.ch.readIdx = word s.consumer.pinnedEnd ∧ t.consumer.view = none ∧
      t.consumer.pinnedEnd = 0 := by
  obtain ⟨⟨ret, hpc⟩, hne⟩ := h.ring.pin.viewed hv
  have hidle : s.consumer.wrap.pc = .idle ret := by
    rw [Consumer.wrap, hpc]
    rfl
  have hpinned : s.consumer.wrap.pinnedEnd ≠ 0 := fun he => hne (h.pinned he)
  have hstep := @consumerStep_release_pinned s.ch.wrap s.data _ _ hidle hpinned
  refine ⟨s.wrap.afterConsumer
    { ch := { s.ch.wrap with readIdx := s.consumer.wrap.pinnedEnd }
      consumer := { s.consumer.wrap with pinnedEnd := 0, view := none } }, ?_, rfl, rfl, rfl⟩
  show (consumerStep s.ch.wrap s.data s.consumer.wrap .releaseFrameView).map _ = _
  rw [hstep]
  rfl

theorem wrapInv_initial (hpos : 0 < ds) (data : Memory) : WrapInv ds (ringInitial ds data) :=
  ⟨ringInitial_inv hpos data, fun _ => rfl⟩

end Run

/-- As long as offsets can be taken from the words and no frame read ends where
the words start over, the ring in words does what the unbounded one does, and
lets go of every frame it shows. -/
theorem wrap_transparent {ds : Nat} (hpos : 0 < ds) (hds : ds < 2 ^ 63) (data : Memory)
    (as : List RingAct) (hok : Along ringStep Unaliased (ringInitial ds data) as) :
    exec ringStep64 (ringInitial ds data) as =
      (exec ringStep (ringInitial ds data) as).map RingState.wrap ∧
    ∀ s v, exec ringStep (ringInitial ds data) as = some s → s.consumer.view = some v →
      ∃ t, ringStep64 s.wrap (.consumer .releaseFrameView) = some t ∧
        t.ch.readIdx = word s.consumer.pinnedEnd ∧ t.consumer.view = none ∧
        t.consumer.pinnedEnd = 0 := by
  have hinit := wrapInv_initial hpos data
  constructor
  · exact exec_map (f := RingState.wrap) (WrapInv ds) (fun _ _ _ hi ha hs => hi.step ha hs)
      (fun _ _ hi ha => ringStep_wrap hi hds ha) hinit hok
  · intro s v hs hv
    have hinv := (hok.run hs).invariant (WrapInv ds) hinit
      (fun _ _ _ hi ha hstep => hi.step ha hstep)
    exact hinv.release hv

theorem wrap_transparent_wrapRun : ∃ s,
    exec ringStep (ringInitial 32 (fun _ => 0)) wrapRun = some s ∧
    exec ringStep64 (ringInitial 32 (fun _ => 0)) wrapRun = some s.wrap ∧
    s.obtained.length = 2 := by
  obtain ⟨s, hs, hlen⟩ := Option.map_eq_some_iff.mp
    (show (exec (guarded ringStep Unaliased) (ringInitial 32 (fun _ => 0)) wrapRun).map
      (fun s => s.obtained.length) = some 2 by decide +kernel)
  obtain ⟨hexec, halong⟩ := exec_guarded hs
  have hwords := (wrap_transparent (by decide) (by decide) _ _ halong).1
  rw [hexec] at hwords
  exact ⟨s, hexec, hwords, hlen⟩

section Lap

/-- A frame of 16 bytes; in a ring of 16 it always starts at offset 0. -/
def lapFrame : Frame := ⟨.named .REQ_RPC, List.replicate 8 7⟩

/-- The frame is written, and read up to its length word. -/
def lapFill : List RingAct :=
  .producer (.writeTo lapFrame.body lapFrame.type 0) ::
    (List.replicate 6 (.producer .run) ++
    .consumer .readFrameView :: List.replicate 3 (.consumer .run))

def lapTake : List RingAct := [.consumer .run, .consumer .releaseFrameView]

/-- The parts of a state that steps look at. -/
structure At (ch : ShmRingBuf) (m : Memory) (p : ProducerPc) (c : Consumer)
    (s : RingState) : Prop where
  ch : s.ch = ch
  data : s.data = m
  producer : s.producer = p
  consumer : s.consumer = c

/-- The guarded machine runs over the labels, to a state with `Q`. -/
def Reaches (as : List RingAct) (Q : RingState → Prop) (s : RingState) : Prop :=
  ∃ t, exec (guarded ringStep Unaliased) s as = some t ∧ Q t

variable {ch : ShmRingBuf} {m : Memory} {p : ProducerPc} {c : Consumer} {s : RingState}
  {as : List RingAct} {Q : RingState → Prop}

theorem Reaches.cons {a : RingAct} {t : RingState} (hok : Unaliased s a)
    (hs : ringStep s a = some t) (h : Reaches as Q t) : Reaches (a :: as) Q s := by
  obtain ⟨u, hexec, hq⟩ := h
  exact ⟨u, (exec_cons ((guarded_eq hok).trans hs)).trans hexec, hq⟩

theorem At.producer_cons {a : ProducerAct} {x : Produced} (h : At ch m p c s)
    (hx : producerStep ch m p a = some x) (hds : ch.dataSize = 16)
    (hnext : ∀ t, At x.ch x.data x.pc c t → Reaches as Q t) :
    Reaches (.producer a :: as) Q s := by
  obtain ⟨rfl, rfl, rfl, rfl⟩ := h
  have hok : Unaliased s (.producer a) := by
    refine ⟨.inr (by rw [hds]; decide), ?_⟩
    unfold takesZeroEnd
    split
    · contradiction
    · rfl
  have hs : ringStep s (.producer a) = some (s.afterProducer x) := by
    rw [ringStep, hx]
    rfl
  exact .cons hok hs (hnext _ ⟨rfl, rfl, rfl, rfl⟩)

theorem At.consumer_cons {a : ConsumerAct} {x : Consumed} (h : At ch m p c s)
    (hx : consumerStep ch m c a = some x) (hds : ch.dataSize = 16)
    (hend : takesZeroEnd s (.consumer a) = false)
    (hnext : ∀ t, At x.ch m p x.consumer t → Reaches as Q t) :
    Reaches (.consumer a :: as) Q s := by
  obtain ⟨rfl, rfl, rfl, rfl⟩ := h
  have hok : Unaliased s (.consumer a) := ⟨.inr (by rw [hds]; decide), hend⟩
  have hs : ringStep s (.consumer a) = some (s.afterConsumer x) := by
    rw [ringStep, hx]
    rfl
  exact .cons hok hs (hnext _ ⟨rfl, rfl, rfl, rfl⟩)

variable {k : Nat}

theorem lap_start (w r k : Nat) :
    ShmRingBuf.offset ⟨w, r, 16⟩ (16 * k) = 0 ∧ ShmRingBuf.contig ⟨w, r, 16⟩ (16 * k) = 16 := by
  have hoff : ShmRingBuf.offset ⟨w, r, 16⟩ (16 * k) = 0 := Nat.mul_mod_right 16 k
  refine ⟨hoff, ?_⟩
  rw [ShmRingBuf.contig, hoff]
  rfl

theorem lap_room (m : Memory) (w : Int32) :
    producerStep ⟨16 * k, 16 * k, 16⟩ m (.loadRead ⟨lapFrame, w⟩ (16 * k)) .run =
      some { ch := ⟨16 * k, 16 * k, 16⟩, data := m, pc := .putLen lapFrame (16 * k) 0 } := by
  have hlen : lapFrame.len = 16 := rfl
  obtain ⟨hoff, hcontig⟩ := lap_start (16 * k) (16 * k) k
  simp only [producerStep, producerRun, hlen, hoff, hcontig, Nat.sub_self, Nat.sub_zero,
    Nat.lt_irrefl, if_false]

theorem lap_nonempty (m : Memory) :
    consumerStep ⟨16 * k + 16, 16 * k, 16⟩ m { pc := .loadWrite (16 * k) } .run =
      some { ch := ⟨16 * k + 16, 16 * k, 16⟩, consumer := { pc := .readLen (16 * k) } } := by
  obtain ⟨hoff, hcontig⟩ := lap_start (16 * k + 16) (16 * k) k
  have hne : ¬ 16 * k + 16 = 16 * k := by omega
  simp only [consumerStep, consumerRun, hcontig, if_neg hne]
  rfl

theorem lap_header (m : Memory) (hword : m.load 0 4 = leBytes 4 16) :
    consumerStep ⟨16 * k + 16, 16 * k, 16⟩ m { pc := .readLen (16 * k) } .run =
      some { ch := ⟨16 * k + 16, 16 * k, 16⟩, consumer := { pc := .readType (16 * k) 16 } } := by
  obtain ⟨hoff, hcontig⟩ := lap_start (16 * k + 16) (16 * k) k
  have hlen : ofLe (m.load 0 4) = 16 := by
    rw [hword]
    rfl
  simp only [consumerStep, consumerRun, hoff, hcontig, hlen]
  rfl

theorem lap_fill {b b' : Bool} (h : At ⟨16 * k, 16 * k, 16⟩ m (.idle b) { pc := .idle b' } s) :
    Reaches lapFill (fun t => ∃ m',
      At ⟨16 * k + 16, 16 * k, 16⟩ m' (.idle true) { pc := .readType (16 * k) 16 } t) s := by
  simp only [lapFill, List.replicate, List.cons_append, List.nil_append]
  refine h.producer_cons rfl rfl fun t h => ?_
  refine h.producer_cons rfl rfl fun t h => ?_
  refine h.producer_cons (lap_room m 0) rfl fun t h => ?_
  refine h.producer_cons rfl rfl fun t h => ?_
  refine h.producer_cons rfl rfl fun t h => ?_
  refine h.producer_cons rfl rfl fun t h => ?_
  refine h.producer_cons rfl rfl fun t h => ?_
  refine h.consumer_cons rfl rfl (by simp [takesZeroEnd, h.consumer]) fun t h => ?_
  refine h.consumer_cons rfl rfl (by simp [takesZeroEnd, h.consumer]) fun t h => ?_
  refine h.consumer_cons (lap_nonempty _) rfl (by simp [takesZeroEnd, h.consumer]) fun t h => ?_
  refine h.consumer_cons (lap_header _ ?_) rfl (by simp [takesZeroEnd, h.consumer]) fun t h => ?_
  · rw [Memory.load_store_disjoint _ (.inl (by decide)),
      Memory.load_store_disjoint _ (.inl (by decide))]
    exact Memory.load_store m 0 (leBytes 4 16)
  · exact ⟨t, rfl, _, h⟩

/-- Between two laps: everything read and released, both indices at `16 * k`. -/
def LapDone (k : Nat) (s : RingState) : Prop :=
  ∃ m b b', At ⟨16 * k, 16 * k, 16⟩ m (.idle b) { pc := .idle b' } s

/-- In the middle of a lap: the frame at `16 * k` is taken next. -/
def LapFilled (k : Nat) (s : RingState) : Prop :=
  ∃ m, At ⟨16 * k + 16, 16 * k, 16⟩ m (.idle true) { pc := .readType (16 * k) 16 } s

theorem Reaches.append {bs : List RingAct} {Q' : RingState → Prop} (h : Reaches as Q s)
    (hnext : ∀ t, Q t → Reaches bs Q' t) : Reaches (as ++ bs) Q' s := by
  obtain ⟨t, hexec, hq⟩ := h
  obtain ⟨u, hexec', hq'⟩ := hnext t hq
  exact ⟨u, by rw [exec_append hexec, hexec'], hq'⟩

theorem LapDone.fill (h : LapDone k s) : Reaches lapFill (LapFilled k) s := by
  obtain ⟨m, b, b', hat⟩ := h
  exact lap_fill hat

theorem LapFilled.take (h : LapFilled k s) (hend : word (16 * k + 16) ≠ 0) :
    Reaches lapTake (LapDone (k + 1)) s := by
  obtain ⟨m, h⟩ := h
  have hpinned : 16 * k + 16 ≠ 0 := by omega
  refine h.consumer_cons rfl rfl (by simp [takesZeroEnd, h.consumer, hend]) fun t h => ?_
  refine h.consumer_cons (consumerStep_release_pinned rfl hpinned) rfl
    (by simp [takesZeroEnd, h.consumer]) fun t h => ?_
  exact ⟨t, rfl, m, true, true, h⟩

def laps (n : Nat) : List RingAct := (List.replicate n (lapFill ++ lapTake)).flatten

/-- The laps below the one that ends at `2 ^ 64`. -/
theorem laps_reach {n : Nat} (hn : 16 * n < 2 ^ 64) (data : Memory) :
    Reaches (laps n) (LapDone n) (ringInitial 16 data) := by
  induction n with
  | zero => exact ⟨_, rfl, data, false, false, rfl, rfl, rfl, rfl⟩
  | succ n ih =>
      have hend : word (16 * n + 16) ≠ 0 := by
        unfold word
        omega
      have hsplit : laps (n + 1) = laps n ++ (lapFill ++ lapTake) := by
        simp only [laps, List.replicate_succ', List.flatten_append, List.flatten_singleton]
      rw [hsplit]
      exact (ih (by omega)).append fun t ht => ht.fill.append fun u hu => hu.take hend

theorem At.consumer_step {a : ConsumerAct} {x : Consumed} (h : At ch m p c s)
    (hx : consumerStep ch m c a = some x) :
    ∃ t, ringStep s (.consumer a) = some t ∧ At x.ch m p x.consumer t := by
  obtain ⟨rfl, rfl, rfl, rfl⟩ := h
  exact ⟨s.afterConsumer x, by rw [ringStep, hx]; rfl, rfl, rfl, rfl, rfl⟩

theorem At.consumer_step64 {a : ConsumerAct} {x : Consumed} (h : At ch m p c s)
    (hx : consumerStep64 ch m c a = some x) :
    ∃ t, ringStep64 s (.consumer a) = some t ∧ At x.ch m p x.consumer t := by
  obtain ⟨rfl, rfl, rfl, rfl⟩ := h
  exact ⟨s.afterConsumer x, by rw [ringStep64, hx]; rfl, rfl, rfl, rfl, rfl⟩

theorem At.wrap (h : At ch m p c s) : At ch.wrap m p.wrap c.wrap s.wrap := by
  obtain ⟨rfl, rfl, rfl, rfl⟩ := h
  exact ⟨rfl, rfl, rfl, rfl⟩

/-- With unbounded indices the frame is released. -/
theorem LapFilled.released (h : LapFilled k s) :
    ∃ t, exec ringStep s lapTake = some t ∧ t.consumer.view = none := by
  obtain ⟨m, h⟩ := h
  have hpinned : 16 * k + 16 ≠ 0 := by omega
  obtain ⟨t, ht, h⟩ := h.consumer_step (a := .run) rfl
  obtain ⟨u, hu, h⟩ := h.consumer_step (consumerStep_release_pinned rfl hpinned)
  exact ⟨u, by rw [lapTake, exec_cons ht, exec_cons hu]; rfl, by rw [h.consumer]⟩

/-- With words it stays pinned when it ends at `2 ^ 64`: the release does nothing. -/
theorem LapFilled.stuck (h : LapFilled k s) (hend : word (16 * k + 16) = 0) :
    ∃ t, exec ringStep64 s.wrap lapTake = some t ∧ t.consumer.view ≠ none := by
  obtain ⟨m, h⟩ := h
  have hpinned : add (word (16 * k)) 16 = 0 := by rw [add_word, hend]
  obtain ⟨t, ht, h⟩ := h.wrap.consumer_step64 (a := .run) rfl
  rw [hpinned] at h
  obtain ⟨u, hu, h⟩ := h.consumer_step64 (a := .releaseFrameView) rfl
  exact ⟨u, by rw [lapTake, exec_cons ht, exec_cons hu]; rfl, by rw [h.consumer]; simp⟩

/-- After `n` laps and the filling of the next one, which ends at `2 ^ 64`, the
two machines take the frame differently. -/
theorem laps_diverge {n : Nat} (hn : 16 * n + 16 = 2 ^ 64) (data : Memory) :
    exec ringStep64 (ringInitial 16 data) (laps n ++ lapFill ++ lapTake) ≠
      (exec ringStep (ringInitial 16 data) (laps n ++ lapFill ++ lapTake)).map
        RingState.wrap := by
  intro heq
  obtain ⟨s, hguarded, hfilled⟩ :=
    (laps_reach (by omega) data).append fun t ht => LapDone.fill (k := n) ht
  obtain ⟨hexec, halong⟩ := exec_guarded hguarded
  have hwords : exec ringStep64 (ringInitial 16 data) (laps n ++ lapFill) = some s.wrap := by
    have hmap := exec_map (f := RingState.wrap) (WrapInv 16)
      (fun _ _ _ hi ha hs => hi.step ha hs)
      (fun _ _ hi ha => ringStep_wrap hi (by decide) ha) (wrapInv_initial (by decide) data) halong
    rw [hexec] at hmap
    exact hmap
  obtain ⟨t, ht, hnone⟩ := hfilled.released
  obtain ⟨u, hu, hsome⟩ := hfilled.stuck (by rw [hn]; rfl)
  rw [exec_append hwords, exec_append hexec, hu, ht] at heq
  obtain rfl := Option.some.inj heq
  exact hsome hnone

end Lap

/-- In a ring of 16 bytes the frame number `2 ^ 60` ends at `2 ^ 64`: it is never
released, and would be read again and again. -/
theorem wrap_not_transparent : ¬ ∀ (ds : Nat) (data : Memory) (as : List RingAct),
    0 < ds → ds < 2 ^ 63 →
    exec ringStep64 (ringInitial ds data) as =
      (exec ringStep (ringInitial ds data) as).map RingState.wrap := by
  intro h
  have hn : 16 * (2 ^ 60 - 1) + 16 = 2 ^ 64 := by norm_num
  exact laps_diverge hn (fun _ => 0) (h 16 _ _ (by decide) (by decide))

end LyqtRpc
