import LyqtRpc.RingMachine

/-!
The ring is a FIFO: whatever the interleaving, the consumer gets the committed
frames, in order and intact.
-/

set_option autoImplicit false

namespace LyqtRpc

open CircularLog StepRun

theorem frameFormat_size (f : Frame) : frameFormat.size f = f.len := by
  simp [Format.size, frameFormat, Frame.len, typeWord]
  omega

theorem frameFormat_size_pos (f : Frame) : 0 < frameFormat.size f := by
  rw [frameFormat_size, Frame.len]
  omega

theorem recordAt_iff {m : Memory} {off : Nat} {f : Frame} :
    frameFormat.RecordAt m off f ↔
      m.load off 4 = leBytes 4 f.len ∧ m.load (off + 4) 4 = typeWord f.type ∧
        m.load (off + 8) f.body.length = f.body := by
  have hsize : frameFormat.size f = 4 + (4 + f.body.length) := by
    rw [frameFormat_size, Frame.len]
    omega
  unfold Format.RecordAt
  rw [hsize, Memory.load_append, Memory.load_append]
  simp only [frameFormat]
  constructor
  · intro h
    obtain ⟨h1, h2⟩ := List.append_inj h (by simp)
    obtain ⟨h3, h4⟩ := List.append_inj h2 (by simp [typeWord])
    exact ⟨h1, h3, h4⟩
  · rintro ⟨h1, h2, h3⟩
    rw [h1, h2, h3]

/-- Frame `f` may be written at offset `off`, for position `p`: the next
position, or the start of the region after a skipped tail. -/
structure Room (ch : ShmRingBuf) (m : Memory) (f : Frame) (p off : Nat) : Prop where
  start : p = ch.writeIdx ∨
    (frameFormat.SkipAt m ch.dataSize ch.writeIdx ∧ p = ch.writeIdx + ch.contig ch.writeIdx)
  offset : off = p % ch.dataSize
  fits : off + f.len ≤ ch.dataSize
  free : p + f.len ≤ ch.readIdx + ch.dataSize
  small : f.len < 2 ^ 32

theorem Room.writeIdx_le {ch : ShmRingBuf} {m : Memory} {f : Frame} {p off : Nat}
    (h : Room ch m f p off) : ch.writeIdx ≤ p := by
  rcases h.start with hp | ⟨_, hp⟩
  · exact Nat.le_of_eq hp.symm
  · rw [hp]
    exact Nat.le_add_right _ _

/-- A store inside the free room is invisible at the positions below it. -/
theorem Room.agree {ch : ShmRingBuf} {m : Memory} {f : Frame} {p off o r : Nat} {bs : Bytes}
    (h : Room ch m f p off) (hr : ch.readIdx ≤ r) (ho : off ≤ o)
    (hend : o + bs.length ≤ off + f.len) :
    Agree ch.dataSize r p m (m.store o bs) := by
  have hfits := h.fits
  have hfree := h.free
  have hoff := h.offset
  have ho' : o = p % ch.dataSize + (o - off) := by omega
  rw [ho']
  exact agree_store (by omega) (by omega) (by omega)

theorem Room.store {ch : ShmRingBuf} {m : Memory} {f : Frame} {p off o : Nat} {bs : Bytes}
    (hds : 0 < ch.dataSize) (hle : ch.readIdx ≤ ch.writeIdx)
    (h : Room ch m f p off) (ho : off ≤ o) (hend : o + bs.length ≤ off + f.len) :
    Room ch (m.store o bs) f p off := by
  refine ⟨?_, h.offset, h.fits, h.free, h.small⟩
  rcases h.start with hp | ⟨hskip, hp⟩
  · exact .inl hp
  · refine .inr ⟨hskip.congr hds ?_, hp⟩
    have hagree := h.agree hle ho hend
    exact hagree.mono (Nat.le_refl _) (Nat.le_of_eq hp.symm)

/-- The consumer only makes more room. -/
theorem Room.advance {ch : ShmRingBuf} {m : Memory} {f : Frame} {p off i : Nat}
    (h : Room ch m f p off) (hi : ch.readIdx ≤ i) :
    Room { ch with readIdx := i } m f p off := by
  have hfree := h.free
  exact ⟨h.start, h.offset, h.fits, by show p + f.len ≤ i + ch.dataSize; omega, h.small⟩

/-- A frame written in its room extends the log. -/
theorem Room.log {ch : ShmRingBuf} {m : Memory} {f : Frame} {p off a : Nat} {fs : List Frame}
    (h : Room ch m f p off) (hrec : frameFormat.RecordAt m off f)
    (hlog : frameFormat.Log m ch.dataSize a ch.writeIdx fs) :
    frameFormat.Log m ch.dataSize a (p + f.len) (fs ++ [f]) := by
  have hsize := frameFormat_size f
  have hfits := h.fits
  rw [h.offset] at hrec hfits
  rcases h.start with hp | ⟨hskip, hp⟩
  · subst hp
    rw [← hsize] at hfits ⊢
    exact hlog.snoc hfits hrec
  · subst hp
    rw [← hsize] at hfits ⊢
    exact hlog.snoc_skip hskip hfits hrec

/-- What the locals of a running producer call say about the ring. -/
def ProducerInv (ch : ShmRingBuf) (m : Memory) : ProducerPc → Prop
  | .idle _ | .ptrLoadWrite => True
  | .loadWrite c | .full c => c.frame.len < 2 ^ 32
  | .loadRead c w => c.frame.len < 2 ^ 32 ∧ w = ch.writeIdx
  | .skipMark c w r =>
    c.frame.len < 2 ^ 32 ∧ w = ch.writeIdx ∧ r ≤ ch.readIdx ∧ r ≤ w ∧ w ≤ r + ch.dataSize ∧
      c.frame.len ≤ ch.dataSize - (w - r) ∧ ch.contig w < c.frame.len
  | .putLen f p off => Room ch m f p off
  | .putType f p off => Room ch m f p off ∧ m.load off 4 = leBytes 4 f.len
  | .putBody f p off =>
    Room ch m f p off ∧ m.load off 4 = leBytes 4 f.len ∧
      m.load (off + 4) 4 = typeWord f.type
  | .publish f p => ∃ off, Room ch m f p off ∧ frameFormat.RecordAt m off f
  | .ptrLoadRead w => w = ch.writeIdx
  | .span base len =>
    base = ch.offset ch.writeIdx + 8 ∧ base + len ≤ ch.dataSize ∧
      ch.writeIdx + 8 + len ≤ ch.readIdx + ch.dataSize
  | .commitLoad f =>
    Room ch m f ch.writeIdx (ch.offset ch.writeIdx) ∧
      m.load (ch.offset ch.writeIdx + 8) f.body.length = f.body
  | .commitLen f p off => Room ch m f p off ∧ m.load (off + 8) f.body.length = f.body
  | .commitType f p off =>
    Room ch m f p off ∧ m.load off 4 = leBytes 4 f.len ∧
      m.load (off + 8) f.body.length = f.body

theorem ProducerInv.advance {ch : ShmRingBuf} {m : Memory} {pc : ProducerPc} {i : Nat}
    (h : ProducerInv ch m pc) (hi : ch.readIdx ≤ i) :
    ProducerInv { ch with readIdx := i } m pc := by
  cases pc with
  | idle ret => trivial
  | ptrLoadWrite => trivial
  | loadWrite c => exact h
  | full c => exact h
  | loadRead c w => exact h
  | skipMark c w r =>
      obtain ⟨h1, h2, h3, h4⟩ := h
      exact ⟨h1, h2, Nat.le_trans h3 hi, h4⟩
  | putLen f p off => exact Room.advance h hi
  | putType f p off => exact ⟨h.1.advance hi, h.2⟩
  | putBody f p off => exact ⟨h.1.advance hi, h.2⟩
  | publish f p =>
      obtain ⟨off, hroom, hrec⟩ := h
      exact ⟨off, hroom.advance hi, hrec⟩
  | ptrLoadRead w => exact h
  | span base len =>
      obtain ⟨h1, h2, h3⟩ := h
      exact ⟨h1, h2, by show ch.writeIdx + 8 + len ≤ i + ch.dataSize; omega⟩
  | commitLoad f => exact ⟨h.1.advance hi, h.2⟩
  | commitLen f p off => exact ⟨h.1.advance hi, h.2⟩
  | commitType f p off => exact ⟨h.1.advance hi, h.2⟩

/-- The indices are in order and no further apart than the ring is long. -/
structure IndexInv (ch : ShmRingBuf) : Prop where
  pos : 0 < ch.dataSize
  le : ch.readIdx ≤ ch.writeIdx
  used : ch.writeIdx ≤ ch.readIdx + ch.dataSize

/-- Everything the consumer may rely on when the producer takes a step: only
`writeIdx` moves, forward and within the ring; the occupied bytes stay; a log
grows by what was published. -/
structure ProducerGuarantee (ch : ShmRingBuf) (m : Memory) (x : Produced) : Prop where
  inv : ProducerInv x.ch x.data x.pc
  index : IndexInv x.ch
  readIdx : x.ch.readIdx = ch.readIdx
  dataSize : x.ch.dataSize = ch.dataSize
  agree : Agree ch.dataSize ch.readIdx ch.writeIdx m x.data
  grow : ch.writeIdx ≤ x.ch.writeIdx
  log : ∀ a fs, ch.readIdx ≤ a → frameFormat.Log m ch.dataSize a ch.writeIdx fs →
    frameFormat.Log x.data ch.dataSize a x.ch.writeIdx (fs ++ x.published)
  small : ∀ f ∈ x.published, f.len < 2 ^ 32

/-- A step that moves no index and stores at most outside the occupied bytes. -/
theorem ProducerGuarantee.of_store {ch : ShmRingBuf} {m m' : Memory} {pc : ProducerPc}
    (hidx : IndexInv ch) (hagree : Agree ch.dataSize ch.readIdx ch.writeIdx m m')
    (hinv : ProducerInv ch m' pc) :
    ProducerGuarantee ch m { ch, data := m', pc } where
  inv := hinv
  index := hidx
  readIdx := rfl
  dataSize := rfl
  agree := hagree
  grow := Nat.le_refl _
  log a fs ha hlog := by
    rw [List.append_nil]
    exact hlog.congr hidx.pos (hagree.mono ha (Nat.le_refl _))
  small f hf := by cases hf

theorem ProducerGuarantee.of_quiet {ch : ShmRingBuf} {m : Memory} {pc : ProducerPc}
    (hidx : IndexInv ch) (hinv : ProducerInv ch m pc) :
    ProducerGuarantee ch m { ch, data := m, pc } :=
  .of_store hidx (Agree.refl _ _ _ _) hinv

theorem ProducerGuarantee.of_publish {ch : ShmRingBuf} {m : Memory} {f : Frame} {p off : Nat}
    (hidx : IndexInv ch) (hroom : Room ch m f p off) (hrec : frameFormat.RecordAt m off f) :
    ProducerGuarantee ch m
      { ch := { ch with writeIdx := p + f.len }, data := m, pc := .idle true,
        published := [f] } := by
  have hp := hroom.writeIdx_le
  have hle := hidx.le
  have hgrow : ch.writeIdx ≤ p + f.len := by omega
  refine ⟨trivial, ⟨hidx.pos, ?_, hroom.free⟩, rfl, rfl, Agree.refl _ _ _ _, hgrow, ?_, ?_⟩
  · show ch.readIdx ≤ p + f.len
    omega
  · intro a fs _ hlog
    exact hroom.log hrec hlog
  · intro g hg
    rw [List.mem_singleton.mp hg]
    exact hroom.small

/-- A store into the room of the frame being written. -/
theorem Room.guarantee {ch : ShmRingBuf} {m : Memory} {f : Frame} {p off o : Nat} {bs : Bytes}
    {pc : ProducerPc} (h : Room ch m f p off) (hidx : IndexInv ch) (ho : off ≤ o)
    (hend : o + bs.length ≤ off + f.len) (hinv : ProducerInv ch (m.store o bs) pc) :
    ProducerGuarantee ch m { ch, data := m.store o bs, pc } :=
  .of_store hidx
    ((h.agree (Nat.le_refl _) ho hend).mono (Nat.le_refl _) h.writeIdx_le) hinv

theorem loadRead_guarantee {ch : ShmRingBuf} {m : Memory} {c : WriteCall} {w : Nat}
    {x : Produced} (hidx : IndexInv ch) (hinv : ProducerInv ch m (.loadRead c w))
    (h : producerRun ch m (.loadRead c w) = some x) : ProducerGuarantee ch m x := by
  obtain ⟨hsmall, hw⟩ := hinv
  subst hw
  have hle := hidx.le
  have hused := hidx.used
  have hmod := Nat.mod_lt ch.writeIdx hidx.pos
  simp only [producerRun] at h
  split at h
  · cases h
    exact .of_quiet hidx hsmall
  · split at h
    · cases h
      rename_i hroom hwrap
      refine .of_quiet hidx ⟨hsmall, rfl, Nat.le_refl _, hle, hused, ?_, hwrap⟩
      omega
    · cases h
      rename_i hroom hwrap
      unfold ShmRingBuf.contig at hwrap
      refine .of_quiet hidx ⟨.inl rfl, rfl, ?_, ?_, hsmall⟩
      · unfold ShmRingBuf.offset at *
        omega
      · omega

theorem skipMark_guarantee {ch : ShmRingBuf} {m : Memory} {c : WriteCall} {w r : Nat}
    {x : Produced} (hidx : IndexInv ch) (hinv : ProducerInv ch m (.skipMark c w r))
    (h : producerRun ch m (.skipMark c w r) = some x) : ProducerGuarantee ch m x := by
  obtain ⟨hsmall, hw, hr, hrw, hused, hfree, hwrap⟩ := hinv
  subst hw
  have hmod := Nat.mod_lt ch.writeIdx hidx.pos
  have hcontig : ch.contig ch.writeIdx = ch.dataSize - ch.writeIdx % ch.dataSize := rfl
  simp only [producerRun] at h
  generalize hz : (if 4 ≤ ch.contig ch.writeIdx then leBytes 4 0
    else leBytes (ch.contig ch.writeIdx) 0) = zeros at h
  have hlen : zeros.length ≤ ch.contig ch.writeIdx := by
    subst hz
    split <;> simp
    assumption
  have hagree : Agree ch.dataSize ch.readIdx ch.writeIdx m
      (m.store (ch.offset ch.writeIdx) zeros) :=
    agree_store (p := ch.writeIdx) (d := 0) (by omega) (by omega) (by omega)
  have hskip : frameFormat.SkipAt (m.store (ch.offset ch.writeIdx) zeros) ch.dataSize
      ch.writeIdx := by
    by_cases h4 : 4 ≤ ch.contig ch.writeIdx
    · right
      rw [if_pos h4] at hz
      subst hz
      exact Memory.load_store m _ (leBytes 4 0)
    · left
      simp only [frameFormat, leBytes_length]
      omega
  split at h
  · cases h
    exact .of_store hidx hagree hsmall
  · cases h
    rename_i hroom
    refine .of_store hidx hagree ⟨.inr ⟨hskip, rfl⟩, ?_, ?_, ?_, hsmall⟩
    · exact (wrap_mod hidx.pos).symm
    · omega
    · omega

theorem ptrLoadRead_guarantee {ch : ShmRingBuf} {m : Memory} {w : Nat} {x : Produced}
    (hidx : IndexInv ch) (hinv : ProducerInv ch m (.ptrLoadRead w))
    (h : producerRun ch m (.ptrLoadRead w) = some x) : ProducerGuarantee ch m x := by
  have hw : w = ch.writeIdx := hinv
  subst hw
  have hle := hidx.le
  have hused := hidx.used
  have hmod := Nat.mod_lt ch.writeIdx hidx.pos
  have hcontig : ch.contig ch.writeIdx = ch.dataSize - ch.offset ch.writeIdx := rfl
  have hoff : ch.offset ch.writeIdx = ch.writeIdx % ch.dataSize := rfl
  simp only [producerRun] at h
  split at h
  · cases h
    exact .of_quiet hidx trivial
  · split at h
    · cases h
      exact .of_quiet hidx trivial
    · cases h
      refine .of_quiet hidx ⟨rfl, ?_, ?_⟩ <;> omega

theorem producerRun_guarantee {ch : ShmRingBuf} {m : Memory} {pc : ProducerPc}
    {x : Produced} (hidx : IndexInv ch) (hinv : ProducerInv ch m pc)
    (h : producerRun ch m pc = some x) : ProducerGuarantee ch m x := by
  cases pc with
  | idle ret => cases h
  | full c => cases h
  | span base len => cases h
  | loadWrite c =>
      cases h
      exact .of_quiet hidx ⟨hinv, rfl⟩
  | loadRead c w => exact loadRead_guarantee hidx hinv h
  | skipMark c w r => exact skipMark_guarantee hidx hinv h
  | putLen f p off =>
      cases h
      have hlen : f.len = 8 + f.body.length := rfl
      have hroom : Room ch m f p off := hinv
      have hend : off + (leBytes 4 f.len).length ≤ off + f.len := by
        simp only [leBytes_length]
        omega
      refine hroom.guarantee hidx (Nat.le_refl _) hend ⟨?_, ?_⟩
      · exact hroom.store hidx.pos hidx.le (Nat.le_refl _) hend
      · exact Memory.load_store m off (leBytes 4 f.len)
  | putType f p off =>
      cases h
      obtain ⟨hroom, hlenAt⟩ := hinv
      have hlen : f.len = 8 + f.body.length := rfl
      have hend : off + 4 + (typeWord f.type).length ≤ off + f.len := by
        simp only [typeWord, leBytes_length]
        omega
      refine hroom.guarantee hidx (by omega) hend ⟨?_, ?_, ?_⟩
      · exact hroom.store hidx.pos hidx.le (by omega) hend
      · rw [Memory.load_store_disjoint _ (.inl (Nat.le_refl _)), hlenAt]
      · exact Memory.load_store m (off + 4) (typeWord f.type)
  | putBody f p off =>
      cases h
      obtain ⟨hroom, hlenAt, htypeAt⟩ := hinv
      have hlen : f.len = 8 + f.body.length := rfl
      have hend : off + 8 + f.body.length ≤ off + f.len := by omega
      refine hroom.guarantee hidx (by omega) hend ⟨off, ?_, recordAt_iff.mpr ⟨?_, ?_, ?_⟩⟩
      · exact hroom.store hidx.pos hidx.le (by omega) hend
      · rw [Memory.load_store_disjoint _ (.inl (by omega)), hlenAt]
      · rw [Memory.load_store_disjoint _ (.inl (by omega)), htypeAt]
      · exact Memory.load_store m (off + 8) f.body
  | publish f p =>
      cases h
      obtain ⟨off, hroom, hrec⟩ := hinv
      exact .of_publish hidx hroom hrec
  | ptrLoadWrite =>
      cases h
      exact .of_quiet hidx rfl
  | ptrLoadRead w => exact ptrLoadRead_guarantee hidx hinv h
  | commitLoad f =>
      cases h
      exact .of_quiet hidx hinv
  | commitLen f p off =>
      cases h
      obtain ⟨hroom, hbody⟩ := hinv
      have hlen : f.len = 8 + f.body.length := rfl
      have hend : off + (leBytes 4 f.len).length ≤ off + f.len := by
        simp only [leBytes_length]
        omega
      refine hroom.guarantee hidx (Nat.le_refl _) hend ⟨?_, ?_, ?_⟩
      · exact hroom.store hidx.pos hidx.le (Nat.le_refl _) hend
      · exact Memory.load_store m off (leBytes 4 f.len)
      · rw [Memory.load_store_disjoint _ (.inr (by simp only [leBytes_length]; omega)), hbody]
  | commitType f p off =>
      cases h
      obtain ⟨hroom, hlenAt, hbody⟩ := hinv
      have hlen : f.len = 8 + f.body.length := rfl
      have htype : (typeWord f.type).length = 4 := leBytes_length _ _
      have hend : off + 4 + (typeWord f.type).length ≤ off + f.len := by omega
      refine hroom.guarantee hidx (by omega) hend ⟨off, ?_, recordAt_iff.mpr ⟨?_, ?_, ?_⟩⟩
      · exact hroom.store hidx.pos hidx.le (by omega) hend
      · rw [Memory.load_store_disjoint _ (.inl (by omega)), hlenAt]
      · have hs := Memory.load_store m (off + 4) (typeWord f.type)
        rwa [htype] at hs
      · rw [Memory.load_store_disjoint _ (.inr (by omega)), hbody]

theorem producerStep_guarantee {ch : ShmRingBuf} {m : Memory} {pc : ProducerPc}
    {a : ProducerAct} {x : Produced} (hidx : IndexInv ch) (hinv : ProducerInv ch m pc)
    (h : producerStep ch m pc a = some x) : ProducerGuarantee ch m x := by
  unfold producerStep at h
  split at h
  · split at h
    · cases h
      exact .of_quiet hidx trivial
    · split at h
      · cases h
        exact .of_quiet hidx trivial
      · cases h
        rename_i body type waitMs hbig _
        exact .of_quiet hidx (by show 8 + body.length < 2 ^ 32; omega)
  · split at h
    · cases h
      exact .of_quiet hidx hinv
    · cases h
  · cases h
    exact .of_quiet hidx trivial
  · cases h
    exact .of_quiet hidx trivial
  · rename_i base len i bs
    obtain ⟨hbase, hfit, hfree⟩ := hinv
    split at h
    · cases h
      unfold ShmRingBuf.offset at hbase
      refine .of_store hidx ?_ ⟨hbase, hfit, hfree⟩
      rw [hbase, Nat.add_assoc]
      exact agree_store (by omega) (by omega) (by omega)
    · cases h
  · rename_i base len n type
    obtain ⟨hbase, hfit, hfree⟩ := hinv
    split at h
    · cases h
      rename_i hn
      have hlen : (Frame.mk type (m.load base n)).len = 8 + n := by simp [Frame.len]
      refine .of_quiet hidx ⟨⟨.inl rfl, rfl, ?_, ?_, ?_⟩, ?_⟩
      · omega
      · omega
      · omega
      · simp only [Memory.load_length, hbase]
    · cases h
  · cases h
    exact .of_quiet hidx trivial
  · exact producerRun_guarantee hidx hinv h
  · cases h

/-- What the locals of a running `read_frame_view` say about the ring. -/
def ConsumerPcInv (ch : ShmRingBuf) (m : Memory) : ConsumerPc → Prop
  | .idle _ | .loadRead => True
  | .loadWrite r => r = ch.readIdx
  | .jump i => ch.readIdx ≤ i
  | .readLen r => r = ch.readIdx ∧ r < ch.writeIdx ∧ 4 ≤ ch.contig r
  | .readType r n =>
    r = ch.readIdx ∧ r + 4 ≤ ch.writeIdx ∧ 4 ≤ ch.contig r ∧
      n = ofLe (m.load (ch.offset r) 4) ∧ n ≠ 0

/-- Position of the first frame that was not handed out. -/
def cursor (ch : ShmRingBuf) (c : Consumer) : Nat :=
  match c.pc with
  | .jump i => i
  | _ => if c.pinnedEnd = 0 then ch.readIdx else c.pinnedEnd

/-- The caller's view and `pinned_end` are those of the frame at `readIdx`, the
last one obtained; between frames there are neither. -/
inductive PinInv (ch : ShmRingBuf) (m : Memory) (obtained : List Frame) : Consumer → Prop where
  | unpinned (pc : ConsumerPc) : PinInv ch m obtained { pc }
  | pinned (ret : Bool) (f : Frame) :
      obtained.getLast? = some f → ch.readIdx % ch.dataSize + f.len ≤ ch.dataSize →
      frameFormat.RecordAt m (ch.offset ch.readIdx) f →
      PinInv ch m obtained
        { pc := .idle ret, pinnedEnd := ch.readIdx + f.len
          view := some ⟨f.type, ch.offset ch.readIdx + 8, f.body.length⟩ }

structure RingInv (ds : Nat) (s : RingState) : Prop where
  index : IndexInv s.ch
  size : s.ch.dataSize = ds
  producer : ProducerInv s.ch s.data s.producer
  consumer : ConsumerPcInv s.ch s.data s.consumer.pc
  pin : PinInv s.ch s.data s.obtained s.consumer
  delivered : ∃ pending,
    frameFormat.Log s.data s.ch.dataSize (cursor s.ch s.consumer) s.ch.writeIdx pending ∧
      s.committed = s.obtained ++ pending ∧ ∀ f ∈ pending, f.len < 2 ^ 32

theorem ringInitial_inv {ds : Nat} (hds : 0 < ds) (data : Memory) :
    RingInv ds (ringInitial ds data) where
  index := ⟨hds, Nat.le_refl _, Nat.zero_le _⟩
  size := rfl
  producer := trivial
  consumer := trivial
  pin := .unpinned _
  delivered := ⟨[], .nil _, rfl, fun f hf => by cases hf⟩

theorem PinInv.readIdx_le_cursor {ch : ShmRingBuf} {m : Memory} {obtained : List Frame}
    {c : Consumer} (hpin : PinInv ch m obtained c) (hpc : ConsumerPcInv ch m c.pc) :
    ch.readIdx ≤ cursor ch c := by
  cases hpin with
  | unpinned pc =>
      cases pc with
      | jump i => exact hpc
      | _ => exact Nat.le_refl _
  | pinned ret f _ _ _ =>
      simp only [cursor]
      split
      · exact Nat.le_refl _
      · exact Nat.le_add_right _ _

theorem ConsumerPcInv.stable {ch : ShmRingBuf} {m : Memory} {pc : ConsumerPc} {x : Produced}
    (hidx : IndexInv ch) (h : ConsumerPcInv ch m pc) (hx : ProducerGuarantee ch m x) :
    ConsumerPcInv x.ch x.data pc := by
  have hr := hx.readIdx
  have hsize := hx.dataSize
  have hgrow := hx.grow
  cases pc with
  | idle ret => trivial
  | loadRead => trivial
  | loadWrite r => exact h.trans hr.symm
  | jump i => exact Nat.le_trans (Nat.le_of_eq hr) h
  | readLen r =>
      obtain ⟨h1, h2, h3⟩ := h
      refine ⟨by omega, by omega, ?_⟩
      unfold ShmRingBuf.contig ShmRingBuf.offset at *
      rwa [hsize]
  | readType r n =>
      obtain ⟨h1, h2, h3, h4, h5⟩ := h
      have hmod := Nat.mod_lt r hidx.pos
      unfold ShmRingBuf.contig ShmRingBuf.offset at h3
      have hagree : Agree ch.dataSize r (r + 4) m x.data :=
        hx.agree.mono (Nat.le_of_eq h1.symm) h2
      refine ⟨by omega, by omega, ?_, ?_, h5⟩
      · unfold ShmRingBuf.contig ShmRingBuf.offset
        rwa [hsize]
      · unfold ShmRingBuf.offset at *
        rw [hsize, ← hagree.load (by omega) (Nat.le_refl _)]
        exact h4

theorem PinInv.stable {ch : ShmRingBuf} {m : Memory} {obtained : List Frame} {c : Consumer}
    {x : Produced} (h : PinInv ch m obtained c) (hx : ProducerGuarantee ch m x)
    (hend : c.pinnedEnd ≤ ch.writeIdx) : PinInv x.ch x.data obtained c := by
  have hr := hx.readIdx
  have hsize := hx.dataSize
  cases h with
  | unpinned pc => exact .unpinned pc
  | pinned ret f hlast hfit hrec =>
      have hpinned : PinInv x.ch x.data obtained
          { pc := .idle ret, pinnedEnd := x.ch.readIdx + f.len
            view := some ⟨f.type, x.ch.offset x.ch.readIdx + 8, f.body.length⟩ } := by
        refine .pinned ret f hlast ?_ ?_
        · rwa [hr, hsize]
        · unfold ShmRingBuf.offset Format.RecordAt at *
          rw [hr, hsize, ← hrec, frameFormat_size]
          exact ((hx.agree.mono (Nat.le_refl _) hend).load hfit (Nat.le_refl _)).symm
      unfold ShmRingBuf.offset at *
      rwa [hr, hsize] at hpinned

theorem PinInv.pinnedEnd_le_cursor {ch : ShmRingBuf} {m : Memory} {obtained : List Frame}
    {c : Consumer} (h : PinInv ch m obtained c) : c.pinnedEnd ≤ cursor ch c := by
  cases h with
  | unpinned pc => exact Nat.zero_le _
  | pinned ret f _ _ _ =>
      simp only [cursor]
      split
      · omega
      · exact Nat.le_refl _

/-- A step of the producer keeps what the consumer relies on. -/
theorem RingInv.afterProducer {ds : Nat} {s : RingState} {x : Produced} (h : RingInv ds s)
    (hx : ProducerGuarantee s.ch s.data x) : RingInv ds (s.afterProducer x) := by
  obtain ⟨pending, hlog, hcommitted, hsmall⟩ := h.delivered
  have hcursor := h.pin.readIdx_le_cursor h.consumer
  have hend := Nat.le_trans h.pin.pinnedEnd_le_cursor hlog.le
  refine ⟨hx.index, hx.dataSize.trans h.size, hx.inv, h.consumer.stable h.index hx,
    h.pin.stable hx hend, pending ++ x.published, ?_, ?_, ?_⟩
  · have hcursorEq : cursor x.ch s.consumer = cursor s.ch s.consumer := by
      simp only [cursor, hx.readIdx]
    show frameFormat.Log x.data x.ch.dataSize (cursor x.ch s.consumer) x.ch.writeIdx _
    rw [hcursorEq, hx.dataSize]
    exact hx.log _ _ hcursor hlog
  · show s.committed ++ x.published = s.obtained ++ (pending ++ x.published)
    rw [hcommitted, List.append_assoc]
  · intro f hf
    rcases List.mem_append.mp hf with hf | hf
    · exact hsmall f hf
    · exact hx.small f hf

/-- The length word at the cursor is that of the next frame, or zero at a
skipped tail; a tail too short for the word is a skipped one. -/
theorem log_head {m : Memory} {ds a b : Nat} {fs : List Frame}
    (h : frameFormat.Log m ds a b fs) (hlt : a < b)
    (hsmall : ∀ f ∈ fs, f.len < 2 ^ 32) :
    (∃ f rest, fs = f :: rest ∧ a % ds + f.len ≤ ds ∧ frameFormat.RecordAt m (a % ds) f ∧
      ofLe (m.load (a % ds) 4) = f.len ∧ frameFormat.Log m ds (a + f.len) b rest) ∨
    ((ds - a % ds < 4 ∨ ofLe (m.load (a % ds) 4) = 0) ∧
      frameFormat.Log m ds (a + (ds - a % ds)) b fs) := by
  rcases h.head hlt with ⟨f, rest, hfs, hfit, hrec, hlog⟩ | ⟨hskip, hlog⟩
  · left
    rw [frameFormat_size] at hfit hlog
    have hmem : f ∈ fs := by simp [hfs]
    refine ⟨f, rest, hfs, hfit, hrec, ?_, hlog⟩
    rw [(recordAt_iff.mp hrec).1]
    exact ofLe_leBytes_of_lt (hsmall f hmem)
  · right
    refine ⟨?_, hlog⟩
    rcases hskip with hshort | hmark
    · exact .inl hshort
    · right
      have hzero : m.load (a % ds) 4 = leBytes 4 0 := hmark
      rw [hzero]
      rfl

/-- The consumer moves on inside a call: no index moves, nothing is handed out. -/
theorem RingInv.movePc {ds : Nat} {s : RingState} {pc pc' : ConsumerPc} (h : RingInv ds s)
    (hc : s.consumer = { pc }) (hpc : ConsumerPcInv s.ch s.data pc')
    (hmove : ∀ fs, (∀ f ∈ fs, f.len < 2 ^ 32) →
      frameFormat.Log s.data s.ch.dataSize (cursor s.ch { pc }) s.ch.writeIdx fs →
      frameFormat.Log s.data s.ch.dataSize (cursor s.ch { pc := pc' }) s.ch.writeIdx fs) :
    RingInv ds (s.afterConsumer { ch := s.ch, consumer := { pc := pc' } }) := by
  obtain ⟨pending, hlog, hcommitted, hsmall⟩ := h.delivered
  rw [hc] at hlog
  refine ⟨h.index, h.size, h.producer, hpc, .unpinned pc', pending, hmove _ hsmall hlog, ?_, hsmall⟩
  show s.committed = s.obtained ++ [] ++ pending
  rw [List.append_nil, hcommitted]

theorem RingInv.loadWrite {ds : Nat} {s : RingState} {r : Nat} {x : Consumed} (h : RingInv ds s)
    (hc : s.consumer = { pc := .loadWrite r })
    (hx : consumerRun s.ch s.data s.consumer = some x) : RingInv ds (s.afterConsumer x) := by
  have hr := h.consumer
  rw [hc] at hr hx
  have hr : r = s.ch.readIdx := hr
  subst hr
  have hle := h.index.le
  simp only [consumerRun] at hx
  split at hx
  · cases hx
    exact h.movePc hc trivial (fun _ _ hlog => hlog)
  · rename_i hne
    have hlt : s.ch.readIdx < s.ch.writeIdx := by omega
    split at hx
    · cases hx
      rename_i hshort
      refine h.movePc hc (Nat.le_add_right _ _) (fun fs hsmall hlog => ?_)
      rcases log_head hlog hlt hsmall with
        ⟨f, rest, _, hfit, _⟩ | ⟨_, hskip⟩
      · unfold ShmRingBuf.contig ShmRingBuf.offset at hshort
        unfold Frame.len at hfit
        simp only [cursor, if_true] at hfit
        omega
      · exact hskip
    · cases hx
      rename_i hlong
      exact h.movePc hc ⟨rfl, hlt, by omega⟩ (fun _ _ hlog => hlog)

theorem RingInv.readLen {ds : Nat} {s : RingState} {r : Nat} {x : Consumed} (h : RingInv ds s)
    (hc : s.consumer = { pc := .readLen r })
    (hx : consumerRun s.ch s.data s.consumer = some x) :
    RingInv ds (s.afterConsumer x) ∧ x.consumer.pc ≠ .idle false := by
  have hpc := h.consumer
  rw [hc] at hpc hx
  obtain ⟨hr, hlt, hlong⟩ := hpc
  subst hr
  obtain ⟨pending, hlog, _, hsmall⟩ := h.delivered
  rw [hc] at hlog
  have hhead := log_head hlog hlt hsmall
  unfold ShmRingBuf.contig ShmRingBuf.offset at hlong
  simp only [consumerRun] at hx
  split at hx
  · cases hx
    rename_i hzero
    refine ⟨h.movePc hc (Nat.le_add_right _ _) (fun fs hs hl => ?_), by simp⟩
    rcases log_head hl hlt hs with ⟨f, rest, _, _, _, hword, _⟩ | ⟨_, hskip⟩
    · have hword' : f.len = 0 := hword.symm.trans hzero
      unfold Frame.len at hword'
      omega
    · exact hskip
  · rename_i hne
    have hframe : ∃ f : Frame, s.ch.readIdx % s.ch.dataSize + f.len ≤ s.ch.dataSize ∧
        ofLe (s.data.load (s.ch.offset s.ch.readIdx) 4) = f.len ∧
        s.ch.readIdx + f.len ≤ s.ch.writeIdx := by
      rcases hhead with ⟨f, rest, _, hfit, _, hword, htail⟩ | ⟨hshort | hzero, _⟩
      · exact ⟨f, hfit, hword, htail.le⟩
      · simp only [cursor, if_true] at hshort
        omega
      · exact absurd hzero hne
    obtain ⟨f, hfit, hword, hend⟩ := hframe
    have hlen : f.len = 8 + f.body.length := rfl
    split at hx
    · rename_i hcorrupt
      unfold ShmRingBuf.contig ShmRingBuf.offset at hcorrupt
      unfold ShmRingBuf.offset at hword
      omega
    · cases hx
      refine ⟨h.movePc hc ⟨rfl, by omega, hlong, rfl, hne⟩ (fun _ _ hl => hl), by simp⟩

theorem RingInv.jump {ds : Nat} {s : RingState} {i : Nat} {x : Consumed} (h : RingInv ds s)
    (hc : s.consumer = { pc := .jump i })
    (hx : consumerRun s.ch s.data s.consumer = some x) : RingInv ds (s.afterConsumer x) := by
  have hpc := h.consumer
  obtain ⟨pending, hlog, hcommitted, hsmall⟩ := h.delivered
  rw [hc] at hpc hx hlog
  have hi : s.ch.readIdx ≤ i := hpc
  have hle : i ≤ s.ch.writeIdx := hlog.le
  have hused := h.index.used
  cases hx
  refine ⟨⟨h.index.pos, hle, ?_⟩, h.size, h.producer.advance hi, trivial, .unpinned _,
    pending, hlog, ?_, hsmall⟩
  · show s.ch.writeIdx ≤ i + s.ch.dataSize
    omega
  · show s.committed = s.obtained ++ [] ++ pending
    rw [List.append_nil, hcommitted]

theorem RingInv.readType {ds : Nat} {s : RingState} {r n : Nat} {x : Consumed} (h : RingInv ds s)
    (hc : s.consumer = { pc := .readType r n })
    (hx : consumerRun s.ch s.data s.consumer = some x) : RingInv ds (s.afterConsumer x) := by
  have hpc := h.consumer
  obtain ⟨pending, hlog, hcommitted, hsmall⟩ := h.delivered
  rw [hc] at hpc hx hlog
  obtain ⟨hr, hend, hlong, hn, hne⟩ := hpc
  subst hr
  unfold ShmRingBuf.contig ShmRingBuf.offset at hlong
  have hlt : s.ch.readIdx < s.ch.writeIdx := by omega
  rcases log_head hlog hlt hsmall with
    ⟨f, rest, hpending, hfit, hrec, hword, htail⟩ | ⟨hshort | hzero, _⟩
  · have hnf : n = f.len := hn.trans hword
    have hbody : f.len - 8 = f.body.length := by simp [Frame.len]
    obtain ⟨_, htypeAt, hbodyAt⟩ := recordAt_iff.mp hrec
    have htype : EnumValue.ofInt32 (Int32.ofWord
        (ofLe (s.data.load (s.ch.offset s.ch.readIdx + 4) 4))) = f.type := by
      have hload : s.data.load (s.ch.offset s.ch.readIdx + 4) 4 = typeWord f.type := htypeAt
      rw [hload, typeWord, ofLe_leBytes_of_lt (Int32.word_lt _)]
      simp
    have hload : s.data.load (s.ch.offset s.ch.readIdx + 8) f.body.length = f.body := hbodyAt
    simp only [consumerRun] at hx
    cases hx
    have hlast : (s.obtained ++ [f]).getLast? = some f := List.getLast?_concat
    rw [htype, hnf, hbody, hload]
    refine ⟨h.index, h.size, h.producer, trivial, .pinned true f hlast hfit hrec, rest, ?_, ?_, ?_⟩
    · have hpos : s.ch.readIdx + f.len ≠ 0 := by
        unfold Frame.len
        omega
      show frameFormat.Log s.data s.ch.dataSize
        (if s.ch.readIdx + f.len = 0 then s.ch.readIdx else s.ch.readIdx + f.len) _ rest
      rw [if_neg hpos]
      exact htail
    · show s.committed = s.obtained ++ [f] ++ rest
      rw [hcommitted, hpending, List.append_assoc]
      rfl
    · intro g hg
      exact hsmall g (by simp [hpending, hg])
  · simp only [cursor, if_true] at hshort
    omega
  · exact absurd (hn.trans hzero) hne

theorem PinInv.running {ch : ShmRingBuf} {m : Memory} {obtained : List Frame} {c : Consumer}
    (h : PinInv ch m obtained c) (hpc : ∀ ret, c.pc ≠ .idle ret) : c = { pc := c.pc } := by
  cases h with
  | unpinned pc => rfl
  | pinned ret f _ _ _ => exact absurd rfl (hpc ret)

theorem RingInv.consumerRun {ds : Nat} {s : RingState} {x : Consumed} (h : RingInv ds s)
    (hx : consumerRun s.ch s.data s.consumer = some x) : RingInv ds (s.afterConsumer x) := by
  have hc := h.pin.running
  cases hpc : s.consumer.pc with
  | idle ret => simp [LyqtRpc.consumerRun, hpc] at hx
  | loadRead =>
      rw [hpc] at hc
      have hc := hc (by simp)
      rw [hc] at hx
      cases hx
      exact h.movePc hc rfl (fun _ _ hlog => hlog)
  | loadWrite r => exact h.loadWrite (hpc ▸ hc (by simp [hpc])) hx
  | jump i => exact h.jump (hpc ▸ hc (by simp [hpc])) hx
  | readLen r => exact (h.readLen (hpc ▸ hc (by simp [hpc])) hx).1
  | readType r n => exact h.readType (hpc ▸ hc (by simp [hpc])) hx

theorem RingInv.release {ds : Nat} {s : RingState} {x : Consumed} (h : RingInv ds s)
    (hx : consumerStep s.ch s.data s.consumer .releaseFrameView = some x) :
    RingInv ds (s.afterConsumer x) := by
  obtain ⟨ch, data, producer, c, committed, obtained⟩ := s
  obtain ⟨hindex, hsize, hproducer, hconsumer, hpin, pending, hlog, hcommitted, hsmall⟩ := h
  dsimp only at *
  cases hpin with
  | unpinned pc =>
      cases pc with
      | idle ret =>
          cases hx
          refine ⟨hindex, hsize, hproducer, trivial, .unpinned _, pending, hlog, ?_, hsmall⟩
          show committed = obtained ++ [] ++ pending
          rw [List.append_nil, hcommitted]
      | _ => cases hx
  | pinned ret f hlast hfit hrec =>
      have hpos : ch.readIdx + f.len ≠ 0 := by
        unfold Frame.len
        omega
      simp only [consumerStep, hpos, if_false] at hx
      cases hx
      simp only [cursor, hpos, if_false] at hlog
      have hle := hlog.le
      have hused := hindex.used
      refine ⟨⟨hindex.pos, hle, ?_⟩, hsize, hproducer.advance (Nat.le_add_right _ _), trivial,
        .unpinned _, pending, hlog, ?_, hsmall⟩
      · show ch.writeIdx ≤ ch.readIdx + f.len + ch.dataSize
        exact Nat.le_trans hused (Nat.add_le_add_right (Nat.le_add_right _ _) _)
      · show committed = obtained ++ [] ++ pending
        rw [List.append_nil, hcommitted]

theorem RingInv.readFrameView {ds : Nat} {s : RingState} {x : Consumed} (h : RingInv ds s)
    (hx : consumerStep s.ch s.data s.consumer .readFrameView = some x) :
    RingInv ds (s.afterConsumer x) := by
  obtain ⟨ch, data, producer, c, committed, obtained⟩ := s
  obtain ⟨hindex, hsize, hproducer, hconsumer, hpin, pending, hlog, hcommitted, hsmall⟩ := h
  dsimp only at *
  have hcommitted' : committed = obtained ++ [] ++ pending := by
    rw [List.append_nil]
    exact hcommitted
  cases hpin with
  | unpinned pc =>
      cases pc with
      | idle ret =>
          cases hx
          exact ⟨hindex, hsize, hproducer, trivial, .unpinned _, pending, hlog, hcommitted', hsmall⟩
      | _ => cases hx
  | pinned ret f hlast hfit hrec =>
      have hpos : ch.readIdx + f.len ≠ 0 := by
        unfold Frame.len
        omega
      simp only [consumerStep, ne_eq, hpos, not_false_eq_true, if_true] at hx
      cases hx
      have hlast' : (obtained ++ []).getLast? = some f := by rwa [List.append_nil]
      exact ⟨hindex, hsize, hproducer, trivial, .pinned false f hlast' hfit hrec, pending, hlog,
        hcommitted', hsmall⟩

theorem ringStep_inv {ds : Nat} {s t : RingState} {a : RingAct} (h : RingInv ds s)
    (hstep : ringStep s a = some t) : RingInv ds t := by
  cases a with
  | producer a =>
      obtain ⟨x, hx, rfl⟩ := Option.map_eq_some_iff.mp hstep
      exact h.afterProducer (producerStep_guarantee h.index h.producer hx)
  | consumer a =>
      obtain ⟨x, hx, rfl⟩ := Option.map_eq_some_iff.mp hstep
      cases a with
      | readFrameView => exact h.readFrameView hx
      | releaseFrameView => exact h.release hx
      | run => exact h.consumerRun hx

theorem ring_reachable_inv {ds : Nat} (hds : 0 < ds) {data : Memory} {s : RingState}
    (h : Reachable ringStep (ringInitial ds data) s) : RingInv ds s :=
  h.invariant (RingInv ds) (ringInitial_inv hds data)
    (fun _ _ _ hi _ hstep => ringStep_inv hi hstep)

theorem RingInv.fifo {ds : Nat} {s : RingState} (h : RingInv ds s) :
    s.obtained <+: s.committed := by
  obtain ⟨pending, _, hcommitted, _⟩ := h.delivered
  exact ⟨pending, hcommitted.symm⟩

/-- An empty ring holds no frame back. -/
theorem RingInv.drained {ds : Nat} {s : RingState} (h : RingInv ds s)
    (he : s.ch.readIdx = s.ch.writeIdx) :
    s.obtained = s.committed := by
  obtain ⟨pending, hlog, hcommitted, _⟩ := h.delivered
  have hcursor := h.pin.readIdx_le_cursor h.consumer
  have hle := hlog.le
  have heq : cursor s.ch s.consumer = s.ch.writeIdx := by omega
  rw [heq] at hlog
  rw [hcommitted, hlog.eq_nil frameFormat_size_pos h.index.pos, List.append_nil]

/-- The bytes a caller sees through its view are those of the last frame. -/
theorem RingInv.view_intact {ds : Nat} {s : RingState} {v : FrameView} (h : RingInv ds s)
    (hv : s.consumer.view = some v) :
    ∃ f, s.obtained.getLast? = some f ∧ v.type = f.type ∧ s.data.load v.base v.len = f.body ∧
      8 ≤ v.base ∧ v.base - 8 = s.ch.offset s.ch.readIdx ∧ v.base + v.len ≤ s.ch.dataSize ∧
      s.ch.readIdx + (8 + v.len) ≤ s.ch.writeIdx := by
  obtain ⟨ch, data, producer, c, committed, obtained⟩ := s
  obtain ⟨hindex, hsize, hproducer, hconsumer, hpin, pending, hlog, hcommitted, hsmall⟩ := h
  dsimp only at *
  cases hpin with
  | unpinned pc => cases hv
  | pinned ret f hlast hfit hrec =>
      cases hv
      have hlen : f.len = 8 + f.body.length := rfl
      have hpos : ch.readIdx + f.len ≠ 0 := by omega
      simp only [cursor, hpos, if_false] at hlog
      have hle := hlog.le
      have hoff : ch.offset ch.readIdx = ch.readIdx % ch.dataSize := rfl
      refine ⟨f, hlast, rfl, (recordAt_iff.mp hrec).2.2, ?_, ?_, ?_, ?_⟩ <;> dsimp only <;> omega

/-- No step writes to the frame under the caller's view, header included. -/
theorem RingInv.view_untouched {ds : Nat} {s t : RingState} {a : RingAct} {v : FrameView}
    (h : RingInv ds s)
    (hv : s.consumer.view = some v) (hstep : ringStep s a = some t) {i : Nat}
    (hi : v.base - 8 ≤ i) (hi' : i < v.base + v.len) : t.data i = s.data i := by
  obtain ⟨f, _, _, _, h8, hbase, hfit, hend⟩ := h.view_intact hv
  cases a with
  | consumer a =>
      obtain ⟨x, _, rfl⟩ := Option.map_eq_some_iff.mp hstep
      rfl
  | producer a =>
      obtain ⟨x, hx, rfl⟩ := Option.map_eq_some_iff.mp hstep
      have hagree := (producerStep_guarantee h.index h.producer hx).agree
      unfold ShmRingBuf.offset at hbase
      have hp := hagree (s.ch.readIdx + (i - (v.base - 8))) (by omega) (by omega)
      rw [add_mod_fits (by omega)] at hp
      have hi : s.ch.readIdx % s.ch.dataSize + (i - (v.base - 8)) = i := by omega
      rw [hi] at hp
      exact hp.symm

/-- In every reachable state: what the consumer obtained is a prefix of what
was committed, and all of it once the ring is empty; the view held by the
caller shows the last frame obtained, and no step writes to its bytes; the
indices are in order and at most the data size apart. -/
theorem ring_fifo {ds : Nat} (hds : 0 < ds) (data : Memory) {s : RingState}
    (h : Reachable ringStep (ringInitial ds data) s) :
    s.obtained <+: s.committed ∧
    (s.ch.readIdx = s.ch.writeIdx → s.obtained = s.committed) ∧
    (∀ v, s.consumer.view = some v →
      (∃ f, s.obtained.getLast? = some f ∧ v.type = f.type ∧ s.data.load v.base v.len = f.body) ∧
      ∀ a t, ringStep s a = some t →
        ∀ i, v.base - 8 ≤ i → i < v.base + v.len → t.data i = s.data i) ∧
    s.ch.readIdx ≤ s.ch.writeIdx ∧ s.ch.writeIdx - s.ch.readIdx ≤ ds := by
  have hinv := ring_reachable_inv hds h
  have hsize := hinv.size
  have hused := hinv.index.used
  refine ⟨hinv.fifo, hinv.drained, fun v hv => ⟨?_, ?_⟩, hinv.index.le, by omega⟩
  · obtain ⟨f, hlast, htype, hbody, _⟩ := hinv.view_intact hv
    exact ⟨f, hlast, htype, hbody⟩
  · intro a t hstep i hi hi'
    exact hinv.view_untouched hv hstep hi hi'

/-- Two frames through a ring of 32 bytes, the second one after a skipped tail;
its view is still held at the end. -/
def wrapRun : List RingAct :=
  .producer (.writeTo (List.replicate 12 7) (.named .REQ_RPC) 0) ::
    (List.replicate 6 (.producer .run) ++
    .consumer .readFrameView :: (List.replicate 4 (.consumer .run) ++
    .consumer .releaseFrameView ::
    .producer (.writeTo (List.replicate 8 9) (.named .RSP_RPC) 0) ::
    (List.replicate 7 (.producer .run) ++
    .consumer .readFrameView :: List.replicate 8 (.consumer .run))))

theorem ring_fifo_wrapRun : ∃ s, exec ringStep (ringInitial 32 (fun _ => 0)) wrapRun = some s ∧
    s.obtained.length = 2 ∧ s.obtained <+: s.committed ∧
    ∃ v, s.consumer.view = some v ∧ s.data.load v.base v.len = List.replicate 8 9 := by
  obtain ⟨s, hs, hview⟩ := Option.map_eq_some_iff.mp
    (show (exec ringStep (ringInitial 32 (fun _ => 0)) wrapRun).map
      (fun s => (s.obtained, s.consumer.view)) =
        some ([⟨.named .REQ_RPC, List.replicate 12 7⟩, ⟨.named .RSP_RPC, List.replicate 8 9⟩],
          some ⟨.named .RSP_RPC, 8, 8⟩) by decide +kernel)
  obtain ⟨hobtained, hv⟩ := Prod.mk.inj hview
  obtain ⟨hfifo, _, hpinned, _⟩ := ring_fifo (by decide) _ (Reachable.of_exec hs)
  obtain ⟨⟨f, hlast, _, hbody⟩, _⟩ := hpinned _ hv
  rw [hobtained] at hlast
  cases hlast
  exact ⟨s, hs, by rw [hobtained]; rfl, hfifo, _, hv, hbody⟩

end LyqtRpc
