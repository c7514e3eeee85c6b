import LyqtRpc.RingFifo

/-!
Whether a drained ring takes a frame: the write position decides, since the
bytes skipped at the end of the region count as used until they are published
together with a frame.
-/

set_option autoImplicit false

namespace LyqtRpc

open StepRun

def ProducerPc.isIdle : ProducerPc → Bool
  | .idle _ => true
  | _ => false

/-- The consumer has taken everything and holds nothing. -/
def Drained (s : RingState) : Prop :=
  s.ch.readIdx = s.ch.writeIdx ∧ s.consumer.pinnedEnd = 0

/-- The frame length fits its 32-bit field, and a frame that long fits behind
the write position or in front of it. -/
def Placeable (ch : ShmRingBuf) (bodyLen : Nat) : Prop :=
  8 + bodyLen < 2 ^ 32 ∧
    (8 + bodyLen ≤ ch.contig ch.writeIdx ∨ 8 + bodyLen ≤ ch.offset ch.writeIdx)

/-- The producer works on its call, the consumer does what it likes. -/
def CallStep (_ : RingState) : RingAct → Prop
  | .producer .run | .consumer _ => True
  | .producer _ => False

/-- However the consumer interleaves, from every state of the call the
producer's own steps end it with `true` and the frame published. -/
def WriteSucceeds (s : RingState) (body : Bytes) (type : EnumValue MsgType)
    (waitMs : Int32) : Prop :=
  ∃ s₁, ringStep s (.producer (.writeTo body type waitMs)) = some s₁ ∧
    ∀ t, Run ringStep CallStep s₁ t →
      ∃ k u, exec ringStep t (List.replicate k (.producer .run)) = some u ∧
        u.producer = .idle true ∧ u.committed = s.committed ++ [⟨type, body⟩]

/-- The producer tries this body, waiting and again, and nothing else. -/
def Attempt (body : Bytes) (type : EnumValue MsgType) (_ : RingState) : RingAct → Prop
  | .producer (.writeTo b t _) => b = body ∧ t = type
  | .producer .run | .producer .retry | .producer .giveUp | .consumer _ => True
  | .producer _ => False

def EventuallyAccepted (s : RingState) (body : Bytes) (type : EnumValue MsgType) : Prop :=
  ∃ t, Run ringStep (Attempt body type) s t ∧ t.committed ≠ s.committed

section Consumer
variable {ds : Nat} {s t : RingState}

/-- The consumer moves `read_idx` forward only. -/
theorem RingInv.consumer_advances {a : ConsumerAct} {x : Consumed} (h : RingInv ds s)
    (hx : consumerStep s.ch s.data s.consumer a = some x) :
    s.ch.readIdx ≤ x.ch.readIdx ∧ x.ch.writeIdx = s.ch.writeIdx ∧
      x.ch.dataSize = s.ch.dataSize := by
  have hpc := h.consumer
  have hpin := h.pin
  cases a with
  | readFrameView =>
      simp only [consumerStep] at hx
      split at hx
      · split at hx <;> cases hx <;> exact ⟨Nat.le_refl _, rfl, rfl⟩
      · cases hx
  | releaseFrameView =>
      simp only [consumerStep] at hx
      split at hx
      · split at hx
        · cases hx
          exact ⟨Nat.le_refl _, rfl, rfl⟩
        · rename_i hne
          cases hx
          refine ⟨?_, rfl, rfl⟩
          generalize s.consumer = c at hpin hne
          cases hpin with
          | unpinned pc => exact absurd rfl hne
          | pinned ret f _ _ _ => exact Nat.le_add_right _ _
      · cases hx
  | run =>
      simp only [consumerStep, LyqtRpc.consumerRun] at hx
      cases hc : s.consumer.pc with
      | jump i =>
          simp only [hc] at hx hpc
          cases hx
          exact ⟨hpc, rfl, rfl⟩
      | idle ret => simp only [hc] at hx; cases hx
      | loadRead =>
          simp only [hc] at hx
          cases hx
          exact ⟨Nat.le_refl _, rfl, rfl⟩
      | loadWrite r =>
          simp only [hc] at hx
          split at hx
          · cases hx
            exact ⟨Nat.le_refl _, rfl, rfl⟩
          · split at hx <;> cases hx <;> exact ⟨Nat.le_refl _, rfl, rfl⟩
      | readLen r =>
          simp only [hc] at hx
          split at hx
          · cases hx
            exact ⟨Nat.le_refl _, rfl, rfl⟩
          · split at hx <;> cases hx <;> exact ⟨Nat.le_refl _, rfl, rfl⟩
      | readType r n =>
          simp only [hc] at hx
          cases hx
          exact ⟨Nat.le_refl _, rfl, rfl⟩

/-- An empty ring stays empty under the consumer. -/
theorem RingInv.consumer_drained {a : ConsumerAct} {w : Nat} (h : RingInv ds s)
    (hw : s.ch.writeIdx = w) (hr : s.ch.readIdx = w)
    (hs : ringStep s (.consumer a) = some t) :
    t.ch.writeIdx = w ∧ t.ch.readIdx = w ∧ t.producer = s.producer ∧
      t.committed = s.committed := by
  have ht := ringStep_inv h hs
  obtain ⟨x, hx, rfl⟩ := Option.map_eq_some_iff.mp hs
  obtain ⟨hle, hwrite, _⟩ := h.consumer_advances hx
  have hle' := ht.index.le
  have hr' : (s.afterConsumer x).ch.readIdx = x.ch.readIdx := rfl
  have hw' : (s.afterConsumer x).ch.writeIdx = x.ch.writeIdx := rfl
  exact ⟨by omega, by omega, rfl, rfl⟩

end Consumer

section Producer
variable {ch : ShmRingBuf} {m : Memory} {c : WriteCall} {w r : Nat}

theorem producerRun_loadRead_here (hroom : ¬ ch.dataSize - (w - ch.readIdx) < c.frame.len)
    (hfit : ¬ ch.contig w < c.frame.len) :
    producerRun ch m (.loadRead c w) =
      some { ch, data := m, pc := .putLen c.frame w (ch.offset w) } := by
  simp only [producerRun, if_neg hroom, if_neg hfit]

theorem producerRun_loadRead_wrap (hroom : ¬ ch.dataSize - (w - ch.readIdx) < c.frame.len)
    (hwrap : ch.contig w < c.frame.len) :
    producerRun ch m (.loadRead c w) =
      some { ch, data := m, pc := .skipMark c w ch.readIdx } := by
  simp only [producerRun, if_neg hroom, if_pos hwrap]

/-- The zeros written over a tail that is too short. -/
def skipZeros (n : Nat) : Bytes := if 4 ≤ n then leBytes 4 0 else leBytes n 0

theorem producerRun_skipMark_room
    (hroom : ¬ ch.dataSize - (w + ch.contig w - r) < c.frame.len) :
    producerRun ch m (.skipMark c w r) =
      some { ch, data := m.store (ch.offset w) (skipZeros (ch.contig w))
             pc := .putLen c.frame (w + ch.contig w) 0 } := by
  simp only [producerRun, if_neg hroom]
  rfl

theorem producerRun_skipMark_full
    (hfull : ch.dataSize - (w + ch.contig w - r) < c.frame.len) :
    producerRun ch m (.skipMark c w r) =
      some { ch, data := m.store (ch.offset w) (skipZeros (ch.contig w)), pc := .full c } := by
  simp only [producerRun, if_pos hfull]
  rfl

end Producer

section Accepted
variable {ds w : Nat} {f : Frame} {before : List Frame} {s t : RingState}

/-- Where the call for `f` stands that started in an empty ring with both
indices at `w`. -/
def CallAt (w : Nat) (f : Frame) (before : List Frame) (s : RingState) : Prop :=
  match s.producer with
  | .loadWrite c => c.frame = f ∧ s.ch.writeIdx = w ∧ s.ch.readIdx = w ∧ s.committed = before
  | .loadRead c w' =>
    c.frame = f ∧ w' = w ∧ s.ch.writeIdx = w ∧ s.ch.readIdx = w ∧ s.committed = before
  | .skipMark c w' r =>
    c.frame = f ∧ w' = w ∧ r = w ∧ s.ch.contig w < f.len ∧ s.ch.writeIdx = w ∧
      s.ch.readIdx = w ∧ s.committed = before
  | .putLen g _ _ | .putType g _ _ | .putBody g _ _ | .publish g _ =>
    g = f ∧ s.committed = before
  | .idle ret => ret = true ∧ s.committed = before ++ [f]
  | _ => False

structure Accepting (ds w : Nat) (f : Frame) (before : List Frame) (s : RingState) : Prop where
  inv : RingInv ds s
  call : CallAt w f before s

/-- Steps the producer has left in a call that finds room. -/
def ProducerPc.left : ProducerPc → Nat
  | .loadWrite _ => 7
  | .loadRead _ _ => 6
  | .skipMark _ _ _ => 5
  | .putLen _ _ _ => 4
  | .putType _ _ _ => 3
  | .putBody _ _ _ => 2
  | .publish _ _ => 1
  | _ => 0

theorem Accepting.run (h : Accepting ds w f before s) (hpos : 0 < ds)
    (hfit : f.len ≤ ds - w % ds ∨ f.len ≤ w % ds) (hbusy : ∀ ret, s.producer ≠ .idle ret) :
    ∃ t, ringStep s (.producer .run) = some t ∧ Accepting ds w f before t ∧
      t.producer.left < s.producer.left := by
  obtain ⟨hinv, hcall⟩ := h
  have hsize := hinv.size
  have hmod := Nat.mod_lt w hpos
  have hnext : ∀ x, producerRun s.ch s.data s.producer = some x →
      CallAt w f before (s.afterProducer x) → x.pc.left < s.producer.left →
      ∃ t, ringStep s (.producer .run) = some t ∧ Accepting ds w f before t ∧
        t.producer.left < s.producer.left := by
    intro x hx hat hleft
    have hs : ringStep s (.producer .run) = some (s.afterProducer x) := by
      have hstep : producerStep s.ch s.data s.producer .run =
          producerRun s.ch s.data s.producer := by
        cases s.producer <;> rfl
      simp only [ringStep, hstep, hx, Option.map_some]
    exact ⟨_, hs, ⟨ringStep_inv hinv hs, hat⟩, hleft⟩
  unfold CallAt at hcall
  cases hpc : s.producer with
  | idle ret => exact absurd hpc (hbusy ret)
  | loadWrite c =>
      simp only [hpc] at hcall
      rw [hpc] at hnext
      obtain ⟨hf, hw, hr, hc⟩ := hcall
      refine hnext _ rfl ?_ (by simp [ProducerPc.left])
      exact ⟨hf, hw, hw, hr, by simp [RingState.afterProducer, hc]⟩
  | loadRead c w' =>
      simp only [hpc] at hcall
      rw [hpc] at hnext
      obtain ⟨hf, rfl, hw, hr, hc⟩ := hcall
      have hroom : ¬ s.ch.dataSize - (w' - s.ch.readIdx) < c.frame.len := by
        rw [hsize, hr, hf]
        omega
      by_cases hwrap : s.ch.contig w' < c.frame.len
      · refine hnext _ (producerRun_loadRead_wrap hroom hwrap) ?_ (by simp [ProducerPc.left])
        exact ⟨hf, rfl, hr, hf ▸ hwrap, hw, hr, by simp [RingState.afterProducer, hc]⟩
      · refine hnext _ (producerRun_loadRead_here hroom hwrap) ?_ (by simp [ProducerPc.left])
        exact ⟨hf, by simp [RingState.afterProducer, hc]⟩
  | skipMark c w' r =>
      simp only [hpc] at hcall
      rw [hpc] at hnext
      obtain ⟨hf, hw', hr', hwrap, hw, hr, hc⟩ := hcall
      subst hw' hr'
      have hcontig : s.ch.contig r = ds - r % ds := by
        rw [ShmRingBuf.contig, ShmRingBuf.offset, hsize]
      have hroom : ¬ s.ch.dataSize - (r + s.ch.contig r - r) < c.frame.len := by
        rw [hcontig] at hwrap
        rw [hcontig, hsize, hf]
        omega
      refine hnext _ (producerRun_skipMark_room hroom) ?_ (by simp [ProducerPc.left])
      exact ⟨hf, by simp [RingState.afterProducer, hc]⟩
  | putLen g p off =>
      simp only [hpc] at hcall
      rw [hpc] at hnext
      refine hnext _ rfl ?_ (by simp [ProducerPc.left])
      exact ⟨hcall.1, by simp [RingState.afterProducer, hcall.2]⟩
  | putType g p off =>
      simp only [hpc] at hcall
      rw [hpc] at hnext
      refine hnext _ rfl ?_ (by simp [ProducerPc.left])
      exact ⟨hcall.1, by simp [RingState.afterProducer, hcall.2]⟩
  | putBody g p off =>
      simp only [hpc] at hcall
      rw [hpc] at hnext
      refine hnext _ rfl ?_ (by simp [ProducerPc.left])
      exact ⟨hcall.1, by simp [RingState.afterProducer, hcall.2]⟩
  | publish g p =>
      simp only [hpc] at hcall
      rw [hpc] at hnext
      refine hnext _ rfl ?_ (by simp [ProducerPc.left])
      exact ⟨rfl, by simp [RingState.afterProducer, hcall.1, hcall.2]⟩
  | _ => simp only [hpc] at hcall

theorem Accepting.consumer {a : ConsumerAct} (h : Accepting ds w f before s)
    (hs : ringStep s (.consumer a) = some t) : Accepting ds w f before t := by
  obtain ⟨hinv, hcall⟩ := h
  have hquiet : t.producer = s.producer ∧ t.committed = s.committed ∧
      t.ch.contig w = s.ch.contig w := by
    have hds := (ringStep_inv hinv hs).size
    obtain ⟨x, hx, rfl⟩ := Option.map_eq_some_iff.mp hs
    refine ⟨rfl, rfl, ?_⟩
    rw [ShmRingBuf.contig, ShmRingBuf.contig, ShmRingBuf.offset, ShmRingBuf.offset, hds,
      hinv.size]
  refine ⟨ringStep_inv hinv hs, ?_⟩
  unfold CallAt at hcall ⊢
  rw [hquiet.1, hquiet.2.1]
  cases hpc : s.producer with
  | loadWrite c =>
      simp only [hpc] at hcall ⊢
      obtain ⟨hw, hr, _⟩ := hinv.consumer_drained hcall.2.1 hcall.2.2.1 hs
      exact ⟨hcall.1, hw, hr, hcall.2.2.2⟩
  | loadRead c w' =>
      simp only [hpc] at hcall ⊢
      obtain ⟨hf, hw', hw, hr, hc⟩ := hcall
      obtain ⟨hw, hr, _⟩ := hinv.consumer_drained hw hr hs
      exact ⟨hf, hw', hw, hr, hc⟩
  | skipMark c w' r =>
      simp only [hpc] at hcall ⊢
      obtain ⟨hf, hw', hr', hwrap, hw, hr, hc⟩ := hcall
      obtain ⟨hw, hr, _⟩ := hinv.consumer_drained hw hr hs
      exact ⟨hf, hw', hr', hquiet.2.2 ▸ hwrap, hw, hr, hc⟩
  | putLen | putType | putBody | publish | idle => simpa only [hpc] using hcall
  | _ => simp only [hpc] at hcall

theorem Accepting.step {a : RingAct} (h : Accepting ds w f before s) (hpos : 0 < ds)
    (hfit : f.len ≤ ds - w % ds ∨ f.len ≤ w % ds) (ha : CallStep s a)
    (hs : ringStep s a = some t) : Accepting ds w f before t := by
  cases a with
  | consumer a => exact h.consumer hs
  | producer a =>
      cases a with
      | run =>
          by_cases hidle : ∃ ret, s.producer = .idle ret
          · obtain ⟨ret, hpc⟩ := hidle
            simp [ringStep, producerStep, producerRun, hpc] at hs
          · obtain ⟨u, hu, hacc, _⟩ := h.run hpos hfit (fun ret hpc => hidle ⟨ret, hpc⟩)
            rw [hu] at hs
            cases hs
            exact hacc
      | _ => exact ha.elim

/-- The call ends by the producer's steps alone. -/
theorem Accepting.finishes (h : Accepting ds w f before s) (hpos : 0 < ds)
    (hfit : f.len ≤ ds - w % ds ∨ f.len ≤ w % ds) :
    ∃ k u, exec ringStep s (List.replicate k (.producer .run)) = some u ∧
      u.producer = .idle true ∧ u.committed = before ++ [f] := by
  induction hn : s.producer.left using Nat.strong_induction_on generalizing s with
  | _ n ih =>
      by_cases hidle : ∃ ret, s.producer = .idle ret
      · obtain ⟨ret, hpc⟩ := hidle
        have hcall := h.call
        simp only [CallAt, hpc] at hcall
        exact ⟨0, s, rfl, by rw [hpc, hcall.1], hcall.2⟩
      · obtain ⟨t, hs, hacc, hleft⟩ := h.run hpos hfit (fun ret hpc => hidle ⟨ret, hpc⟩)
        obtain ⟨k, u, hexec, hu⟩ := ih _ (hn ▸ hleft) hacc rfl
        exact ⟨k + 1, u, by simp only [List.replicate_succ, exec, hs, hexec], hu⟩

end Accepted

section Refused
variable {ds w : Nat} {f : Frame} {before : List Frame} {s t : RingState}

/-- The producer asks for a frame that does not go in while both indices stand
at `w`; it gets no further than the mark of the skipped tail. -/
def RefusedAt (w : Nat) (f : Frame) : ProducerPc → Prop
  | .idle _ => True
  | .loadWrite c | .full c => c.frame = f
  | .loadRead c w' => c.frame = f ∧ w' = w
  | .skipMark c w' r => c.frame = f ∧ w' = w ∧ r = w
  | _ => False

structure Refusing (ds w : Nat) (f : Frame) (before : List Frame) (s : RingState) : Prop where
  inv : RingInv ds s
  writeIdx : s.ch.writeIdx = w
  readIdx : s.ch.readIdx = w
  committed : s.committed = before
  call : RefusedAt w f s.producer

/-- The frame is too long for its length field, or for both ends of the region. -/
def Unplaceable (ds w : Nat) (f : Frame) : Prop :=
  2 ^ 32 ≤ f.len ∨ ds - w % ds < f.len ∧ w % ds < f.len

theorem Refusing.quiet {a : RingAct} {pc : ProducerPc} {m : Memory}
    (h : Refusing ds w f before s) (hpc : RefusedAt w f pc)
    (hs : ringStep s a = some (s.afterProducer { ch := s.ch, data := m, pc })) :
    Refusing ds w f before (s.afterProducer { ch := s.ch, data := m, pc }) :=
  ⟨ringStep_inv h.inv hs, h.writeIdx, h.readIdx,
    by simp [RingState.afterProducer, h.committed], hpc⟩

theorem Refusing.loadRead {c : WriteCall} {x : Produced} (h : Refusing ds w f before s)
    (hbig : Unplaceable ds w f) (hpc : s.producer = .loadRead c w)
    (hf : c.frame = f) (hx : producerRun s.ch s.data s.producer = some x) :
    x = { ch := s.ch, data := s.data, pc := .full c } ∨
    x = { ch := s.ch, data := s.data, pc := .skipMark c w w } := by
  have hsmall := h.inv.producer
  have hsize := h.inv.size
  rw [hpc] at hsmall hx
  have hlen : f.len < 2 ^ 32 := hf ▸ hsmall.1
  by_cases hroom : s.ch.dataSize - (w - s.ch.readIdx) < c.frame.len
  · simp only [producerRun, if_pos hroom] at hx
    exact .inl (Option.some.inj hx).symm
  · right
    have hwrap : s.ch.contig w < c.frame.len := by
      rw [ShmRingBuf.contig, ShmRingBuf.offset, hsize, hf]
      rcases hbig with hlarge | ⟨htail, _⟩
      · omega
      · exact htail
    rw [producerRun_loadRead_wrap hroom hwrap, h.readIdx] at hx
    exact (Option.some.inj hx).symm

theorem Refusing.skipMark {c : WriteCall} {x : Produced} (h : Refusing ds w f before s)
    (hbig : Unplaceable ds w f) (hpc : s.producer = .skipMark c w w)
    (hf : c.frame = f) (hx : producerRun s.ch s.data s.producer = some x) :
    ∃ m, x = { ch := s.ch, data := m, pc := .full c } := by
  have hsmall := h.inv.producer
  have hsize := h.inv.size
  have hmod := Nat.mod_lt w (hsize ▸ h.inv.index.pos)
  rw [hpc] at hsmall hx
  have hlen : f.len < 2 ^ 32 := hf ▸ hsmall.1
  have hfull : s.ch.dataSize - (w + s.ch.contig w - w) < c.frame.len := by
    rw [ShmRingBuf.contig, ShmRingBuf.offset, hsize, hf]
    rcases hbig with hlarge | ⟨_, hhead⟩
    · omega
    · omega
  rw [producerRun_skipMark_full hfull] at hx
  exact ⟨_, (Option.some.inj hx).symm⟩

theorem Refusing.producer {a : ProducerAct} (h : Refusing ds w f before s)
    (hbig : Unplaceable ds w f) (ha : Attempt f.body f.type s (.producer a))
    (hs : ringStep s (.producer a) = some t) : Refusing ds w f before t := by
  have hcall := h.call
  have hs' := hs
  obtain ⟨x, hx, rfl⟩ := Option.map_eq_some_iff.mp hs
  cases hpc : s.producer with
  | idle ret =>
      cases a with
      | writeTo body type waitMs =>
          obtain ⟨rfl, rfl⟩ := ha
          simp only [producerStep, hpc] at hx
          split at hx
          · obtain rfl := Option.some.inj hx
            exact h.quiet trivial hs'
          · split at hx <;> obtain rfl := Option.some.inj hx
            · exact h.quiet trivial hs'
            · exact h.quiet rfl hs'
      | run => simp [producerStep, producerRun, hpc] at hx
      | retry => simp [producerStep, hpc] at hx
      | giveUp => simp [producerStep, hpc] at hx
      | _ => exact ha.elim
  | full c =>
      rw [hpc] at hcall
      cases a with
      | retry =>
          simp only [producerStep, hpc] at hx
          split at hx
          · obtain rfl := Option.some.inj hx
            exact h.quiet hcall hs'
          · cases hx
      | giveUp =>
          simp only [producerStep, hpc] at hx
          obtain rfl := Option.some.inj hx
          exact h.quiet trivial hs'
      | run => simp [producerStep, producerRun, hpc] at hx
      | writeTo => simp [producerStep, hpc] at hx
      | _ => exact ha.elim
  | loadWrite c =>
      rw [hpc] at hcall
      cases a with
      | run =>
          simp only [producerStep, producerRun, hpc] at hx
          obtain rfl := Option.some.inj hx
          exact h.quiet ⟨hcall, h.writeIdx⟩ hs'
      | _ => simp [producerStep, hpc] at hx
  | loadRead c w' =>
      rw [hpc] at hcall
      obtain ⟨hf, rfl⟩ := hcall
      cases a with
      | run =>
          have hrun : producerRun s.ch s.data s.producer = some x := by
            simpa only [producerStep, hpc] using hx
          rcases h.loadRead hbig hpc hf hrun with rfl | rfl
          · exact h.quiet hf hs'
          · exact h.quiet ⟨hf, rfl, rfl⟩ hs'
      | _ => simp [producerStep, hpc] at hx
  | skipMark c w' r =>
      rw [hpc] at hcall
      obtain ⟨hf, hw', hr'⟩ := hcall
      subst hw' hr'
      cases a with
      | run =>
          have hrun : producerRun s.ch s.data s.producer = some x := by
            simpa only [producerStep, hpc] using hx
          obtain ⟨m, rfl⟩ := h.skipMark hbig hpc hf hrun
          exact h.quiet hf hs'
      | _ => simp [producerStep, hpc] at hx
  | _ =>
      rw [hpc] at hcall
      exact hcall.elim

theorem Refusing.step {a : RingAct} (h : Refusing ds w f before s)
    (hbig : Unplaceable ds w f) (ha : Attempt f.body f.type s a)
    (hs : ringStep s a = some t) : Refusing ds w f before t := by
  cases a with
  | producer a => exact h.producer hbig ha hs
  | consumer a =>
      obtain ⟨hw, hr, hp, hc⟩ := h.inv.consumer_drained h.writeIdx h.readIdx hs
      exact ⟨ringStep_inv h.inv hs, hw, hr, hc.trans h.committed, hp ▸ h.call⟩

/-- However long it is tried, nothing is committed. -/
theorem Refusing.forever (h : Refusing ds w f before s) (hbig : Unplaceable ds w f)
    (hrun : Run ringStep (Attempt f.body f.type) s t) : t.committed = before :=
  (hrun.invariant (Refusing ds w f before) h
    (fun _ _ _ hi ha hs => hi.step hbig ha hs)).committed

end Refused

theorem ProducerPc.eq_idle {pc : ProducerPc} (h : pc.isIdle = true) :
    ∃ ret, pc = .idle ret := by
  cases pc with
  | idle ret => exact ⟨ret, rfl⟩
  | _ => cases h

section Drained
variable {ds : Nat} {s : RingState} {body : Bytes} {type : EnumValue MsgType}

theorem unplaceable_of_not (hsize : s.ch.dataSize = ds)
    (h : ¬ Placeable s.ch body.length) : Unplaceable ds s.ch.writeIdx ⟨type, body⟩ := by
  unfold Placeable ShmRingBuf.contig ShmRingBuf.offset at h
  rw [hsize] at h
  unfold Unplaceable Frame.len
  dsimp only
  omega

/-- A frame that has a place goes in at the first attempt. -/
theorem write_of_placeable (hinv : RingInv ds s) (hidle : s.producer.isIdle = true)
    (hempty : s.ch.readIdx = s.ch.writeIdx) (hlen : 8 + body.length ≤ ds)
    (hplace : Placeable s.ch body.length) (waitMs : Int32) :
    WriteSucceeds s body type waitMs := by
  obtain ⟨ret, hpc⟩ := ProducerPc.eq_idle hidle
  have hsize := hinv.size
  obtain ⟨hsmall, hfit⟩ := hplace
  unfold ShmRingBuf.contig ShmRingBuf.offset at hfit
  rw [hsize] at hfit
  have hpos : 0 < ds := by omega
  let f : Frame := ⟨type, body⟩
  have hx : producerStep s.ch s.data s.producer (.writeTo body type waitMs) =
      some { ch := s.ch, data := s.data, pc := .loadWrite ⟨f, waitMs⟩ } := by
    rw [hpc]
    simp only [producerStep]
    rw [if_neg (by omega), if_neg (by omega)]
  have hs : ringStep s (.producer (.writeTo body type waitMs)) =
      some (s.afterProducer { ch := s.ch, data := s.data, pc := .loadWrite ⟨f, waitMs⟩ }) := by
    simp only [ringStep, hx, Option.map_some]
  refine ⟨_, hs, fun t ht => ?_⟩
  have hstart : Accepting ds s.ch.writeIdx f s.committed
      (s.afterProducer { ch := s.ch, data := s.data, pc := .loadWrite ⟨f, waitMs⟩ }) :=
    ⟨ringStep_inv hinv hs, rfl, rfl, hempty, by simp [RingState.afterProducer]⟩
  have hacc := ht.invariant (Accepting ds s.ch.writeIdx f s.committed) hstart
    (fun _ _ _ hi ha hstep => hi.step hpos hfit ha hstep)
  exact hacc.finishes hpos hfit

theorem WriteSucceeds.accepted {waitMs : Int32} (h : WriteSucceeds s body type waitMs) :
    EventuallyAccepted s body type := by
  obtain ⟨s₁, hs, hall⟩ := h
  obtain ⟨k, u, hexec, _, hcommitted⟩ := hall s₁ .refl
  have hok : Attempt body type s (.producer (.writeTo body type waitMs)) := ⟨rfl, rfl⟩
  have hfirst : Run ringStep (Attempt body type) s s₁ := .snoc .refl hok hs
  have hrest : Run ringStep (Attempt body type) s₁ u := by
    refine Run.of_exec_mem hexec (fun a ha _ => ?_)
    rw [List.eq_of_mem_replicate ha]
    trivial
  refine ⟨u, hfirst.trans hrest, ?_⟩
  rw [hcommitted]
  simp

/-- A frame that has no place is refused as long as the ring stays as it is,
and nothing but the frame itself would change it. -/
theorem refused_of_not_placeable (hinv : RingInv ds s) (hidle : s.producer.isIdle = true)
    (hempty : s.ch.readIdx = s.ch.writeIdx) (hno : ¬ Placeable s.ch body.length) :
    ¬ EventuallyAccepted s body type := by
  rintro ⟨t, hrun, hne⟩
  obtain ⟨ret, hpc⟩ := ProducerPc.eq_idle hidle
  have hstart : Refusing ds s.ch.writeIdx ⟨type, body⟩ s.committed s :=
    ⟨hinv, rfl, hempty, rfl, by rw [hpc]; trivial⟩
  exact hne (hstart.forever (unplaceable_of_not hinv.size hno) hrun)

end Drained

/-- In a drained ring `write_to` of a body that is not too long for the ring
succeeds, at once or ever, exactly when its frame fits behind the write
position or in front of it. -/
theorem drained_write_succeeds {ds : Nat} (data : Memory) {s : RingState} (body : Bytes)
    (hlen : 8 + body.length ≤ ds) (h : Reachable ringStep (ringInitial ds data) s)
    (hidle : s.producer.isIdle = true) (hdrained : Drained s)
    (type : EnumValue MsgType) (waitMs : Int32) :
    (WriteSucceeds s body type waitMs ↔ Placeable s.ch body.length) ∧
    (EventuallyAccepted s body type ↔ Placeable s.ch body.length) := by
  have hinv := ring_reachable_inv (by omega) h
  have hwrite : Placeable s.ch body.length → ∀ waitMs, WriteSucceeds s body type waitMs :=
    write_of_placeable hinv hidle hdrained.1 hlen
  have hrefused : ¬ Placeable s.ch body.length → ¬ EventuallyAccepted s body type :=
    refused_of_not_placeable hinv hidle hdrained.1
  constructor
  · constructor
    · intro hs
      by_contra hno
      exact hrefused hno hs.accepted
    · intro hplace
      exact hwrite hplace waitMs
  · constructor
    · intro ha
      by_contra hno
      exact hrefused hno ha
    · intro hplace
      exact (hwrite hplace waitMs).accepted

/-- A frame of 32 bytes is written to a ring of 64, read and released. -/
def halfRun : List RingAct :=
  .producer (.writeTo (List.replicate 24 7) (.named .REQ_RPC) 0) ::
    (List.replicate 6 (.producer .run) ++
    .consumer .readFrameView :: (List.replicate 4 (.consumer .run) ++
    [.consumer .releaseFrameView]))

/-- The ring is empty again, with both indices in the middle. -/
theorem halfRun_reaches : ∃ s, exec ringStep (ringInitial 64 (fun _ => 0)) halfRun = some s ∧
    s.ch = ⟨32, 32, 64⟩ ∧ s.consumer.pinnedEnd = 0 ∧ s.producer.isIdle = true := by
  obtain ⟨s, hs, hview⟩ := Option.map_eq_some_iff.mp
    (show (exec ringStep (ringInitial 64 (fun _ => 0)) halfRun).map
      (fun s => (s.ch, s.consumer.pinnedEnd, s.producer.isIdle)) =
        some (⟨32, 32, 64⟩, 0, true) by decide +kernel)
  obtain ⟨hch, hrest⟩ := Prod.mk.inj hview
  exact ⟨s, hs, hch, Prod.mk.inj hrest⟩

theorem drained_write_succeeds_half :
    ∃ s, exec ringStep (ringInitial 64 (fun _ => 0)) halfRun = some s ∧
      WriteSucceeds s (List.replicate 24 9) (.named .REQ_RPC) 0 := by
  obtain ⟨s, hs, hch, hpinned, hidle⟩ := halfRun_reaches
  have hdrained : Drained s := ⟨by rw [hch], hpinned⟩
  have hplace : Placeable s.ch (List.replicate 24 9 : Bytes).length := by
    rw [hch]
    unfold Placeable
    decide
  exact ⟨s, hs, (drained_write_succeeds _ _ (by decide) (Reachable.of_exec hs) hidle hdrained
    _ _).1.mpr hplace⟩

/-- After that frame one of 40 bytes is refused for good, though the ring is
empty and 64 bytes long. -/
theorem drained_ring_refuses : ¬ ∀ (ds : Nat) (data : Memory) (s : RingState) (body : Bytes),
    8 + body.length ≤ ds → Reachable ringStep (ringInitial ds data) s →
    s.producer.isIdle = true → Drained s → EventuallyAccepted s body (.named .REQ_RPC) := by
  intro h
  obtain ⟨s, hs, hch, hpinned, hidle⟩ := halfRun_reaches
  have hreach := Reachable.of_exec hs
  have hempty : s.ch.readIdx = s.ch.writeIdx := by rw [hch]
  have hno : ¬ Placeable s.ch (List.replicate 32 9 : Bytes).length := by
    rw [hch]
    unfold Placeable
    decide
  have hinv := ring_reachable_inv (by decide) hreach
  exact refused_of_not_placeable hinv hidle hempty hno
    (h 64 _ s (List.replicate 32 9) (by decide) hreach hidle ⟨hempty, hpinned⟩)

end LyqtRpc
