import Mathlib.Data.Fintype.Basic
import LyqtRpc.RingProgress

/-!
`ShmClient::send` called by any number of threads on one connection: every
call runs `write_to` on the same ring, and nothing in the transport keeps two
of them apart.
-/

set_option autoImplicit false

namespace LyqtRpc

open CircularLog StepRun

/-- One thread; `base` is the `write_idx` its call has loaded last. -/
structure Sender where
  pc : ProducerPc := .idle false
  base : Nat := 0

/-- The call moves on; what it loads is `write_idx` as it is now. -/
def Sender.move (y : Sender) (ch : ShmRingBuf) (pc : ProducerPc) : Sender where
  pc := pc
  base :=
    match y.pc with
    | .loadWrite _ => ch.writeIdx
    | _ => y.base

/-- `sent` are the calls that have returned true, by thread and message, in the
order of their stores to `write_idx`. -/
structure SendState (τ : Type) where
  ch : ShmRingBuf
  data : Memory
  senders : τ → Sender := fun _ => {}
  consumer : Consumer := {}
  sent : List (τ × Frame) := []
  obtained : List Frame := []

inductive SendAct (τ : Type) where
  /-- `body` is the serialized message. -/
  | send (t : τ) (body : Bytes) (type : EnumValue MsgType)
  | retry (t : τ)
  | giveUp (t : τ)
  | run (t : τ)
  | consumer (a : ConsumerAct)

section Machine
variable {τ : Type} [DecidableEq τ]

def sendInitial (ds : Nat) (data : Memory) : SendState τ := { ch := { dataSize := ds }, data }

def SendState.afterSend (s : SendState τ) (t : τ) (x : Produced) : SendState τ :=
  { s with
    ch := x.ch
    data := x.data
    senders := Function.update s.senders t ((s.senders t).move s.ch x.pc)
    sent := s.sent ++ x.published.map (fun f => (t, f)) }

def SendState.producer (s : SendState τ) (t : τ) (a : ProducerAct) : Option (SendState τ) :=
  (producerStep s.ch s.data (s.senders t).pc a).map (s.afterSend t)

/-- `send` refuses what is longer than the ring before it calls `write_to`. -/
def sendStep (waitMs : Int32) (s : SendState τ) : SendAct τ → Option (SendState τ)
  | .send t body type => s.producer t (.writeTo body type waitMs)
  | .retry t => s.producer t .retry
  | .giveUp t => s.producer t .giveUp
  | .run t => s.producer t .run
  | .consumer a =>
    (consumerStep s.ch s.data s.consumer a).map (fun x =>
      { s with ch := x.ch, consumer := x.consumer, obtained := s.obtained ++ x.obtained })

/-- The next step stores to the data area or to `write_idx`. -/
def ProducerPc.stores : ProducerPc → Bool
  | .skipMark _ _ _ | .putLen _ _ _ | .putType _ _ _ | .putBody _ _ _ | .publish _ _ => true
  | _ => false

/-- The call has written to the data area and published nothing yet. -/
def Sender.wrote (x : Sender) : Bool :=
  match x.pc with
  | .putType _ _ _ | .putBody _ _ _ | .publish _ _ => true
  | .putLen _ p _ => p != x.base
  | _ => false

/-- A call stores only while `write_idx` is what it has loaded, and while no
other call has written without publishing. -/
def OwnTurn (s : SendState τ) : SendAct τ → Prop
  | .run t => (s.senders t).pc.stores = true →
      (s.senders t).base = s.ch.writeIdx ∧ ∀ u, u ≠ t → (s.senders u).wrote = false
  | _ => True

instance [Fintype τ] (s : SendState τ) (a : SendAct τ) : Decidable (OwnTurn s a) :=
  match a with
  | .run t => inferInstanceAs (Decidable (_ → _ ∧ ∀ u, u ≠ t → (s.senders u).wrote = false))
  | .send _ _ _ | .retry _ | .giveUp _ | .consumer _ => inferInstanceAs (Decidable True)

/-- What was read is what the calls that returned true have sent, message by
message, and nothing of it is missing once the ring is empty. -/
structure SendsExact (s : SendState τ) : Prop where
  once : s.obtained <+: s.sent.map Prod.snd
  drained : s.ch.readIdx = s.ch.writeIdx → s.obtained = s.sent.map Prod.snd

/-- The ring with its consumer, as if nobody were sending. -/
def SendState.ring (s : SendState τ) : RingState where
  ch := s.ch
  data := s.data
  consumer := s.consumer
  committed := s.sent.map Prod.snd
  obtained := s.obtained

/-- The frame of a call fits its length field; only `write_to` is called. -/
def ProducerPc.small : ProducerPc → Prop
  | .idle _ => True
  | .loadWrite c | .full c | .loadRead c _ | .skipMark c _ _ => c.frame.len < 2 ^ 32
  | .putLen f _ _ | .putType f _ _ | .putBody f _ _ | .publish f _ => f.len < 2 ^ 32
  | _ => False

/-- The loaded index, where the call still has it as it was loaded. -/
def Sender.holds (x : Sender) : Prop :=
  match x.pc with
  | .loadRead _ w | .skipMark _ w _ => w = x.base
  | _ => True

/-- A call whose `write_idx` is still the current one knows about the ring what
a single producer knows; one that has written is such a call. -/
structure SendInv (ds : Nat) (s : SendState τ) : Prop where
  ring : RingInv ds s.ring
  small : ∀ t, (s.senders t).pc.small
  holds : ∀ t, (s.senders t).holds
  base : ∀ t, (s.senders t).base ≤ s.ch.writeIdx
  current : ∀ t, (s.senders t).base = s.ch.writeIdx →
    ProducerInv s.ch s.data (s.senders t).pc
  wrote : ∀ t, (s.senders t).wrote = true → (s.senders t).base = s.ch.writeIdx

omit [DecidableEq τ] in
theorem sendInitial_inv {ds : Nat} (hds : 0 < ds) (data : Memory) :
    SendInv ds (sendInitial (τ := τ) ds data) where
  ring := ringInitial_inv hds data
  small := fun _ => trivial
  holds := fun _ => trivial
  base := fun _ => Nat.le_refl 0
  current := fun _ _ => trivial
  wrote := fun _ h => by cases h

end Machine

section Producer
variable {ch : ShmRingBuf} {m m' : Memory} {pc pc' : ProducerPc} {x : Produced}

/-- A call that has written nothing does not look at the data area. -/
theorem ProducerInv.of_unwritten {y : Sender} (h : ProducerInv ch m y.pc) (hs : y.pc.small)
    (hbase : y.base = ch.writeIdx) (hw : y.wrote = false) : ProducerInv ch m' y.pc := by
  unfold Sender.wrote at hw
  cases hpc : y.pc with
  | putLen f p off =>
      simp only [hpc, bne_eq_false_iff_eq] at hw
      rw [hpc] at h
      exact ⟨.inl (hw.trans hbase), h.offset, h.fits, h.free, h.small⟩
  | putType => simp [hpc] at hw
  | putBody => simp [hpc] at hw
  | publish => simp [hpc] at hw
  | idle => trivial
  | loadWrite c => rwa [hpc] at h
  | full c => rwa [hpc] at h
  | loadRead c w => rwa [hpc] at h
  | skipMark c w r => rwa [hpc] at h
  | _ =>
      rw [hpc] at hs
      exact hs.elim

/-- The steps of a call that store nothing. -/
inductive QuietMove (ch : ShmRingBuf) : ProducerPc → ProducerPc → Prop where
  | refused (ret : Bool) : QuietMove ch (.idle ret) (.idle false)
  | called (ret : Bool) (c : WriteCall) (h : c.frame.len < 2 ^ 32) :
      QuietMove ch (.idle ret) (.loadWrite c)
  | again (c : WriteCall) : QuietMove ch (.full c) (.loadWrite c)
  | gaveUp (c : WriteCall) : QuietMove ch (.full c) (.idle false)
  | loaded (c : WriteCall) : QuietMove ch (.loadWrite c) (.loadRead c ch.writeIdx)
  | noRoom (c : WriteCall) (w : Nat) : QuietMove ch (.loadRead c w) (.full c)
  | wrap (c : WriteCall) (w : Nat) :
      QuietMove ch (.loadRead c w) (.skipMark c w ch.readIdx)
  | here (c : WriteCall) (w : Nat) :
      QuietMove ch (.loadRead c w) (.putLen c.frame w (ch.offset w))

/-- The steps of a call that store to the data area. -/
inductive DataMove (ch : ShmRingBuf) : ProducerPc → ProducerPc → Prop where
  | markFull (c : WriteCall) (w r : Nat) : DataMove ch (.skipMark c w r) (.full c)
  | marked (c : WriteCall) (w r : Nat) :
      DataMove ch (.skipMark c w r) (.putLen c.frame (w + ch.contig w) 0)
  | len (f : Frame) (p off : Nat) : DataMove ch (.putLen f p off) (.putType f p off)
  | type (f : Frame) (p off : Nat) : DataMove ch (.putType f p off) (.putBody f p off)
  | body (f : Frame) (p off : Nat) : DataMove ch (.putBody f p off) (.publish f p)

/-- What one step of `write_to` can do. -/
inductive SendMove (ch : ShmRingBuf) (m : Memory) : ProducerPc → Produced → Prop where
  | quiet {pc pc' : ProducerPc} :
      QuietMove ch pc pc' → SendMove ch m pc { ch, data := m, pc := pc' }
  | data {pc pc' : ProducerPc} (m' : Memory) :
      DataMove ch pc pc' → SendMove ch m pc { ch, data := m', pc := pc' }
  | publish (f : Frame) (p : Nat) :
      SendMove ch m (.publish f p)
        { ch := { ch with writeIdx := p + f.len }, data := m, pc := .idle true
          published := [f] }

def ProducerAct.sends : ProducerAct → Bool
  | .writeTo _ _ _ | .retry | .giveUp | .run => true
  | _ => false

theorem producerRun_sendMove (hs : pc.small) (h : producerRun ch m pc = some x) :
    SendMove ch m pc x := by
  cases pc with
  | idle ret => cases h
  | full c => cases h
  | loadWrite c =>
      cases h
      exact .quiet (.loaded c)
  | loadRead c w =>
      simp only [producerRun] at h
      split at h
      · cases h
        exact .quiet (.noRoom c w)
      · split at h <;> cases h
        · exact .quiet (.wrap c w)
        · exact .quiet (.here c w)
  | skipMark c w r =>
      simp only [producerRun] at h
      split at h <;> cases h
      · exact .data _ (.markFull c w r)
      · exact .data _ (.marked c w r)
  | putLen f p off =>
      cases h
      exact .data _ (.len f p off)
  | putType f p off =>
      cases h
      exact .data _ (.type f p off)
  | putBody f p off =>
      cases h
      exact .data _ (.body f p off)
  | publish f p =>
      cases h
      exact .publish f p
  | _ => exact hs.elim

theorem producerStep_sendMove {a : ProducerAct} (hs : pc.small) (ha : a.sends = true)
    (h : producerStep ch m pc a = some x) : SendMove ch m pc x := by
  cases a with
  | run =>
      have hrun : producerRun ch m pc = some x := by
        cases pc <;> exact h
      exact producerRun_sendMove hs hrun
  | writeTo body type waitMs =>
      cases pc with
      | idle ret =>
          simp only [producerStep] at h
          split at h
          · cases h
            exact .quiet (.refused ret)
          · rename_i hbig
            split at h <;> cases h
            · exact .quiet (.refused ret)
            · exact .quiet (.called ret _ (by show 8 + body.length < 2 ^ 32; omega))
      | _ => cases h
  | retry =>
      cases pc with
      | full c =>
          simp only [producerStep] at h
          split at h <;> cases h
          exact .quiet (.again c)
      | _ => cases h
  | giveUp =>
      cases pc with
      | full c =>
          cases h
          exact .quiet (.gaveUp c)
      | _ => cases h
  | _ => cases ha

/-- Only a call in its course stores: none does as it is made, retried or given up. -/
theorem producerStep_stores {a : ProducerAct} (ha : a ≠ .run)
    (h : producerStep ch m pc a = some x) : pc.stores = false := by
  cases a with
  | run => exact absurd rfl ha
  | _ =>
    -- either no store comes next, or the call is under way and takes this label in no way
    cases pc <;> first | rfl | cases h

end Producer

section Step
variable {τ : Type} [DecidableEq τ] {ds : Nat} {s s' : SendState τ} {t u : τ}

/-- The ring as the single producer `t` sees it. -/
def SendState.ringOf (s : SendState τ) (t : τ) : RingState :=
  { s.ring with producer := (s.senders t).pc }

omit [DecidableEq τ] in
theorem SendInv.ringOf (h : SendInv ds s) (hbase : (s.senders t).base = s.ch.writeIdx) :
    RingInv ds (s.ringOf t) :=
  { h.ring with producer := h.current t hbase }

theorem afterSend_self (s : SendState τ) (t : τ) (x : Produced) :
    (s.afterSend t x).senders t = (s.senders t).move s.ch x.pc := Function.update_self ..

theorem afterSend_other (s : SendState τ) (x : Produced) (h : u ≠ t) :
    (s.afterSend t x).senders u = s.senders u := Function.update_of_ne h ..

/-- What holds of the thread that moved and of the others holds of all. -/
theorem afterSend_forall {x : Produced} {P : Sender → Prop}
    (ht : P ((s.senders t).move s.ch x.pc)) (ho : ∀ u, u ≠ t → P (s.senders u)) :
    ∀ u, P ((s.afterSend t x).senders u) := by
  intro u
  by_cases hu : u = t
  · subst hu
    rw [afterSend_self]
    exact ht
  · rw [afterSend_other s x hu]
    exact ho u hu

end Step

section Moves
variable {ch : ShmRingBuf} {m m' : Memory} {y : Sender} {pc : ProducerPc}

theorem QuietMove.sender (hm : QuietMove ch y.pc pc) (hs : y.pc.small) (hold : y.holds)
    (hb : y.base ≤ ch.writeIdx) :
    (y.move ch pc).pc.small ∧ (y.move ch pc).holds ∧ (y.move ch pc).base ≤ ch.writeIdx ∧
      (y.move ch pc).wrote = false := by
  obtain ⟨pc₀, base⟩ := y
  cases hm with
  | refused ret => exact ⟨trivial, trivial, hb, rfl⟩
  | called ret c hc => exact ⟨hc, trivial, hb, rfl⟩
  | again c => exact ⟨hs, trivial, hb, rfl⟩
  | gaveUp c => exact ⟨trivial, trivial, hb, rfl⟩
  | loaded c => exact ⟨hs, rfl, Nat.le_refl _, rfl⟩
  | noRoom c w => exact ⟨hs, trivial, hb, rfl⟩
  | wrap c w => exact ⟨hs, hold, hb, rfl⟩
  | here c w =>
      obtain rfl : w = base := hold
      exact ⟨hs, trivial, hb, by simp [Sender.move, Sender.wrote]⟩

/-- A move to `loadRead` has just loaded `write_idx`; the other ones keep `base`. -/
theorem QuietMove.base (hm : QuietMove ch y.pc pc) :
    (∃ c, y.pc = .loadWrite c ∧ pc = .loadRead c ch.writeIdx) ∨
      (y.move ch pc).base = y.base := by
  obtain ⟨pc₀, base⟩ := y
  cases hm with
  | loaded c => exact .inl ⟨c, rfl, rfl⟩
  | _ => exact .inr rfl

theorem DataMove.sender (hm : DataMove ch y.pc pc) (hs : y.pc.small)
    (hold : y.holds) :
    (y.move ch pc).pc.small ∧ (y.move ch pc).holds ∧ (y.move ch pc).base = y.base := by
  obtain ⟨pc₀, base⟩ := y
  cases hm with
  | _ => exact ⟨hs, trivial, rfl⟩

theorem DataMove.stores (hm : DataMove ch y.pc pc) : y.pc.stores = true := by
  obtain ⟨pc₀, base⟩ := y
  cases hm <;> rfl

end Moves

section Invariant
variable {τ : Type} [DecidableEq τ] {ds : Nat} {s s' : SendState τ} {t : τ}

theorem ring_afterSend (s : SendState τ) (t : τ) (x : Produced) :
    (s.afterSend t x).ring =
      { s.ring with ch := x.ch, data := x.data
                    committed := s.ring.committed ++ x.published } := by
  simp [SendState.ring, SendState.afterSend]

/-- A step of the thread whose `write_idx` is current, as a single producer's. -/
theorem SendInv.ring_producer {a : ProducerAct} {x : Produced} (h : SendInv ds s)
    (hbase : (s.senders t).base = s.ch.writeIdx)
    (hx : producerStep s.ch s.data (s.senders t).pc a = some x) :
    RingInv ds (s.afterSend t x).ring ∧ ProducerGuarantee s.ch s.data x := by
  have hring := h.ringOf hbase
  have hguarantee := producerStep_guarantee h.ring.index (h.current t hbase) hx
  have hafter := RingInv.afterProducer hring hguarantee
  rw [ring_afterSend]
  exact ⟨{ hafter with producer := trivial }, hguarantee⟩

theorem SendInv.quiet {a : ProducerAct} {pc : ProducerPc} (h : SendInv ds s)
    (hm : QuietMove s.ch (s.senders t).pc pc)
    (hx : producerStep s.ch s.data (s.senders t).pc a =
      some { ch := s.ch, data := s.data, pc }) :
    SendInv ds (s.afterSend t { ch := s.ch, data := s.data, pc }) := by
  obtain ⟨hsmall, hholds, hbase, hwrote⟩ := hm.sender (h.small t) (h.holds t) (h.base t)
  refine ⟨?_, afterSend_forall (P := fun y => y.pc.small) hsmall (fun u _ => h.small u),
    afterSend_forall (P := Sender.holds) hholds (fun u _ => h.holds u),
    afterSend_forall (P := fun y => y.base ≤ s.ch.writeIdx) hbase (fun u _ => h.base u),
    afterSend_forall (P := fun y => y.base = s.ch.writeIdx → ProducerInv s.ch s.data y.pc)
      ?_ (fun u _ => h.current u),
    afterSend_forall (P := fun y => y.wrote = true → y.base = s.ch.writeIdx) ?_
      (fun u _ => h.wrote u)⟩
  · rw [ring_afterSend, List.append_nil]
    exact h.ring
  · intro hcur
    rcases hm.base with ⟨c, hload, rfl⟩ | hkeep
    · have hs := h.small t
      rw [hload] at hs
      exact ⟨hs, rfl⟩
    · rw [hkeep] at hcur
      exact (h.ring_producer hcur hx).2.inv
  · intro hw
    rw [hwrote] at hw
    cases hw

/-- A call that stores to the data area in its own turn. -/
theorem SendInv.data {a : ProducerAct} {pc : ProducerPc} {m' : Memory} (h : SendInv ds s)
    (hm : DataMove s.ch (s.senders t).pc pc) (hbase : (s.senders t).base = s.ch.writeIdx)
    (hturn : ∀ u, u ≠ t → (s.senders u).wrote = false)
    (hx : producerStep s.ch s.data (s.senders t).pc a =
      some { ch := s.ch, data := m', pc }) :
    SendInv ds (s.afterSend t { ch := s.ch, data := m', pc }) := by
  obtain ⟨hsmall, hholds, hkeep⟩ := hm.sender (h.small t) (h.holds t)
  obtain ⟨hring, hguarantee⟩ := h.ring_producer hbase hx
  refine ⟨hring, afterSend_forall (P := fun y => y.pc.small) hsmall (fun u _ => h.small u),
    afterSend_forall (P := Sender.holds) hholds (fun u _ => h.holds u),
    afterSend_forall (P := fun y => y.base ≤ s.ch.writeIdx) ?_ (fun u _ => h.base u),
    afterSend_forall (P := fun y => y.base = s.ch.writeIdx → ProducerInv s.ch m' y.pc)
      (fun _ => hguarantee.inv) ?_,
    afterSend_forall (P := fun y => y.wrote = true → y.base = s.ch.writeIdx)
      (fun _ => hkeep.trans hbase) (fun u _ => h.wrote u)⟩
  · rw [hkeep]
    exact h.base t
  · intro u hu hcur
    exact (h.current u hcur).of_unwritten (h.small u) hcur (hturn u hu)

/-- After a store to `write_idx` no other call's index is current. -/
theorem SendInv.publish {a : ProducerAct} {f : Frame} {p : Nat} (h : SendInv ds s)
    (hpc : (s.senders t).pc = .publish f p) (hbase : (s.senders t).base = s.ch.writeIdx)
    (hturn : ∀ u, u ≠ t → (s.senders u).wrote = false)
    (hx : producerStep s.ch s.data (s.senders t).pc a =
      some { ch := { s.ch with writeIdx := p + f.len }, data := s.data, pc := .idle true
             published := [f] }) :
    SendInv ds (s.afterSend t
      { ch := { s.ch with writeIdx := p + f.len }, data := s.data, pc := .idle true
        published := [f] }) := by
  obtain ⟨hring, hguarantee⟩ := h.ring_producer hbase hx
  have hcur := h.current t hbase
  rw [hpc] at hcur
  obtain ⟨off, hroom, _⟩ := hcur
  have hp := hroom.writeIdx_le
  have hlen : f.len = 8 + f.body.length := rfl
  have hgrow : s.ch.writeIdx < p + f.len := by omega
  have hkeep : ((s.senders t).move s.ch (.idle true)).base = (s.senders t).base := by
    simp only [Sender.move, hpc]
  refine ⟨hring, afterSend_forall (P := fun y => y.pc.small) trivial (fun u _ => h.small u),
    afterSend_forall (P := Sender.holds) trivial (fun u _ => h.holds u),
    afterSend_forall (P := fun y => y.base ≤ p + f.len) ?_ ?_,
    afterSend_forall
      (P := fun y => y.base = p + f.len →
        ProducerInv { s.ch with writeIdx := p + f.len } s.data y.pc)
      (fun _ => trivial) ?_,
    afterSend_forall (P := fun y => y.wrote = true → y.base = p + f.len)
      (fun hw => by cases hw) ?_⟩
  · rw [hkeep, hbase]
    omega
  · intro u _
    have hu := h.base u
    omega
  · intro u _ hu
    have hle := h.base u
    omega
  · intro u hu hw
    rw [hturn u hu] at hw
    cases hw

omit [DecidableEq τ] in
theorem SendInv.consumer {a : ConsumerAct} {x : Consumed} (h : SendInv ds s)
    (hx : consumerStep s.ch s.data s.consumer a = some x) :
    SendInv ds { s with ch := x.ch, consumer := x.consumer
                        obtained := s.obtained ++ x.obtained } := by
  obtain ⟨hle, hwrite, hsize⟩ := RingInv.consumer_advances h.ring hx
  have hwrite : x.ch.writeIdx = s.ch.writeIdx := hwrite
  have hsize : x.ch.dataSize = s.ch.dataSize := hsize
  have hch : x.ch = { s.ch with readIdx := x.ch.readIdx } := by
    show x.ch = ⟨s.ch.writeIdx, x.ch.readIdx, s.ch.dataSize⟩
    rw [← hwrite, ← hsize]
  have hring : ringStep s.ring (.consumer a) = some (s.ring.afterConsumer x) := by
    show (consumerStep s.ch s.data s.consumer a).map _ = _
    rw [hx]
    rfl
  refine ⟨ringStep_inv h.ring hring, h.small, h.holds, ?_, ?_, ?_⟩
  · intro u
    show (s.senders u).base ≤ x.ch.writeIdx
    rw [hwrite]
    exact h.base u
  · intro u hcur
    have hcur' : (s.senders u).base = s.ch.writeIdx := hcur.trans hwrite
    show ProducerInv x.ch s.data (s.senders u).pc
    rw [hch]
    exact (h.current u hcur').advance hle
  · intro u hw
    show (s.senders u).base = x.ch.writeIdx
    rw [hwrite]
    exact h.wrote u hw

theorem SendInv.producer {a : ProducerAct} (h : SendInv ds s) (ha : a.sends = true)
    (hturn : (s.senders t).pc.stores = true →
      (s.senders t).base = s.ch.writeIdx ∧ ∀ u, u ≠ t → (s.senders u).wrote = false)
    (hs : s.producer t a = some s') : SendInv ds s' := by
  obtain ⟨x, hx, rfl⟩ := Option.map_eq_some_iff.mp hs
  have hmove := producerStep_sendMove (h.small t) ha hx
  generalize hpc : (s.senders t).pc = pc at hmove
  cases hmove with
  | quiet hm => exact h.quiet (hpc ▸ hm) hx
  | data m' hm =>
      obtain ⟨hbase, hothers⟩ := hturn (DataMove.stores (hpc ▸ hm))
      exact h.data (hpc ▸ hm) hbase hothers hx
  | publish f p =>
      obtain ⟨hbase, hothers⟩ := hturn (by rw [hpc]; rfl)
      exact h.publish hpc hbase hothers hx

/-- A step of a call other than its stores is in turn whatever the others do. -/
theorem SendInv.start {a : ProducerAct} (h : SendInv ds s) (ha : a.sends = true)
    (hrun : a ≠ .run) (hs : s.producer t a = some s') : SendInv ds s' := by
  refine h.producer ha (fun hstores => ?_) hs
  obtain ⟨x, hx, _⟩ := Option.map_eq_some_iff.mp hs
  rw [producerStep_stores hrun hx] at hstores
  cases hstores

theorem sendStep_inv {waitMs : Int32} {a : SendAct τ} (h : SendInv ds s) (hok : OwnTurn s a)
    (hs : sendStep waitMs s a = some s') : SendInv ds s' := by
  cases a with
  | run t => exact h.producer rfl hok hs
  | send t body type => exact h.start (a := .writeTo body type waitMs) rfl nofun hs
  | retry t => exact h.start (a := .retry) rfl nofun hs
  | giveUp t => exact h.start (a := .giveUp) rfl nofun hs
  | consumer a =>
      obtain ⟨x, hx, rfl⟩ := Option.map_eq_some_iff.mp hs
      exact h.consumer hx

end Invariant

/-- Whatever the number of threads: in a run whose calls store in their own
turn only, every call that returns true has sent its message, whole and once. -/
theorem senders_exact {τ : Type} [DecidableEq τ] {ds : Nat} (hds : 0 < ds) (data : Memory)
    (waitMs : Int32) {s : SendState τ}
    (h : Run (sendStep waitMs) OwnTurn (sendInitial ds data) s) : SendsExact s := by
  have hinv := h.invariant (SendInv ds) (sendInitial_inv hds data)
    (fun _ _ _ hi hok hs => sendStep_inv hi hok hs)
  exact ⟨hinv.ring.fifo, hinv.ring.drained⟩

/-- Two threads: the second one has called, and loads after the first has
published; one frame is read, the other is in the ring. -/
def turnsRun : List (SendAct Bool) :=
  .send false [1, 2] (.named .REQ_RPC) :: .send true [3] (.named .REQ_TOPIC) ::
    (List.replicate 6 (SendAct.run false) ++ List.replicate 6 (SendAct.run true) ++
    SendAct.consumer .readFrameView :: List.replicate 4 (SendAct.consumer .run))

theorem senders_exact_turnsRun : ∃ s, Run (sendStep 0) OwnTurn
    (sendInitial 64 (fun _ => 0)) s ∧
    (s.sent.map Prod.fst, s.obtained.length) = ([false, true], 1) ∧ SendsExact s := by
  obtain ⟨s, hs, hview⟩ := Option.map_eq_some_iff.mp
    (show (exec (guarded (sendStep 0) OwnTurn) (sendInitial 64 (fun _ => 0)) turnsRun).map
        (fun s => (s.sent.map Prod.fst, s.obtained.length)) =
        some ([false, true], 1) by decide +kernel)
  exact ⟨s, .of_guarded hs, hview, senders_exact (by decide) _ 0 (.of_guarded hs)⟩

/-- Both load `write_idx` before either of them stores to it. -/
def raceRun : List (SendAct Bool) :=
  .send false [1, 2] (.named .REQ_RPC) :: .send true [3, 4] (.named .REQ_TOPIC) ::
    ([SendAct.run false, SendAct.run true, SendAct.run false, SendAct.run true] ++
    List.replicate 4 (SendAct.run false) ++ List.replicate 4 (SendAct.run true) ++
    SendAct.consumer .readFrameView :: (List.replicate 4 (SendAct.consumer .run) ++
    [SendAct.consumer .releaseFrameView]))

/-- Two sends have returned true, and the ring is empty after one frame. -/
theorem senders_race_loses : ¬ ∀ s : SendState Bool,
    Reachable (sendStep 0) (sendInitial 64 (fun _ => 0)) s → SendsExact s := by
  intro h
  obtain ⟨s, hs, hview⟩ := Option.map_eq_some_iff.mp
    (show (exec (sendStep 0) (sendInitial 64 (fun _ => 0)) raceRun).map
        (fun s => (s.ch.readIdx, s.ch.writeIdx, s.obtained.length, s.sent.length)) =
        some (10, 10, 1, 2) by decide +kernel)
  simp only [Prod.mk.injEq] at hview
  obtain ⟨hread, hwrite, hobtained, hsent⟩ := hview
  have hall := (h s (.of_exec hs)).drained (hread.trans hwrite.symm)
  have hlen := congrArg List.length hall
  rw [List.length_map, hobtained, hsent] at hlen
  cases hlen

end LyqtRpc
