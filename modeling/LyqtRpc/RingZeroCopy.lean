import LyqtRpc.RingWrap

/-!
The two ways to write a frame: `write_to`, which copies the body into the ring,
and `write_ptr`, a span that the caller fills, with `commit` behind it.
-/

set_option autoImplicit false

namespace LyqtRpc

open StepRun Word64

/-- The call, and so many steps of the producer alone. -/
def writeCall (body : Bytes) (type : EnumValue MsgType) (waitMs : Int32) (steps : Nat) :
    List RingAct :=
  .producer (.writeTo body type waitMs) :: List.replicate steps (.producer .run)

def spanCall : List RingAct := [.producer .writePtr, .producer .run, .producer .run]

/-- The body goes to the front of the span. -/
def commitCall (body : Bytes) (type : EnumValue MsgType) : List RingAct :=
  [.producer (.fill 0 body), .producer (.commit body.length type), .producer .run,
    .producer .run, .producer .run, .producer .run]

/-- Not a state in which a tail is about to be skipped. -/
def InOnePiece (s : RingState) (_ : RingAct) : Prop :=
  ∀ c w r, s.producer ≠ .skipMark c w r

namespace ShmRingBuf

/-- The room both ways compute: `data_size - (write_idx - read_idx)`. -/
def room (ch : ShmRingBuf) : Nat := sub ch.dataSize (sub ch.writeIdx ch.readIdx)

theorem contig_le (ch : ShmRingBuf) (i : Nat) : ch.contig i ≤ ch.dataSize := Nat.sub_le _ _

end ShmRingBuf

namespace RingState

def withPc (s : RingState) (pc : ProducerPc) : RingState := { s with producer := pc }

/-- The frame is in the ring at `write_idx`, without a gap. -/
def wrote (s : RingState) (f : Frame) : RingState where
  ch := { s.ch with writeIdx := add s.ch.writeIdx f.len }
  data := ((s.data.store (s.ch.offset s.ch.writeIdx) (leBytes 4 f.len)).store
    (s.ch.offset s.ch.writeIdx + 4) (typeWord f.type)).store
      (s.ch.offset s.ch.writeIdx + 8) f.body
  producer := .idle true
  consumer := s.consumer
  committed := s.committed ++ [f]
  obtained := s.obtained

theorem afterProducer_pc (s : RingState) (pc : ProducerPc) :
    s.afterProducer { ch := s.ch, data := s.data, pc } = s.withPc pc := by
  rw [afterProducer, withPc, List.append_nil]

theorem exec_withPc {s : RingState} {a : ProducerAct} {pc : ProducerPc} {as : List RingAct}
    (h : producerStep64 s.ch s.data s.producer a = some { ch := s.ch, data := s.data, pc }) :
    exec ringStep64 s (.producer a :: as) = exec ringStep64 (s.withPc pc) as := by
  rw [exec, ringStep64, h, Option.map_some, afterProducer_pc]

end RingState

section Copy
variable {s t : RingState} {ret : Bool} {body : Bytes} {type : EnumValue MsgType}

/-- Where `write_to` stands when it has looked for room. -/
def afterCheck (ch : ShmRingBuf) (c : WriteCall) : ProducerPc :=
  if ch.room < c.frame.len then .full c
  else if ch.contig ch.writeIdx < c.frame.len then .skipMark c ch.writeIdx ch.readIdx
  else .putLen c.frame ch.writeIdx (ch.offset ch.writeIdx)

theorem exec_loadRead (c : WriteCall) (as : List RingAct) :
    exec ringStep64 (s.withPc (.loadRead c s.ch.writeIdx)) (.producer .run :: as) =
      exec ringStep64 (s.withPc (afterCheck s.ch c)) as := by
  refine RingState.exec_withPc (s := s.withPc (.loadRead c s.ch.writeIdx)) ?_
  show producerRun64 s.ch s.data (.loadRead c s.ch.writeIdx) = _
  by_cases hfull : s.ch.room < c.frame.len
  · rw [afterCheck, if_pos hfull]
    exact if_pos hfull
  · by_cases hwrap : s.ch.contig s.ch.writeIdx < c.frame.len
    · rw [afterCheck, if_neg hfull, if_pos hwrap]
      exact (if_neg hfull).trans (if_pos hwrap)
    · rw [afterCheck, if_neg hfull, if_neg hwrap]
      exact (if_neg hfull).trans (if_neg hwrap)

theorem step_writeTo (hidle : s.producer = .idle ret) (hbody : 8 + body.length < 2 ^ 32)
    (hfits : 8 + body.length ≤ s.ch.dataSize) (waitMs : Int32) :
    producerStep64 s.ch s.data s.producer (.writeTo body type waitMs) =
      some { ch := s.ch, data := s.data, pc := .loadWrite ⟨⟨type, body⟩, waitMs⟩ } := by
  rw [hidle]
  refine (if_neg ?_).trans (if_neg ?_) <;> omega

/-- A frame that fits the ring and the length word is looked for room for. -/
theorem exec_writeCall (hidle : s.producer = .idle ret) (hbody : 8 + body.length < 2 ^ 32)
    (hfits : 8 + body.length ≤ s.ch.dataSize) (waitMs : Int32) (steps : Nat) :
    exec ringStep64 s (writeCall body type waitMs (steps + 2)) =
      exec ringStep64 (s.withPc (afterCheck s.ch ⟨⟨type, body⟩, waitMs⟩))
        (List.replicate steps (.producer .run)) := by
  rw [writeCall, RingState.exec_withPc (step_writeTo hidle hbody hfits waitMs)]
  exact (RingState.exec_withPc (s := s.withPc _) rfl).trans (exec_loadRead _ _)

/-- The frame is put down in three stores and published. -/
theorem exec_putFrame (f : Frame) :
    exec ringStep64 (s.withPc (.putLen f s.ch.writeIdx (s.ch.offset s.ch.writeIdx)))
      (List.replicate 4 (.producer .run)) = some (s.wrote f) := by
  simp only [List.replicate, exec, ringStep64, producerStep64, producerRun64, producerRun,
    RingState.withPc, RingState.afterProducer, RingState.wrote, Option.map_some, List.append_nil]

theorem afterCheck_putLen {c : WriteCall} (hroom : c.frame.len ≤ s.ch.room)
    (hcontig : c.frame.len ≤ s.ch.contig s.ch.writeIdx) :
    afterCheck s.ch c = .putLen c.frame s.ch.writeIdx (s.ch.offset s.ch.writeIdx) := by
  rw [afterCheck, if_neg (Nat.not_lt.mpr hroom), if_neg (Nat.not_lt.mpr hcontig)]

/-- With room for it, and in one piece, the frame is written at once. -/
theorem exec_writeCall_fits (hidle : s.producer = .idle ret) (hbody : 8 + body.length < 2 ^ 32)
    (hroom : 8 + body.length ≤ s.ch.room)
    (hcontig : 8 + body.length ≤ s.ch.contig s.ch.writeIdx) (waitMs : Int32) :
    exec ringStep64 s (writeCall body type waitMs 6) = some (s.wrote ⟨type, body⟩) := by
  have hfits := hcontig.trans (s.ch.contig_le s.ch.writeIdx)
  have hcheck : afterCheck s.ch ⟨⟨type, body⟩, waitMs⟩ =
      .putLen ⟨type, body⟩ s.ch.writeIdx (s.ch.offset s.ch.writeIdx) :=
    afterCheck_putLen (c := ⟨⟨type, body⟩, waitMs⟩) hroom hcontig
  rw [exec_writeCall hidle hbody hfits waitMs 4, hcheck]
  exact exec_putFrame _

/-- What `write_ptr` hands out. -/
def afterSpan (ch : ShmRingBuf) : ProducerPc :=
  if ch.room < 8 then .idle false
  else if min ch.room (ch.contig ch.writeIdx) ≤ 8 then .idle false
  else .span (ch.offset ch.writeIdx + 8) (min ch.room (ch.contig ch.writeIdx) - 8)

theorem exec_spanCall (hidle : s.producer = .idle ret) :
    exec ringStep64 s spanCall = some (s.withPc (afterSpan s.ch)) := by
  have hcall : producerStep64 s.ch s.data s.producer .writePtr =
      some { ch := s.ch, data := s.data, pc := .ptrLoadWrite } := by rw [hidle]; rfl
  have hload : producerStep64 s.ch s.data (.ptrLoadRead s.ch.writeIdx) .run =
      some { ch := s.ch, data := s.data, pc := afterSpan s.ch } := by
    by_cases hfull : s.ch.room < 8
    · rw [afterSpan, if_pos hfull]
      exact if_pos hfull
    · by_cases hnone : min s.ch.room (s.ch.contig s.ch.writeIdx) ≤ 8
      · rw [afterSpan, if_neg hfull, if_pos hnone]
        exact (if_neg hfull).trans (if_pos hnone)
      · rw [afterSpan, if_neg hfull, if_neg hnone]
        exact (if_neg hfull).trans (if_neg hnone)
  rw [spanCall, RingState.exec_withPc hcall]
  refine (RingState.exec_withPc (s := s.withPc .ptrLoadWrite) rfl).trans ?_
  exact RingState.exec_withPc (s := s.withPc (.ptrLoadRead s.ch.writeIdx)) hload

/-- A span of the length of the body is room for the frame, in one piece. -/
theorem afterSpan_eq {base len : Nat} (h : afterSpan s.ch = .span base len) :
    base = s.ch.offset s.ch.writeIdx + 8 ∧ 8 + len ≤ s.ch.room ∧
      8 + len ≤ s.ch.contig s.ch.writeIdx := by
  unfold afterSpan at h
  split at h
  · cases h
  · split at h
    · cases h
    · cases h
      exact ⟨rfl, by omega, by omega⟩

theorem afterSpan_fits {n : Nat} (hn : 0 < n) (hroom : 8 + n ≤ s.ch.room)
    (hcontig : 8 + n ≤ s.ch.contig s.ch.writeIdx) :
    ∃ base len, afterSpan s.ch = .span base len ∧ n ≤ len := by
  have hmin : 8 + n ≤ min s.ch.room (s.ch.contig s.ch.writeIdx) := le_min hroom hcontig
  refine ⟨_, _, (if_neg ?_).trans (if_neg ?_), ?_⟩ <;> omega

/-- The body, the length and the type may be stored in any order. -/
theorem store_frame_comm (m : Memory) (off : Nat) (f : Frame) :
    ((m.store (off + 8) f.body).store off (leBytes 4 f.len)).store (off + 4) (typeWord f.type) =
      ((m.store off (leBytes 4 f.len)).store (off + 4) (typeWord f.type)).store
        (off + 8) f.body := by
  have htype : (typeWord f.type).length = 4 := leBytes_length 4 _
  rw [← m.store_comm (by rw [leBytes_length]; omega), ← Memory.store_comm _ (by omega)]

/-- A committed span is what `write_to` leaves. -/
theorem exec_commitCall {len : Nat} (hbody : 8 + body.length < 2 ^ 32) (hlen : body.length ≤ len) :
    exec ringStep64 (s.withPc (.span (s.ch.offset s.ch.writeIdx + 8) len))
      (commitCall body type) = some (s.wrote ⟨type, body⟩) := by
  have hfill : 0 + body.length ≤ len := by omega
  have hload := s.data.load_store (s.ch.offset s.ch.writeIdx + 8) body
  have hframe := store_frame_comm s.data (s.ch.offset s.ch.writeIdx) ⟨type, body⟩
  simp only [commitCall, exec, ringStep64, producerStep64, producerStep, producerRun64,
    producerRun, RingState.withPc, RingState.afterProducer, RingState.wrote, Option.map_some,
    List.append_nil, Nat.add_zero, if_pos hfill, hlen, hbody, and_self, if_true, hload, hframe]

/-- Where the producer can only wait or has returned, it does not move by itself. -/
theorem exec_stuck {steps : Nat} (hstuck : producerRun64 s.ch s.data s.producer = none)
    (h : exec ringStep64 s (List.replicate steps (.producer .run)) = some t) : t = s := by
  cases steps with
  | zero => exact (Option.some.inj h).symm
  | succ steps =>
    have hnone : ringStep64 s (.producer .run) = none :=
      congrArg (Option.map s.afterProducer) hstuck
    rw [List.replicate_succ, exec, hnone] at h
    cases h

theorem writeCall_fits (hidle : s.producer = .idle ret) {waitMs : Int32} {steps : Nat}
    (h : exec ringStep64 s (writeCall body type waitMs steps) = some t)
    (hdone : t.producer = .idle true) : 8 + body.length ≤ s.ch.dataSize := by
  by_contra hlarge
  have hrefused : producerStep64 s.ch s.data s.producer (.writeTo body type waitMs) =
      some { ch := s.ch, data := s.data, pc := .idle false } := by
    rw [hidle]
    show (if _ then _ else if _ then _ else _) = _
    rw [if_pos (show s.ch.dataSize < 8 + body.length by omega), ite_self]
  rw [writeCall, RingState.exec_withPc hrefused] at h
  obtain rfl := exec_stuck rfl h
  cases hdone

/-- A call that succeeds without a wait and in one piece found room for the frame. -/
theorem writeCall_room (hidle : s.producer = .idle ret) (hbody : 8 + body.length < 2 ^ 32)
    {waitMs : Int32} {steps : Nat}
    (h : exec ringStep64 s (writeCall body type waitMs steps) = some t)
    (hdone : t.producer = .idle true)
    (hpiece : Along ringStep64 InOnePiece s (writeCall body type waitMs steps)) :
    8 + body.length ≤ s.ch.room ∧ 8 + body.length ≤ s.ch.contig s.ch.writeIdx := by
  have hfits := writeCall_fits hidle h hdone
  have hcall : producerStep64 s.ch s.data s.producer (.writeTo body type waitMs) = some _ :=
    step_writeTo hidle hbody hfits waitMs
  match steps with
  | 0 =>
    rw [writeCall, RingState.exec_withPc hcall] at h
    obtain rfl := Option.some.inj h
    cases hdone
  | 1 =>
    rw [writeCall, RingState.exec_withPc hcall] at h
    obtain rfl := Option.some.inj ((RingState.exec_withPc (s := s.withPc _) rfl).symm.trans h)
    cases hdone
  | steps + 2 =>
    have hchecked : exec ringStep64 s (writeCall body type waitMs 2) = _ :=
      exec_writeCall hidle hbody hfits waitMs 0
    rw [exec_writeCall hidle hbody hfits] at h
    by_cases hfull : s.ch.room < 8 + body.length
    · -- it would wait
      rw [show afterCheck s.ch ⟨⟨type, body⟩, waitMs⟩ = _ from if_pos hfull] at h
      obtain rfl := exec_stuck rfl h
      cases hdone
    · by_cases hwrap : s.ch.contig s.ch.writeIdx < 8 + body.length
      · -- it would skip the tail
        have hskip : afterCheck s.ch ⟨⟨type, body⟩, waitMs⟩ =
            .skipMark ⟨⟨type, body⟩, waitMs⟩ s.ch.writeIdx s.ch.readIdx :=
          (if_neg hfull).trans (if_pos hwrap)
        rw [hskip] at h hchecked
        cases steps with
        | zero =>
          obtain rfl := Option.some.inj h
          cases hdone
        | succ steps =>
          have hsplit : writeCall body type waitMs (steps + 1 + 2) =
              writeCall body type waitMs 2 ++ List.replicate (steps + 1) (.producer .run) := by
            rw [writeCall, Nat.add_comm, List.replicate_add]
            rfl
          rw [hsplit] at hpiece
          exact absurd rfl ((hpiece.append_right hchecked).1 _ _ _)
      · exact ⟨Nat.not_lt.mp hfull, Nat.not_lt.mp hwrap⟩

end Copy

/-- Whatever the ring holds: where `write_ptr` gives a span with room for the
body, `write_to` succeeds at once, and the span, filled and committed, is the
state it leaves. Where `write_to` succeeds at once and in one piece, there is
such a span. -/
theorem zero_copy_agrees {s : RingState} {ret : Bool} (hidle : s.producer = .idle ret)
    {body : Bytes} (hbody : 8 + body.length < 2 ^ 32) (type : EnumValue MsgType) :
    (∀ u base len, exec ringStep64 s spanCall = some u → u.producer = .span base len →
      body.length ≤ len → ∃ t, t.producer = .idle true ∧
        (∀ waitMs, exec ringStep64 s (writeCall body type waitMs 6) = some t) ∧
        exec ringStep64 u (commitCall body type) = some t) ∧
    (body ≠ [] → ∀ waitMs steps t,
      exec ringStep64 s (writeCall body type waitMs steps) = some t →
      t.producer = .idle true →
      Along ringStep64 InOnePiece s (writeCall body type waitMs steps) →
      ∃ u base len, exec ringStep64 s spanCall = some u ∧ u.producer = .span base len ∧
        body.length ≤ len) := by
  constructor
  · intro u base len hspan hu hlen
    rw [exec_spanCall hidle] at hspan
    obtain rfl := Option.some.inj hspan
    have hpc : afterSpan s.ch = .span base len := hu
    obtain ⟨rfl, hroom, hcontig⟩ := afterSpan_eq hpc
    refine ⟨s.wrote ⟨type, body⟩, rfl, fun waitMs => ?_, ?_⟩
    · exact exec_writeCall_fits hidle hbody (by omega) (by omega) waitMs
    · rw [hpc]
      exact exec_commitCall hbody hlen
  · intro hne waitMs steps t hcall hdone hpiece
    obtain ⟨hroom, hcontig⟩ := writeCall_room hidle hbody hcall hdone hpiece
    obtain ⟨base, len, hspan, hlen⟩ :=
      afterSpan_fits (List.length_pos_iff.mpr hne) hroom hcontig
    exact ⟨_, base, len, exec_spanCall hidle, hspan, hlen⟩

/-- The first frame of an empty ring. -/
theorem zero_copy_agrees_first : ∃ u t,
    exec ringStep64 (ringInitial 32 (fun _ => 0)) spanCall = some u ∧ u.producer = .span 8 24 ∧
    exec ringStep64 u (commitCall (str "add") (.named .REQ_RPC_PROTO)) = some t ∧
    exec ringStep64 (ringInitial 32 (fun _ => 0))
      (writeCall (str "add") (.named .REQ_RPC_PROTO) 0 6) = some t ∧
    t.ch.writeIdx = 11 := by
  have hspan : exec ringStep64 (ringInitial 32 (fun _ => 0)) spanCall =
      some ((ringInitial 32 (fun _ => 0)).withPc (.span 8 24)) := rfl
  obtain ⟨t, _, hcopy, hcommit⟩ := (@zero_copy_agrees (ringInitial 32 (fun _ => 0))
    false rfl (str "add") (by decide) (.named .REQ_RPC_PROTO)).1 _ 8 24 hspan rfl (by decide)
  have hwrite : (exec ringStep64 (ringInitial 32 (fun _ => 0))
      (writeCall (str "add") (.named .REQ_RPC_PROTO) 0 6)).map (·.ch.writeIdx) = some 11 := rfl
  rw [hcopy 0] at hwrite
  exact ⟨_, t, hspan, rfl, hcommit, hcopy 0, Option.some.inj hwrite⟩

end LyqtRpc
