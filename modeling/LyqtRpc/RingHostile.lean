import LyqtRpc.RingWrap

/-!
`read_frame_view` over bytes nobody vouches for: the indices are any two words with at
most `data_size` between them, the content of the region is arbitrary and does not change
during the call.
-/

set_option autoImplicit false

namespace LyqtRpc

open StepRun Word64

/-- The consumer alone, over fixed bytes. -/
def readStep (m : Memory) (s : ShmRingBuf × Consumer) (_ : Unit) :
    Option (ShmRingBuf × Consumer) :=
  (consumerRun64 s.1 m s.2).map (fun x => (x.ch, x.consumer))

/-- The call has just begun, with nothing pinned. -/
def readStart (ch : ShmRingBuf) : ShmRingBuf × Consumer := (ch, { pc := .loadRead })

namespace ShmRingBuf
variable (ch : ShmRingBuf) (m : Memory) (p : Nat)

/-- The bytes published from a position on: `write_idx - p`. -/
def ahead : Nat := sub ch.writeIdx p

/-- The indices are `uint64_t`, and the size is that of a mapped region. -/
structure Words : Prop where
  writeIdx : ch.writeIdx < 2 ^ 64
  readIdx : ch.readIdx < 2 ^ 64
  dataSize : ch.dataSize < 2 ^ 63

def headerWord : Nat := ofLe (m.load (ch.offset p) 4)

/-- What makes the loop jump over the rest of the region. -/
def skips : Prop := ch.contig p < 4 ∨ ch.headerWord m p = 0

/-- A header that passes the check on the contiguous tail keeps its frame
within what is published. -/
def frameWithin : Prop :=
  8 ≤ ch.headerWord m p → ch.headerWord m p ≤ ch.contig p → ch.headerWord m p ≤ ch.ahead p

end ShmRingBuf

/-- What the caller may rely on after `read_frame_view` returned true: the
header and the body lie in the region and in what is published, and the
release does not take `read_idx` past `write_idx`. -/
structure ViewInside (ch : ShmRingBuf) (c : Consumer) (v : FrameView) : Prop where
  header : v.base = ch.offset ch.readIdx + 8
  region : v.base + v.len ≤ ch.dataSize
  published : 8 + v.len ≤ ch.ahead ch.readIdx
  release : ∀ m x, consumerStep64 ch m c .releaseFrameView = some x →
    x.ch.ahead x.ch.readIdx ≤ ch.ahead ch.readIdx

/-- An index that passed `write_idx` would have almost all words ahead of it. -/
structure ReadSafe (m : Memory) (ch : ShmRingBuf) : Prop where
  terminates : ∃ t ret, Reachable (readStep m) (readStart ch) t ∧ t.2.pc = .idle ret
  bounded : ∀ t, Reachable (readStep m) (readStart ch) t →
    t.1.ahead t.1.readIdx ≤ ch.ahead ch.readIdx
  view : ∀ t, Reachable (readStep m) (readStart ch) t → t.2.pc = .idle true →
    ∃ v, t.2.view = some v ∧ ViewInside t.1 t.2 v

/-- The headers the loop meets: a skipped tail ends within what is published,
no other one follows it, and the frame behind it is within as well. -/
def HeadersWithin (m : Memory) (ch : ShmRingBuf) : Prop :=
  let r := ch.readIdx
  let next := add r (ch.contig r)
  (¬ ch.skips m r → ch.frameWithin m r) ∧
  (ch.skips m r → ch.contig r ≤ ch.ahead r ∧
    (ch.contig r < ch.ahead r → ¬ ch.skips m next ∧ ch.frameWithin m next))

section Walk
variable {m : Memory} {ch : ShmRingBuf} {p : Nat}

def ShmRingBuf.readAt (ch : ShmRingBuf) (p : Nat) : ShmRingBuf := { ch with readIdx := p }

theorem readStep_pc {ch ch' : ShmRingBuf} {c c' : Consumer} {o : List Frame}
    (h : consumerRun64 ch m c = some ⟨ch', c', o⟩) :
    Reachable (readStep m) (ch, c) (ch', c') :=
  .snoc .refl (a := ()) trivial (by simp only [readStep, h, Option.map_some])

/-- The loop is at its head with `read_idx` at `p` and something to read. -/
theorem walk_head (hne : ch.writeIdx ≠ p) :
    Reachable (readStep m) (readStart (ch.readAt p))
      (ch.readAt p,
        { pc := if ch.contig p < 4 then .jump (add p (ch.contig p)) else .readLen p }) := by
  have h1 : consumerRun64 (ch.readAt p) m { pc := .loadRead } =
      some ⟨ch.readAt p, { pc := .loadWrite p }, []⟩ := rfl
  refine (readStep_pc h1).trans ?_
  by_cases h4 : ch.contig p < 4
  · rw [if_pos h4]
    refine readStep_pc (o := []) ?_
    simp only [consumerRun64]
    exact (if_neg hne).trans (if_pos h4)
  · rw [if_neg h4]
    refine readStep_pc (o := []) ?_
    simp only [consumerRun64]
    exact (if_neg hne).trans (if_neg h4)

theorem walk_empty (heq : ch.writeIdx = p) :
    Reachable (readStep m) (readStart (ch.readAt p)) (ch.readAt p, { pc := .idle false }) := by
  have h1 : consumerRun64 (ch.readAt p) m { pc := .loadRead } =
      some ⟨ch.readAt p, { pc := .loadWrite p }, []⟩ := rfl
  refine (readStep_pc h1).trans (readStep_pc (o := []) ?_)
  simp only [consumerRun64]
  exact if_pos heq

/-- A skipped tail takes `read_idx` to where the region, or the words, begin again. -/
theorem walk_skip (hne : ch.writeIdx ≠ p) (hskip : ch.skips m p) :
    Reachable (readStep m) (readStart (ch.readAt p))
      (readStart (ch.readAt (add p (ch.contig p)))) := by
  have hjump : Reachable (readStep m) (ch.readAt p, { pc := .jump (add p (ch.contig p)) })
      (readStart (ch.readAt (add p (ch.contig p)))) := readStep_pc (o := []) rfl
  refine (walk_head hne).trans ?_
  by_cases h4 : ch.contig p < 4
  · rw [if_pos h4]
    exact hjump
  · rw [if_neg h4]
    have hzero : ch.headerWord m p = 0 := hskip.resolve_left h4
    refine Run.trans (readStep_pc (o := []) ?_) hjump
    simp only [consumerRun64]
    exact if_pos hzero

theorem walk_corrupt (hne : ch.writeIdx ≠ p) (hskip : ¬ ch.skips m p)
    (hbad : ch.headerWord m p < 8 ∨ ch.contig p < ch.headerWord m p) :
    Reachable (readStep m) (readStart (ch.readAt p)) (ch.readAt p, { pc := .idle false }) := by
  have h4 : ¬ ch.contig p < 4 := fun h => hskip (.inl h)
  have hzero : ¬ ch.headerWord m p = 0 := fun h => hskip (.inr h)
  refine (walk_head hne).trans ?_
  rw [if_neg h4]
  refine readStep_pc (o := []) ?_
  simp only [consumerRun64]
  exact (if_neg hzero).trans (if_pos hbad)

/-- The consumer after a frame was taken at `p`. -/
def pinnedAt (m : Memory) (ch : ShmRingBuf) (p : Nat) : Consumer where
  pc := .idle true
  pinnedEnd := add p (ch.headerWord m p)
  view := some
    ⟨EnumValue.ofInt32 (Int32.ofWord (ofLe (m.load (ch.offset p + 4) 4))), ch.offset p + 8,
      ch.headerWord m p - 8⟩

theorem walk_frame (hne : ch.writeIdx ≠ p) (hskip : ¬ ch.skips m p)
    (h8 : 8 ≤ ch.headerWord m p) (hfit : ch.headerWord m p ≤ ch.contig p) :
    Reachable (readStep m) (readStart (ch.readAt p)) (ch.readAt p, pinnedAt m ch p) := by
  have h4 : ¬ ch.contig p < 4 := fun h => hskip (.inl h)
  have hzero : ¬ ch.headerWord m p = 0 := fun h => hskip (.inr h)
  have hgood : ¬ (ch.headerWord m p < 8 ∨ ch.contig p < ch.headerWord m p) := by omega
  refine (walk_head hne).trans ?_
  rw [if_neg h4]
  have hheader : consumerRun64 (ch.readAt p) m { pc := .readLen p } =
      some { ch := ch.readAt p, consumer := { pc := .readType p (ch.headerWord m p) } } :=
    (if_neg hzero).trans (if_neg hgood)
  exact Run.trans (readStep_pc hheader) (readStep_pc rfl)

end Walk

section Path
variable {m : Memory} {ch : ShmRingBuf} {p : Nat}

theorem release_readIdx {c : Consumer} {x : Consumed}
    (h : consumerStep64 ch m c .releaseFrameView = some x) :
    x.ch.writeIdx = ch.writeIdx ∧ (x.ch.readIdx = ch.readIdx ∨ x.ch.readIdx = c.pinnedEnd) := by
  simp only [consumerStep64, consumerStep] at h
  split at h
  · split at h <;> obtain rfl := Option.some.inj h
    · exact ⟨rfl, .inl rfl⟩
    · exact ⟨rfl, .inr rfl⟩
  · cases h

theorem contig_pos (hds : 0 < ch.dataSize) : 0 < ch.contig p :=
  Nat.sub_pos_of_lt (Nat.mod_lt p hds)

theorem contig_lt (hwords : ch.Words) : ch.contig p < 2 ^ 63 :=
  Nat.lt_of_le_of_lt (Nat.sub_le _ _) hwords.dataSize

/-- Behind a skipped tail comes less than was skipped: the start of the region, or, where the
words begin again, an offset below the tail. -/
theorem offset_next_lt (hds : 0 < ch.dataSize) (hp : p < 2 ^ 64) :
    ch.offset (add p (ch.contig p)) < ch.contig p := by
  by_cases hlap : p + ch.contig p < 2 ^ 64
  · have hzero : (p + ch.contig p) % ch.dataSize = 0 := CircularLog.wrap_mod hds
    rw [add, Nat.mod_eq_of_lt hlap, ShmRingBuf.offset, hzero]
    exact contig_pos hds
  · have hsize : ch.contig p < 2 ^ 64 ∨ 2 ^ 64 ≤ ch.contig p := Nat.lt_or_ge _ _
    refine Nat.lt_of_le_of_lt (Nat.mod_le _ _) ?_
    unfold add
    omega

/-- So two tails in a row are more than the region. -/
theorem skip_twice (hds : 0 < ch.dataSize) (hp : p < 2 ^ 64) :
    ch.dataSize < ch.contig p + ch.contig (add p (ch.contig p)) := by
  have hnext := offset_next_lt hds hp
  have hcontig : ch.contig (add p (ch.contig p)) =
      ch.dataSize - ch.offset (add p (ch.contig p)) := rfl
  have hoffset : ch.offset (add p (ch.contig p)) < ch.dataSize := Nat.mod_lt _ hds
  omega

/-- And would take `read_idx` past `write_idx`. -/
theorem ahead_lt_skip_twice (hwords : ch.Words) (hds : 0 < ch.dataSize) (hp : p < 2 ^ 64)
    (hused : ch.ahead p ≤ ch.dataSize) (hle : ch.contig p ≤ ch.ahead p) :
    ch.ahead p <
      ch.ahead (add (add p (ch.contig p)) (ch.contig (add p (ch.contig p)))) := by
  have htwice := skip_twice hds hp
  have hfirst := contig_lt (p := p) hwords
  have hsecond := contig_lt (p := add p (ch.contig p)) hwords
  have hnext : sub ch.writeIdx (add p (ch.contig p)) = ch.ahead p - ch.contig p :=
    sub_add_of_le hp hle
  have hpast : ch.ahead (add (add p (ch.contig p)) (ch.contig (add p (ch.contig p)))) =
      sub ch.writeIdx (add p (ch.contig p)) + (2 ^ 64 - ch.contig (add p (ch.contig p))) :=
    sub_add_of_lt hwords.writeIdx (add_lt _ _) (by omega) (by omega)
  omega

/-- The positions `read_idx` takes: where it was, and behind a skipped tail. -/
def OnPath (m : Memory) (ch : ShmRingBuf) (p : Nat) : Prop :=
  p = ch.readIdx ∨ ch.skips m ch.readIdx ∧ p = add ch.readIdx (ch.contig ch.readIdx)

theorem OnPath.word (hwords : ch.Words) (h : OnPath m ch p) : p < 2 ^ 64 := by
  rcases h with rfl | ⟨_, rfl⟩
  · exact hwords.readIdx
  · exact add_lt _ _

theorem OnPath.ahead_le (hwords : ch.Words) (hw : HeadersWithin m ch) (h : OnPath m ch p) :
    ch.ahead p ≤ ch.ahead ch.readIdx := by
  rcases h with rfl | ⟨hskip, rfl⟩
  · exact Nat.le_refl _
  · rw [ShmRingBuf.ahead, sub_add_of_le hwords.readIdx (hw.2 hskip).1]
    exact Nat.sub_le _ _

/-- Where the path goes on behind a first tail, something is published there. -/
theorem lt_ahead_of_next (hwords : ch.Words) (hle : ch.contig p ≤ ch.ahead p) (hp : p < 2 ^ 64)
    (hne : ch.writeIdx ≠ add p (ch.contig p)) : ch.contig p < ch.ahead p := by
  have hzero := mt (sub_self_eq_zero hwords.writeIdx (add_lt p (ch.contig p))).mp hne
  rw [sub_add_of_le hp hle] at hzero
  have hahead : ch.ahead p = sub ch.writeIdx p := rfl
  omega

theorem OnPath.skip (hwords : ch.Words) (hw : HeadersWithin m ch) (h : OnPath m ch p)
    (hne : ch.writeIdx ≠ p) (hskip : ch.skips m p) :
    ch.contig p ≤ ch.ahead p ∧ OnPath m ch (add p (ch.contig p)) := by
  rcases h with rfl | ⟨hfirst, rfl⟩
  · exact ⟨(hw.2 hskip).1, .inr ⟨hskip, rfl⟩⟩
  · obtain ⟨hle, hnext⟩ := hw.2 hfirst
    exact absurd hskip (hnext (lt_ahead_of_next hwords hle hwords.readIdx hne)).1

theorem OnPath.frame (hwords : ch.Words) (hw : HeadersWithin m ch) (h : OnPath m ch p)
    (hne : ch.writeIdx ≠ p) (hskip : ¬ ch.skips m p) : ch.frameWithin m p := by
  rcases h with rfl | ⟨hfirst, rfl⟩
  · exact hw.1 hskip
  · obtain ⟨hle, hnext⟩ := hw.2 hfirst
    exact (hnext (lt_ahead_of_next hwords hle hwords.readIdx hne)).2

/-- What the call knows at each point of the loop. -/
def ReadPcInv (m : Memory) (ch : ShmRingBuf) (p : Nat) (c : Consumer) : Prop :=
  match c.pc with
  | .loadRead | .idle false => True
  | .loadWrite r => r = p
  | .jump i => ch.writeIdx ≠ p ∧ ch.skips m p ∧ i = add p (ch.contig p)
  | .readLen r => r = p ∧ ch.writeIdx ≠ p ∧ ¬ ch.contig p < 4
  | .readType r n =>
    r = p ∧ ch.writeIdx ≠ p ∧ ¬ ch.skips m p ∧ n = ch.headerWord m p ∧ 8 ≤ n ∧ n ≤ ch.contig p
  | .idle true =>
    c = pinnedAt m ch p ∧ ch.writeIdx ≠ p ∧ ¬ ch.skips m p ∧ 8 ≤ ch.headerWord m p ∧
      ch.headerWord m p ≤ ch.contig p

def ReadInv (m : Memory) (ch : ShmRingBuf) (t : ShmRingBuf × Consumer) : Prop :=
  ∃ p, OnPath m ch p ∧ t.1 = ch.readAt p ∧ ReadPcInv m ch p t.2

theorem readStep_inv (hwords : ch.Words) (hw : HeadersWithin m ch)
    {t u : ShmRingBuf × Consumer} {a : Unit} (h : ReadInv m ch t)
    (hs : readStep m t a = some u) : ReadInv m ch u := by
  obtain ⟨p, hpath, hch, hpc⟩ := h
  obtain ⟨ch', c⟩ := t
  dsimp only at hch hpc
  subst hch
  obtain ⟨x, hx, rfl⟩ := Option.map_eq_some_iff.mp hs
  cases hc : c.pc with
  | idle ret => simp only [consumerRun64, consumerRun, hc] at hx; cases hx
  | loadRead =>
      simp only [consumerRun64, consumerRun, hc] at hx
      obtain rfl := Option.some.inj hx
      exact ⟨p, hpath, rfl, rfl⟩
  | loadWrite r =>
      simp only [ReadPcInv, hc] at hpc
      subst hpc
      simp only [consumerRun64, hc] at hx
      split at hx
      · obtain rfl := Option.some.inj hx
        exact ⟨r, hpath, rfl, trivial⟩
      · rename_i hne
        split at hx <;> obtain rfl := Option.some.inj hx
        · rename_i h4
          exact ⟨r, hpath, rfl, hne, .inl h4, rfl⟩
        · rename_i h4
          exact ⟨r, hpath, rfl, rfl, hne, h4⟩
  | jump i =>
      simp only [ReadPcInv, hc] at hpc
      obtain ⟨hne, hskip, rfl⟩ := hpc
      simp only [consumerRun64, consumerRun, hc] at hx
      obtain rfl := Option.some.inj hx
      exact ⟨add p (ch.contig p), (hpath.skip hwords hw hne hskip).2, rfl, trivial⟩
  | readLen r =>
      simp only [ReadPcInv, hc] at hpc
      obtain ⟨rfl, hne, h4⟩ := hpc
      simp only [consumerRun64, hc] at hx
      split at hx
      · rename_i hzero
        obtain rfl := Option.some.inj hx
        exact ⟨r, hpath, rfl, hne, .inr hzero, rfl⟩
      · rename_i hzero
        split at hx <;> obtain rfl := Option.some.inj hx
        · exact ⟨r, hpath, rfl, trivial⟩
        · rename_i hgood
          rw [not_or] at hgood
          have hskip : ¬ ch.skips m r := fun hs => hs.elim h4 hzero
          exact ⟨r, hpath, rfl, rfl, hne, hskip, rfl, Nat.not_lt.mp hgood.1, Nat.not_lt.mp hgood.2⟩
  | readType r n =>
      simp only [ReadPcInv, hc] at hpc
      obtain ⟨rfl, hne, hskip, rfl, h8, hfit⟩ := hpc
      simp only [consumerRun64, hc] at hx
      obtain rfl := Option.some.inj hx
      exact ⟨r, hpath, rfl, rfl, hne, hskip, h8, hfit⟩

theorem ReadInv.inside (hwords : ch.Words) (hw : HeadersWithin m ch) {t : ShmRingBuf × Consumer}
    (h : ReadInv m ch t) (htrue : t.2.pc = .idle true) :
    ∃ v, t.2.view = some v ∧ ViewInside t.1 t.2 v := by
  obtain ⟨p, hpath, hch, hpc⟩ := h
  obtain ⟨ch', c⟩ := t
  dsimp only at *
  subst hch
  simp only [ReadPcInv, htrue] at hpc
  obtain ⟨rfl, hne, hskip, h8, hfit⟩ := hpc
  have hwithin := hpath.frame hwords hw hne hskip h8 hfit
  have hcontig : ch.contig p = ch.dataSize - ch.offset p := rfl
  refine ⟨_, rfl, rfl, ?_, ?_, ?_⟩
  · show ch.offset p + 8 + (ch.headerWord m p - 8) ≤ ch.dataSize
    omega
  · show 8 + (ch.headerWord m p - 8) ≤ ch.ahead p
    omega
  · intro m' x hx
    obtain ⟨hwrite, hread⟩ := release_readIdx hx
    have hahead : x.ch.ahead x.ch.readIdx = ch.ahead x.ch.readIdx := by
      rw [ShmRingBuf.ahead, hwrite]
      rfl
    show x.ch.ahead x.ch.readIdx ≤ ch.ahead p
    rcases hread with hread | hread
    · rw [hahead, hread]
      exact Nat.le_refl _
    · have hend : x.ch.readIdx = add p (ch.headerWord m p) := hread
      rw [hahead, hend, ShmRingBuf.ahead, sub_add_of_le (hpath.word hwords) hwithin]
      exact Nat.sub_le _ _

/-- From every position on the path the call comes to its end: a jump brings
`read_idx` nearer to `write_idx`. -/
theorem walk_ends (hwords : ch.Words) (hds : 0 < ch.dataSize)
    (hw : HeadersWithin m ch) (h : OnPath m ch p) :
    ∃ t ret, Reachable (readStep m) (readStart (ch.readAt p)) t ∧ t.2.pc = .idle ret := by
  induction hn : ch.ahead p using Nat.strong_induction_on generalizing p with
  | _ n ih =>
      by_cases heq : ch.writeIdx = p
      · exact ⟨_, false, walk_empty heq, rfl⟩
      · by_cases hskip : ch.skips m p
        · obtain ⟨hle, hnext⟩ := h.skip hwords hw heq hskip
          have hpos := contig_pos (p := p) hds
          have hnearer : ch.ahead (add p (ch.contig p)) = ch.ahead p - ch.contig p :=
            sub_add_of_le (h.word hwords) hle
          obtain ⟨t, ret, hrest, hend⟩ := ih _ (by omega) hnext rfl
          exact ⟨t, ret, (walk_skip heq hskip).trans hrest, hend⟩
        · by_cases hbad : ch.headerWord m p < 8 ∨ ch.contig p < ch.headerWord m p
          · exact ⟨_, false, walk_corrupt heq hskip hbad, rfl⟩
          · exact ⟨_, true, walk_frame heq hskip (by omega) (by omega), rfl⟩

theorem readSafe_of_within (hwords : ch.Words) (hds : 0 < ch.dataSize)
    (hw : HeadersWithin m ch) : ReadSafe m ch := by
  have hstart : ReadInv m ch (readStart ch) := ⟨ch.readIdx, .inl rfl, rfl, trivial⟩
  have hinv : ∀ t, Reachable (readStep m) (readStart ch) t → ReadInv m ch t := by
    intro t ht
    exact ht.invariant (ReadInv m ch) hstart
      (fun _ _ _ hi _ hs => readStep_inv hwords hw hi hs)
  refine ⟨walk_ends hwords hds hw (.inl rfl), ?_, ?_⟩
  · intro t ht
    obtain ⟨p, hpath, hch, _⟩ := hinv t ht
    rw [hch]
    exact hpath.ahead_le hwords hw
  · intro t ht htrue
    exact (hinv t ht).inside hwords hw htrue

/-- A safe call keeps the frame it finds within what is published. -/
theorem ReadSafe.frameWithin (h : ReadSafe m ch) (hne : ch.writeIdx ≠ p)
    (hreach : Reachable (readStep m) (readStart ch) (readStart (ch.readAt p)))
    (hskip : ¬ ch.skips m p) : ch.frameWithin m p := by
  intro h8 hfit
  obtain ⟨v, hv, hinside⟩ := h.view _ (hreach.trans (walk_frame hne hskip h8 hfit)) rfl
  have hpublished : 8 + v.len ≤ ch.ahead p := hinside.published
  have hlen : v.len = ch.headerWord m p - 8 := by
    obtain rfl := Option.some.inj hv
    rfl
  omega

theorem within_of_readSafe (hwords : ch.Words) (hlt : 0 < ch.ahead ch.readIdx)
    (hused : ch.ahead ch.readIdx ≤ ch.dataSize) (h : ReadSafe m ch) : HeadersWithin m ch := by
  have hds : 0 < ch.dataSize := by omega
  have hne : ch.writeIdx ≠ ch.readIdx := by
    intro heq
    rw [ShmRingBuf.ahead, (sub_self_eq_zero hwords.writeIdx hwords.readIdx).mpr heq] at hlt
    exact absurd hlt (Nat.lt_irrefl 0)
  refine ⟨fun hskip => h.frameWithin hne .refl hskip, fun hskip => ?_⟩
  have hjump := walk_skip hne hskip
  have hle : ch.contig ch.readIdx ≤ ch.ahead ch.readIdx :=
    (sub_add_le_iff hwords.writeIdx hwords.readIdx
      (Nat.lt_trans (contig_lt hwords) (by decide))).mp (h.bounded _ hjump)
  refine ⟨hle, fun hmore => ?_⟩
  have hnext : ch.ahead (add ch.readIdx (ch.contig ch.readIdx)) =
      ch.ahead ch.readIdx - ch.contig ch.readIdx := sub_add_of_le hwords.readIdx hle
  have hne' : ch.writeIdx ≠ add ch.readIdx (ch.contig ch.readIdx) := by
    intro heq
    have hzero := (sub_self_eq_zero hwords.writeIdx (add_lt _ _)).mpr heq
    have hsame : ch.ahead (add ch.readIdx (ch.contig ch.readIdx)) = 0 := hzero
    omega
  -- a second skip would take more than the region, and so more than is published
  have hstop : ¬ ch.skips m (add ch.readIdx (ch.contig ch.readIdx)) := by
    intro hskip'
    have hbound := h.bounded _ (Run.trans hjump (walk_skip hne' hskip'))
    have hpast := ahead_lt_skip_twice hwords hds hwords.readIdx hused hle
    exact absurd hbound (Nat.not_le.mpr hpast)
  exact ⟨hstop, h.frameWithin hne' hjump hstop⟩

end Path

/-- Whatever the bytes are, and whatever two words the indices: the call is safe exactly
when the headers it meets keep to what is published. -/
theorem read_frame_view_safe (m : Memory) (ch : ShmRingBuf) (hwords : ch.Words)
    (hlt : 0 < sub ch.writeIdx ch.readIdx) (hused : sub ch.writeIdx ch.readIdx ≤ ch.dataSize) :
    ReadSafe m ch ↔ HeadersWithin m ch :=
  ⟨within_of_readSafe hwords hlt hused,
    readSafe_of_within hwords (Nat.lt_of_lt_of_le hlt hused)⟩

/-- The words begin again within what is published: a skipped tail up to there, and behind it
a frame of sixteen bytes. -/
theorem read_frame_view_safe_lap :
    ReadSafe (Memory.store (fun _ => 0) 0 (leBytes 4 16)) ⟨16, 2 ^ 64 - 8, 32⟩ := by
  refine (read_frame_view_safe _ _ ⟨by decide, by decide, by decide⟩ (by decide) (by decide)).mpr ?_
  unfold HeadersWithin ShmRingBuf.skips ShmRingBuf.frameWithin
  decide +kernel

/-- A zero length word takes `read_idx` past the eight bytes published. -/
theorem hostile_skip_overtakes : ¬ ∀ (m : Memory) (ch : ShmRingBuf), ch.Words →
    0 < sub ch.writeIdx ch.readIdx → sub ch.writeIdx ch.readIdx ≤ ch.dataSize →
    ReadSafe m ch := by
  intro h
  have hsafe := h (fun _ => 0) ⟨8, 0, 16⟩ ⟨by decide, by decide, by decide⟩ (by decide) (by decide)
  have hskip : ShmRingBuf.skips ⟨8, 0, 16⟩ (fun _ => 0) 0 := .inr (by decide)
  have hbound := hsafe.bounded _ (walk_skip (p := 0) (by decide) hskip)
  revert hbound
  decide

end LyqtRpc
