import LyqtRpc.LVStream

/-!
How far `LVProtocol::onMessage` reads: the length field alone decides whether
it stays inside the frame `canProcessed` has announced.
-/

set_option autoImplicit false

namespace LyqtRpc

/-- The buffer after the call, unless an operation asked for too much. -/
def ReadResult.rest {B : Type} : ReadResult B → Option Bytes
  | .ok _ rest | .fail rest | .threw _ rest => some rest
  | .underflow => none

theorem readInt32_of_le {buf : Bytes} (h : 4 ≤ buf.length) :
    readInt32 buf = some (peekInt32 buf, buf.drop 4) :=
  if_neg (Nat.not_lt.mpr h)

theorem retrieveAsString_of_le {n : Nat} {buf : Bytes} (h : n ≤ buf.length) :
    retrieveAsString n buf = some (buf.take n, buf.drop n) :=
  if_neg (Nat.not_lt.mpr h)

namespace LVProtocol
variable {B : Type} {ser : Serializer B} {buf : Bytes}

/-- `total_len` of the frame at the head of the buffer. -/
def headLen (buf : Bytes) : Int := (peekInt32 buf).toInt

/-- `canProcessed` is true: the length is not negative and the frame is there. -/
theorem canProcessed_eq_true (h : canProcessed buf = true) :
    4 ≤ buf.length ∧ 0 ≤ headLen buf ∧ 4 + (headLen buf).toNat ≤ buf.length := by
  unfold canProcessed at h
  split at h
  · cases h
  · split at h
    · cases h
    · split at h
      · cases h
      · rename_i h4 hneg hlen
        have hzero : (0 : Int32).toInt = 0 := rfl
        rw [Int32.lt_iff_toInt_lt, hzero] at hneg
        unfold headLen
        omega

theorem parseBody_rest {msgtype : EnumValue MsgType} {idLen dataLen : Nat}
    (h : idLen + dataLen ≤ buf.length) :
    (parseBody ser msgtype idLen dataLen buf).rest = some (buf.drop (idLen + dataLen)) := by
  have hdrop : dataLen ≤ (buf.drop idLen).length := by
    rw [List.length_drop]
    omega
  unfold parseBody
  rw [retrieveAsString_of_le (by omega)]
  simp only
  rw [retrieveAsString_of_le hdrop, List.drop_drop]
  simp only
  cases hc : ser.create msgtype with
  | none => rfl
  | some msg =>
      simp only
      cases hd : ser.decode ((buf.drop idLen).take dataLen) msg with
      | error e => rfl
      | ok o => cases o <;> rfl

/-- The three header fields are read whatever `total_len` says. -/
theorem onMessage_short (h : canProcessed buf = true) (hlen : buf.length < 12) :
    onMessage ser buf = .underflow := by
  have h4 := (canProcessed_eq_true h).1
  rw [onMessage, if_neg (by simp [h]), readInt32_of_le h4]
  simp only
  by_cases h8 : buf.length < 8
  · have hnone : readInt32 (buf.drop 4) = none := if_pos (by
      rw [List.length_drop]
      omega)
    rw [hnone]
  · have hnone : readInt32 ((buf.drop 4).drop 4) = none := if_pos (by
      rw [List.length_drop, List.length_drop]
      omega)
    rw [readInt32_of_le (by rw [List.length_drop]; omega)]
    simp only [hnone]

/-- The third header field. -/
def idLenField (buf : Bytes) : Int := (peekInt32 (buf.drop 8)).toInt

/-- A buffer that holds the header: the lengths are rejected with the header
consumed, or the id and the data are taken off as well. -/
theorem onMessage_header (h : canProcessed buf = true) (hlen : 12 ≤ buf.length) :
    (onMessage ser buf = .fail (buf.drop 12) ∧
      (idLenField buf < 0 ∨ headLen buf - 8 < idLenField buf)) ∨
    (0 ≤ idLenField buf ∧ idLenField buf ≤ headLen buf - 8 ∧
      (onMessage ser buf).rest = some (buf.drop (4 + (headLen buf).toNat))) := by
  obtain ⟨h4, hnonneg, hframe⟩ := canProcessed_eq_true h
  have hzero : (0 : Int32).toInt = 0 := rfl
  have hfields : onMessage ser buf =
      if peekInt32 buf < 0 ∨ peekInt32 (buf.drop 8) < 0 then .fail (buf.drop 12)
      else if headLen buf - 4 - 4 - idLenField buf < 0 then .fail (buf.drop 12)
      else parseBody ser (.ofInt32 (peekInt32 (buf.drop 4))) (idLenField buf).toNat
        (headLen buf - 4 - 4 - idLenField buf).toNat (buf.drop 12) := by
    rw [onMessage, if_neg (by simp [h]), readInt32_of_le h4]
    simp only
    rw [readInt32_of_le (by rw [List.length_drop]; omega)]
    simp only [List.drop_drop]
    rw [readInt32_of_le (by rw [List.length_drop]; omega)]
    simp only [List.drop_drop]
    rfl
  have hhead : ¬ peekInt32 buf < 0 := by
    rw [Int32.lt_iff_toInt_lt, hzero]
    exact Int.not_lt.mpr hnonneg
  by_cases hid : idLenField buf < 0
  · refine .inl ⟨?_, .inl hid⟩
    have hneg : peekInt32 (buf.drop 8) < 0 := by
      rw [Int32.lt_iff_toInt_lt, hzero]
      exact hid
    rw [hfields, if_pos (.inr hneg)]
  · have hnot : ¬ (peekInt32 buf < 0 ∨ peekInt32 (buf.drop 8) < 0) := by
      rw [not_or]
      refine ⟨hhead, ?_⟩
      rw [Int32.lt_iff_toInt_lt, hzero]
      exact hid
    rw [if_neg hnot] at hfields
    by_cases hdata : headLen buf - 4 - 4 - idLenField buf < 0
    · refine .inl ⟨?_, .inr (by omega)⟩
      rw [hfields, if_pos hdata]
    · refine .inr ⟨by omega, by omega, ?_⟩
      have hsum : (idLenField buf).toNat + (headLen buf - 4 - 4 - idLenField buf).toNat =
          (headLen buf).toNat - 8 := by omega
      rw [hfields, if_neg hdata, parseBody_rest (by rw [List.length_drop]; omega), hsum,
        List.drop_drop]
      congr 2
      omega

/-- No operation asks for more bytes than there are; an accepted frame is
consumed exactly, a rejected one at most. -/
def MemoryBoundary (ser : Serializer B) (buf : Bytes) : Prop :=
  match onMessage ser buf with
  | .underflow => False
  | .ok _ rest => rest = buf.drop (4 + (headLen buf).toNat)
  | .fail rest | .threw _ rest => ∃ n, n ≤ 4 + (headLen buf).toNat ∧ rest = buf.drop n

theorem memoryBoundary_of_rest (h : (onMessage ser buf).rest =
    some (buf.drop (4 + (headLen buf).toNat))) : MemoryBoundary ser buf := by
  unfold MemoryBoundary
  cases hr : onMessage ser buf with
  | underflow => simp [hr, ReadResult.rest] at h
  | ok m rest => simpa [hr, ReadResult.rest] using h
  | fail rest => exact ⟨_, Nat.le_refl _, by simpa [hr, ReadResult.rest] using h⟩
  | threw e rest => exact ⟨_, Nat.le_refl _, by simpa [hr, ReadResult.rest] using h⟩

/-- The boundary is kept exactly when the length field covers the two header
fields behind it. -/
theorem onMessage_boundary (ser : Serializer B) (buf : Bytes) (h : canProcessed buf = true) :
    MemoryBoundary ser buf ↔ 8 ≤ headLen buf := by
  obtain ⟨_, hnonneg, hframe⟩ := canProcessed_eq_true h
  constructor
  · intro hb
    by_contra hshort
    by_cases hlen : buf.length < 12
    · simp only [MemoryBoundary, onMessage_short h hlen] at hb
    · rcases @onMessage_header B ser _ h (by omega) with ⟨hfail, _⟩ | ⟨_, _, _⟩
      · simp only [MemoryBoundary, hfail] at hb
        obtain ⟨n, hn, hdrop⟩ := hb
        have hlens := congrArg List.length hdrop
        rw [List.length_drop, List.length_drop] at hlens
        omega
      · omega
  · intro h8
    rcases @onMessage_header B ser _ h (by omega) with ⟨hfail, _⟩ | ⟨_, _, hrest⟩
    · simp only [MemoryBoundary, hfail]
      exact ⟨12, by omega, rfl⟩
    · exact memoryBoundary_of_rest hrest

/-- The shortest frame that keeps it, in front of one more byte. -/
theorem onMessage_boundary_eight :
    MemoryBoundary MuduoServer.plainSerializer
      (putInt32 8 ++ (putInt32 0 ++ (putInt32 0 ++ [7]))) :=
  (onMessage_boundary _ _ (by decide)).mpr (by decide)

/-- Four zero bytes are a frame `canProcessed` lets through; there is no type
field to read. -/
theorem onMessage_overread : ¬ ∀ (ser : Serializer Bytes) (buf : Bytes),
    canProcessed buf = true → MemoryBoundary ser buf := by
  intro h
  have hb := h MuduoServer.plainSerializer (putInt32 0) (by decide)
  have hshort : onMessage MuduoServer.plainSerializer (putInt32 0) = .underflow :=
    onMessage_short (by decide) (by decide)
  simp only [MemoryBoundary, hshort] at hb

end LVProtocol

end LyqtRpc
