import LyqtRpc.Lib.ByteText
import Mathlib.Algebra.Order.Field.Rat
import Mathlib.Data.Int.Log
import Mathlib.Data.List.DropRight
import Mathlib.Data.Rat.Floor

/-!
Numbers as decimal texts: `%.Pg`, which rounds to `P` significant digits and drops the
zeros behind them, and a reader of decimal words. What is read of a text that was written
is the rounded number.
-/

set_option autoImplicit false

namespace LyqtRpc.Decimal

/-- To the nearest integer, and from half way to the even one. -/
def roundEven (q : ℚ) : Int :=
  if q - ⌊q⌋ < 1 / 2 ∨ (q - ⌊q⌋ = 1 / 2 ∧ ⌊q⌋ % 2 = 0) then ⌊q⌋ else ⌊q⌋ + 1

/-- The `p` digits of a positive number, as one number, and the exponent of the first. -/
def digits (p : Nat) (q : ℚ) : Nat × Int :=
  let x := Int.log 10 q
  let n := (roundEven (q / 10 ^ (x - (p - 1 : Nat)))).toNat
  if n = 10 ^ p then (10 ^ (p - 1), x + 1) else (n, x)

def roundPositive (p : Nat) (q : ℚ) : ℚ :=
  (digits p q).1 * 10 ^ ((digits p q).2 - (p - 1 : Nat))

/-- The number with `p` significant digits that is nearest. -/
def round (p : Nat) (q : ℚ) : ℚ :=
  if q = 0 then 0 else if q < 0 then -roundPositive p (-q) else roundPositive p q

def stripZeros (s : Bytes) : Bytes := s.rdropWhile fun b => b = 48

/-- The fraction without the zeros at its end, and no point without a fraction. -/
def point (whole frac : Bytes) : Bytes :=
  if stripZeros frac = [] then whole else whole ++ 46 :: stripZeros frac

/-- Two digits at least. -/
def exponentText (x : Int) : Bytes :=
  101 :: (if x < 0 then 45 else 43) ::
    if x.natAbs < 10 then 48 :: natText x.natAbs else natText x.natAbs

def positiveText (p : Nat) (q : ℚ) : Bytes :=
  let (n, x) := digits p q
  if x < -4 ∨ p ≤ x then point ((natText n).take 1) ((natText n).drop 1) ++ exponentText x
  else if x < 0 then point [48] (List.replicate (-x - 1).toNat 48 ++ natText n)
  else point ((natText n).take (x + 1).toNat) ((natText n).drop (x + 1).toNat)

/-- `%.Pg` -/
def generalText (p : Nat) (q : ℚ) : Bytes :=
  if q = 0 then [48] else if q < 0 then 45 :: positiveText p (-q) else positiveText p q

/-! The reader. -/

def readDigits (s : Bytes) : Option Nat :=
  if s ≠ [] ∧ s.all isDigit then some (digitsValue s) else none

def readExponent : Bytes → Option Int
  | [] => some 0
  | b :: s =>
    if b = 101 ∨ b = 69 then
      match s with
      | 45 :: s => (readDigits s).map fun n => -Int.ofNat n
      | 43 :: s => (readDigits s).map Int.ofNat
      | s => (readDigits s).map Int.ofNat
    else none

/-- The digits behind a point, and what follows. -/
def readFraction : Bytes → Bytes × Bytes
  | 46 :: s => (s.takeWhile isDigit, s.dropWhile isDigit)
  | s => ([], s)

def readUnsigned (s : Bytes) : Option ℚ :=
  let whole := s.takeWhile isDigit
  let (frac, rest) := readFraction (s.dropWhile isDigit)
  if whole ++ frac = [] then none
  else (readExponent rest).map fun x : Int =>
    (digitsValue (whole ++ frac) : ℚ) * 10 ^ (x - frac.length)

def readDecimal : Bytes → Option ℚ
  | 45 :: s => (readUnsigned s).map fun q => -q
  | 43 :: s => readUnsigned s
  | s => readUnsigned s

/-! Digits. -/

theorem digitsValue_append (a b : Bytes) :
    digitsValue (a ++ b) = digitsValue a * 10 ^ b.length + digitsValue b := by
  have hfold : ∀ (b : Bytes) (n : Nat), b.foldl (fun n b => 10 * n + (b.toNat - 48)) n =
      n * 10 ^ b.length + digitsValue b := by
    intro b
    induction b with
    | nil => intro n; simp [digitsValue]
    | cons x b ih =>
      intro n
      have hvalue : digitsValue (x :: b) = (10 * 0 + (x.toNat - 48)) * 10 ^ b.length +
          digitsValue b := ih _
      rw [List.foldl_cons, ih, hvalue, List.length_cons]
      ring
  rw [digitsValue, List.foldl_append, hfold]
  rfl

theorem digitsValue_zeros (n : Nat) : digitsValue (List.replicate n 48) = 0 := by
  induction n with
  | zero => rfl
  | succ n ih =>
    rw [List.replicate_succ', digitsValue_append, ih]
    rfl

/-- The zeros at the end are those that were stripped. -/
theorem stripZeros_append (s : Bytes) : ∃ n, stripZeros s ++ List.replicate n 48 = s := by
  refine ⟨(s.rtakeWhile fun b => b = 48).length, ?_⟩
  have hzeros : s.rtakeWhile (fun b => b = 48) =
      List.replicate (s.rtakeWhile fun b => b = 48).length 48 := by
    refine List.eq_replicate_iff.mpr ⟨rfl, fun b hb => ?_⟩
    have hzero := List.mem_rtakeWhile_imp hb
    exact of_decide_eq_true hzero
  rw [← hzeros]
  exact List.rdropWhile_append_rtakeWhile

/-- Zeros at the end shift the digits. -/
theorem digitsValue_stripZeros (whole frac : Bytes) (x : Int) :
    (digitsValue (whole ++ stripZeros frac) : ℚ) * 10 ^ (x - (stripZeros frac).length) =
      digitsValue (whole ++ frac) * 10 ^ (x - frac.length) := by
  obtain ⟨n, hsplit⟩ := stripZeros_append frac
  generalize stripZeros frac = kept at hsplit ⊢
  have hpow : (10 : ℚ) ^ (x - kept.length) =
      10 ^ n * 10 ^ (x - (kept ++ List.replicate n 48).length) := by
    rw [List.length_append, List.length_replicate, ← zpow_natCast, ← zpow_add₀ (by norm_num)]
    congr 1
    push_cast
    omega
  rw [← hsplit, ← List.append_assoc, digitsValue_append _ (List.replicate n 48),
    digitsValue_zeros, List.length_replicate, hpow]
  push_cast
  ring

/-! Reading what was written. -/

/-- The rest of a number behind its digits. -/
def IsTail (s : Bytes) : Prop := s = [] ∨ ∃ t, s = 101 :: t

theorem IsTail.takeWhile {s : Bytes} (h : IsTail s) : s.takeWhile isDigit = [] := by
  rcases h with rfl | ⟨t, rfl⟩
  · rfl
  · exact List.takeWhile_cons_of_neg (by decide)

theorem IsTail.dropWhile {s : Bytes} (h : IsTail s) : s.dropWhile isDigit = s := by
  rcases h with rfl | ⟨t, rfl⟩
  · rfl
  · exact List.dropWhile_cons_of_neg (by decide)

theorem IsTail.readFraction {s : Bytes} (h : IsTail s) : readFraction s = ([], s) := by
  rcases h with rfl | ⟨t, rfl⟩ <;> rfl

/-- The digits in front of what has none. -/
theorem takeWhile_digits {s t : Bytes} (hs : ∀ b ∈ s, isDigit b = true)
    (ht : t.takeWhile isDigit = []) : (s ++ t).takeWhile isDigit = s := by
  rw [List.takeWhile_append_of_pos hs, ht, List.append_nil]

theorem readUnsigned_point {whole frac tail : Bytes} {x : Int} (hne : whole ≠ [])
    (hwhole : ∀ b ∈ whole, isDigit b = true) (hfrac : ∀ b ∈ frac, isDigit b = true)
    (htail : IsTail tail) (hx : readExponent tail = some x) :
    readUnsigned (point whole frac ++ tail) =
      some ((digitsValue (whole ++ frac) : ℚ) * 10 ^ (x - frac.length)) := by
  have hkept : ∀ b ∈ stripZeros frac, isDigit b = true := by
    intro b hb
    exact hfrac b ((List.rdropWhile_prefix _ _).subset hb)
  rw [← digitsValue_stripZeros, point]
  split
  · rename_i hnone
    rw [readUnsigned, takeWhile_digits hwhole htail.takeWhile, List.dropWhile_append_of_pos hwhole,
      htail.dropWhile, htail.readFraction, hnone]
    simp only [List.append_nil, if_neg hne, hx, Option.map_some]
  · have hpoint : (46 :: (stripZeros frac ++ tail)).takeWhile isDigit = [] := rfl
    have hdrop : (46 :: (stripZeros frac ++ tail)).dropWhile isDigit =
        46 :: (stripZeros frac ++ tail) := rfl
    rw [List.append_assoc, List.cons_append, readUnsigned, takeWhile_digits hwhole hpoint,
      List.dropWhile_append_of_pos hwhole, hdrop, readFraction,
      takeWhile_digits hkept htail.takeWhile, List.dropWhile_append_of_pos hkept, htail.dropWhile]
    simp only [List.append_eq_nil_iff, hne, false_and, if_false, hx, Option.map_some]

theorem readDigits_natText (n : Nat) : readDigits (natText n) = some n := by
  have hall : (natText n).all isDigit = true :=
    List.all_eq_true.mpr fun _ hb => isDigit_of_mem_natText hb
  rw [readDigits, if_pos ⟨natText_ne_nil n, hall⟩, digitsValue_natText]

theorem readExponent_exponentText (x : Int) : readExponent (exponentText x) = some x := by
  have hdigits : readDigits (if x.natAbs < 10 then 48 :: natText x.natAbs else natText x.natAbs) =
      some x.natAbs := by
    split
    · have hall : (48 :: natText x.natAbs).all isDigit = true :=
        List.all_eq_true.mpr fun b hb => (List.mem_cons.mp hb).elim (fun h => h ▸ rfl)
          isDigit_of_mem_natText
      rw [readDigits, if_pos ⟨List.cons_ne_nil _ _, hall⟩]
      exact congrArg some (digitsValue_natText x.natAbs)
    · exact readDigits_natText _
  rw [exponentText]
  by_cases hneg : x < 0
  · rw [if_pos hneg, readExponent, if_pos (.inl rfl)]
    simp only [hdigits, Option.map_some, Int.ofNat_eq_natCast, Option.some.injEq]
    omega
  · rw [if_neg hneg, readExponent, if_pos (.inl rfl)]
    simp only [hdigits, Option.map_some, Int.ofNat_eq_natCast, Option.some.injEq]
    omega

/-! The digits of a number. -/

theorem le_roundEven {n : Int} {q : ℚ} (h : n ≤ q) : n ≤ roundEven q := by
  have hfloor := Int.le_floor.mpr h
  unfold roundEven
  split <;> omega

theorem roundEven_le {n : Int} {q : ℚ} (h : q ≤ n) : roundEven q ≤ n := by
  have hfloor : ⌊q⌋ ≤ n := by
    have hle := Int.floor_le_floor h
    rwa [Int.floor_intCast] at hle
  unfold roundEven
  split
  · exact hfloor
  · rename_i hup
    have hne : ⌊q⌋ ≠ n := by
      intro heq
      have hq : q ≤ ⌊q⌋ := by rwa [heq]
      exact hup (.inl (by linarith))
    omega

variable {p : Nat} {q : ℚ}

/-- There are `p` digits. -/
theorem digits_bounds (hp : 0 < p) (hq : 0 < q) :
    10 ^ (p - 1) ≤ (digits p q).1 ∧ (digits p q).1 < 10 ^ p := by
  have hten : (10 : ℚ) ≠ 0 := by norm_num
  have hlow : ((10 ^ (p - 1) : Nat) : Int) ≤
      roundEven (q / 10 ^ (Int.log 10 q - (p - 1 : Nat))) := by
    refine le_roundEven ((le_div_iff₀ (zpow_pos (by norm_num) _)).mpr ?_)
    have hlog := Int.zpow_log_le_self (b := 10) (by norm_num) hq
    push_cast at hlog ⊢
    rwa [← zpow_natCast, ← zpow_add₀ hten, add_sub_cancel]
  have hhigh : roundEven (q / 10 ^ (Int.log 10 q - (p - 1 : Nat))) ≤ ((10 ^ p : Nat) : Int) := by
    refine roundEven_le ((div_le_iff₀ (zpow_pos (by norm_num) _)).mpr ?_)
    have hlog := (Int.lt_zpow_succ_log_self (b := 10) (by norm_num) q).le
    have hexponent : (p : Int) + (Int.log 10 q - (p - 1 : Nat)) = Int.log 10 q + 1 := by omega
    push_cast at hlog ⊢
    rwa [← zpow_natCast, ← zpow_add₀ hten, hexponent]
  have hpow : 10 ^ (p - 1) < 10 ^ p := Nat.pow_lt_pow_right (by decide) (by omega)
  unfold digits
  dsimp only
  generalize roundEven (q / 10 ^ (Int.log 10 q - (p - 1 : Nat))) = n at hlow hhigh ⊢
  generalize 10 ^ p = high at hhigh hpow ⊢
  generalize 10 ^ (p - 1) = low at hlow hpow ⊢
  split
  · exact ⟨le_rfl, hpow⟩
  · rename_i hne
    dsimp only
    omega

theorem length_digits (hp : 0 < p) (hq : 0 < q) : (natText (digits p q).1).length = p := by
  obtain ⟨hlow, hhigh⟩ := digits_bounds hp hq
  have hle := (length_natText_le_iff hp).mpr hhigh
  by_contra hne
  by_cases hone : p = 1
  · have hpos := List.length_pos_of_ne_nil (natText_ne_nil (digits p q).1)
    omega
  · have hlt := (length_natText_le_iff (by omega : 0 < p - 1)).mp
      (show (natText (digits p q).1).length ≤ p - 1 by omega)
    omega

/-- The written form of a number is read as the number that it was rounded to. -/
theorem readUnsigned_positiveText (hp : 0 < p) (hq : 0 < q) :
    readUnsigned (positiveText p q) = some (roundPositive p q) := by
  have hlength := length_digits hp hq
  have hvalue := digitsValue_natText (digits p q).1
  have hall : ∀ b ∈ natText (digits p q).1, isDigit b = true := fun _ => isDigit_of_mem_natText
  unfold positiveText roundPositive
  generalize digits p q = d at hlength hvalue hall ⊢
  obtain ⟨n, x⟩ := d
  dsimp only at hlength hvalue hall ⊢
  -- the digits are cut at `k`, and what follows says where the point would be
  have hcut : ∀ (k : Nat) (tail : Bytes) (y : Int), 0 < k → IsTail tail →
      readExponent tail = some y → y - ((p - k : Nat) : Int) = x - (p - 1 : Nat) →
      readUnsigned (point ((natText n).take k) ((natText n).drop k) ++ tail) =
        some ((n : ℚ) * 10 ^ (x - ((p - 1 : Nat) : Int))) := by
    intro k tail y hk htail hy hexponent
    have hne : (natText n).take k ≠ [] := by
      intro hnil
      have hzero := congrArg List.length hnil
      rw [List.length_take, hlength, List.length_nil] at hzero
      omega
    rw [readUnsigned_point hne (fun b hb => hall b (List.mem_of_mem_take hb))
      (fun b hb => hall b (List.mem_of_mem_drop hb)) htail hy, List.take_append_drop, hvalue,
      List.length_drop, hlength, hexponent]
  split
  · exact hcut 1 _ x (by decide) (.inr ⟨_, rfl⟩) (readExponent_exponentText x) rfl
  · rename_i hfixed
    split
    · rename_i hneg
      have hzeros : ∀ b ∈ List.replicate (-x - 1).toNat 48 ++ natText n, isDigit b = true := by
        intro b hb
        rcases List.mem_append.mp hb with hzero | hdigit
        · rw [List.eq_of_mem_replicate hzero]
          rfl
        · exact hall b hdigit
      have hread : readUnsigned (point [48] (List.replicate (-x - 1).toNat 48 ++ natText n) ++ []) =
          _ := readUnsigned_point (List.cons_ne_nil _ _) (List.forall_mem_singleton.mpr rfl) hzeros
            (.inl rfl) rfl
      have hdigits : digitsValue ([48] ++ (List.replicate (-x - 1).toNat 48 ++ natText n)) = n := by
        rw [← List.append_assoc, List.singleton_append, ← List.replicate_succ, digitsValue_append,
          digitsValue_zeros, hvalue, Nat.zero_mul, Nat.zero_add]
      have hexponent : (0 : Int) - ((List.replicate (-x - 1).toNat 48 ++ natText n).length : Int) =
          x - (p - 1 : Nat) := by
        rw [List.length_append, List.length_replicate, hlength]
        omega
      rwa [List.append_nil, hdigits, hexponent] at hread
    · have hread := hcut (x + 1).toNat [] 0 (by omega) (.inl rfl) rfl (by omega)
      rwa [List.append_nil] at hread

/-! The bytes of a number. -/

theorem point_head {whole : Bytes} {b : UInt8} {t : Bytes} (h : whole = b :: t) (frac : Bytes) :
    ∃ s, point whole frac = b :: s := by
  unfold point
  split
  · exact ⟨t, h⟩
  · exact ⟨_, congrArg (· ++ 46 :: stripZeros frac) h⟩

theorem positiveText_head (p : Nat) (q : ℚ) :
    ∃ b s, positiveText p q = b :: s ∧ isDigit b = true := by
  obtain ⟨b, rest, htext, hb⟩ := natText_head (digits p q).1
  have htake : ∀ k, 0 < k → ((natText (digits p q).1).take k) = b :: rest.take (k - 1) := by
    intro k hk
    rw [htext, List.take_cons hk]
  unfold positiveText
  dsimp only
  split
  · obtain ⟨s, hs⟩ := point_head (htake 1 (by decide)) ((natText (digits p q).1).drop 1)
    exact ⟨b, s ++ exponentText (digits p q).2, by rw [hs, List.cons_append], hb⟩
  · split
    · obtain ⟨s, hs⟩ := point_head (b := 48) (t := []) rfl
        (List.replicate (-(digits p q).2 - 1).toNat 48 ++ natText (digits p q).1)
      exact ⟨48, s, hs, rfl⟩
    · rename_i hneg
      obtain ⟨s, hs⟩ := point_head (htake ((digits p q).2 + 1).toNat (by omega))
        ((natText (digits p q).1).drop ((digits p q).2 + 1).toNat)
      exact ⟨b, s, hs, hb⟩

/-- Digits, signs, a point and an `e`. -/
def isNumberByte (b : UInt8) : Bool := isDigit b || b = 43 || b = 45 || b = 46 || b = 101

theorem isNumberByte_of_isDigit {b : UInt8} (h : isDigit b = true) : isNumberByte b = true := by
  simp [isNumberByte, h]

theorem isNumberByte_natText {n : Nat} {b : UInt8} (h : b ∈ natText n) : isNumberByte b = true :=
  isNumberByte_of_isDigit (isDigit_of_mem_natText h)

theorem isNumberByte_point {whole frac : Bytes} (hwhole : ∀ b ∈ whole, isNumberByte b = true)
    (hfrac : ∀ b ∈ frac, isNumberByte b = true) {b : UInt8} (h : b ∈ point whole frac) :
    isNumberByte b = true := by
  unfold point at h
  split at h
  · exact hwhole b h
  · rcases List.mem_append.mp h with h | h
    · exact hwhole b h
    · rcases List.mem_cons.mp h with rfl | h
      · rfl
      · exact hfrac b ((List.rdropWhile_prefix _ _).subset h)

theorem isNumberByte_exponentText {x : Int} {b : UInt8} (h : b ∈ exponentText x) :
    isNumberByte b = true := by
  unfold exponentText at h
  rcases List.mem_cons.mp h with rfl | h
  · rfl
  · rcases List.mem_cons.mp h with rfl | h
    · split <;> rfl
    · split at h
      · rcases List.mem_cons.mp h with rfl | h
        · rfl
        · exact isNumberByte_natText h
      · exact isNumberByte_natText h

theorem isNumberByte_positiveText {b : UInt8} (h : b ∈ positiveText p q) :
    isNumberByte b = true := by
  have htake : ∀ k, ∀ b ∈ (natText (digits p q).1).take k, isNumberByte b = true :=
    fun k b hb => isNumberByte_natText (List.mem_of_mem_take hb)
  have hdrop : ∀ k, ∀ b ∈ (natText (digits p q).1).drop k, isNumberByte b = true :=
    fun k b hb => isNumberByte_natText (List.mem_of_mem_drop hb)
  unfold positiveText at h
  dsimp only at h
  split at h
  · rcases List.mem_append.mp h with h | h
    · exact isNumberByte_point (htake 1) (hdrop 1) h
    · exact isNumberByte_exponentText h
  · split at h
    · refine isNumberByte_point (List.forall_mem_singleton.mpr rfl) (fun b hb => ?_) h
      rcases List.mem_append.mp hb with hb | hb
      · rw [List.eq_of_mem_replicate hb]
        rfl
      · exact isNumberByte_natText hb
    · exact isNumberByte_point (htake _) (hdrop _) h

theorem isNumberByte_generalText {b : UInt8} (h : b ∈ generalText p q) : isNumberByte b = true := by
  unfold generalText at h
  split at h
  · rw [List.mem_singleton.mp h]
    rfl
  · split at h
    · rcases List.mem_cons.mp h with rfl | h
      · rfl
      · exact isNumberByte_positiveText h
    · exact isNumberByte_positiveText h

theorem generalText_ne_nil (p : Nat) (q : ℚ) : generalText p q ≠ [] := by
  unfold generalText
  split
  · exact List.cons_ne_nil _ _
  · split
    · exact List.cons_ne_nil _ _
    · obtain ⟨b, s, htext, -⟩ := positiveText_head p q
      rw [htext]
      exact List.cons_ne_nil _ _

theorem readDecimal_of_digit {b : UInt8} {s : Bytes} (hb : isDigit b = true) :
    readDecimal (b :: s) = readUnsigned (b :: s) := by
  unfold readDecimal
  split
  · rename_i heq
    obtain ⟨rfl, -⟩ := List.cons.inj heq
    cases hb
  · rename_i heq
    obtain ⟨rfl, -⟩ := List.cons.inj heq
    cases hb
  · rfl

/-- What is read of a written number is the number that it was rounded to. -/
theorem readDecimal_generalText (hp : 0 < p) (q : ℚ) :
    readDecimal (generalText p q) = some (round p q) := by
  unfold generalText round
  split
  · decide +kernel
  · rename_i hzero
    split
    · rename_i hneg
      have hread := readUnsigned_positiveText hp (neg_pos.mpr hneg)
      rw [readDecimal, hread]
      rfl
    · rename_i hneg
      have hread := readUnsigned_positiveText hp (lt_of_le_of_ne (not_lt.mp hneg) (Ne.symm hzero))
      obtain ⟨b, s, htext, hb⟩ := positiveText_head p q
      rw [← hread, htext]
      exact readDecimal_of_digit hb

/-- An integer is read as it is. -/
theorem readDecimal_integerText (i : Int) : readDecimal (integerText i) = some (i : ℚ) := by
  have hread : readUnsigned (natText i.natAbs) = some (i.natAbs : ℚ) := by
    have hpoint : readUnsigned (point (natText i.natAbs) [] ++ []) = _ :=
      readUnsigned_point (natText_ne_nil i.natAbs) (fun _ => isDigit_of_mem_natText) nofun
        (.inl rfl) rfl
    have hwhole : point (natText i.natAbs) [] = natText i.natAbs := if_pos rfl
    rw [hwhole, List.append_nil, digitsValue_natText] at hpoint
    rw [hpoint]
    simp
  rw [integerText_eq]
  split
  · rename_i hneg
    rw [readDecimal, hread]
    have hcast : ((i.natAbs : Int) : ℚ) = -(i : ℚ) := by
      rw [← Int.cast_neg]
      congr 1
      omega
    rw [Option.map_some, ← Int.cast_natCast, hcast, neg_neg]
  · rename_i hneg
    obtain ⟨b, rest, htext, hb⟩ := natText_head i.natAbs
    have hcast : ((i.natAbs : Int) : ℚ) = i := by
      congr 1
      omega
    rw [← hcast, Int.cast_natCast, ← hread, htext]
    exact readDecimal_of_digit hb

end LyqtRpc.Decimal
