import LyqtRpc.Lib.CppException
import Mathlib.Data.List.TakeWhile

/-!
`std::string` on bytes: `find`, `rfind`, `substr`, the decimal text of an `int`
and `std::stoi`, and the interval of the strings with a given prefix.
-/

set_option autoImplicit false

namespace LyqtRpc

/-- The first position at which `pat` stands. -/
def find (s pat : Bytes) : Option Nat :=
  if pat.isPrefixOf s then some 0
  else
    match s with
    | [] => none
    | _ :: s => (find s pat).map (· + 1)

/-- The last position of a byte. -/
def rfind (s : Bytes) (c : UInt8) : Option Nat :=
  match s with
  | [] => none
  | b :: s =>
    match rfind s c with
    | some i => some (i + 1)
    | none => if b = c then some 0 else none

/-- What a C string function sees of a `std::string`. -/
def cString (s : Bytes) : Bytes := s.takeWhile (· ≠ 0)

def substr (s : Bytes) (pos count : Nat) : Bytes := (s.drop pos).take count

def isSpace (b : UInt8) : Bool := b = 32 || (9 ≤ b && b ≤ 13)

def isDigit (b : UInt8) : Bool := 48 ≤ b && b ≤ 57

def digitsValue (ds : Bytes) : Nat := ds.foldl (fun n b => 10 * n + (b.toNat - 48)) 0

/-- `std::stoi`: what follows the digits is not looked at. -/
def stoi (s : Bytes) : Except CppException Int32 :=
  let s := s.dropWhile isSpace
  let (negative, s) :=
    match s with
    | 45 :: rest => (true, rest)
    | 43 :: rest => (false, rest)
    | s => (false, s)
  let digits := s.takeWhile isDigit
  let value : Int := if negative then -(digitsValue digits : Int) else digitsValue digits
  if digits = [] then .error (.other (str "invalid_argument"))
  else if -2 ^ 31 ≤ value ∧ value < 2 ^ 31 then .ok (Int32.ofInt value)
  else .error (.other (str "out_of_range"))

/-- `std::to_string` of an `int` -/
def intText (i : Int32) : Bytes := str (toString i.toInt)

theorem rfind_of_not_mem {s : Bytes} {c : UInt8} (h : c ∉ s) : rfind s c = none := by
  induction s with
  | nil => rfl
  | cons b s ih =>
      obtain ⟨hb, hs⟩ := not_or.mp (fun hmem => h (List.mem_cons.mpr hmem))
      simp only [rfind, ih hs, if_neg (Ne.symm hb)]

theorem rfind_append {c : UInt8} (a : Bytes) {b : Bytes} (h : c ∉ b) :
    rfind (a ++ c :: b) c = some a.length := by
  induction a with
  | nil => simp [rfind, rfind_of_not_mem h]
  | cons x a ih => simp [rfind, ih]

/-- Where a byte stands once, there is one way to split there. -/
theorem split_unique {c : UInt8} {a b x y : Bytes} (ha : c ∉ a) (hb : c ∉ b)
    (h : x ++ c :: y = a ++ c :: b) : x = a ∧ y = b := by
  rcases List.append_eq_append_iff.mp h with ⟨d, ha', hd⟩ | ⟨d, hx, hd⟩
  · cases d with
    | nil =>
        rw [List.append_nil] at ha'
        exact ⟨ha'.symm, (List.cons.inj hd).2⟩
    | cons e d =>
        obtain ⟨rfl, _⟩ := List.cons.inj hd
        exact absurd (ha' ▸ List.mem_append_right x (List.mem_cons_self ..)) ha
  · cases d with
    | nil =>
        rw [List.append_nil] at hx
        exact ⟨hx, (List.cons.inj hd).2.symm⟩
    | cons e d =>
        obtain ⟨_, hd⟩ := List.cons.inj hd
        exact absurd (hd ▸ List.mem_append_right d (List.mem_cons_self ..)) hb

/-- Where a byte stands for the first time, there is one way to split. -/
theorem split_first {c : UInt8} {a b x y : Bytes} (ha : c ∉ a) (hx : c ∉ x)
    (h : a ++ c :: b = x ++ c :: y) : a = x ∧ b = y := by
  induction a generalizing x with
  | nil =>
      cases x with
      | nil => exact ⟨rfl, (List.cons.inj h).2⟩
      | cons d x => exact absurd ((List.cons.inj h).1 ▸ List.mem_cons_self ..) hx
  | cons d a ih =>
      obtain ⟨hd, ha⟩ := not_or.mp (fun hmem => ha (List.mem_cons.mpr hmem))
      cases x with
      | nil => exact absurd (List.cons.inj h).1.symm hd
      | cons e x =>
          obtain ⟨rfl, htail⟩ := List.cons.inj h
          obtain ⟨rfl, rfl⟩ := ih ha (fun hmem => hx (List.mem_cons_of_mem _ hmem)) htail
          exact ⟨rfl, rfl⟩

section Decimal

/-- The bytes of the decimal digits of a number. -/
def natText (n : Nat) : Bytes := str (toString n)

theorem natText_eq (n : Nat) :
    natText n = (Nat.toDigits 10 n).map (fun c => UInt8.ofNat c.toNat) := by
  simp [natText, str]

theorem toNat_of_isDigit {c : Char} (h : c.isDigit = true) :
    (UInt8.ofNat c.toNat).toNat = c.toNat ∧ 48 ≤ c.toNat ∧ c.toNat ≤ 57 := by
  have hrange : 48 ≤ c.toNat ∧ c.toNat ≤ 57 := by
    simp only [Char.isDigit, Bool.and_eq_true, decide_eq_true_eq] at h
    exact h
  refine ⟨?_, hrange⟩
  simp only [UInt8.toNat_ofNat']
  omega

theorem isDigit_of_mem_natText {n : Nat} {b : UInt8} (h : b ∈ natText n) : isDigit b = true := by
  rw [natText_eq] at h
  obtain ⟨c, hc, rfl⟩ := List.mem_map.mp h
  obtain ⟨hbyte, hlo, hhi⟩ :=
    toNat_of_isDigit (Nat.isDigit_of_mem_toDigits (by decide) (by decide) hc)
  simp only [isDigit, Bool.and_eq_true, decide_eq_true_eq, UInt8.le_iff_toNat_le, hbyte]
  exact ⟨hlo, hhi⟩

theorem digitsValue_natText (n : Nat) : digitsValue (natText n) = n := by
  have hfold : ∀ (cs : List Char) (init : Nat), (∀ c ∈ cs, c.isDigit = true) →
      (cs.map (fun c => UInt8.ofNat c.toNat)).foldl (fun n b => 10 * n + (b.toNat - 48)) init =
        Nat.ofDigitChars 10 cs init := by
    intro cs
    induction cs with
    | nil => intro init _; rfl
    | cons c cs ih =>
        intro init h
        obtain ⟨hbyte, _⟩ := toNat_of_isDigit (h c (List.mem_cons_self ..))
        rw [List.map_cons, List.foldl_cons, ih _ (fun d hd => h d (List.mem_cons_of_mem _ hd)),
          hbyte, Nat.ofDigitChars_cons]
        rfl
  rw [digitsValue, natText_eq,
    hfold _ 0 (fun c hc => Nat.isDigit_of_mem_toDigits (by decide) (by decide) hc),
    Nat.ofDigitChars_ten_toDigits]

theorem natText_ne_nil (n : Nat) : natText n ≠ [] := by
  rw [natText_eq]
  simp [Nat.toDigits_ne_nil]

theorem length_natText_le_iff {n k : Nat} (hk : 0 < k) : (natText n).length ≤ k ↔ n < 10 ^ k := by
  rw [natText_eq, List.length_map]
  exact Nat.length_toDigits_le_iff (by decide) hk

theorem natText_mul_ten {n : Nat} (hn : 0 < n) : natText (10 * n) = natText n ++ [48] := by
  have hdigits : Nat.toDigits 10 (10 * n) = Nat.toDigits 10 n ++ ['0'] := by
    rw [Nat.toDigits_of_base_le (by decide) (by omega)]
    simp
  rw [natText_eq, hdigits, natText_eq, List.map_append]
  rfl

theorem length_natText_pow (k : Nat) : (natText (10 ^ k)).length = k + 1 := by
  induction k with
  | zero => rfl
  | succ k ih =>
      rw [Nat.pow_succ', natText_mul_ten (Nat.pow_pos (by decide)), List.length_append, ih]
      rfl

/-- The decimal text of a number with its sign. -/
def integerText (i : Int) : Bytes := str (toString i)

theorem integerText_eq (i : Int) :
    integerText i = if i < 0 then 45 :: natText i.natAbs else natText i.natAbs := by
  unfold integerText
  cases i with
  | ofNat n =>
      rw [if_neg (by simp)]
      rfl
  | negSucc n =>
      rw [if_pos (by omega)]
      have htext : toString (Int.negSucc n) = "-" ++ toString (n + 1) := rfl
      rw [htext]
      simp [str, natText]

theorem intText_eq (i : Int32) :
    intText i = if i.toInt < 0 then 45 :: natText i.toInt.natAbs else natText i.toInt.natAbs :=
  integerText_eq i.toInt

theorem mem_integerText {i : Int} {b : UInt8} (h : b ∈ integerText i) :
    b = 45 ∨ isDigit b = true := by
  rw [integerText_eq] at h
  split at h
  · exact (List.mem_cons.mp h).imp_right isDigit_of_mem_natText
  · exact .inr (isDigit_of_mem_natText h)

theorem mem_intText {i : Int32} {b : UInt8} (h : b ∈ intText i) : b = 45 ∨ isDigit b = true :=
  mem_integerText h

theorem takeWhile_natText (n : Nat) : (natText n).takeWhile isDigit = natText n :=
  List.takeWhile_eq_self_iff.mpr (fun _ hb => isDigit_of_mem_natText hb)

theorem natText_head (n : Nat) :
    ∃ b rest, natText n = b :: rest ∧ isDigit b = true := by
  cases h : natText n with
  | nil => exact absurd h (natText_ne_nil n)
  | cons b rest =>
      exact ⟨b, rest, rfl, isDigit_of_mem_natText (h ▸ List.mem_cons_self ..)⟩

theorem not_isSpace_of_isDigit {b : UInt8} (h : isDigit b = true) : isSpace b = false := by
  simp only [isDigit, Bool.and_eq_true, decide_eq_true_eq, UInt8.le_iff_toNat_le] at h
  obtain ⟨hlo, hhi⟩ := h
  have hlo : 48 ≤ b.toNat := hlo
  have hne : b ≠ 32 := by
    rintro rfl
    exact absurd hlo (by decide)
  have hgt : ¬ b.toNat ≤ 13 := by omega
  simp only [isSpace, Bool.or_eq_false_iff, decide_eq_false_iff_not, Bool.and_eq_false_iff,
    UInt8.le_iff_toNat_le]
  exact ⟨hne, .inr hgt⟩

/-- Digits without a sign, behind spaces or not. -/
theorem stoi_of_digit {s t : Bytes} {b : UInt8} (hs : s.dropWhile isSpace = b :: t)
    (hb : isDigit b = true) (hvalue : digitsValue ((b :: t).takeWhile isDigit) < 2 ^ 31) :
    stoi s = .ok (Int32.ofInt (digitsValue ((b :: t).takeWhile isDigit))) := by
  have hsign : b ≠ 45 ∧ b ≠ 43 := by
    constructor <;>
      · rintro rfl
        revert hb
        decide
  have hne : (b :: t).takeWhile isDigit ≠ [] := by
    simp [hb]
  simp only [stoi, hs]
  split
  · rename_i heq
    exact absurd (List.cons.inj heq).1 hsign.1
  · rename_i heq
    exact absurd (List.cons.inj heq).1 hsign.2
  · simp only [Bool.false_eq_true, if_false]
    rw [if_neg hne, if_pos ⟨by omega, by omega⟩]

theorem stoi_intText (i : Int32) : stoi (intText i) = .ok i := by
  have hlo := i.le_toInt
  have hhi := i.toInt_lt
  obtain ⟨b, rest, htext, hdigit⟩ := natText_head i.toInt.natAbs
  have hdigits : (b :: rest).takeWhile isDigit = b :: rest := by
    rw [← htext]
    exact takeWhile_natText _
  have hvalue : digitsValue (b :: rest) = i.toInt.natAbs := by
    rw [← htext]
    exact digitsValue_natText _
  rw [intText_eq, htext]
  by_cases hneg : i.toInt < 0
  · have hspace : (45 :: b :: rest).dropWhile isSpace = 45 :: b :: rest := rfl
    have habs : -(i.toInt.natAbs : Int) = i.toInt := by omega
    rw [if_pos hneg]
    simp only [stoi, hspace, hdigits, hvalue, if_true, habs]
    rw [if_neg (List.cons_ne_nil _ _), if_pos ⟨hlo, hhi⟩, Int32.ofInt_toInt]
  · have hspace : (b :: rest).dropWhile isSpace = b :: rest :=
      List.dropWhile_cons_of_neg (by simp [not_isSpace_of_isDigit hdigit])
    have habs : (i.toInt.natAbs : Int) = i.toInt := by omega
    rw [if_neg hneg, stoi_of_digit hspace hdigit (by rw [hdigits, hvalue]; omega), hdigits, hvalue,
      habs, Int32.ofInt_toInt]

theorem intText_injective : Function.Injective intText := by
  intro i j h
  have hi := stoi_intText i
  rw [h, stoi_intText j] at hi
  exact (Except.ok.inj hi).symm

theorem not_mem_intText {i : Int32} {b : UInt8} (hminus : b ≠ 45) (hdigit : isDigit b = false) :
    b ∉ intText i := by
  intro h
  rcases mem_intText h with heq | hd
  · exact hminus heq
  · rw [hdigit] at hd
    cases hd

end Decimal

section PrefixRange

/-- The last byte below `0xff` raised by one, and what follows dropped. -/
def rangeEndList : Bytes → Option Bytes
  | [] => none
  | b :: s =>
    match rangeEndList s with
    | some e => some (b :: e)
    | none => if b < 255 then some [b + 1] else none

/-- The end of the range of the strings with this prefix. -/
def rangeEnd (s : Bytes) : Bytes := (rangeEndList s).getD s

/-- A key in the half-open range, in byte order. -/
def inRange (start stop key : Bytes) : Bool := !(key < start) && key < stop

theorem rangeEnd_append (s : Bytes) {b : UInt8} (h : b < 255) :
    rangeEnd (s ++ [b]) = s ++ [b + 1] := by
  have hlist : rangeEndList (s ++ [b]) = some (s ++ [b + 1]) := by
    induction s with
    | nil => simp [rangeEndList, h]
    | cons x s ih => simp [rangeEndList, ih]
  rw [rangeEnd, hlist]
  rfl

theorem byte_between {b k : UInt8} (h : b < 255) : (¬ k < b ∧ k < b + 1) ↔ k = b := by
  have hsucc : (b + 1).toNat = b.toNat + 1 := by
    rw [UInt8.lt_iff_toNat_lt] at h
    have h : b.toNat < 255 := h
    rw [UInt8.toNat_add]
    show (b.toNat + 1) % 256 = b.toNat + 1
    omega
  rw [UInt8.lt_iff_toNat_lt, UInt8.lt_iff_toNat_lt, hsucc, ← UInt8.toNat_inj]
  omega

theorem rangeEndList_concat (s : Bytes) (b : UInt8) :
    rangeEndList (s ++ [b]) = if b < 255 then some (s ++ [b + 1]) else rangeEndList s := by
  induction s with
  | nil => rfl
  | cons x s ih =>
    rw [List.cons_append, rangeEndList, ih]
    by_cases hb : b < 255
    · simp [hb]
    · simp only [hb, if_false]
      rfl

/-- Bytes `0xff` at the end of a text are passed over. -/
theorem rangeEndList_append_full (s : Bytes) {f : Bytes} (hf : ∀ c ∈ f, c = 255) :
    rangeEndList (s ++ f) = rangeEndList s := by
  induction f generalizing s with
  | nil => rw [List.append_nil]
  | cons c f ih =>
    have hc : c = 255 := hf c (by simp)
    have hrest := ih (s ++ [c]) fun d hd => hf d (by simp [hd])
    rwa [List.append_assoc, rangeEndList_concat, if_neg (by simp [hc])] at hrest

/-- A text is full of `0xff`, or there is a last byte below it. -/
theorem eq_raised_or_full (s : Bytes) :
    (∀ c ∈ s, c = 255) ∨ ∃ u b f, s = u ++ b :: f ∧ b < 255 ∧ ∀ c ∈ f, c = 255 := by
  induction s with
  | nil => exact .inl nofun
  | cons x s ih =>
    rcases ih with hfull | ⟨u, b, f, rfl, hb, hf⟩
    · by_cases hx : x = 255
      · refine .inl fun c hc => ?_
        rcases List.mem_cons.mp hc with rfl | hc
        · exact hx
        · exact hfull c hc
      · refine .inr ⟨[], x, s, rfl, ?_, hfull⟩
        have hlt := x.toNat_lt
        rw [← UInt8.toNat_inj] at hx
        rw [UInt8.lt_iff_toNat_lt]
        simp at hx ⊢
        omega
    · exact .inr ⟨x :: u, b, f, rfl, hb, hf⟩

/-- Nothing is below a text full of `0xff` but what has it not as a prefix. -/
theorem not_lt_full {f : Bytes} (hf : ∀ c ∈ f, c = 255) (key : Bytes) :
    ¬ key < f ↔ f <+: key := by
  induction f generalizing key with
  | nil => simp
  | cons c f ih =>
    have hc : c = 255 := hf c (by simp)
    have hrest := ih fun d hd => hf d (by simp [hd])
    cases key with
    | nil => simp
    | cons k key =>
      have hk : k < 255 ↔ k ≠ 255 := by
        have hlt := k.toNat_lt
        rw [UInt8.lt_iff_toNat_lt, ne_eq, ← UInt8.toNat_inj]
        simp
        omega
      rw [List.cons_lt_cons_iff, List.cons_prefix_cons, ← hrest, hc, hk]
      by_cases h : k = 255 <;> simp [h, eq_comm]

/-- The same for a text with bytes `0xff` at its end. -/
theorem inRange_raised (u : Bytes) {b : UInt8} (hb : b < 255) {f : Bytes}
    (hf : ∀ c ∈ f, c = 255) (key : Bytes) :
    inRange (u ++ b :: f) (u ++ [b + 1]) key = true ↔ u ++ b :: f <+: key := by
  induction u generalizing key with
  | nil =>
    cases key with
    | nil => simp [inRange]
    | cons k key =>
      have hbetween := byte_between hb (k := k)
      simp only [List.nil_append, inRange, Bool.and_eq_true, Bool.not_eq_true',
        decide_eq_false_iff_not, decide_eq_true_eq, List.cons_lt_cons_iff, List.not_lt_nil,
        and_false, or_false, List.cons_prefix_cons, ← not_lt_full hf]
      grind
  | cons x u ih =>
    cases key with
    | nil => simp [inRange]
    | cons k key =>
      have hrest := ih key
      have hirr := UInt8.lt_irrefl x
      have hasymm : x < k → ¬ k < x := fun h h' => hirr (UInt8.lt_trans h h')
      have htotal : x < k ∨ x = k ∨ k < x := by
        simp only [UInt8.lt_iff_toNat_lt, ← UInt8.toNat_inj]
        omega
      simp only [inRange, Bool.and_eq_true, Bool.not_eq_true', decide_eq_false_iff_not,
        decide_eq_true_eq, List.cons_append, List.cons_lt_cons_iff, List.cons_prefix_cons]
        at hrest ⊢
      grind

/-- The range from a prefix to its end holds the strings with the prefix. -/
theorem inRange_rangeEnd (s : Bytes) {b : UInt8} (h : b < 255) (key : Bytes) :
    inRange (s ++ [b]) (rangeEnd (s ++ [b])) key = (s ++ [b]).isPrefixOf key := by
  rw [rangeEnd_append s h, Bool.eq_iff_iff, List.isPrefixOf_iff_prefix]
  exact inRange_raised s h (f := []) (by simp) key

end PrefixRange

end LyqtRpc
