import LyqtRpc.Lib.DecimalText
import LyqtRpc.Lib.JsonValue
import Mathlib.Algebra.Order.Group.Unbundled.Abs
import Mathlib.Data.List.DropRight

/-!
The Prometheus text format 0.0.4. Its lines are HELP and TYPE lines of a name, samples,
and what a reader passes over. A sample line has a name, labels whose values stand
in quotes with `\\`, `\"` and `\n` for what may not stand there, a value, and perhaps a
timestamp. Values are read as `double`s. Which raw texts read back as they are.
-/

set_option autoImplicit false

namespace LyqtRpc.Exposition

def isBlank (b : UInt8) : Bool := b = 32 || b = 9

def isLetter (b : UInt8) : Bool := (65 ≤ b && b ≤ 90) || (97 ≤ b && b ≤ 122)

/-- The first byte of a label name. -/
def isLabelStart (b : UInt8) : Bool := isLetter b || b = 95

def isLabelByte (b : UInt8) : Bool := isLabelStart b || isDigit b

/-- Metric names have colons, too. -/
def isMetricStart (b : UInt8) : Bool := isLabelStart b || b = 58

def isMetricByte (b : UInt8) : Bool := isMetricStart b || isDigit b

/-- Tokens are separated by blanks. -/
def skipBlanks (s : Bytes) : Bytes := s.dropWhile isBlank

def readName (start inside : UInt8 → Bool) (s : Bytes) : Option (Bytes × Bytes) :=
  match s with
  | [] => none
  | b :: s => if start b then some (b :: s.takeWhile inside, s.dropWhile inside) else none

/-- What an escape stands for. -/
def unescape (c : UInt8) : Option UInt8 :=
  if c = 92 || c = 34 then some c else if c = 110 then some 10 else none

/-- A label value up to its quote, and what follows. -/
def readQuoted : Bytes → Option (Bytes × Bytes)
  | [] => none
  | 34 :: s => some ([], s)
  | [92] => none
  | 92 :: c :: s => (unescape c).bind fun b => (readQuoted s).map fun r => (b :: r.1, r.2)
  | b :: s => (readQuoted s).map fun r => (b :: r.1, r.2)

def readLabel (s : Bytes) : Option ((Bytes × Bytes) × Bytes) := do
  let (name, s) ← readName isLabelStart isLabelByte (skipBlanks s)
  match skipBlanks s with
  | 61 :: s =>
    match skipBlanks s with
    | 34 :: s => do
      let (value, s) ← readQuoted s
      some ((name, value), s)
    | _ => none
  | _ => none

/-- At most `n` labels up to the closing brace; a comma may stand behind the last. -/
def readLabels : Nat → Bytes → Option (List (Bytes × Bytes) × Bytes)
  | 0, _ => none
  | n + 1, s =>
    match skipBlanks s with
    | 125 :: s => some ([], s)
    | s => do
      let (label, s) ← readLabel s
      match skipBlanks s with
      | 125 :: s => some ([label], s)
      | 44 :: s => do
        let (labels, s) ← readLabels n s
        some (label :: labels, s)
      | _ => none

structure Sample where
  name : Bytes
  labels : List (Bytes × Bytes)
  value : Bytes
  timestamp : Option Bytes := none
  deriving DecidableEq

/-- The value, the timestamp, and nothing else. -/
def readValue (name : Bytes) (labels : List (Bytes × Bytes)) (s : Bytes) : Option Sample :=
  match (skipBlanks s).takeWhile (!isBlank ·),
    skipBlanks ((skipBlanks s).dropWhile (!isBlank ·)) with
  | [], _ => none
  | value, [] => some { name, labels, value }
  | value, s =>
    match skipBlanks (s.dropWhile (!isBlank ·)) with
    | [] => some { name, labels, value, timestamp := some (s.takeWhile (!isBlank ·)) }
    | _ => none

def readTokens (line : Bytes) : Option Sample := do
  let (name, s) ← readName isMetricStart isMetricByte (skipBlanks line)
  match skipBlanks s with
  | 123 :: s => do
    let (labels, s) ← readLabels (s.length + 1) s
    readValue name labels s
  | s => readValue name [] s

/-- A line ends at its line feed. -/
def readSample (line : Bytes) : Option Sample := if 10 ∈ line then none else readTokens line

/-- A line, by the name that it is about. -/
inductive TextLine where
  | help (name : Bytes)
  | type (name kind : Bytes)
  | sample (name : Bytes)
  | other
  deriving DecidableEq

/-- The next token, and what follows. -/
def readToken (s : Bytes) : Bytes × Bytes :=
  ((skipBlanks s).takeWhile (!isBlank ·), (skipBlanks s).dropWhile (!isBlank ·))

/-- Behind the sign of a comment: HELP or TYPE, a name, and for TYPE the kind. -/
def readComment (s : Bytes) : TextLine :=
  let (word, s) := readToken s
  let (name, s) := readToken s
  if name = [] then .other
  else if word = str "HELP" then .help name
  else if word = str "TYPE" then .type name (readToken s).1
  else .other

/-- A sample is one of its name, whether or not the rest can be read. -/
def readLine (line : Bytes) : TextLine :=
  match skipBlanks line with
  | 35 :: s => readComment s
  | s =>
    match readName isMetricStart isMetricByte s with
    | some (name, _) => .sample name
    | none => .other

/-- The nearest `double`, from half way the one with an even last bit; beyond the largest
there is none. -/
def nearestDouble (q : ℚ) : Option ℚ :=
  let ulp : ℚ := 2 ^ (max (Int.log 2 |q|) (-1022) - 52)
  let d := Decimal.roundEven (q / ulp) * ulp
  if |d| < 2 ^ 1024 then some d else none

def toLower (b : UInt8) : UInt8 := if 65 ≤ b ∧ b ≤ 90 then b + 32 else b

/-- A NaN has no sign. -/
def readSpecial (word : Bytes) : Option Double :=
  let word := word.map toLower
  if word = str "nan" then some (.nan false)
  else if word ∈ [str "inf", str "+inf", str "infinity", str "+infinity"] then
    some (.infinite false)
  else if word ∈ [str "-inf", str "-infinity"] then some (.infinite true)
  else none

/-- What a word is as a value. -/
def readFloat (word : Bytes) : Option Double :=
  match Decimal.readDecimal word with
  | some q => (nearestDouble q).map .finite
  | none => readSpecial word

/-! What stands as it is. -/

structure IsName (start inside : UInt8 → Bool) (s : Bytes) : Prop where
  ne_nil : s ≠ []
  head : ∀ b t, s = b :: t → start b = true
  all : ∀ b ∈ s.tail, inside b = true

abbrev IsMetricName (s : Bytes) : Prop := IsName isMetricStart isMetricByte s

abbrev IsLabelName (s : Bytes) : Prop := IsName isLabelStart isLabelByte s

/-- Nothing in the text needs an escape. -/
def Verbatim (s : Bytes) : Prop := ∀ b ∈ s, b ≠ 34 ∧ b ≠ 92 ∧ b ≠ 10

/-- A word among blanks, which does not open labels. -/
structure IsWord (s : Bytes) : Prop where
  ne_nil : s ≠ []
  all : ∀ b ∈ s, isBlank b = false ∧ b ≠ 10 ∧ b ≠ 123

/-- A label with its value as it is. -/
def labelText (label : Bytes × Bytes) : Bytes := label.1 ++ 61 :: 34 :: (label.2 ++ [34])

/-- A sample line with its label values as they are. -/
def sampleText (name : Bytes) (labels : List (Bytes × Bytes)) (value : Bytes) : Bytes :=
  match labels with
  | [] => name ++ 32 :: value
  | labels => name ++ 123 :: ([44].intercalate (labels.map labelText) ++ 125 :: 32 :: value)

/-! Names and quoted texts. -/

theorem not_isBlank {p : UInt8 → Bool} (hspace : p 32 = false) (htab : p 9 = false) {b : UInt8}
    (h : p b = true) : isBlank b = false := by
  have hne : b ≠ 32 ∧ b ≠ 9 := by
    constructor <;>
      · rintro rfl
        simp_all
  simp [isBlank, hne]

theorem skipBlanks_cons {b : UInt8} (s : Bytes) (h : isBlank b = false) :
    skipBlanks (b :: s) = b :: s :=
  List.dropWhile_cons_of_neg (by simp [h])

theorem isWord_of_number {s : Bytes} (hne : s ≠ [])
    (h : ∀ b ∈ s, Decimal.isNumberByte b = true) : IsWord s := by
  refine ⟨hne, fun b hb => ⟨not_isBlank rfl rfl (h b hb), ?_, ?_⟩⟩ <;>
    · rintro rfl
      have hbyte := h _ hb
      revert hbyte
      decide

theorem isWord_of_all {s : Bytes} (hne : s ≠ [])
    (h : (s.all fun b => !isBlank b && b ≠ 10 && b ≠ 123) = true) : IsWord s := by
  refine ⟨hne, fun b hb => ?_⟩
  have hb := List.all_eq_true.mp h b hb
  simp only [Bool.and_eq_true, Bool.not_eq_true', decide_eq_true_eq] at hb
  exact ⟨hb.1.1, hb.1.2, hb.2⟩

theorem isWord_integerText (i : Int) : IsWord (integerText i) := by
  refine isWord_of_number ?_ fun b hb => ?_
  · rw [integerText_eq]
    split
    · exact List.cons_ne_nil _ _
    · exact natText_ne_nil _
  · rcases mem_integerText hb with rfl | hb
    · rfl
    · exact Decimal.isNumberByte_of_isDigit hb

theorem verbatim_of_all {s : Bytes} (h : (s.all fun b => b ≠ 34 && b ≠ 92 && b ≠ 10) = true) :
    Verbatim s := by
  intro b hb
  have hb := List.all_eq_true.mp h b hb
  simp only [Bool.and_eq_true, decide_eq_true_eq] at hb
  exact ⟨hb.1.1, hb.1.2, hb.2⟩

theorem verbatim_natText (n : Nat) : Verbatim (natText n) := by
  intro b hb
  have hdigit := isDigit_of_mem_natText hb
  refine ⟨?_, ?_, ?_⟩ <;>
    · rintro rfl
      revert hdigit
      decide

section Name
variable {start inside : UInt8 → Bool}

theorem readName_append {name : Bytes} (h : IsName start inside name) {c : UInt8}
    (hc : inside c = false) (s : Bytes) :
    readName start inside (name ++ c :: s) = some (name, c :: s) := by
  cases name with
  | nil => exact absurd rfl h.ne_nil
  | cons b t =>
    have hall : ∀ d ∈ t, inside d = true := h.all
    have htake : (t ++ c :: s).takeWhile inside = t := by
      rw [List.takeWhile_append_of_pos hall, List.takeWhile_cons_of_neg (by simp [hc]),
        List.append_nil]
    have hdrop : (t ++ c :: s).dropWhile inside = c :: s := by
      rw [List.dropWhile_append_of_pos hall, List.dropWhile_cons_of_neg (by simp [hc])]
    rw [List.cons_append, readName, if_pos (h.head b t rfl), htake, hdrop]

theorem isName_of_all {name : Bytes} (hhead : name.head?.any start = true)
    (htail : name.tail.all inside = true) : IsName start inside name := by
  cases name with
  | nil => cases hhead
  | cons b t =>
    refine ⟨List.cons_ne_nil _ _, fun c u heq => ?_, List.all_eq_true.mp htail⟩
    obtain ⟨rfl, -⟩ := List.cons.inj heq
    exact hhead

theorem readName_sound {s name rest : Bytes} (h : readName start inside s = some (name, rest)) :
    IsName start inside name := by
  cases s with
  | nil => cases h
  | cons b s =>
    rw [readName] at h
    split at h
    · rename_i hb
      cases h
      refine ⟨List.cons_ne_nil _ _, ?_, fun c hc => List.mem_takeWhile_imp hc⟩
      intro c t heq
      obtain ⟨rfl, -⟩ := List.cons.inj heq
      exact hb
    · cases h

theorem readName_iff (hblank : ∀ b, start b = true → isBlank b = false) {c : UInt8}
    (hc : inside c = false) (name s rest : Bytes) :
    readName start inside (skipBlanks (name ++ c :: s)) = some (name, rest) ↔
      IsName start inside name ∧ rest = c :: s := by
  have hread : IsName start inside name →
      readName start inside (skipBlanks (name ++ c :: s)) = some (name, c :: s) := by
    intro hname
    have hskip : skipBlanks (name ++ c :: s) = name ++ c :: s := by
      cases name with
      | nil => exact absurd rfl hname.ne_nil
      | cons b t => exact skipBlanks_cons _ (hblank b (hname.head b t rfl))
    rw [hskip, readName_append hname hc]
  constructor
  · intro h
    have hname := readName_sound h
    rw [hread hname, Option.some.injEq, Prod.mk.injEq] at h
    exact ⟨hname, h.2.symm⟩
  · rintro ⟨hname, rfl⟩
    exact hread hname

end Name

theorem readQuoted_quote (s : Bytes) : readQuoted (34 :: s) = some ([], s) := by
  rw [readQuoted]

theorem readQuoted_escape (c : UInt8) (s : Bytes) : readQuoted (92 :: c :: s) =
    (unescape c).bind fun b => (readQuoted s).map fun r => (b :: r.1, r.2) := by
  rw [readQuoted]

theorem readQuoted_byte {b : UInt8} (hquote : b ≠ 34) (hslash : b ≠ 92) (s : Bytes) :
    readQuoted (b :: s) = (readQuoted s).map fun r => (b :: r.1, r.2) := by
  rw [readQuoted]
  · exact hquote
  · exact fun h => absurd h hslash
  · exact fun _ _ h => absurd h hslash

/-- Nothing that ends the value or starts an escape. -/
def Unescaped (s : Bytes) : Prop := ∀ b ∈ s, b ≠ 34 ∧ b ≠ 92

theorem readQuoted_append {value : Bytes} (h : Unescaped value) (s : Bytes) :
    readQuoted (value ++ 34 :: s) = some (value, s) := by
  induction value with
  | nil => exact readQuoted_quote s
  | cons b value ih =>
    obtain ⟨hb, hvalue⟩ := List.forall_mem_cons.mp h
    rw [List.cons_append, readQuoted_byte hb.1 hb.2, ih hvalue]
    rfl

/-- A slash that is read comes of two. -/
theorem readQuoted_slash {s out rest : Bytes} (h : readQuoted s = some (92 :: out, rest)) :
    ∃ t, s = 92 :: 92 :: t ∧ readQuoted t = some (out, rest) := by
  cases s with
  | nil => cases h
  | cons b s =>
    by_cases hslash : b = 92
    · subst hslash
      cases s with
      | nil => cases h
      | cons c s =>
        rw [readQuoted_escape] at h
        obtain ⟨b, hb, h⟩ := Option.bind_eq_some_iff.mp h
        obtain ⟨⟨out', rest'⟩, hr, heq⟩ := Option.map_eq_some_iff.mp h
        cases heq
        have hc : c = 92 := by
          unfold unescape at hb
          split at hb
          · exact Option.some.inj hb
          · split at hb <;> cases hb
        exact ⟨s, by rw [hc], hr⟩
    · by_cases hquote : b = 34
      · rw [hquote, readQuoted_quote] at h
        cases h
      · rw [readQuoted_byte hquote hslash] at h
        obtain ⟨r, -, heq⟩ := Option.map_eq_some_iff.mp h
        exact absurd (List.cons.inj (Prod.mk.inj heq).1).1 hslash

/-- What is read of a text is never the text with slashes in front. -/
theorem readQuoted_slashes (value : Bytes) (n : Nat) {s rest : Bytes} :
    readQuoted (value ++ 34 :: s) ≠ some (List.replicate (n + 1) 92 ++ value, rest) := by
  induction hlen : value.length using Nat.strongRecOn generalizing value n with
  | ind len ih =>
    intro h
    rw [List.replicate_succ, List.cons_append] at h
    obtain ⟨t, ht, hread⟩ := readQuoted_slash h
    match value with
    | [] => cases ht
    | [b] => cases ht
    | b :: c :: value =>
      simp only [List.cons_append, List.cons.injEq] at ht
      obtain ⟨rfl, rfl, rfl⟩ := ht
      have hslashes : List.replicate n 92 ++ 92 :: 92 :: value =
          List.replicate (n + 1 + 1) 92 ++ value := by
        simp [List.replicate_succ']
      rw [hslashes] at hread
      exact ih value.length (by simp only [← hlen, List.length_cons]; omega) value (n + 1) rfl hread

/-- A value that reads back as it is has nothing to escape. -/
theorem unescaped_of_readQuoted {value s rest : Bytes}
    (h : readQuoted (value ++ 34 :: s) = some (value, rest)) : Unescaped value := by
  induction value with
  | nil => exact nofun
  | cons b value ih =>
    by_cases hslash : b = 92
    · subst hslash
      obtain ⟨t, ht, hread⟩ := readQuoted_slash h
      cases value with
      | nil => cases ht
      | cons c value =>
        simp only [List.cons_append, List.cons.injEq, true_and] at ht
        obtain ⟨rfl, rfl⟩ := ht
        exact absurd hread (readQuoted_slashes value 0)
    · by_cases hquote : b = 34
      · rw [hquote, List.cons_append, readQuoted_quote] at h
        cases h
      · rw [List.cons_append, readQuoted_byte hquote hslash] at h
        obtain ⟨⟨out, rest'⟩, hr, heq⟩ := Option.map_eq_some_iff.mp h
        cases heq
        exact List.forall_mem_cons.mpr ⟨⟨hquote, hslash⟩, ih hr⟩

/-! Labels. -/

/-- What makes a label read back as it stands. -/
def LabelStands (label : Bytes × Bytes) : Prop := IsLabelName label.1 ∧ Unescaped label.2

theorem readLabel_iff (label : Bytes × Bytes) (s s' : Bytes) :
    readLabel (labelText label ++ s) = some (label, s') ↔ LabelStands label ∧ s' = s := by
  obtain ⟨name, value⟩ := label
  have htext : labelText (name, value) ++ s = name ++ 61 :: (34 :: (value ++ 34 :: s)) := by
    simp [labelText]
  have hname := readName_iff (fun _ => not_isBlank (by decide : isLabelStart 32 = false) rfl)
    (by decide : isLabelByte 61 = false) name (34 :: (value ++ 34 :: s))
  rw [htext]
  constructor
  · intro h
    obtain ⟨⟨name', s₁⟩, hread, h⟩ := Option.bind_eq_some_iff.mp h
    dsimp only at h
    split at h
    · rename_i s₂ heq
      split at h
      · rename_i s₃ hquote
        obtain ⟨⟨value', s₄⟩, hvalue, h⟩ := Option.bind_eq_some_iff.mp h
        cases h
        obtain ⟨hvalid, rfl⟩ := (hname _).mp hread
        rw [skipBlanks_cons _ (by decide)] at heq
        cases heq
        rw [skipBlanks_cons _ (by decide)] at hquote
        cases hquote
        have hplain := unescaped_of_readQuoted hvalue
        rw [readQuoted_append hplain] at hvalue
        cases hvalue
        exact ⟨⟨hvalid, hplain⟩, rfl⟩
      · cases h
    · cases h
  · rintro ⟨⟨hvalid, hplain⟩, rfl⟩
    simp only [readLabel, (hname _).mpr ⟨hvalid, rfl⟩, Option.bind_eq_bind, Option.bind_some,
      skipBlanks_cons _ (by decide : isBlank 61 = false),
      skipBlanks_cons _ (by decide : isBlank 34 = false), readQuoted_append hplain]

theorem readLabel_skipBlanks (s : Bytes) : readLabel (skipBlanks s) = readLabel s := by
  have hskip : skipBlanks (skipBlanks s) = skipBlanks s := List.dropWhile_idempotent _ _
  rw [readLabel, hskip]
  rfl

/-- The first label, and what its separator says of the others. -/
theorem readLabels_cons {n : Nat} {s s' : Bytes} {label : Bytes × Bytes}
    {labels : List (Bytes × Bytes)} :
    readLabels (n + 1) s = some (label :: labels, s') ↔
      ∃ s₁, readLabel s = some (label, s₁) ∧
        ((labels = [] ∧ skipBlanks s₁ = 125 :: s') ∨
          ∃ s₂, skipBlanks s₁ = 44 :: s₂ ∧ readLabels n s₂ = some (labels, s')) := by
  rw [← readLabel_skipBlanks, readLabels]
  constructor
  · intro h
    split at h
    · cases h
    · obtain ⟨⟨label', s₁⟩, hlabel, h⟩ := Option.bind_eq_some_iff.mp h
      dsimp only at h
      split at h
      · rename_i s₂ hclose
        cases h
        exact ⟨s₁, hlabel, .inl ⟨rfl, hclose⟩⟩
      · rename_i s₂ hcomma
        obtain ⟨⟨labels', s₃⟩, hrest, h⟩ := Option.bind_eq_some_iff.mp h
        cases h
        exact ⟨s₁, hlabel, .inr ⟨s₂, hcomma, hrest⟩⟩
      · cases h
  · rintro ⟨s₁, hlabel, hrest⟩
    split
    · rename_i s₂ hclose
      rw [hclose] at hlabel
      cases hlabel
    · simp only [hlabel, Option.bind_eq_bind, Option.bind_some]
      rcases hrest with ⟨rfl, hclose⟩ | ⟨s₂, hcomma, hrest⟩
      · simp only [hclose]
      · simp only [hcomma, hrest, Option.bind_some]

/-- The labels behind the opening brace. -/
theorem readLabels_iff {labels : List (Bytes × Bytes)} (hne : labels ≠ []) {n : Nat}
    (hn : labels.length ≤ n) (s s' : Bytes) :
    readLabels n ([44].intercalate (labels.map labelText) ++ 125 :: s) = some (labels, s') ↔
      (∀ label ∈ labels, LabelStands label) ∧ s' = s := by
  induction labels generalizing n with
  | nil => exact absurd rfl hne
  | cons label labels ih =>
    obtain ⟨n, rfl⟩ := Nat.exists_eq_add_one_of_ne_zero (Nat.ne_zero_of_lt hn)
    cases labels with
    | nil =>
      rw [readLabels_cons, List.map_cons, List.map_nil, List.intercalate_singleton]
      simp only [readLabel_iff]
      constructor
      · rintro ⟨s₁, ⟨hlabel, rfl⟩, ⟨-, hclose⟩ | ⟨s₂, hcomma, -⟩⟩
        · rw [skipBlanks_cons _ (by decide)] at hclose
          cases hclose
          exact ⟨by simpa using hlabel, rfl⟩
        · rw [skipBlanks_cons _ (by decide)] at hcomma
          cases hcomma
      · rintro ⟨hlabels, rfl⟩
        exact ⟨_, ⟨hlabels label (List.mem_cons_self ..), rfl⟩,
          .inl ⟨trivial, skipBlanks_cons _ (by decide)⟩⟩
    | cons next labels =>
      have hrest := ih (List.cons_ne_nil _ _) (Nat.le_of_succ_le_succ hn)
      rw [readLabels_cons, List.map_cons, List.map_cons, List.intercalate_cons_cons,
        ← List.map_cons, List.append_assoc, List.append_assoc, List.singleton_append]
      simp only [readLabel_iff]
      constructor
      · rintro ⟨s₁, ⟨hlabel, rfl⟩, ⟨hnil, -⟩ | ⟨s₂, hcomma, hread⟩⟩
        · cases hnil
        · rw [skipBlanks_cons _ (by decide)] at hcomma
          cases hcomma
          obtain ⟨hlabels, rfl⟩ := hrest.mp hread
          exact ⟨List.forall_mem_cons.mpr ⟨hlabel, hlabels⟩, rfl⟩
      · rintro ⟨hlabels, rfl⟩
        obtain ⟨hlabel, hlabels⟩ := List.forall_mem_cons.mp hlabels
        exact ⟨_, ⟨hlabel, rfl⟩, .inr ⟨_, skipBlanks_cons _ (by decide),
          hrest.mpr ⟨hlabels, rfl⟩⟩⟩

/-! Lines. -/

/-- What stands in a joined text, the separator apart. -/
theorem mem_intercalate {b c : UInt8} (hne : b ≠ c) {texts : List Bytes} :
    b ∈ [c].intercalate texts ↔ ∃ text ∈ texts, b ∈ text := by
  induction texts with
  | nil => simp [List.intercalate_nil]
  | cons text texts ih =>
    cases texts with
    | nil => simp [List.intercalate_singleton]
    | cons next texts =>
      rw [List.intercalate_cons_cons, List.mem_append, List.mem_append, ih,
        List.exists_mem_cons_iff, List.mem_singleton, or_assoc]
      simp [hne]

/-- A joined text with one more at its end. -/
theorem intercalate_concat {c : UInt8} {texts : List Bytes} (h : texts ≠ []) (text : Bytes) :
    [c].intercalate (texts ++ [text]) = [c].intercalate texts ++ c :: text := by
  induction texts with
  | nil => exact absurd rfl h
  | cons first texts ih =>
    by_cases htexts : texts = []
    · simp [htexts]
    · rw [List.cons_append, List.intercalate_cons_of_ne_nil (by simp), ih htexts,
        List.intercalate_cons_of_ne_nil htexts]
      simp

theorem length_le_intercalate (labels : List (Bytes × Bytes)) :
    labels.length ≤ ([44].intercalate (labels.map labelText)).length := by
  induction labels with
  | nil => exact Nat.zero_le _
  | cons label labels ih =>
    cases labels with
    | nil =>
      simp only [List.map_cons, List.map_nil, List.intercalate_singleton, labelText,
        List.length_append, List.length_cons]
      omega
    | cons next labels =>
      simp only [List.map_cons, List.intercalate_cons_cons, List.length_append,
        List.length_cons] at ih ⊢
      omega

theorem IsWord.skipBlanks {value : Bytes} (h : IsWord value) :
    Exposition.skipBlanks (32 :: value) = value ∧ Exposition.skipBlanks value = value := by
  cases value with
  | nil => exact absurd rfl h.ne_nil
  | cons b value =>
    have hb := skipBlanks_cons value (h.all b (List.mem_cons_self ..)).1
    exact ⟨hb, hb⟩

theorem readValue_word {value s : Bytes} (h : IsWord value) (hs : skipBlanks s = value)
    (name : Bytes) (labels : List (Bytes × Bytes)) :
    readValue name labels s = some { name, labels, value } := by
  have hword : ∀ b ∈ value, (!isBlank b) = true := fun b hb => by simp [(h.all b hb).1]
  have htake : value.takeWhile (!isBlank ·) = value := List.takeWhile_eq_self_iff.mpr hword
  have hdrop : value.dropWhile (!isBlank ·) = [] := List.dropWhile_eq_nil_iff.mpr hword
  rw [readValue, hs, htake, hdrop]
  cases value with
  | nil => exact absurd rfl h.ne_nil
  | cons b value => rfl

theorem readValue_sound {name s : Bytes} {labels : List (Bytes × Bytes)} {sample : Sample}
    (h : readValue name labels s = some sample) :
    sample.name = name ∧ sample.labels = labels := by
  rw [readValue] at h
  split at h
  · cases h
  · cases h
    exact ⟨rfl, rfl⟩
  · split at h
    · cases h
      exact ⟨rfl, rfl⟩
    · cases h

theorem IsName.notMem {start inside : UInt8 → Bool} {name : Bytes}
    (h : IsName start inside name) {c : UInt8} (hstart : start c = false)
    (hinside : inside c = false) : c ∉ name := by
  cases name with
  | nil => exact List.not_mem_nil
  | cons b t =>
    intro hmem
    rcases List.mem_cons.mp hmem with rfl | hmem
    · rw [h.head c t rfl] at hstart
      cases hstart
    · have hc := h.all c hmem
      rw [hinside] at hc
      cases hc

theorem lineFeed_mem_sampleText {name value : Bytes} {labels : List (Bytes × Bytes)} :
    10 ∈ sampleText name labels value ↔
      10 ∈ name ∨ (∃ label ∈ labels, 10 ∈ label.1 ∨ 10 ∈ label.2) ∨ 10 ∈ value := by
  have hlabels : 10 ∈ [44].intercalate (labels.map labelText) ↔
      ∃ label ∈ labels, 10 ∈ label.1 ∨ 10 ∈ label.2 := by
    rw [mem_intercalate (by decide)]
    simp [labelText]
  rw [← hlabels]
  cases labels with
  | nil => simp [sampleText, List.intercalate_nil]
  | cons label labels => simp [sampleText]

section Tokens
variable {name value : Bytes} {labels : List (Bytes × Bytes)} {sample : Sample}

theorem readMetricName_iff {c : UInt8} (hc : isMetricByte c = false) (s rest : Bytes) :
    readName isMetricStart isMetricByte (skipBlanks (name ++ c :: s)) = some (name, rest) ↔
      IsMetricName name ∧ rest = c :: s :=
  readName_iff (fun _ => not_isBlank (by decide : isMetricStart 32 = false) rfl) hc name s rest

/-- The name of a line is the first thing that is read. -/
theorem readTokens_name {line : Bytes} (h : readTokens line = some sample) :
    ∃ rest, readName isMetricStart isMetricByte (skipBlanks line) = some (sample.name, rest) := by
  obtain ⟨⟨name, s⟩, hname, h⟩ := Option.bind_eq_some_iff.mp h
  dsimp only at h
  split at h
  · obtain ⟨⟨labels, s'⟩, -, h⟩ := Option.bind_eq_some_iff.mp h
    exact ⟨s, (readValue_sound h).1 ▸ hname⟩
  · exact ⟨s, (readValue_sound h).1 ▸ hname⟩

/-- Without labels. -/
theorem readTokens_nil (hvalue : IsWord value) :
    (readTokens (name ++ 32 :: value) = some sample ∧ sample.name = name ∧
        sample.labels = []) ↔
      IsMetricName name ∧ sample = { name, labels := [], value } := by
  have hblank : isMetricByte 32 = false := by decide
  have hread : IsMetricName name →
      readTokens (name ++ 32 :: value) = some { name, labels := [], value } := by
    intro hname
    rw [readTokens, (readMetricName_iff hblank value _).mpr ⟨hname, rfl⟩, Option.bind_eq_bind,
      Option.bind_some]
    dsimp only
    rw [hvalue.skipBlanks.1]
    split
    · exact absurd rfl (hvalue.all 123 (List.mem_cons_self ..)).2.2
    · exact readValue_word hvalue hvalue.skipBlanks.2 _ _
  constructor
  · rintro ⟨h, hsame, -⟩
    obtain ⟨rest, hfirst⟩ := readTokens_name h
    rw [hsame] at hfirst
    have hname := ((readMetricName_iff hblank _ _).mp hfirst).1
    rw [hread hname] at h
    exact ⟨hname, (Option.some.inj h).symm⟩
  · rintro ⟨hname, rfl⟩
    exact ⟨hread hname, rfl, rfl⟩

theorem readTokens_labels (hvalue : IsWord value) (hne : labels ≠ []) :
    (readTokens (name ++ 123 :: ([44].intercalate (labels.map labelText) ++ 125 :: 32 :: value)) =
        some sample ∧ sample.name = name ∧ sample.labels = labels) ↔
      (IsMetricName name ∧ ∀ label ∈ labels, LabelStands label) ∧
        sample = { name, labels, value } := by
  have hbrace : isMetricByte 123 = false := by decide
  have hopen := skipBlanks_cons ([44].intercalate (labels.map labelText) ++ 125 :: 32 :: value)
    (by decide : isBlank 123 = false)
  have hlen : labels.length ≤
      ([44].intercalate (labels.map labelText) ++ 125 :: 32 :: value).length + 1 := by
    have hle := length_le_intercalate labels
    rw [List.length_append]
    omega
  have hstart : IsMetricName name →
      readTokens (name ++ 123 ::
        ([44].intercalate (labels.map labelText) ++ 125 :: 32 :: value)) =
      (readLabels (([44].intercalate (labels.map labelText) ++ 125 :: 32 :: value).length + 1)
        ([44].intercalate (labels.map labelText) ++ 125 :: 32 :: value)).bind
        fun r => readValue name r.1 r.2 := by
    intro hname
    rw [readTokens, (readMetricName_iff hbrace _ _).mpr ⟨hname, rfl⟩, Option.bind_eq_bind,
      Option.bind_some]
    dsimp only
    rw [hopen]
    rfl
  constructor
  · rintro ⟨h, hsame, hlabels⟩
    obtain ⟨rest, hfirst⟩ := readTokens_name h
    rw [hsame] at hfirst
    have hname := ((readMetricName_iff hbrace _ _).mp hfirst).1
    rw [hstart hname] at h
    obtain ⟨⟨labels', s⟩, hread, h⟩ := Option.bind_eq_some_iff.mp h
    have hsound := (readValue_sound h).2
    rw [hlabels] at hsound
    dsimp only at hsound
    subst hsound
    obtain ⟨hstands, rfl⟩ := (readLabels_iff hne hlen _ _).mp hread
    rw [readValue_word hvalue hvalue.skipBlanks.1] at h
    exact ⟨⟨hname, hstands⟩, (Option.some.inj h).symm⟩
  · rintro ⟨⟨hname, hstands⟩, rfl⟩
    rw [hstart hname, (readLabels_iff hne hlen _ _).mpr ⟨hstands, rfl⟩, Option.bind_some]
    exact ⟨readValue_word hvalue hvalue.skipBlanks.1 _ _, rfl, rfl⟩

end Tokens

/-- A line reads back with its name and its labels exactly when its names are names and
nothing in its label values needs an escape; it then reads back as it stands. -/
theorem readSample_iff {value : Bytes} (hvalue : IsWord value) (name : Bytes)
    (labels : List (Bytes × Bytes)) (sample : Sample) :
    (readSample (sampleText name labels value) = some sample ∧ sample.name = name ∧
        sample.labels = labels) ↔
      (IsMetricName name ∧ ∀ label ∈ labels, IsLabelName label.1 ∧ Verbatim label.2) ∧
        sample = { name, labels, value } := by
  have htokens : (readTokens (sampleText name labels value) = some sample ∧ sample.name = name ∧
      sample.labels = labels) ↔
      (IsMetricName name ∧ ∀ label ∈ labels, LabelStands label) ∧
        sample = { name, labels, value } := by
    cases labels with
    | nil =>
      refine (readTokens_nil hvalue).trans (and_congr_left fun _ => ?_)
      simp
    | cons label labels => exact readTokens_labels hvalue (List.cons_ne_nil _ _)
  have hfeed : 10 ∈ sampleText name labels value ↔
      10 ∈ name ∨ (∃ label ∈ labels, 10 ∈ label.1 ∨ 10 ∈ label.2) ∨ 10 ∈ value :=
    lineFeed_mem_sampleText
  rw [readSample]
  constructor
  · rintro ⟨h, hsame⟩
    split at h
    · cases h
    · rename_i hline
      obtain ⟨⟨hname, hlabels⟩, hsample⟩ := htokens.mp ⟨h, hsame⟩
      refine ⟨⟨hname, fun label hlabel => ⟨(hlabels label hlabel).1, fun b hb => ?_⟩⟩, hsample⟩
      obtain ⟨hquote, hslash⟩ := (hlabels label hlabel).2 b hb
      refine ⟨hquote, hslash, ?_⟩
      rintro rfl
      exact hline (hfeed.mpr (.inr (.inl ⟨label, hlabel, .inr hb⟩)))
  · rintro ⟨⟨hname, hlabels⟩, hsample⟩
    have hline : 10 ∉ sampleText name labels value := by
      rw [hfeed]
      rintro (hmem | ⟨label, hlabel, hmem | hmem⟩ | hmem)
      · exact hname.notMem (by decide) (by decide) hmem
      · exact (hlabels label hlabel).1.notMem (by decide) (by decide) hmem
      · exact ((hlabels label hlabel).2 10 hmem).2.2 rfl
      · exact (hvalue.all 10 hmem).2.1 rfl
    rw [if_neg hline]
    refine htokens.mpr
      ⟨⟨hname, fun label hlabel => ⟨(hlabels label hlabel).1, fun b hb => ?_⟩⟩, hsample⟩
    obtain ⟨hquote, hslash, -⟩ := (hlabels label hlabel).2 b hb
    exact ⟨hquote, hslash⟩

/-! Lines. -/

theorem isWord_metricName {name : Bytes} (h : IsMetricName name) : IsWord name := by
  have hnone : ∀ c ∈ [32, 9, 10, 123], c ∉ name := by
    intro c hc
    have hother : isMetricStart c = false ∧ isMetricByte c = false := by
      simp only [List.mem_cons, List.not_mem_nil, or_false] at hc
      rcases hc with rfl | rfl | rfl | rfl <;> exact ⟨rfl, rfl⟩
    exact h.notMem hother.1 hother.2
  refine ⟨h.ne_nil, fun b hb => ?_⟩
  have hne : ∀ c ∈ [32, 9, 10, 123], b ≠ c := fun c hc heq => hnone c hc (heq ▸ hb)
  simp only [List.mem_cons, List.not_mem_nil, or_false, forall_eq_or_imp, forall_eq] at hne
  simp [isBlank, hne]

/-- A token among blanks. -/
theorem readToken_word {word s : Bytes} (h : IsWord word)
    (hs : s.takeWhile (!isBlank ·) = []) : readToken (32 :: (word ++ s)) = (word, s) := by
  have hword : ∀ b ∈ word, isBlank b = false := fun b hb => (h.all b hb).1
  have hskip : skipBlanks (32 :: (word ++ s)) = word ++ s := by
    cases word with
    | nil => exact absurd rfl h.ne_nil
    | cons b word =>
      exact (List.dropWhile_cons_of_pos rfl).trans
        (skipBlanks_cons _ (hword b (List.mem_cons_self ..)))
  have hall : ∀ b ∈ word, (!isBlank b) = true := fun b hb => by simp [hword b hb]
  have hdrop : s.dropWhile (!isBlank ·) = s := by
    have hsplit := s.takeWhile_append_dropWhile (p := (!isBlank ·))
    rwa [hs, List.nil_append] at hsplit
  rw [readToken, hskip, List.takeWhile_append_of_pos hall, hs, List.append_nil,
    List.dropWhile_append_of_pos hall, hdrop]

theorem readLine_help {name : Bytes} (h : IsMetricName name) (text : Bytes) :
    readLine (str "# HELP " ++ name ++ 32 :: text) = .help name := by
  have hline : str "# HELP " ++ name ++ 32 :: text =
      35 :: 32 :: (str "HELP" ++ 32 :: (name ++ 32 :: text)) := by
    have hopen : str "# HELP " = 35 :: 32 :: (str "HELP" ++ [32]) := by decide
    simp [hopen]
  have hword : readToken (32 :: (str "HELP" ++ 32 :: (name ++ 32 :: text))) =
      (str "HELP", 32 :: (name ++ 32 :: text)) :=
    readToken_word (isWord_of_all (by decide) (by decide)) rfl
  have hname : readToken (32 :: (name ++ 32 :: text)) = (name, 32 :: text) :=
    readToken_word (isWord_metricName h) rfl
  rw [hline, readLine, skipBlanks_cons _ (by decide)]
  simp only [readComment, hword, hname, if_neg h.ne_nil, if_true]

theorem readLine_type {name kind : Bytes} (h : IsMetricName name) (hkind : IsWord kind) :
    readLine (str "# TYPE " ++ name ++ 32 :: kind) = .type name kind := by
  have hline : str "# TYPE " ++ name ++ 32 :: kind =
      35 :: 32 :: (str "TYPE" ++ 32 :: (name ++ 32 :: (kind ++ []))) := by
    have hopen : str "# TYPE " = 35 :: 32 :: (str "TYPE" ++ [32]) := by decide
    simp [hopen]
  have hword : readToken (32 :: (str "TYPE" ++ 32 :: (name ++ 32 :: (kind ++ [])))) =
      (str "TYPE", 32 :: (name ++ 32 :: (kind ++ []))) :=
    readToken_word (isWord_of_all (by decide) (by decide)) rfl
  have hname : readToken (32 :: (name ++ 32 :: (kind ++ []))) = (name, 32 :: (kind ++ [])) :=
    readToken_word (isWord_metricName h) rfl
  have hlast : readToken (32 :: (kind ++ [])) = (kind, []) := readToken_word hkind rfl
  have hne : str "TYPE" ≠ str "HELP" := by decide
  rw [hline, readLine, skipBlanks_cons _ (by decide)]
  simp only [readComment, hword, hname, hlast, if_neg h.ne_nil, if_neg hne, if_true]

theorem readLine_sample {name : Bytes} (h : IsMetricName name) {c : UInt8}
    (hc : isMetricByte c = false) (s : Bytes) : readLine (name ++ c :: s) = .sample name := by
  have hread := readName_append h hc s
  cases name with
  | nil => exact absurd rfl h.ne_nil
  | cons b name =>
    have hb := ((isWord_metricName h).all b (List.mem_cons_self ..)).1
    rw [readLine, List.cons_append, skipBlanks_cons _ hb]
    split
    · rename_i heq
      obtain ⟨rfl, -⟩ := List.cons.inj heq
      exact absurd (List.mem_cons_self ..) (h.notMem (by decide) (by decide))
    · rw [← List.cons_append, hread]

end LyqtRpc.Exposition
