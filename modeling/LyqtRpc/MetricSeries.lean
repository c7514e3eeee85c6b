import LyqtRpc.Metrics
import Mathlib.Data.List.Forall2

/-!
The identity of a metric series: which calls of the registry get the same object, and what
a reader of the text format makes of the sample lines of an object.
-/

set_option autoImplicit false

namespace LyqtRpc.Metrics

open Exposition

/-- A number that is exported. -/
inductive Value where
  | int (i : Int64)
  | real (d : Double)

def Value.text : Value → Bytes
  | .int i => integerText i.toInt
  | .real d => doubleText d

def Value.IsReadFrom (word : Bytes) : Value → Prop
  | .int i => readFloat word = some (.finite i.toInt)
  | .real d => readFloat word = some d

/-- An integer is a `double`, and a `double` is the one that is nearest to its fifteen
digits. A NaN with a sign is no value of the format. -/
def Value.Exact : Value → Prop
  | .int i => nearestDouble i.toInt = some i.toInt
  | .real (.finite q) => nearestDouble (Decimal.round 15 q) = some q
  | .real (.infinite _) => True
  | .real (.nan negative) => negative = false

instance : DecidablePred Value.Exact
  | .int _ => inferInstanceAs (Decidable (_ = _))
  | .real (.finite _) => inferInstanceAs (Decidable (_ = _))
  | .real (.infinite _) => inferInstanceAs (Decidable True)
  | .real (.nan _) => inferInstanceAs (Decidable (_ = _))

/-- 0.5, and the sum of 0.1 and 0.2. -/
example : Value.Exact (.real (.finite (1 / 2))) ∧
    ¬ Value.Exact (.real (.finite (5404319552844596 / 2 ^ 54))) := by
  decide +kernel

/-- What an object holds when it is exported. -/
inductive Reading where
  | counter (value : Int64)
  | gauge (value : Double)
  | histogram (count : Int64) (sum : Double) (b : Vector Int64 10)

/-- The lines of an object that was created for these labels. -/
def metricLines (name help : Bytes) (ls : Labels) : Reading → List ExportLine
  | .counter value => Counter.exportLines { describe name help ls with value }
  | .gauge value => Gauge.exportLines { describe name help ls with value }
  | .histogram count sum b =>
    Histogram.exportLines { describe name help ls with count, sum, b }

def ExportLine.sampleOf : ExportLine → Option Bytes
  | .sample name labels value => some (ExportLine.sample name labels value).text
  | _ => none

/-- The texts of the sample lines. -/
def sampleTexts (lines : List ExportLine) : List Bytes := lines.filterMap ExportLine.sampleOf

/-! What the lines are to say. -/

structure Series where
  name : Bytes
  labels : Labels
  value : Value

def bucketSeries (name : Bytes) (ls : Labels) (le : Bytes) (count : Int64) : Series where
  name := name ++ str "_bucket"
  labels := ls ++ [(str "le", le)]
  value := .int count

def series (name : Bytes) (ls : Labels) : Reading → List Series
  | .counter value => [⟨name, ls, .int value⟩]
  | .gauge value => [⟨name, ls, .real value⟩]
  | .histogram count sum b =>
    (bucketBounds.zipIdx.map fun (bound, i) =>
      bucketSeries name ls (natText bound) (cumulative b i)) ++
    [bucketSeries name ls (str "+Inf") count, ⟨name ++ str "_sum", ls, .real sum⟩,
      ⟨name ++ str "_count", ls, .int count⟩]

def ReadsBack (line : Bytes) (s : Series) : Prop :=
  ∃ word, readSample line = some { name := s.name, labels := s.labels, value := word } ∧
    s.value.IsReadFrom word

def LinesReadBack (name : Bytes) (ls : Labels) (reading : Reading) : Prop :=
  ∀ help, List.Forall₂ ReadsBack (sampleTexts (metricLines name help ls reading))
    (series name ls reading)

/-- Two calls, whatever happens before and between them, get one object only for one list. -/
def SameObjectSameLabels (name : Bytes) (ls₁ ls₂ : Labels) : Prop :=
  ∀ (kind : Kind) (before between : List Act) (help₁ help₂ : Bytes),
    let first := (Registry.after {} before).get kind name help₁ ls₁
    ((first.2.after between).get kind name help₂ ls₂).1 = first.1 → ls₁ = ls₂

/-- The names are names, no label value needs an escape, and the numbers are exact. -/
structure SeriesStand (name : Bytes) (ls : Labels) (reading : Reading) : Prop where
  names : ∀ s ∈ series name ls reading, IsMetricName s.name
  labels : ∀ l ∈ ls, IsLabelName l.1 ∧ Verbatim l.2
  numbers : ∀ s ∈ series name ls reading, s.value.Exact

/-! Labels as text. -/

theorem formatLabels_of_ne_nil {ls : Labels} (h : ls ≠ []) :
    formatLabels ls = 123 :: ([44].intercalate (ls.map labelText) ++ [125]) := by
  have htext : (fun l : Bytes × Bytes => l.1 ++ str "=\"" ++ l.2 ++ str "\"") = labelText := by
    funext l
    have hopen : str "=\"" = [61, 34] := by decide
    have hclose : str "\"" = [34] := by decide
    simp [hopen, hclose, labelText]
  rw [formatLabels, if_neg h, htext]

theorem sampleText_eq (name : Bytes) (ls : Labels) (value : Bytes) :
    name ++ formatLabels ls ++ 32 :: value = sampleText name ls value := by
  cases ls with
  | nil => simp [formatLabels, sampleText]
  | cons l ls =>
    rw [formatLabels_of_ne_nil (List.cons_ne_nil l ls)]
    simp [sampleText]

/-- A label is merged into the braces as if it had stood in the list. -/
theorem mergeLabels_formatLabels (ls : Labels) (le : Bytes) :
    mergeLabels (formatLabels ls) (str "le=\"" ++ le ++ str "\"") =
      formatLabels (ls ++ [(str "le", le)]) := by
  have htext : str "le=\"" ++ le ++ str "\"" = labelText (str "le", le) := by
    have hopen : str "le=\"" = str "le" ++ [61, 34] := by decide
    have hclose : str "\"" = [34] := by decide
    simp [hopen, hclose, labelText]
  have hmerged : formatLabels (ls ++ [(str "le", le)]) =
      123 :: ([44].intercalate (ls.map labelText ++ [labelText (str "le", le)]) ++ [125]) := by
    rw [formatLabels_of_ne_nil (by simp), List.map_append]
    rfl
  rw [htext, hmerged]
  by_cases hls : ls = []
  · subst hls
    have hempty : formatLabels [] = [] := rfl
    rw [hempty, mergeLabels, if_pos (.inl rfl), List.map_nil, List.nil_append,
      List.intercalate_singleton]
  · have hopen : ([44].intercalate (ls.map labelText)).length ≠ 0 := by
      have hle := length_le_intercalate ls
      have hpos := List.length_pos_of_ne_nil hls
      omega
    have hbraces : ¬ (formatLabels ls = [] ∨ formatLabels ls = [123, 125]) := by
      rw [formatLabels_of_ne_nil hls]
      rintro (heq | heq)
      · cases heq
      · have hlen := congrArg List.length heq
        simp only [List.length_cons, List.length_append, List.length_nil] at hlen
        omega
    rw [mergeLabels, if_neg hbraces, formatLabels_of_ne_nil hls,
      intercalate_concat (by simpa using hls), ← List.cons_append, List.dropLast_concat]
    simp

/-! Reading the lines. -/

theorem Value.isWord_text (v : Value) : IsWord v.text := by
  cases v with
  | int i => exact isWord_integerText i.toInt
  | real d => exact isWord_doubleText d

/-- The raw text of a line of the series. -/
def Series.text (s : Series) : Bytes :=
  sampleText s.name s.labels (s.value.text)

/-- One line: its own word is the only one that can be read in it. -/
theorem readsBack_iff (s : Series) :
    ReadsBack s.text s ↔
      (IsMetricName s.name ∧ ∀ l ∈ s.labels, IsLabelName l.1 ∧ Verbatim l.2) ∧
        s.value.IsReadFrom s.value.text := by
  have hread := readSample_iff s.value.isWord_text s.name s.labels
  constructor
  · rintro ⟨word, hline, hword⟩
    obtain ⟨hstands, hsample⟩ := (hread _).mp ⟨hline, rfl, rfl⟩
    cases hsample
    exact ⟨hstands, hword⟩
  · rintro ⟨hstands, hword⟩
    exact ⟨_, ((hread _).mpr ⟨hstands, rfl⟩).1, hword⟩

/-- A value is read of its text exactly when it is exact. -/
theorem isReadFrom_text (v : Value) : v.IsReadFrom v.text ↔ v.Exact := by
  have hfinite : ∀ {q : ℚ} {word : Bytes} {r : ℚ}, Decimal.readDecimal word = some r →
      (readFloat word = some (.finite q) ↔ nearestDouble r = some q) := by
    intro q word r hread
    rw [readFloat, hread]
    simp
  cases v with
  | int i => exact hfinite (Decimal.readDecimal_integerText i.toInt)
  | real d =>
    cases d with
    | finite q => exact hfinite (Decimal.readDecimal_generalText (by decide) q)
    | infinite negative =>
      have hread : readFloat (doubleText (.infinite negative)) = some (.infinite negative) := by
        cases negative <;> decide +kernel
      exact iff_of_true hread trivial
    | nan negative =>
      have hread : readFloat (doubleText (.nan negative)) = some (.nan negative) ↔
          negative = false := by
        cases negative <;> decide +kernel
      exact hread

theorem sampleOf_bucketLine {h : Histogram} {ls : Labels}
    (hls : h.labels = formatLabels ls) (le : Bytes) (value : Int64) :
    (h.bucketLine le value).sampleOf = some ((bucketSeries h.name ls le value).text) := by
  rw [Histogram.bucketLine, ExportLine.sampleOf, ExportLine.text, hls, mergeLabels_formatLabels,
    sampleText_eq]
  rfl

theorem sampleOf_formatted (name : Bytes) (ls : Labels) (v : Value) :
    (ExportLine.sample name (formatLabels ls) v.text).sampleOf =
      some (Series.text ⟨name, ls, v⟩) := by
  rw [ExportLine.sampleOf, ExportLine.text, sampleText_eq]
  rfl

/-- The sample lines of an object are those of its series. -/
theorem sampleTexts_metricLines (name help : Bytes) (ls : Labels)
    (reading : Reading) : sampleTexts (metricLines name help ls reading) =
      (series name ls reading).map Series.text := by
  cases reading with
  | counter value =>
    have hline := sampleOf_formatted name ls (.int value)
    exact congrArg (· :: []) (Option.some.inj hline)
  | gauge value =>
    have hline := sampleOf_formatted name ls (.real value)
    exact congrArg (· :: []) (Option.some.inj hline)
  | histogram count sum b =>
    have hbucket : ∀ le value, ExportLine.sampleOf (Histogram.bucketLine
        { describe name help ls with count, sum, b } le value) =
        some ((bucketSeries name ls le value).text) :=
      sampleOf_bucketLine rfl
    have hmiddle : (ExportLine.sampleOf ∘ fun x : Nat × Nat => Histogram.bucketLine
        { describe name help ls with count, sum, b } (natText x.1) (cumulative b x.2)) =
        some ∘ fun x => (bucketSeries name ls (natText x.1) (cumulative b x.2)).text :=
      funext fun x => hbucket _ _
    have hsum :
        (ExportLine.sample (name ++ str "_sum") (formatLabels ls) (doubleText sum)).sampleOf =
          some (Series.text ⟨name ++ str "_sum", ls, .real sum⟩) :=
      sampleOf_formatted _ ls (.real sum)
    have hcount : (ExportLine.sample (name ++ str "_count") (formatLabels ls)
        (integerText count.toInt)).sampleOf =
        some (Series.text ⟨name ++ str "_count", ls, .int count⟩) :=
      sampleOf_formatted _ ls (.int count)
    have htail : sampleTexts [Histogram.bucketLine { describe name help ls with count, sum, b }
          (str "+Inf") count,
        .sample (name ++ str "_sum") (formatLabels ls) (doubleText sum),
        .sample (name ++ str "_count") (formatLabels ls) (integerText count.toInt), .blank] =
        [bucketSeries name ls (str "+Inf") count, ⟨name ++ str "_sum", ls, .real sum⟩,
          ⟨name ++ str "_count", ls, .int count⟩].map Series.text := by
      rw [sampleTexts, List.filterMap_cons_some (hbucket _ _), List.filterMap_cons_some hsum,
        List.filterMap_cons_some hcount]
      rfl
    rw [series, List.map_append, ← htail, List.map_map]
    simp only [sampleTexts, metricLines, Histogram.exportLines, List.filterMap_append,
      List.filterMap_map, hmiddle, List.filterMap_eq_map]
    rfl

theorem exists_series_labels (name : Bytes) (ls : Labels) (reading : Reading) :
    ∃ s ∈ series name ls reading, s.labels = ls := by
  cases reading with
  | counter value => exact ⟨_, List.mem_singleton_self _, rfl⟩
  | gauge value => exact ⟨_, List.mem_singleton_self _, rfl⟩
  | histogram count sum b =>
    exact ⟨⟨name ++ str "_sum", ls, .real sum⟩, by simp [series], rfl⟩

/-- The labels of a line are the ones of the object, and the bound of a bucket. -/
theorem mem_series_labels {name : Bytes} {ls : Labels} {reading : Reading} {s : Series}
    (hs : s ∈ series name ls reading) :
    s.labels = ls ∨ s.labels = ls ++ [(str "le", str "+Inf")] ∨
      ∃ n, s.labels = ls ++ [(str "le", natText n)] := by
  cases reading with
  | counter value => simp_all [series]
  | gauge value => simp_all [series]
  | histogram count sum b =>
    simp only [series, List.mem_append, List.mem_map, List.mem_cons, List.not_mem_nil,
      or_false] at hs
    rcases hs with ⟨x, -, rfl⟩ | rfl | rfl | rfl
    · exact .inr (.inr ⟨x.1, rfl⟩)
    · exact .inr (.inl rfl)
    · exact .inl rfl
    · exact .inl rfl

theorem series_labels_stand {name : Bytes} {ls : Labels} {reading : Reading} {s : Series}
    (h : ∀ l ∈ ls, IsLabelName l.1 ∧ Verbatim l.2) (hs : s ∈ series name ls reading) :
    ∀ l ∈ s.labels, IsLabelName l.1 ∧ Verbatim l.2 := by
  have hle : IsLabelName (str "le") := isName_of_all (by decide) (by decide)
  have hadded : ∀ bound, Verbatim bound →
      ∀ l ∈ ls ++ [(str "le", bound)], IsLabelName l.1 ∧ Verbatim l.2 := by
    intro bound hbound l hl
    rcases List.mem_append.mp hl with hl | hl
    · exact h l hl
    · rw [List.mem_singleton.mp hl]
      exact ⟨hle, hbound⟩
  rcases mem_series_labels hs with hlabels | hlabels | ⟨n, hlabels⟩
  · rwa [hlabels]
  · rw [hlabels]
    exact hadded _ (verbatim_of_all (by decide))
  · rw [hlabels]
    exact hadded _ (verbatim_natText n)

/-- The lines of an object read back exactly when its series stand. -/
theorem linesReadBack_iff (name : Bytes) (ls : Labels) (reading : Reading) :
    LinesReadBack name ls reading ↔ SeriesStand name ls reading := by
  have hlines : LinesReadBack name ls reading ↔ ∀ s ∈ series name ls reading,
      (IsMetricName s.name ∧ ∀ l ∈ s.labels, IsLabelName l.1 ∧ Verbatim l.2) ∧ s.value.Exact := by
    simp only [LinesReadBack, sampleTexts_metricLines, List.forall₂_map_left_iff,
      List.forall₂_same, readsBack_iff, isReadFrom_text, forall_const]
  rw [hlines]
  constructor
  · intro h
    refine ⟨fun s hs => (h s hs).1.1, fun l hl => ?_, fun s hs => (h s hs).2⟩
    obtain ⟨s, hs, hlabels⟩ := exists_series_labels name ls reading
    exact (h s hs).1.2 l (hlabels ▸ hl)
  · intro h s hs
    exact ⟨⟨h.names s hs, series_labels_stand h.labels hs⟩, h.numbers s hs⟩

/-- Where nothing needs an escape, the text has the labels in it. -/
theorem formatLabels_inj {ls₁ ls₂ : Labels}
    (h₁ : ∀ l ∈ ls₁, IsLabelName l.1 ∧ Verbatim l.2)
    (h₂ : ∀ l ∈ ls₂, IsLabelName l.1 ∧ Verbatim l.2)
    (heq : formatLabels ls₁ = formatLabels ls₂) : ls₁ = ls₂ := by
  have hname : IsMetricName (str "x") := isName_of_all (by decide) (by decide)
  have hread := fun ls (h : ∀ l ∈ ls, IsLabelName l.1 ∧ Verbatim l.2) =>
    ((readSample_iff (isWord_integerText 0) (str "x") ls _).mpr ⟨⟨hname, h⟩, rfl⟩).1
  have hread₁ := hread ls₁ h₁
  rw [← sampleText_eq, heq, sampleText_eq, hread ls₂ h₂] at hread₁
  cases hread₁
  rfl

/-- Every line of an export is one of an object that some call created for its labels. -/
theorem exported_line {acts : List Act}
    (order : Iteration (Registry.after {} acts)) {line : ExportLine} (h : line ∈ order.lines) :
    ∃ kind name help ls reading, Act.get kind name help ls ∈ acts ∧
      line ∈ metricLines name help ls reading := by
  have hcreated : ∀ {kind d}, d ∈ (Registry.after {} acts).descriptions kind →
      ∃ name help ls, Act.get kind name help ls ∈ acts ∧ d = describe name help ls := by
    intro kind d hd
    refine (Registry.mem_descriptions_after hd).resolve_left fun hempty => ?_
    cases kind <;> cases hempty
  simp only [Iteration.lines, List.mem_append, List.mem_flatMap] at h
  rcases h with (⟨c, hc, hline⟩ | ⟨g, hg, hline⟩) | ⟨m, hm, hline⟩
  · obtain ⟨name, help, ls, hcall, hd⟩ := @hcreated .counter c.toDescription
      (List.mem_map_of_mem (order.counters_perm.mem_iff.mp hc))
    refine ⟨.counter, name, help, ls, .counter c.value, hcall, ?_⟩
    rwa [metricLines, ← hd]
  · obtain ⟨name, help, ls, hcall, hd⟩ := @hcreated .gauge g.toDescription
      (List.mem_map_of_mem (order.gauges_perm.mem_iff.mp hg))
    refine ⟨.gauge, name, help, ls, .gauge g.value, hcall, ?_⟩
    rwa [metricLines, ← hd]
  · obtain ⟨name, help, ls, hcall, hd⟩ := @hcreated .histogram m.toDescription
      (List.mem_map_of_mem (order.hists_perm.mem_iff.mp hm))
    refine ⟨.histogram, name, help, ls, .histogram m.count m.sum m.b, hcall, ?_⟩
    rwa [metricLines, ← hd]

/-- The series of a name and two lists of labels, with whatever they hold: the lists share no
object and all lines read back exactly when the names are names, no label value has a quote, a
backslash or a line feed, and the numbers are exact. -/
theorem metric_series_iff (name : Bytes) (ls₁ ls₂ : Labels) (reading₁ reading₂ : Reading) :
    (SameObjectSameLabels name ls₁ ls₂ ∧ LinesReadBack name ls₁ reading₁ ∧
      LinesReadBack name ls₂ reading₂) ↔
    SeriesStand name ls₁ reading₁ ∧ SeriesStand name ls₂ reading₂ := by
  rw [linesReadBack_iff, linesReadBack_iff]
  refine and_iff_right_of_imp fun ⟨h₁, h₂⟩ => ?_
  intro kind before between help₁ help₂ first hsame
  have hkeys := Registry.get_same (Registry.indexed_empty.after before) hsame
  exact formatLabels_inj h₁.labels h₂.labels (List.append_cancel_left hkeys)

/-- A quote in a value, and two lists are one series. -/
theorem quoted_label_collides :
    ¬ ∀ (name : Bytes) (ls₁ ls₂ : Labels) (reading₁ reading₂ : Reading),
      SameObjectSameLabels name ls₁ ls₂ ∧ LinesReadBack name ls₁ reading₁ ∧
        LinesReadBack name ls₂ reading₂ := by
  intro h
  have hall := h (str "rpc_requests_total")
    [(str "a", str "1\",b=\"2")] [(str "a", str "1"), (str "b", str "2")] (.counter 0) (.counter 0)
  have hlabels := hall.1 .counter [] [] [] [] (by decide +kernel)
  revert hlabels
  decide

end LyqtRpc.Metrics
