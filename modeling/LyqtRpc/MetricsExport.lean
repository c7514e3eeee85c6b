import LyqtRpc.MetricSeries
import Mathlib.Data.List.Flatten
import Mathlib.Data.List.Pairwise

/-!
The grammar of an export: what the text format asks of the lines of a metric family, and
for which registries the text of `exportText` has it.
-/

set_option autoImplicit false

namespace LyqtRpc.Metrics

open Exposition

/-- What the names of a histogram's samples end in. -/
def suffixes : List Bytes := [str "_bucket", str "_sum", str "_count"]

/-- A sample of the family `n`: one of that name, or of a histogram of that name. -/
def InFamily (lines : List TextLine) (n : Bytes) : TextLine → Prop
  | .sample s => s = n ∨
      .type n (str "histogram") ∈ lines ∧ ∃ suffix ∈ suffixes, s = n ++ suffix
  | _ => False

/-- A HELP or a TYPE line of the family. -/
def Describes (n : Bytes) : TextLine → Prop
  | .help m => m = n
  | .type m _ => m = n
  | _ => False

/-- The elements with `p` stand together. -/
def Grouped {α : Type} (p : α → Prop) (l : List α) : Prop :=
  ∃ before group after, l = before ++ group ++ after ∧ (∀ x ∈ group, p x) ∧
    ∀ x ∈ before ++ after, ¬ p x

/-- What the format asks of the lines; it ignores those that are neither HELP nor TYPE lines
nor samples. -/
structure InOrder (lines : List TextLine) : Prop where
  help_once : lines.Pairwise fun a b => ∀ n, a = .help n → b ≠ .help n
  type_once : lines.Pairwise fun a b => ∀ n kind₁ kind₂, a = .type n kind₁ → b ≠ .type n kind₂
  described_first : ∀ n, lines.Pairwise fun a b => InFamily lines n a → ¬ Describes n b
  contiguous : ∀ n, (∃ line ∈ lines, Describes n line) →
    Grouped (InFamily lines n) (lines.filter (· ≠ .other))

def readText (text : Bytes) : List TextLine := (text.splitOn 10).map readLine

/-- The lines that are read of the text are in order. -/
def Grammatical (text : Bytes) : Prop := InOrder (readText text)

/-- All names, of whatever kind. -/
def Registry.names (r : Registry) : List Bytes :=
  r.counters.objects.map (·.name) ++ r.gauges.objects.map (·.name) ++
    r.hists.objects.map (·.name)

/-- One object a name, and none has the name of a histogram's samples. -/
structure FamiliesApart (r : Registry) : Prop where
  names_nodup : r.names.Nodup
  suffixed : ∀ h ∈ r.hists.objects, ∀ suffix ∈ suffixes, h.name ++ suffix ∉ r.names

/-! The blocks of an export. -/

inductive Metric where
  | counter (c : Counter)
  | gauge (g : Gauge)
  | histogram (h : Histogram)

namespace Metric

def description : Metric → Description
  | .counter c => c.toDescription
  | .gauge g => g.toDescription
  | .histogram h => h.toDescription

def name (m : Metric) : Bytes := m.description.name

def typeName : Metric → Bytes
  | .counter _ => str "counter"
  | .gauge g => if isTotal g.name then str "counter" else str "gauge"
  | .histogram _ => str "histogram"

def IsHistogram : Metric → Prop
  | .histogram _ => True
  | _ => False

/-- The lines of the samples, as they are read. -/
def samples : Metric → List TextLine
  | .counter c => [.sample c.name]
  | .gauge g => [.sample g.name]
  | .histogram h =>
    (bucketBounds.zipIdx.map fun _ => .sample (h.name ++ str "_bucket")) ++
    [.sample (h.name ++ str "_bucket"), .sample (h.name ++ str "_sum"),
      .sample (h.name ++ str "_count")]

def lines (m : Metric) : List TextLine :=
  [.help m.name, .type m.name m.typeName] ++ m.samples ++ [.other]

variable {m : Metric}

theorem typeName_eq_iff : m.typeName = str "histogram" ↔ m.IsHistogram := by
  have hcounter : str "counter" ≠ str "histogram" := by decide
  cases m with
  | counter c => exact iff_of_false hcounter not_false
  | gauge g =>
    refine iff_of_false ?_ not_false
    simp only [typeName]
    split
    · exact hcounter
    · decide
  | histogram h => exact iff_of_true rfl trivial

/-- The names of the samples. -/
theorem mem_samples {line : TextLine} (h : line ∈ m.samples) :
    ∃ s, line = .sample s ∧
      ((¬ m.IsHistogram ∧ s = m.name) ∨
        (m.IsHistogram ∧ ∃ suffix ∈ suffixes, s = m.name ++ suffix)) := by
  cases m with
  | counter c => exact ⟨_, List.mem_singleton.mp h, .inl ⟨not_false, rfl⟩⟩
  | gauge g => exact ⟨_, List.mem_singleton.mp h, .inl ⟨not_false, rfl⟩⟩
  | histogram h' =>
    simp only [samples, List.mem_append, List.mem_map, List.mem_cons, List.not_mem_nil,
      or_false] at h
    rcases h with ⟨x, -, rfl⟩ | rfl | rfl | rfl
    · exact ⟨_, rfl, .inr ⟨trivial, str "_bucket", by simp [suffixes], rfl⟩⟩
    · exact ⟨_, rfl, .inr ⟨trivial, str "_bucket", by simp [suffixes], rfl⟩⟩
    · exact ⟨_, rfl, .inr ⟨trivial, str "_sum", by simp [suffixes], rfl⟩⟩
    · exact ⟨_, rfl, .inr ⟨trivial, str "_count", by simp [suffixes], rfl⟩⟩

theorem sample_mem (h : ¬ m.IsHistogram) : .sample m.name ∈ m.samples := by
  cases m with
  | counter c => exact List.mem_singleton_self _
  | gauge g => exact List.mem_singleton_self _
  | histogram h' => exact absurd trivial h

theorem suffixed_mem (h : m.IsHistogram) {suffix : Bytes} (hsuffix : suffix ∈ suffixes) :
    .sample (m.name ++ suffix) ∈ m.samples := by
  cases m with
  | counter c => exact h.elim
  | gauge g => exact h.elim
  | histogram h' =>
    refine List.mem_append_right _ ?_
    simp only [suffixes, List.mem_cons, List.not_mem_nil, or_false] at hsuffix
    rcases hsuffix with rfl | rfl | rfl
    · exact List.mem_cons_self ..
    · exact List.mem_cons_of_mem _ (List.mem_cons_self ..)
    · exact List.mem_cons_of_mem _ (List.mem_cons_of_mem _ (List.mem_cons_self ..))

end Metric

/-- Two names with these endings are one only with one ending. -/
theorem suffix_unique {a b s t : Bytes} (hs : s ∈ suffixes) (ht : t ∈ suffixes)
    (h : a ++ s = b ++ t) : a = b := by
  have hends : ∀ s ∈ suffixes, ∀ t ∈ suffixes,
      s.reverse.take 2 = t.reverse.take 2 → s = t := by decide
  have hlong : ∀ s ∈ suffixes, 2 ≤ s.reverse.length := by decide
  have hreverse : s.reverse ++ a.reverse = t.reverse ++ b.reverse := by
    rw [← List.reverse_append, h, List.reverse_append]
  have htake := congrArg (List.take 2) hreverse
  rw [List.take_append_of_le_length (hlong s hs),
    List.take_append_of_le_length (hlong t ht)] at htake
  obtain rfl := hends s hs t ht htake
  exact List.append_cancel_right h

/-! Families in a list of blocks. -/

theorem Metric.mem_lines {m : Metric} {line : TextLine} :
    line ∈ m.lines ↔ line = .help m.name ∨
      line = .type m.name m.typeName ∨ line ∈ m.samples ∨ line = .other := by
  simp [Metric.lines]

/-- Only samples are in a family. -/
theorem Metric.mem_samples_of_inFamily {m : Metric} {line : TextLine}
    (hline : line ∈ m.lines) {lines : List TextLine} {n : Bytes}
    (h : InFamily lines n line) : line ∈ m.samples := by
  rcases Metric.mem_lines.mp hline with rfl | rfl | hsample | rfl
  · exact h.elim
  · exact h.elim
  · exact hsample
  · exact h.elim

theorem Metric.name_of_describes {m : Metric} {line : TextLine}
    (hline : line ∈ m.lines) {n : Bytes} (h : Describes n line) : m.name = n := by
  rcases Metric.mem_lines.mp hline with rfl | rfl | hsample | rfl
  · exact h
  · exact h
  · obtain ⟨s, rfl, -⟩ := Metric.mem_samples hsample
    exact h.elim
  · exact h.elim

/-- The metric has samples of the family. -/
def HasFamily (ms : List Metric) (n : Bytes) (m : Metric) : Prop :=
  ∃ line ∈ m.samples, InFamily (ms.flatMap Metric.lines) n line

section Blocks
variable {ms : List Metric} {m : Metric} {n : Bytes}

theorem type_mem_iff : .type n (str "histogram") ∈ ms.flatMap Metric.lines ↔
    ∃ m ∈ ms, m.IsHistogram ∧ m.name = n := by
  rw [List.mem_flatMap]
  refine exists_congr fun m => and_congr_right fun _ => ?_
  rw [Metric.mem_lines, ← Metric.typeName_eq_iff]
  constructor
  · rintro (h | h | h | h)
    · cases h
    · obtain ⟨hname, htype⟩ := TextLine.type.inj h
      exact ⟨htype.symm, hname.symm⟩
    · obtain ⟨s, heq, -⟩ := Metric.mem_samples h
      cases heq
    · cases h
  · rintro ⟨htype, rfl⟩
    exact .inr (.inl (by rw [htype]))

/-- The samples of a metric are of its family. -/
theorem inFamily_own (hm : m ∈ ms) {line : TextLine} (h : line ∈ m.samples) :
    InFamily (ms.flatMap Metric.lines) m.name line := by
  obtain ⟨s, rfl, ⟨-, hname⟩ | ⟨hhist, hsuffix⟩⟩ := Metric.mem_samples h
  · exact .inl hname
  · exact .inr ⟨type_mem_iff.mpr ⟨m, hm, hhist, rfl⟩, hsuffix⟩

theorem hasFamily_own (hm : m ∈ ms) : HasFamily ms m.name m := by
  by_cases hhist : m.IsHistogram
  · have hline := Metric.suffixed_mem hhist (by simp [suffixes] : str "_sum" ∈ suffixes)
    exact ⟨_, hline, inFamily_own hm hline⟩
  · have hline := Metric.sample_mem hhist
    exact ⟨_, hline, inFamily_own hm hline⟩

end Blocks

section Grouped
variable {α : Type} {p : α → Prop} {l : List α}

/-- What stands between two elements of the group is in it. -/
theorem Grouped.between (h : Grouped p l) {x y z : α} (hsub : [x, y, z].Sublist l) (hx : p x)
    (hz : p z) : p y := by
  obtain ⟨before, group, after, rfl, hgroup, hout⟩ := h
  have hbefore : ∀ w ∈ before, ¬ p w := fun w hw => hout w (List.mem_append_left _ hw)
  have hafter : ∀ w ∈ after, ¬ p w := fun w hw => hout w (List.mem_append_right _ hw)
  obtain ⟨front, back, heq, hfront, hback⟩ := List.sublist_append_iff.mp hsub
  rcases List.eq_nil_or_concat back with rfl | ⟨back, w, rfl⟩
  · rw [List.append_nil] at heq
    subst heq
    obtain ⟨first, rest, heq, hfirst, hrest⟩ := List.sublist_append_iff.mp hfront
    cases first with
    | nil =>
      rw [List.nil_append] at heq
      subst heq
      exact hgroup y (hrest.subset (by simp))
    | cons w first =>
      obtain ⟨rfl, -⟩ := List.cons.inj heq
      exact absurd hx (hbefore x (hfirst.subset (List.mem_cons_self ..)))
  · have hlast : [x, y] ++ [z] = (front ++ back) ++ [w] := by simpa using heq
    obtain rfl : z = w := by simpa using (List.append_inj' hlast rfl).2
    exact absurd hz (hafter z (hback.subset (by simp)))

end Grouped

/-! What a grammatical export says of the names. -/

/-- No family that is described has samples of both. -/
def SharesNone (ms : List Metric) (m m' : Metric) : Prop :=
  ∀ n, (∃ line ∈ ms.flatMap Metric.lines, Describes n line) →
    HasFamily ms n m → ¬ HasFamily ms n m'

instance (ms : List Metric) : Std.Symm (SharesNone ms) :=
  ⟨fun _ _ h n hn hm' hm => h n hn hm hm'⟩

section Blocks
variable {ms : List Metric}

/-- The HELP line of the second block stands between the samples of the two. -/
theorem apart_of_contiguous
    (h : ∀ n, (∃ line ∈ ms.flatMap Metric.lines, Describes n line) →
      Grouped (InFamily (ms.flatMap Metric.lines) n)
        ((ms.flatMap Metric.lines).filter (· ≠ .other))) :
    ms.Pairwise (SharesNone ms) := by
  refine List.pairwise_of_forall_sublist fun {m m'} hsub n hn => ?_
  rintro ⟨x, hx, hxn⟩ ⟨y, hy, hyn⟩
  have hblocks : [x, .help m'.name, y].Sublist
      (ms.flatMap Metric.lines) := by
    have hfirst : [x].Sublist (m.lines) :=
      List.singleton_sublist.mpr (Metric.mem_lines.mpr (.inr (.inr (.inl hx))))
    have hsecond : [.help m'.name, y].Sublist (m'.lines) :=
      List.Sublist.cons_cons _ (List.singleton_sublist.mpr (by simp [hy]))
    have hboth := (hfirst.append hsecond).trans (by simpa using hsub.flatMap Metric.lines)
    simpa using hboth
  have hnonblank : ∀ line, InFamily (ms.flatMap Metric.lines) n line → line ≠ .other := by
    rintro line hline rfl
    exact hline
  have hfiltered := hblocks.filter (· ≠ .other)
  have hall : [x, .help m'.name, y].filter (· ≠ .other) =
      [x, .help m'.name, y] :=
    List.filter_eq_self.mpr (by simp [hnonblank x hxn, hnonblank y hyn])
  rw [hall] at hfiltered
  exact (h n hn).between hfiltered hxn hyn

/-- The names of the metrics, and those of the histograms' samples. -/
structure NamesApart (ms : List Metric) : Prop where
  nodup : (ms.map Metric.name).Nodup
  suffixed : ∀ m ∈ ms, m.IsHistogram → ∀ suffix ∈ suffixes,
    m.name ++ suffix ∉ ms.map Metric.name

theorem exists_describes {m : Metric} (hm : m ∈ ms) :
    ∃ line ∈ ms.flatMap Metric.lines, Describes m.name line :=
  ⟨.help m.name,
    List.mem_flatMap.mpr ⟨m, hm, Metric.mem_lines.mpr (.inl rfl)⟩, rfl⟩

theorem namesApart_of_contiguous
    (h : ∀ n, (∃ line ∈ ms.flatMap Metric.lines, Describes n line) →
      Grouped (InFamily (ms.flatMap Metric.lines) n)
        ((ms.flatMap Metric.lines).filter (· ≠ .other))) : NamesApart ms := by
  have hapart := apart_of_contiguous h
  constructor
  · rw [List.Nodup, List.pairwise_map]
    refine hapart.imp_of_mem fun {m m'} hm hm' hsep heq => ?_
    refine hsep m.name (exists_describes hm) (hasFamily_own hm) ?_
    rw [heq]
    exact hasFamily_own hm'
  · intro m hm hhist suffix hsuffix hmem
    obtain ⟨m', hm', hname⟩ := List.mem_map.mp hmem
    have hne : m ≠ m' := by
      rintro rfl
      have hlen := congrArg List.length hname
      have hpos : ∀ suffix ∈ suffixes, 0 < suffix.length := by decide
      have hlong := hpos suffix hsuffix
      rw [List.length_append] at hlen
      omega
    exact hapart.forall hm hm' hne m'.name (exists_describes hm')
      ⟨_, Metric.suffixed_mem hhist hsuffix, .inl hname.symm⟩ (hasFamily_own hm')

/-! What names that are apart make of an export. -/

/-- A family that is described has samples of its own metric only. -/
theorem NamesApart.name_eq (h : NamesApart ms) {m m₀ : Metric} (hm : m ∈ ms) (hm₀ : m₀ ∈ ms)
    {line : TextLine} (hline : line ∈ m.samples)
    (hfamily : InFamily (ms.flatMap Metric.lines) m₀.name line) : m.name = m₀.name := by
  have hnames : ∀ {x : Metric}, x ∈ ms → x.name ∈ ms.map Metric.name := List.mem_map_of_mem
  obtain ⟨s, rfl, ⟨-, rfl⟩ | ⟨hhist, suffix, hsuffix, rfl⟩⟩ :=
    Metric.mem_samples hline
  · rcases hfamily with heq | ⟨htype, suffix, hsuffix, heq⟩
    · exact heq
    · obtain ⟨m', hm', hhist, hname⟩ := type_mem_iff.mp htype
      exact absurd (hname ▸ heq ▸ hnames hm) (h.suffixed m' hm' hhist suffix hsuffix)
  · rcases hfamily with heq | ⟨-, suffix', hsuffix', heq⟩
    · exact absurd (heq ▸ hnames hm₀) (h.suffixed m hm hhist suffix hsuffix)
    · exact suffix_unique hsuffix hsuffix' heq

theorem NamesApart.pairwise (h : NamesApart ms) : ms.Pairwise fun m m' => m.name ≠ m'.name := by
  have hnodup := h.nodup
  rwa [List.Nodup, List.pairwise_map] at hnodup

/-- Two lines that describe one family stand in one block. -/
theorem NamesApart.described (h : NamesApart ms) : ms.Pairwise fun m m' =>
    ∀ a ∈ m.lines, ∀ b ∈ m'.lines, ∀ n, Describes n a → ¬ Describes n b := by
  refine h.pairwise.imp fun {m m'} hne a ha b hb n han hbn => ?_
  exact hne ((Metric.name_of_describes ha han).trans (Metric.name_of_describes hb hbn).symm)

/-- Behind the two lines that describe it, a block has samples and a blank line. -/
theorem Metric.not_describes_of_mem {m : Metric} {line : TextLine}
    (h : line ∈ m.samples ++ [.other]) (n : Bytes) : ¬ Describes n line := by
  rcases List.mem_append.mp h with hsample | hblank
  · obtain ⟨s, rfl, -⟩ := Metric.mem_samples hsample
    exact id
  · rw [List.mem_singleton.mp hblank]
    exact id

theorem Metric.pairwise_lines (m : Metric) {R : TextLine → TextLine → Prop}
    (hfirst : R (.help m.name) (.type m.name m.typeName))
    (hrest : ∀ a ∈ m.lines, ∀ b ∈ m.samples ++ [.other], R a b) :
    (m.lines).Pairwise R := by
  have hlines : m.lines = .help m.name :: .type m.name m.typeName ::
      (m.samples ++ [.other]) := by
    simp [Metric.lines]
  rw [hlines] at hrest ⊢
  refine List.pairwise_cons.mpr ⟨fun b hb => ?_, List.pairwise_cons.mpr ⟨fun b hb => ?_, ?_⟩⟩
  · rcases List.mem_cons.mp hb with rfl | hb
    · exact hfirst
    · exact hrest _ (List.mem_cons_self ..) b hb
  · exact hrest _ (List.mem_cons_of_mem _ (List.mem_cons_self ..)) b hb
  · exact List.pairwise_of_forall_mem_list fun a ha b hb =>
      hrest a (List.mem_cons_of_mem _ (List.mem_cons_of_mem _ ha)) b hb

theorem Metric.filter_lines (m : Metric) : (m.lines).filter (· ≠ .other) =
    [.help m.name, .type m.name m.typeName] ++ m.samples := by
  have hsamples : (m.samples).filter (· ≠ .other) = m.samples := by
    refine List.filter_eq_self.mpr fun line hline => ?_
    obtain ⟨s, rfl, -⟩ := Metric.mem_samples hline
    simp
  rw [Metric.lines, List.filter_append, List.filter_append, hsamples]
  simp

/-- The samples of a block are the family. -/
theorem NamesApart.grouped (h : NamesApart ms) {m : Metric} (hm : m ∈ ms) :
    Grouped (InFamily (ms.flatMap Metric.lines) m.name)
      ((ms.flatMap Metric.lines).filter (· ≠ .other)) := by
  obtain ⟨front, back, hsplit⟩ := List.append_of_mem hm
  have hpairs := h.pairwise
  rw [hsplit] at hpairs
  obtain ⟨-, hrest, hfront⟩ := List.pairwise_append.mp hpairs
  have hback := (List.pairwise_cons.mp hrest).1
  have helsewhere : ∀ m' ∈ ms, m'.name ≠ m.name → ∀ line ∈ m'.lines,
      ¬ InFamily (ms.flatMap Metric.lines) m.name line :=
    fun m' hm' hne line hline hfamily =>
      hne (h.name_eq hm' hm (Metric.mem_samples_of_inFamily hline hfamily) hfamily)
  refine ⟨(front.flatMap Metric.lines).filter (· ≠ .other) ++
      [.help m.name, .type m.name m.typeName], m.samples,
    (back.flatMap Metric.lines).filter (· ≠ .other), ?_, fun _ => inFamily_own hm, ?_⟩
  · rw [hsplit, List.flatMap_append, List.flatMap_cons, List.filter_append, List.filter_append,
      m.filter_lines]
    simp
  · intro line hline
    simp only [List.mem_append, List.mem_filter, List.mem_flatMap, List.mem_cons,
      List.not_mem_nil, or_false] at hline
    rcases hline with (⟨⟨m', hm', hline⟩, -⟩ | rfl | rfl) | ⟨⟨m', hm', hline⟩, -⟩
    · exact helsewhere m' (hsplit ▸ List.mem_append_left _ hm')
        (hfront m' hm' m (List.mem_cons_self ..)) line hline
    · exact id
    · exact id
    · exact helsewhere m' (hsplit ▸ List.mem_append_right _ (List.mem_cons_of_mem _ hm'))
        (hback m' hm').symm line hline

theorem NamesApart.inOrder (h : NamesApart ms) : InOrder (ms.flatMap Metric.lines) where
  help_once := by
    refine List.pairwise_flatMap.mpr ⟨fun m _ => m.pairwise_lines ?_ ?_, h.described.imp ?_⟩
    · exact fun _ _ => nofun
    · rintro a - b hb n - rfl
      exact Metric.not_describes_of_mem hb n rfl
    · rintro m m' hsep a ha b hb n rfl rfl
      exact hsep _ ha _ hb n rfl rfl
  type_once := by
    refine List.pairwise_flatMap.mpr ⟨fun m _ => m.pairwise_lines ?_ ?_, h.described.imp ?_⟩
    · exact fun _ _ _ => nofun
    · rintro a - b hb n _ type₂ - rfl
      exact Metric.not_describes_of_mem hb n rfl
    · rintro m m' hsep a ha b hb n type₁ type₂ rfl rfl
      exact hsep _ ha _ hb n rfl rfl
  described_first n := by
    refine List.pairwise_flatMap.mpr ⟨fun m _ => m.pairwise_lines ?_ ?_, ?_⟩
    · exact fun hfamily => hfamily.elim
    · exact fun a _ b hb _ => Metric.not_describes_of_mem hb n
    · refine h.pairwise.imp_of_mem fun {m m'} hm hm' hne a ha b hb hfamily hdescribes => hne ?_
      have hname := Metric.name_of_describes hb hdescribes
      exact h.name_eq hm hm' (Metric.mem_samples_of_inFamily ha hfamily) (hname ▸ hfamily)
  contiguous n := by
    rintro ⟨line, hline, hdescribes⟩
    obtain ⟨m, hm, hline⟩ := List.mem_flatMap.mp hline
    obtain rfl := Metric.name_of_describes hline hdescribes
    exact h.grouped hm

end Blocks

theorem inOrder_iff (ms : List Metric) : InOrder (ms.flatMap Metric.lines) ↔ NamesApart ms :=
  ⟨fun h => namesApart_of_contiguous h.contiguous, fun h => h.inOrder⟩

/-- What is passed over at the end does not matter. -/
theorem inOrder_concat_other (lines : List TextLine) :
    InOrder (lines ++ [.other]) ↔ InOrder lines := by
  have hfamily : ∀ n, InFamily (lines ++ [.other]) n = InFamily lines n := by
    intro n
    funext line
    cases line with
    | sample s => simp [InFamily]
    | _ => rfl
  have hfilter : (lines ++ [TextLine.other]).filter (· ≠ .other) = lines.filter (· ≠ .other) := by
    simp
  have hdescribed : ∀ n, (∃ line ∈ lines ++ [.other], Describes n line) ↔
      ∃ line ∈ lines, Describes n line := by
    simp [Describes]
  have hpairs : ∀ R : TextLine → TextLine → Prop, (∀ a, R a .other) →
      ((lines ++ [TextLine.other]).Pairwise R ↔ lines.Pairwise R) := by
    intro R hR
    simp [List.pairwise_append, hR]
  have hhelp := hpairs (fun a b => ∀ n, a = .help n → b ≠ .help n) fun _ _ _ => nofun
  have htype := hpairs (fun a b => ∀ n kind₁ kind₂, a = .type n kind₁ → b ≠ .type n kind₂)
    fun _ _ _ _ _ => nofun
  have hfirst := fun n => hpairs (fun a b => InFamily lines n a → ¬ Describes n b)
    fun _ _ => not_false
  constructor
  · intro h
    refine ⟨hhelp.mp h.help_once, htype.mp h.type_once, fun n => (hfirst n).mp ?_, fun n hn => ?_⟩
    · rw [← hfamily]
      exact h.described_first n
    · rw [← hfamily, ← hfilter]
      exact h.contiguous n ((hdescribed n).mpr hn)
  · intro h
    refine ⟨hhelp.mpr h.help_once, htype.mpr h.type_once, fun n => ?_, fun n hn => ?_⟩
    · rw [hfamily]
      exact (hfirst n).mpr (h.described_first n)
    · rw [hfamily, hfilter]
      exact h.contiguous n ((hdescribed n).mp hn)

/-! What is read of the text. -/

/-- What an object must be described by for its lines to be told apart. -/
structure Writable (d : Description) : Prop where
  name : IsMetricName d.name
  help : 10 ∉ d.help
  labels : ∃ ls : Labels, d.labels = formatLabels ls ∧ ∀ l ∈ ls, 10 ∉ l.1 ∧ 10 ∉ l.2

def Registry.Writable (r : Registry) : Prop :=
  ∀ kind, ∀ d ∈ r.descriptions kind, Metrics.Writable d

/-- One line of the text, and what is read of it. -/
def ReadAs (line : ExportLine) (read : TextLine) : Prop :=
  10 ∉ line.text ∧ readLine line.text = read

theorem notMem_of_word {value : Bytes} (h : IsWord value) : 10 ∉ value :=
  fun hmem => (h.all 10 hmem).2.1 rfl

theorem readAs_sample {name value : Bytes} {ls : Labels} (hname : IsMetricName name)
    (hls : ∀ l ∈ ls, 10 ∉ l.1 ∧ 10 ∉ l.2) (hvalue : IsWord value) :
    ReadAs (.sample name (formatLabels ls) value) (.sample name) := by
  constructor
  · rw [ExportLine.text, sampleText_eq, lineFeed_mem_sampleText]
    rintro (hmem | ⟨l, hl, hmem | hmem⟩ | hmem)
    · exact hname.notMem (by decide) (by decide) hmem
    · exact (hls l hl).1 hmem
    · exact (hls l hl).2 hmem
    · exact notMem_of_word hvalue hmem
  · rw [ExportLine.text, List.append_assoc]
    by_cases hnil : ls = []
    · rw [hnil]
      exact readLine_sample hname (by decide) value
    · rw [formatLabels_of_ne_nil hnil, List.cons_append]
      exact readLine_sample hname (by decide) _

theorem readAs_help {d : Description} (h : Writable d) :
    ReadAs (.help d.name d.help) (.help d.name) := by
  refine ⟨?_, readLine_help h.name d.help⟩
  have hopen : 10 ∉ str "# HELP " := by decide
  have hname : 10 ∉ d.name := h.name.notMem (by decide) (by decide)
  simp [ExportLine.text, hopen, hname, h.help]

theorem readAs_type {name kind : Bytes} (hname : IsMetricName name) (hkind : IsWord kind) :
    ReadAs (.type name kind) (.type name kind) := by
  refine ⟨?_, readLine_type hname hkind⟩
  have hopen : 10 ∉ str "# TYPE " := by decide
  have hnone : 10 ∉ name := hname.notMem (by decide) (by decide)
  simp [ExportLine.text, hopen, hnone, notMem_of_word hkind]

theorem readAs_blank : ReadAs .blank .other := ⟨List.not_mem_nil, rfl⟩

theorem readAs_all {written : List ExportLine} {read : List TextLine}
    (h : List.Forall₂ ReadAs written read) :
    (∀ line ∈ written, 10 ∉ line.text) ∧ written.map (readLine ∘ ExportLine.text) = read := by
  induction h with
  | nil => exact ⟨nofun, rfl⟩
  | cons hline _ ih =>
    refine ⟨List.forall_mem_cons.mpr ⟨hline.1, ih.1⟩, ?_⟩
    rw [List.map_cons, ih.2, Function.comp_apply, hline.2]

/-- A suffix of a histogram's samples makes a name of a name. -/
theorem isMetricName_suffixed {name suffix : Bytes} (h : IsMetricName name)
    (hsuffix : suffix ∈ suffixes) : IsMetricName (name ++ suffix) := by
  have hall : ∀ suffix ∈ suffixes, suffix.all isMetricByte = true := by decide
  cases name with
  | nil => exact absurd rfl h.ne_nil
  | cons b name =>
    refine ⟨List.cons_ne_nil _ _, fun c t heq => h.head c name ?_, fun c hc => ?_⟩
    · obtain ⟨rfl, -⟩ := List.cons.inj heq
      rfl
    · rcases List.mem_append.mp hc with hc | hc
      · exact h.all c hc
      · exact List.all_eq_true.mp (hall suffix hsuffix) c hc

/-- The bound stands behind the labels, as one more. -/
theorem readAs_bucketLine {h : Histogram} {ls : Labels} {le : Bytes} (hname : IsMetricName h.name)
    (hlabels : h.labels = formatLabels ls) (hls : ∀ l ∈ ls, 10 ∉ l.1 ∧ 10 ∉ l.2) (value : Int64)
    (hle : 10 ∉ le) : ReadAs (h.bucketLine le value) (.sample (h.name ++ str "_bucket")) := by
  have hmerged := mergeLabels_formatLabels ls le
  rw [← hlabels] at hmerged
  rw [Histogram.bucketLine, hmerged]
  refine readAs_sample (isMetricName_suffixed hname (by simp [suffixes])) (fun l hl => ?_)
    (isWord_integerText _)
  rcases List.mem_append.mp hl with hold | hnew
  · exact hls l hold
  · rw [List.mem_singleton.mp hnew]
    exact ⟨(by decide : 10 ∉ str "le"), hle⟩

namespace Metric

/-- The lines that are written. -/
def exportLines : Metric → List ExportLine
  | .counter c => c.exportLines
  | .gauge g => g.exportLines
  | .histogram h => h.exportLines

theorem isWord_typeName (m : Metric) : IsWord m.typeName := by
  have hcounter : IsWord (str "counter") := isWord_of_all (by decide) (by decide)
  cases m with
  | counter c => exact hcounter
  | gauge g =>
    rw [typeName]
    split
    · exact hcounter
    · exact isWord_of_all (by decide) (by decide)
  | histogram h => exact isWord_of_all (s := str "histogram") (by decide) (by decide)

theorem readAs_lines {m : Metric} (h : Writable m.description) :
    List.Forall₂ ReadAs m.exportLines m.lines := by
  obtain ⟨ls, hlabels, hls⟩ := h.labels
  have hhelp := readAs_help h
  have htype := readAs_type h.name m.isWord_typeName
  cases m with
  | counter c =>
    have hsample := readAs_sample h.name hls (isWord_integerText c.value.toInt)
    rw [← hlabels] at hsample
    exact .cons hhelp (.cons htype (.cons hsample (.cons readAs_blank .nil)))
  | gauge g =>
    have hsample := readAs_sample h.name hls (isWord_doubleText g.value)
    rw [← hlabels] at hsample
    exact .cons hhelp (.cons htype (.cons hsample (.cons readAs_blank .nil)))
  | histogram h' =>
    have hlabels : h'.labels = formatLabels ls := hlabels
    have hbounds : List.Forall₂ ReadAs
        (bucketBounds.zipIdx.map fun x => h'.bucketLine (natText x.1) (cumulative h'.b x.2))
        (bucketBounds.zipIdx.map fun _ => .sample (h'.name ++ str "_bucket")) := by
      rw [List.forall₂_map_left_iff, List.forall₂_map_right_iff, List.forall₂_same]
      exact fun x _ => readAs_bucketLine h.name hlabels hls _
        fun hmem => absurd (isDigit_of_mem_natText hmem) (by decide)
    have hsum := readAs_sample (isMetricName_suffixed h.name
      (by simp [suffixes] : str "_sum" ∈ suffixes)) hls (isWord_doubleText h'.sum)
    have hcount := readAs_sample (isMetricName_suffixed h.name
      (by simp [suffixes] : str "_count" ∈ suffixes)) hls (isWord_integerText h'.count.toInt)
    rw [← hlabels] at hsum hcount
    have hinf : ReadAs (h'.bucketLine (str "+Inf") h'.count) (.sample (h'.name ++ str "_bucket")) :=
      readAs_bucketLine h.name hlabels hls _ (by decide)
    have htail := List.Forall₂.cons hinf (.cons hsum (.cons hcount (.cons readAs_blank .nil)))
    have hlines : (Metric.histogram h').lines = [.help h'.name, .type h'.name (str "histogram")] ++
        (bucketBounds.zipIdx.map fun _ => .sample (h'.name ++ str "_bucket")) ++
        [.sample (h'.name ++ str "_bucket"), .sample (h'.name ++ str "_sum"),
          .sample (h'.name ++ str "_count"), .other] := by
      simp only [lines, samples, List.append_assoc]
      rfl
    rw [hlines]
    exact List.rel_append (List.rel_append (.cons hhelp (.cons htype .nil)) hbounds) htail

theorem readAs_flatMap {ms : List Metric} (h : ∀ m ∈ ms, Writable m.description) :
    List.Forall₂ ReadAs (ms.flatMap exportLines) (ms.flatMap lines) := by
  induction ms with
  | nil => exact .nil
  | cons m ms ih =>
    obtain ⟨hm, hms⟩ := List.forall_mem_cons.mp h
    exact List.rel_append (readAs_lines hm) (ih hms)

end Metric

/-! Exports of a registry. -/

namespace Iteration
variable {r : Registry} (order : Iteration r)

def metrics : List Metric :=
  order.counters.map .counter ++ order.gauges.map .gauge ++ order.hists.map .histogram

theorem lines_eq : order.lines = order.metrics.flatMap Metric.exportLines := by
  simp only [lines, metrics, List.flatMap_append, List.flatMap_map]
  rfl

/-- Where no line has a line feed in it, the lines can be told apart in the text. -/
theorem splitOn_exportText (h : ∀ line ∈ order.lines, 10 ∉ line.text) :
    (exportText order).splitOn 10 = order.lines.map ExportLine.text ++ [[]] := by
  rw [exportText]
  generalize order.lines = lines at h ⊢
  induction lines with
  | nil => rfl
  | cons line lines ih =>
    obtain ⟨hline, hlines⟩ := List.forall_mem_cons.mp h
    rw [List.flatMap_cons, List.append_assoc, List.singleton_append,
      List.splitOn_append_cons_self_of_not_mem hline, ih hlines]
    rfl

theorem names_perm : (order.metrics.map Metric.name).Perm r.names := by
  simp only [metrics, List.map_append, List.map_map, Registry.names]
  exact ((order.counters_perm.map _).append (order.gauges_perm.map _)).append
    (order.hists_perm.map _)

theorem mem_metrics_histogram {m : Metric} : (m ∈ order.metrics ∧ m.IsHistogram) ↔
    ∃ h ∈ r.hists.objects, m = .histogram h := by
  simp only [metrics, List.mem_append, List.mem_map]
  constructor
  · rintro ⟨(⟨c, -, rfl⟩ | ⟨g, -, rfl⟩) | ⟨h, hh, rfl⟩, hhist⟩
    · exact hhist.elim
    · exact hhist.elim
    · exact ⟨h, order.hists_perm.mem_iff.mp hh, rfl⟩
  · rintro ⟨h, hh, rfl⟩
    exact ⟨.inr ⟨h, order.hists_perm.mem_iff.mpr hh, rfl⟩, trivial⟩

/-- The order of the maps does not matter to the names. -/
theorem namesApart_iff : NamesApart order.metrics ↔ FamiliesApart r := by
  have hmem : ∀ name, name ∈ order.metrics.map Metric.name ↔ name ∈ r.names :=
    fun _ => order.names_perm.mem_iff
  constructor
  · intro h
    refine ⟨order.names_perm.nodup_iff.mp h.nodup, fun m hm suffix hsuffix => ?_⟩
    obtain ⟨hmetric, hhist⟩ := order.mem_metrics_histogram.mpr ⟨m, hm, rfl⟩
    rw [← hmem]
    exact h.suffixed _ hmetric hhist suffix hsuffix
  · intro h
    refine ⟨order.names_perm.nodup_iff.mpr h.names_nodup, fun m hm hhist suffix hsuffix => ?_⟩
    obtain ⟨h', hh', rfl⟩ := order.mem_metrics_histogram.mp ⟨hm, hhist⟩
    rw [hmem]
    exact h.suffixed h' hh' suffix hsuffix

theorem mem_descriptions {m : Metric} (hm : m ∈ order.metrics) :
    ∃ kind, m.description ∈ r.descriptions kind := by
  simp only [metrics, List.mem_append, List.mem_map] at hm
  rcases hm with (⟨c, hc, rfl⟩ | ⟨g, hg, rfl⟩) | ⟨h, hh, rfl⟩
  · exact ⟨.counter, List.mem_map_of_mem (order.counters_perm.mem_iff.mp hc)⟩
  · exact ⟨.gauge, List.mem_map_of_mem (order.gauges_perm.mem_iff.mp hg)⟩
  · exact ⟨.histogram, List.mem_map_of_mem (order.hists_perm.mem_iff.mp hh)⟩

/-- The text is read line for line as it was written. -/
theorem readText_exportText (h : r.Writable) :
    readText (exportText order) = order.metrics.flatMap Metric.lines ++ [.other] := by
  have hread := Metric.readAs_flatMap fun m hm =>
    let ⟨kind, hd⟩ := order.mem_descriptions hm
    h kind _ hd
  rw [← order.lines_eq] at hread
  obtain ⟨hclean, hlines⟩ := readAs_all hread
  rw [readText, order.splitOn_exportText hclean, List.map_append, List.map_map, hlines]
  rfl

theorem grammatical_iff (h : r.Writable) : Grammatical (exportText order) ↔ FamiliesApart r := by
  rw [Grammatical, order.readText_exportText h, inOrder_concat_other, inOrder_iff,
    order.namesApart_iff]

end Iteration

/-- For every history of the registry and every order of its maps: the text is grammatical
where its names are names, no text has a line feed in it, no two objects have one name and
none has the name of a histogram's samples. Where only the last two fail it is not. -/
theorem exposition_grammar (acts : List Act) (order : Iteration (Registry.after {} acts)) :
    ((Registry.after {} acts).Writable ∧ FamiliesApart (Registry.after {} acts) →
      Grammatical (exportText order)) ∧
    ((Registry.after {} acts).Writable ∧ ¬ FamiliesApart (Registry.after {} acts) →
      ¬ Grammatical (exportText order)) :=
  ⟨fun h => (order.grammatical_iff h.1).mpr h.2, fun h => mt (order.grammatical_iff h.1).mp h.2⟩

/-- One counter for two methods has two HELP lines. -/
theorem exposition_repeats_help :
    ¬ ∀ (acts : List Act) (order : Iteration (Registry.after {} acts)),
      Grammatical (exportText order) := by
  intro h
  let acts : List Act := [.get .counter (str "rpc_requests_total") [] [(str "method", str "add")],
    .get .counter (str "rpc_requests_total") [] [(str "method", str "echo")]]
  let order : Iteration (Registry.after {} acts) := ⟨_, _, _, .rfl, .rfl, .rfl⟩
  have htwice : [TextLine.help (str "rpc_requests_total"), .help (str "rpc_requests_total")].Sublist
      (readText (exportText order)) := by decide +kernel
  exact List.pairwise_iff_forall_sublist.mp (h acts order).help_once htwice _ rfl rfl

end LyqtRpc.Metrics
