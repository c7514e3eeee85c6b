import LyqtRpc.DiagnoseHandler
import LyqtRpc.Lib.StepRun
import LyqtRpc.MetricSeries
import Mathlib.Data.List.Infix

/-!
What `/diagnose` says of the breakers: the handler searches the text that the registry
exports for the gauges that `onCircuitState` sets.
-/

set_option autoImplicit false

namespace LyqtRpc

open Metrics Exposition StepRun

namespace DiagnoseHandler

/-! The loop, line by line. -/

theorem breakers_none (first : Bool) {body : Bytes} (h : find body search = none) :
    breakers first body = [] := by
  rw [breakers]
  split
  · rfl
  · rename_i heq
    rw [h] at heq
    cases heq

theorem breakers_some (first : Bool) {body : Bytes} {pos stop : Nat}
    (hpos : find body search = some pos) (hstop : findFrom body 10 pos = some stop) :
    breakers first body = (if first then [] else str ",") ++
      breaker (substr body pos (stop - pos)) ++ breakers false (body.drop (stop + 1)) := by
  rw [breakers]
  split
  · rename_i heq
    rw [hpos] at heq
    cases heq
  · rename_i pos' heq
    rw [hpos] at heq
    cases heq
    rw [hstop]

theorem breakers_cut (first : Bool) {body : Bytes} {pos : Nat}
    (hpos : find body search = some pos) (hstop : findFrom body 10 pos = none) :
    breakers first body = [] := by
  rw [breakers]
  split
  · rfl
  · rename_i pos' heq
    rw [hpos] at heq
    cases heq
    rw [hstop]

/-- What a line adds to the list. -/
def entry (line : Bytes) : Option Bytes :=
  (find line search).map fun pos => breaker (line.drop pos)

theorem breakers_line (first : Bool) {line : Bytes} (rest : Bytes) (h : 10 ∉ line) :
    breakers first (line ++ 10 :: rest) =
      match entry line with
      | some text => (if first then [] else str ",") ++ text ++ breakers false rest
      | none => breakers first rest := by
  have hfind := find_line line rest (by decide : search ≠ [])
    (by decide : (10 : UInt8) ∉ search)
  cases hpos : find line search with
  | some pos =>
    rw [hpos, Option.some_or] at hfind
    have hle : pos ≤ line.length := by
      have := find_le hpos
      omega
    have hstop : findFrom (line ++ 10 :: rest) 10 pos = some line.length := by
      have hclean : 10 ∉ line.drop pos := fun hmem => h (List.mem_of_mem_drop hmem)
      rw [findFrom, List.drop_append_of_le_length hle, find_append hclean (by simp),
        Option.map_some, List.length_drop, Nat.sub_add_cancel hle]
    have htext : substr (line ++ 10 :: rest) pos (line.length - pos) = line.drop pos := by
      rw [substr, List.drop_append_of_le_length hle, ← List.length_drop, List.take_left]
    have hrest : (line ++ 10 :: rest).drop (line.length + 1) = rest := by simp
    rw [breakers_some first hfind hstop, htext, hrest, entry, hpos]
    rfl
  | none =>
    rw [hpos, Option.none_or] at hfind
    rw [entry, hpos, Option.map_none]
    have hdrop : ∀ n, (line ++ 10 :: rest).drop (n + (line.length + 1)) = rest.drop n := by
      intro n
      rw [Nat.add_comm, ← List.drop_drop]
      simp
    cases hlater : find rest search with
    | none =>
      rw [hlater] at hfind
      rw [breakers_none first hfind, breakers_none first hlater]
    | some pos =>
      rw [hlater, Option.map_some] at hfind
      cases hstop : findFrom rest 10 pos with
      | none =>
        have hcut : findFrom (line ++ 10 :: rest) 10 (pos + (line.length + 1)) = none := by
          rw [findFrom, hdrop]
          rw [findFrom, Option.map_eq_none_iff] at hstop
          rw [hstop, Option.map_none]
        rw [breakers_cut first hfind hcut, breakers_cut first hlater hstop]
      | some stop =>
        have hnext : findFrom (line ++ 10 :: rest) 10 (pos + (line.length + 1)) =
            some (stop + (line.length + 1)) := by
          rw [findFrom, hdrop]
          obtain ⟨n, hn, rfl⟩ := Option.map_eq_some_iff.mp hstop
          rw [hn, Option.map_some, Nat.add_assoc]
        have hcount : stop + (line.length + 1) - (pos + (line.length + 1)) = stop - pos := by
          omega
        have hstep : stop + (line.length + 1) + 1 = stop + 1 + (line.length + 1) := by omega
        rw [breakers_some first hfind hnext, breakers_some first hlater hstop, substr, hdrop,
          hcount, hstep, hdrop, substr]

theorem intercalate_cons (text : Bytes) (texts : List Bytes) :
    [44].intercalate (text :: texts) = text ++ texts.flatMap (fun text => 44 :: text) := by
  induction texts generalizing text with
  | nil => simp
  | cons next texts ih =>
    have hnext := ih next
    simp only [List.intercalate, List.intersperse, List.flatten_cons, List.flatMap_cons,
      List.cons_append, List.nil_append] at hnext ⊢
    rw [hnext]

theorem breakers_lines (lines : List Bytes) (h : ∀ line ∈ lines, 10 ∉ line) :
    breakers false (lines.flatMap fun line => line ++ [10]) =
        (lines.filterMap entry).flatMap (fun text => 44 :: text) ∧
      breakers true (lines.flatMap fun line => line ++ [10]) =
        [44].intercalate (lines.filterMap entry) := by
  induction lines with
  | nil =>
    have hnil : ∀ first, breakers first [] = [] := fun first => breakers_none first (by decide)
    exact ⟨hnil false, hnil true⟩
  | cons line lines ih =>
    obtain ⟨hline, hlines⟩ := List.forall_mem_cons.mp h
    obtain ⟨hlater, hfirst⟩ := ih hlines
    rw [List.flatMap_cons, List.append_assoc, List.singleton_append, breakers_line _ _ hline,
      breakers_line _ _ hline, List.filterMap_cons]
    cases hentry : entry line with
    | none => exact ⟨hlater, hfirst⟩
    | some text =>
      have hcomma : str "," = [44] := rfl
      refine ⟨?_, ?_⟩
      · simp only [hlater, List.flatMap_cons, hcomma, Bool.false_eq_true, if_false,
          List.singleton_append]
      · simp only [hlater, if_true, List.nil_append, intercalate_cons]

/-! One line. -/

def gaugeName : Bytes := str "circuit_breaker_state"

/-- The state of a breaker as it is reported. -/
structure Row where
  method : Bytes
  host : Bytes
  state : Bytes
  deriving DecidableEq

namespace Row

def labels (row : Row) : Labels := [(str "method", row.method), (str "host", row.host)]

def text (row : Row) : Bytes :=
  str "\x7b\"method\":\"" ++ row.method ++ str "\"," ++ str "\"host\":\"" ++ row.host ++
    str "\"," ++ str "\"state\":" ++ row.state ++ str "\x7d"

/-- What may stand in the labels as it is: no brace, and no equals sign in a method. -/
structure Plain (method host : Bytes) : Prop where
  method : Verbatim method ∧ 123 ∉ method ∧ 61 ∉ method
  host : Verbatim host ∧ 123 ∉ host

end Row

theorem formatLabels_row (row : Row) : formatLabels row.labels =
    123 :: (str "method" ++ 61 :: (34 :: (row.method ++ 34 :: (str ",host" ++ 61 ::
      (34 :: (row.host ++ 34 :: [125])))))) := by
  rw [formatLabels_of_ne_nil (by simp [Row.labels])]
  have hcomma : str ",host" = 44 :: str "host" := by decide
  simp [Row.labels, labelText, hcomma, List.intercalate]

theorem upToQuote_append (before : Bytes) {value : Bytes} (rest : Bytes) (h : 34 ∉ value) :
    upToQuote (before ++ (value ++ 34 :: rest)) before.length = value := by
  have hfind : findFrom (before ++ (value ++ 34 :: rest)) 34 before.length =
      some (value.length + before.length) := by
    rw [findFrom, List.drop_left, find_append h (by simp)]
    rfl
  rw [upToQuote, hfind]
  show substr _ _ (value.length + before.length - before.length) = value
  rw [substr, List.drop_left, Nat.add_sub_cancel, List.take_left]

/-- The line of a gauge reads back. -/
theorem entry_row {row : Row} (h : Row.Plain row.method row.host) (hstate : IsWord row.state) :
    entry (gaugeName ++ formatLabels row.labels ++ 32 :: row.state) = some row.text := by
  obtain ⟨⟨hmethod, -, hequals⟩, hhost, -⟩ := h
  have hblank : 32 ∉ row.state := fun hmem => absurd (hstate.all 32 hmem).1 (by decide)
  have hquoteMethod : 34 ∉ row.method := fun hmem => (hmethod 34 hmem).1 rfl
  have hquoteHost : 34 ∉ row.host := fun hmem => (hhost 34 hmem).1 rfl
  rw [formatLabels_row]
  generalize hline : gaugeName ++ 123 :: (str "method" ++ 61 :: (34 :: (row.method ++ 34 ::
    (str ",host" ++ 61 :: (34 :: (row.host ++ 34 :: [125])))))) ++ 32 :: row.state = line
  -- the same line, cut where each search ends
  have hbrace : line = gaugeName ++ 123 :: (str "method" ++ 61 :: (34 :: (row.method ++ 34 ::
      (str ",host" ++ 61 :: (34 :: (row.host ++ 34 :: 125 :: 32 :: row.state)))))) := by
    rw [← hline]
    simp
  have hequal : line = (gaugeName ++ 123 :: str "method") ++ 61 :: ((34 :: (row.method ++ 34 ::
      str ",host")) ++ 61 :: (34 :: (row.host ++ 34 :: 125 :: 32 :: row.state))) := by
    rw [hbrace]
    simp
  have hvalue : line = (gaugeName ++ 123 :: (str "method" ++ [61, 34])) ++ (row.method ++ 34 ::
      (str ",host" ++ 61 :: (34 :: (row.host ++ 34 :: 125 :: 32 :: row.state)))) := by
    rw [hbrace]
    simp
  have hvalue' : line = (gaugeName ++ 123 :: (str "method" ++ 61 :: 34 :: (row.method ++ 34 ::
      (str ",host" ++ [61, 34])))) ++ (row.host ++ 34 :: 125 :: 32 :: row.state) := by
    rw [hbrace]
    simp
  have hsearch : find line search = some 0 := by
    have hpattern : search = gaugeName ++ 123 :: [] := by decide
    rw [hbrace, hpattern, find_infix (by decide) (by decide),
      if_pos ⟨List.suffix_rfl, List.nil_prefix⟩, Nat.sub_self]
  have hfindMethod : find line (str "method=\"") = some 22 := by
    have hpattern : str "method=\"" = str "method" ++ 61 :: [34] := by decide
    rw [hequal, hpattern, find_infix (by decide) (by decide), if_pos ⟨by decide, by simp⟩]
    rfl
  have hfindHost : find line (str "host=\"") = some (row.method.length + 32) := by
    have hpattern : str "host=\"" = str "host" ++ 61 :: [34] := by decide
    have hother : ¬ str "host" <:+ gaugeName ++ 123 :: str "method" := by decide
    have hsuffix : str "host" <:+ 34 :: (row.method ++ 34 :: str ",host") :=
      ⟨34 :: (row.method ++ [34, 44]), by
        have hcomma : str ",host" = 44 :: str "host" := by decide
        simp [hcomma]⟩
    have hclean : 61 ∉ 34 :: (row.method ++ 34 :: str ",host") := by
      have hcomma : 61 ∉ str ",host" := by decide
      simp [hequals, hcomma]
    rw [hequal, hpattern, find_infix (by decide) (by decide), if_neg fun hboth => hother hboth.1,
      find_infix (by decide) hclean, if_pos ⟨hsuffix, by simp⟩, Option.map_some]
    have hlengths : (str ",host").length = 5 ∧ (str "host").length = 4 ∧
        (gaugeName ++ 123 :: str "method").length = 28 := by decide
    simp only [List.length_cons, List.length_append, hlengths.1, hlengths.2.1] at hlengths ⊢
    rw [hlengths.2.2]
    rfl
  have hmethodText : upToQuote line (22 + 8) = row.method := by
    have hlength : (gaugeName ++ 123 :: (str "method" ++ [61, 34])).length = 22 + 8 := by decide
    rw [hvalue, ← hlength]
    exact upToQuote_append _ _ hquoteMethod
  have hhostText : upToQuote line (row.method.length + 32 + 6) = row.host := by
    have hlength : (gaugeName ++ 123 :: (str "method" ++ 61 :: 34 :: (row.method ++ 34 ::
        (str ",host" ++ [61, 34])))).length = row.method.length + 32 + 6 := by
      have hlengths : gaugeName.length = 21 ∧ (str "method").length = 6 ∧
          (str ",host").length = 5 := by decide
      simp only [List.length_append, List.length_cons, List.length_nil, hlengths.1, hlengths.2.1,
        hlengths.2.2]
      omega
    rw [hvalue', ← hlength]
    exact upToQuote_append _ _ hquoteHost
  obtain ⟨before, hbefore⟩ : ∃ before, line = before ++ 32 :: row.state := ⟨_, hline.symm⟩
  have hspace : rfind line 32 = some before.length := by
    rw [hbefore]
    exact rfind_append before hblank
  have hstateText : line.drop (before.length + 1) = row.state := by
    rw [hbefore]
    simp
  rw [entry, hsearch, Option.map_some, List.drop_zero, breaker, hfindMethod, hfindHost]
  simp only [hmethodText, hhostText, hspace, hstateText, Row.text]

/-! A registry whose texts have no braces of their own. -/

/-- Neither a line feed nor a brace. -/
def Unbraced (s : Bytes) : Prop := 10 ∉ s ∧ 123 ∉ s

instance (s : Bytes) : Decidable (Unbraced s) := inferInstanceAs (Decidable (_ ∧ _))

structure Tidy (d : Description) : Prop where
  name : Unbraced d.name ∧ ¬ gaugeName <:+ d.name
  help : Unbraced d.help
  labels : ∃ ls : Labels, d.labels = formatLabels ls ∧ ∀ l ∈ ls, Unbraced l.1 ∧ Unbraced l.2

/-- The gauge of a breaker. -/
structure IsBreaker (d : Description) (method host : Bytes) : Prop where
  name : d.name = gaugeName
  help : Unbraced d.help
  labels : d.labels = formatLabels (Row.labels ⟨method, host, []⟩)
  plain : Row.Plain method host

structure TidyRegistry (r : Registry) : Prop where
  counters : ∀ d ∈ r.descriptions .counter, Tidy d
  gauges : ∀ d ∈ r.descriptions .gauge, Tidy d ∨ ∃ method host, IsBreaker d method host
  hists : ∀ d ∈ r.descriptions .histogram, Tidy d

/-- A line that adds nothing. -/
def Silent (line : Bytes) : Prop := 10 ∉ line ∧ entry line = none

theorem silent_of_unbraced {line : Bytes} (h : Unbraced line) : Silent line := by
  refine ⟨h.1, ?_⟩
  rw [entry, find_of_notMem (by decide : (123 : UInt8) ∈ search) h.2, Option.map_none]

theorem Unbraced.append {a b : Bytes} (ha : Unbraced a) (hb : Unbraced b) : Unbraced (a ++ b) :=
  ⟨by simp [ha.1, hb.1], by simp [ha.2, hb.2]⟩

theorem IsWord.unbraced {value : Bytes} (h : IsWord value) : Unbraced value :=
  ⟨fun hmem => (h.all 10 hmem).2.1 rfl, fun hmem => (h.all 123 hmem).2.2 rfl⟩

/-- The labels as text: nothing, or one brace at their head. -/
theorem formatLabels_cases {ls : Labels} (h : ∀ l ∈ ls, Unbraced l.1 ∧ Unbraced l.2) :
    formatLabels ls = [] ∨ ∃ rest, formatLabels ls = 123 :: rest ∧ Unbraced rest := by
  by_cases hls : ls = []
  · exact .inl (by rw [hls]; rfl)
  · refine .inr ⟨_, formatLabels_of_ne_nil hls, ?_⟩
    have hnone : ∀ b : UInt8, b ≠ 44 → b ≠ 125 → b ≠ 61 → b ≠ 34 →
        (∀ l ∈ ls, b ∉ l.1 ∧ b ∉ l.2) → b ∉ [44].intercalate (ls.map labelText) ++ [125] := by
      intro b hcomma hbrace hequal hquote hlabels hmem
      rcases List.mem_append.mp hmem with hmem | hmem
      · obtain ⟨t, ht, hb⟩ := (mem_intercalate hcomma).mp hmem
        obtain ⟨l, hl, rfl⟩ := List.mem_map.mp ht
        have hl' := hlabels l hl
        simp [labelText, hl'.1, hl'.2, hequal, hquote] at hb
      · exact hbrace (List.mem_singleton.mp hmem)
    exact ⟨hnone 10 (by decide) (by decide) (by decide) (by decide)
        fun l hl => ⟨(h l hl).1.1, (h l hl).2.1⟩,
      hnone 123 (by decide) (by decide) (by decide) (by decide)
        fun l hl => ⟨(h l hl).1.2, (h l hl).2.2⟩⟩

theorem silent_sample {name value : Bytes} {ls : Labels} (hname : Unbraced name)
    (hother : ¬ gaugeName <:+ name) (hls : ∀ l ∈ ls, Unbraced l.1 ∧ Unbraced l.2)
    (hvalue : IsWord value) : Silent (name ++ formatLabels ls ++ 32 :: value) := by
  have htail : Unbraced (32 :: value) := by
    have hword := IsWord.unbraced hvalue
    exact ⟨by simp [hword.1], by simp [hword.2]⟩
  rcases formatLabels_cases hls with hnil | ⟨rest, hrest, hclean⟩
  · rw [hnil, List.append_nil]
    exact silent_of_unbraced (hname.append htail)
  · have hbehind := hclean.append htail
    have hpattern : search = gaugeName ++ 123 :: [] := by decide
    rw [hrest, List.append_assoc, List.cons_append]
    refine ⟨?_, ?_⟩
    · simp only [List.mem_append, List.mem_cons, not_or]
      exact ⟨hname.1, by decide, by simpa using hbehind.1⟩
    · rw [entry, hpattern, find_infix (by decide) hname.2, if_neg fun h => hother h.1,
        find_of_notMem (by simp : (123 : UInt8) ∈ gaugeName ++ 123 :: []) hbehind.2]
      rfl

theorem silent_head {d : Description} (hname : Unbraced d.name) (hhelp : Unbraced d.help)
    {type : Bytes} (htype : Unbraced type) {line : ExportLine}
    (h : line ∈ [.help d.name d.help, .type d.name type, .blank]) : Silent line.text := by
  have hblank : Unbraced [32] := ⟨by decide, by decide⟩
  have hH : Unbraced (str "# HELP ") := ⟨by decide, by decide⟩
  have hT : Unbraced (str "# TYPE ") := ⟨by decide, by decide⟩
  simp only [List.mem_cons, List.not_mem_nil, or_false] at h
  rcases h with rfl | rfl | rfl
  · exact silent_of_unbraced ((hH.append hname).append (hblank.append hhelp))
  · exact silent_of_unbraced ((hT.append hname).append (hblank.append htype))
  · exact silent_of_unbraced ⟨List.not_mem_nil, List.not_mem_nil⟩

theorem silent_counter {c : Counter} (h : Tidy c.toDescription) {line : ExportLine}
    (hline : line ∈ c.exportLines) : Silent line.text := by
  obtain ⟨ls, hls, hplain⟩ := h.labels
  have htype : Unbraced (str "counter") := ⟨by decide, by decide⟩
  simp only [Counter.exportLines, List.mem_cons, List.not_mem_nil, or_false] at hline
  rcases hline with hhelp | htyped | rfl | hblank
  · exact silent_head h.name.1 h.help htype (by simp [hhelp])
  · exact silent_head h.name.1 h.help htype (by simp [htyped])
  · rw [ExportLine.text, hls]
    exact silent_sample h.name.1 h.name.2 hplain (isWord_integerText _)
  · exact silent_head h.name.1 h.help htype (by simp [hblank])

theorem silent_gauge {g : Gauge} (h : Tidy g.toDescription) {line : ExportLine}
    (hline : line ∈ g.exportLines) : Silent line.text := by
  obtain ⟨ls, hls, hplain⟩ := h.labels
  have htype : Unbraced (if isTotal g.name then str "counter" else str "gauge") := by
    split <;> exact ⟨by decide, by decide⟩
  simp only [Gauge.exportLines, List.mem_cons, List.not_mem_nil, or_false] at hline
  rcases hline with hhelp | htyped | rfl | hblank
  · exact silent_head h.name.1 h.help htype (by simp [hhelp])
  · exact silent_head h.name.1 h.help htype (by simp [htyped])
  · rw [ExportLine.text, hls]
    exact silent_sample h.name.1 h.name.2 hplain (isWord_doubleText _)
  · exact silent_head h.name.1 h.help htype (by simp [hblank])

theorem silent_histogram {m : Histogram} (h : Tidy m.toDescription) {line : ExportLine}
    (hline : line ∈ m.exportLines) : Silent line.text := by
  obtain ⟨ls, hls, hplain⟩ := h.labels
  have htype : Unbraced (str "histogram") := ⟨by decide, by decide⟩
  -- no suffix of a histogram ends as the name of the gauges does
  have hsuffixed : ∀ suffix ∈ [str "_bucket", str "_sum", str "_count"],
      Unbraced (m.name ++ suffix) ∧ ¬ gaugeName <:+ m.name ++ suffix := by
    have hlast : ∀ suffix ∈ [str "_bucket", str "_sum", str "_count"],
        Unbraced suffix ∧ suffix ≠ [] ∧ suffix.getLast? ≠ gaugeName.getLast? := by decide
    intro suffix hmem
    obtain ⟨hclean, hne, hdiffers⟩ := hlast suffix hmem
    refine ⟨h.name.1.append hclean, fun hends => hdiffers ?_⟩
    obtain ⟨before, hbefore⟩ := hends
    have hboth := congrArg List.getLast? hbefore
    rw [List.getLast?_append_of_ne_nil _ (by decide),
      List.getLast?_append_of_ne_nil _ hne] at hboth
    exact hboth.symm
  have hbucket : ∀ le value, Unbraced le → Silent (m.bucketLine le value).text := by
    intro le value hle
    obtain ⟨hname, hother⟩ := hsuffixed (str "_bucket") (by simp)
    rw [Histogram.bucketLine, ExportLine.text, hls, mergeLabels_formatLabels]
    refine silent_sample hname hother ?_ (isWord_integerText _)
    intro l hl
    rcases List.mem_append.mp hl with hold | hnew
    · exact hplain l hold
    · rw [List.mem_singleton.mp hnew]
      exact ⟨(by decide : Unbraced (str "le")), hle⟩
  simp only [Histogram.exportLines, List.mem_append, List.mem_map, List.mem_cons,
    List.not_mem_nil, or_false] at hline
  rcases hline with ((hhelp | htyped) | ⟨bucket, -, rfl⟩) | rfl | rfl | rfl | hblank
  · exact silent_head h.name.1 h.help htype (by simp [hhelp])
  · exact silent_head h.name.1 h.help htype (by simp [htyped])
  · refine hbucket _ _ ⟨fun hmem => ?_, fun hmem => ?_⟩ <;>
      exact absurd (isDigit_of_mem_natText hmem) (by decide)
  · exact hbucket _ _ ⟨by decide, by decide⟩
  · obtain ⟨hname, hother⟩ := hsuffixed (str "_sum") (by simp)
    rw [ExportLine.text, hls]
    exact silent_sample hname hother hplain (isWord_doubleText _)
  · obtain ⟨hname, hother⟩ := hsuffixed (str "_count") (by simp)
    rw [ExportLine.text, hls]
    exact silent_sample hname hother hplain (isWord_integerText _)
  · exact silent_head h.name.1 h.help htype (by simp [hblank])

/-- The row of a gauge. -/
def RowOf (g : Gauge) (row : Row) : Prop :=
  IsBreaker g.toDescription row.method row.host ∧ row.state = doubleText g.value

theorem export_breaker {g : Gauge} {row : Row} (h : RowOf g row) :
    (∀ line ∈ g.exportLines, 10 ∉ line.text) ∧
      ((g.exportLines).map ExportLine.text).filterMap entry = [row.text] := by
  obtain ⟨hbreaker, hstate⟩ := h
  have hname : Unbraced g.name := by
    rw [hbreaker.name]
    exact ⟨by decide, by decide⟩
  have htype : Unbraced (if isTotal g.name then str "counter" else str "gauge") := by
    split <;> exact ⟨by decide, by decide⟩
  have hhead : ∀ line ∈ [ExportLine.help g.name g.help,
      .type g.name (if isTotal g.name then str "counter" else str "gauge"), .blank],
      Silent line.text := fun line hline => silent_head hname hbreaker.help htype hline
  have hword : IsWord (doubleText g.value) := isWord_doubleText _
  have hlabels : g.labels = formatLabels row.labels := hbreaker.labels
  have hsample : (ExportLine.sample g.name g.labels (doubleText g.value)).text =
      gaugeName ++ formatLabels row.labels ++ 32 :: row.state := by
    rw [ExportLine.text, hlabels, hstate, hbreaker.name]
  have hhelp := hhead (.help g.name g.help) (by simp)
  have htyped := hhead (.type g.name (if isTotal g.name then str "counter" else str "gauge"))
    (by simp)
  have hblank := hhead .blank (by simp)
  constructor
  · intro line hline
    simp only [Gauge.exportLines, List.mem_cons, List.not_mem_nil, or_false] at hline
    rcases hline with rfl | rfl | rfl | rfl
    · exact hhelp.1
    · exact htyped.1
    · rw [hsample, formatLabels_row]
      have hverbatim : 10 ∉ row.method ∧ 10 ∉ row.host :=
        ⟨fun hmem => (hbreaker.plain.method.1 10 hmem).2.2 rfl,
          fun hmem => (hbreaker.plain.host.1 10 hmem).2.2 rfl⟩
      have hclean : 10 ∉ gaugeName ∧ 10 ∉ str "method" ∧ 10 ∉ str ",host" := by decide
      have hvalue : 10 ∉ row.state := hstate ▸ (IsWord.unbraced hword).1
      simp [hverbatim.1, hverbatim.2, hclean.1, hclean.2.1, hclean.2.2, hvalue]
    · exact hblank.1
  · simp only [Gauge.exportLines, List.map_cons, List.map_nil, List.filterMap_cons, hhelp.2,
      htyped.2, hblank.2, hsample, entry_row hbreaker.plain (hstate ▸ hword), List.filterMap_nil]

theorem export_gauges {gs : List Gauge} (h : ∀ g ∈ gs,
    Tidy g.toDescription ∨ ∃ method host, IsBreaker g.toDescription method host) :
    (∀ line ∈ gs.flatMap Gauge.exportLines, 10 ∉ line.text) ∧
      ∃ rows, List.Forall₂ RowOf (gs.filter (·.name = gaugeName)) rows ∧
        ((gs.flatMap Gauge.exportLines).map ExportLine.text).filterMap entry =
          rows.map Row.text := by
  induction gs with
  | nil => exact ⟨nofun, [], .nil, rfl⟩
  | cons g gs ih =>
    obtain ⟨hg, hgs⟩ := List.forall_mem_cons.mp h
    obtain ⟨hclean, rows, hrows, hentries⟩ := ih hgs
    simp only [List.flatMap_cons, List.forall_mem_append, List.map_append, List.filterMap_append,
      hentries]
    rcases hg with htidy | ⟨method, host, hbreaker⟩
    · have hother : ¬ g.name = gaugeName := fun heq => htidy.name.2 (heq ▸ List.suffix_rfl)
      refine ⟨⟨fun line hline => (silent_gauge htidy hline).1, hclean⟩, rows, ?_, ?_⟩
      · rwa [List.filter_cons_of_neg (by simpa using hother)]
      · have hnone : ((g.exportLines).map ExportLine.text).filterMap entry = [] := by
          rw [List.filterMap_eq_nil_iff]
          intro text htext
          obtain ⟨line, hline, rfl⟩ := List.mem_map.mp htext
          exact (silent_gauge htidy hline).2
        rw [hnone, List.nil_append]
    · have hrow : RowOf g ⟨method, host, doubleText g.value⟩ := ⟨hbreaker, rfl⟩
      obtain ⟨hline, hentry⟩ := export_breaker hrow
      refine ⟨⟨hline, hclean⟩, ⟨method, host, doubleText g.value⟩ :: rows, ?_, ?_⟩
      · rw [List.filter_cons_of_pos (by simpa using hbreaker.name)]
        exact .cons hrow hrows
      · rw [hentry, List.map_cons, List.singleton_append]

/-- The list that the handler makes of an export: a row for each gauge of a breaker. -/
theorem breakers_export {r : Registry} (h : TidyRegistry r)
    (order : Iteration r) :
    ∃ rows, List.Forall₂ RowOf (order.gauges.filter (·.name = gaugeName)) rows ∧
      breakers true (exportText order) = [44].intercalate (rows.map Row.text) := by
  have hcounters : ∀ line ∈ order.counters.flatMap Counter.exportLines, Silent line.text := by
    intro line hline
    obtain ⟨c, hc, hline⟩ := List.mem_flatMap.mp hline
    have hmem := order.counters_perm.mem_iff.mp hc
    exact silent_counter (h.counters _ (List.mem_map_of_mem hmem)) hline
  have hhists : ∀ line ∈ order.hists.flatMap (Histogram.exportLines), Silent line.text := by
    intro line hline
    obtain ⟨m, hm, hline⟩ := List.mem_flatMap.mp hline
    exact silent_histogram (h.hists _ (List.mem_map_of_mem (order.hists_perm.mem_iff.mp hm))) hline
  have hsilent : ∀ lines : List ExportLine, (∀ line ∈ lines, Silent line.text) →
      (lines.map ExportLine.text).filterMap entry = [] := by
    intro lines hlines
    rw [List.filterMap_eq_nil_iff]
    intro text htext
    obtain ⟨line, hline, rfl⟩ := List.mem_map.mp htext
    exact (hlines line hline).2
  obtain ⟨hgauges, rows, hrows, hentries⟩ := export_gauges
    fun g hg => h.gauges _ (List.mem_map_of_mem (order.gauges_perm.mem_iff.mp hg))
  refine ⟨rows, hrows, ?_⟩
  have hclean : ∀ text ∈ (order.lines).map ExportLine.text, 10 ∉ text := by
    intro text htext
    obtain ⟨line, hline, rfl⟩ := List.mem_map.mp htext
    rcases List.mem_append.mp hline with hline | hline
    · rcases List.mem_append.mp hline with hline | hline
      · exact (hcounters line hline).1
      · exact hgauges line hline
    · exact (hhists line hline).1
  have hlines := (breakers_lines _ hclean).2
  rw [List.flatMap_map] at hlines
  rw [exportText, hlines, Iteration.lines, List.map_append, List.map_append,
    List.filterMap_append, List.filterMap_append, hsilent _ hcounters, hsilent _ hhists, hentries,
    List.nil_append, List.append_nil]

end DiagnoseHandler

/-! The reports. -/

open DiagnoseHandler

namespace MetricHooks

/-- The reference to the gauge of a breaker. -/
def circuitGauge (r : Registry) (method host : Bytes) : Nat × Registry :=
  r.gauge gaugeName (str "Circuit breaker state") (Row.labels ⟨method, host, []⟩)

/-- 0 for CLOSED, 1 for OPEN, 2 for HALF_OPEN. -/
def onCircuitState (r : Registry) (method host : Bytes) (state : Int) : Registry :=
  let (p, r) := circuitGauge r method host
  r.act (.writeGauge p (.finite state))

end MetricHooks

/-- A report has its reference before it writes, so others can come between: `reference` is
a report that has not written yet. -/
inductive MetricEvent where
  | reference (method host : Bytes)
  | circuitState (method host : Bytes) (state : Int)
  | other (a : Metrics.Act)

/-- `reports` is a history, with the latest first and what a new gauge holds as the oldest. -/
structure MetricRun where
  registry : Registry := {}
  reports : List ((Bytes × Bytes) × Int) := []

def metricStep (s : MetricRun) : MetricEvent → Option MetricRun
  | .reference method host =>
    some ⟨(MetricHooks.circuitGauge s.registry method host).2,
      s.reports ++ [((method, host), 0)]⟩
  | .circuitState method host state =>
    some ⟨MetricHooks.onCircuitState s.registry method host state,
      ((method, host), state) :: s.reports⟩
  | .other a => some { s with registry := s.registry.act a }

/-- The last report of a breaker. -/
def MetricRun.last (s : MetricRun) (method host : Bytes) : Option Int :=
  s.reports.lookup (method, host)

/-- No label of a breaker needs an escape, and nobody else has a series of that name, or
writes to one. -/
def Unmixed (s : MetricRun) : MetricEvent → Prop
  | .reference method host => Row.Plain method host
  | .circuitState method host _ => Row.Plain method host
  | .other (.get _ name help ls) => Tidy (describe name help ls)
  | .other (.writeGauge p _) => ∀ g, s.registry.gauges.objects[p]? = some g → g.name ≠ gaugeName
  | .other _ => True

/-! Keys. -/

namespace Metrics.Pool
variable {M : Type} {describedBy : M → Description} {pool : Pool M} {key : Bytes} {new : M}

/-- Each object is the one its key leads to. -/
def Own (describedBy : M → Description) (pool : Pool M) : Prop :=
  ∀ p d, (pool.descriptions describedBy)[p]? = some d → pool.table.lookup d.key = some p

theorem Own.get (h : pool.Own describedBy) (hnew : (describedBy new).key = key) :
    (pool.get key new).2.Own describedBy := by
  unfold Pool.get
  split
  · exact h
  · rename_i hnone
    intro p d hd
    simp only [descriptions, List.map_append, List.map_singleton, List.getElem?_append,
      List.length_map] at hd
    split at hd
    · have hold := h p d hd
      have hne : d.key ≠ key := by
        intro heq
        rw [heq, hnone] at hold
        cases hold
      rwa [AList.lookup_insert_ne hne]
    · rename_i hlength
      cases hi : p - pool.objects.length with
      | zero =>
        rw [hi] at hd
        obtain rfl := Option.some.inj hd
        rw [hnew, AList.lookup_insert]
        exact congrArg some (by omega)
      | succ i =>
        rw [hi] at hd
        cases hd

theorem Own.modify (h : pool.Own describedBy) {p : Nat} {f : M → M}
    (hf : ∀ m, describedBy (f m) = describedBy m) : (pool.modify p f).Own describedBy := by
  intro q d hd
  rw [descriptions_modify hf] at hd
  exact h q d hd

theorem Own.nodup (h : pool.Own describedBy) :
    ((pool.descriptions describedBy).map Description.key).Nodup := by
  rw [List.Nodup, List.pairwise_map, List.pairwise_iff_getElem]
  intro p q hp hq hlt heq
  have hfound := h p _ (List.getElem?_eq_getElem hp)
  rw [heq, h q _ (List.getElem?_eq_getElem hq)] at hfound
  exact Nat.ne_of_gt hlt (Option.some.inj hfound)

/-- The objects after a call are those that were there, and a new one if the key had none. -/
theorem getElem?_get {p : Nat} {m : M} (hm : (pool.get key new).2.objects[p]? = some m) :
    pool.objects[p]? = some m ∨ pool.table.lookup key = none ∧ m = new := by
  unfold Pool.get at hm
  split at hm
  · exact .inl hm
  · rename_i hnone
    rw [List.getElem?_append] at hm
    split at hm
    · exact .inl hm
    · exact .inr ⟨hnone, List.mem_singleton.mp (List.mem_of_getElem? hm)⟩

theorem getElem?_modify {p q : Nat} {f : M → M} {m : M}
    (hm : (pool.modify p f).objects[q]? = some m) :
    ∃ old, pool.objects[q]? = some old ∧ m = if p = q then f old else old := by
  rw [Pool.modify, List.getElem?_modify] at hm
  obtain ⟨old, hold, rfl⟩ := Option.map_eq_some_iff.mp hm
  exact ⟨old, hold, rfl⟩

end Metrics.Pool

namespace DiagnoseHandler

theorem isLabelName_row : IsLabelName (str "method") ∧ IsLabelName (str "host") :=
  ⟨isName_of_all (by decide) (by decide), isName_of_all (by decide) (by decide)⟩

theorem labels_inj {m h m' h' : Bytes} (hplain : Row.Plain m h) (hplain' : Row.Plain m' h')
    (heq : formatLabels (Row.labels ⟨m, h, []⟩) = formatLabels (Row.labels ⟨m', h', []⟩)) :
    m = m' ∧ h = h' := by
  have hnames : ∀ m h, Row.Plain m h → ∀ l ∈ Row.labels ⟨m, h, []⟩,
      IsLabelName l.1 ∧ Verbatim l.2 := by
    intro m h hplain l hl
    simp only [Row.labels, List.mem_cons, List.not_mem_nil, or_false] at hl
    rcases hl with rfl | rfl
    · exact ⟨isLabelName_row.1, hplain.method.1⟩
    · exact ⟨isLabelName_row.2, hplain.host.1⟩
  have hsame := formatLabels_inj (hnames m h hplain) (hnames m' h' hplain') heq
  simp only [Row.labels, List.cons.injEq, Prod.mk.injEq, true_and, and_true] at hsame
  exact hsame

theorem IsBreaker.key {d : Description} {m h : Bytes} (hd : IsBreaker d m h) :
    d.key = seriesKey gaugeName (Row.labels ⟨m, h, []⟩) := by
  rw [Description.key, hd.name, hd.labels, seriesKey]

theorem IsBreaker.unique {d : Description} {m h m' h' : Bytes} (hd : IsBreaker d m h)
    (hd' : IsBreaker d m' h') : m = m' ∧ h = h' :=
  labels_inj hd.plain hd'.plain (hd.labels.symm.trans hd'.labels)

theorem Tidy.not_breaker {d : Description} (h : Tidy d) {m host : Bytes} : ¬ IsBreaker d m host :=
  fun hd => h.name.2 (hd.name ▸ List.suffix_rfl)

/-- Nobody else has the key of a breaker. -/
theorem isBreaker_of_key {d : Description} {m h : Bytes} (hplain : Row.Plain m h)
    (hd : Tidy d ∨ ∃ m h, IsBreaker d m h)
    (hkey : d.key = seriesKey gaugeName (Row.labels ⟨m, h, []⟩)) : IsBreaker d m h := by
  rcases hd with htidy | ⟨m', h', hbreaker⟩
  · obtain ⟨ls, hls, hclean⟩ := htidy.labels
    have hgauge : 123 ∉ gaugeName := by decide
    rw [Description.key, hls, seriesKey, formatLabels_row] at hkey
    rcases formatLabels_cases hclean with hnil | ⟨rest, hrest, -⟩
    · rw [hnil, List.append_nil] at hkey
      exact absurd (hkey ▸ List.mem_append_right _ (List.mem_cons_self ..)) htidy.name.1.2
    · rw [hrest] at hkey
      have hname := (split_first htidy.name.1.2 hgauge hkey).1
      exact absurd (hname ▸ List.suffix_rfl) htidy.name.2
  · rw [hbreaker.key] at hkey
    obtain ⟨rfl, rfl⟩ := labels_inj hbreaker.plain hplain (List.append_cancel_left hkey)
    exact hbreaker

end DiagnoseHandler

/-! What the registry holds of the reports. -/

structure Reported (r : Registry) (last : Bytes → Bytes → Option Int) : Prop where
  tidy : TidyRegistry r
  indexed : r.Indexed
  own : r.gauges.Own Gauge.toDescription
  reported : ∀ (p : Nat) (g : Gauge), r.gauges.objects[p]? = some g → ∀ method host,
    IsBreaker g.toDescription method host →
      ∃ state : Int, last method host = some state ∧ g.value = .finite state
  every : ∀ method host state, last method host = some state →
    ∃ d ∈ r.descriptions .gauge, IsBreaker d method host

namespace Reported
variable {r : Registry} {last : Bytes → Bytes → Option Int} {method host : Bytes}

theorem description {p : Nat} {g : Gauge} (hg : r.gauges.objects[p]? = some g) :
    (r.gauges.descriptions Gauge.toDescription)[p]? = some g.toDescription := by
  rw [Pool.descriptions, List.getElem?_map, hg, Option.map_some]

theorem own_act (h : r.gauges.Own Gauge.toDescription) (a : Metrics.Act) :
    (r.act a).gauges.Own Gauge.toDescription := by
  cases a with
  | get kind name help ls =>
    cases kind with
    | counter => exact h
    | gauge => exact h.get rfl
    | histogram => exact h
  | writeCounter p value => exact h
  | writeGauge p value => exact h.modify fun _ => rfl
  | writeHistogram p count sum b => exact h

theorem every_act (h : Reported r last) (a : Metrics.Act) {state : Int}
    (hlast : last method host = some state) :
    ∃ d ∈ (r.act a).descriptions .gauge, IsBreaker d method host := by
  obtain ⟨d, hd, hbreaker⟩ := h.every method host state hlast
  exact ⟨d, (Registry.prefix_act a .gauge).subset hd, hbreaker⟩

theorem tidy_act (h : TidyRegistry r) {a : Metrics.Act}
    (hget : ∀ kind name help ls, a = .get kind name help ls → Tidy (describe name help ls) ∨
      kind = .gauge ∧ ∃ method host, IsBreaker (describe name help ls) method host) :
    TidyRegistry (r.act a) := by
  have hmem : ∀ kind d, d ∈ (r.act a).descriptions kind → d ∈ r.descriptions kind ∨ Tidy d ∨
      kind = .gauge ∧ ∃ method host, IsBreaker d method host := by
    intro kind d hd
    rcases Registry.descriptions_act a kind with hsame | ⟨name, help, ls, ha, hadd⟩
    · exact .inl (hsame ▸ hd)
    · rw [hadd, List.mem_append, List.mem_singleton] at hd
      rcases hd with hold | rfl
      · exact .inl hold
      · exact .inr (hget kind name help ls ha)
  constructor
  · intro d hd
    rcases hmem .counter d hd with hold | htidy | ⟨hkind, -⟩
    · exact h.counters d hold
    · exact htidy
    · cases hkind
  · intro d hd
    rcases hmem .gauge d hd with hold | htidy | ⟨-, hbreaker⟩
    · exact h.gauges d hold
    · exact .inl htidy
    · exact .inr hbreaker
  · intro d hd
    rcases hmem .histogram d hd with hold | htidy | ⟨hkind, -⟩
    · exact h.hists d hold
    · exact htidy
    · cases hkind

/-- An act of others leaves the gauges of the breakers as they are. -/
theorem act_other (h : Reported r last) {a : Metrics.Act}
    (hget : ∀ kind name help ls, a = .get kind name help ls → Tidy (describe name help ls))
    (hwrite : ∀ p value g, a = .writeGauge p value → r.gauges.objects[p]? = some g →
      g.name ≠ gaugeName) : Reported (r.act a) last := by
  refine ⟨tidy_act h.tidy fun kind name help ls ha => .inl (hget kind name help ls ha),
    h.indexed.act a, own_act h.own a, ?_, fun method host state => h.every_act a⟩
  intro p g hg method host hbreaker
  refine h.reported p g ?_ method host hbreaker
  cases a with
  | get kind name help ls =>
    cases kind with
    | counter => exact hg
    | gauge =>
      rcases Pool.getElem?_get hg with hold | ⟨-, rfl⟩
      · exact hold
      · exact absurd hbreaker (hget .gauge name help ls rfl).not_breaker
    | histogram => exact hg
  | writeCounter p' value => exact hg
  | writeGauge p' value =>
    obtain ⟨old, hold, rfl⟩ := Pool.getElem?_modify hg
    split at hbreaker
    · rename_i hp
      subst hp
      exact absurd hbreaker.name (hwrite p' value old rfl hold)
    · rename_i hp
      rw [if_neg hp]
      exact hold
  | writeHistogram p' count sum b => exact hg

theorem isBreaker_create (hplain : Row.Plain method host) :
    IsBreaker (describe gaugeName (str "Circuit breaker state") (Row.labels ⟨method, host, []⟩))
      method host where
  name := rfl
  help := (by decide : Unbraced (str "Circuit breaker state"))
  labels := rfl
  plain := hplain

theorem tidy_circuitGauge (h : TidyRegistry r) (hplain : Row.Plain method host) :
    TidyRegistry (MetricHooks.circuitGauge r method host).2 := by
  refine tidy_act (a := .get .gauge gaugeName (str "Circuit breaker state")
    (Row.labels ⟨method, host, []⟩)) h ?_
  intro kind name help ls ha
  cases ha
  exact .inr ⟨rfl, method, host, isBreaker_create hplain⟩

/-- The reference is to the gauge of the breaker. -/
theorem circuitGauge_breaker (h : Reported r last) (hplain : Row.Plain method host) :
    ∃ d, ((MetricHooks.circuitGauge r method host).2.descriptions .gauge)[
      (MetricHooks.circuitGauge r method host).1]? = some d ∧ IsBreaker d method host := by
  obtain ⟨d, hd, hkey⟩ := Registry.get_key h.indexed .gauge gaugeName
    (str "Circuit breaker state") (Row.labels ⟨method, host, []⟩)
  have htidy := (tidy_circuitGauge h.tidy hplain).gauges d (List.mem_of_getElem? hd)
  exact ⟨d, hd, isBreaker_of_key hplain htidy hkey⟩

/-- A new gauge stands at zero. -/
theorem circuitGauge (h : Reported r last) (hplain : Row.Plain method host) :
    Reported (MetricHooks.circuitGauge r method host).2 fun method' host' =>
      (last method' host').or (if (method', host') = (method, host) then some 0 else none) := by
  generalize ha : Metrics.Act.get .gauge gaugeName (str "Circuit breaker state")
    (Row.labels ⟨method, host, []⟩) = a
  have hact : (MetricHooks.circuitGauge r method host).2 = r.act a := ha ▸ rfl
  refine ⟨tidy_circuitGauge h.tidy hplain, hact ▸ h.indexed.act a, hact ▸ own_act h.own a, ?_, ?_⟩
  · intro p g hg method' host' hbreaker
    rcases Pool.getElem?_get hg with hold | ⟨hnone, rfl⟩
    · obtain ⟨state, hlast, hvalue⟩ := h.reported p g hold method' host' hbreaker
      exact ⟨state, by rw [hlast, Option.some_or], hvalue⟩
    · obtain ⟨rfl, rfl⟩ := hbreaker.unique (isBreaker_create hplain)
      -- a report would have left a gauge with this key
      have hlast : last method' host' = none := by
        cases hlast : last method' host' with
        | none => rfl
        | some state =>
          obtain ⟨d, hd, hd'⟩ := h.every method' host' state hlast
          obtain ⟨q, hq⟩ := List.mem_iff_getElem?.mp hd
          have hfound := h.own q d hq
          rw [hd'.key, hnone] at hfound
          cases hfound
      exact ⟨0, by rw [hlast, Option.none_or, if_pos rfl], rfl⟩
  · intro method' host' state hlast
    cases hold : last method' host' with
    | some state' => exact hact ▸ h.every_act a hold
    | none =>
      rw [hold, Option.none_or] at hlast
      split at hlast
      · rename_i hsame
        cases hsame
        obtain ⟨d, hd, hd'⟩ := h.circuitGauge_breaker hplain
        exact ⟨d, List.mem_of_getElem? hd, hd'⟩
      · cases hlast

/-- A write through a reference to the gauge of a breaker. -/
theorem write (h : Reported r last) {p : Nat} {d : Description}
    (hd : (r.descriptions .gauge)[p]? = some d) (hbreaker : IsBreaker d method host)
    (state : Int) : Reported (r.act (.writeGauge p (.finite state))) fun method' host' =>
      if (method', host') = (method, host) then some state else last method' host' := by
  refine ⟨tidy_act h.tidy nofun, h.indexed.act _, own_act h.own _, ?_, ?_⟩
  · intro q g hg method' host' hbreaker'
    obtain ⟨old, hold, rfl⟩ := Pool.getElem?_modify hg
    by_cases hp : p = q
    · subst hp
      rw [if_pos rfl] at hbreaker' ⊢
      have hsame : d = old.toDescription := Option.some.inj (hd.symm.trans (description hold))
      obtain ⟨rfl, rfl⟩ := hbreaker.unique (hsame ▸ hbreaker')
      exact ⟨state, if_pos rfl, rfl⟩
    · rw [if_neg hp] at hbreaker' ⊢
      have hother : ¬ (method', host') = (method, host) := by
        intro hsame
        cases hsame
        have hfound := h.own q _ (description hold)
        rw [hbreaker'.key, ← hbreaker.key, h.own p d hd] at hfound
        exact hp (Option.some.inj hfound)
      rw [if_neg hother]
      exact h.reported q old hold method' host' hbreaker'
  · intro method' host' state' hlast
    split at hlast
    · rename_i hsame
      cases hsame
      exact ⟨d, (Registry.prefix_act _ .gauge).subset (List.mem_of_getElem? hd), hbreaker⟩
    · exact h.every_act _ hlast

end Reported

theorem lookup_cons_ite (key key' : Bytes × Bytes) (state : Int)
    (reports : List ((Bytes × Bytes) × Int)) : ((key', state) :: reports).lookup key =
      if key = key' then some state else reports.lookup key := by
  rw [List.lookup_cons]
  by_cases hkey : key = key'
  · rw [if_pos hkey, beq_iff_eq.mpr hkey]
  · rw [if_neg hkey, beq_false_of_ne hkey]

def MetricInv (s : MetricRun) : Prop := Reported s.registry s.last

theorem metricInv_init : MetricInv {} where
  tidy := ⟨nofun, nofun, nofun⟩
  indexed := Registry.indexed_empty
  own := nofun
  reported := nofun
  every := nofun

theorem MetricInv.step {s t : MetricRun} {e : MetricEvent} (hinv : MetricInv s)
    (hok : Unmixed s e) (h : metricStep s e = some t) : MetricInv t := by
  cases e with
  | reference method host =>
    obtain rfl := Option.some.inj h
    have hlast : MetricRun.last ⟨(MetricHooks.circuitGauge s.registry method host).2,
        s.reports ++ [((method, host), 0)]⟩ = fun method' host' => (s.last method' host').or
          (if (method', host') = (method, host) then some 0 else none) := by
      funext method' host'
      rw [MetricRun.last, List.lookup_append, lookup_cons_ite, List.lookup_nil]
      rfl
    rw [MetricInv, hlast]
    exact hinv.circuitGauge hok
  | circuitState method host state =>
    obtain rfl := Option.some.inj h
    obtain ⟨d, hd, hbreaker⟩ := Reported.circuitGauge_breaker hinv hok
    have hlast : MetricRun.last ⟨MetricHooks.onCircuitState s.registry method host state,
        ((method, host), state) :: s.reports⟩ = fun method' host' =>
          if (method', host') = (method, host) then some state else
            (s.last method' host').or
              (if (method', host') = (method, host) then some 0 else none) := by
      funext method' host'
      rw [MetricRun.last, lookup_cons_ite]
      split
      · rfl
      · rw [Option.or_none]
        rfl
    rw [MetricInv, hlast]
    exact (hinv.circuitGauge hok).write hd hbreaker state
  | other a =>
    obtain rfl := Option.some.inj h
    refine Reported.act_other hinv ?_ ?_
    · intro kind name help ls ha
      subst ha
      exact hok
    · intro p value g ha hg
      subst ha
      exact hok g hg

/-- The row of a breaker says its key. -/
def rowKey (pair : Bytes × Bytes) : Bytes :=
  seriesKey gaugeName (Row.labels ⟨pair.1, pair.2, []⟩)

theorem map_key_rows {gs : List Gauge} {rows : List Row}
    (h : List.Forall₂ RowOf gs rows) :
    (rows.map fun row => (row.method, row.host)).map rowKey =
      (gs.map Gauge.toDescription).map Description.key := by
  induction h with
  | nil => rfl
  | cons hrow _ ih =>
    rw [List.map_cons, List.map_cons, ih, rowKey, ← hrow.1.key]
    rfl

theorem mem_of_forall₂ {α β : Type} {R : α → β → Prop} {xs : List α} {ys : List β}
    (h : List.Forall₂ R xs ys) :
    (∀ x ∈ xs, ∃ y ∈ ys, R x y) ∧ ∀ y ∈ ys, ∃ x ∈ xs, R x y := by
  induction h with
  | nil => exact ⟨nofun, nofun⟩
  | cons hxy _ ih =>
    obtain ⟨hforth, hback⟩ := ih
    constructor
    · intro x hx
      cases hx with
      | head => exact ⟨_, List.mem_cons_self .., hxy⟩
      | tail _ hx =>
        obtain ⟨y, hy, hr⟩ := hforth x hx
        exact ⟨y, List.mem_cons_of_mem _ hy, hr⟩
    · intro y hy
      cases hy with
      | head => exact ⟨_, List.mem_cons_self .., hxy⟩
      | tail _ hy =>
        obtain ⟨x, hx, hr⟩ := hback y hy
        exact ⟨x, List.mem_cons_of_mem _ hx, hr⟩

/-- The list that `/diagnose` makes has one row for each breaker that has ever reported, with
its last report, wherever the handler stands in the run and whatever else the registry holds. -/
theorem diagnose_reports {s : MetricRun}
    (h : Run metricStep Unmixed {} s) (order : Iteration s.registry) :
    ∃ rows : List Row,
      breakers true (exportText order) = [44].intercalate (rows.map Row.text) ∧
      (rows.map fun row => (row.method, row.host)).Nodup ∧
      ∀ method host state, ⟨method, host, state⟩ ∈ rows ↔
        ∃ n : Int, s.last method host = some n ∧ state = doubleText (.finite n) := by
  have hinv : MetricInv s := h.invariant MetricInv metricInv_init fun _ _ _ => MetricInv.step
  obtain ⟨rows, hrows, htext⟩ := breakers_export hinv.tidy order
  obtain ⟨hrow, hgauge⟩ := mem_of_forall₂ hrows
  have hreported : ∀ g ∈ order.gauges, ∀ method host, IsBreaker g.toDescription method host →
      ∃ n : Int, s.last method host = some n ∧ g.value = .finite n := by
    intro g hg
    obtain ⟨p, hp⟩ := List.mem_iff_getElem?.mp (order.gauges_perm.mem_iff.mp hg)
    exact hinv.reported p g hp
  refine ⟨rows, htext, ?_, fun method host state => ⟨?_, ?_⟩⟩
  · have hkeys : ((order.gauges.map Gauge.toDescription).map Description.key).Nodup :=
      ((order.gauges_perm.map _).map _).nodup_iff.mpr hinv.own.nodup
    have hsub : List.Sublist
        (((order.gauges.filter (·.name = gaugeName)).map Gauge.toDescription).map Description.key)
        ((order.gauges.map Gauge.toDescription).map Description.key) :=
      (List.filter_sublist.map _).map _
    exact List.Nodup.of_map rowKey (map_key_rows hrows ▸ hkeys.sublist hsub)
  · intro hmem
    obtain ⟨g, hg, hbreaker, hstate⟩ := hgauge _ hmem
    obtain ⟨n, hlast, hvalue⟩ := hreported g (List.mem_of_mem_filter hg) method host hbreaker
    exact ⟨n, hlast, hvalue ▸ hstate⟩
  · intro hlast
    obtain ⟨n, hlast, rfl⟩ := hlast
    obtain ⟨d, hd, hbreaker⟩ := hinv.every method host n hlast
    obtain ⟨g, hg, rfl⟩ := List.mem_map.mp hd
    have hg' : g ∈ order.gauges := order.gauges_perm.mem_iff.mpr hg
    obtain ⟨row, hmem, hbreaker', hstate⟩ := hrow g
      (List.mem_filter.mpr ⟨hg', by simpa using hbreaker.name⟩)
    obtain ⟨n', hlast', hvalue⟩ := hreported g hg' method host hbreaker
    obtain ⟨hmethod, hhost⟩ := hbreaker.unique hbreaker'
    rw [hlast] at hlast'
    obtain rfl := Option.some.inj hlast'
    have hrow' : row = ⟨method, host, doubleText (.finite n)⟩ := by
      rw [← hvalue, ← hstate, hmethod, hhost]
    exact hrow' ▸ hmem

/-- One breaker opens and closes again, another is half open, and calls are counted. -/
theorem diagnose_reports_closed : ∃ (s : MetricRun) (order : Iteration s.registry)
    (rows : List Row),
    breakers true (exportText order) = [44].intercalate (rows.map Row.text) ∧
    ⟨str "add", str "10.0.0.1:80", integerText 0⟩ ∈ rows ∧
    ⟨str "echo", str "10.0.0.2:80", integerText 2⟩ ∈ rows := by
  have hplain : ∀ method host,
      (method ++ host).all (fun b => b ≠ 34 ∧ b ≠ 92 ∧ b ≠ 10 ∧ b ≠ 123) = true →
      61 ∉ method → Row.Plain method host := by
    intro method host hall hequals
    have hboth := List.forall_mem_append.mp fun b hb =>
      of_decide_eq_true (List.all_eq_true.mp hall b hb)
    exact ⟨⟨fun b hb => ⟨(hboth.1 b hb).1, (hboth.1 b hb).2.1, (hboth.1 b hb).2.2.1⟩,
        fun hb => (hboth.1 123 hb).2.2.2 rfl, hequals⟩,
      fun b hb => ⟨(hboth.2 b hb).1, (hboth.2 b hb).2.1, (hboth.2 b hb).2.2.1⟩,
      fun hb => (hboth.2 123 hb).2.2.2 rfl⟩
  have hadd : Row.Plain (str "add") (str "10.0.0.1:80") := hplain _ _ (by decide) (by decide)
  have hecho : Row.Plain (str "echo") (str "10.0.0.2:80") := hplain _ _ (by decide) (by decide)
  have hcounter : Tidy (describe (str "rpc_requests_total") (str "RPC requests")
      [(str "method", str "add")]) :=
    ⟨⟨⟨by decide, by decide⟩, by decide⟩, (by decide : Unbraced (str "RPC requests")),
      [(str "method", str "add")], rfl, by decide⟩
  have hrun : Run metricStep Unmixed {} _ :=
    .snoc (a := .circuitState (str "echo") (str "10.0.0.2:80") 2)
      (.snoc (a := .circuitState (str "add") (str "10.0.0.1:80") 0)
        (.snoc (a := .other (.get .counter (str "rpc_requests_total") (str "RPC requests")
            [(str "method", str "add")]))
          (.snoc (a := .circuitState (str "add") (str "10.0.0.1:80") 1) .refl hadd rfl)
          hcounter rfl) hadd rfl) hecho rfl
  obtain ⟨rows, htext, -, hmem⟩ := diagnose_reports hrun ⟨_, _, _, .rfl, .rfl, .rfl⟩
  exact ⟨_, _, rows, htext, (hmem _ _ _).mpr ⟨0, by decide, by decide +kernel⟩,
    (hmem _ _ _).mpr ⟨2, by decide, by decide +kernel⟩⟩

end LyqtRpc
