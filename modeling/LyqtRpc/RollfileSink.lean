import Mathlib.Data.List.Range
import LyqtRpc.Lib.AppendFiles
import LyqtRpc.Lib.ByteText

/-!
`RollfileSink` of `log_system/sink.hpp`: blocks go to one file until the next
one would pass the bound, then to a new one, under a name that `snprintf` cuts
off at the size of its buffer.
-/

set_option autoImplicit false

namespace LyqtRpc

open AppendFiles

/-- A local time as `localtime_r` gives it, from the year 1900 on. -/
structure Tm where
  tm_year : Nat
  tm_mon : Fin 12
  tm_mday : Fin 32
  tm_hour : Fin 24
  tm_min : Fin 60
  tm_sec : Fin 61

/-- `%04d` and `%02d` -/
def padded (width n : Nat) : Bytes :=
  List.replicate (width - (natText n).length) 48 ++ natText n

namespace Tm

def date (tt : Tm) : Bytes :=
  padded 4 (tt.tm_year + 1900) ++ padded 2 (tt.tm_mon + 1) ++ padded 2 tt.tm_mday

def time (tt : Tm) : Bytes :=
  padded 2 tt.tm_hour ++ padded 2 tt.tm_min ++ padded 2 tt.tm_sec

end Tm

def underscore : UInt8 := '_'.toUInt8

/-- All sizes are lengths of what is in memory or in a file, so `_cur_size + len`
is far from 2^64. `opened` lists the names in the order of the calls of `open`. -/
structure RollfileSink where
  basename : Bytes
  maxSize : Nat
  curSize : Nat
  /-- `static int seq` -/
  seq : Nat
  current : Bytes
  files : List (Bytes × Bytes)
  opened : List Bytes

namespace RollfileSink

/-- What is printed in front of the sequence number. -/
def stem (basename : Bytes) (tt : Tm) : Bytes :=
  cString basename ++ (tt.date ++ underscore :: (tt.time ++ [underscore]))

/-- `char buf[160]` -/
def craetefilename (basename : Bytes) (tt : Tm) (seq : Nat) : Bytes :=
  (stem basename tt ++ (natText seq ++ str ".log")).take 159

/-- Next file, at the time the clock then shows; `seq++` must not leave `int`. -/
def openNext (clock : Nat → Tm) (s : RollfileSink) : Option RollfileSink :=
  if s.seq + 1 < 2 ^ 31 then
    let pathname := craetefilename s.basename (clock s.seq) s.seq
    some { s with seq := s.seq + 1, current := pathname,
                  files := openApp pathname s.files, opened := s.opened ++ [pathname] }
  else none

def new (clock : Nat → Tm) (basename : Bytes) (maxSize : Nat) : Option RollfileSink :=
  openNext clock ⟨basename, maxSize, 0, 0, [], [], []⟩

def written (s : RollfileSink) (data : Bytes) : RollfileSink :=
  { s with files := write s.current data s.files }

def log (clock : Nat → Tm) (s : RollfileSink) (data : Bytes) : Option RollfileSink :=
  if s.maxSize < s.curSize + data.length then
    (openNext clock s).map fun s => { s with curSize := data.length }.written data
  else some ({ s with curSize := s.curSize + data.length }.written data)

def logAll (clock : Nat → Tm) (s : RollfileSink) : List Bytes → Option RollfileSink
  | [] => some s
  | data :: blocks => (log clock s data).bind fun s => logAll clock s blocks

def run (clock : Nat → Tm) (basename : Bytes) (maxSize : Nat) (blocks : List Bytes) :
    Option RollfileSink :=
  (new clock basename maxSize).bind fun s => logAll clock s blocks

/-- How often blocks of these lengths pass the bound, with `cur` bytes in the
file they begin with. -/
def rolls (maxSize cur : Nat) : List Nat → Nat
  | [] => 0
  | len :: lens =>
    if maxSize < cur + len then rolls maxSize len lens + 1 else rolls maxSize (cur + len) lens

def filesNeeded (maxSize : Nat) (lens : List Nat) : Nat := rolls maxSize 0 lens + 1

def names (clock : Nat → Tm) (basename : Bytes) (n : Nat) : List Bytes :=
  (List.range n).map fun i => craetefilename basename (clock i) i

/-- At most the bound, or a single block that is larger. -/
def Bounded (maxSize : Nat) (blocks : List Bytes) (content : Bytes) : Prop :=
  content.length ≤ maxSize ∨ ∃ b ∈ blocks, content = b ∧ maxSize < b.length

/-- What rolling promises of the files it leaves behind. -/
structure Keeps (s : RollfileSink) (blocks : List Bytes) : Prop where
  bounded : ∀ f ∈ s.files, Bounded s.maxSize blocks f.2
  fresh : s.opened.Nodup
  contents : contents s.files = blocks.flatten

theorem names_succ (clock : Nat → Tm) (basename : Bytes) (n : Nat) :
    names clock basename (n + 1) =
      names clock basename n ++ [craetefilename basename (clock n) n] := by
  simp [names, List.range_succ]

theorem name_not_mem {clock : Nat → Tm} {basename : Bytes} {n m : Nat}
    (h : (names clock basename m).Nodup) (hn : n < m) :
    craetefilename basename (clock n) n ∉ names clock basename n := by
  intro hmem
  obtain ⟨i, hi, heq⟩ := List.mem_map.mp hmem
  have hi := List.mem_range.mp hi
  have hinj := List.inj_on_of_nodup_map h (List.mem_range.mpr (Nat.lt_trans hi hn))
    (List.mem_range.mpr hn) heq
  omega

variable {clock : Nat → Tm} {basename : Bytes} {maxSize : Nat} {s s' : RollfileSink}
  {done : List Bytes}

/-- What a run never changes, and the names it has asked for. -/
structure Numbered (clock : Nat → Tm) (basename : Bytes) (maxSize : Nat)
    (s : RollfileSink) : Prop where
  base : s.basename = basename
  limit : s.maxSize = maxSize
  inInt : s.seq < 2 ^ 31
  opened : s.opened = names clock basename s.seq

theorem openNext_eq_some (hs : s.openNext clock = some s') : s.seq + 1 < 2 ^ 31 ∧
    s' = { s with
      seq := s.seq + 1
      current := craetefilename s.basename (clock s.seq) s.seq
      files := openApp (craetefilename s.basename (clock s.seq) s.seq) s.files
      opened := s.opened ++ [craetefilename s.basename (clock s.seq) s.seq] } := by
  unfold openNext at hs
  split at hs
  · rename_i hseq
    exact ⟨hseq, (Option.some.inj hs).symm⟩
  · cases hs

theorem Numbered.openNext (h : s.Numbered clock basename maxSize)
    (hs : s.openNext clock = some s') : s'.Numbered clock basename maxSize := by
  obtain ⟨hseq, rfl⟩ := openNext_eq_some hs
  refine ⟨h.base, h.limit, hseq, ?_⟩
  rw [names_succ, ← h.opened, ← h.base]

theorem Numbered.written (h : s.Numbered clock basename maxSize) (size : Nat) (data : Bytes) :
    ({ s with curSize := size }.written data).Numbered clock basename maxSize :=
  ⟨h.base, h.limit, h.inInt, h.opened⟩

theorem log_cases {data : Bytes} (hs : s.log clock data = some s') :
    (s.curSize + data.length ≤ s.maxSize ∧
      s' = { s with curSize := s.curSize + data.length }.written data) ∨
    (s.maxSize < s.curSize + data.length ∧ ∃ t, s.openNext clock = some t ∧
      s' = { t with curSize := data.length }.written data) := by
  unfold log at hs
  split at hs
  · rename_i hroll
    obtain ⟨t, ht, rfl⟩ := Option.map_eq_some_iff.mp hs
    exact .inr ⟨hroll, t, ht, rfl⟩
  · rename_i hfits
    exact .inl ⟨by omega, (Option.some.inj hs).symm⟩

theorem logAll_cons {data : Bytes} {blocks : List Bytes}
    (hs : s.logAll clock (data :: blocks) = some s') :
    ∃ t, s.log clock data = some t ∧ t.logAll clock blocks = some s' :=
  Option.bind_eq_some_iff.mp hs

theorem log_numbered {data : Bytes} (h : s.Numbered clock basename maxSize)
    (hs : s.log clock data = some s') : s'.Numbered clock basename maxSize ∧
      ∀ lens, s.seq + rolls maxSize s.curSize (data.length :: lens) =
        s'.seq + rolls maxSize s'.curSize lens := by
  rcases log_cases hs with ⟨hfits, rfl⟩ | ⟨hroll, t, ht, rfl⟩
  · refine ⟨h.written _ data, fun lens => ?_⟩
    rw [h.limit] at hfits
    rw [rolls, if_neg (by omega)]
    rfl
  · refine ⟨(h.openNext ht).written _ data, fun lens => ?_⟩
    obtain ⟨_, rfl⟩ := openNext_eq_some ht
    rw [h.limit] at hroll
    rw [rolls, if_pos hroll]
    simp only [RollfileSink.written]
    omega

theorem logAll_numbered {blocks : List Bytes} (h : s.Numbered clock basename maxSize)
    (hs : s.logAll clock blocks = some s') : s'.Numbered clock basename maxSize ∧
      s'.seq = s.seq + rolls maxSize s.curSize (blocks.map List.length) := by
  induction blocks generalizing s with
  | nil =>
      obtain rfl := Option.some.inj hs
      exact ⟨h, rfl⟩
  | cons data blocks ih =>
      obtain ⟨t, ht, hrest⟩ := logAll_cons hs
      obtain ⟨hnum, hcount⟩ := log_numbered h ht
      obtain ⟨hnum', hseq⟩ := ih hnum hrest
      exact ⟨hnum', by rw [List.map_cons, hcount, hseq]⟩

theorem logAll_isSome {blocks : List Bytes} (h : s.Numbered clock basename maxSize)
    (hseq : s.seq + rolls maxSize s.curSize (blocks.map List.length) < 2 ^ 31) :
    ∃ s', s.logAll clock blocks = some s' := by
  induction blocks generalizing s with
  | nil => exact ⟨s, rfl⟩
  | cons data blocks ih =>
      obtain ⟨t, ht⟩ : ∃ t, s.log clock data = some t := by
        unfold log
        split
        · rename_i hroll
          rw [h.limit] at hroll
          rw [List.map_cons, rolls, if_pos hroll] at hseq
          have hint : s.seq + 1 < 2 ^ 31 := by omega
          exact ⟨_, by rw [RollfileSink.openNext, if_pos hint]; rfl⟩
        · exact ⟨_, rfl⟩
      obtain ⟨hnum, hcount⟩ := log_numbered h ht
      rw [List.map_cons, hcount] at hseq
      obtain ⟨s', hs'⟩ := ih hnum hseq
      exact ⟨s', by rw [logAll, ht, Option.bind_some, hs']⟩

theorem new_numbered (hs : new clock basename maxSize = some s) :
    s.Numbered clock basename maxSize ∧ s.seq = 1 ∧ s.curSize = 0 := by
  have h : Numbered clock basename maxSize ⟨basename, maxSize, 0, 0, [], [], []⟩ :=
    ⟨rfl, rfl, Nat.two_pow_pos 31, rfl⟩
  refine ⟨h.openNext hs, ?_⟩
  obtain ⟨_, rfl⟩ := openNext_eq_some hs
  exact ⟨rfl, rfl⟩

theorem run_numbered {blocks : List Bytes} (hs : run clock basename maxSize blocks = some s) :
    s.Numbered clock basename maxSize ∧
      s.seq = filesNeeded maxSize (blocks.map List.length) := by
  obtain ⟨t, ht, hrest⟩ := Option.bind_eq_some_iff.mp hs
  obtain ⟨hnum, hseq, hcur⟩ := new_numbered ht
  obtain ⟨hnum', hseq'⟩ := logAll_numbered hnum hrest
  refine ⟨hnum', ?_⟩
  rw [hseq', hseq, hcur, filesNeeded]
  omega

theorem run_isSome (clock : Nat → Tm) (basename : Bytes) {blocks : List Bytes}
    (h : filesNeeded maxSize (blocks.map List.length) < 2 ^ 31) :
    ∃ s, run clock basename maxSize blocks = some s := by
  obtain ⟨t, ht⟩ : ∃ t, new clock basename maxSize = some t :=
    ⟨_, by rw [new, RollfileSink.openNext, if_pos (show 0 + 1 < 2 ^ 31 by decide)]⟩
  obtain ⟨hnum, hseq, hcur⟩ := new_numbered ht
  unfold filesNeeded at h
  obtain ⟨s, hs⟩ : ∃ s, t.logAll clock blocks = some s := by
    apply logAll_isSome hnum
    rw [hseq, hcur]
    omega
  exact ⟨s, by rw [run, ht, Option.bind_some, hs]⟩

/-- The open file is the last one; it holds what `curSize` counts. -/
structure Written (s : RollfileSink) (done : List Bytes) : Prop where
  last : ∃ front content, s.files = front ++ [(s.current, content)] ∧
    s.current ∉ front.map Prod.fst ∧ content.length = s.curSize ∧
    contents front ++ content = done.flatten
  named : ∀ f ∈ s.files, f.1 ∈ s.opened
  bounded : ∀ f ∈ s.files, Bounded s.maxSize done f.2

theorem Bounded.mono {content : Bytes} (h : Bounded maxSize done content) (data : Bytes) :
    Bounded maxSize (done ++ [data]) content := by
  refine h.imp_right ?_
  rintro ⟨b, hb, heq, hlt⟩
  exact ⟨b, List.mem_append_left _ hb, heq, hlt⟩

theorem Written.of_last (front : List (Bytes × Bytes)) (content : Bytes)
    (hfiles : s.files = front ++ [(s.current, content)])
    (hnew : s.current ∉ front.map Prod.fst) (hcur : content.length = s.curSize)
    (hdone : contents front ++ content = done.flatten) (hcurrent : s.current ∈ s.opened)
    (hnamed : ∀ f ∈ front, f.1 ∈ s.opened)
    (hfront : ∀ f ∈ front, Bounded s.maxSize done f.2)
    (hlast : Bounded s.maxSize done content) : s.Written done := by
  refine ⟨⟨front, content, hfiles, hnew, hcur, hdone⟩, ?_, ?_⟩
  · intro f hf
    rcases List.mem_append.mp (hfiles ▸ hf) with hf | hf
    · exact hnamed f hf
    · obtain rfl := List.mem_singleton.mp hf
      exact hcurrent
  · intro f hf
    rcases List.mem_append.mp (hfiles ▸ hf) with hf | hf
    · exact hfront f hf
    · obtain rfl := List.mem_singleton.mp hf
      exact hlast

theorem new_written (hs : new clock basename maxSize = some s) : s.Written [] := by
  obtain ⟨_, rfl⟩ := openNext_eq_some hs
  have hnone (name : Bytes) : name ∉ ([] : List (Bytes × Bytes)).map Prod.fst :=
    List.not_mem_nil
  refine Written.of_last [] [] (openApp_fresh (hnone _)) (hnone _) rfl rfl ?_ ?_ ?_
    (.inl (Nat.zero_le _))
  all_goals simp

theorem Written.fits (h : s.Written done) {data : Bytes}
    (hfits : s.curSize + data.length ≤ s.maxSize) :
    ({ s with curSize := s.curSize + data.length }.written data).Written (done ++ [data]) := by
  obtain ⟨front, content, hfiles, hnew, hcur, hdone⟩ := h.last
  have hnamed := h.named
  have hbounded := h.bounded
  rw [hfiles] at hnamed hbounded
  have hlen : (content ++ data).length = s.curSize + data.length := by
    rw [List.length_append, hcur]
  refine Written.of_last front (content ++ data) ?_ hnew hlen ?_
    (hnamed (s.current, content) (by simp)) (fun f hf => hnamed f (List.mem_append_left _ hf))
    (fun f hf => (hbounded f (List.mem_append_left _ hf)).mono data) (.inl (hlen ▸ hfits))
  · show write s.current data s.files = _
    rw [hfiles, write_last hnew]
    rfl
  · rw [← List.append_assoc, hdone, List.flatten_append]
    simp

theorem Written.rolls (h : s.Written done) {t : RollfileSink} {data : Bytes}
    (ht : s.openNext clock = some t)
    (hfresh : craetefilename s.basename (clock s.seq) s.seq ∉ s.opened) :
    ({ t with curSize := data.length }.written data).Written (done ++ [data]) := by
  obtain ⟨_, rfl⟩ := openNext_eq_some ht
  obtain ⟨front, content, hfiles, _, _, hdone⟩ := h.last
  have hkeys : craetefilename s.basename (clock s.seq) s.seq ∉ s.files.map Prod.fst := by
    intro hmem
    obtain ⟨f, hf, heq⟩ := List.mem_map.mp hmem
    exact hfresh (heq ▸ h.named f hf)
  have hlast : Bounded s.maxSize (done ++ [data]) data := by
    by_cases hle : data.length ≤ s.maxSize
    · exact .inl hle
    · exact .inr ⟨data, by simp, rfl, by omega⟩
  refine Written.of_last s.files data ?_ hkeys rfl ?_
    (List.mem_append_right _ (List.mem_singleton_self _))
    (fun f hf => List.mem_append_left _ (h.named f hf))
    (fun f hf => (h.bounded f hf).mono data) hlast
  · simp only [RollfileSink.written]
    rw [openApp_fresh hkeys, write_last hkeys, List.nil_append]
  · rw [hfiles, contents_append_last, hdone, List.flatten_append]
    simp

theorem logAll_written {blocks done : List Bytes} (h : s.Numbered clock basename maxSize)
    (hw : s.Written done) (hs : s.logAll clock blocks = some s')
    (hfresh : (names clock basename s'.seq).Nodup) : s'.Written (done ++ blocks) := by
  induction blocks generalizing s done with
  | nil =>
      obtain rfl := Option.some.inj hs
      rwa [List.append_nil]
  | cons data blocks ih =>
      obtain ⟨t, ht, hrest⟩ := logAll_cons hs
      obtain ⟨hnum, _⟩ := log_numbered h ht
      have hlast := (logAll_numbered hnum hrest).2
      have hstep : t.Written (done ++ [data]) := by
        rcases log_cases ht with ⟨hfits, rfl⟩ | ⟨_, u, hu, rfl⟩
        · exact hw.fits hfits
        · have hseq : s.seq < s'.seq := by
            obtain ⟨_, rfl⟩ := openNext_eq_some hu
            rw [hlast]
            simp only [RollfileSink.written]
            omega
          have hnew := name_not_mem hfresh hseq
          rw [← h.opened, ← h.base] at hnew
          exact hw.rolls hu hnew
      rw [List.append_cons]
      exact ih hnum hstep hrest

theorem run_keeps {blocks : List Bytes} (hs : run clock basename maxSize blocks = some s)
    (hfresh : (names clock basename s.seq).Nodup) : s.Keeps blocks := by
  obtain ⟨t, ht, hrest⟩ := Option.bind_eq_some_iff.mp hs
  have hw := logAll_written (new_numbered ht).1 (new_written ht) hrest hfresh
  obtain ⟨front, content, hfiles, _, _, hdone⟩ := hw.last
  refine ⟨hw.bounded, ?_, ?_⟩
  · rw [(run_numbered hs).1.opened]
    exact hfresh
  · rw [hfiles, contents_append_last, hdone]
    rfl

theorem isDigit_of_mem_padded {width n : Nat} {b : UInt8} (h : b ∈ padded width n) :
    isDigit b = true := by
  rcases List.mem_append.mp h with h | h
  · rw [List.eq_of_mem_replicate h]
    decide
  · exact isDigit_of_mem_natText h

theorem underscore_not_mem {l : Bytes} (h : ∀ b ∈ l, isDigit b = true) : underscore ∉ l :=
  fun hmem => absurd (h _ hmem) (by decide)

theorem isDigit_of_mem_date {tt : Tm} {b : UInt8} (h : b ∈ tt.date) : isDigit b = true := by
  simp only [Tm.date, List.mem_append] at h
  rcases h with (h | h) | h <;> exact isDigit_of_mem_padded h

theorem isDigit_of_mem_time {tt : Tm} {b : UInt8} (h : b ∈ tt.time) : isDigit b = true := by
  simp only [Tm.time, List.mem_append] at h
  rcases h with (h | h) | h <;> exact isDigit_of_mem_padded h

theorem length_padded {width n : Nat} : (padded width n).length = max width (natText n).length := by
  rw [padded, List.length_append, List.length_replicate]
  omega

theorem length_padded_two {n : Nat} (h : n < 100) : (padded 2 n).length = 2 := by
  have hle := (length_natText_le_iff (by decide : 0 < 2)).mpr h
  rw [length_padded]
  omega

theorem length_time (tt : Tm) : tt.time.length = 6 := by
  have hhour := length_padded_two (n := tt.tm_hour) (by omega)
  have hmin := length_padded_two (n := tt.tm_min) (by omega)
  have hsec := length_padded_two (n := tt.tm_sec) (by omega)
  rw [Tm.time, List.length_append, List.length_append, hhour, hmin, hsec]

theorem length_date (tt : Tm) :
    tt.date.length = max 4 (natText (tt.tm_year + 1900)).length + 4 := by
  have hmon := length_padded_two (n := tt.tm_mon + 1) (by omega)
  have hmday := length_padded_two (n := tt.tm_mday) (by omega)
  rw [Tm.date, List.length_append, List.length_append, hmon, hmday, length_padded]

theorem length_stem (basename : Bytes) (tt : Tm) : (stem basename tt).length =
    (cString basename).length + max 4 (natText (tt.tm_year + 1900)).length + 12 := by
  simp only [stem, List.length_append, List.length_cons, List.length_nil, length_date, length_time]
  omega

/-- A number that is kept whole can be read back from the name. -/
theorem natText_of_append {n m j k : Nat}
    (h : natText n ++ (str ".log").take j = natText m ++ (str ".log").take k) : n = m := by
  have hcut : ∀ n k, (natText n ++ (str ".log").take k).takeWhile isDigit = natText n := by
    intro n k
    rw [List.takeWhile_append_of_pos (fun _ hb => isDigit_of_mem_natText hb)]
    cases k <;> exact List.append_nil _
  have htext := congrArg (List.takeWhile isDigit) h
  rw [hcut, hcut] at htext
  have hvalue := congrArg digitsValue htext
  rwa [digitsValue_natText, digitsValue_natText] at hvalue

theorem craetefilename_whole {basename : Bytes} {tt : Tm} {seq : Nat}
    (h : (stem basename tt).length + (natText seq).length ≤ 159) :
    ∃ k, craetefilename basename tt seq =
      stem basename tt ++ (natText seq ++ (str ".log").take k) := by
  refine ⟨159 - (stem basename tt).length - (natText seq).length, ?_⟩
  rw [craetefilename, List.take_append, List.take_append, List.take_of_length_le (by omega),
    List.take_of_length_le (l := natText seq) (by omega)]

theorem seq_eq_of_name_eq {tt tt' : Tm} {n m : Nat}
    (hn : (stem basename tt).length + (natText n).length ≤ 159)
    (hm : (stem basename tt').length + (natText m).length ≤ 159)
    (h : craetefilename basename tt n = craetefilename basename tt' m) : n = m := by
  obtain ⟨j, hj⟩ := craetefilename_whole hn
  obtain ⟨k, hk⟩ := craetefilename_whole hm
  rw [hj, hk] at h
  simp only [stem, List.append_assoc, List.cons_append, List.nil_append] at h
  have hdate := List.append_cancel_left h
  have htime := (split_first (underscore_not_mem fun _ hb => isDigit_of_mem_date hb)
    (underscore_not_mem fun _ hb => isDigit_of_mem_date hb) hdate).2
  have hseq := (split_first (underscore_not_mem fun _ hb => isDigit_of_mem_time hb)
    (underscore_not_mem fun _ hb => isDigit_of_mem_time hb) htime).2
  exact natText_of_append hseq

/-- The number of files whose names the buffer tells apart, with years of up to
`4 + e` digits. -/
def capacity (e : Nat) (basename : Bytes) : Nat := 10 ^ (143 - e - (cString basename).length)

theorem names_nodup {e n : Nat} (hyear : ∀ i, (clock i).tm_year + 1900 < 10 ^ (4 + e))
    (hn : n ≤ capacity e basename) : (names clock basename n).Nodup := by
  refine List.Nodup.map_on (fun i hi j hj heq => ?_) List.nodup_range
  have hi := List.mem_range.mp hi
  have hj := List.mem_range.mp hj
  by_cases hroom : 143 - e - (cString basename).length = 0
  · rw [capacity, hroom] at hn
    omega
  · have hfits : ∀ i, i < n →
        (stem basename (clock i)).length + (natText i).length ≤ 159 := by
      intro i hi
      have hdigits : (natText i).length ≤ 143 - e - (cString basename).length :=
        (length_natText_le_iff (by omega)).mpr (Nat.lt_of_lt_of_le hi hn)
      have hyears := (length_natText_le_iff (by omega : 0 < 4 + e)).mpr (hyear i)
      rw [length_stem]
      omega
    exact seq_eq_of_name_eq (hfits i hi) (hfits j hj) heq

/-- A clock that stands still in a year of `4 + e` digits. -/
def still (e : Nat) : Tm := ⟨10 ^ (4 + e) - 1901, 0, 1, 0, 0, 0⟩

theorem still_year (e : Nat) : (still e).tm_year + 1900 < 10 ^ (4 + e) ∧
    (natText ((still e).tm_year + 1900)).length = 4 + e := by
  have hbig : 10 ^ 4 ≤ 10 ^ (4 + e) := Nat.pow_le_pow_right (by decide) (Nat.le_add_right 4 e)
  have hstep : 10 ^ (4 + e) = 10 * 10 ^ (3 + e) := by
    rw [← Nat.pow_succ']
    congr 1
    omega
  have hlt : (still e).tm_year + 1900 < 10 ^ (4 + e) := by
    show 10 ^ (4 + e) - 1901 + 1900 < 10 ^ (4 + e)
    omega
  have hge : ¬ (still e).tm_year + 1900 < 10 ^ (3 + e) := by
    show ¬ 10 ^ (4 + e) - 1901 + 1900 < 10 ^ (3 + e)
    omega
  have hle := (length_natText_le_iff (by omega : 0 < 4 + e)).mpr hlt
  have hgt := mt (length_natText_le_iff (by omega : 0 < 3 + e)).mp hge
  exact ⟨hlt, by omega⟩

theorem names_collide (e : Nat) (basename : Bytes) : ∃ i j, i < j ∧ j ≤ capacity e basename ∧
    craetefilename basename (still e) i = craetefilename basename (still e) j := by
  have hstem := length_stem basename (still e)
  rw [(still_year e).2] at hstem
  by_cases hroom : 143 - e - (cString basename).length = 0
  · refine ⟨0, 1, by decide, by rw [capacity, hroom]; decide, ?_⟩
    have hcut : ∀ l : Bytes, (stem basename (still e) ++ l).take 159 =
        (stem basename (still e)).take 159 :=
      fun l => List.take_append_of_le_length (by omega)
    rw [craetefilename, craetefilename, hcut, hcut]
  · -- The last digit of the larger number is the first byte that is cut off.
    obtain ⟨r, hr⟩ := Nat.exists_eq_succ_of_ne_zero hroom
    have hpow : 0 < 10 ^ r := Nat.pow_pos (by decide)
    have hcap : capacity e basename = 10 * 10 ^ r := by
      rw [capacity, hr, Nat.pow_succ']
    have hlen := length_natText_pow r
    refine ⟨10 ^ r, 10 * 10 ^ r, by omega, Nat.le_of_eq hcap.symm, ?_⟩
    have hcut : ∀ l : Bytes, (stem basename (still e) ++ (natText (10 ^ r) ++ l)).take 159 =
        stem basename (still e) ++ natText (10 ^ r) := by
      intro l
      rw [← List.append_assoc, List.take_append_of_le_length, List.take_of_length_le] <;>
        simp only [List.length_append] <;> omega
    rw [craetefilename, craetefilename, natText_mul_ten hpow, List.append_assoc, hcut, hcut]

theorem not_nodup_names {e n : Nat} (hn : capacity e basename < n) :
    ¬ (names (fun _ => still e) basename n).Nodup := by
  intro h
  obtain ⟨i, j, hlt, hj, heq⟩ := names_collide e basename
  have hinj := List.inj_on_of_nodup_map h (List.mem_range.mpr (by omega))
    (List.mem_range.mpr (by omega)) heq
  omega

end RollfileSink

/-- Rolling keeps its promise at every time the clock may show exactly as long as the
buffer tells the names apart and the number of files is an `int`. -/
theorem roll_keeps_iff (e : Nat) (basename : Bytes) (maxSize : Nat) (blocks : List Bytes) :
    (∀ clock : Nat → Tm, (∀ i, (clock i).tm_year + 1900 < 10 ^ (4 + e)) →
      ∃ s, RollfileSink.run clock basename maxSize blocks = some s ∧ s.Keeps blocks) ↔
    RollfileSink.filesNeeded maxSize (blocks.map List.length) ≤
        10 ^ (143 - e - (cString basename).length) ∧
      RollfileSink.filesNeeded maxSize (blocks.map List.length) < 2 ^ 31 := by
  constructor
  · intro h
    obtain ⟨s, hs, hkeeps⟩ := h (fun _ => RollfileSink.still e)
      (fun _ => (RollfileSink.still_year e).1)
    obtain ⟨hnum, hseq⟩ := RollfileSink.run_numbered hs
    refine ⟨?_, hseq ▸ hnum.inInt⟩
    by_contra hmany
    have hfresh := hkeeps.fresh
    rw [hnum.opened] at hfresh
    exact RollfileSink.not_nodup_names (hseq ▸ Nat.lt_of_not_le hmany) hfresh
  · rintro ⟨hnames, hint⟩ clock hyear
    obtain ⟨s, hs⟩ := RollfileSink.run_isSome clock basename hint
    have hseq := (RollfileSink.run_numbered hs).2
    exact ⟨s, hs, RollfileSink.run_keeps hs
      (RollfileSink.names_nodup hyear (hseq ▸ hnames))⟩

/-- With a basename of 143 bytes the sequence number is cut off, and two files
of one second are the same file. -/
theorem roll_same_name : ∃ s,
    RollfileSink.run (fun _ => ⟨126, 0, 1, 0, 0, 0⟩) (List.replicate 143 97) 1
      [str "x", str "y"] = some s ∧
    s.files.map Prod.snd = [str "xy"] ∧ ¬ s.Keeps [str "x", str "y"] := by
  obtain ⟨s, hs, hview⟩ := Option.map_eq_some_iff.mp
    (show (RollfileSink.run (fun _ => ⟨126, 0, 1, 0, 0, 0⟩) (List.replicate 143 97) 1
      [str "x", str "y"]).map (fun s => (s.maxSize, s.files.map Prod.snd)) =
        some (1, [str "xy"]) by decide +kernel)
  obtain ⟨hmax, hfiles⟩ := Prod.mk.inj hview
  refine ⟨s, hs, hfiles, fun hkeeps => ?_⟩
  have hmem : str "xy" ∈ s.files.map Prod.snd := hfiles ▸ List.mem_singleton_self _
  obtain ⟨f, hf, hxy⟩ := List.mem_map.mp hmem
  rcases hkeeps.bounded f hf with hle | ⟨b, hb, heq, _⟩
  · rw [hxy, hmax] at hle
    exact absurd hle (by decide)
  · rw [hxy] at heq
    rw [← heq] at hb
    exact absurd hb (by decide)

end LyqtRpc
