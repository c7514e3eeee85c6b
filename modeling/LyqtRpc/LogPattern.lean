import LyqtRpc.Lib.ByteText

/-!
`log_system/Logformat.hpp`: a pattern is cut into pairs of a key and a value,
the pairs become items, and the items are printed one after another.
-/

set_option autoImplicit false

namespace LyqtRpc

/-- `strftime` in the local time zone, up to the terminating byte: a conversion
stands for its field, and `%H`, `%M` and `%S` for two digits each. -/
structure Strftime where
  expand : Bytes → Int → Bytes
  empty : ∀ t, expand [] t = []
  clock : ∀ t, (expand (str "%H:%M:%S") t).length = 8

namespace LogPattern

def percent : UInt8 := '%'.toUInt8
def openBrace : UInt8 := '\x7b'.toUInt8
def closeBrace : UInt8 := '\x7d'.toUInt8

inductive LogLevel where
  | UNKNOW | DEBUG | INFO | WARN | ERROR | FATAL | OFF
  deriving DecidableEq, Repr

def LogLevel.toString : LogLevel → Bytes
  | .DEBUG => str "DEBUG"
  | .INFO => str "INFO"
  | .WARN => str "WARN"
  | .ERROR => str "ERROR"
  | .FATAL => str "FATAL"
  | .OFF => str "OFF"
  | .UNKNOW => str "UNKNOW"

/-- `tid` is the text the stream makes of the thread's id. -/
structure Logmsg where
  time : Int
  level : LogLevel
  file : Bytes
  line : UInt64
  tid : Bytes
  logger : Bytes
  payload : Bytes

def lineText (line : UInt64) : Bytes := str (toString line.toNat)

inductive FormatItem where
  | MsgFormatItem
  | LevelFormatItem
  | TimeFormatItem (time_format : Bytes)
  | FileFormatItem
  | LineFormatItem
  | ThreadFormatItem
  | LoggerFormatItem
  | TabFormatItem
  | NlineFormatItem
  | OtherFormatItem (str : Bytes)
  deriving DecidableEq, Repr

/-- `strftime` is given 63 bytes; when the text and its terminator do not fit,
what the buffer then holds is not specified (`none`). -/
def timeText (cal : Strftime) (fmt : Bytes) (t : Int) : Option Bytes :=
  if (cal.expand (cString fmt) t).length < 63 then some (cal.expand (cString fmt) t) else none

def FormatItem.format (cal : Strftime) (msg : Logmsg) : FormatItem → Option Bytes
  | MsgFormatItem => some msg.payload
  | LevelFormatItem => some msg.level.toString
  | TimeFormatItem fmt => timeText cal fmt msg.time
  | FileFormatItem => some msg.file
  | LineFormatItem => some (lineText msg.line)
  | ThreadFormatItem => some msg.tid
  | LoggerFormatItem => some msg.logger
  | TabFormatItem => some (str "\t")
  | NlineFormatItem => some (str "\n")
  | OtherFormatItem s => some s

def createFormatItem (key val : Bytes) : FormatItem :=
  if key = str "d" then .TimeFormatItem val
  else if key = str "T" then .TabFormatItem
  else if key = str "t" then .ThreadFormatItem
  else if key = str "p" then .LevelFormatItem
  else if key = str "c" then .LoggerFormatItem
  else if key = str "f" then .FileFormatItem
  else if key = str "l" then .LineFormatItem
  else if key = str "m" then .MsgFormatItem
  else if key = str "n" then .NlineFormatItem
  else if key = str "other" then .OtherFormatItem val
  else .OtherFormatItem (str "%" ++ key ++ val)

/-- The pair for the literal text collected so far, if there is any. -/
def literal (val : Bytes) : List (Bytes × Bytes) :=
  if val = [] then [] else [(str "other", val)]

/-- The loop of `parsePattern` on what follows `pos`. -/
def scan (rest val : Bytes) (fmtOrder : List (Bytes × Bytes)) :
    Option (List (Bytes × Bytes)) :=
  match rest with
  | [] => some fmtOrder
  | c :: rest =>
    if c ≠ percent then scan rest (val ++ [c]) fmtOrder
    else
      match rest with
      | [] => none
      | k :: rest =>
        if k = percent then scan rest (val ++ [percent]) fmtOrder
        else if rest.head? = some openBrace then
          match _h : rest.tail.dropWhile (· ≠ closeBrace) with
          | [] => none
          | _ :: tail =>
            scan tail [] (fmtOrder ++ literal val ++
              [([k], rest.tail.takeWhile (· ≠ closeBrace))])
        else scan rest [] (fmtOrder ++ literal val ++ [([k], [])])
termination_by rest.length
decreasing_by
  all_goals simp only [List.length_cons]
  all_goals try omega
  have htail := congrArg List.length _h
  have hdrop := (List.dropWhile_suffix (· ≠ closeBrace) (l := rest.tail)).length_le
  simp only [List.length_cons, List.length_tail] at htail hdrop
  omega

def parsePattern (pattern : Bytes) : Option (List FormatItem) :=
  (scan pattern [] []).map (List.map fun it => createFormatItem it.1 it.2)

def formatAll (cal : Strftime) (msg : Logmsg) : List FormatItem → Option Bytes
  | [] => some []
  | item :: items =>
    (item.format cal msg).bind fun text => (formatAll cal msg items).map (text ++ ·)

def format (cal : Strftime) (items : List FormatItem) (msg : Logmsg) : Option Bytes :=
  if items = [] then some msg.payload else formatAll cal msg items

/-- A pattern as it is read by eye: single characters, `%%`, and specifiers with
the argument between their braces. -/
inductive Token where
  | char (c : UInt8)
  | percent
  | spec (key : UInt8) (arg : Option Bytes)

def Token.text : Token → Bytes
  | .char c => [c]
  | .percent => [LogPattern.percent, LogPattern.percent]
  | .spec k none => [LogPattern.percent, k]
  | .spec k (some arg) => LogPattern.percent :: k :: openBrace :: (arg ++ [closeBrace])

def text (ts : List Token) : Bytes := ts.flatMap Token.text

/-- A brace behind a specifier opens its argument, and the next one closes it. -/
def WellFormed : List Token → Prop
  | [] => True
  | .char c :: ts => c ≠ percent ∧ WellFormed ts
  | .percent :: ts => WellFormed ts
  | .spec k none :: ts => k ≠ percent ∧ (text ts).head? ≠ some openBrace ∧ WellFormed ts
  | .spec k (some arg) :: ts => k ≠ percent ∧ closeBrace ∉ arg ∧ WellFormed ts

instance decidableWellFormed : ∀ ts, Decidable (WellFormed ts)
  | [] => .isTrue trivial
  | .char c :: ts =>
    have := decidableWellFormed ts
    inferInstanceAs (Decidable (c ≠ percent ∧ WellFormed ts))
  | .percent :: ts => decidableWellFormed ts
  | .spec k none :: ts =>
    have := decidableWellFormed ts
    inferInstanceAs
      (Decidable (k ≠ percent ∧ (text ts).head? ≠ some openBrace ∧ WellFormed ts))
  | .spec k (some arg) :: ts =>
    have := decidableWellFormed ts
    inferInstanceAs (Decidable (k ≠ percent ∧ closeBrace ∉ arg ∧ WellFormed ts))

def Reads (ts : List Token) (p : Bytes) : Prop := WellFormed ts ∧ text ts = p

def Dangling (p : Bytes) : Prop :=
  ∃ ts, WellFormed ts ∧ p = text ts ++ [percent]

def Unclosed (p : Bytes) : Prop :=
  ∃ ts k arg, WellFormed ts ∧ k ≠ percent ∧ closeBrace ∉ arg ∧
    p = text ts ++ percent :: k :: openBrace :: arg

theorem scan_nil (val : Bytes) (order : List (Bytes × Bytes)) : scan [] val order = some order := by
  rw [scan]

theorem scan_char {c : UInt8} (hc : c ≠ percent) (rest val : Bytes)
    (order : List (Bytes × Bytes)) :
    scan (c :: rest) val order = scan rest (val ++ [c]) order := by
  rw [scan.eq_def]
  simp [hc]

theorem scan_percent (rest val : Bytes) (order : List (Bytes × Bytes)) :
    scan (percent :: percent :: rest) val order = scan rest (val ++ [percent]) order := by
  rw [scan]
  simp

theorem scan_dangling (val : Bytes) (order : List (Bytes × Bytes)) :
    scan [percent] val order = none := by
  simp [scan]

theorem scan_bare {k : UInt8} {rest : Bytes} (hk : k ≠ percent)
    (hrest : rest.head? ≠ some openBrace) (val : Bytes) (order : List (Bytes × Bytes)) :
    scan (percent :: k :: rest) val order =
      scan rest [] (order ++ literal val ++ [([k], [])]) := by
  rw [scan]
  simp [hk, hrest]

theorem takeWhile_closed {arg : Bytes} (harg : closeBrace ∉ arg) (tail : Bytes) :
    (arg ++ closeBrace :: tail).takeWhile (· ≠ closeBrace) = arg ∧
      (arg ++ closeBrace :: tail).dropWhile (· ≠ closeBrace) = closeBrace :: tail := by
  have hall : ∀ b ∈ arg, (decide (b ≠ closeBrace)) = true := by
    intro b hb
    exact decide_eq_true (fun h => harg (h ▸ hb))
  rw [List.takeWhile_append_of_pos hall, List.dropWhile_append_of_pos hall]
  simp

theorem dropWhile_unclosed {arg : Bytes} (harg : closeBrace ∉ arg) :
    arg.dropWhile (· ≠ closeBrace) = [] := by
  rw [List.dropWhile_eq_nil_iff]
  intro b hb
  exact decide_eq_true (fun h => harg (h ▸ hb))

theorem scan_arg {k : UInt8} {arg : Bytes} (hk : k ≠ percent) (harg : closeBrace ∉ arg)
    (tail val : Bytes) (order : List (Bytes × Bytes)) :
    scan (percent :: k :: openBrace :: (arg ++ closeBrace :: tail)) val order =
      scan tail [] (order ++ literal val ++ [([k], arg)]) := by
  obtain ⟨htake, hdrop⟩ := takeWhile_closed harg tail
  rw [scan]
  simp only [ne_eq, not_true_eq_false, if_false, hk, List.head?_cons, if_true, List.tail_cons]
  split
  · rename_i h
    rw [hdrop] at h
    cases h
  · rename_i b rest h
    rw [hdrop] at h
    obtain ⟨-, rfl⟩ := List.cons.inj h
    rw [htake]

theorem scan_unclosed {k : UInt8} {arg : Bytes} (hk : k ≠ percent) (harg : closeBrace ∉ arg)
    (val : Bytes) (order : List (Bytes × Bytes)) :
    scan (percent :: k :: openBrace :: arg) val order = none := by
  have hdrop := dropWhile_unclosed harg
  rw [scan]
  simp only [ne_eq, not_true_eq_false, if_false, hk, List.head?_cons, if_true, List.tail_cons]
  split
  · rfl
  · rename_i h
    rw [hdrop] at h
    cases h

/-- The pairs a reading gives when the accumulator holds `val` in front of it. -/
def pairs (val : Bytes) : List Token → List (Bytes × Bytes)
  | [] => []
  | .char c :: ts => pairs (val ++ [c]) ts
  | .percent :: ts => pairs (val ++ [LogPattern.percent]) ts
  | .spec k arg :: ts => literal val ++ ([k], arg.getD []) :: pairs [] ts

/-- What the accumulator holds behind the reading. -/
def leftover (val : Bytes) : List Token → Bytes
  | [] => val
  | .char c :: ts => leftover (val ++ [c]) ts
  | .percent :: ts => leftover (val ++ [LogPattern.percent]) ts
  | .spec _ _ :: ts => leftover [] ts

theorem text_cons (t : Token) (ts : List Token) : text (t :: ts) = t.text ++ text ts :=
  List.flatMap_cons ..

theorem head_append_ne {xs ys : Bytes} {b : UInt8} (hx : xs.head? ≠ some b)
    (hy : ys.head? ≠ some b) : (xs ++ ys).head? ≠ some b := by
  cases xs with
  | nil => exact hy
  | cons x xs => exact hx

theorem scan_text {ts : List Token} (h : WellFormed ts) {tail : Bytes}
    (htail : tail.head? ≠ some openBrace) (val : Bytes) (order : List (Bytes × Bytes)) :
    scan (text ts ++ tail) val order =
      scan tail (leftover val ts) (order ++ pairs val ts) := by
  induction ts generalizing val order with
  | nil => simp [text, leftover, pairs]
  | cons t ts ih =>
      rw [text_cons, List.append_assoc]
      cases t with
      | char c =>
          obtain ⟨hc, hts⟩ := h
          exact (scan_char hc _ _ _).trans (ih hts _ _)
      | percent => exact (scan_percent _ _ _).trans (ih h _ _)
      | spec k arg =>
          cases arg with
          | none =>
              obtain ⟨hk, hhead, hts⟩ := h
              refine (scan_bare hk (head_append_ne hhead htail) _ _).trans ?_
              rw [ih hts]
              simp [leftover, pairs]
          | some arg =>
              obtain ⟨hk, harg, hts⟩ := h
              have hscan := scan_arg hk harg (text ts ++ tail) val order
              rw [ih hts] at hscan
              simpa [Token.text, leftover, pairs] using hscan

theorem scan_reads {ts : List Token} {p : Bytes} (h : Reads ts p) :
    scan p [] [] = some (pairs [] ts) := by
  obtain ⟨hts, rfl⟩ := h
  have hscan : scan (text ts ++ []) [] [] = scan [] (leftover [] ts) ([] ++ pairs [] ts) :=
    scan_text hts (by simp) [] []
  simpa [scan_nil] using hscan

theorem scan_of_dangling {p : Bytes} (h : Dangling p) : scan p [] [] = none := by
  obtain ⟨ts, hts, rfl⟩ := h
  rw [scan_text hts (by decide), scan_dangling]

theorem scan_of_unclosed {p : Bytes} (h : Unclosed p) : scan p [] [] = none := by
  obtain ⟨ts, k, arg, hts, hk, harg, rfl⟩ := h
  have hhead : (percent :: k :: openBrace :: arg).head? ≠ some openBrace := by
    simp only [List.head?_cons, ne_eq, Option.some.injEq]
    decide
  rw [scan_text hts hhead, scan_unclosed hk harg]

/-- A reading that goes as far as it can, and what stops it. -/
def Stops (p : Bytes) : Prop :=
  ∃ ts tail, WellFormed ts ∧ p = text ts ++ tail ∧
    (tail = [] ∨ tail = [percent] ∨
      ∃ k arg, k ≠ percent ∧ closeBrace ∉ arg ∧ tail = percent :: k :: openBrace :: arg)

theorem Stops.cons {t : Token} {p : Bytes} (h : Stops p)
    (ht : ∀ ts tail, p = text ts ++ tail → WellFormed ts → WellFormed (t :: ts)) :
    Stops (t.text ++ p) := by
  obtain ⟨ts, tail, hts, rfl, hend⟩ := h
  exact ⟨t :: ts, tail, ht ts tail rfl hts, by rw [text_cons, List.append_assoc], hend⟩

theorem Stops.nil : Stops [] := ⟨[], [], trivial, rfl, .inl rfl⟩

theorem Stops.bare {k : UInt8} {rest : Bytes} (h : Stops rest) (hk : k ≠ percent)
    (hopen : rest.head? ≠ some openBrace) : Stops (percent :: k :: rest) := by
  refine h.cons (t := .spec k none) (fun ts tail hrest hts => ⟨hk, ?_, hts⟩)
  intro hhead
  apply hopen
  rw [hrest]
  cases htext : text ts with
  | nil => simp [htext] at hhead
  | cons b bs => simpa [htext] using hhead

theorem Stops.arg {k : UInt8} {arg tail : Bytes} (h : Stops tail) (hk : k ≠ percent)
    (harg : closeBrace ∉ arg) :
    Stops (percent :: k :: openBrace :: (arg ++ closeBrace :: tail)) := by
  have hcons := h.cons (t := .spec k (some arg)) (fun _ _ _ hts => ⟨hk, harg, hts⟩)
  simpa [Token.text] using hcons

theorem Stops.unclosed {k : UInt8} {arg : Bytes} (hk : k ≠ percent) (harg : closeBrace ∉ arg) :
    Stops (percent :: k :: openBrace :: arg) :=
  ⟨[], _, trivial, rfl, .inr (.inr ⟨k, arg, hk, harg, rfl⟩)⟩

/-- The cases are those of `scan`. -/
theorem stops (p : Bytes) : Stops p := by
  induction hn : p.length using Nat.strong_induction_on generalizing p with
  | _ n ih =>
    subst hn
    match p with
    | [] => exact .nil
    | [c] =>
      by_cases hc : c = percent
      · exact ⟨[], [c], trivial, rfl, .inr (.inl (by rw [hc]))⟩
      · exact Stops.nil.cons (t := .char c) (fun _ _ _ hts => ⟨hc, hts⟩)
    | c :: k :: rest =>
      have hshort : rest.length < (c :: k :: rest).length := by
        simp only [List.length_cons]
        omega
      by_cases hc : c = percent
      · subst hc
        by_cases hk : k = percent
        · subst hk
          exact (ih _ hshort rest rfl).cons (t := .percent) (fun _ _ _ hts => hts)
        · match rest with
          | [] => exact Stops.nil.bare hk (by simp)
          | b :: body =>
            by_cases hopen : b = openBrace
            · subst hopen
              by_cases hclose : closeBrace ∈ body
              · obtain ⟨arg, tail, rfl, harg⟩ := List.eq_append_cons_of_mem hclose
                refine (ih tail.length ?_ tail rfl).arg hk harg
                simp only [List.length_cons, List.length_append]
                omega
              · exact .unclosed hk hclose
            · exact (ih _ hshort (b :: body) rfl).bare hk (by simpa using hopen)
      · have hlt : (k :: rest).length < (c :: k :: rest).length := Nat.lt_succ_self _
        exact (ih _ hlt (k :: rest) rfl).cons (t := .char c) (fun _ _ _ hts => ⟨hc, hts⟩)

theorem parsePattern_none_iff (p : Bytes) :
    parsePattern p = none ↔ Dangling p ∨ Unclosed p := by
  rw [parsePattern, Option.map_eq_none_iff]
  constructor
  · intro hnone
    obtain ⟨ts, tail, hts, rfl, rfl | rfl | ⟨k, arg, hk, harg, rfl⟩⟩ := stops p
    · have hsome := scan_reads (p := text ts ++ []) ⟨hts, by simp⟩
      rw [hnone] at hsome
      cases hsome
    · exact .inl ⟨ts, hts, rfl⟩
    · exact .inr ⟨ts, k, arg, hts, hk, harg, rfl⟩
  · rintro (h | h)
    · exact scan_of_dangling h
    · exact scan_of_unclosed h

theorem parsePattern_reads {ts : List Token} {p : Bytes} (h : Reads ts p) :
    parsePattern p = some ((pairs [] ts).map fun it => createFormatItem it.1 it.2) := by
  rw [parsePattern, scan_reads h, Option.map_some]

theorem exists_reads {p : Bytes} (h : parsePattern p ≠ none) : ∃ ts, Reads ts p := by
  obtain ⟨ts, tail, hts, rfl, rfl | rfl | ⟨k, arg, hk, harg, rfl⟩⟩ := stops p
  · exact ⟨ts, hts, by simp⟩
  · exact absurd ((parsePattern_none_iff _).mpr (.inl ⟨ts, hts, rfl⟩)) h
  · exact absurd ((parsePattern_none_iff _).mpr (.inr ⟨ts, k, arg, hts, hk, harg, rfl⟩)) h

/-- What a token stands for in a line of the log. -/
def Token.field (cal : Strftime) (msg : Logmsg) : Token → Bytes
  | .char c => [c]
  | .percent => [LogPattern.percent]
  | .spec k arg =>
    if k = 'd'.toUInt8 then cal.expand (cString (arg.getD (str "%H:%M:%S"))) msg.time
    else if k = 'T'.toUInt8 then str "\t"
    else if k = 't'.toUInt8 then msg.tid
    else if k = 'p'.toUInt8 then msg.level.toString
    else if k = 'c'.toUInt8 then msg.logger
    else if k = 'f'.toUInt8 then msg.file
    else if k = 'l'.toUInt8 then lineText msg.line
    else if k = 'm'.toUInt8 then msg.payload
    else if k = 'n'.toUInt8 then str "\n"
    else (Token.spec k arg).text

def fields (cal : Strftime) (msg : Logmsg) (ts : List Token) : Bytes :=
  ts.flatMap (Token.field cal msg)

/-- What the code prints for a token, once its text is flushed. -/
def Token.shown (cal : Strftime) (msg : Logmsg) : Token → Option Bytes
  | .char c => some [c]
  | .percent => some [LogPattern.percent]
  | .spec k arg => (createFormatItem [k] (arg.getD [])).format cal msg

def shownAll (cal : Strftime) (msg : Logmsg) : List Token → Option Bytes
  | [] => some []
  | t :: ts => (t.shown cal msg).bind fun x => (shownAll cal msg ts).map (x ++ ·)

/-- A specifier the code renders as it stands, whatever the message. -/
def Token.Faithful (cal : Strftime) : Token → Prop
  | .char _ | .percent => True
  | .spec k none => k ≠ 'd'.toUInt8
  | .spec k (some arg) =>
    k ∈ str "dTtpcflmn" ∧
      (k = 'd'.toUInt8 → ∀ t, (cal.expand (cString arg) t).length < 63)

/-- Nothing is left of the text when the last specifier has flushed it. -/
def Faithful (cal : Strftime) (ts : List Token) : Prop :=
  (∃ k arg, ts.getLast? = some (.spec k arg)) ∧ ∀ t ∈ ts, t.Faithful cal

variable {cal : Strftime} {msg : Logmsg}

/-- The items print what the tokens show, but for what is left in the accumulator. -/
theorem formatAll_pairs (cal : Strftime) (msg : Logmsg) (ts : List Token) (val : Bytes) :
    (formatAll cal msg ((pairs val ts).map fun it => createFormatItem it.1 it.2)).map
        (· ++ leftover val ts) = (shownAll cal msg ts).map (val ++ ·) := by
  induction ts generalizing val with
  | nil => simp [pairs, leftover, formatAll, shownAll]
  | cons t ts ih =>
      cases t with
      | char c =>
          simp only [pairs, leftover, ih, shownAll, Token.shown, Option.bind_some,
            Option.map_map]
          simp [Function.comp_def]
      | percent =>
          simp only [pairs, leftover, ih, shownAll, Token.shown, Option.bind_some,
            Option.map_map]
          simp [Function.comp_def]
      | spec k arg =>
          have hitem := ih []
          simp only [List.nil_append, Option.map_id'] at hitem
          have hother : createFormatItem (str "other") val = .OtherFormatItem val := rfl
          by_cases hval : val = [] <;>
            simp [pairs, leftover, shownAll, Token.shown, literal, hval, formatAll, hother,
              ← hitem, FormatItem.format, Option.map_bind, Function.comp_def]

theorem mem_specifiers {k : UInt8} : k ∈ str "dTtpcflmn" ↔
    k = 'd'.toUInt8 ∨ k = 'T'.toUInt8 ∨ k = 't'.toUInt8 ∨ k = 'p'.toUInt8 ∨ k = 'c'.toUInt8 ∨
      k = 'f'.toUInt8 ∨ k = 'l'.toUInt8 ∨ k = 'm'.toUInt8 ∨ k = 'n'.toUInt8 := by
  show k ∈ ['d'.toUInt8, 'T'.toUInt8, 't'.toUInt8, 'p'.toUInt8, 'c'.toUInt8, 'f'.toUInt8,
    'l'.toUInt8, 'm'.toUInt8, 'n'.toUInt8] ↔ _
  simp only [List.mem_cons, List.not_mem_nil, or_false]

theorem createFormatItem_single (k : UInt8) (val : Bytes) :
    createFormatItem [k] val =
      if k = 'd'.toUInt8 then .TimeFormatItem val
      else if k = 'T'.toUInt8 then .TabFormatItem
      else if k = 't'.toUInt8 then .ThreadFormatItem
      else if k = 'p'.toUInt8 then .LevelFormatItem
      else if k = 'c'.toUInt8 then .LoggerFormatItem
      else if k = 'f'.toUInt8 then .FileFormatItem
      else if k = 'l'.toUInt8 then .LineFormatItem
      else if k = 'm'.toUInt8 then .MsgFormatItem
      else if k = 'n'.toUInt8 then .NlineFormatItem
      else .OtherFormatItem (percent :: k :: val) := by
  have hkey : ∀ c : UInt8, ([k] = [c]) = (k = c) := fun c => by simp
  have hother : [k] ≠ str "other" := by
    intro h
    have hlen := congrArg List.length h
    simp [str] at hlen
  unfold createFormatItem
  rw [if_neg hother]
  simp only [show str "d" = ['d'.toUInt8] from rfl, show str "T" = ['T'.toUInt8] from rfl,
    show str "t" = ['t'.toUInt8] from rfl, show str "p" = ['p'.toUInt8] from rfl,
    show str "c" = ['c'.toUInt8] from rfl, show str "f" = ['f'.toUInt8] from rfl,
    show str "l" = ['l'.toUInt8] from rfl, show str "m" = ['m'.toUInt8] from rfl,
    show str "n" = ['n'.toUInt8] from rfl, hkey]
  rfl

/-- A known specifier but `%d` prints its field, with or without an argument. -/
theorem shown_known {k : UInt8} (arg : Option Bytes) (hk : k ∈ str "dTtpcflmn")
    (hd : k ≠ 'd'.toUInt8) :
    (Token.spec k arg).shown cal msg = some ((Token.spec k arg).field cal msg) := by
  simp only [Token.shown, Token.field, createFormatItem_single, if_neg hd]
  rcases mem_specifiers.mp hk with h | h | h | h | h | h | h | h | h
  · exact absurd h hd
  all_goals subst h; rfl

theorem shown_unknown (cal : Strftime) (msg : Logmsg) {k : UInt8} (arg : Option Bytes)
    (hk : k ∉ str "dTtpcflmn") :
    (Token.spec k arg).shown cal msg = some (percent :: k :: arg.getD []) ∧
      (Token.spec k arg).field cal msg = (Token.spec k arg).text := by
  simp only [mem_specifiers, not_or] at hk
  obtain ⟨hd, hT, ht, hp, hc, hf, hl, hm, hn⟩ := hk
  constructor
  · simp only [Token.shown, createFormatItem_single, if_neg hd, if_neg hT, if_neg ht, if_neg hp,
      if_neg hc, if_neg hf, if_neg hl, if_neg hm, if_neg hn]
    rfl
  · simp only [Token.field, if_neg hd, if_neg hT, if_neg ht, if_neg hp, if_neg hc, if_neg hf,
      if_neg hl, if_neg hm, if_neg hn]

theorem shown_time (arg : Option Bytes) :
    (Token.spec 'd'.toUInt8 arg).shown cal msg = timeText cal (arg.getD []) msg.time := rfl

theorem field_time (arg : Option Bytes) : (Token.spec 'd'.toUInt8 arg).field cal msg =
    cal.expand (cString (arg.getD (str "%H:%M:%S"))) msg.time := rfl

theorem length_field_time (cal : Strftime) (msg : Logmsg) :
    ((Token.spec 'd'.toUInt8 none).field cal msg).length = 8 :=
  cal.clock msg.time

theorem Token.Faithful.shown {t : Token} (h : t.Faithful cal) :
    t.shown cal msg = some (t.field cal msg) := by
  cases t with
  | char c => rfl
  | percent => rfl
  | spec k arg =>
      by_cases hk : k ∈ str "dTtpcflmn"
      · by_cases hd : k = 'd'.toUInt8
        · subst hd
          cases arg with
          | none => exact absurd rfl h
          | some arg =>
              rw [shown_time, field_time]
              exact if_pos (h.2 rfl msg.time)
        · exact shown_known arg hk hd
      · obtain ⟨hshown, hfield⟩ := shown_unknown cal msg arg hk
        cases arg with
        | none => rw [hshown, hfield]; rfl
        | some arg => exact absurd h.1 hk

/-- What the code drops it does not make up for: an empty time, or the braces. -/
theorem Token.length_shown_le {t : Token} {x : Bytes} (h : t.shown cal msg = some x) :
    x.length ≤ (t.field cal msg).length := by
  by_cases hf : t.Faithful cal
  · rw [hf.shown] at h
    obtain rfl := Option.some.inj h
    exact Nat.le_refl _
  cases t with
  | char c => exact absurd trivial hf
  | percent => exact absurd trivial hf
  | spec k arg =>
      by_cases hk : k ∈ str "dTtpcflmn"
      · by_cases hd : k = 'd'.toUInt8
        · subst hd
          rw [shown_time, timeText] at h
          split at h
          · obtain rfl := Option.some.inj h
            cases arg with
            | none => simp [cString, cal.empty]
            | some arg => exact Nat.le_refl _
          · cases h
        · rw [shown_known arg hk hd] at h
          obtain rfl := Option.some.inj h
          exact Nat.le_refl _
      · obtain ⟨hshown, hfield⟩ := shown_unknown cal msg arg hk
        rw [hshown] at h
        obtain rfl := Option.some.inj h
        rw [hfield]
        cases arg <;> simp [Token.text]

theorem Token.faithful_of_shown {t : Token}
    (h : ∀ msg, t.shown cal msg = some (t.field cal msg)) : t.Faithful cal := by
  cases t with
  | char c => trivial
  | percent => trivial
  | spec k arg =>
      have hat (time : Int) := h ⟨time, .INFO, [], 0, [], [], []⟩
      by_cases hk : k ∈ str "dTtpcflmn"
      · cases arg with
        | none =>
            rintro rfl
            have hlen := length_field_time cal ⟨0, .INFO, [], 0, [], [], []⟩
            have hshown := hat 0
            rw [shown_time] at hshown
            simp only [timeText, cString, Option.getD_none, List.takeWhile_nil, cal.empty,
              List.length_nil, Nat.zero_lt_succ, if_true, Option.some.injEq] at hshown
            simp [← hshown] at hlen
        | some arg =>
            refine ⟨hk, ?_⟩
            rintro rfl time
            by_contra hlong
            have hshown := hat time
            rw [shown_time, timeText, Option.getD_some, if_neg hlong] at hshown
            cases hshown
      · obtain ⟨hshown, hfield⟩ :=
          shown_unknown cal ⟨0, .INFO, [], 0, [], [], []⟩ arg hk
        cases arg with
        | none =>
            rintro rfl
            exact hk (by decide)
        | some arg =>
            have hlen := congrArg List.length
              (Option.some.inj (hshown.symm.trans ((hat 0).trans (congrArg some hfield))))
            simp [Token.text] at hlen

theorem shownAll_cons_some {t : Token} {ts : List Token} {out : Bytes}
    (h : shownAll cal msg (t :: ts) = some out) :
    ∃ x rest, t.shown cal msg = some x ∧ shownAll cal msg ts = some rest ∧ out = x ++ rest := by
  obtain ⟨x, hx, hmap⟩ := Option.bind_eq_some_iff.mp h
  obtain ⟨rest, hrest, rfl⟩ := Option.map_eq_some_iff.mp hmap
  exact ⟨x, rest, hx, hrest, rfl⟩

theorem fields_cons (t : Token) (ts : List Token) :
    fields cal msg (t :: ts) = t.field cal msg ++ fields cal msg ts :=
  List.flatMap_cons ..

theorem shownAll_of_faithful {ts : List Token} (h : ∀ t ∈ ts, t.Faithful cal) :
    shownAll cal msg ts = some (fields cal msg ts) := by
  induction ts with
  | nil => rfl
  | cons t ts ih =>
      have hts := ih (fun u hu => h u (List.mem_cons_of_mem t hu))
      rw [shownAll, (h t (List.mem_cons_self ..)).shown, hts, fields_cons]
      rfl

theorem length_shownAll_le {ts : List Token} {out : Bytes}
    (h : shownAll cal msg ts = some out) : out.length ≤ (fields cal msg ts).length := by
  induction ts generalizing out with
  | nil =>
      obtain rfl := Option.some.inj h
      exact Nat.le_refl _
  | cons t ts ih =>
      obtain ⟨x, rest, hx, hrest, rfl⟩ := shownAll_cons_some h
      have hle := Token.length_shown_le hx
      have hrestle := ih hrest
      simp only [fields_cons, List.length_append]
      omega

/-- No token is shorter than its field when the whole is not. -/
theorem shown_of_shownAll {ts : List Token}
    (h : shownAll cal msg ts = some (fields cal msg ts)) :
    ∀ t ∈ ts, t.shown cal msg = some (t.field cal msg) := by
  induction ts with
  | nil =>
      intro t ht
      cases ht
  | cons t ts ih =>
      obtain ⟨x, rest, hx, hrest, happ⟩ := shownAll_cons_some h
      have hle := Token.length_shown_le hx
      have hrestle := length_shownAll_le hrest
      have hlen := congrArg List.length happ
      rw [fields_cons] at happ hlen
      simp only [List.length_append] at hlen
      obtain ⟨rfl, rfl⟩ := List.append_inj happ (by omega)
      intro u hu
      rcases List.mem_cons.mp hu with rfl | hu
      · exact hx
      · exact ih hrest u hu

theorem leftover_eq_nil_iff {ts : List Token} {val : Bytes} : leftover val ts = [] ↔
    (∃ k arg, ts.getLast? = some (.spec k arg)) ∨ ts = [] ∧ val = [] := by
  induction ts generalizing val with
  | nil => simp [leftover]
  | cons t ts ih =>
      cases t <;> cases ts <;> simp_all [leftover]

theorem pairs_ne_nil {ts : List Token} {k : UInt8} {arg : Option Bytes} {val : Bytes}
    (h : Token.spec k arg ∈ ts) : pairs val ts ≠ [] := by
  induction ts generalizing val with
  | nil => cases h
  | cons t ts ih =>
      cases t with
      | char c => exact ih (by simpa using h)
      | percent => exact ih (by simpa using h)
      | spec k arg => simp [pairs]

/-- Without a specifier the whole text stays in the accumulator. -/
theorem leftover_of_pairs (cal : Strftime) (msg : Logmsg) {ts : List Token} {val : Bytes}
    (h : pairs val ts = []) : leftover val ts = val ++ fields cal msg ts := by
  induction ts generalizing val with
  | nil => simp [leftover, fields]
  | cons t ts ih =>
      cases t with
      | char c => simpa [leftover, fields_cons, Token.field] using ih h
      | percent => simpa [leftover, fields_cons, Token.field] using ih h
      | spec k arg => simp [pairs] at h

/-- Every message is printed as the reading says. -/
def Renders (cal : Strftime) (p : Bytes) (ts : List Token) : Prop :=
  ∃ items, parsePattern p = some items ∧
    ∀ msg, format cal items msg = some (fields cal msg ts)

theorem Faithful.renders {ts : List Token} {p : Bytes} (hp : Reads ts p)
    (h : Faithful cal ts) : Renders cal p ts := by
  obtain ⟨⟨k, arg, hlast⟩, hall⟩ := h
  refine ⟨_, parsePattern_reads hp, fun msg => ?_⟩
  have hne : pairs [] ts ≠ [] := pairs_ne_nil (List.mem_of_getLast? hlast)
  have hout := formatAll_pairs cal msg ts []
  rw [leftover_eq_nil_iff.mpr (.inl ⟨k, arg, hlast⟩), shownAll_of_faithful hall] at hout
  rw [format, if_neg (by simpa using hne)]
  simpa using hout

/-- Without an item the payload is printed in place of the text. -/
theorem Renders.pairs_ne_nil {ts : List Token} {p : Bytes} (hp : Reads ts p)
    (h : Renders cal p ts) : pairs [] ts ≠ [] := by
  intro hnil
  obtain ⟨items, hitems, hmsg⟩ := h
  obtain rfl := Option.some.inj ((parsePattern_reads hp).symm.trans hitems)
  have hpay := hmsg ⟨0, .INFO, [], 0, [], [], 0 :: leftover [] ts⟩
  rw [format, if_pos (by simp [hnil])] at hpay
  have hleft := congrArg List.length (leftover_of_pairs cal
    ⟨0, .INFO, [], 0, [], [], 0 :: leftover [] ts⟩ hnil)
  have hlen := congrArg List.length (Option.some.inj hpay)
  rw [List.nil_append] at hleft
  rw [List.length_cons, ← hleft] at hlen
  omega

/-- Nothing printed is as long as the fields unless all of it is printed. -/
theorem Renders.shownAll {ts : List Token} {p : Bytes} (hp : Reads ts p)
    (h : Renders cal p ts) (msg : Logmsg) :
    leftover [] ts = [] ∧ shownAll cal msg ts = some (fields cal msg ts) := by
  have hne := h.pairs_ne_nil hp
  obtain ⟨items, hitems, hmsg⟩ := h
  obtain rfl := Option.some.inj ((parsePattern_reads hp).symm.trans hitems)
  have hout := formatAll_pairs cal msg ts []
  have hprint := hmsg msg
  rw [format, if_neg (by simpa using hne)] at hprint
  rw [hprint] at hout
  simp only [Option.map_some, List.nil_append, Option.map_id'] at hout
  have hle := length_shownAll_le hout.symm
  have hleft : leftover [] ts = [] := by
    apply List.eq_nil_of_length_eq_zero
    simp only [List.length_append] at hle
    omega
  rw [hleft, List.append_nil] at hout
  exact ⟨hleft, hout.symm⟩

theorem Renders.faithful {ts : List Token} {p : Bytes} (hp : Reads ts p)
    (h : Renders cal p ts) : Faithful cal ts := by
  refine ⟨?_, fun t ht => Token.faithful_of_shown fun msg =>
    shown_of_shownAll (h.shownAll hp msg).2 t ht⟩
  rcases leftover_eq_nil_iff.mp (h.shownAll hp ⟨0, .INFO, [], 0, [], [], []⟩).1 with
    hlast | ⟨rfl, -⟩
  · exact hlast
  · exact absurd rfl (h.pairs_ne_nil hp)

end LogPattern

/-- A pattern is rejected for a dangling `%` or an open brace; another one has a
reading, and prints it exactly when nothing stands behind its last specifier and
no specifier is one that loses its braces or its time. -/
theorem pattern_renders_iff (cal : Strftime) (p : Bytes) :
    (LogPattern.parsePattern p = none ↔ LogPattern.Dangling p ∨ LogPattern.Unclosed p) ∧
      (LogPattern.parsePattern p ≠ none ↔ ∃ ts, LogPattern.Reads ts p) ∧
      ∀ ts, LogPattern.Reads ts p →
        (LogPattern.Renders cal p ts ↔ LogPattern.Faithful cal ts) := by
  refine ⟨LogPattern.parsePattern_none_iff p, ⟨LogPattern.exists_reads, ?_⟩,
    fun ts hts => ⟨LogPattern.Renders.faithful hts, LogPattern.Faithful.renders hts⟩⟩
  rintro ⟨ts, hts⟩ hnone
  rw [LogPattern.parsePattern_reads hts] at hnone
  cases hnone

namespace LogPattern

/-- What `Formatter` is given when no pattern is set. -/
def defaultPattern : Bytes :=
  str "[%d\x7b%H:%M:%S\x7d][%t][%c][%f:%l][%p]%T%m%n"

def defaultReading : List Token :=
  [.char '['.toUInt8, .spec 'd'.toUInt8 (some (str "%H:%M:%S")),
    .char ']'.toUInt8, .char '['.toUInt8, .spec 't'.toUInt8 none,
    .char ']'.toUInt8, .char '['.toUInt8, .spec 'c'.toUInt8 none,
    .char ']'.toUInt8, .char '['.toUInt8, .spec 'f'.toUInt8 none,
    .char ':'.toUInt8, .spec 'l'.toUInt8 none,
    .char ']'.toUInt8, .char '['.toUInt8, .spec 'p'.toUInt8 none, .char ']'.toUInt8,
    .spec 'T'.toUInt8 none, .spec 'm'.toUInt8 none, .spec 'n'.toUInt8 none]

def twoDigits (n : Nat) : Bytes := [UInt8.ofNat (48 + n / 10), UInt8.ofNat (48 + n % 10)]

/-- The conversions of a clock, in UTC. -/
def utcText (t : Int) : Bytes → Bytes
  | [] => []
  | [c] => [c]
  | c :: d :: rest =>
    if c = percent ∧ d = 'H'.toUInt8 then
      twoDigits (t % 86400 / 3600).toNat ++ utcText t rest
    else if c = percent ∧ d = 'M'.toUInt8 then
      twoDigits (t % 3600 / 60).toNat ++ utcText t rest
    else if c = percent ∧ d = 'S'.toUInt8 then twoDigits (t % 60).toNat ++ utcText t rest
    else c :: utcText t (d :: rest)

def utc : Strftime where
  expand fmt t := utcText t fmt
  empty _ := rfl
  clock _ := rfl

theorem reads_default : Reads defaultReading defaultPattern :=
  ⟨by decide +kernel, by decide +kernel⟩

theorem faithful_default (cal : Strftime) : Faithful cal defaultReading := by
  have hclock : cString (str "%H:%M:%S") = str "%H:%M:%S" := by decide
  refine ⟨⟨'n'.toUInt8, none, rfl⟩, fun t ht => ?_⟩
  simp only [defaultReading, List.mem_cons, List.not_mem_nil, or_false] at ht
  rcases ht with rfl | rfl | rfl | rfl | rfl | rfl | rfl | rfl | rfl | rfl | rfl | rfl | rfl |
    rfl | rfl | rfl | rfl | rfl | rfl | rfl
  case inr.inl =>
    refine ⟨by decide, fun _ t => ?_⟩
    rw [hclock, cal.clock]
    decide
  all_goals first | trivial | (simp only [Token.Faithful]; decide)

end LogPattern

/-- The default pattern loses nothing. -/
theorem pattern_renders_iff_default :
    LogPattern.Renders LogPattern.utc LogPattern.defaultPattern LogPattern.defaultReading :=
  ((pattern_renders_iff LogPattern.utc LogPattern.defaultPattern).2.2 _
    LogPattern.reads_default).mpr (LogPattern.faithful_default _)

/-- The text behind the last specifier is never flushed. -/
theorem pattern_drops_tail :
    LogPattern.Reads [.spec 'm'.toUInt8 none, .char '!'.toUInt8] (str "%m!") ∧
      ¬ LogPattern.Renders LogPattern.utc (str "%m!")
        [.spec 'm'.toUInt8 none, .char '!'.toUInt8] ∧
      ∃ items, LogPattern.parsePattern (str "%m!") = some items ∧ ∀ msg,
        LogPattern.format LogPattern.utc items msg = some msg.payload := by
  have hreads : LogPattern.Reads [.spec 'm'.toUInt8 none, .char '!'.toUInt8] (str "%m!") :=
    ⟨by decide, by decide⟩
  refine ⟨hreads, fun h => ?_, _, LogPattern.parsePattern_reads hreads, fun msg => ?_⟩
  · obtain ⟨⟨k, arg, hlast⟩, -⟩ := h.faithful hreads
    cases hlast
  · show some (msg.payload ++ []) = some msg.payload
    rw [List.append_nil]

end LyqtRpc
