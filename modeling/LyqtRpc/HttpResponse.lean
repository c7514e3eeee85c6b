import LyqtRpc.Lib.OrderedMap
import LyqtRpc.HttpServer
import Mathlib.Data.List.Lex

/-!
`HttpServer::sendResponse`, and a client that reads what comes: the status line, the
fields and a body of the declared length. What the server sends reads back, and no
proper prefix of it does.
-/

set_option autoImplicit false

namespace LyqtRpc

/-- `char_traits<char>` compares bytes as unsigned. -/
instance unsignedBytes : LinearOrder UInt8 where
  le_refl := UInt8.le_refl
  le_trans _ _ _ := UInt8.le_trans
  le_antisymm _ _ := UInt8.le_antisymm
  le_total := UInt8.le_total
  lt_iff_le_not_ge a b := by
    rw [UInt8.lt_iff_toNat_lt, UInt8.le_iff_toNat_le, UInt8.le_iff_toNat_le]
    omega
  toDecidableLE := inferInstance

structure HttpResp where
  status : Int32 := 200
  status_msg : Bytes := []
  headers : OrderedMap Bytes Bytes := {}
  body : Bytes := []

namespace HttpResp

def setContentType (resp : HttpResp) (t : Bytes) : HttpResp :=
  { resp with headers := resp.headers.assign (str "Content-Type") t }

def setBody (resp : HttpResp) (b : Bytes) : HttpResp := { resp with body := b }

end HttpResp

namespace HttpServer

def statusMsg (code : Int32) : Bytes :=
  if code = 200 then str "OK"
  else if code = 400 then str "Bad Request"
  else if code = 404 then str "Not Found"
  else if code = 429 then str "Too Many Requests"
  else if code = 500 then str "Internal Server Error"
  else if code = 502 then str "Bad Gateway"
  else if code = 503 then str "Service Unavailable"
  else str "Unknown"

def headerLine (k v : Bytes) : Bytes := k ++ str ": " ++ v ++ str "\r\n"

/-- The bytes it gives to the connection; then it shuts the connection down. -/
def sendResponse (resp : HttpResp) : Bytes :=
  str "HTTP/1.1 " ++ intText resp.status ++ str " " ++
    (if resp.status_msg = [] then statusMsg resp.status else resp.status_msg) ++ str "\r\n" ++
  resp.headers.entries.flatMap (fun e => headerLine e.1 e.2) ++
  headerLine (str "Content-Length") (natText resp.body.length) ++
  str "Connection: close\r\n" ++ str "\r\n" ++ resp.body

end HttpServer

/-! A client. -/

structure HttpAnswer where
  status : Nat
  reason : Bytes
  fields : List (Bytes × Bytes)
  body : Bytes
  deriving DecidableEq, Repr

namespace HttpAnswer

def readStatus (line : Bytes) : Option (Nat × Bytes) :=
  if (str "HTTP/1.1 ").isPrefixOf line then
    let code := (line.drop 9).takeWhile isDigit
    match (line.drop 9).dropWhile isDigit with
    | 32 :: reason => if code = [] then none else some (digitsValue code, reason)
    | _ => none
  else none

def readField (line : Bytes) : Option (Bytes × Bytes) :=
  (findFrom line 58 0).map fun colon =>
    (line.take colon, (line.drop (colon + 1)).dropWhile (· = 32))

/-- Lines up to the blank one, and what follows it. -/
def readFields : Nat → Bytes → Option (List (Bytes × Bytes) × Bytes)
  | 0, _ => none
  | n + 1, s =>
    match findCRLF s with
    | none => none
    | some 0 => some ([], s.drop 2)
    | some len => do
      let f ← readField (s.take len)
      let (fields, rest) ← readFields n (s.drop (len + 2))
      return (f :: fields, rest)

/-- The one length that is declared. -/
def declaredLength (fields : List (Bytes × Bytes)) : Option Nat :=
  match fields.filter (fun f => decide (IsContentLength f.1)) with
  | [(_, v)] => if v ≠ [] ∧ v.all isDigit then some (digitsValue v) else none
  | _ => none

/-- `none` where it has not come as a whole, or is no answer. -/
def read (s : Bytes) : Option (HttpAnswer × Bytes) :=
  match findCRLF s with
  | none => none
  | some len => do
    let (status, reason) ← readStatus (s.take len)
    let (fields, rest) ← readFields s.length (s.drop (len + 2))
    let n ← declaredLength fields
    if rest.length < n then none
    else return ({ status, reason, fields, body := rest.take n }, rest.drop n)

end HttpAnswer

open HttpServer

/-- What the handlers put in is text that fits its place. -/
structure HttpResp.Plain (resp : HttpResp) : Prop where
  status : 0 ≤ resp.status.toInt
  reason : 13 ∉ resp.status_msg
  name : ∀ e ∈ resp.headers.entries, IsToken e.1 ∧ ¬ IsContentLength e.1
  value : ∀ e ∈ resp.headers.entries, 13 ∉ e.2 ∧ e.2.dropWhile (· = 32) = e.2

namespace HttpResp

def reason (resp : HttpResp) : Bytes :=
  if resp.status_msg = [] then statusMsg resp.status else resp.status_msg

/-- The fields as they are sent. -/
def fields (resp : HttpResp) : List (Bytes × Bytes) :=
  resp.headers.entries ++
    [(str "Content-Length", natText resp.body.length), (str "Connection", str "close")]

/-- What a client is to read. -/
def answer (resp : HttpResp) : HttpAnswer where
  status := resp.status.toInt.toNat
  reason := resp.reason
  fields := resp.fields
  body := resp.body

def statusLine (resp : HttpResp) : Bytes :=
  str "HTTP/1.1 " ++ intText resp.status ++ 32 :: resp.reason

/-- A field with the blank behind its colon. -/
def spaced (f : Bytes × Bytes) : Bytes × Bytes := (f.1, 32 :: f.2)

theorem flatMap_headerLine (fs : List (Bytes × Bytes)) (rest : Bytes) :
    fs.flatMap (fun e => headerLine e.1 e.2) ++ 13 :: 10 :: rest =
      HttpRequest.afterLine (fs.map spaced) rest := by
  induction fs with
  | nil => rfl
  | cons f fs ih =>
    rw [List.flatMap_cons, List.map_cons, HttpRequest.afterLine, List.append_assoc, ih]
    have hcolon : str ": " = [58, 32] := rfl
    have hcrlf : str "\r\n" = [13, 10] := rfl
    simp only [headerLine, hcolon, hcrlf, HttpRequest.fieldLine, spaced, List.append_assoc,
      List.cons_append, List.nil_append]

theorem sendResponse_eq (resp : HttpResp) : sendResponse resp =
    resp.statusLine ++ 13 :: 10 :: HttpRequest.afterLine (resp.fields.map spaced) resp.body := by
  have hclose : str "Connection: close\r\n" = headerLine (str "Connection") (str "close") := by
    decide
  have hblank : str " " = [32] := rfl
  have hcrlf : str "\r\n" = [13, 10] := rfl
  rw [← flatMap_headerLine, fields, List.flatMap_append]
  simp only [sendResponse, statusLine, reason, hclose, hblank, hcrlf, List.flatMap_cons,
    List.flatMap_nil, List.append_assoc, List.cons_append, List.nil_append]

end HttpResp

namespace HttpAnswer

theorem readField_line {f : Bytes × Bytes} (hname : IsToken f.1) :
    readField (HttpRequest.fieldLine f) = some (f.1, f.2.dropWhile (· = 32)) := by
  have hcolon : findFrom (HttpRequest.fieldLine f) 58 0 = some f.1.length :=
    findFrom_zero (hname.notMem (by decide))
  have hdrop : (HttpRequest.fieldLine f).drop (f.1.length + 1) = f.2 := by
    simp [HttpRequest.fieldLine]
  rw [readField, hcolon, Option.map_some, hdrop, HttpRequest.fieldLine, List.take_left]

/-- The reader of fields on what has come of some lines, the blank line and the body. -/
theorem readFields_prefix {fs : List (Bytes × Bytes)} {body buf rest : Bytes} {n : Nat}
    (hname : ∀ f ∈ fs, IsToken f.1) (hvalue : ∀ f ∈ fs, 13 ∉ f.2) (hn : buf.length ≤ n)
    (hcat : buf ++ rest = HttpRequest.afterLine fs body) :
    (readFields n buf = none ∧ body.length < rest.length) ∨
    ∃ buf', readFields n buf = some (fs.map fun f => (f.1, f.2.dropWhile (· = 32)), buf') ∧
      buf' ++ rest = body := by
  induction fs generalizing n buf with
  | nil =>
    have hlength := congrArg List.length hcat
    simp only [HttpRequest.afterLine, List.length_append, List.length_cons] at hlength
    rcases findCRLF_prefix List.not_mem_nil hcat with ⟨hlen, hnone⟩ | ⟨buf', rfl, htail, hline⟩
    · refine .inl ⟨?_, ?_⟩
      · cases n with
        | zero => rfl
        | succ n => simp only [readFields, hnone]
      · rw [List.length_nil] at hlen
        omega
    · cases n with
      | zero => cases hn
      | succ n =>
        refine .inr ⟨buf', ?_, htail⟩
        simp only [readFields, hline, List.length_nil, List.map_nil]
        rfl
  | cons f fs ih =>
    have hlength := congrArg List.length hcat
    have hafter := HttpRequest.le_length_afterLine fs body
    simp only [HttpRequest.afterLine, List.length_append, List.length_cons] at hlength
    have hf := hname f (List.mem_cons_self ..)
    have hclean : 13 ∉ HttpRequest.fieldLine f := by
      simp only [HttpRequest.fieldLine, List.mem_append, List.mem_cons, not_or]
      exact ⟨hf.notMem (by decide), by decide, hvalue f (List.mem_cons_self ..)⟩
    rcases findCRLF_prefix hclean hcat with ⟨hlen, hnone⟩ | ⟨buf', rfl, htail, hline⟩
    · refine .inl ⟨?_, by omega⟩
      cases n with
      | zero => rfl
      | succ n => simp only [readFields, hnone]
    · cases n with
      | zero => simp at hn
      | succ n =>
        have hshort : buf'.length ≤ n := by
          simp only [List.length_append, List.length_cons] at hn
          omega
        have hdrop : (HttpRequest.fieldLine f ++ 13 :: 10 :: buf').drop
            ((HttpRequest.fieldLine f).length + 2) = buf' := by
          simp
        obtain ⟨len, hlen⟩ : ∃ len, (HttpRequest.fieldLine f).length = len + 1 :=
          ⟨f.1.length + f.2.length, by
            rw [HttpRequest.fieldLine, List.length_append, List.length_cons]
            omega⟩
        have hstep : readFields (n + 1) (HttpRequest.fieldLine f ++ 13 :: 10 :: buf') =
            (readFields n buf').map fun r =>
              ((f.1, f.2.dropWhile (· = 32)) :: r.1, r.2) := by
          rw [hlen] at hline hdrop
          simp only [readFields, hline, hdrop]
          rw [← hlen, List.take_left, readField_line hf]
          cases readFields n buf' <;> rfl
        rcases ih (fun g hg => hname g (List.mem_cons_of_mem _ hg))
            (fun g hg => hvalue g (List.mem_cons_of_mem _ hg)) hshort htail with
          ⟨hnone, hmore⟩ | ⟨left, hread, hleft⟩
        · exact .inl ⟨by rw [hstep, hnone]; rfl, hmore⟩
        · exact .inr ⟨left, by rw [hstep, hread]; rfl, hleft⟩

theorem readStatus_line {resp : HttpResp} (h : resp.Plain) :
    readStatus resp.statusLine = some (resp.status.toInt.toNat, resp.reason) := by
  have hcode : intText resp.status = natText resp.status.toInt.toNat := by
    rw [intText, natText, ← Int.toNat_of_nonneg h.status]
    rfl
  have hdigit : ∀ b ∈ natText resp.status.toInt.toNat, isDigit b = true :=
    fun b hb => isDigit_of_mem_natText hb
  have hdrop : resp.statusLine.drop 9 =
      natText resp.status.toInt.toNat ++ 32 :: resp.reason := by
    rw [HttpResp.statusLine, hcode, List.append_assoc]
    rfl
  have hversion : (str "HTTP/1.1 ").isPrefixOf resp.statusLine = true := by
    rw [HttpResp.statusLine, List.append_assoc, List.isPrefixOf_iff_prefix]
    exact List.prefix_append _ _
  simp only [readStatus, hversion, if_true, hdrop, List.takeWhile_append_of_pos hdigit,
    List.dropWhile_append_of_pos hdigit, List.takeWhile_cons_of_neg (by decide : ¬ isDigit 32),
    List.dropWhile_cons_of_neg (by decide : ¬ isDigit 32), List.append_nil,
    natText_ne_nil, digitsValue_natText, if_false]

theorem isToken_contentLength : IsToken (str "Content-Length") where
  ne_nil := by decide
  tchars := by decide +kernel

theorem isToken_connection : IsToken (str "Connection") where
  ne_nil := by decide
  tchars := by decide +kernel

theorem declaredLength_fields {resp : HttpResp} (h : resp.Plain) :
    declaredLength resp.fields = some resp.body.length := by
  have hentries : resp.headers.entries.filter (fun f => decide (IsContentLength f.1)) = [] :=
    List.filter_eq_nil_iff.mpr fun e he => by simpa using (h.name e he).2
  have hown : decide (IsContentLength (str "Content-Length")) = true := by decide
  have hother : decide (IsContentLength (str "Connection")) = false := by decide
  have hdigits : (natText resp.body.length).all isDigit = true :=
    List.all_eq_true.mpr fun b hb => isDigit_of_mem_natText hb
  simp only [declaredLength, HttpResp.fields, List.filter_append, hentries, List.nil_append,
    List.filter_cons, hown, hother, List.filter_nil, if_true, Bool.false_eq_true, if_false,
    ne_eq, natText_ne_nil, not_false_iff, hdigits, and_self, digitsValue_natText]

end HttpAnswer

namespace HttpResp

variable {resp : HttpResp}

theorem reason_clean (h : resp.Plain) : 13 ∉ resp.reason := by
  unfold reason
  split
  · unfold statusMsg
    repeat' split
    all_goals decide
  · exact h.reason

theorem statusLine_clean (h : resp.Plain) : 13 ∉ resp.statusLine := by
  have hcode : intText resp.status = natText resp.status.toInt.toNat := by
    rw [intText, natText, ← Int.toNat_of_nonneg h.status]
    rfl
  have hdigits : 13 ∉ natText resp.status.toInt.toNat := fun hmem =>
    absurd (isDigit_of_mem_natText hmem) (by decide)
  have hversion : 13 ∉ str "HTTP/1.1 " := by decide
  simp only [statusLine, hcode, List.mem_append, List.mem_cons, not_or]
  exact ⟨⟨hversion, hdigits⟩, by decide, reason_clean h⟩

theorem natText_not_blank (n : Nat) : (natText n).dropWhile (· = 32) = natText n := by
  cases htext : natText n with
  | nil => rfl
  | cons b bs =>
    have hb : isDigit b = true := isDigit_of_mem_natText (htext ▸ List.mem_cons_self ..)
    refine List.dropWhile_cons_of_neg ?_
    intro hblank
    rw [decide_eq_true_eq] at hblank
    rw [hblank] at hb
    exact absurd hb (by decide)

theorem mem_fields (h : resp.Plain) {f : Bytes × Bytes} (hf : f ∈ resp.fields) :
    IsToken f.1 ∧ 13 ∉ f.2 ∧ f.2.dropWhile (· = 32) = f.2 := by
  have hdigits : 13 ∉ natText resp.body.length := fun hmem =>
    absurd (isDigit_of_mem_natText hmem) (by decide)
  simp only [fields, List.mem_append, List.mem_cons, List.not_mem_nil, or_false] at hf
  rcases hf with hf | rfl | rfl
  · exact ⟨(h.name f hf).1, h.value f hf⟩
  · exact ⟨HttpAnswer.isToken_contentLength, hdigits, natText_not_blank _⟩
  · exact ⟨HttpAnswer.isToken_connection, by decide, by decide⟩

theorem stripped_fields (h : resp.Plain) :
    ((resp.fields.map spaced).map fun f => (f.1, f.2.dropWhile (· = 32))) = resp.fields := by
  rw [List.map_map]
  refine (List.map_congr_left fun f hf => ?_).trans (List.map_id _)
  have hblank : (32 :: f.2).dropWhile (· = 32) = f.2 := by
    rw [List.dropWhile_cons_of_pos (by decide)]
    exact (mem_fields h hf).2.2
  exact Prod.ext rfl hblank

/-- What the server sends is one answer, which a client has when it has all of the bytes
and not before. -/
theorem read_sendResponse (h : resp.Plain) {buf rest : Bytes}
    (hcat : buf ++ rest = sendResponse resp) :
    HttpAnswer.read buf = if rest = [] then some (resp.answer, []) else none := by
  rw [sendResponse_eq] at hcat
  have hlength := congrArg List.length hcat
  have hafter := HttpRequest.le_length_afterLine (resp.fields.map spaced) resp.body
  simp only [List.length_append, List.length_cons] at hlength
  have hname : ∀ f ∈ resp.fields.map spaced, IsToken f.1 := by
    intro f hf
    obtain ⟨g, hg, rfl⟩ := List.mem_map.mp hf
    exact (mem_fields h hg).1
  have hvalue : ∀ f ∈ resp.fields.map spaced, 13 ∉ f.2 := by
    intro f hf
    obtain ⟨g, hg, rfl⟩ := List.mem_map.mp hf
    simpa [spaced] using (mem_fields h hg).2.1
  rcases findCRLF_prefix (statusLine_clean h) hcat with ⟨hlen, hnone⟩ | ⟨buf', rfl, htail, hline⟩
  · have hmore : rest ≠ [] := by
      intro hnil
      rw [hnil, List.length_nil] at hlength
      omega
    simp only [HttpAnswer.read, hnone, if_neg hmore]
  · have hdrop : (resp.statusLine ++ 13 :: 10 :: buf').drop (resp.statusLine.length + 2) =
        buf' := by
      simp
    have hfuel : buf'.length ≤ (resp.statusLine ++ 13 :: 10 :: buf').length := by
      rw [List.length_append, List.length_cons, List.length_cons]
      omega
    have hbytes : HttpAnswer.read (resp.statusLine ++ 13 :: 10 :: buf') =
        (HttpAnswer.readFields (resp.statusLine ++ 13 :: 10 :: buf').length buf' >>= fun r =>
          HttpAnswer.declaredLength r.1 >>= fun n =>
            if r.2.length < n then none
            else some (⟨resp.status.toInt.toNat, resp.reason, r.1, r.2.take n⟩, r.2.drop n)) := by
      simp only [HttpAnswer.read, hline, List.take_left, hdrop, HttpAnswer.readStatus_line h]
      rfl
    rw [hbytes]
    rcases HttpAnswer.readFields_prefix hname hvalue hfuel htail with
      ⟨hnone, hmore⟩ | ⟨left, hfields, hleft⟩
    · have hne : rest ≠ [] := by
        intro hnil
        rw [hnil, List.length_nil] at hmore
        omega
      rw [hnone, if_neg hne]
      rfl
    · rw [hfields, stripped_fields h]
      have hbody := congrArg List.length hleft
      rw [List.length_append] at hbody
      simp only [Option.bind_eq_bind, Option.bind_some, HttpAnswer.declaredLength_fields h]
      by_cases hnil : rest = []
      · subst hnil
        rw [List.append_nil] at hleft
        subst hleft
        rw [if_neg (Nat.lt_irrefl _), if_pos rfl, List.take_length, List.drop_length]
        rfl
      · have hpos := List.length_pos_iff.mpr hnil
        rw [if_neg hnil, if_pos (by omega)]

end HttpResp

end LyqtRpc
