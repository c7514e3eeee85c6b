import LyqtRpc.Lib.CrlfLines
import Mathlib.Data.List.AList

/-!
`HttpServer::onMessage` of the gateway over the chunks in which a request arrives.
Each call starts with a request line; what an earlier one has consumed is lost to it.
-/

set_option autoImplicit false

namespace LyqtRpc

structure HttpReq where
  method : Bytes := []
  path : Bytes := []
  headers : AList (fun _ : Bytes => Bytes) := ∅
  body : Bytes := []

def toLower (b : UInt8) : UInt8 := if 65 ≤ b && b ≤ 90 then b + 32 else b

/-- `strcasecmp(a, b) == 0` -/
def strcaseeq (a b : Bytes) : Bool := (cString a).map toLower = (cString b).map toLower

namespace HttpServer

/-- The headers read so far, and the last `Content-Length` among them. -/
structure Headers where
  headers : AList (fun _ : Bytes => Bytes) := ∅
  contentLength : Int32 := 0

/-- One line of the header loop. -/
def readLine (line : Bytes) (h : Headers) : Except CppException Headers :=
  match findFrom line 58 0 with
  | none => .ok h
  | some colon => do
    let key := line.take colon
    let val := (line.drop (colon + 1)).dropWhile (· = 32)
    let headers := h.headers.insert key val
    if strcaseeq key (str "Content-Length") then
      let contentLength ← stoi val
      pure { headers, contentLength }
    else pure { h with headers }

inductive HeaderRead where
  /-- The last line is not whole. -/
  | incomplete (buf : Bytes)
  | complete (buf : Bytes) (h : Headers)

/-- The bytes it leaves. -/
def HeaderRead.left : HeaderRead → Bytes
  | .incomplete buf => buf
  | .complete buf _ => buf

def readHeaders (buf : Bytes) (h : Headers) : Except CppException HeaderRead :=
  match _hline : findCRLF buf with
  | none => .ok (.incomplete buf)
  | some len =>
    if len = 0 then .ok (.complete (buf.drop 2) h)
    else
      match readLine (buf.take len) h with
      | .error e => .error e
      | .ok h => readHeaders (buf.drop (len + 2)) h
termination_by buf.length
decreasing_by
  have hle := findCRLF_le _hline
  simp only [List.length_drop]
  omega

inductive HttpEffect where
  | wait
  | shutdown
  /-- The callback, and the response to it. -/
  | callback (req : HttpReq)

/-- The body, and the callback: the buffer that is left, and what was done. -/
def readBody (method path buf : Bytes) (h : Headers) : Bytes × HttpEffect :=
  if 0 < h.contentLength then
    if 10 * 1024 * 1024 < h.contentLength then (buf, .shutdown)
    else
      let size := h.contentLength.toInt.toNat
      if buf.length < size then (buf, .wait)
      else
        (buf.drop size, .callback { method, path, headers := h.headers, body := buf.take size })
  else (buf, .callback { method, path, headers := h.headers })

def onMessage (buf : Bytes) : Except CppException (Bytes × HttpEffect) :=
  match findCRLF buf with
  | none => .ok (buf, .wait)
  | some line_len =>
    let request_line := buf.take line_len
    let buf := buf.drop (line_len + 2)
    match findFrom request_line 32 0 with
    | none => .ok (buf, .shutdown)
    | some sp1 =>
      match findFrom request_line 32 (sp1 + 1) with
      | none => .ok (buf, .shutdown)
      | some sp2 => do
        let method := substr request_line 0 sp1
        let path := substr request_line (sp1 + 1) (sp2 - sp1 - 1)
        match ← readHeaders buf {} with
        | .incomplete buf => pure (buf, .wait)
        | .complete buf h => pure (readBody method path buf h)

/-- The callbacks while chunk after chunk is appended to the buffer. An exception ends
the process. -/
def deliver : Bytes → List Bytes → List HttpReq
  | _, [] => []
  | buf, chunk :: chunks =>
    match onMessage (buf ++ chunk) with
    | .error _ => []
    | .ok (buf, .callback req) => req :: deliver buf chunks
    | .ok (buf, _) => deliver buf chunks

end HttpServer

/-! The requests that HTTP calls well-formed. -/

/-- The bytes of a token. -/
def isTchar (b : UInt8) : Bool :=
  isDigit b || (65 ≤ b && b ≤ 90) || (97 ≤ b && b ≤ 122) ||
    [33, 35, 36, 37, 38, 39, 42, 43, 45, 46, 94, 95, 96, 124, 126].contains b

structure IsToken (s : Bytes) : Prop where
  ne_nil : s ≠ []
  tchars : ∀ b ∈ s, isTchar b = true

/-- The decimal digits of `n` between blanks. -/
def Declares (text : Bytes) (n : Nat) : Prop :=
  ∃ before digits after, text = before ++ digits ++ after ∧
    (∀ b ∈ before ++ after, b = 32 ∨ b = 9) ∧
    digits ≠ [] ∧ (∀ b ∈ digits, isDigit b = true) ∧ digitsValue digits = n

/-- Header names do not depend on case. -/
def IsContentLength (name : Bytes) : Prop :=
  name.map toLower = (str "Content-Length").map toLower

/-- A field is its name and what stands behind the colon. -/
structure HttpRequest where
  method : Bytes
  path : Bytes
  /-- The `x` of `HTTP/1.x`. -/
  minor : UInt8
  fields : List (Bytes × Bytes)
  body : Bytes
  method_token : IsToken method
  path_text : ∀ b ∈ path, b ≠ 32 ∧ b ≠ 13
  minor_digit : isDigit minor = true
  name_token : ∀ f ∈ fields, IsToken f.1
  text_line : ∀ f ∈ fields, 13 ∉ f.2
  declared : ∀ f ∈ fields, IsContentLength f.1 → Declares f.2 body.length
  undeclared : (∀ f ∈ fields, ¬ IsContentLength f.1) → body = []
  bounded : body.length ≤ 10 * 1024 * 1024

namespace HttpRequest

def fieldLine (f : Bytes × Bytes) : Bytes := f.1 ++ 58 :: f.2

/-- The header lines, the blank line and the body. -/
def afterLine (fields : List (Bytes × Bytes)) (body : Bytes) : Bytes :=
  match fields with
  | [] => 13 :: 10 :: body
  | f :: fields => fieldLine f ++ 13 :: 10 :: afterLine fields body

def requestLine (r : HttpRequest) : Bytes :=
  r.method ++ 32 :: (r.path ++ 32 :: (str "HTTP/1." ++ [r.minor]))

def wire (r : HttpRequest) : Bytes :=
  r.requestLine ++ 13 :: 10 :: afterLine r.fields r.body

end HttpRequest

open HttpServer

theorem isTchar_ne {b c : UInt8} (h : isTchar b = true) (hc : isTchar c = false) : b ≠ c := by
  rintro rfl
  rw [h] at hc
  cases hc

theorem IsToken.notMem {s : Bytes} (h : IsToken s) {c : UInt8} (hc : isTchar c = false) :
    c ∉ s :=
  fun hmem => isTchar_ne (h.tchars c hmem) hc rfl

theorem findFrom_zero {a b : Bytes} {c : UInt8} (h : c ∉ a) :
    findFrom (a ++ c :: b) c 0 = some a.length := by
  rw [findFrom, List.drop_zero, find_append h (by simp)]
  rfl

theorem findFrom_next {a b d : Bytes} {c x : UInt8} (h : c ∉ b) :
    findFrom (a ++ x :: (b ++ c :: d)) c (a.length + 1) = some (a.length + 1 + b.length) := by
  have hdrop : (a ++ x :: (b ++ c :: d)).drop (a.length + 1) = b ++ c :: d := by
    simp
  rw [findFrom, hdrop, find_append h (by simp), Option.map_some, Nat.add_comm]

theorem cString_token {s : Bytes} (h : IsToken s) : cString s = s :=
  List.takeWhile_eq_self_iff.mpr fun b hb => by
    simpa using isTchar_ne (h.tchars b hb) (by decide)

theorem strcaseeq_iff {name : Bytes} (h : IsToken name) :
    strcaseeq name (str "Content-Length") = true ↔ IsContentLength name := by
  have hliteral : cString (str "Content-Length") = str "Content-Length" := by decide
  simp only [strcaseeq, cString_token h, hliteral, IsContentLength, decide_eq_true_eq]

theorem dropWhile_dropWhile {p q : UInt8 → Bool} (h : ∀ b, p b = true → q b = true) (s : Bytes) :
    (s.dropWhile p).dropWhile q = s.dropWhile q := by
  induction s with
  | nil => rfl
  | cons b s ih =>
    by_cases hp : p b = true
    · rw [List.dropWhile_cons_of_pos hp, ih, List.dropWhile_cons_of_pos (h b hp)]
    · rw [List.dropWhile_cons_of_neg hp]

/-- A declared length is what `stoi` reads, with or without its leading spaces. -/
theorem stoi_declares {text : Bytes} {n : Nat} (h : Declares text n) (hn : n < 2 ^ 31) :
    stoi (text.dropWhile (· = 32)) = .ok (Int32.ofInt n) := by
  obtain ⟨before, digits, after, rfl, hblank, hne, hdigits, hvalue⟩ := h
  cases digits with
  | nil => exact absurd rfl hne
  | cons d digits =>
    have hd : isDigit d = true := hdigits d (List.mem_cons_self ..)
    have hspace : ((before ++ d :: digits ++ after).dropWhile (· = 32)).dropWhile isSpace =
        d :: (digits ++ after) := by
      have hbefore : ∀ b ∈ before, isSpace b = true := by
        intro b hb
        rcases hblank b (List.mem_append_left _ hb) with rfl | rfl <;> decide
      rw [dropWhile_dropWhile (by simp +contextual [isSpace]), List.append_assoc,
        List.dropWhile_append_of_pos hbefore, List.cons_append,
        List.dropWhile_cons_of_neg (by simp [not_isSpace_of_isDigit hd])]
    have htake : (d :: (digits ++ after)).takeWhile isDigit = d :: digits := by
      have hafter : after.takeWhile isDigit = [] := by
        cases after with
        | nil => rfl
        | cons b after =>
          refine List.takeWhile_cons_of_neg ?_
          rcases hblank b (by simp) with rfl | rfl <;> decide
      rw [← List.cons_append, List.takeWhile_append_of_pos hdigits, hafter, List.append_nil]
    rw [stoi_of_digit hspace hd (by rwa [htake, hvalue]), htake, hvalue]

namespace HttpServer

theorem readHeaders_none {buf : Bytes} {h : Headers} (hline : findCRLF buf = none) :
    readHeaders buf h = .ok (.incomplete buf) := by
  rw [readHeaders]
  split
  · rfl
  · rename_i heq
    rw [hline] at heq
    cases heq

/-- The header loop at a line that ends. -/
theorem readHeaders_some {buf : Bytes} {h : Headers} {len : Nat}
    (hline : findCRLF buf = some len) :
    readHeaders buf h =
      if len = 0 then .ok (.complete (buf.drop 2) h)
      else readLine (buf.take len) h >>= readHeaders (buf.drop (len + 2)) := by
  rw [readHeaders]
  split
  · rename_i heq
    rw [hline] at heq
    cases heq
  · rename_i heq
    rw [hline] at heq
    cases heq
    cases readLine (buf.take len) h <;> rfl

theorem readHeaders_blank {buf : Bytes} {h : Headers} (hline : findCRLF buf = some 0) :
    readHeaders buf h = .ok (.complete (buf.drop 2) h) := by
  rw [readHeaders_some hline, if_pos rfl]

theorem readHeaders_throws {buf : Bytes} {h : Headers} {len : Nat} {e : CppException}
    (hline : findCRLF buf = some len) (hlen : len ≠ 0)
    (hread : readLine (buf.take len) h = .error e) : readHeaders buf h = .error e := by
  rw [readHeaders_some hline, if_neg hlen, hread]
  rfl

theorem readHeaders_line {buf : Bytes} {h h' : Headers} {len : Nat}
    (hline : findCRLF buf = some len) (hlen : len ≠ 0)
    (hread : readLine (buf.take len) h = .ok h') :
    readHeaders buf h = readHeaders (buf.drop (len + 2)) h' := by
  rw [readHeaders_some hline, if_neg hlen, hread, ok_bind]

end HttpServer

namespace HttpRequest

instance (name : Bytes) : Decidable (IsContentLength name) :=
  inferInstanceAs (Decidable (name.map toLower = _))

/-- What a field of the request does to the headers. -/
def addField (r : HttpRequest) (h : Headers) (f : Bytes × Bytes) : Headers where
  headers := h.headers.insert f.1 (f.2.dropWhile (· = 32))
  contentLength := if IsContentLength f.1 then Int32.ofInt r.body.length else h.contentLength

theorem readLine_field (r : HttpRequest) {f : Bytes × Bytes} (hf : f ∈ r.fields) (h : Headers) :
    readLine (fieldLine f) h = .ok (r.addField h f) := by
  have htoken := r.name_token f hf
  have hcolon : findFrom (fieldLine f) 58 0 = some f.1.length :=
    findFrom_zero (htoken.notMem (by decide))
  have hkey : (fieldLine f).take f.1.length = f.1 := by simp [fieldLine]
  have hval : (fieldLine f).drop (f.1.length + 1) = f.2 := by simp [fieldLine]
  have hbound := r.bounded
  simp only [readLine, hcolon, hkey, hval]
  by_cases hname : IsContentLength f.1
  · rw [if_pos ((strcaseeq_iff htoken).mpr hname),
      stoi_declares (r.declared f hf hname) (by omega), ok_bind, addField, if_pos hname]
    rfl
  · rw [if_neg (fun heq => hname ((strcaseeq_iff htoken).mp heq)), addField, if_neg hname]
    rfl

theorem notMem_fieldLine (r : HttpRequest) {f : Bytes × Bytes} (hf : f ∈ r.fields) :
    13 ∉ fieldLine f := by
  simp only [fieldLine, List.mem_append, List.mem_cons, not_or]
  exact ⟨(r.name_token f hf).notMem (by decide), by decide, r.text_line f hf⟩

theorem le_length_afterLine (fields : List (Bytes × Bytes)) (body : Bytes) :
    body.length + 2 ≤ (afterLine fields body).length := by
  induction fields with
  | nil => simp [afterLine]
  | cons f fields ih =>
    simp only [afterLine, List.length_append, List.length_cons]
    omega

/-- The header loop on what has come of some lines, the blank line and the body: it stops
at the line that is not whole, or it reads them all. -/
theorem readHeaders_prefix (r : HttpRequest) {fs : List (Bytes × Bytes)}
    (hfs : ∀ f ∈ fs, f ∈ r.fields) {buf rest : Bytes} (h : Headers)
    (hcat : buf ++ rest = afterLine fs r.body) :
    (∃ fs' buf', (∀ f ∈ fs', f ∈ r.fields) ∧ readHeaders buf h = .ok (.incomplete buf') ∧
      buf' ++ rest = afterLine fs' r.body ∧ r.body.length < rest.length) ∨
    ∃ buf', readHeaders buf h = .ok (.complete buf' (fs.foldl r.addField h)) ∧
      buf' ++ rest = r.body := by
  induction fs generalizing buf h with
  | nil =>
    have hlength := congrArg List.length hcat
    simp only [afterLine, List.length_append, List.length_cons] at hlength
    rcases findCRLF_prefix List.not_mem_nil hcat with ⟨hlen, hnone⟩ | ⟨buf', rfl, htail, hline⟩
    · refine .inl ⟨[], buf, hfs, readHeaders_none hnone, hcat, ?_⟩
      simp only [List.length_nil] at hlen
      omega
    · exact .inr ⟨buf', readHeaders_blank hline, htail⟩
  | cons f fs ih =>
    have hf := hfs f (List.mem_cons_self ..)
    have hlength := congrArg List.length hcat
    have hafter := le_length_afterLine fs r.body
    simp only [afterLine, List.length_append, List.length_cons] at hlength
    rcases findCRLF_prefix (r.notMem_fieldLine hf) hcat with
      ⟨hlen, hnone⟩ | ⟨buf', rfl, htail, hline⟩
    · refine .inl ⟨f :: fs, buf, hfs, readHeaders_none hnone, hcat, ?_⟩
      omega
    · have hne : (fieldLine f).length ≠ 0 := by simp [fieldLine]
      have hstep := readHeaders_line (h := h) hline hne
        (by rw [List.take_left]; exact r.readLine_field hf h)
      have hdrop : (fieldLine f ++ 13 :: 10 :: buf').drop ((fieldLine f).length + 2) = buf' := by
        simp
      rw [hstep, hdrop, List.foldl_cons]
      exact ih (fun g hg => hfs g (List.mem_cons_of_mem _ hg)) _ htail

theorem contentLength_foldl (r : HttpRequest) (fs : List (Bytes × Bytes)) (h : Headers) :
    (fs.foldl r.addField h).contentLength =
      if ∃ f ∈ fs, IsContentLength f.1 then Int32.ofInt r.body.length else h.contentLength := by
  induction fs generalizing h with
  | nil => simp
  | cons f fs ih =>
    rw [List.foldl_cons, ih]
    by_cases hf : IsContentLength f.1 <;> simp only [addField, List.exists_mem_cons_iff, hf,
      if_true, if_false, true_or, false_or, ite_self]

/-- The headers as the loop leaves them. -/
def headers (r : HttpRequest) : Headers := r.fields.foldl r.addField {}

theorem contentLength_headers (r : HttpRequest) :
    r.headers.contentLength = Int32.ofInt r.body.length := by
  rw [headers, contentLength_foldl]
  split
  · rfl
  · rename_i hnone
    have hbody : r.body = [] :=
      r.undeclared (fun f hf hname => hnone ⟨f, hf, hname⟩)
    rw [hbody]
    rfl

/-- What the callback is to get. -/
def req (r : HttpRequest) : HttpReq where
  method := r.method
  path := r.path
  headers := r.headers.headers
  body := r.body

theorem toInt_contentLength (r : HttpRequest) :
    (Int32.ofInt r.body.length).toInt = r.body.length := by
  have hbound := r.bounded
  exact Int32.toInt_ofInt_of_le (by omega) (by omega)

theorem readBody_headers (r : HttpRequest) (buf : Bytes) :
    readBody r.method r.path buf r.headers =
      if buf.length < r.body.length then (buf, .wait)
      else (buf.drop r.body.length,
        .callback { r.req with body := buf.take r.body.length }) := by
  have hbound := r.bounded
  have hint := r.toInt_contentLength
  have hmax : (10 * 1024 * 1024 : Int32).toInt = 10 * 1024 * 1024 := by decide
  have hzero : (0 : Int32).toInt = 0 := rfl
  simp only [readBody, contentLength_headers, Int32.lt_iff_toInt_lt, hint, hmax, hzero]
  by_cases hbody : r.body.length = 0
  · have hnil : r.body = [] := List.length_eq_zero_iff.mp hbody
    rw [if_neg (by omega), if_neg (by omega), hbody, List.drop_zero, List.take_zero, ← hnil]
    rfl
  · rw [if_pos (by omega), if_neg (by omega)]
    rfl

theorem notMem_requestLine (r : HttpRequest) : 13 ∉ r.requestLine := by
  have hminor : r.minor ≠ 13 := by
    intro heq
    have hdigit := r.minor_digit
    rw [heq] at hdigit
    revert hdigit
    decide
  have hversion : 13 ∉ str "HTTP/1." := by decide
  simp only [requestLine, List.mem_append, List.mem_cons, List.not_mem_nil, not_or]
  exact ⟨r.method_token.notMem (by decide), by decide, fun hmem => (r.path_text _ hmem).2 rfl,
    by decide, hversion, hminor.symm, not_false⟩

theorem find_method (r : HttpRequest) : findFrom r.requestLine 32 0 = some r.method.length :=
  findFrom_zero (r.method_token.notMem (by decide))

theorem find_path (r : HttpRequest) : findFrom r.requestLine 32 (r.method.length + 1) =
    some (r.method.length + 1 + r.path.length) :=
  findFrom_next (fun hmem => (r.path_text _ hmem).1 rfl)

theorem substr_method (r : HttpRequest) : substr r.requestLine 0 r.method.length = r.method := by
  simp [substr, requestLine]

theorem substr_path (r : HttpRequest) : substr r.requestLine (r.method.length + 1)
    (r.method.length + 1 + r.path.length - r.method.length - 1) = r.path := by
  have hlen : r.method.length + 1 + r.path.length - r.method.length - 1 = r.path.length := by omega
  simp [substr, requestLine, hlen]

/-- A buffer and what is to come, where a request line is looked for in the middle of the
request: at the lines after it, or in the body. -/
def Astray (r : HttpRequest) (s : Bytes) : Prop :=
  (∃ fs, (∀ f ∈ fs, f ∈ r.fields) ∧ s = afterLine fs r.body) ∨ s.length ≤ r.body.length

/-- The first call that has the request line whole answers the request or loses it. -/
theorem onMessage_wire (r : HttpRequest) {buf rest : Bytes} (hcat : buf ++ rest = r.wire) :
    (buf.length < r.requestLine.length + 2 ∧ onMessage buf = .ok (buf, .wait)) ∨
    (r.requestLine.length + 2 ≤ buf.length ∧ rest ≠ [] ∧
      ∃ buf', onMessage buf = .ok (buf', .wait) ∧ r.Astray (buf' ++ rest)) ∨
    (rest = [] ∧ onMessage buf = .ok ([], .callback r.req)) := by
  rcases findCRLF_prefix r.notMem_requestLine hcat with
    ⟨hlen, hnone⟩ | ⟨buf', rfl, htail, hline⟩
  · left
    refine ⟨hlen, ?_⟩
    simp only [onMessage, hnone]
  · right
    have hwhole : r.requestLine.length + 2 ≤
        (r.requestLine ++ 13 :: 10 :: buf').length := by
      simp only [List.length_append, List.length_cons]
      omega
    have hdrop : (r.requestLine ++ 13 :: 10 :: buf').drop (r.requestLine.length + 2) = buf' := by
      simp
    have hstep : onMessage (r.requestLine ++ 13 :: 10 :: buf') =
        (readHeaders buf' {} >>= fun read =>
          match read with
          | .incomplete buf => pure (buf, .wait)
          | .complete buf h => pure (readBody r.method r.path buf h)) := by
      simp only [onMessage, hline, List.take_left, hdrop, r.find_method, r.find_path,
        r.substr_method, r.substr_path]
    rcases r.readHeaders_prefix (fun _ hf => hf) {} htail with
      ⟨fs, left, hfs, hread, hleft, hmore⟩ | ⟨left, hread, hleft⟩
    · refine .inl ⟨hwhole, ?_, left, ?_, .inl ⟨fs, hfs, hleft⟩⟩
      · rintro rfl
        simp at hmore
      · rw [hstep, hread]
        rfl
    · have hbody := r.readBody_headers left
      have hlength := congrArg List.length hleft
      rw [List.length_append] at hlength
      have hdone : onMessage (r.requestLine ++ 13 :: 10 :: buf') =
          .ok (readBody r.method r.path left r.headers) := by
        rw [hstep, hread]
        rfl
      by_cases hrest : rest = []
      · refine .inr ⟨hrest, ?_⟩
        rw [hrest, List.append_nil] at hleft
        rw [hdone, hbody, hleft, if_neg (Nat.lt_irrefl _), List.drop_length, List.take_length]
        rfl
      · have hpos := List.length_pos_of_ne_nil hrest
        refine .inl ⟨hwhole, hrest, left, ?_, .inr ?_⟩
        · rw [hdone, hbody, if_pos (by omega)]
        · rw [List.length_append]
          omega

/-- A header line read as a request line gives a method with a colon in it. -/
theorem colon_mem_method (r : HttpRequest) {f : Bytes × Bytes} (hf : f ∈ r.fields) {sp1 : Nat}
    (h : findFrom (fieldLine f) 32 0 = some sp1) : 58 ∈ substr (fieldLine f) 0 sp1 := by
  obtain ⟨n, hn, hsp⟩ := Option.map_eq_some_iff.mp h
  have hat : (fieldLine f)[sp1]? = some 32 := by
    simp only [Nat.add_zero] at hsp
    rw [← hsp, ← getElem?_of_find hn, List.drop_zero]
  have hname : 32 ∉ f.1 := (r.name_token f hf).notMem (by decide)
  have hlt : f.1.length < sp1 := by
    by_contra hle
    rcases Nat.lt_or_eq_of_le (Nat.le_of_not_lt hle) with hlt | heq
    · rw [fieldLine, List.getElem?_append_left hlt] at hat
      exact hname (List.mem_of_getElem? hat)
    · rw [fieldLine, heq, List.getElem?_append_right (Nat.le_refl _), Nat.sub_self] at hat
      cases hat
  have hcolon : (substr (fieldLine f) 0 sp1)[f.1.length]? = some 58 := by
    rw [substr, List.drop_zero, List.getElem?_take_of_lt hlt, fieldLine,
      List.getElem?_append_right (Nat.le_refl _), Nat.sub_self]
    rfl
  exact List.mem_of_getElem? hcolon

end HttpRequest

namespace HttpServer

theorem readBody_length {method path buf buf' : Bytes} {h : Headers} {effect : HttpEffect}
    (hread : readBody method path buf h = (buf', effect)) :
    buf'.length ≤ buf.length ∧
    ∀ q, effect = .callback q → q.method = method ∧ q.body.length ≤ buf.length := by
  simp only [readBody] at hread
  split at hread
  · split at hread
    · cases hread
      exact ⟨Nat.le_refl _, fun q hq => nomatch hq⟩
    · split at hread
      · cases hread
        exact ⟨Nat.le_refl _, fun q hq => nomatch hq⟩
      · cases hread
        refine ⟨by simp, fun q hq => ?_⟩
        cases hq
        exact ⟨rfl, List.length_take_le' _ _⟩
  · cases hread
    refine ⟨Nat.le_refl _, fun q hq => ?_⟩
    cases hq
    exact ⟨rfl, Nat.zero_le _⟩

theorem readHeaders_length {buf : Bytes} {h : Headers} {read : HeaderRead}
    (hread : readHeaders buf h = .ok read) : read.left.length ≤ buf.length := by
  fun_induction readHeaders buf h with
  | case1 buf h hnone =>
    cases hread
    exact Nat.le_refl _
  | case2 buf h hline =>
    cases hread
    simp [HeaderRead.left]
  | case3 => cases hread
  | case4 buf h len hline hlen h' hstep ih =>
    have hle := ih hread
    rw [List.length_drop] at hle
    omega

/-- What a call does once there is a line. -/
theorem onMessage_line {buf buf' : Bytes} {effect : HttpEffect} {len : Nat}
    (hline : findCRLF buf = some len) (h : onMessage buf = .ok (buf', effect)) :
    (buf' = buf.drop (len + 2) ∧ effect = .shutdown) ∨
    ∃ sp1 read, findFrom (buf.take len) 32 0 = some sp1 ∧
      readHeaders (buf.drop (len + 2)) {} = .ok read ∧
      ((read = .incomplete buf' ∧ effect = .wait) ∨
        ∃ path left headers, read = .complete left headers ∧
          readBody (substr (buf.take len) 0 sp1) path left headers = (buf', effect)) := by
  simp only [onMessage, hline] at h
  cases hsp1 : findFrom (buf.take len) 32 0 with
  | none =>
    simp only [hsp1, Except.ok.injEq, Prod.mk.injEq] at h
    exact .inl ⟨h.1.symm, h.2.symm⟩
  | some sp1 =>
    cases hsp2 : findFrom (buf.take len) 32 (sp1 + 1) with
    | none =>
      simp only [hsp1, hsp2, Except.ok.injEq, Prod.mk.injEq] at h
      exact .inl ⟨h.1.symm, h.2.symm⟩
    | some sp2 =>
      simp only [hsp1, hsp2] at h
      obtain ⟨read, hread, h⟩ := bind_eq_ok.mp h
      refine .inr ⟨sp1, read, rfl, hread, ?_⟩
      cases read with
      | incomplete left =>
        simp only [pure_eq_ok, Prod.mk.injEq] at h
        obtain ⟨rfl, rfl⟩ := h
        exact .inl ⟨rfl, rfl⟩
      | complete left headers =>
        simp only [pure_eq_ok] at h
        exact .inr ⟨_, left, headers, rfl, h⟩

theorem onMessage_none {buf : Bytes} (hline : findCRLF buf = none) :
    onMessage buf = .ok (buf, .wait) := by
  simp only [onMessage, hline]

theorem onMessage_length {buf buf' : Bytes} {effect : HttpEffect}
    (h : onMessage buf = .ok (buf', effect)) :
    buf'.length ≤ buf.length ∧ ∀ q, effect = .callback q → q.body.length < buf.length := by
  cases hline : findCRLF buf with
  | none =>
    rw [onMessage_none hline] at h
    cases h
    exact ⟨Nat.le_refl _, fun q hq => nomatch hq⟩
  | some len =>
    have hle := findCRLF_le hline
    have hdrop : (buf.drop (len + 2)).length = buf.length - (len + 2) := List.length_drop
    rcases onMessage_line hline h with
      ⟨rfl, rfl⟩ | ⟨sp1, read, -, hread, ⟨rfl, rfl⟩ | ⟨path, left, headers, rfl, hbody⟩⟩
    · exact ⟨by omega, fun q hq => nomatch hq⟩
    · have hlen := readHeaders_length hread
      simp only [HeaderRead.left] at hlen
      exact ⟨by omega, fun q hq => nomatch hq⟩
    · have hlen := readHeaders_length hread
      simp only [HeaderRead.left] at hlen
      obtain ⟨hbuf, hq⟩ := readBody_length hbody
      refine ⟨by omega, fun q heq => ?_⟩
      have hqlen := (hq q heq).2
      omega

end HttpServer

namespace HttpRequest

/-- A call that is astray stays so, and does not answer the request. -/
theorem Astray.onMessage {r : HttpRequest} {buf rest buf' : Bytes} {effect : HttpEffect}
    (hastray : r.Astray (buf ++ rest)) (h : onMessage buf = .ok (buf', effect)) :
    r.Astray (buf' ++ rest) ∧ effect ≠ .callback r.req := by
  rcases hastray with ⟨fs, hfs, hcat⟩ | hlen
  · cases fs with
    | nil =>
      rcases findCRLF_prefix List.not_mem_nil hcat with
        ⟨-, hnone⟩ | ⟨tail, rfl, htail, hline⟩
      · rw [onMessage_none hnone] at h
        cases h
        exact ⟨.inl ⟨[], hfs, hcat⟩, nofun⟩
      · rcases onMessage_line hline h with ⟨rfl, rfl⟩ | ⟨sp1, _, hsp1, _⟩
        · refine ⟨.inr (Nat.le_of_eq ?_), nofun⟩
          simpa using congrArg List.length htail
        · cases hsp1
    | cons f fs =>
      have hf := hfs f (List.mem_cons_self ..)
      have hfs' : ∀ g ∈ fs, g ∈ r.fields := fun g hg => hfs g (List.mem_cons_of_mem _ hg)
      rcases findCRLF_prefix (r.notMem_fieldLine hf) hcat with
        ⟨-, hnone⟩ | ⟨tail, rfl, htail, hline⟩
      · rw [onMessage_none hnone] at h
        cases h
        exact ⟨.inl ⟨f :: fs, hfs, hcat⟩, nofun⟩
      · have hdrop : (fieldLine f ++ 13 :: 10 :: tail).drop ((fieldLine f).length + 2) = tail := by
          simp
        have hparts := onMessage_line hline h
        rw [hdrop, List.take_left] at hparts
        rcases hparts with ⟨rfl, rfl⟩ | ⟨sp1, read, hsp1, hread, hparts⟩
        · exact ⟨.inl ⟨fs, hfs', htail⟩, nofun⟩
        · have hcolon := r.colon_mem_method hf hsp1
          rcases r.readHeaders_prefix hfs' {} htail with
            ⟨fs', left, hfs'', hread', hleft, -⟩ | ⟨left, hread', hleft⟩
          · rw [hread, Except.ok.injEq] at hread'
            rcases hparts with ⟨hinc, rfl⟩ | ⟨_, _, _, hcomp, _⟩
            · rw [hread', HeaderRead.incomplete.injEq] at hinc
              subst hinc
              exact ⟨.inl ⟨fs', hfs'', hleft⟩, nofun⟩
            · rw [hread'] at hcomp
              cases hcomp
          · rw [hread, Except.ok.injEq] at hread'
            rcases hparts with ⟨hinc, _⟩ | ⟨path, left', headers, hcomp, hbody⟩
            · rw [hread'] at hinc
              cases hinc
            · rw [hread', HeaderRead.complete.injEq] at hcomp
              obtain ⟨rfl, rfl⟩ := hcomp
              obtain ⟨hlen, hq⟩ := readBody_length hbody
              have hlength := congrArg List.length hleft
              rw [List.length_append] at hlength
              refine ⟨.inr (by rw [List.length_append]; omega), fun heq => ?_⟩
              have hmethod : r.method = substr (fieldLine f) 0 sp1 := (hq r.req heq).1
              rw [← hmethod] at hcolon
              exact r.method_token.notMem (by decide) hcolon
  · obtain ⟨hle, hq⟩ := onMessage_length h
    rw [List.length_append] at hlen
    refine ⟨.inr (by rw [List.length_append]; omega), fun heq => ?_⟩
    have hbody : r.body.length < buf.length := hq r.req heq
    omega

theorem Astray.deliver {r : HttpRequest} {buf : Bytes} {chunks : List Bytes}
    (h : r.Astray (buf ++ chunks.flatten)) : r.req ∉ deliver buf chunks := by
  induction chunks generalizing buf with
  | nil => exact List.not_mem_nil
  | cons chunk chunks ih =>
    rw [List.flatten_cons, ← List.append_assoc] at h
    cases hcall : HttpServer.onMessage (buf ++ chunk) with
    | error e =>
      simp only [HttpServer.deliver, hcall]
      exact List.not_mem_nil
    | ok result =>
      obtain ⟨buf', effect⟩ := result
      obtain ⟨hastray, hne⟩ := h.onMessage hcall
      have hrest := ih hastray
      cases effect with
      | wait => simpa only [HttpServer.deliver, hcall] using hrest
      | shutdown => simpa only [HttpServer.deliver, hcall] using hrest
      | callback q =>
        simp only [HttpServer.deliver, hcall, List.mem_cons, not_or]
        exact ⟨fun heq => hne (heq ▸ rfl), hrest⟩

theorem deliver_nil {chunks : List Bytes} (h : chunks.flatten = []) : deliver [] chunks = [] := by
  induction chunks with
  | nil => rfl
  | cons chunk chunks ih =>
    obtain ⟨rfl, hrest⟩ := List.append_eq_nil_iff.mp h
    exact ih hrest

/-- No chunk ends between the end of the request line and the end of the request. -/
def Unbroken (r : HttpRequest) (buf : Bytes) (chunks : List Bytes) : Prop :=
  ∀ before after, chunks = before ++ after →
    (buf ++ before.flatten).length < r.requestLine.length + 2 ∨ after.flatten = []

theorem unbroken_cons (r : HttpRequest) {buf chunk : Bytes} {chunks : List Bytes}
    (hbuf : buf.length < r.requestLine.length + 2) :
    r.Unbroken buf (chunk :: chunks) ↔ r.Unbroken (buf ++ chunk) chunks := by
  constructor
  · intro h before after hsplit
    have hchunk := h (chunk :: before) after (by rw [hsplit, List.cons_append])
    rwa [List.flatten_cons, ← List.append_assoc] at hchunk
  · intro h before after hsplit
    cases before with
    | nil =>
      left
      rwa [List.flatten_nil, List.append_nil]
    | cons first before =>
      obtain ⟨rfl, hrest⟩ := List.cons.inj hsplit
      rw [List.flatten_cons, ← List.append_assoc]
      exact h before after hrest

theorem unbroken_nil (r : HttpRequest) (buf : Bytes) : r.Unbroken buf [] := by
  intro before after hsplit
  right
  rw [(List.append_eq_nil_iff.mp hsplit.symm).2, List.flatten_nil]

/-- Once the request line is there, the rest has to be. -/
theorem unbroken_iff_of_le (r : HttpRequest) {buf : Bytes} {chunks : List Bytes}
    (hbuf : r.requestLine.length + 2 ≤ buf.length) :
    r.Unbroken buf chunks ↔ chunks.flatten = [] := by
  constructor
  · intro h
    rcases h [] chunks rfl with hlt | hnil
    · rw [List.length_append] at hlt
      omega
    · exact hnil
  · rintro h before after rfl
    rw [List.flatten_append] at h
    exact .inr (List.append_eq_nil_iff.mp h).2

theorem le_length_wire (r : HttpRequest) : r.requestLine.length + 2 ≤ r.wire.length := by
  simp only [wire, List.length_append, List.length_cons]
  omega

/-- The request is answered once where no chunk ends inside it, and never where one does. -/
theorem deliver_wire (r : HttpRequest) {buf : Bytes} {chunks : List Bytes}
    (hcat : buf ++ chunks.flatten = r.wire) (hbuf : buf.length < r.requestLine.length + 2) :
    (r.Unbroken buf chunks → deliver buf chunks = [r.req]) ∧
    (¬ r.Unbroken buf chunks → r.req ∉ deliver buf chunks) := by
  induction chunks generalizing buf with
  | nil =>
    have hlen := r.le_length_wire
    rw [← hcat, List.flatten_nil, List.append_nil] at hlen
    omega
  | cons chunk chunks ih =>
    rw [r.unbroken_cons hbuf]
    rw [List.flatten_cons, ← List.append_assoc] at hcat
    rcases r.onMessage_wire hcat with
      ⟨hlen, hcall⟩ | ⟨hlen, hrest, buf', hcall, hastray⟩ | ⟨hrest, hcall⟩
    · simp only [deliver, hcall]
      exact ih hcat hlen
    · simp only [deliver, hcall]
      exact ⟨fun h => absurd ((r.unbroken_iff_of_le hlen).mp h) hrest, fun _ => hastray.deliver⟩
    · have hlen := r.le_length_wire
      rw [← hcat, hrest, List.append_nil] at hlen
      simp only [deliver, hcall, deliver_nil hrest]
      exact ⟨fun _ => trivial, fun h => absurd ((r.unbroken_iff_of_le hlen).mpr hrest) h⟩

theorem deliver_whole (r : HttpRequest) : deliver [] [r.wire] = [r.req] := by
  refine (r.deliver_wire (by simp) (by simp)).1 ?_
  rw [r.unbroken_cons (by simp)]
  exact r.unbroken_nil _

end HttpRequest

/-- Chunk by chunk the callback is called once, with what it gets when the request comes
in one chunk, exactly when none of them ends between the end of the request line and the
end of the request. -/
theorem deliver_once_iff (r : HttpRequest) (chunks : List Bytes) (h : chunks.flatten = r.wire) :
    (∃ q, deliver [] chunks = [q] ∧ deliver [] [r.wire] = [q]) ↔ r.Unbroken [] chunks := by
  have hboth := r.deliver_wire ((List.nil_append _).trans h) (by simp)
  rw [r.deliver_whole]
  constructor
  · rintro ⟨q, hchunks, hq⟩
    obtain rfl := (List.cons.inj hq).1
    by_contra hbroken
    refine hboth.2 hbroken ?_
    rw [hchunks]
    exact List.mem_singleton_self _
  · exact fun hunbroken => ⟨r.req, hboth.1 hunbroken, rfl⟩

/-- `POST /api/echo` with the JSON of `hi`. -/
def echo : HttpRequest where
  method := str "POST"
  path := str "/api/echo"
  minor := 49
  fields := [(str "content-length", str " 13")]
  body := str "\x7b\"data\":\"hi\"\x7d"
  method_token := ⟨by decide +kernel, by decide +kernel⟩
  path_text := by decide +kernel
  minor_digit := by decide +kernel
  name_token f hf := by
    obtain rfl := List.mem_singleton.mp hf
    exact ⟨by decide +kernel, by decide +kernel⟩
  text_line f hf := by
    obtain rfl := List.mem_singleton.mp hf
    decide +kernel
  declared f hf _ := by
    obtain rfl := List.mem_singleton.mp hf
    exact ⟨str " ", str "13", [], rfl, by decide +kernel, by decide +kernel, by decide +kernel, rfl⟩
  undeclared h := absurd (List.mem_singleton_self _) (fun hf => h _ hf (by decide +kernel))
  bounded := by decide +kernel

theorem deliver_once_iff_echo :
    ∃ q, deliver [] [str "POST /a", echo.wire.drop 7] = [q] ∧ deliver [] [echo.wire] = [q] := by
  refine (deliver_once_iff echo [str "POST /a", echo.wire.drop 7] (by decide +kernel)).mpr ?_
  rw [echo.unbroken_cons (by simp), echo.unbroken_cons (by decide +kernel)]
  exact echo.unbroken_nil _

/-- The chunk boundary behind the request line: the headers are read as a request line. -/
theorem deliver_split_lost :
    ¬ ∀ (r : HttpRequest) (chunks : List Bytes), chunks.flatten = r.wire →
      ∃ q, deliver [] chunks = [q] ∧ deliver [] [r.wire] = [q] := by
  intro h
  obtain ⟨q, hq, -⟩ := h echo [echo.wire.take 25, echo.wire.drop 25] (by simp)
  have hnone : (deliver [] [echo.wire.take 25, echo.wire.drop 25]).length = 0 := by
    decide +kernel
  rw [hq] at hnone
  cases hnone

end LyqtRpc
