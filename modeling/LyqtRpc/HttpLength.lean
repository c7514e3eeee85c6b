import LyqtRpc.HttpServer
import LyqtRpc.Lib.StepRun

/-!
The length of a request body: `HttpServer::onMessage` over the chunks of a stream, against
what the `Content-Length` lines of the request declare.
-/

set_option autoImplicit false

namespace LyqtRpc

open StepRun HttpServer

/-- What has come since the last request, what the buffer still holds of it, and whether
the server has shut the connection down. -/
structure HttpStream where
  pending : Bytes := []
  buf : Bytes := []
  closed : Bool := false
  deriving DecidableEq

/-- An exception ends the process. -/
def httpStep (s : HttpStream) (chunk : Bytes) : Option HttpStream :=
  match onMessage (s.buf ++ chunk) with
  | .error _ => none
  | .ok (left, .wait) => some { s with pending := s.pending ++ chunk, buf := left }
  | .ok (left, .shutdown) => some { pending := s.pending ++ chunk, buf := left, closed := true }
  | .ok (left, .callback _) => some { s with pending := left, buf := left }

/-! The head of a request. -/

/-- Lines up to a blank one, and what follows that; `none` where the text ends before it. -/
inductive HeaderLines : Bytes → List Bytes → Option Bytes → Prop where
  | cut {text : Bytes} : findCRLF text = none → HeaderLines text [] none
  | blank {text : Bytes} : findCRLF text = some 0 → HeaderLines text [] (some (text.drop 2))
  | line {text : Bytes} {len : Nat} {lines : List Bytes} {after : Option Bytes} :
      findCRLF text = some len → len ≠ 0 → HeaderLines (text.drop (len + 2)) lines after →
      HeaderLines text (text.take len :: lines) after

/-- A request line with two spaces, and the header lines behind it. -/
inductive Head : Bytes → List Bytes → Option Bytes → Prop where
  | mk {text : Bytes} {len : Nat} {lines : List Bytes} {after : Option Bytes} :
      findCRLF text = some len → 2 ≤ (text.take len).count 32 →
      HeaderLines (text.drop (len + 2)) lines after → Head text lines after

/-- The name and the value of a header line. -/
def headerField (line : Bytes) : Option (Bytes × Bytes) :=
  (findFrom line 58 0).map fun colon => (line.take colon, line.drop (colon + 1))

def valuesOf (name : Bytes → Bool) (lines : List Bytes) : List Bytes :=
  (lines.filterMap headerField).filterMap fun f => if name f.1 then some f.2 else none

/-- The values of the `Content-Length` lines. -/
def declaredValues : List Bytes → List Bytes := valuesOf fun name => decide (IsContentLength name)

/-- The lines declare a body of `n` bytes: each `Content-Length` is `n`, and without one
there is no body. -/
structure DeclareLength (lines : List Bytes) (n : Nat) : Prop where
  bounded : n ≤ 10 * 1024 * 1024
  each : ∀ v ∈ declaredValues lines, Declares v n
  absent : declaredValues lines = [] → n = 0

/-- A call throws nothing, takes from the buffer's front, hands over a body of the declared
length, and closes a connection whose request declares none: `text` is the request as it
has come so far, and `buf` the readable bytes. -/
structure LengthExact (text buf : Bytes) : Prop where
  returns : ∃ result, onMessage buf = .ok result
  within : ∀ left effect, onMessage buf = .ok (left, effect) → left <:+ buf
  exact : ∀ left req, onMessage buf = .ok (left, .callback req) →
    ∃ lines, Head text lines (some (req.body ++ left)) ∧ DeclareLength lines req.body.length
  closes : ∀ lines rest, Head text lines (some rest) → (¬ ∃ n, DeclareLength lines n) →
    ∃ left, onMessage buf = .ok (left, .shutdown)

def CallExact (s : HttpStream) (chunk : Bytes) : Prop :=
  LengthExact (s.pending ++ chunk) (s.buf ++ chunk)

/-! When it holds. -/

/-- The call starts where a request does, on an open connection. -/
def AtRequest (s : HttpStream) (_chunk : Bytes) : Prop :=
  s.closed = false ∧ s.buf = s.pending

/-- The values the code takes for a length. -/
def takenValues : List Bytes → List Bytes :=
  valuesOf fun name => strcaseeq name (str "Content-Length")

def number (text : Bytes) : Int32 :=
  match stoi text with
  | .error _ => 0
  | .ok n => n

/-- The number in the last of them. -/
def lastLength (lines : List Bytes) : Int32 := ((takenValues lines).map number).getLastD 0

/-- Every length is a number to `stoi`, and at the end of the head the last one is too large
or what the lines declare; where less than that has come, it is enough that they declare
some length. -/
structure LengthsFit (lines : List Bytes) (after : Option Bytes) : Prop where
  numbers : ∀ v ∈ takenValues lines, ∃ n, stoi v = .ok n
  declared : ∀ rest, after = some rest → 10 * 1024 * 1024 < lastLength lines ∨
    ∃ n, DeclareLength lines n ∧
      (n = (lastLength lines).toInt.toNat ∨ rest.length < (lastLength lines).toInt.toNat)

instance (s : HttpStream) (chunk : Bytes) : Decidable (AtRequest s chunk) :=
  inferInstanceAs (Decidable (_ ∧ _))

def HeadFits (s : HttpStream) (chunk : Bytes) : Prop :=
  ∀ lines after, Head (s.pending ++ chunk) lines after → LengthsFit lines after

/-! Lines and heads. -/

theorem HeaderLines.total (text : Bytes) : ∃ lines after, HeaderLines text lines after := by
  induction hn : text.length using Nat.strongRecOn generalizing text with
  | ind n ih =>
    cases hline : findCRLF text with
    | none => exact ⟨[], none, .cut hline⟩
    | some len =>
      by_cases hlen : len = 0
      · exact ⟨[], _, .blank (hlen ▸ hline)⟩
      · have hle := findCRLF_le hline
        have hshort : (text.drop (len + 2)).length < n := by
          rw [List.length_drop]
          omega
        obtain ⟨lines, after, hlines⟩ := ih _ hshort _ rfl
        exact ⟨_, after, .line hline hlen hlines⟩

theorem HeaderLines.unique {text : Bytes} {lines lines' : List Bytes} {after after' : Option Bytes}
    (h : HeaderLines text lines after) (h' : HeaderLines text lines' after') :
    lines = lines' ∧ after = after' := by
  induction h generalizing lines' after' with
  | cut hnone => cases h' <;> simp_all
  | blank hblank => cases h' <;> simp_all
  | line hline hlen _ ih =>
    cases h' with
    | cut hnone => simp_all
    | blank hblank => simp_all
    | line hline' _ htail =>
      obtain rfl := Option.some.inj (hline.symm.trans hline')
      obtain ⟨rfl, rfl⟩ := ih htail
      exact ⟨rfl, rfl⟩

theorem Head.unique {text : Bytes} {lines lines' : List Bytes} {after after' : Option Bytes}
    (h : Head text lines after) (h' : Head text lines' after') :
    lines = lines' ∧ after = after' := by
  obtain ⟨hline, -, htail⟩ := h
  obtain ⟨hline', -, htail'⟩ := h'
  obtain rfl := Option.some.inj (hline.symm.trans hline')
  exact htail.unique htail'

/-- Two spaces are what the two searches look for. -/
theorem findFrom_spaces {line : Bytes} (h : 2 ≤ line.count 32) :
    ∃ sp1 sp2, findFrom line 32 0 = some sp1 ∧ findFrom line 32 (sp1 + 1) = some sp2 := by
  have hpos : 0 < line.count 32 := by omega
  obtain ⟨a, b, rfl, ha⟩ := List.eq_append_cons_of_mem (List.count_pos_iff.mp hpos)
  have hb : 32 ∈ b := by
    rw [List.count_append, List.count_eq_zero_of_not_mem ha, List.count_cons_self] at h
    exact List.count_pos_iff.mp (by omega)
  obtain ⟨c, d, rfl, hc⟩ := List.eq_append_cons_of_mem hb
  exact ⟨_, _, findFrom_zero ha, findFrom_next hc⟩

theorem findFrom_fewer {line : Bytes} {sp1 : Nat} (h : line.count 32 < 2)
    (hsp1 : findFrom line 32 0 = some sp1) : findFrom line 32 (sp1 + 1) = none := by
  by_cases hmem : 32 ∈ line
  · obtain ⟨a, b, rfl, ha⟩ := List.eq_append_cons_of_mem hmem
    rw [findFrom_zero ha, Option.some.injEq] at hsp1
    rw [List.count_append, List.count_cons_self] at h
    have hb : 32 ∉ b := List.count_eq_zero.mp (by omega)
    have hdrop : (a ++ 32 :: b).drop (a.length + 1) = b := by simp
    rw [← hsp1, findFrom, hdrop, find_eq_none hb]
    rfl
  · rw [findFrom, List.drop_zero, find_eq_none hmem] at hsp1
    cases hsp1

/-- What a call does with a request line. -/
theorem onMessage_malformed {buf : Bytes} {len : Nat} (hline : findCRLF buf = some len)
    (h : (buf.take len).count 32 < 2) :
    onMessage buf = .ok (buf.drop (len + 2), .shutdown) := by
  simp only [onMessage, hline]
  cases hsp1 : findFrom (buf.take len) 32 0 with
  | none => rfl
  | some sp1 => simp only [findFrom_fewer h hsp1]

theorem onMessage_wellformed {buf : Bytes} {len : Nat} (hline : findCRLF buf = some len)
    (h : 2 ≤ (buf.take len).count 32) :
    ∃ method path, onMessage buf = (readHeaders (buf.drop (len + 2)) {}).map fun
      | .incomplete left => (left, .wait)
      | .complete left headers => readBody method path left headers := by
  obtain ⟨sp1, sp2, hsp1, hsp2⟩ := findFrom_spaces h
  refine ⟨substr (buf.take len) 0 sp1, substr (buf.take len) (sp1 + 1) (sp2 - sp1 - 1), ?_⟩
  simp only [onMessage, hline, hsp1, hsp2]
  cases readHeaders (buf.drop (len + 2)) {} with
  | error e => rfl
  | ok read => cases read <;> rfl

/-! What the header loop makes of the lines. -/

theorem takenValues_cons (line : Bytes) (lines : List Bytes) :
    takenValues (line :: lines) = takenValues [line] ++ takenValues lines := by
  rw [← List.singleton_append, takenValues, valuesOf, List.filterMap_append,
    List.filterMap_append]
  rfl

/-- `stoi` skips the spaces that the code takes off first. -/
theorem stoi_dropWhile (text : Bytes) : stoi (text.dropWhile (· = 32)) = stoi text := by
  rw [stoi, dropWhile_dropWhile (by simp +contextual [isSpace])]
  rfl

theorem number_of_ok {text : Bytes} {n : Int32} (h : stoi text = .ok n) : number text = n := by
  rw [number, h]

/-- A line that has no length in it, or one. -/
theorem takenValues_line (line : Bytes) (h : Headers) :
    (takenValues [line] = [] ∧ ∃ headers, readLine line h = .ok { h with headers }) ∨
    ∃ v headers, takenValues [line] = [v] ∧
      readLine line h = (stoi v).map fun contentLength => { headers, contentLength } := by
  cases hcolon : findFrom line 58 0 with
  | none =>
    left
    refine ⟨?_, h.headers, ?_⟩
    · simp [takenValues, valuesOf, headerField, hcolon]
    · simp only [readLine, hcolon]
  | some colon =>
    by_cases hname : strcaseeq (line.take colon) (str "Content-Length") = true
    · right
      let val := (line.drop (colon + 1)).dropWhile (· = 32)
      refine ⟨line.drop (colon + 1), h.headers.insert (line.take colon) val, ?_, ?_⟩
      · simp [takenValues, valuesOf, headerField, hcolon, hname]
      · simp only [readLine, hcolon, if_pos hname, stoi_dropWhile]
        cases stoi (line.drop (colon + 1)) <;> rfl
    · left
      let val := (line.drop (colon + 1)).dropWhile (· = 32)
      refine ⟨?_, h.headers.insert (line.take colon) val, ?_⟩
      · simp [takenValues, valuesOf, headerField, hcolon, hname]
      · simp only [readLine, hcolon, if_neg hname]
        rfl

/-- The header loop gets through its lines where every length is a number, and then has the
last of them. -/
theorem HeaderLines.readHeaders {text : Bytes} {lines : List Bytes} {after : Option Bytes}
    (hlines : HeaderLines text lines after) (h : Headers)
    (hnum : ∀ v ∈ takenValues lines, ∃ n, stoi v = .ok n) :
    (after = none → ∃ left, HttpServer.readHeaders text h = .ok (.incomplete left)) ∧
    ∀ rest, after = some rest → ∃ headers,
      HttpServer.readHeaders text h = .ok (.complete rest headers) ∧
      headers.contentLength = ((takenValues lines).map number).getLastD h.contentLength := by
  induction hlines generalizing h with
  | cut hnone => exact ⟨fun _ => ⟨_, readHeaders_none hnone⟩, nofun⟩
  | blank hblank =>
    refine ⟨nofun, fun rest hrest => ⟨h, ?_, rfl⟩⟩
    rw [readHeaders_blank hblank, Option.some.inj hrest]
  | @line text len lines after hline hlen _ ih =>
    rw [takenValues_cons] at hnum ⊢
    rcases takenValues_line (text.take len) h with
      ⟨hnil, headers, hread⟩ | ⟨v, headers, hone, hread⟩
    · rw [hnil, List.nil_append] at hnum ⊢
      rw [readHeaders_line hline hlen hread]
      exact ih _ hnum
    · rw [hone, List.singleton_append] at hnum ⊢
      obtain ⟨n, hn⟩ := hnum v (List.mem_cons_self ..)
      rw [hn] at hread
      rw [readHeaders_line hline hlen hread, List.map_cons, List.getLastD_cons, number_of_ok hn]
      exact ih _ (fun w hw => hnum w (List.mem_cons_of_mem _ hw))

/-- It throws at a length that is no number. -/
theorem HeaderLines.numbers {text : Bytes} {lines : List Bytes} {after : Option Bytes}
    (hlines : HeaderLines text lines after) {h : Headers} {read : HeaderRead}
    (hread : HttpServer.readHeaders text h = .ok read) :
    ∀ v ∈ takenValues lines, ∃ n, stoi v = .ok n := by
  induction hlines generalizing h with
  | cut => exact nofun
  | blank => exact nofun
  | @line text len lines after hline hlen _ ih =>
    rw [takenValues_cons]
    rcases takenValues_line (text.take len) h with
      ⟨hnil, headers, hstep⟩ | ⟨v, headers, hone, hstep⟩
    · rw [readHeaders_line hline hlen hstep] at hread
      rw [hnil, List.nil_append]
      exact ih hread
    · cases hv : stoi v with
      | error e =>
        rw [hv] at hstep
        rw [readHeaders_throws hline hlen hstep] at hread
        cases hread
      | ok n =>
        rw [hv] at hstep
        rw [readHeaders_line hline hlen hstep] at hread
        rw [hone]
        intro w hw
        rcases List.mem_append.mp hw with hw | hw
        · rw [List.mem_singleton.mp hw]
          exact ⟨n, hv⟩
        · exact ih hread w hw

/-! What a call does with a head. -/

/-- The body: a length that is too large, one that has not come, and one that has. -/
theorem readBody_cases (method path buf : Bytes) (h : Headers) :
    (10 * 1024 * 1024 < h.contentLength ∧ readBody method path buf h = (buf, .shutdown)) ∨
    (¬ 10 * 1024 * 1024 < h.contentLength ∧ buf.length < h.contentLength.toInt.toNat ∧
      readBody method path buf h = (buf, .wait)) ∨
    (¬ 10 * 1024 * 1024 < h.contentLength ∧ ¬ buf.length < h.contentLength.toInt.toNat ∧
      ∃ req, req.body = buf.take h.contentLength.toInt.toNat ∧
        readBody method path buf h =
          (buf.drop h.contentLength.toInt.toNat, .callback req)) := by
  have hmax : (10 * 1024 * 1024 : Int32).toInt = 10 * 1024 * 1024 := by decide
  have hzero : (0 : Int32).toInt = 0 := rfl
  simp only [readBody, Int32.lt_iff_toInt_lt, hmax, hzero]
  by_cases hpos : 0 < h.contentLength.toInt
  · rw [if_pos hpos]
    by_cases hlarge : 10 * 1024 * 1024 < h.contentLength.toInt
    · exact .inl ⟨hlarge, if_pos hlarge⟩
    · rw [if_neg hlarge]
      by_cases hshort : buf.length < h.contentLength.toInt.toNat
      · exact .inr (.inl ⟨hlarge, hshort, if_pos hshort⟩)
      · exact .inr (.inr ⟨hlarge, hshort, _, rfl, if_neg hshort⟩)
  · have hnat : h.contentLength.toInt.toNat = 0 := by omega
    rw [if_neg hpos, hnat, List.drop_zero, List.take_zero]
    exact .inr (.inr ⟨by omega, by omega, _, rfl, rfl⟩)

/-- What is left is the end of what was there. -/
theorem readHeaders_suffix {buf : Bytes} {h : Headers} {read : HeaderRead}
    (hread : HttpServer.readHeaders buf h = .ok read) : read.left <:+ buf := by
  fun_induction HttpServer.readHeaders buf h with
  | case1 buf h hnone =>
    cases hread
    exact List.suffix_rfl
  | case2 buf h hline =>
    cases hread
    exact List.drop_suffix _ _
  | case3 => cases hread
  | case4 buf h len hline hlen h' hstep ih => exact (ih hread).trans (List.drop_suffix _ _)

theorem readBody_suffix (method path buf : Bytes) (h : Headers) :
    (readBody method path buf h).1 <:+ buf := by
  rcases readBody_cases method path buf h with ⟨-, heq⟩ | ⟨-, -, heq⟩ | ⟨-, -, req, -, heq⟩
  · simpa only [heq] using List.suffix_rfl
  · simpa only [heq] using List.suffix_rfl
  · rw [heq]
    exact List.drop_suffix _ _

theorem onMessage_suffix {buf left : Bytes} {effect : HttpEffect}
    (h : onMessage buf = .ok (left, effect)) : left <:+ buf := by
  cases hline : findCRLF buf with
  | none =>
    rw [onMessage_none hline] at h
    cases h
    exact List.suffix_rfl
  | some len =>
    rcases onMessage_line hline h with
      ⟨rfl, -⟩ | ⟨sp1, read, -, hread, ⟨rfl, -⟩ | ⟨path, buf', headers, rfl, hbody⟩⟩
    · exact List.drop_suffix _ _
    · exact (readHeaders_suffix hread).trans (List.drop_suffix _ _)
    · have hleft := readBody_suffix (substr (buf.take len) 0 sp1) path buf' headers
      rw [hbody] at hleft
      exact hleft.trans ((readHeaders_suffix hread).trans (List.drop_suffix _ _))

/-- Without a head there is no callback. -/
theorem onMessage_no_head {buf : Bytes} (h : ¬ ∃ lines after, Head buf lines after) :
    ∃ left, onMessage buf = .ok (left, .wait) ∨ onMessage buf = .ok (left, .shutdown) := by
  cases hline : findCRLF buf with
  | none => exact ⟨buf, .inl (onMessage_none hline)⟩
  | some len =>
    refine ⟨buf.drop (len + 2), .inr (onMessage_malformed hline ?_)⟩
    by_contra hcount
    obtain ⟨lines, after, hlines⟩ := HeaderLines.total (buf.drop (len + 2))
    exact h ⟨lines, after, .mk hline (by omega) hlines⟩

theorem Head.numbers {buf : Bytes} {lines : List Bytes} {after : Option Bytes}
    {result : Bytes × HttpEffect} (hhead : Head buf lines after)
    (h : onMessage buf = .ok result) : ∀ v ∈ takenValues lines, ∃ n, stoi v = .ok n := by
  obtain ⟨hline, hspaces, hlines⟩ := hhead
  obtain ⟨method, path, hcall⟩ := onMessage_wellformed hline hspaces
  rw [hcall] at h
  cases hread : HttpServer.readHeaders (buf.drop (_ + 2)) {} with
  | error e =>
    rw [hread] at h
    cases h
  | ok read => exact hlines.numbers hread

/-- A head whose end has not come is waited for. -/
theorem Head.onMessage_cut {buf : Bytes} {lines : List Bytes} (hhead : Head buf lines none)
    (hnum : ∀ v ∈ takenValues lines, ∃ n, stoi v = .ok n) :
    ∃ left, onMessage buf = .ok (left, .wait) := by
  obtain ⟨hline, hspaces, hlines⟩ := hhead
  obtain ⟨method, path, hcall⟩ := onMessage_wellformed hline hspaces
  obtain ⟨left, hread⟩ := (hlines.readHeaders {} hnum).1 rfl
  rw [hcall, hread]
  exact ⟨left, rfl⟩

theorem Head.onMessage_whole {buf rest : Bytes} {lines : List Bytes}
    (hhead : Head buf lines (some rest)) (hnum : ∀ v ∈ takenValues lines, ∃ n, stoi v = .ok n) :
    (10 * 1024 * 1024 < lastLength lines ∧ onMessage buf = .ok (rest, .shutdown)) ∨
    (¬ 10 * 1024 * 1024 < lastLength lines ∧ rest.length < (lastLength lines).toInt.toNat ∧
      onMessage buf = .ok (rest, .wait)) ∨
    (¬ 10 * 1024 * 1024 < lastLength lines ∧ ¬ rest.length < (lastLength lines).toInt.toNat ∧
      ∃ req, req.body = rest.take (lastLength lines).toInt.toNat ∧
        onMessage buf = .ok (rest.drop (lastLength lines).toInt.toNat, .callback req)) := by
  obtain ⟨hline, hspaces, hlines⟩ := hhead
  obtain ⟨method, path, hcall⟩ := onMessage_wellformed hline hspaces
  obtain ⟨headers, hread, hlength⟩ := (hlines.readHeaders {} hnum).2 rest rfl
  have hlength : headers.contentLength = lastLength lines := hlength
  rw [hcall, hread, ← hlength]
  rcases readBody_cases method path rest headers with
    ⟨hlarge, heq⟩ | ⟨hsmall, hshort, heq⟩ | ⟨hsmall, hcame, req, hbody, heq⟩
  · exact .inl ⟨hlarge, congrArg Except.ok heq⟩
  · exact .inr (.inl ⟨hsmall, hshort, congrArg Except.ok heq⟩)
  · exact .inr (.inr ⟨hsmall, hcame, req, hbody, congrArg Except.ok heq⟩)

/-- A call without a callback only has to close what it should. -/
theorem lengthExact_of_quiet {buf left : Bytes} {effect : HttpEffect}
    (hcall : onMessage buf = .ok (left, effect)) (hquiet : ∀ req, effect ≠ .callback req)
    (hcloses : ∀ lines rest, Head buf lines (some rest) → (¬ ∃ n, DeclareLength lines n) →
      effect = .shutdown) : LengthExact buf buf where
  returns := ⟨_, hcall⟩
  within _ _ := onMessage_suffix
  exact left' req hreq := by
    rw [hcall] at hreq
    cases hreq
    exact absurd rfl (hquiet req)
  closes lines rest hhead hnone := ⟨left, by rw [hcall, hcloses lines rest hhead hnone]⟩

theorem LengthExact.fit {buf : Bytes} (h : LengthExact buf buf) {lines : List Bytes}
    {after : Option Bytes} (hhead : Head buf lines after) : LengthsFit lines after := by
  obtain ⟨result, hresult⟩ := h.returns
  have hnum := hhead.numbers hresult
  refine ⟨hnum, ?_⟩
  rintro rest rfl
  rcases hhead.onMessage_whole hnum with
    ⟨hlarge, -⟩ | ⟨-, hshort, hcall⟩ | ⟨-, hcame, req, hbody, hcall⟩
  · exact .inl hlarge
  · right
    by_contra hfit
    have hnone : ¬ ∃ n, DeclareLength lines n :=
      fun ⟨n, hn⟩ => hfit ⟨n, hn, .inr hshort⟩
    obtain ⟨left, hclosed⟩ := h.closes lines rest hhead hnone
    rw [hcall] at hclosed
    cases hclosed
  · right
    obtain ⟨lines', hhead', hdeclare⟩ := h.exact _ req hcall
    obtain ⟨rfl, -⟩ := hhead.unique hhead'
    refine ⟨_, hdeclare, .inl ?_⟩
    rw [hbody, List.length_take]
    omega

theorem LengthsFit.exact {buf : Bytes} {lines : List Bytes} {after : Option Bytes}
    (hfit : LengthsFit lines after) (hhead : Head buf lines after) : LengthExact buf buf := by
  obtain ⟨hnum, hdeclared⟩ := hfit
  cases after with
  | none =>
    obtain ⟨left, hcall⟩ := hhead.onMessage_cut hnum
    refine lengthExact_of_quiet hcall nofun fun lines' rest hhead' => ?_
    cases (hhead.unique hhead').2
  | some rest =>
    have hlength : ¬ 10 * 1024 * 1024 < lastLength lines → ∃ n, DeclareLength lines n ∧
        (n = (lastLength lines).toInt.toNat ∨ rest.length < (lastLength lines).toInt.toNat) :=
      (hdeclared rest rfl).resolve_left
    rcases hhead.onMessage_whole hnum with
      ⟨-, hcall⟩ | ⟨hsmall, -, hcall⟩ | ⟨hsmall, hcame, req, hbody, hcall⟩
    · exact lengthExact_of_quiet hcall nofun fun _ _ _ _ => rfl
    · refine lengthExact_of_quiet hcall nofun fun lines' rest' hhead' hnone => ?_
      obtain ⟨rfl, -⟩ := hhead.unique hhead'
      obtain ⟨n, hn, -⟩ := hlength hsmall
      exact absurd ⟨n, hn⟩ hnone
    · obtain ⟨n, hn, rfl | hshort⟩ := hlength hsmall
      · have hlen : req.body.length = (lastLength lines).toInt.toNat := by
          rw [hbody, List.length_take]
          omega
        refine ⟨⟨_, hcall⟩, fun _ _ => onMessage_suffix, ?_, ?_⟩
        · intro left req' hreq
          rw [hcall] at hreq
          cases hreq
          refine ⟨lines, ?_, hlen ▸ hn⟩
          rwa [hbody, List.take_append_drop]
        · intro lines' rest' hhead' hnone
          obtain ⟨rfl, -⟩ := hhead.unique hhead'
          exact absurd ⟨_, hn⟩ hnone
      · exact absurd hshort hcame

/-- One call on a request of which all that has come is in the buffer. -/
theorem lengthExact_iff (buf : Bytes) :
    LengthExact buf buf ↔ ∀ lines after, Head buf lines after → LengthsFit lines after := by
  constructor
  · exact fun h lines after hhead => h.fit hhead
  · intro h
    by_cases hhead : ∃ lines after, Head buf lines after
    · obtain ⟨lines, after, hhead⟩ := hhead
      exact (h lines after hhead).exact hhead
    · have hnone : ∀ lines rest, Head buf lines (some rest) →
          (¬ ∃ n, DeclareLength lines n) → HttpEffect.wait = .shutdown :=
        fun lines rest h => absurd ⟨lines, _, h⟩ hhead
      obtain ⟨left, hcall | hcall⟩ := onMessage_no_head hhead
      · exact lengthExact_of_quiet hcall nofun hnone
      · exact lengthExact_of_quiet hcall nofun fun _ _ _ _ => rfl

/-- In a stream whose calls all start where a request does, the body has the declared
length, and a length that is none closes the connection, exactly when every length is a
number to `stoi` and the last is too large or the declared one. -/
theorem content_length_iff (chunks : List Bytes) (h : Along httpStep AtRequest {} chunks) :
    Along httpStep CallExact {} chunks ↔ Along httpStep HeadFits {} chunks := by
  refine Along.congr_within (fun s chunk hat => ?_) h
  rw [CallExact, HeadFits, hat.2]
  exact lengthExact_iff _

/-- A request cut inside its first line. -/
theorem content_length_iff_cut : Along httpStep CallExact {}
    [str "POST / HT", str "TP/1.1\r\nContent-Length: 3\r\n\r\nabc"] := by
  obtain ⟨s, hs⟩ : ∃ s, exec (guarded httpStep AtRequest) {}
      [str "POST / HT", str "TP/1.1\r\nContent-Length: 3\r\n\r\nabc"] = some s :=
    Option.isSome_iff_exists.mp (by decide +kernel)
  refine (content_length_iff _ (exec_guarded hs).2).mpr ⟨?_, fun t ht => ⟨?_, fun _ _ => trivial⟩⟩
  · rintro lines after ⟨hline, -, -⟩
    have hnone : findCRLF (str "POST / HT") = none := by decide +kernel
    have hline : findCRLF (str "POST / HT") = some _ := hline
    rw [hnone] at hline
    cases hline
  · have hwait : httpStep {} (str "POST / HT") =
        some { pending := str "POST / HT", buf := str "POST / HT" } := by decide +kernel
    obtain rfl := Option.some.inj (hwait.symm.trans ht)
    intro lines after hhead
    have hwhole : Head (str "POST / HT" ++ str "TP/1.1\r\nContent-Length: 3\r\n\r\nabc")
        [str "Content-Length: 3"] (some (str "abc")) := by
      have hend : HeaderLines (str "\r\nabc") [] (some ((str "\r\nabc").drop 2)) :=
        .blank (by decide +kernel)
      have hfield : HeaderLines (str "Content-Length: 3\r\n\r\nabc")
          ((str "Content-Length: 3\r\n\r\nabc").take 17 :: []) (some ((str "\r\nabc").drop 2)) := by
        refine .line (by decide +kernel) (by decide) ?_
        rwa [show (str "Content-Length: 3\r\n\r\nabc").drop (17 + 2) = str "\r\nabc" by
          decide +kernel]
      rw [show (str "Content-Length: 3\r\n\r\nabc").take 17 = str "Content-Length: 3" by
        decide +kernel, show (str "\r\nabc").drop 2 = str "abc" by decide +kernel] at hfield
      have hline : findCRLF (str "POST / HT" ++ str "TP/1.1\r\nContent-Length: 3\r\n\r\nabc") =
          some 15 := by decide +kernel
      refine .mk hline (by decide +kernel) ?_
      rwa [show (str "POST / HT" ++ str "TP/1.1\r\nContent-Length: 3\r\n\r\nabc").drop (15 + 2) =
        str "Content-Length: 3\r\n\r\nabc" by decide +kernel]
    obtain ⟨rfl, rfl⟩ := hhead.unique hwhole
    have hvalue : declaredValues [str "Content-Length: 3"] = [str " 3"] := by decide +kernel
    have htaken : takenValues [str "Content-Length: 3"] = [str " 3"] := by decide +kernel
    have hlast : lastLength [str "Content-Length: 3"] = 3 := by decide +kernel
    have hthree : Declares (str " 3") 3 :=
      ⟨str " ", str "3", [], by decide +kernel, by decide +kernel, by decide +kernel,
        by decide +kernel, by decide +kernel⟩
    refine ⟨?_, fun rest hrest => .inr ⟨3, ⟨by decide, ?_, ?_⟩, ?_⟩⟩
    · rw [htaken]
      intro v hv
      obtain rfl := List.mem_singleton.mp hv
      exact ⟨_, stoi_dropWhile (str " 3") ▸ stoi_declares hthree (by decide)⟩
    · rw [hvalue]
      intro v hv
      obtain rfl := List.mem_singleton.mp hv
      exact hthree
    · intro hempty
      rw [hvalue] at hempty
      exact absurd hempty (List.cons_ne_nil _ _)
    · rw [hlast]
      exact .inl rfl

/-- A length that is no number throws. -/
theorem content_length_throws : ¬ ∀ chunks, Along httpStep CallExact {} chunks := by
  intro h
  obtain ⟨⟨result, hcall⟩, -⟩ :=
    (h [str "POST / HTTP/1.1\r\nContent-Length: abc\r\n\r\n"]).1
  have herror : (onMessage (str "POST / HTTP/1.1\r\nContent-Length: abc\r\n\r\n")).isOk =
      false := by decide +kernel
  have hcall : onMessage (str "POST / HTTP/1.1\r\nContent-Length: abc\r\n\r\n") = .ok result :=
    hcall
  rw [hcall] at herror
  cases herror

end LyqtRpc
