import LyqtRpc.Lib.CrlfLines

/-!
`DiagnoseHandler`: the state of the breakers, taken from the text that the registry
exports, and that of the limiter, as one JSON text.
-/

set_option autoImplicit false

namespace LyqtRpc

/-- What the handler reads: the gauge of the tokens, the two numbers of the limiter as a
stream writes them, and `exportText`. -/
structure DiagnoseInput where
  tokens : Bytes := []
  rate : Bytes := []
  burst : Bytes := []
  exported : Bytes := []

namespace DiagnoseHandler

def search : Bytes := str "circuit_breaker_state\x7b"

/-- What stands between position `start` and the next quote, or the rest of the line. -/
def upToQuote (line : Bytes) (start : Nat) : Bytes :=
  match findFrom line 34 start with
  | some stop => substr line start (stop - start)
  | none => line.drop start

/-- What one line adds; nothing without both labels. -/
def breaker (line : Bytes) : Bytes :=
  match find line (str "method=\""), find line (str "host=\"") with
  | some m, some h =>
    let method := upToQuote line (m + 8)
    let host := upToQuote line (h + 6)
    let state :=
      match rfind line 32 with
      | some sp => line.drop (sp + 1)
      | none => str "?"
    str "\x7b\"method\":\"" ++ method ++ str "\"," ++ str "\"host\":\"" ++ host ++ str "\"," ++
      str "\"state\":" ++ state ++ str "\x7d"
  | _, _ => []

/-- The loop over the text that is left. -/
def breakers (first : Bool) (body : Bytes) : Bytes :=
  match _hpos : find body search with
  | none => []
  | some pos =>
    match findFrom body 10 pos with
    | none => []
    | some stop =>
      (if first then [] else str ",") ++ breaker (substr body pos (stop - pos)) ++
        breakers false (body.drop (stop + 1))
termination_by body.length
decreasing_by
  have hle := find_le _hpos
  have hsearch : search.length = 22 := by decide
  rw [List.length_drop]
  omega

/-- The body of the response. -/
def diagnose (input : DiagnoseInput) : Bytes :=
  str "\x7b" ++ str "\"rate_limiter\":\x7b" ++
    str "\"tokens\":" ++ input.tokens ++ str "," ++
    str "\"rate\":" ++ input.rate ++ str "," ++
    str "\"burst\":" ++ input.burst ++ str "\x7d," ++
    str "\"circuit_breakers\":[" ++ breakers true input.exported ++ str "]" ++ str "\x7d"

end DiagnoseHandler

end LyqtRpc
