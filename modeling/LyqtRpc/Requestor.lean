import LyqtRpc.Lib.StepRun
import LyqtRpc.LVProtocol
import Mathlib.Logic.Function.Basic

/-!
`requestor.hpp`: the ways a pending request ends. The IO thread runs
`onResponse`; the timer and the synchronous senders run `onTimeout`, each on a
thread of its own. A critical section, or one promise operation, is one step.
-/

set_option autoImplicit false

namespace LyqtRpc

open StepRun

inductive ReqType where
  | ASYNC | CALLBACK
  deriving DecidableEq, Repr

/-- What a promise is set to: a message of type `M` from the server, or the
response `onTimeout` makes up, `RpcResponse` or `ProtoRpcResponse`. -/
inductive Reply (M : Type) where
  | response (msg : M)
  | timeout (proto : Bool)
  deriving DecidableEq

structure ReqDescribe (M : Type) where
  reqtype : ReqType
  /-- The request is a `ProtoRpcRequest`. -/
  proto : Bool
  timeoutTriggered : Bool := false
  response : Option (Reply M) := none

/-- A descriptor and whether `_request_desc` still has it, named by the request
id: ids are not used twice, and a running call keeps its descriptor alive. The
last four fields are histories that no step reads. -/
structure Request (M : Type) where
  pending : Bool
  desc : ReqDescribe M
  started : Bool := false
  found : Bool := false
  /-- How many `set_value` succeeded. -/
  settled : Nat := 0
  calledBack : List M := []

/-- `late`: the timeout had been decided when the response arrived. -/
inductive ResponsePc (M : Type) where
  | idle
  | getDesc (rid : Bytes) (msg : M) (late : Bool)
  | checkTimeout (rid : Bytes) (msg : M) (late : Bool)
  | settle (rid : Bytes) (msg : M) (late : Bool)
  | delDesc (rid : Bytes)

inductive TimeoutPc where
  | idle
  /-- The synchronous sender looks the timer up to cancel it. -/
  | cancelTimer (rid : Bytes)
  | getDesc (rid : Bytes)
  | triggerTimeout (rid : Bytes)
  | settle (rid : Bytes)
  | delDesc (rid : Bytes)

structure RequestorState (M : Type) where
  requests : Bytes → Request M
  io : ResponsePc M := .idle
  timeouts : Nat → TimeoutPc := fun _ => .idle
  /-- `promise_already_satisfied` left a call. -/
  escaped : Bool := false
  /-- A late response was handed to the promise or the callback. -/
  lateSettled : Bool := false

inductive RequestorAct (M : Type) where
  | onResponse (rid : Bytes) (msg : M)
  | onTimeout (i : Nat) (rid : Bytes)
  /-- `wait_for` ran out. -/
  | syncTimeout (i : Nat) (rid : Bytes)
  | ioRun
  | timeoutRun (i : Nat)

variable {M : Type}

namespace RequestorState

def modify (s : RequestorState M) (rid : Bytes) (f : Request M → Request M) :
    RequestorState M :=
  { s with requests := Function.update s.requests rid (f (s.requests rid)) }

def setTimeout (s : RequestorState M) (i : Nat) (pc : TimeoutPc) : RequestorState M :=
  { s with timeouts := Function.update s.timeouts i pc }

/-- `set_value` on a promise that is not set. -/
def setValue (s : RequestorState M) (rid : Bytes) (v : Reply M) : RequestorState M :=
  s.modify rid fun r =>
    { r with desc := { r.desc with response := some v }, settled := r.settled + 1 }

def delDesc (s : RequestorState M) (rid : Bytes) : RequestorState M :=
  s.modify rid fun r => { r with pending := false }

def found (s : RequestorState M) (rid : Bytes) : RequestorState M :=
  s.modify rid fun r => { r with found := true }

def started (s : RequestorState M) (rid : Bytes) : RequestorState M :=
  s.modify rid fun r => { r with started := true }

end RequestorState

/-- The next step of `onResponse`. -/
def ioStep (s : RequestorState M) : Option (RequestorState M) :=
  match s.io with
  | .idle => none
  | .getDesc rid msg late =>
    if (s.requests rid).pending then
      some { s.found rid with io := .checkTimeout rid msg late }
    else some { s with io := .idle }
  | .checkTimeout rid msg late =>
    if (s.requests rid).desc.timeoutTriggered then
      some { s.delDesc rid with io := .idle }
    else some { s with io := .settle rid msg late }
  | .settle rid msg late =>
    match (s.requests rid).desc.reqtype with
    | .ASYNC =>
      if (s.requests rid).desc.response.isSome then
        some { s with io := .idle, escaped := true }
      else
        some { s.setValue rid (.response msg) with
               io := .delDesc rid, lateSettled := s.lateSettled || late }
    | .CALLBACK =>
      some { s.modify rid (fun r => { r with calledBack := r.calledBack ++ [msg] }) with
             io := .delDesc rid, lateSettled := s.lateSettled || late }
  | .delDesc rid => some { s.delDesc rid with io := .idle }

/-- The next step of `onTimeout`; its `set_value` is in a `try`. -/
def timeoutStep (s : RequestorState M) (i : Nat) : Option (RequestorState M) :=
  match s.timeouts i with
  | .idle => none
  | .cancelTimer rid => some (s.setTimeout i (.getDesc rid))
  | .getDesc rid =>
    if (s.requests rid).pending then
      some ((s.found rid).setTimeout i (.triggerTimeout rid))
    else some (s.setTimeout i .idle)
  | .triggerTimeout rid =>
    if (s.requests rid).desc.timeoutTriggered then some (s.setTimeout i .idle)
    else
      some ((s.modify rid
        (fun r => { r with desc := { r.desc with timeoutTriggered := true } })).setTimeout i
          (.settle rid))
  | .settle rid =>
    match (s.requests rid).desc.reqtype with
    | .ASYNC =>
      if (s.requests rid).desc.response.isSome then some (s.setTimeout i (.delDesc rid))
      else
        some ((s.setValue rid (.timeout (s.requests rid).desc.proto)).setTimeout i
          (.delDesc rid))
    | .CALLBACK => some (s.setTimeout i (.delDesc rid))
  | .delDesc rid => some ((s.delDesc rid).setTimeout i .idle)

def requestorStep (s : RequestorState M) : RequestorAct M → Option (RequestorState M)
  | .onResponse rid msg =>
    match s.io with
    | .idle =>
      some { s.started rid with
             io := .getDesc rid msg (s.requests rid).desc.timeoutTriggered }
    | _ => none
  | .onTimeout i rid =>
    match s.timeouts i with
    | .idle => some ((s.started rid).setTimeout i (.getDesc rid))
    | _ => none
  | .syncTimeout i rid =>
    match s.timeouts i with
    | .idle => some ((s.started rid).setTimeout i (.cancelTimer rid))
    | _ => none
  | .ioRun => ioStep s
  | .timeoutRun i => timeoutStep s i

/-- Requests after they were sent; `none` for an id with no request. -/
def requestorInitial (sent : Bytes → Option (ReqType × Bool)) : RequestorState M where
  requests rid :=
    match sent rid with
    | some (reqtype, proto) => { pending := true, desc := { reqtype, proto } }
    | none => { pending := false, desc := { reqtype := .ASYNC, proto := false } }

def ResponsePc.rid : ResponsePc M → Option Bytes
  | .idle => none
  | .getDesc rid _ _ | .checkTimeout rid _ _ | .settle rid _ _ | .delDesc rid => some rid

def TimeoutPc.rid : TimeoutPc → Option Bytes
  | .idle => none
  | .cancelTimer rid | .getDesc rid | .triggerTimeout rid | .settle rid | .delDesc rid =>
    some rid

/-- No call for the request is running. -/
def Finished (s : RequestorState M) (rid : Bytes) : Prop :=
  s.io.rid ≠ some rid ∧ ∀ i, (s.timeouts i).rid ≠ some rid

/-- The step does not make `onTimeout` set a promise while `onResponse` stands
between its timeout check and its own `set_value` for the same request. -/
def undisturbed (s : RequestorState M) : RequestorAct M → Bool
  | .timeoutRun i =>
    match s.timeouts i, s.io with
    | .settle rid, .settle rid' _ _ =>
      rid ≠ rid' || (s.requests rid).desc.reqtype ≠ .ASYNC ||
        (s.requests rid).desc.response.isSome
    | _, _ => true
  | _ => true

end LyqtRpc
