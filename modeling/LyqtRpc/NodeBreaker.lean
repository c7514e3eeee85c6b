import Mathlib.Algebra.Group.Int.Defs
import Mathlib.Algebra.Group.Nat.Defs
import Mathlib.Data.List.Basic
import Mathlib.Data.Int.Cast.Basic

/-!
`node_breaker.hpp`, `node_breaker.cpp` and `CircuitBreaker::getOrCreate`: the
circuit breaker of one method on one host. Steady-clock times are nanoseconds,
wall-clock times seconds.
-/

set_option autoImplicit false

namespace LyqtRpc

inductive CircuitState where
  | CLOSED | OPEN | HALF_OPEN
  deriving DecidableEq, Repr

structure CircuitStatus where
  state : CircuitState := .CLOSED
  failures : Int := 0
  successes : Int := 0
  halfOpen : Int := 0
  openedAt : Int := 0
  deriving DecidableEq, Repr

structure CircuitConfig where
  windowSize : Int := 20
  minCalls : Int := 10
  failureRatioPercent : Int := 50
  openDurationSec : Int := 30
  halfOpenMaxReq : Int := 1
  deriving DecidableEq, Repr

/-- `EMPTY`, `FAILED`, `SUCCEEDED` -/
inductive Slot where
  | EMPTY | FAILED | SUCCEEDED
  deriving DecidableEq, Repr

structure NodeBreaker where
  cfg : CircuitConfig
  status : CircuitStatus := {}
  openedSince : Int := 0
  window : List Slot
  windowPos : Nat := 0
  windowFailures : Int := 0
  windowSuccesses : Int := 0
  deriving DecidableEq, Repr

def seconds (s : Int) : Int := s * 1000000000

namespace CircuitConfig

/-- The constructor's repair of the bounds. -/
def clamp (c : CircuitConfig) : CircuitConfig :=
  let windowSize := if c.windowSize < 1 then 1 else c.windowSize
  let minCalls := if c.minCalls < 1 then 1 else c.minCalls
  let minCalls := if windowSize < minCalls then windowSize else minCalls
  let ratio := if c.failureRatioPercent < 1 then 1 else c.failureRatioPercent
  let ratio := if 100 < ratio then 100 else ratio
  { c with windowSize, minCalls, failureRatioPercent := ratio }

end CircuitConfig

namespace NodeBreaker

def create (cfg : CircuitConfig) : NodeBreaker where
  cfg := cfg.clamp
  window := List.replicate cfg.clamp.windowSize.toNat .EMPTY

def record (b : NodeBreaker) (success : Bool) : NodeBreaker :=
  let slot := b.window.getD b.windowPos .EMPTY
  let failures := (if slot = .FAILED then b.windowFailures - 1 else b.windowFailures) +
    (if success then 0 else 1)
  let successes := (if slot = .SUCCEEDED then b.windowSuccesses - 1 else b.windowSuccesses) +
    (if success then 1 else 0)
  { b with
    window := b.window.set b.windowPos (if success then .SUCCEEDED else .FAILED)
    windowPos := (b.windowPos + 1) % b.window.length
    windowFailures := failures
    windowSuccesses := successes
    status := { b.status with failures, successes } }

def clearWindow (b : NodeBreaker) : NodeBreaker :=
  { b with
    window := List.replicate b.window.length .EMPTY
    windowPos := 0
    windowFailures := 0
    windowSuccesses := 0
    status := { b.status with failures := 0, successes := 0 } }

/-- A product of two `int`s. An overflow, which C++ leaves undefined, wraps around. -/
def intProduct (x y : Int) : Int := (x * y).bmod (2 ^ 32)

def shouldOpen (b : NodeBreaker) : Bool :=
  let total := b.windowFailures + b.windowSuccesses
  if total < b.cfg.minCalls then false
  else decide (intProduct total b.cfg.failureRatioPercent ≤ intProduct b.windowFailures 100)

def setState (b : NodeBreaker) (state : CircuitState) : NodeBreaker :=
  { b with status := { b.status with state } }

/-- One more request let through while half open. -/
def takeSlot (b : NodeBreaker) : NodeBreaker :=
  { b with status := { b.status with halfOpen := b.status.halfOpen + 1 } }

def allowRequest (b : NodeBreaker) (now : Int) : Bool × NodeBreaker :=
  match b.status.state with
  | .CLOSED => (true, b)
  | .OPEN =>
    if seconds b.cfg.openDurationSec ≤ now - b.openedSince then
      (true, (b.setState .HALF_OPEN).takeSlot)
    else (false, b)
  | .HALF_OPEN =>
    if b.status.halfOpen < b.cfg.halfOpenMaxReq then (true, b.takeSlot) else (false, b)

/-- Whether the state changed, and the breaker after it. -/
def onSuccess (b : NodeBreaker) : Bool × NodeBreaker :=
  let b := b.record true
  match b.status.state with
  | .CLOSED => (false, b)
  | _ =>
    let b := b.clearWindow
    (true, { b with status := { b.status with state := .CLOSED, halfOpen := 0 } })

def tripOpen (b : NodeBreaker) (now wallNow : Int) : NodeBreaker :=
  { b with
    openedSince := now
    status := { b.status with state := .OPEN, openedAt := wallNow } }

def onFailure (b : NodeBreaker) (now wallNow : Int) : Bool × NodeBreaker :=
  let b := b.record false
  match b.status.state with
  | .CLOSED => if b.shouldOpen then (true, b.tripOpen now wallNow) else (false, b)
  | .OPEN => (false, b)
  | .HALF_OPEN => (true, b.tripOpen now wallNow)

def loadStatus (b : NodeBreaker) (s : CircuitStatus) (now wallNow : Int) : NodeBreaker :=
  let b := ({ b with status := s } : NodeBreaker).clearWindow
  if s.state = .OPEN then
    { b with openedSince := now - seconds (max 0 (wallNow - s.openedAt)) }
  else b

/-- A node with no entry yet, from what the store has for it. -/
def getOrCreate (cfg : CircuitConfig) (saved : CircuitStatus) (now wallNow : Int) :
    NodeBreaker :=
  let saved :=
    if saved.state = .OPEN ∧ cfg.openDurationSec ≤ wallNow - saved.openedAt then
      { saved with state := .HALF_OPEN, failures := 0, halfOpen := 0 }
    else saved
  (create cfg).loadStatus saved now wallNow

variable {b : NodeBreaker} {now wallNow : Int}

theorem intProduct_eq {x y : Int} (hnonneg : 0 ≤ x * y) (hfits : x * y < 2 ^ 31) :
    intProduct x y = x * y :=
  Int.bmod_eq_of_le (by omega) (by omega)

@[simp] theorem record_state (success : Bool) :
    (b.record success).status.state = b.status.state := rfl

@[simp] theorem record_openedSince (success : Bool) :
    (b.record success).openedSince = b.openedSince := rfl

theorem allowRequest_cfg : (b.allowRequest now).2.cfg = b.cfg := by
  unfold allowRequest
  split
  · rfl
  · split <;> rfl
  · split <;> rfl

theorem onSuccess_cfg : b.onSuccess.2.cfg = b.cfg := by
  unfold onSuccess
  dsimp only
  split <;> rfl

theorem onFailure_cfg : (b.onFailure now wallNow).2.cfg = b.cfg := by
  unfold onFailure
  dsimp only
  split
  · split <;> rfl
  · rfl
  · rfl

/-- Any success closes the circuit. -/
theorem onSuccess_closed : b.onSuccess.2.status.state = .CLOSED := by
  unfold onSuccess
  dsimp only
  split
  · assumption
  · rfl

/-- A failure never leaves the circuit half open; one that opens it starts the
cool-down. -/
theorem onFailure_state :
    (b.onFailure now wallNow).2.status.state = .CLOSED ∨
    (b.onFailure now wallNow).2.status.state = .OPEN ∧
      ((b.onFailure now wallNow).2.openedSince = now ∨
        b.status.state = .OPEN ∧
          (b.onFailure now wallNow).2.openedSince = b.openedSince) := by
  unfold onFailure
  dsimp only
  split
  · split
    · exact .inr ⟨rfl, .inl rfl⟩
    · exact .inl (by assumption)
  · rename_i hopen
    exact .inr ⟨hopen, .inr ⟨hopen, rfl⟩⟩
  · exact .inr ⟨rfl, .inl rfl⟩

/-- What one `allowRequest` can do. -/
theorem allowRequest_cases :
    (b.status.state = .CLOSED ∧ b.allowRequest now = (true, b)) ∨
    (b.allowRequest now = (false, b) ∧ b.status.state ≠ .CLOSED) ∨
    ((b.allowRequest now).1 = true ∧ b.status.state ≠ .CLOSED ∧
      (b.allowRequest now).2.status.state = .HALF_OPEN ∧
      (b.allowRequest now).2.openedSince = b.openedSince) := by
  cases hs : b.status.state with
  | CLOSED => exact .inl ⟨rfl, by simp only [allowRequest, hs]⟩
  | OPEN =>
      right
      by_cases h : seconds b.cfg.openDurationSec ≤ now - b.openedSince
      · right
        simp only [allowRequest, hs, if_pos h]
        exact ⟨trivial, by simp, rfl, rfl⟩
      · left
        simp only [allowRequest, hs, if_neg h]
        exact ⟨trivial, by simp⟩
  | HALF_OPEN =>
      right
      by_cases h : b.status.halfOpen < b.cfg.halfOpenMaxReq
      · right
        simp only [allowRequest, hs, if_pos h]
        exact ⟨trivial, by simp, hs, rfl⟩
      · left
        simp only [allowRequest, hs, if_neg h]
        exact ⟨trivial, by simp⟩

end NodeBreaker

end LyqtRpc
