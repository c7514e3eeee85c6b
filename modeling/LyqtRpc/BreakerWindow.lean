import LyqtRpc.Lib.SlidingWindow
import LyqtRpc.BreakerOpen
import Mathlib.Data.Bool.Count
import Mathlib.Data.List.Count
import Mathlib.Tactic.Ring

/-!
The sliding window of a `NodeBreaker`: what its counters count, and when a
closed circuit stays below the threshold at which it should have opened.
-/

set_option autoImplicit false

namespace LyqtRpc

open StepRun SlidingWindow

def Slot.of (success : Bool) : Slot := if success then .SUCCEEDED else .FAILED

/-- `outcomes` are those since the window was last cleared; no step reads them. -/
structure WindowRun where
  breaker : NodeBreaker
  outcomes : List Bool := []

def windowStep (s : WindowRun) (a : BreakerCall × Int) : Option WindowRun :=
  some {
    breaker := a.1.apply s.breaker a.2
    outcomes :=
      match a.1 with
      | .allowRequest => s.outcomes
      | .onSuccess => if s.breaker.status.state = .CLOSED then s.outcomes ++ [true] else []
      | .onFailure _ => s.outcomes ++ [false] }

namespace NodeBreaker

/-- The last outcomes, as many as the window has room for. -/
def recent (b : NodeBreaker) (outcomes : List Bool) : List Bool :=
  outcomes.rtake b.cfg.windowSize.toNat

structure ExactWindow (b : NodeBreaker) (outcomes : List Bool) : Prop where
  failures : b.windowFailures = (b.recent outcomes).count false
  successes : b.windowSuccesses = (b.recent outcomes).count true
  statusFailures : b.status.failures = b.windowFailures
  statusSuccesses : b.status.successes = b.windowSuccesses
  nonneg : 0 ≤ b.windowFailures ∧ 0 ≤ b.windowSuccesses
  sum : b.windowFailures + b.windowSuccesses ≤ b.cfg.windowSize

structure WindowInv (cfg : CircuitConfig) (b : NodeBreaker) (outcomes : List Bool) : Prop where
  config : b.cfg = cfg.clamp
  size : b.window.length = cfg.clamp.windowSize.toNat
  holds : Holds .EMPTY b.window b.windowPos (outcomes.map Slot.of)
  failures : b.windowFailures = b.window.count .FAILED
  successes : b.windowSuccesses = b.window.count .SUCCEEDED
  statusFailures : b.status.failures = b.windowFailures
  statusSuccesses : b.status.successes = b.windowSuccesses

end NodeBreaker

namespace CircuitConfig
variable (cfg : CircuitConfig)

/-- The bounds of every repaired configuration. -/
theorem clamp_bounds : 1 ≤ cfg.clamp.minCalls ∧ cfg.clamp.minCalls ≤ cfg.clamp.windowSize ∧
    1 ≤ cfg.clamp.failureRatioPercent ∧ cfg.clamp.failureRatioPercent ≤ 100 := by
  simp only [clamp]
  refine ⟨?_, ?_, ?_, ?_⟩
  all_goals
    repeat' split
    all_goals omega

theorem clamp_windowSize_pos : 0 < cfg.clamp.windowSize.toNat := by
  obtain ⟨hmin, hwindow, _⟩ := cfg.clamp_bounds
  omega

end CircuitConfig

namespace NodeBreaker
variable {b : NodeBreaker} {cfg : CircuitConfig} {outcomes : List Bool}

theorem create_inv (cfg : CircuitConfig) : WindowInv cfg (create cfg) [] where
  config := rfl
  size := List.length_replicate
  holds := .empty cfg.clamp_windowSize_pos
  failures := by simp [create, List.count_replicate]
  successes := by simp [create, List.count_replicate]
  statusFailures := rfl
  statusSuccesses := rfl

theorem WindowInv.slot (h : WindowInv cfg b outcomes) :
    b.window[b.windowPos]? = some (b.window.getD b.windowPos .EMPTY) := by
  rw [List.getD_eq_getElem?_getD, List.getElem?_eq_getElem h.holds.bound]
  rfl

theorem WindowInv.record (h : WindowInv cfg b outcomes) (success : Bool) :
    WindowInv cfg (b.record success) (outcomes ++ [success]) where
  config := h.config
  size := List.length_set.trans h.size
  holds := by
    rw [List.map_append]
    exact h.holds.record (Slot.of success)
  failures := by
    have hcount := count_overwrite h.slot (Slot.of success) .FAILED
    rw [← h.failures] at hcount
    refine Eq.trans ?_ hcount.symm
    cases success <;> rfl
  successes := by
    have hcount := count_overwrite h.slot (Slot.of success) .SUCCEEDED
    rw [← h.successes] at hcount
    refine Eq.trans ?_ hcount.symm
    cases success <;> rfl
  statusFailures := rfl
  statusSuccesses := rfl

theorem WindowInv.clearWindow (h : WindowInv cfg b outcomes) :
    WindowInv cfg b.clearWindow [] where
  config := h.config
  size := List.length_replicate.trans h.size
  holds := .empty (by rw [h.size]; exact cfg.clamp_windowSize_pos)
  failures := by simp [NodeBreaker.clearWindow, List.count_replicate]
  successes := by simp [NodeBreaker.clearWindow, List.count_replicate]
  statusFailures := rfl
  statusSuccesses := rfl

/-- State, probes and times do not matter to the window. -/
theorem WindowInv.congr (h : WindowInv cfg b outcomes) {c : NodeBreaker} (hcfg : c.cfg = b.cfg)
    (hwindow : c.window = b.window) (hpos : c.windowPos = b.windowPos)
    (hfailures : c.windowFailures = b.windowFailures)
    (hsuccesses : c.windowSuccesses = b.windowSuccesses)
    (hstatus : c.status.failures = b.status.failures ∧ c.status.successes = b.status.successes) :
    WindowInv cfg c outcomes where
  config := hcfg.trans h.config
  size := hwindow ▸ h.size
  holds := hwindow ▸ hpos ▸ h.holds
  failures := hfailures.trans (hwindow ▸ h.failures)
  successes := hsuccesses.trans (hwindow ▸ h.successes)
  statusFailures := hstatus.1.trans (h.statusFailures.trans hfailures.symm)
  statusSuccesses := hstatus.2.trans (h.statusSuccesses.trans hsuccesses.symm)

theorem WindowInv.allowRequest (h : WindowInv cfg b outcomes) (now : Int) :
    WindowInv cfg (b.allowRequest now).2 outcomes := by
  unfold NodeBreaker.allowRequest
  split
  · exact h
  · split
    · exact h.congr rfl rfl rfl rfl rfl ⟨rfl, rfl⟩
    · exact h
  · split
    · exact h.congr rfl rfl rfl rfl rfl ⟨rfl, rfl⟩
    · exact h

theorem onSuccess_of_closed (h : b.status.state = .CLOSED) :
    b.onSuccess = (false, b.record true) := by
  simp only [onSuccess, record_state, h]

theorem onSuccess_of_not_closed (h : b.status.state ≠ .CLOSED) :
    b.onSuccess = (true, { (b.record true).clearWindow with
      status := { (b.record true).clearWindow.status with state := .CLOSED, halfOpen := 0 } }) := by
  cases hstate : b.status.state with
  | CLOSED => exact absurd hstate h
  | OPEN => simp only [onSuccess, record_state, hstate]
  | HALF_OPEN => simp only [onSuccess, record_state, hstate]

theorem WindowInv.onSuccess (h : WindowInv cfg b outcomes) :
    WindowInv cfg b.onSuccess.2
      (if b.status.state = .CLOSED then outcomes ++ [true] else []) := by
  by_cases hclosed : b.status.state = .CLOSED
  · rw [onSuccess_of_closed hclosed, if_pos hclosed]
    exact h.record true
  · rw [onSuccess_of_not_closed hclosed, if_neg hclosed]
    exact (h.record true).clearWindow.congr rfl rfl rfl rfl rfl ⟨rfl, rfl⟩

theorem WindowInv.onFailure (h : WindowInv cfg b outcomes) (now wallNow : Int) :
    WindowInv cfg (b.onFailure now wallNow).2 (outcomes ++ [false]) := by
  have hrecord := h.record false
  unfold NodeBreaker.onFailure
  dsimp only
  split
  · split
    · exact hrecord.congr rfl rfl rfl rfl rfl ⟨rfl, rfl⟩
    · exact hrecord
  · exact hrecord
  · exact hrecord.congr rfl rfl rfl rfl rfl ⟨rfl, rfl⟩

theorem of_injective : Function.Injective Slot.of := by
  intro x y h
  cases x <;> cases y <;> first | rfl | exact absurd h (by decide)

theorem WindowInv.count (h : WindowInv cfg b outcomes) (success : Bool) :
    b.window.count (Slot.of success) = (b.recent outcomes).count success := by
  have hne : Slot.of success ≠ .EMPTY := by cases success <;> decide
  rw [h.holds.count hne, recent, h.config, ← h.size, List.rtake, List.rtake, List.length_map,
    ← List.map_drop, List.count_map_of_injective _ _ of_injective]

theorem WindowInv.exact (h : WindowInv cfg b outcomes) : b.ExactWindow outcomes := by
  have hfailed := h.count false
  have hsucceeded := h.count true
  have hlength : (b.recent outcomes).length ≤ b.cfg.windowSize.toNat := by
    rw [recent, List.rtake, List.length_drop]
    omega
  have hsum := List.count_false_add_count_true (b.recent outcomes)
  have hpos := cfg.clamp_windowSize_pos
  have hfailures := h.failures
  have hsuccesses := h.successes
  rw [h.config] at hlength
  refine ⟨?_, ?_, h.statusFailures, h.statusSuccesses, by omega, ?_⟩
  · rw [hfailures, ← hfailed]
    rfl
  · rw [hsuccesses, ← hsucceeded]
    rfl
  · rw [hfailures, hsuccesses, h.config]
    show (List.count (Slot.of false) b.window : Int) + List.count (Slot.of true) b.window ≤ _
    omega

end NodeBreaker

theorem windowStep_inv {cfg : CircuitConfig} {s t : WindowRun} {a : BreakerCall × Int}
    (h : s.breaker.WindowInv cfg s.outcomes) (hs : windowStep s a = some t) :
    t.breaker.WindowInv cfg t.outcomes := by
  obtain rfl := Option.some.inj hs
  obtain ⟨call, now⟩ := a
  cases call with
  | allowRequest => exact h.allowRequest now
  | onSuccess => exact h.onSuccess
  | onFailure wallNow => exact h.onFailure now wallNow

/-- Whatever is reported, the counters are those of the last outcomes since the
window was cleared. -/
theorem window_exact (cfg : CircuitConfig) {s : WindowRun}
    (h : Reachable windowStep { breaker := .create cfg } s) :
    s.breaker.ExactWindow s.outcomes :=
  NodeBreaker.WindowInv.exact (h.invariant (fun s => s.breaker.WindowInv cfg s.outcomes)
    (NodeBreaker.create_inv cfg) (fun _ _ _ hi _ hs => windowStep_inv hi hs))

def windowOfTwo : CircuitConfig := { windowSize := 2, minCalls := 2, failureRatioPercent := 100 }

/-- A window of two: the first failure has left it. -/
theorem window_exact_rolled : ∃ s, exec windowStep { breaker := .create windowOfTwo }
      [(.onFailure 0, 0), (.onSuccess, 1), (.onSuccess, 2)] = some s ∧
    s.breaker.recent s.outcomes = [true, true] ∧ s.breaker.windowFailures = 0 ∧
    s.breaker.windowSuccesses = 2 := by
  obtain ⟨s, hs, hrecent⟩ := Option.map_eq_some_iff.mp
    (show (exec windowStep { breaker := .create windowOfTwo }
      [(.onFailure 0, 0), (.onSuccess, 1), (.onSuccess, 2)]).map
        (fun s => s.breaker.recent s.outcomes) = some [true, true] by decide +kernel)
  have hexact := window_exact windowOfTwo (Reachable.of_exec hs)
  refine ⟨s, hs, hrecent, ?_, ?_⟩
  · rw [hexact.failures, hrecent]
    rfl
  · rw [hexact.successes, hrecent]
    rfl

namespace NodeBreaker

/-- Too few samples, or a failure ratio below the threshold. -/
def BelowThreshold (b : NodeBreaker) : Prop :=
  b.windowFailures + b.windowSuccesses < b.cfg.minCalls ∨
    b.windowFailures * 100 <
      (b.windowFailures + b.windowSuccesses) * b.cfg.failureRatioPercent

/-- One more sample makes `min_calls`, and the failures there are reach the
threshold with it. -/
def CompletesTrip (b : NodeBreaker) : Prop :=
  b.windowFailures + b.windowSuccesses + 1 = b.cfg.minCalls ∧
    b.cfg.minCalls * b.cfg.failureRatioPercent ≤ b.windowFailures * 100

instance (b : NodeBreaker) : Decidable b.CompletesTrip := inferInstanceAs (Decidable (_ ∧ _))

variable {b : NodeBreaker} {cfg : CircuitConfig} {outcomes : List Bool} {now wallNow : Int}

/-- The products that `shouldOpen` compares are at most a hundred windows. -/
theorem ExactWindow.products_le (h : b.ExactWindow outcomes)
    (hratio : b.cfg.failureRatioPercent ≤ 100) :
    b.windowFailures * 100 ≤ b.cfg.windowSize * 100 ∧
      (b.windowFailures + b.windowSuccesses) * b.cfg.failureRatioPercent ≤
        b.cfg.windowSize * 100 := by
  obtain ⟨hfailures, hsuccesses⟩ := h.nonneg
  have hsum := h.sum
  refine ⟨by omega, ?_⟩
  calc (b.windowFailures + b.windowSuccesses) * b.cfg.failureRatioPercent
      ≤ (b.windowFailures + b.windowSuccesses) * 100 :=
        Int.mul_le_mul_of_nonneg_left hratio (by omega)
    _ ≤ b.cfg.windowSize * 100 := Int.mul_le_mul_of_nonneg_right hsum (by decide)

/-- Where a hundred windows are an `int`, `shouldOpen` compares the products themselves. -/
theorem WindowInv.shouldOpen_eq_false (h : WindowInv cfg b outcomes)
    (hsize : cfg.clamp.windowSize * 100 < 2 ^ 31) : b.shouldOpen = false ↔ b.BelowThreshold := by
  obtain ⟨_, _, hratio, hratio'⟩ := cfg.clamp_bounds
  rw [← h.config] at hsize hratio hratio'
  obtain ⟨hfailures, hsuccesses⟩ := h.exact.nonneg
  obtain ⟨hleft, hright⟩ := h.exact.products_le hratio'
  have htotal : 0 ≤ (b.windowFailures + b.windowSuccesses) * b.cfg.failureRatioPercent :=
    Int.mul_nonneg (by omega) (by omega)
  unfold shouldOpen BelowThreshold
  dsimp only
  rw [intProduct_eq (x := b.windowFailures) (by omega) (by omega),
    intProduct_eq htotal (by omega)]
  split
  · rename_i hfew
    exact ⟨fun _ => .inl hfew, fun _ => rfl⟩
  · rename_i henough
    rw [decide_eq_false_iff_not, not_le, or_iff_right henough]

/-- A failure that leaves the circuit closed leaves it below the threshold. -/
theorem WindowInv.onFailure_below (hinv : WindowInv cfg b outcomes)
    (hsize : cfg.clamp.windowSize * 100 < 2 ^ 31)
    (h : (b.onFailure now wallNow).2.status.state = .CLOSED) :
    (b.onFailure now wallNow).2.BelowThreshold := by
  cases hstate : b.status.state with
  | CLOSED =>
      simp only [NodeBreaker.onFailure, record_state, hstate] at h ⊢
      cases hopen : (b.record false).shouldOpen with
      | true =>
          rw [hopen, if_pos rfl] at h
          cases h
      | false =>
          rw [if_neg Bool.false_ne_true]
          exact ((hinv.record false).shouldOpen_eq_false hsize).mp hopen
  | OPEN =>
      simp only [NodeBreaker.onFailure, record_state, hstate] at h
      cases h
  | HALF_OPEN =>
      simp only [NodeBreaker.onFailure, record_state, hstate] at h
      cases h

/-- A full window is full of samples. -/
theorem WindowInv.sum_of_full (h : WindowInv cfg b outcomes)
    (hslot : b.window.getD b.windowPos .EMPTY ≠ .EMPTY) :
    b.windowFailures + b.windowSuccesses = b.cfg.windowSize := by
  have hfull := h.holds.full h.slot hslot
  have hexact := h.exact
  have hsum := List.count_false_add_count_true (b.recent outcomes)
  have hpos := cfg.clamp_windowSize_pos
  rw [hexact.failures, hexact.successes]
  rw [List.length_map, h.size] at hfull
  have hlength : (b.recent outcomes).length = cfg.clamp.windowSize.toNat := by
    rw [recent, h.config, List.rtake, List.length_drop]
    omega
  rw [h.config]
  omega

theorem record_success_counts : (b.record true).windowFailures =
      (if b.window.getD b.windowPos .EMPTY = .FAILED then b.windowFailures - 1
       else b.windowFailures) ∧
    (b.record true).windowSuccesses =
      (if b.window.getD b.windowPos .EMPTY = .SUCCEEDED then b.windowSuccesses - 1
       else b.windowSuccesses) + 1 :=
  ⟨add_zero _, rfl⟩

/-- From below the threshold, a success recorded in a closed circuit reaches it
exactly where it is the sample that completes `min_calls`. -/
theorem WindowInv.record_success_below (h : WindowInv cfg b outcomes) (hbelow : b.BelowThreshold) :
    (b.record true).BelowThreshold ↔ ¬ b.CompletesTrip := by
  obtain ⟨hmin, hwindow, hratio, _⟩ := cfg.clamp_bounds
  rw [← h.config] at hmin hwindow hratio
  obtain ⟨hfailures, hsuccesses⟩ := @record_success_counts b
  have hcfg : (b.record true).cfg = b.cfg := rfl
  unfold BelowThreshold at hbelow ⊢
  unfold CompletesTrip
  rw [hcfg, hfailures, hsuccesses]
  cases hslot : b.window.getD b.windowPos .EMPTY with
  | EMPTY =>
      have hnext : (b.windowFailures + (b.windowSuccesses + 1)) * b.cfg.failureRatioPercent =
          (b.windowFailures + b.windowSuccesses) * b.cfg.failureRatioPercent +
            b.cfg.failureRatioPercent := by ring
      simp only [reduceCtorEq, if_false]
      constructor
      · rintro hnow ⟨hlast, htrip⟩
        have hsame : b.windowFailures + (b.windowSuccesses + 1) = b.cfg.minCalls := by omega
        rw [hsame] at hnow
        omega
      · intro hnot
        by_cases hlast : b.windowFailures + b.windowSuccesses + 1 = b.cfg.minCalls
        · have hratio := not_le.mp (fun htrip => hnot ⟨hlast, htrip⟩)
          right
          rw [← add_assoc, hlast]
          exact hratio
        · omega
  | FAILED =>
      -- a failure leaves the window: the ratio falls
      have hfull := h.sum_of_full (by rw [hslot]; decide)
      have hsame : b.windowFailures - 1 + (b.windowSuccesses + 1) =
          b.windowFailures + b.windowSuccesses := by omega
      simp only [if_true, reduceCtorEq, if_false, hsame]
      exact ⟨fun _ hnot => by omega, fun _ => by omega⟩
  | SUCCEEDED =>
      have hfull := h.sum_of_full (by rw [hslot]; decide)
      have hsame : b.windowFailures + (b.windowSuccesses - 1 + 1) =
          b.windowFailures + b.windowSuccesses := by omega
      simp only [if_true, reduceCtorEq, if_false, hsame]
      exact ⟨fun _ hnot => by omega, fun _ => by omega⟩

theorem clearWindow_below (h : 1 ≤ b.cfg.minCalls) : b.clearWindow.BelowThreshold :=
  .inl (by show (0 : Int) + 0 < b.cfg.minCalls; omega)

end NodeBreaker

/-- After the outcome the circuit is not closed, or below the threshold. -/
def StaysBelow (s : WindowRun) (a : BreakerCall × Int) : Prop :=
  a.1 ≠ .allowRequest → (a.1.apply s.breaker a.2).status.state = .CLOSED →
    (a.1.apply s.breaker a.2).BelowThreshold

/-- No success in a closed circuit is the sample that makes the failures count. -/
def NoTrippingSuccess (s : WindowRun) (a : BreakerCall × Int) : Prop :=
  a.1 = .onSuccess → s.breaker.status.state = .CLOSED → ¬ s.breaker.CompletesTrip

/-- The window is exact, and the circuit not closed above the threshold. -/
structure BelowInv (cfg : CircuitConfig) (s : WindowRun) : Prop where
  window : s.breaker.WindowInv cfg s.outcomes
  below : s.breaker.status.state = .CLOSED → s.breaker.BelowThreshold

section Below
variable {cfg : CircuitConfig} {s t : WindowRun} {a : BreakerCall × Int}

theorem BelowInv.staysBelow_iff (h : BelowInv cfg s)
    (hsize : cfg.clamp.windowSize * 100 < 2 ^ 31) :
    StaysBelow s a ↔ NoTrippingSuccess s a := by
  obtain ⟨call, now⟩ := a
  cases call with
  | allowRequest => exact ⟨fun _ hcall => (by cases hcall), fun _ hcall => absurd rfl hcall⟩
  | onFailure wallNow =>
      exact ⟨fun _ hcall => (by cases hcall), fun _ _ => h.window.onFailure_below hsize⟩
  | onSuccess =>
      by_cases hclosed : s.breaker.status.state = .CLOSED
      · have hiff := h.window.record_success_below (h.below hclosed)
        have hafter : BreakerCall.onSuccess.apply s.breaker now = s.breaker.record true :=
          congrArg Prod.snd (NodeBreaker.onSuccess_of_closed hclosed)
        constructor
        · intro hstays _ _
          have hbelow := hstays (fun hcall => by cases hcall) s.breaker.onSuccess_closed
          rw [hafter] at hbelow
          exact hiff.mp hbelow
        · intro hnone _ _
          rw [hafter]
          exact hiff.mpr (hnone rfl hclosed)
      · obtain ⟨hmin, _⟩ := cfg.clamp_bounds
        rw [← h.window.config] at hmin
        have hafter := congrArg Prod.snd (NodeBreaker.onSuccess_of_not_closed hclosed)
        refine ⟨fun _ _ hstate => absurd hstate hclosed, fun _ _ _ => ?_⟩
        show s.breaker.onSuccess.2.BelowThreshold
        rw [hafter]
        exact NodeBreaker.clearWindow_below (b := s.breaker.record true) hmin

theorem BelowInv.step (h : BelowInv cfg s) (hok : StaysBelow s a) (hs : windowStep s a = some t) :
    BelowInv cfg t := by
  refine ⟨windowStep_inv h.window hs, ?_⟩
  obtain rfl := Option.some.inj hs
  by_cases hcall : a.1 = .allowRequest
  · show (a.1.apply s.breaker a.2).status.state = .CLOSED →
      (a.1.apply s.breaker a.2).BelowThreshold
    rw [hcall]
    rcases @NodeBreaker.allowRequest_cases s.breaker a.2 with ⟨_, he⟩ | ⟨he, _⟩ | ⟨_, _, hhalf, _⟩
    · rw [BreakerCall.apply, he]
      exact h.below
    · rw [BreakerCall.apply, he]
      exact h.below
    · intro hclosed
      exact absurd (hhalf.symm.trans hclosed) (by decide)
  · exact hok hcall

/-- Whatever is reported in whatever order, for a window of which a hundred are an `int`:
after no outcome the circuit is closed above the threshold, if and only if no success is
the sample that makes the failures count. -/
theorem closed_below_iff (cfg : CircuitConfig) (hsize : cfg.clamp.windowSize * 100 < 2 ^ 31)
    (calls : List (BreakerCall × Int)) :
    Along windowStep StaysBelow { breaker := .create cfg } calls ↔
      Along windowStep NoTrippingSuccess { breaker := .create cfg } calls := by
  refine Along.congr_of (BelowInv cfg) (fun s a t hi hok hs => hi.step hok hs)
    (fun s a hi => hi.staysBelow_iff hsize) ⟨NodeBreaker.create_inv cfg, fun _ => .inl ?_⟩
  obtain ⟨hmin, _⟩ := cfg.clamp_bounds
  show (0 : Int) + 0 < cfg.clamp.minCalls
  omega

/-- A window of two, which opens when both have failed. -/
theorem closed_below_iff_two : Along windowStep StaysBelow { breaker := .create windowOfTwo }
    [(.onFailure 0, 0), (.onSuccess, 1)] := by
  refine (closed_below_iff windowOfTwo (by decide) _).mpr ⟨fun hcall => ?_, fun s hs => ⟨?_, ?_⟩⟩
  · cases hcall
  · obtain rfl := Option.some.inj hs
    exact fun _ _ => by decide +kernel
  · exact fun _ _ => trivial

/-- One failure and one success in a window of two: half of the samples failed,
the threshold is half, and the circuit is closed. -/
theorem closed_above_threshold : ¬ ∀ (cfg : CircuitConfig) (calls : List (BreakerCall × Int)),
    Along windowStep StaysBelow { breaker := .create cfg } calls := by
  intro h
  have hlast := (h { windowSize := 2, minCalls := 2 } [(.onFailure 0, 0), (.onSuccess, 1)]).2 _ rfl
  have hbelow := hlast.1 (by decide) (by decide +kernel)
  exact absurd hbelow (by unfold NodeBreaker.BelowThreshold; decide +kernel)

end Below

end LyqtRpc
