import LyqtRpc.Lib.StepRun
import LyqtRpc.JsonMessage
import LyqtRpc.NodeBreaker

/-!
`caller.hpp` over one node: calls of the three modes ask the breaker, and most
of the ways a call ends are reported to it. A probe whose end is not reported
keeps its half-open slot for good.
-/

set_option autoImplicit false

namespace LyqtRpc

open StepRun

inductive RpcError where
  | OK | TIMEOUT | CONN_CLOSED | CIRCUIT_OPEN | BACKOFF | SERVICE_ERROR
  deriving DecidableEq, Repr

def isHostSendFailure (e : RpcError) : Bool := e = .TIMEOUT || e = .CONN_CLOSED

inductive CallMode where
  | sync | future | callback
  deriving DecidableEq, Repr

/-- A response as `dynamic_pointer_cast<RpcResponse>` sees it. -/
inductive RespMessage where
  | rpcResponse (data : JsonValue)
  | other

namespace RpcCaller

/-- A response on its way to the breaker: the cast, the code, the result, and
what is done with the result before `onSuccess`. -/
def judge (use : JsonValue → Except CppException Unit) :
    RespMessage → Except CppException Bool
  | .other => .ok false
  | .rpcResponse data => do
    match ← JsonResponse.rcode data with
    | .named .SUCCESS =>
      use (← JsonResponse.result data)
      pure true
    | _ => pure false

end RpcCaller

section Judge
variable {use : JsonValue → Except CppException Unit} {data : JsonValue}

theorem judge_throws {e : CppException} (h : JsonResponse.rcode data = .error e) :
    RpcCaller.judge use (.rpcResponse data) = .error e := by
  simp only [RpcCaller.judge, h]
  rfl

theorem judge_success (h : JsonResponse.rcode data = .ok (.named .SUCCESS)) :
    RpcCaller.judge use (.rpcResponse data) = (do
      use (← JsonResponse.result data)
      pure true) := by
  simp only [RpcCaller.judge, h]
  rfl

theorem judge_code {rcode : EnumValue RespCode} (h : JsonResponse.rcode data = .ok rcode)
    (hcode : rcode ≠ .named .SUCCESS) : RpcCaller.judge use (.rpcResponse data) = .ok false := by
  simp only [RpcCaller.judge, h]
  show (match rcode with
    | .named .SUCCESS => _
    | _ => pure false) = Except.ok false
  split
  · exact absurd rfl hcode
  · rfl

end Judge

/-- How an admitted call ends. -/
inductive CallEnd where
  /-- `cb`: what the user's callback does, if the call is to run one. -/
  | response (msg : RespMessage) (cb : Except CppException Unit)
  | sendFailed (e : RpcError)
  /-- An exception leaves `send`. -/
  | sendThrew
  /-- Sent, and no response ever handled. -/
  | noResponse

/-- What the call tells the breaker: a success, a failure, or nothing. A
synchronous `send` turns the missing response into TIMEOUT; the callback of the
other modes is just never run. Nothing is told past an exception. -/
def CallEnd.report (mode : CallMode) : CallEnd → Option Bool
  | .response msg cb =>
    match RpcCaller.judge (fun _ => if mode = .callback then cb else .ok ()) msg with
    | .ok success => some success
    | .error _ => none
  | .sendFailed e => if isHostSendFailure e then some false else none
  | .sendThrew => none
  | .noResponse =>
    match mode with
    | .sync => if isHostSendFailure .TIMEOUT then some false else none
    | .future | .callback => none

/-- The response has a code that can be read: its data is a table, and the code
converts to an `int`. -/
def RespMessage.HasCode : RespMessage → Bool
  | .other => true
  | .rpcResponse data => data.isTable && (data.field KEY_RCODE).fitsInt

def RespMessage.Succeeded : RespMessage → Bool
  | .other => false
  | .rpcResponse data =>
    match (data.field KEY_RCODE).asInt with
    | .ok code => code = RespCode.SUCCESS.code
    | .error _ => false

/-- The response never comes, or is one whose code cannot be read, or its result
is for a callback that throws; or the send fails without telling anything of the
node, or throws. -/
def CallEnd.Silent (mode : CallMode) : CallEnd → Bool
  | .response msg cb =>
    !msg.HasCode || (mode = .callback && msg.Succeeded && !cb.isOk)
  | .sendFailed e => e ≠ .TIMEOUT && e ≠ .CONN_CLOSED
  | .sendThrew => true
  | .noResponse => mode ≠ .sync

/-- An admitted call that has not ended. `probe`: it was let through half open. -/
structure Outstanding where
  mode : CallMode
  probe : Bool
  deriving DecidableEq, Repr

structure CallerState where
  breaker : NodeBreaker
  now : Int
  wallNow : Int
  outstanding : List Outstanding := []
  deriving DecidableEq, Repr

inductive CallerAct where
  | call (mode : CallMode)
  /-- The `i`-th outstanding call ends. -/
  | finish (i : Nat) (how : CallEnd)
  /-- `onConnectionUnavailable`: reported without having been admitted. -/
  | unavailable
  /-- Time passes; the wall clock may be set. -/
  | pass (nanoseconds : Nat) (wallNow : Int)

namespace CallerState

def reportTo (s : CallerState) : Option Bool → CallerState
  | none => s
  | some true => { s with breaker := s.breaker.onSuccess.2 }
  | some false => { s with breaker := (s.breaker.onFailure s.now s.wallNow).2 }

end CallerState

def callerStep (s : CallerState) : CallerAct → Option CallerState
  | .call mode =>
    let (allowed, breaker) := s.breaker.allowRequest s.now
    if allowed then
      some { s with
        breaker
        outstanding := s.outstanding ++ [⟨mode, breaker.status.state = .HALF_OPEN⟩] }
    else some { s with breaker }
  | .finish i how =>
    match s.outstanding[i]? with
    | none => none
    | some r =>
      some ({ s with outstanding := s.outstanding.eraseIdx i }.reportTo (how.report r.mode))
  | .unavailable => some (s.reportTo (some false))
  | .pass d wallNow => some { s with now := s.now + d, wallNow }

def callerInitial (cfg : CircuitConfig) (saved : CircuitStatus) (now wallNow : Int) :
    CallerState where
  breaker := .getOrCreate cfg saved now wallNow
  now := now
  wallNow := wallNow

/-- The step does not end a probe in one of the ways that the breaker is not told of. -/
def probeReported (s : CallerState) : CallerAct → Bool
  | .finish i how =>
    match s.outstanding[i]? with
    | some r => !r.probe || !how.Silent r.mode
    | none => true
  | _ => true

/-- No response is checked: its code is whatever converts to an `int`. -/
theorem JsonResponse.rcode_cases {data : JsonValue} :
    (∃ e, JsonResponse.rcode data = .error e ∧ RespMessage.HasCode (.rpcResponse data) = false) ∨
    ∃ code, (data.field KEY_RCODE).asInt = .ok code ∧
      JsonResponse.rcode data = .ok (.ofInt32 code) ∧ data.isTable = true ∧
      RespMessage.HasCode (.rpcResponse data) = true := by
  cases htable : data.isTable with
  | false =>
      have hthrows : ∀ v, data.index KEY_RCODE ≠ .ok v := by
        intro v hv
        have htrue := JsonValue.index_returns_iff.mp ⟨v, hv⟩
        rw [htable] at htrue
        cases htrue
      cases hindex : data.index KEY_RCODE with
      | ok v => exact absurd hindex (hthrows v)
      | error e =>
          refine .inl ⟨e, ?_, by simp [RespMessage.HasCode, htable]⟩
          rw [JsonResponse.rcode, hindex]
          rfl
  | true =>
      have hrcode : JsonResponse.rcode data =
          (data.field KEY_RCODE).asInt >>= fun code => pure (.ofInt32 code) := by
        rw [JsonResponse.rcode, JsonValue.index_eq htable]
        rfl
      obtain ⟨e, herror, hfits⟩ | ⟨code, hcode, hfits⟩ :=
        JsonValue.asInt_cases (data.field KEY_RCODE)
      · refine .inl ⟨e, ?_, by simp [RespMessage.HasCode, hfits]⟩
        rw [hrcode, herror]
        rfl
      · refine .inr ⟨code, hcode, ?_, rfl, by simp [RespMessage.HasCode, htable, hfits]⟩
        rw [hrcode, hcode]
        rfl

/-- Exactly the ends that are not silent are reported. -/
theorem CallEnd.report_isSome_iff {mode : CallMode} {how : CallEnd} :
    (how.report mode).isSome = true ↔ how.Silent mode = false := by
  cases how with
  | sendFailed e => cases e <;> simp [report, Silent, isHostSendFailure]
  | sendThrew => simp [report, Silent]
  | noResponse => cases mode <;> simp [report, Silent, isHostSendFailure]
  | response msg cb =>
      cases msg with
      | other => simp [report, Silent, RpcCaller.judge, RespMessage.HasCode, RespMessage.Succeeded]
      | rpcResponse data =>
          obtain ⟨e, hrcode, hno⟩ | ⟨code, hcode, hrcode, htable, hhas⟩ :=
            @JsonResponse.rcode_cases data
          · simp [report, judge_throws hrcode, Silent, hno]
          · have hresult : JsonResponse.result data = .ok (data.field KEY_RESULT) :=
              JsonValue.index_eq htable _
            by_cases hsuccess : code = RespCode.SUCCESS.code
            · subst hsuccess
              have hnamed : JsonResponse.rcode data = .ok (.named .SUCCESS) := hrcode
              cases mode <;> cases cb <;>
                simp [report, judge_success hnamed, hresult, Silent, hhas, RespMessage.Succeeded,
                  hcode, Except.isOk, Except.toBool]
            · have hne : (EnumValue.ofInt32 code : EnumValue RespCode) ≠ .named .SUCCESS := by
                intro heq
                have hcodes := congrArg EnumValue.toInt32 heq
                rw [EnumValue.toInt32_ofInt32] at hcodes
                exact hsuccess hcodes
              simp [report, judge_code hrcode hne, Silent, hhas, RespMessage.Succeeded, hcode,
                hsuccess]

/-- Half open with no slot left means that a probe is under way, and the
cool-down did not start in the future. -/
structure CallerInv (s : CallerState) : Prop where
  probing : s.breaker.status.state = .HALF_OPEN →
    s.breaker.cfg.halfOpenMaxReq ≤ s.breaker.status.halfOpen →
    ∃ r ∈ s.outstanding, r.probe = true
  since : s.breaker.status.state = .OPEN → s.breaker.openedSince ≤ s.now

/-- Whatever is reported, the circuit is not half open afterwards. -/
theorem CallerInv.report {s : CallerState} (b : Bool)
    (h : s.breaker.status.state = .OPEN → s.breaker.openedSince ≤ s.now) :
    CallerInv (s.reportTo (some b)) := by
  cases b with
  | true =>
      have hclosed : (s.reportTo (some true)).breaker.status.state = .CLOSED :=
        NodeBreaker.onSuccess_closed
      constructor
      · intro hhalf
        rw [hclosed] at hhalf
        cases hhalf
      · intro hopen
        rw [hclosed] at hopen
        cases hopen
  | false =>
      have hstate : (s.reportTo (some false)).breaker.status.state = .CLOSED ∨
          (s.reportTo (some false)).breaker.status.state = .OPEN ∧
            ((s.reportTo (some false)).breaker.openedSince = s.now ∨
              s.breaker.status.state = .OPEN ∧
                (s.reportTo (some false)).breaker.openedSince = s.breaker.openedSince) :=
        NodeBreaker.onFailure_state
      constructor
      · intro hhalf
        rcases hstate with hclosed | ⟨hopen, _⟩
        · rw [hclosed] at hhalf
          cases hhalf
        · rw [hopen] at hhalf
          cases hhalf
      · intro hopen
        show (s.reportTo (some false)).breaker.openedSince ≤ s.now
        rcases hstate with hclosed | ⟨_, hnow | ⟨hwas, hsame⟩⟩
        · rw [hclosed] at hopen
          cases hopen
        · exact Int.le_of_eq hnow
        · rw [hsame]
          exact h hwas

theorem CallerInv.call {s t : CallerState} {mode : CallMode} (h : CallerInv s)
    (hstep : callerStep s (.call mode) = some t) : CallerInv t := by
  simp only [callerStep] at hstep
  rcases @NodeBreaker.allowRequest_cases s.breaker s.now with
    ⟨hclosed, heq⟩ | ⟨heq, _⟩ | ⟨hallow, hnot, hhalf, hsince⟩
  · rw [heq] at hstep
    cases hstep
    refine ⟨fun hhalf => ?_, h.since⟩
    rw [hclosed] at hhalf
    cases hhalf
  · rw [heq] at hstep
    cases hstep
    exact h
  · rw [if_pos hallow] at hstep
    cases hstep
    refine ⟨fun _ _ => ?_, fun hopen => ?_⟩
    · exact ⟨⟨mode, true⟩, by simp [hhalf], rfl⟩
    · rw [hhalf] at hopen
      cases hopen

theorem callerStep_inv {s t : CallerState} {a : CallerAct} (h : CallerInv s)
    (hok : probeReported s a = true) (hstep : callerStep s a = some t) : CallerInv t := by
  cases a with
  | call mode => exact h.call hstep
  | unavailable =>
      cases hstep
      exact .report false h.since
  | pass d wallNow =>
      cases hstep
      refine ⟨h.probing, fun hopen => ?_⟩
      have hle := h.since hopen
      show s.breaker.openedSince ≤ s.now + d
      omega
  | finish i how =>
      simp only [callerStep] at hstep
      cases hr : s.outstanding[i]? with
      | none => simp [hr] at hstep
      | some r =>
          simp only [hr, Option.some.injEq] at hstep
          subst hstep
          cases hreport : how.report r.mode with
          | some b => exact .report b h.since
          | none =>
              -- an unreported end: by the run condition it was no probe
              have hsilent : how.Silent r.mode = true := by
                by_contra hnot
                have hsome := CallEnd.report_isSome_iff.mpr (Bool.eq_false_of_not_eq_true hnot)
                rw [hreport] at hsome
                cases hsome
              have hnoprobe : r.probe = false := by simpa [probeReported, hr, hsilent] using hok
              refine ⟨fun hhalf hfull => ?_, h.since⟩
              obtain ⟨q, hq, hprobe⟩ := h.probing hhalf hfull
              refine ⟨q, ?_, hprobe⟩
              have hne : q ≠ r := by
                intro heq
                rw [heq, hnoprobe] at hprobe
                cases hprobe
              obtain ⟨j, hj⟩ := List.mem_iff_getElem?.mp hq
              refine List.mem_eraseIdx_iff_getElem?.mpr ⟨j, ?_, hj⟩
              intro heq
              rw [heq, hr] at hj
              cases hj
              exact hne rfl

/-- No step changes the configuration. -/
theorem callerStep_cfg {s t : CallerState} {a : CallerAct} (hstep : callerStep s a = some t) :
    t.breaker.cfg = s.breaker.cfg := by
  have hreport : ∀ (s : CallerState) (report : Option Bool),
      (s.reportTo report).breaker.cfg = s.breaker.cfg := by
    intro s report
    cases report with
    | none => rfl
    | some b =>
        cases b with
        | true => exact NodeBreaker.onSuccess_cfg
        | false => exact NodeBreaker.onFailure_cfg
  cases a with
  | call mode =>
      simp only [callerStep] at hstep
      split at hstep <;> cases hstep <;> exact NodeBreaker.allowRequest_cfg
  | finish i how =>
      simp only [callerStep] at hstep
      split at hstep <;> cases hstep
      exact hreport _ _
  | unavailable =>
      cases hstep
      exact hreport _ _
  | pass d wallNow =>
      cases hstep
      rfl

theorem loadStatus_since {b : NodeBreaker} {saved : CircuitStatus} {now wallNow : Int}
    (h : (b.loadStatus saved now wallNow).status.state = .OPEN) :
    (b.loadStatus saved now wallNow).openedSince ≤ now := by
  unfold NodeBreaker.loadStatus at *
  dsimp only at *
  split
  · show now - seconds (max 0 (wallNow - saved.openedAt)) ≤ now
    unfold seconds
    omega
  · rename_i hnot
    rw [if_neg hnot] at h
    exact absurd h hnot

theorem loadStatus_cfg {b : NodeBreaker} {saved : CircuitStatus} {now wallNow : Int} :
    (b.loadStatus saved now wallNow).cfg = b.cfg := by
  unfold NodeBreaker.loadStatus
  dsimp only
  split <;> rfl

/-- The node a run starts from, new or restored from the store, must have a
half-open slot left if it starts half open. -/
theorem callerInitial_inv {cfg : CircuitConfig} {saved : CircuitStatus} {now wallNow : Int}
    (hslot : (callerInitial cfg saved now wallNow).breaker.status.state = .HALF_OPEN →
      (callerInitial cfg saved now wallNow).breaker.status.halfOpen < cfg.halfOpenMaxReq) :
    CallerInv (callerInitial cfg saved now wallNow) := by
  refine ⟨fun hhalf hfull => ?_, fun hopen => loadStatus_since hopen⟩
  have hlt := hslot hhalf
  have hcfg : (callerInitial cfg saved now wallNow).breaker.cfg = cfg.clamp := loadStatus_cfg
  rw [hcfg] at hfull
  have hmax : cfg.clamp.halfOpenMaxReq = cfg.halfOpenMaxReq := rfl
  omega

/-- With no probe under way, a request is allowed once the cool-down has passed. -/
theorem CallerInv.allows {s : CallerState} (h : CallerInv s)
    (hquiet : ∀ r ∈ s.outstanding, r.probe = false) {t : Nat}
    (ht : seconds s.breaker.cfg.openDurationSec ≤ t) :
    (s.breaker.allowRequest (s.now + t)).1 = true := by
  cases hs : s.breaker.status.state with
  | CLOSED => simp only [NodeBreaker.allowRequest, hs]
  | OPEN =>
      have hle := h.since hs
      have helapsed : seconds s.breaker.cfg.openDurationSec ≤
          s.now + t - s.breaker.openedSince := by omega
      simp only [NodeBreaker.allowRequest, hs, if_pos helapsed]
  | HALF_OPEN =>
      by_cases hslot : s.breaker.status.halfOpen < s.breaker.cfg.halfOpenMaxReq
      · simp only [NodeBreaker.allowRequest, hs, if_pos hslot]
      · obtain ⟨r, hr, hprobe⟩ := h.probing hs (Int.not_lt.mp hslot)
        rw [hquiet r hr] at hprobe
        cases hprobe

/-- In a run in which every probe that ends is reported: as soon as no probe is
under way, the breaker allows a request once the configured cool-down has
passed, at the latest. -/
theorem breaker_reopens (cfg : CircuitConfig) (saved : CircuitStatus) (now wallNow : Int)
    (hslot : (callerInitial cfg saved now wallNow).breaker.status.state = .HALF_OPEN →
      (callerInitial cfg saved now wallNow).breaker.status.halfOpen < cfg.halfOpenMaxReq)
    {s : CallerState}
    (h : Run callerStep (fun s a => probeReported s a = true)
      (callerInitial cfg saved now wallNow) s)
    (hquiet : ∀ r ∈ s.outstanding, r.probe = false) (t : Nat)
    (ht : seconds cfg.openDurationSec ≤ t) :
    (s.breaker.allowRequest (s.now + t)).1 = true := by
  have hinv : CallerInv s := h.invariant CallerInv (callerInitial_inv hslot)
    (fun _ _ _ hi hok hstep => callerStep_inv hi hok hstep)
  have hcfg : s.breaker.cfg = cfg.clamp :=
    h.invariant (fun s => s.breaker.cfg = cfg.clamp) loadStatus_cfg
      (fun _ _ _ hi _ hstep => (callerStep_cfg hstep).trans hi)
  apply hinv.allows hquiet
  rw [hcfg]
  exact ht

/-- Ten failures, the cool-down, and a probe in callback mode. -/
def probedRun : List CallerAct :=
  List.replicate 10 .unavailable ++ [.pass 30000000000 30, .call .callback]

/-- An error response, read in time. -/
def errorEnd : CallEnd :=
  .response (.rpcResponse (JsonResponse.setRcode .null (.named .INTERNAL_ERROR))) (.ok ())

theorem breaker_reopens_probe_failed :
    ∃ s, exec (guarded callerStep (fun s a => probeReported s a = true))
        (callerInitial {} {} 0 0) (probedRun ++ [.finish 0 errorEnd]) = some s ∧
      s.breaker.status.state = .OPEN ∧
      (s.breaker.allowRequest (s.now + (30000000000 : Nat))).1 = true := by
  obtain ⟨s, hs, hview⟩ := Option.map_eq_some_iff.mp
    (show (exec (guarded callerStep (fun s a => probeReported s a = true))
      (callerInitial {} {} 0 0) (probedRun ++ [.finish 0 errorEnd])).map
        (fun s => (s.breaker.status.state, s.outstanding)) = some (.OPEN, []) by decide +kernel)
  obtain ⟨hstate, hquiet⟩ := Prod.mk.inj hview
  refine ⟨s, hs, hstate, breaker_reopens {} {} 0 0 (by decide) (Run.of_guarded hs) ?_ _
    (by decide)⟩
  rw [hquiet]
  simp

/-- The probe fails to leave, with the local queue full: no request is ever
allowed again. -/
theorem breaker_stays_half_open :
    ∃ s, Reachable callerStep (callerInitial {} {} 0 0) s ∧ s.outstanding = [] ∧
      ∀ t : Nat, (s.breaker.allowRequest (s.now + t)).1 = false := by
  obtain ⟨s, hs, hview⟩ := Option.map_eq_some_iff.mp
    (show (exec callerStep (callerInitial {} {} 0 0)
      (probedRun ++ [.finish 0 (.sendFailed .BACKOFF)])).map
        (fun s => (s.breaker.status.state, s.outstanding, s.breaker.status.halfOpen,
          s.breaker.cfg.halfOpenMaxReq)) = some (.HALF_OPEN, [], 1, 1) by decide +kernel)
  obtain ⟨hstate, hrest⟩ := Prod.mk.inj hview
  obtain ⟨hquiet, hrest⟩ := Prod.mk.inj hrest
  obtain ⟨htaken, hmax⟩ := Prod.mk.inj hrest
  refine ⟨s, Reachable.of_exec hs, hquiet, fun t => ?_⟩
  simp [NodeBreaker.allowRequest, hstate, htaken, hmax]

end LyqtRpc
