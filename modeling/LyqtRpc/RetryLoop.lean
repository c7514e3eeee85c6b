import LyqtRpc.Lib.Rounds
import LyqtRpc.RpcCaller
import LyqtRpc.Fields

/-!
`rpc_client.hpp`: the retry loops of the synchronous and the future `call` and
of `call_proto`, with what `RpcCaller` reports of each attempt.
-/

set_option autoImplicit false

namespace LyqtRpc

open Rounds

structure RetryConfig where
  maxRetries : Int32 := 3
  baseMs : Int32 := 10
  maxMs : Int32 := 1000
  retryTimeoutMs : Int32 := 500
  deriving DecidableEq, Repr

def isRetryable (e : RpcError) : Bool :=
  e = .TIMEOUT || e = .CONN_CLOSED || e = .CIRCUIT_OPEN || e = .BACKOFF

def fromRespCode : EnumValue RespCode → RpcError
  | .named .TIMEOUT => .TIMEOUT
  | .named .BACKOFF => .BACKOFF
  | _ => .SERVICE_ERROR

/-- What a synchronous `RpcCaller::call` meets. `threw`: an exception leaves `send`, or
the `rcode()` of the response. -/
inductive SyncReply where
  | rejected
  | sendFailed (e : RpcError)
  | threw
  | wrongType
  | response (rcode : EnumValue RespCode)

/-- What the future `call` meets; `pending`: sent, and not ready in time. -/
inductive FutureReply where
  | rejected
  | sendFailed (e : RpcError)
  | threw
  | ready
  | pending

/-- `parses`: the body parses as the response type. Its `rcode()` is a field of the envelope
and does not throw; `send` may. -/
inductive ProtoAnswer where
  | sendFailed (e : RpcError)
  | threw
  | wrongType
  | response (rcode : EnumValue RespCode) (parses : Bool)

inductive ProtoReply where
  | rejected
  | unserializable
  /-- `again` answers the second request, sent after a BACKOFF. -/
  | answered (first again : ProtoAnswer)

namespace RpcCaller

/-- What is returned, and `*err`; `none` when an exception leaves the call. -/
def callResult : SyncReply → Option (Bool × RpcError)
  | .rejected => some (false, .CIRCUIT_OPEN)
  | .sendFailed e => some (false, e)
  | .threw => none
  | .wrongType => some (false, .SERVICE_ERROR)
  | .response rcode =>
    if rcode = .named .SUCCESS then some (true, .OK) else some (false, fromRespCode rcode)

def checkProto : ProtoAnswer → Option (Bool × RpcError)
  | .sendFailed e => some (false, e)
  | .threw => none
  | .wrongType => some (false, .SERVICE_ERROR)
  | .response rcode parses =>
    if rcode = .named .SUCCESS then
      if parses then some (true, .OK) else some (false, .SERVICE_ERROR)
    else some (false, fromRespCode rcode)

def callProtoResult : ProtoReply → Option (Bool × RpcError)
  | .rejected => some (false, .CIRCUIT_OPEN)
  | .unserializable => some (false, .SERVICE_ERROR)
  | .answered (.response (.named .BACKOFF) _) again => checkProto again
  | .answered first _ => checkProto first

end RpcCaller

/-- What one attempt meets: `clientForHost` gives null, the client has no
connection, or the caller is asked. -/
inductive HostAttempt (ρ : Type) where
  | noClient
  | noConnection
  | called (reply : ρ)

/-- What the loop does with it: return, let an exception through, or go on with an error. -/
inductive Turn where
  | returns (ok : Bool)
  | throws
  | failed (err : RpcError)

def Turn.ofCall : Option (Bool × RpcError) → Turn
  | none => .throws
  | some (ok, err) => if ok then .returns true else .failed err

def HostAttempt.turn {ρ : Type} (called : ρ → Turn) : HostAttempt ρ → Turn
  | .noClient => .returns false
  | .noConnection => .failed .CONN_CLOSED
  | .called reply => called reply

def pickUntriedCandidate (candidates : List HostDetail) (tried : List HostInfo) :
    Option HostDetail × List HostInfo :=
  nextUnseen HostDetail.host candidates tried

/-- The hosts tried from `attempt` on, and what is returned, if anything is. -/
def retryLoop (candidates : List HostDetail) (cfg : RetryConfig) (turn : Nat → Turn)
    (attempt : Nat) (tried : List HostInfo) : List HostInfo × Option Bool :=
  match pickUntriedCandidate candidates tried with
  | (none, _) => ([], some false)
  | (some detail, tried) =>
    match turn attempt with
    | .returns ok => ([detail.host], some ok)
    | .throws => ([detail.host], none)
    | .failed err =>
      if isRetryable err = false ∨ cfg.maxRetries.toInt ≤ attempt then ([detail.host], some false)
      else
        let rest := retryLoop candidates cfg turn (attempt + 1) (detail.host :: tried)
        (detail.host :: rest.1, rest.2)
termination_by cfg.maxRetries.toInt.toNat - attempt
decreasing_by omega

namespace RpcClient

def syncTurn : HostAttempt SyncReply → Turn :=
  HostAttempt.turn (fun reply => .ofCall (RpcCaller.callResult reply))

/-- A ready future is the caller's, an error in it too. -/
def futureTurn : HostAttempt FutureReply → Turn :=
  HostAttempt.turn fun
    | .rejected => .failed .CIRCUIT_OPEN
    | .sendFailed e => .failed e
    | .threw => .throws
    | .ready => .returns true
    | .pending => .failed .TIMEOUT

def protoTurn : HostAttempt ProtoReply → Turn :=
  HostAttempt.turn (fun reply => .ofCall (RpcCaller.callProtoResult reply))

def call (candidates : List HostDetail) (cfg : RetryConfig)
    (outcomes : Nat → HostAttempt SyncReply) : List HostInfo × Option Bool :=
  retryLoop candidates cfg (fun k => syncTurn (outcomes k)) 0 []

def callFuture (candidates : List HostDetail) (cfg : RetryConfig)
    (outcomes : Nat → HostAttempt FutureReply) : List HostInfo × Option Bool :=
  retryLoop candidates cfg (fun k => futureTurn (outcomes k)) 0 []

def callProto (candidates : List HostDetail) (cfg : RetryConfig)
    (outcomes : Nat → HostAttempt ProtoReply) : List HostInfo × Option Bool :=
  retryLoop candidates cfg (fun k => protoTurn (outcomes k)) 0 []

end RpcClient

/-- The attempt ended in an error that is worth another one. -/
def Turn.Retries (turn : Turn) : Prop := ∃ err, turn = .failed err ∧ isRetryable err = true

/-- What the hosts tried from `attempt` on are. -/
structure TriedFrom (candidates : List HostDetail) (cfg : RetryConfig) (turn : Nat → Turn)
    (attempt : Nat) (tries : List HostInfo) : Prop where
  made : tries ≠ []
  order : ∀ k < tries.length,
    tries[k]? = (candidates[(attempt + k) % candidates.length]?).map (·.host)
  goesOn : ∀ k < tries.length, k + 1 < tries.length ↔
    (turn (attempt + k)).Retries ∧ (attempt + k : Int) < cfg.maxRetries.toInt

/-- HostAttempt by attempt, the candidates in their order and over again; another
attempt exactly after an error that is worth one, and `max_retries` allows it;
no host twice before every candidate once. -/
structure RetryLaw (candidates : List HostDetail) (cfg : RetryConfig) (turn : Nat → Turn)
    (tries : List HostInfo) : Prop where
  made : tries ≠ []
  order : ∀ k < tries.length, tries[k]? = (candidates[k % candidates.length]?).map (·.host)
  goesOn : ∀ k < tries.length, k + 1 < tries.length ↔
    (turn k).Retries ∧ (k : Int) < cfg.maxRetries.toInt
  bound : (tries.length : Int) ≤ cfg.maxRetries.toInt + 1
  fair : ∀ i j, i < j → j < tries.length → tries[i]? = tries[j]? →
    ∀ c ∈ candidates, ∃ k < j, tries[k]? = some c.host

section Loop
variable {candidates : List HostDetail} {cfg : RetryConfig} {turn : Nat → Turn}
  {attempt : Nat}

/-- An attempt that is the last one. -/
theorem TriedFrom.last {detail : HostDetail}
    (hpick : candidates[attempt % candidates.length]? = some detail)
    (hstop : ¬ ((turn attempt).Retries ∧ (attempt : Int) < cfg.maxRetries.toInt)) :
    TriedFrom candidates cfg turn attempt [detail.host] where
  made := List.cons_ne_nil _ _
  order k hk := by
    obtain rfl : k = 0 := by simpa using hk
    simp [hpick]
  goesOn k hk := by
    obtain rfl : k = 0 := by simpa using hk
    simpa using hstop

/-- An attempt that has others after it. -/
theorem TriedFrom.cons {detail : HostDetail} {tries : List HostInfo}
    (hpick : candidates[attempt % candidates.length]? = some detail)
    (hgo : (turn attempt).Retries ∧ (attempt : Int) < cfg.maxRetries.toInt)
    (h : TriedFrom candidates cfg turn (attempt + 1) tries) :
    TriedFrom candidates cfg turn attempt (detail.host :: tries) where
  made := List.cons_ne_nil _ _
  order k hk := by
    cases k with
    | zero => simp [hpick]
    | succ k =>
      have hrest := h.order k (by simpa using hk)
      rw [List.getElem?_cons_succ, hrest, Nat.add_right_comm, Nat.add_assoc]
  goesOn k hk := by
    cases k with
    | zero =>
      have hmore : 0 < tries.length := List.length_pos_iff.mpr h.made
      simpa using ⟨fun _ => hgo, fun _ => hmore⟩
    | succ k =>
      have hrest := h.goesOn k (by simpa using hk)
      have hsum : attempt + (k + 1) = attempt + 1 + k := by omega
      have hcast : (attempt : Int) + ((k + 1 : Nat) : Int) = ((attempt + 1 : Nat) : Int) + k := by
        omega
      rw [List.length_cons, Nat.add_lt_add_iff_right, hrest, hsum, hcast]

theorem retryLoop_spec {attempt : Nat} {tried : List HostInfo} (hne : candidates ≠ [])
    (hnodup : (candidates.map (·.host)).Nodup)
    (h : InRound HostDetail.host candidates attempt tried) :
    TriedFrom candidates cfg turn attempt (retryLoop candidates cfg turn attempt tried).1 := by
  obtain ⟨detail, tried', hnext, hpick, hround⟩ := h.next hne hnodup
  rw [retryLoop]
  simp only [pickUntriedCandidate, hnext]
  cases hturn : turn attempt with
  | returns ok =>
    refine .last hpick (fun hgo => ?_)
    obtain ⟨err, herr, _⟩ := hgo.1
    rw [hturn] at herr
    cases herr
  | throws =>
    refine .last hpick (fun hgo => ?_)
    obtain ⟨err, herr, _⟩ := hgo.1
    rw [hturn] at herr
    cases herr
  | failed err =>
    dsimp only
    split
    · rename_i hstop
      refine .last hpick (fun hgo => ?_)
      obtain ⟨⟨err', herr, hretry⟩, hless⟩ := hgo
      obtain rfl : err = err' := Turn.failed.inj (hturn.symm.trans herr)
      cases hstop with
      | inl hno => exact absurd hretry (by simp [hno])
      | inr hmax => omega
    · rename_i hgo
      obtain ⟨hretry, hless⟩ := not_or.mp hgo
      have hmore : (attempt : Int) < cfg.maxRetries.toInt := by omega
      refine .cons hpick ⟨⟨err, hturn, by simpa using hretry⟩, hmore⟩ ?_
      exact retryLoop_spec hne hnodup hround
termination_by cfg.maxRetries.toInt.toNat - attempt
decreasing_by omega

theorem retryLoop_law (hne : candidates ≠ []) (hnodup : (candidates.map (·.host)).Nodup)
    (hmax : 0 ≤ cfg.maxRetries.toInt) :
    RetryLaw candidates cfg turn (retryLoop candidates cfg turn 0 []).1 := by
  have hspec : TriedFrom candidates cfg turn 0 (retryLoop candidates cfg turn 0 []).1 :=
    retryLoop_spec hne hnodup inRound_zero
  generalize (retryLoop candidates cfg turn 0 []).1 = tries at hspec ⊢
  have horder : ∀ k < tries.length,
      tries[k]? = (candidates[k % candidates.length]?).map (·.host) := by
    intro k hk
    simpa using hspec.order k hk
  have hpos : 0 < candidates.length := List.length_pos_iff.mpr hne
  refine ⟨hspec.made, horder, fun k hk => by simpa using hspec.goesOn k hk, ?_, ?_⟩
  · by_contra hlong
    -- the attempt after which the last allowed one was made
    have hlast := (hspec.goesOn (tries.length - 2) (by omega)).mp (by omega)
    omega
  · intro i j hij hj hsame c hc
    have hi : i < tries.length := by omega
    rw [horder i hi, horder j hj] at hsame
    have hmod : ∀ k, k % candidates.length < candidates.length := fun k => Nat.mod_lt k hpos
    rw [List.getElem?_eq_getElem (hmod i), List.getElem?_eq_getElem (hmod j)] at hsame
    have hlong : candidates.length ≤ j :=
      length_le_of_again hnodup hij (List.getElem?_eq_getElem (hmod i))
        (List.getElem?_eq_getElem (hmod j)) (Option.some.inj hsame)
    obtain ⟨k, hk, hkc⟩ := List.mem_iff_getElem.mp hc
    refine ⟨k, by omega, ?_⟩
    rw [horder k (by omega), Nat.mod_eq_of_lt hk, List.getElem?_eq_getElem hk, hkc]
    rfl

end Loop

/-- The three loops try the candidates in turns, as often as `max_retries` and
the errors allow. -/
theorem retry_order {candidates : List HostDetail} (hne : candidates ≠ [])
    (hnodup : (candidates.map (·.host)).Nodup) {cfg : RetryConfig}
    (hmax : 0 ≤ cfg.maxRetries.toInt) :
    (∀ outcomes, RetryLaw candidates cfg (fun k => RpcClient.syncTurn (outcomes k))
      (RpcClient.call candidates cfg outcomes).1) ∧
    (∀ outcomes, RetryLaw candidates cfg (fun k => RpcClient.futureTurn (outcomes k))
      (RpcClient.callFuture candidates cfg outcomes).1) ∧
    (∀ outcomes, RetryLaw candidates cfg (fun k => RpcClient.protoTurn (outcomes k))
      (RpcClient.callProto candidates cfg outcomes).1) :=
  ⟨fun _ => retryLoop_law hne hnodup hmax, fun _ => retryLoop_law hne hnodup hmax,
    fun _ => retryLoop_law hne hnodup hmax⟩

def twoCandidates : List HostDetail :=
  [⟨⟨str "10.0.0.1", 8080⟩, 0⟩, ⟨⟨str "10.0.0.2", 8080⟩, 0⟩]

/-- No future is ready in time: each of two hosts is tried twice, in turns. -/
theorem retry_order_timeouts :
    (RpcClient.callFuture twoCandidates {} (fun _ => .called .pending)).1 =
      [⟨str "10.0.0.1", 8080⟩, ⟨str "10.0.0.2", 8080⟩, ⟨str "10.0.0.1", 8080⟩,
        ⟨str "10.0.0.2", 8080⟩] ∧
    RetryLaw twoCandidates {} (fun _ => .failed .TIMEOUT)
      (RpcClient.callFuture twoCandidates {} (fun _ => .called .pending)).1 := by
  refine ⟨?_, (retry_order (by decide) (by decide) (by decide)).2.1 (fun _ => .called .pending)⟩
  have hne : str "10.0.0.2" ≠ str "10.0.0.1" := by decide
  simp [RpcClient.callFuture, RpcClient.futureTurn, HostAttempt.turn, retryLoop,
    pickUntriedCandidate, nextUnseen, twoCandidates, isRetryable, hne]

end LyqtRpc
