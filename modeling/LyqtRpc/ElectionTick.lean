import LyqtRpc.LeaseKeepalive

/-!
One `electionTick` over whatever bytes the calls to etcd return: what it posts, what
becomes of the elector, and which exceptions leave it.
-/

set_option autoImplicit false

namespace LyqtRpc

/-- What `curl_post` returns to a tick, of the calls whose answer is read. -/
structure TickReplies where
  grant : Bytes := []
  txn : Bytes := []
  keepalive : Bytes := []

/-- What a tick has done. -/
structure TickRun where
  elector : EtcdLeaderElector
  posts : List ElectionRequest
  escaped : Option CppException := none

namespace EtcdLeaderElector

/-- `std::stoll(root.get("ID", "").asString())` -/
def readLease (json : Jsoncpp) (root : JsonValue) : Except CppException Int := do
  stoll (← (← root.get (str "ID") (.string [])).asString json)

/-- `root.get("succeeded", false).asBool()` -/
def readSucceeded (root : JsonValue) : Except CppException Bool := do
  (← root.get (str "succeeded") (.bool false)).asBool

/-- The grant is answered with `lease`. -/
def compete (json : Jsoncpp) (txn : Bytes) (e : EtcdLeaderElector) (lease : Int) : TickRun :=
  let posts := [.leaseGrant, .txn lease]
  let revoked : TickRun := { elector := e, posts := posts ++ [.revoke lease] }
  if txn = [] then revoked
  else
    match json.parse txn with
    | .error x => { elector := e, posts, escaped := some x }
    | .ok none => revoked
    | .ok (some root) =>
      match readSucceeded root with
      | .error x => { elector := e, posts, escaped := some x }
      | .ok false => revoked
      | .ok true => { elector := { e with is_leader := true, lease_id := lease }, posts }

def tryBecomeLeader (json : Jsoncpp) (replies : TickReplies) (e : EtcdLeaderElector) : TickRun :=
  if replies.grant = [] then { elector := e, posts := [.leaseGrant] }
  else
    match json.parse replies.grant with
    | .error x => { elector := e, posts := [.leaseGrant], escaped := some x }
    | .ok none => { elector := e, posts := [.leaseGrant] }
    | .ok (some root) =>
      match readLease json root with
      | .error x => { elector := e, posts := [.leaseGrant], escaped := some x }
      | .ok lease => e.compete json replies.txn lease

/-- `posts` are those before it. -/
def becomeFollower (e : EtcdLeaderElector) (posts : List ElectionRequest) : TickRun :=
  if 0 ≤ e.lease_id then
    { elector := { e with is_leader := false, lease_id := -1 }
      posts := posts ++ [.revoke e.lease_id] }
  else { elector := { e with is_leader := false }, posts }

def refreshLease (json : Jsoncpp) (replies : TickReplies) (e : EtcdLeaderElector) : TickRun :=
  if e.lease_id < 0 then e.becomeFollower []
  else
    match leaseRefreshed json replies.keepalive with
    | .error x => { elector := e, posts := [.keepalive e.lease_id], escaped := some x }
    | .ok true => { elector := e, posts := [.keepalive e.lease_id] }
    | .ok false => e.becomeFollower [.keepalive e.lease_id]

def electionTick (json : Jsoncpp) (replies : TickReplies) (e : EtcdLeaderElector) : TickRun :=
  if e.is_leader then e.refreshLease json replies else e.tryBecomeLeader json replies

end EtcdLeaderElector

/-- The answer has a member `ID` with the number of a lease. -/
def Grants (json : Jsoncpp) (grant : Bytes) (lease : Int) : Prop :=
  grant ≠ [] ∧ ∃ root, json.parse grant = .ok (some root) ∧
    ∃ text, (root.field (str "ID")).asString json = .ok text ∧ stoll text = .ok lease

/-- The lease is the leader's, or was granted in the tick. -/
def HasLease (json : Jsoncpp) (replies : TickReplies) (e : EtcdLeaderElector) (lease : Int) :
    Prop :=
  if e.is_leader then e.lease_id = lease else Grants json replies.grant lease

structure TickSound (json : Jsoncpp) (replies : TickReplies) (e : EtcdLeaderElector)
    (run : TickRun) : Prop where
  quiet : run.escaped = none
  elected : e.is_leader = false → run.elector.is_leader = true →
    (∃ members, json.parse replies.txn = .ok (some (.object members)) ∧
      members.lookup (str "succeeded") = some (.bool true)) ∧
    Grants json replies.grant run.elector.lease_id
  /-- A lease is kept, or it is revoked. -/
  revoked : ∀ lease, HasLease json replies e lease →
    (run.elector.is_leader = true ∧ run.elector.lease_id = lease) ∨ .revoke lease ∈ run.posts

/-- Nothing, or what is no JSON, or a JSON tree that will do. -/
def ReadAs (json : Jsoncpp) (text : Bytes) (good : JsonValue → Prop) : Prop :=
  text ≠ [] → ∃ parsed, json.parse text = .ok parsed ∧ ∀ root, parsed = some root → good root

/-- `succeeded` is missing or null, a number that is zero, or a boolean. -/
def IsVerdict (root : JsonValue) : Prop :=
  root.isTable = true ∧ ((root.field (str "succeeded")).asBool = .ok false ∨
    ∃ b, root.field (str "succeeded") = .bool b)

/-- An answer to a keepalive whose TTL, if there is one, is a text or a number. -/
def IsKeepalive (root : JsonValue) : Prop :=
  root.isTable = true ∧ (root.field (str "result")).isTable = true ∧
    ((root.field (str "result")).field (str "TTL")).isText = true

/-- A leader has a lease that was not negative, and an answer that can be read. A follower
is granted a lease by its number, and gets a verdict on its transaction. -/
def TickFits (json : Jsoncpp) (replies : TickReplies) (e : EtcdLeaderElector) : Prop :=
  if e.is_leader then 0 ≤ e.lease_id ∧ ReadAs json replies.keepalive IsKeepalive
  else
    ReadAs json replies.grant (fun _ => ∃ lease, Grants json replies.grant lease) ∧
      ((∃ lease, Grants json replies.grant lease) → ReadAs json replies.txn IsVerdict)

section Reading
variable {json : Jsoncpp} {root : JsonValue}

theorem stoll_nil : ∀ lease, stoll [] ≠ .ok lease := nofun

/-- What has no members gives an empty text, which is no number. -/
theorem readLease_eq_ok {lease : Int} :
    EtcdLeaderElector.readLease json root = .ok lease ↔
      ∃ text, (root.field (str "ID")).asString json = .ok text ∧ stoll text = .ok lease := by
  have hget : EtcdLeaderElector.readLease json root = .ok lease ↔
      ((root.field (str "ID")).asString json >>= stoll) = .ok lease :=
    JsonValue.get_bind_eq_ok_field (f := fun v => v.asString json >>= stoll) rfl (stoll_nil lease)
  rw [hget, bind_eq_ok]

theorem readSucceeded_eq_ok {b : Bool} :
    EtcdLeaderElector.readSucceeded root = .ok b ↔
      root.isTable = true ∧ (root.field (str "succeeded")).asBool = .ok b :=
  JsonValue.get_bind_eq_ok (f := JsonValue.asBool) rfl

/-- A verdict is read, and only `true` is read as one that elects. -/
theorem isVerdict_iff :
    IsVerdict root ↔ ∃ b, EtcdLeaderElector.readSucceeded root = .ok b ∧
      (b = true → root.field (str "succeeded") = .bool true) := by
  unfold IsVerdict
  constructor
  · intro h
    obtain ⟨htable, hzero | ⟨b, hb⟩⟩ := h
    · exact ⟨false, readSucceeded_eq_ok.mpr ⟨htable, hzero⟩, nofun⟩
    · refine ⟨b, readSucceeded_eq_ok.mpr ⟨htable, by rw [hb]; rfl⟩, fun hyes => ?_⟩
      rw [hb, hyes]
  · intro h
    obtain ⟨b, hread, hyes⟩ := h
    obtain ⟨htable, hb⟩ := readSucceeded_eq_ok.mp hread
    cases b with
    | false => exact ⟨htable, Or.inl hb⟩
    | true => exact ⟨htable, Or.inr ⟨true, hyes rfl⟩⟩

theorem keepalive_returns_iff :
    Returns (root.index (str "result") >>= fun result => result.get (str "TTL") (.string []) >>=
      fun ttl => ttl.asString json >>= fun text =>
        (pure (decide (text ≠ [])) : Except CppException Bool)) ↔ IsKeepalive root := by
  let f : JsonValue → Except CppException Bool := fun ttl =>
    ttl.asString json >>= fun text => pure (decide (text ≠ []))
  have hget : ∀ v : JsonValue, Returns (v.get (str "TTL") (.string []) >>= f) ↔
      v.isTable = true ∧ Returns (f (v.field (str "TTL"))) :=
    fun v => JsonValue.get_bind_returns rfl
  have htext : ∀ v : JsonValue, Returns (f v) ↔ v.isText = true := by
    intro v
    rw [returns_bind_of (fun _ => returns_pure _), JsonValue.asString_returns_iff]
  rw [JsonValue.index_bind_returns, hget, htext]
  rfl

theorem leaseRefreshed_returns_iff {resp : Bytes} :
    Returns (leaseRefreshed json resp) ↔ ReadAs json resp IsKeepalive := by
  unfold leaseRefreshed ReadAs
  by_cases hresp : resp = []
  · simp [hresp]
  · cases hparse : json.parse resp with
    | error x => simp [hresp, bind, Except.bind]
    | ok parsed =>
      cases parsed with
      | none => simp [hresp, bind, Except.bind]
      | some root => simpa [hresp] using @keepalive_returns_iff json root

end Reading

section Tick
variable {json : Jsoncpp} {replies : TickReplies} {e : EtcdLeaderElector}

theorem grants_unique {grant : Bytes} {lease other : Int} (h : Grants json grant lease)
    (hother : Grants json grant other) : lease = other := by
  obtain ⟨_, root, hroot, text, htext, hlease⟩ := h
  obtain ⟨_, root', hroot', text', htext', hlease'⟩ := hother
  rw [hroot] at hroot'
  cases hroot'
  rw [htext] at htext'
  cases htext'
  rw [hlease] at hlease'
  exact Except.ok.inj hlease'

/-- The grant is read, or there is no lease to go on with. -/
theorem tryBecomeLeader_cases :
    (e.tryBecomeLeader json replies = { elector := e, posts := [.leaseGrant] } ∧
      ReadAs json replies.grant (fun _ => ∃ lease, Grants json replies.grant lease) ∧
      ∀ lease, ¬Grants json replies.grant lease) ∨
    (∃ x, e.tryBecomeLeader json replies =
        { elector := e, posts := [.leaseGrant], escaped := some x } ∧
      ¬ReadAs json replies.grant (fun _ => ∃ lease, Grants json replies.grant lease)) ∨
    ∃ lease, e.tryBecomeLeader json replies = e.compete json replies.txn lease ∧
      Grants json replies.grant lease := by
  unfold EtcdLeaderElector.tryBecomeLeader
  by_cases hgrant : replies.grant = []
  · left
    simp [hgrant, ReadAs, Grants]
  cases hparse : json.parse replies.grant with
  | error x =>
      right; left
      simp [hgrant, ReadAs, hparse]
  | ok parsed =>
      cases parsed with
      | none =>
          left
          simp [hgrant, ReadAs, Grants, hparse]
      | some root =>
          cases hread : EtcdLeaderElector.readLease json root with
          | error x =>
              right; left
              have hnone : ∀ lease, ¬Grants json replies.grant lease := by
                intro lease h
                obtain ⟨_, root', hroot, htext⟩ := h
                rw [hparse] at hroot
                cases hroot
                rw [readLease_eq_ok.mpr htext] at hread
                cases hread
              simp [hgrant, ReadAs, hparse, hread, hnone]
          | ok lease =>
              right; right
              refine ⟨lease, by simp [hgrant, hread], hgrant, root, hparse, ?_⟩
              exact readLease_eq_ok.mp hread

/-- An elector that competes with `lease` loses it in no tick that gets a verdict. -/
theorem compete_cases (lease : Int) :
    (e.compete json replies.txn lease =
        { elector := e, posts := [.leaseGrant, .txn lease, .revoke lease] } ∧
      ReadAs json replies.txn IsVerdict) ∨
    (∃ x, e.compete json replies.txn lease =
        { elector := e, posts := [.leaseGrant, .txn lease], escaped := some x } ∧
      ¬ReadAs json replies.txn IsVerdict) ∨
    ∃ root, e.compete json replies.txn lease =
        { elector := { e with is_leader := true, lease_id := lease }
          posts := [.leaseGrant, .txn lease] } ∧
      json.parse replies.txn = .ok (some root) ∧ root.isTable = true ∧
      (ReadAs json replies.txn IsVerdict ↔ root.field (str "succeeded") = .bool true) := by
  unfold EtcdLeaderElector.compete
  by_cases htxn : replies.txn = []
  · left
    simp [htxn, ReadAs]
  cases hparse : json.parse replies.txn with
  | error x =>
      right; left
      simp [htxn, ReadAs, hparse]
  | ok parsed =>
      cases parsed with
      | none =>
          left
          simp [htxn, ReadAs, hparse]
      | some root =>
          have hfits : ReadAs json replies.txn IsVerdict ↔ IsVerdict root := by
            simp [ReadAs, htxn, hparse]
          rw [isVerdict_iff] at hfits
          cases hread : EtcdLeaderElector.readSucceeded root with
          | error x =>
              right; left
              simp [htxn, hread, hfits]
          | ok b =>
              cases b with
              | false =>
                  left
                  simp [htxn, hread, hfits]
              | true =>
                  right; right
                  refine ⟨root, by simp [htxn, hread], rfl, (readSucceeded_eq_ok.mp hread).1, ?_⟩
                  simp [hfits, hread]

theorem refreshLease_sound_iff (hleader : e.is_leader = true) :
    TickSound json replies e (e.refreshLease json replies) ↔
      0 ≤ e.lease_id ∧ ReadAs json replies.keepalive IsKeepalive := by
  have hlease : ∀ lease, HasLease json replies e lease ↔ e.lease_id = lease := by
    intro lease
    rw [HasLease, if_pos hleader]
  unfold EtcdLeaderElector.refreshLease
  by_cases hneg : e.lease_id < 0
  · -- a negative lease is given up, and nobody revokes it
    have hnot : ¬0 ≤ e.lease_id := by omega
    rw [if_pos hneg, EtcdLeaderElector.becomeFollower, if_neg hnot]
    simp only [hnot, false_and, iff_false]
    intro h
    have hrevoked := h.revoked e.lease_id ((hlease _).mpr rfl)
    simp at hrevoked
  have hnonneg : 0 ≤ e.lease_id := by omega
  rw [if_neg hneg, ← leaseRefreshed_returns_iff]
  cases hread : leaseRefreshed json replies.keepalive with
  | error x =>
      simp only [not_returns_error, and_false, iff_false]
      intro h
      cases h.quiet
  | ok alive =>
      simp only [returns_ok, and_true, hnonneg, iff_true]
      cases alive with
      | true =>
          refine ⟨rfl, fun hfollower => ?_, fun lease h => Or.inl ⟨hleader, (hlease lease).mp h⟩⟩
          rw [hleader] at hfollower
          cases hfollower
      | false =>
          rw [EtcdLeaderElector.becomeFollower, if_pos hnonneg]
          refine ⟨rfl, fun _ h => (by cases h), fun lease h => Or.inr ?_⟩
          simp [(hlease lease).mp h]

theorem compete_sound_iff (hfollower : e.is_leader = false) {lease : Int}
    (hgrants : Grants json replies.grant lease) :
    TickSound json replies e (e.compete json replies.txn lease) ↔
      ReadAs json replies.txn IsVerdict := by
  have hlease : ∀ other, HasLease json replies e other → lease = other := by
    intro other h
    rw [HasLease, hfollower] at h
    exact grants_unique hgrants h
  obtain ⟨hrun, hverdict⟩ | ⟨x, hrun, hverdict⟩ | ⟨root, hrun, hroot, htable, hverdict⟩ :=
    @compete_cases json replies e lease
  · simp only [hrun, hverdict, iff_true]
    refine ⟨rfl, fun _ helected => ?_, fun other h => .inr ?_⟩
    · rw [hfollower] at helected
      cases helected
    · simp [hlease other h]
  · simp only [hrun, hverdict, iff_false]
    intro h
    exact nomatch h.quiet
  · rw [hrun, hverdict]
    constructor
    · intro h
      obtain ⟨⟨members, hmembers, hlookup⟩, _⟩ := h.elected hfollower rfl
      rw [hroot] at hmembers
      cases hmembers
      simp [JsonValue.field, hlookup]
    · intro htrue
      refine ⟨rfl, fun _ _ => ⟨?_, hgrants⟩, fun other h => .inl ⟨rfl, hlease other h⟩⟩
      cases root with
      | object members =>
          refine ⟨members, hroot, ?_⟩
          cases hlookup : members.lookup (str "succeeded") with
          | none => simp [JsonValue.field, hlookup] at htrue
          | some v => simpa [JsonValue.field, hlookup] using htrue
      | null => cases htrue
      | _ => cases htable

/-- Whatever etcd returns to it, a tick is sound exactly when its answers can be read. -/
theorem tick_sound_iff (json : Jsoncpp) (replies : TickReplies) (e : EtcdLeaderElector) :
    TickSound json replies e (e.electionTick json replies) ↔ TickFits json replies e := by
  unfold EtcdLeaderElector.electionTick TickFits
  cases hleader : e.is_leader with
  | true => exact refreshLease_sound_iff hleader
  | false =>
      simp only [Bool.false_eq_true, if_false]
      obtain ⟨hrun, hread, hnone⟩ | ⟨x, hrun, hread⟩ | ⟨lease, hrun, hgrants⟩ :=
        @tryBecomeLeader_cases json replies e
      · rw [hrun]
        refine iff_of_true ⟨rfl, fun _ helected => ?_, fun lease h => ?_⟩
          ⟨hread, fun h => absurd h.choose_spec (hnone _)⟩
        · rw [hleader] at helected
          cases helected
        · rw [HasLease, hleader] at h
          exact absurd h (hnone lease)
      · rw [hrun]
        exact iff_of_false (fun h => nomatch h.quiet) (fun h => hread h.1)
      · rw [hrun, compete_sound_iff hleader hgrants]
        constructor
        · intro htxn
          refine ⟨fun _ => ?_, fun _ => htxn⟩
          obtain ⟨_, root, hroot, _⟩ := id hgrants
          exact ⟨some root, hroot, fun _ _ => ⟨lease, hgrants⟩⟩
        · intro h
          exact h.2 ⟨lease, hgrants⟩

end Tick

section Election
variable {ι : Type} [DecidableEq ι]

/-- What the replies of a tick are read as. -/
def TickReplies.answer (json : Jsoncpp) (replies : TickReplies) :
    ElectionRequest → Option ElectionAnswer
  | .leaseGrant =>
    if replies.grant = [] then none
    else
      match json.parse replies.grant with
      | .ok (some root) =>
        match EtcdLeaderElector.readLease json root with
        | .ok lease => some (.granted lease)
        | .error _ => none
      | _ => none
  | .txn _ =>
    if replies.txn = [] then none
    else
      match json.parse replies.txn with
      | .ok (some root) =>
        match EtcdLeaderElector.readSucceeded root with
        | .ok succeeded => some (.txn succeeded)
        | .error _ => none
      | _ => none
  | .keepalive _ =>
    match leaseRefreshed json replies.keepalive with
    | .ok alive => some (.keepalive alive)
    | .error _ => none
  | .revoke _ => some .revoked

/-- The instance gets its answers one after the other. -/
def Election.finish (i : ι) (answer : ElectionRequest → Option ElectionAnswer) :
    Nat → Election ι → Election ι
  | 0, s => s
  | n + 1, s =>
    match (s.electors i).request with
    | none => s
    | some request => finish i answer n (s.resume i (s.electors i) (answer request))

variable {s : Election ι} {i : ι} {e : EtcdLeaderElector} {json : Jsoncpp} {replies : TickReplies}

@[simp] theorem Election.electors_put : (s.put i e).electors i = e := by
  simp [Election.put]

@[simp] theorem Election.electors_post {request : ElectionRequest} :
    (s.post i e request).electors i = { e with calls := e.calls + 1 } := by
  simp [Election.post, Election.put]

/-- The answers to the grant and to the transaction decide what follows. -/
theorem Election.finish_granting {answer : ElectionRequest → Option ElectionAnswer}
    (hidle : e.doing = .idle) :
    ((s.post i { e with doing := .granting } .leaseGrant).finish i answer 3).electors i =
      match answer .leaseGrant with
      | some (.granted lease) =>
        if answer (.txn lease) = some (.txn true) then
          { e with is_leader := true, lease_id := lease, calls := e.calls + 2 }
        else { e with calls := e.calls + 3 }
      | _ => { e with calls := e.calls + 1 } := by
  cases hgrant : answer .leaseGrant with
  | none => simp [finish, EtcdLeaderElector.request, resume, hgrant, hidle]
  | some granted =>
      cases granted with
      | granted lease =>
          by_cases htxn : answer (.txn lease) = some (.txn true)
          · simp [finish, EtcdLeaderElector.request, resume, hgrant, hidle, htxn]
          · simp [finish, EtcdLeaderElector.request, resume, hgrant, hidle, htxn]
      | _ => simp [finish, EtcdLeaderElector.request, resume, hgrant, hidle]

theorem finish_refreshLease (hidle : e.doing = .idle)
    (hquiet : (e.refreshLease json replies).escaped = none) :
    ((s.refreshLease i e).finish i (replies.answer json) 3).electors i =
      { (e.refreshLease json replies).elector with
        calls := e.calls + (e.refreshLease json replies).posts.length } := by
  unfold EtcdLeaderElector.refreshLease at hquiet ⊢
  unfold Election.refreshLease
  by_cases hneg : e.lease_id < 0
  · have hnot : ¬0 ≤ e.lease_id := by omega
    simp [hneg, Election.becomeFollower, EtcdLeaderElector.becomeFollower, hnot, Election.finish,
      EtcdLeaderElector.request, hidle]
  · have hnonneg : 0 ≤ e.lease_id := by omega
    simp only [hneg, if_false] at hquiet ⊢
    cases hread : leaseRefreshed json replies.keepalive with
    | error x => simp [hread] at hquiet
    | ok alive =>
        have hanswer : replies.answer json (.keepalive e.lease_id) = some (.keepalive alive) := by
          simp [TickReplies.answer, hread]
        cases alive with
        | true => simp [Election.finish, EtcdLeaderElector.request, Election.resume, hidle, hanswer]
        | false =>
            simp [Election.finish, EtcdLeaderElector.request, Election.resume, hidle, hanswer,
              Election.becomeFollower, EtcdLeaderElector.becomeFollower, hnonneg]

theorem finish_tryBecomeLeader (hidle : e.doing = .idle)
    (hquiet : (e.tryBecomeLeader json replies).escaped = none) :
    ((s.post i { e with doing := .granting } .leaseGrant).finish i (replies.answer json) 3).electors
        i =
      { (e.tryBecomeLeader json replies).elector with
        calls := e.calls + (e.tryBecomeLeader json replies).posts.length } := by
  rw [Election.finish_granting hidle]
  unfold EtcdLeaderElector.tryBecomeLeader EtcdLeaderElector.compete at hquiet ⊢
  by_cases hgrant : replies.grant = []
  · simp [hgrant, TickReplies.answer]
  cases hparse : json.parse replies.grant with
  | error x => simp [hgrant, hparse] at hquiet
  | ok parsed =>
      cases parsed with
      | none => simp [hgrant, TickReplies.answer, hparse]
      | some root =>
          cases hread : EtcdLeaderElector.readLease json root with
          | error x => simp [hgrant, hparse, hread] at hquiet
          | ok lease =>
              have hanswer : replies.answer json .leaseGrant = some (.granted lease) := by
                simp [TickReplies.answer, hgrant, hparse, hread]
              simp only [hgrant, hparse, hread, hanswer, if_false] at hquiet ⊢
              by_cases htxn : replies.txn = []
              · simp [htxn, TickReplies.answer]
              cases hverdict : json.parse replies.txn with
              | error x => simp [htxn, hverdict] at hquiet
              | ok parsed =>
                  cases parsed with
                  | none => simp [htxn, TickReplies.answer, hverdict]
                  | some root =>
                      cases hsucceeded : EtcdLeaderElector.readSucceeded root with
                      | error x => simp [htxn, hverdict, hsucceeded] at hquiet
                      | ok b => cases b <;> simp [htxn, TickReplies.answer, hverdict, hsucceeded]

/-- A tick that nothing escapes from is the one that the instances of an election run. -/
theorem electionTick_finish (s : Election ι) (i : ι) (json : Jsoncpp) (replies : TickReplies)
    (hidle : (s.electors i).doing = .idle)
    (hquiet : ((s.electors i).electionTick json replies).escaped = none) :
    ((s.electionTick i (s.electors i)).finish i (replies.answer json) 3).electors i =
      { ((s.electors i).electionTick json replies).elector with
        calls := (s.electors i).calls +
          ((s.electors i).electionTick json replies).posts.length } := by
  unfold EtcdLeaderElector.electionTick at hquiet ⊢
  unfold Election.electionTick
  by_cases hleader : (s.electors i).is_leader = true
  · rw [if_pos hleader] at hquiet ⊢
    rw [if_pos hleader]
    exact finish_refreshLease hidle hquiet
  · rw [if_neg hleader] at hquiet ⊢
    rw [if_neg hleader]
    exact finish_tryBecomeLeader hidle hquiet

end Election

/-- A grant is answered with an error object, which has no `ID`. -/
theorem tick_grant_error :
    ¬ ∀ (json : Jsoncpp) (replies : TickReplies) (e : EtcdLeaderElector),
      TickSound json replies e (e.electionTick json replies) := by
  intro h
  let text : Bytes := str "\x7b\"code\":14\x7d"
  let json : Jsoncpp :=
    { Jsoncpp.unused with
      parse := fun s => .ok (if s = text then some (.object [(str "code", .int 14)]) else none) }
  have hquiet := (h json { grant := text } {}).quiet
  have hescaped : (({} : EtcdLeaderElector).electionTick json { grant := text }).escaped.isSome =
      true := by decide +kernel
  rw [hquiet] at hescaped
  cases hescaped

end LyqtRpc
