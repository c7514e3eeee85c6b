import LyqtRpc.EtcdRegister
import LyqtRpc.LeaderElection

/-!
The two readers of etcd's keepalive answer, in `EtcdRegistryStore` and in
`EtcdLeaderElector`, and what a heartbeat does with the first.
-/

set_option autoImplicit false

namespace LyqtRpc

/-- `http_lease_keepalive` after `curl_post` has returned `resp`. -/
def httpLeaseKeepalive (json : Jsoncpp) (resp : Bytes) : Except CppException Bool := do
  if resp = [] then return false
  match ← json.parse resp with
  | none => pure false
  | some root =>
    let ttl ← (← root.get (str "TTL") (.string [])).asString json
    pure (decide (0 < ttl.length))

/-- What `refreshLease` reads; false where it goes on to `becomeFollower`. -/
def leaseRefreshed (json : Jsoncpp) (resp : Bytes) : Except CppException Bool := do
  if resp = [] then return false
  match ← json.parse resp with
  | none => pure false
  | some root =>
    let result ← root.index (str "result")
    let ttl ← (← result.get (str "TTL") (.string [])).asString json
    pure (decide (ttl ≠ []))

section Elector
variable {ι : Type} [DecidableEq ι]

/-- `refreshLease` after `curl_post` has returned `resp`. -/
def Election.refreshedLease (json : Jsoncpp) (s : Election ι) (i : ι) (resp : Bytes) :
    Except CppException (Election ι) := do
  let alive ← leaseRefreshed json resp
  pure (s.resume i (s.electors i) (some (.keepalive alive)))

def Election.KeepsLeadership (json : Jsoncpp) (s : Election ι) (i : ι) (resp : Bytes) : Prop :=
  ∃ t, s.refreshedLease json i resp = .ok t ∧ (t.electors i).is_leader = true ∧
    (t.electors i).doing = .idle

end Elector

/-- `heartbeat`, where the keepalive is answered with `resp`; `calls` are the grant and
the put that may follow. -/
def EtcdRegistryStore.tryHeartbeat {γ : Type} (json : Jsoncpp) (s : EtcdRegistryStore γ)
    (etcd : Etcd) (resp : Bytes) (calls : RegisterCalls json) (method : Bytes)
    (host : HostInfo) : Except CppException Bool × EtcdRegistryStore γ × Etcd :=
  let key := keyFor method host
  let lease := (s.keysToLease.lookup key).getD (-1)
  if lease < 0 then (.ok false, s, etcd)
  else
    match httpLeaseKeepalive json resp with
    | .error e => (.error e, s, etcd)
    | .ok true => (.ok true, s, etcd)
    | .ok false =>
      let load := (s.keysToLoad.lookup key).getD 0
      let etcd := etcd.granting calls
      match httpLeaseGrant json calls.grantReply with
      | .error e => (.error e, s, etcd)
      | .ok lease =>
        if lease < 0 then (.ok false, s, etcd)
        else
          let etcd := if calls.putDone then etcd.put key (valueFor host load) lease else etcd
          if calls.putReply = [] then (.ok false, s, etcd)
          else
            (.ok true,
              { s with
                keysToLease := s.keysToLease.insert key lease
                knownKeys := s.knownKeys.insert key () },
              etcd)

/-- There is a TTL among the members. -/
def ReportsTtl (json : Jsoncpp) (v : JsonValue) : Prop :=
  ∃ ttl, (v.field (str "TTL")).asString json = .ok ttl ∧ ttl ≠ []

/-- The answer says how long the lease is to live. -/
def Renewed (json : Jsoncpp) (resp : Bytes) : Prop :=
  resp ≠ [] ∧ ∃ root, json.parse resp = .ok (some root) ∧
    ReportsTtl json (root.field (str "result"))

/-- All that etcd says in an answer, it says in a `result` or in an `error`. -/
def FromEtcd (json : Jsoncpp) (resp : Bytes) : Prop :=
  resp ≠ [] ∧ ∃ members, json.parse resp = .ok (some (.object members)) ∧
    ∀ member ∈ members, member.1 = str "result" ∨ member.1 = str "error"

/-- Both readers find that the lease lives exactly where the answer says so; and a
heartbeat then leaves everything as it is, whatever a grant would have done. -/
structure KeepalivesAgree (json : Jsoncpp) (resp : Bytes) : Prop where
  same : ∀ {ι : Type} [DecidableEq ι] (s : Election ι) (i : ι),
    (s.electors i).is_leader = true → (s.electors i).doing = .refreshing →
      (httpLeaseKeepalive json resp = .ok true ↔ s.KeepsLeadership json i resp)
  reported : httpLeaseKeepalive json resp = .ok true ↔ Renewed json resp
  renewal : Renewed json resp → ∀ {γ : Type} (s : EtcdRegistryStore γ) (etcd : Etcd)
    (calls : RegisterCalls json) (method : Bytes) (host : HostInfo),
    0 ≤ (s.keysToLease.lookup (keyFor method host)).getD (-1) →
      s.tryHeartbeat json etcd resp calls method host = (.ok true, s, etcd)

/-- A text that is read has a TTL of its own exactly if its `result` has one. -/
def KeepaliveFits (json : Jsoncpp) (resp : Bytes) : Prop :=
  resp ≠ [] → ∀ root, json.parse resp = .ok (some root) →
    (ReportsTtl json root ↔ ReportsTtl json (root.field (str "result")))

theorem Etcd.granted_put (etcd : Etcd) (key value : Bytes) (lease : Int) :
    (etcd.put key value lease).granted = etcd.granted := by
  unfold Etcd.put
  split <;> rfl

section Readers
variable {json : Jsoncpp} {resp : Bytes}

@[simp] theorem not_reportsTtl_null : ¬ReportsTtl json .null := by
  simp [ReportsTtl, JsonValue.field, JsonValue.asString]

/-- `get` with an empty text as the default finds the TTL that is there. -/
theorem getTtl_iff {v : JsonValue} :
    (v.get (str "TTL") (.string []) >>= fun w => w.asString json >>= fun ttl =>
      pure (decide (ttl ≠ []))) = .ok true ↔ ReportsTtl json v := by
  have hread : ∀ w : JsonValue, (w.asString json >>= fun ttl => pure (decide (ttl ≠ []))) =
      Except.ok true ↔ ∃ ttl, w.asString json = .ok ttl ∧ ttl ≠ [] := by
    intro w
    simp [bind_eq_ok, pure, Except.pure]
  let f : JsonValue → Except CppException Bool := fun w =>
    w.asString json >>= fun ttl => pure (decide (ttl ≠ []))
  have hget : v.get (str "TTL") (.string []) >>= f = .ok true ↔
      f (v.field (str "TTL")) = .ok true :=
    JsonValue.get_bind_eq_ok_field rfl nofun
  exact hget.trans (hread _)

/-- Both look into what is parsed, and take nothing else for an answer. -/
theorem readAnswer_true {f : JsonValue → Except CppException Bool} :
    (do
      if resp = [] then return false
      match ← json.parse resp with
      | none => pure false
      | some root => f root) = .ok true ↔
      resp ≠ [] ∧ ∃ root, json.parse resp = .ok (some root) ∧ f root = .ok true := by
  by_cases hresp : resp = []
  · simp [hresp, pure, Except.pure]
  · cases hparse : json.parse resp with
    | error e => simp [hresp, bind, Except.bind]
    | ok parsed =>
      cases parsed with
      | none => simp [hresp, bind, Except.bind, pure, Except.pure]
      | some root => simp [hresp, bind, Except.bind]

theorem httpLeaseKeepalive_true :
    httpLeaseKeepalive json resp = .ok true ↔
      resp ≠ [] ∧ ∃ root, json.parse resp = .ok (some root) ∧ ReportsTtl json root := by
  have hlength : ∀ ttl : Bytes, 0 < ttl.length ↔ ttl ≠ [] := fun _ => List.length_pos_iff
  simp only [httpLeaseKeepalive, hlength]
  refine readAnswer_true.trans (and_congr_right fun _ => exists_congr fun root =>
    and_congr_right fun _ => ?_)
  exact getTtl_iff

/-- The member `result` has a TTL; what has no members has no `result`. -/
theorem resultTtl_iff {root : JsonValue} :
    (root.index (str "result") >>= fun result => result.get (str "TTL") (.string []) >>= fun w =>
      w.asString json >>= fun ttl => pure (decide (ttl ≠ []))) = .ok true ↔
      ReportsTtl json (root.field (str "result")) := by
  let f : JsonValue → Except CppException Bool := fun result =>
    result.get (str "TTL") (.string []) >>= fun w => w.asString json >>= fun ttl =>
      pure (decide (ttl ≠ []))
  have hindex : root.index (str "result") >>= f = .ok true ↔
      f (root.field (str "result")) = .ok true :=
    JsonValue.get_bind_eq_ok_field rfl (mt getTtl_iff.mp not_reportsTtl_null)
  exact hindex.trans getTtl_iff

theorem leaseRefreshed_true : leaseRefreshed json resp = .ok true ↔ Renewed json resp := by
  refine readAnswer_true.trans (and_congr_right fun _ => exists_congr fun root =>
    and_congr_right fun _ => ?_)
  exact resultTtl_iff

/-- In an answer of etcd's nothing stands beside the `result`. -/
theorem FromEtcd.keepalive_false (h : FromEtcd json resp) :
    httpLeaseKeepalive json resp = .ok false := by
  obtain ⟨hresp, members, hparse, hnames⟩ := h
  have hnone : members.lookup (str "TTL") = none := by
    rw [List.lookup_eq_none_iff]
    intro member hmember
    cases hnames member hmember with
    | inl h => rw [h]; decide
    | inr h => rw [h]; decide
  have hget : (JsonValue.object members).get (str "TTL") (.string []) = .ok (.string []) := by
    simp [JsonValue.get, JsonValue.find, hnone]
  simp [httpLeaseKeepalive, hresp, hparse, hget, JsonValue.asString]

end Readers

section Agreement
variable {json : Jsoncpp} {resp : Bytes}

/-- A leader stays one if `refreshLease` finds a TTL, and steps down otherwise. -/
theorem keepsLeadership_iff {ι : Type} [DecidableEq ι] {s : Election ι} {i : ι}
    (hleader : (s.electors i).is_leader = true) (hdoing : (s.electors i).doing = .refreshing) :
    s.KeepsLeadership json i resp ↔ Renewed json resp := by
  rw [← leaseRefreshed_true]
  unfold Election.KeepsLeadership Election.refreshedLease
  cases halive : leaseRefreshed json resp with
  | error e => simp [bind, Except.bind]
  | ok alive =>
    cases alive with
    | true => simp [bind, Except.bind, pure, Except.pure, Election.resume, hdoing, Election.put,
        hleader]
    | false =>
      simp only [bind, Except.bind, pure, Except.pure, Election.resume, hdoing]
      by_cases hlease : 0 ≤ (s.electors i).lease_id
      · simp [Election.becomeFollower, hlease, Election.post, Election.put]
      · simp [Election.becomeFollower, hlease, Election.put]

/-- What is found to be alive is left alone. -/
theorem tryHeartbeat_renewed {γ : Type} (s : EtcdRegistryStore γ) (etcd : Etcd)
    (calls : RegisterCalls json) (method : Bytes) (host : HostInfo)
    (hlease : 0 ≤ (s.keysToLease.lookup (keyFor method host)).getD (-1))
    (halive : httpLeaseKeepalive json resp = .ok true) :
    s.tryHeartbeat json etcd resp calls method host = (.ok true, s, etcd) := by
  simp only [EtcdRegistryStore.tryHeartbeat, if_neg (not_lt.mpr hlease), halive]

/-- Where every call is answered, it is the heartbeat of `EtcdRegistryStore`. -/
theorem tryHeartbeat_answered {γ : Type} [DecidableEq γ] (s : EtcdRegistryStore γ) (etcd : Etcd)
    {calls : RegisterCalls json} (method : Bytes) (host : HostInfo) {alive : Bool}
    (halive : httpLeaseKeepalive json resp = .ok alive)
    (hgrant : httpLeaseGrant json calls.grantReply = .ok etcd.leaseGrant.1)
    (hgranted : etcd.granting calls = etcd.leaseGrant.2) (hput : calls.Put) :
    s.tryHeartbeat json etcd resp calls method host =
      (.ok (s.heartbeat etcd method host alive).1, (s.heartbeat etcd method host alive).2) := by
  simp only [EtcdRegistryStore.tryHeartbeat, EtcdRegistryStore.heartbeat, halive]
  split
  · rfl
  · cases alive with
    | true => rfl
    | false =>
      have hnew : ¬etcd.leaseGrant.1 < 0 := by
        simp only [Etcd.leaseGrant]
        omega
      simp only [hgrant, if_neg hnew, hput.1, hput.2, if_true, if_false, hgranted]
      rfl

/-- A heartbeat whose keepalive is not found to renew the lease makes a lease, and
records that or none. -/
theorem tryHeartbeat_grants {γ : Type} {s : EtcdRegistryStore γ} {etcd : Etcd}
    {calls : RegisterCalls json} {method : Bytes} {host : HostInfo} {lease : Int}
    (hlease : 0 ≤ (s.keysToLease.lookup (keyFor method host)).getD (-1))
    (hdead : httpLeaseKeepalive json resp = .ok false) (hgrant : calls.lease = some lease) :
    let done := (s.tryHeartbeat json etcd resp calls method host).2
    0 ≤ (done.1.keysToLease.lookup (keyFor method host)).getD (-1) ∧
      done.2.granted = etcd.granted + 1 := by
  have hgranted : (etcd.granting calls).granted = etcd.granted + 1 := by
    simp [Etcd.granting, hgrant, Etcd.grant]
  simp only [EtcdRegistryStore.tryHeartbeat, if_neg (not_lt.mpr hlease), hdead]
  cases httpLeaseGrant json calls.grantReply with
  | error e => exact ⟨hlease, hgranted⟩
  | ok new =>
    by_cases hneg : new < 0
    · simp only [if_pos hneg]
      exact ⟨hlease, hgranted⟩
    · simp only [if_neg hneg]
      have hput : (if calls.putDone then
          (etcd.granting calls).put (keyFor method host)
            (valueFor host ((s.keysToLoad.lookup (keyFor method host)).getD 0)) new
          else etcd.granting calls).granted = etcd.granted + 1 := by
        split
        · rw [Etcd.granted_put, hgranted]
        · exact hgranted
      split
      · exact ⟨hlease, hput⟩
      · refine ⟨?_, hput⟩
        simp only [AList.lookup_insert, Option.getD_some]
        omega

/-- The heartbeats of one provider, each with the answers that its calls get. -/
def EtcdRegistryStore.heartbeats {γ : Type} (method : Bytes) (host : HostInfo)
    (s : EtcdRegistryStore γ) (etcd : Etcd) :
    List (Bytes × RegisterCalls json) → EtcdRegistryStore γ × Etcd
  | [] => (s, etcd)
  | (resp, calls) :: beats =>
    let done := (s.tryHeartbeat json etcd resp calls method host).2
    heartbeats method host done.1 done.2 beats

/-- Against an etcd that grants what it is asked for, every heartbeat costs a lease,
whether or not its lease lives on. -/
theorem heartbeats_grant {γ : Type} {s : EtcdRegistryStore γ} {etcd : Etcd} {method : Bytes}
    {host : HostInfo} (beats : List (Bytes × RegisterCalls json))
    (hlease : 0 ≤ (s.keysToLease.lookup (keyFor method host)).getD (-1))
    (hetcd : ∀ beat ∈ beats, FromEtcd json beat.1 ∧ beat.2.lease.isSome = true) :
    (EtcdRegistryStore.heartbeats method host s etcd beats).2.granted =
      etcd.granted + beats.length := by
  induction beats generalizing s etcd with
  | nil => rfl
  | cons beat beats ih =>
    obtain ⟨resp, calls⟩ := beat
    obtain ⟨hfrom, hsome⟩ := hetcd (resp, calls) (List.mem_cons_self ..)
    obtain ⟨lease, hgrant⟩ := Option.isSome_iff_exists.mp hsome
    obtain ⟨hnext, hgranted⟩ :=
      @tryHeartbeat_grants _ _ _ s etcd _ method host _ hlease hfrom.keepalive_false hgrant
    have hrest : ∀ beat ∈ beats, FromEtcd json beat.1 ∧ beat.2.lease.isSome = true :=
      fun beat hbeat => hetcd beat (List.mem_cons_of_mem _ hbeat)
    rw [EtcdRegistryStore.heartbeats, ih hnext hrest, hgranted, List.length_cons]
    omega

end Agreement

/-- The readers agree exactly if a TTL stands at the top of the answer where one stands in
its `result`; and so, on what etcd writes, exactly if the answer does not renew the lease. -/
theorem keepalive_readers_iff (json : Jsoncpp) (resp : Bytes) :
    (KeepalivesAgree json resp ↔ KeepaliveFits json resp) ∧
      (FromEtcd json resp → (KeepalivesAgree json resp ↔ ¬Renewed json resp)) := by
  have hiff : KeepalivesAgree json resp ↔
      (httpLeaseKeepalive json resp = .ok true ↔ Renewed json resp) := by
    constructor
    · exact KeepalivesAgree.reported
    · intro hreported
      refine ⟨fun s i hleader hdoing => ?_, hreported, fun hrenewed γ s etcd calls method host
        hlease => ?_⟩
      · rw [keepsLeadership_iff hleader hdoing, hreported]
      · exact tryHeartbeat_renewed s etcd calls method host hlease (hreported.mpr hrenewed)
  constructor
  · rw [hiff, httpLeaseKeepalive_true]
    constructor
    · intro h hresp root hparse
      have hsome : ∀ P : JsonValue → Prop,
          (resp ≠ [] ∧ ∃ r, json.parse resp = .ok (some r) ∧ P r) ↔ P root := by
        intro P
        simp [hresp, hparse]
      exact (hsome (ReportsTtl json)).symm.trans (h.trans
        (hsome (fun r => ReportsTtl json (r.field (str "result")))))
    · intro h
      constructor
      · intro hfound
        obtain ⟨hresp, root, hparse, httl⟩ := hfound
        exact ⟨hresp, root, hparse, (h hresp root hparse).mp httl⟩
      · intro hfound
        obtain ⟨hresp, root, hparse, httl⟩ := hfound
        exact ⟨hresp, root, hparse, (h hresp root hparse).mpr httl⟩
  · intro hetcd
    rw [hiff, hetcd.keepalive_false]
    simp

/-- etcd's answer for a lease that lives on for 15 s. -/
def renewedText : Bytes :=
  str "\x7b\"result\":\x7b\"ID\":\"7587869\",\"TTL\":\"15\"\x7d\x7d"

def readsRenewed : Jsoncpp where
  realText _ := []
  parse text :=
    if text = renewedText then
      .ok (some (.object [(str "result", .object [(str "ID", .string (str "7587869")),
        (str "TTL", .string (str "15"))])]))
    else .ok none
  write _ := none

/-- The elector finds the lease alive, the store does not. -/
theorem keepalive_readers_differ :
    FromEtcd readsRenewed renewedText ∧ ¬KeepalivesAgree readsRenewed renewedText := by
  have hnonempty : renewedText ≠ [] := by decide
  have hparse : readsRenewed.parse renewedText = .ok (some (.object [(str "result",
      .object [(str "ID", .string (str "7587869")), (str "TTL", .string (str "15"))])])) := by
    simp [readsRenewed]
  have hread : httpLeaseKeepalive readsRenewed renewedText = .ok false := by
    simp only [httpLeaseKeepalive, if_neg hnonempty, hparse]
    rfl
  have hrenewed : Renewed readsRenewed renewedText :=
    ⟨hnonempty, _, hparse, str "15", rfl, by decide⟩
  refine ⟨⟨hnonempty, _, hparse, by simp⟩, fun h => ?_⟩
  have htrue := h.reported.mpr hrenewed
  rw [hread] at htrue
  exact absurd htrue (by simp)

end LyqtRpc
