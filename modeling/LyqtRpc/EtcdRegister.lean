import LyqtRpc.Lib.StepRun
import LyqtRpc.JsonMessage
import LyqtRpc.RegistryBackends

/-!
A REGISTER on its way through `PwithDManager`, `registerInstance` and the grant and
put calls to etcd, each of which may fail in any way.
-/

set_option autoImplicit false

namespace LyqtRpc

open StepRun

/-- `std::stoll`: what follows the digits is not looked at. -/
def stoll (s : Bytes) : Except CppException Int :=
  let s := s.dropWhile isSpace
  let (negative, s) :=
    match s with
    | 45 :: rest => (true, rest)
    | 43 :: rest => (false, rest)
    | s => (false, s)
  let digits := s.takeWhile isDigit
  let value : Int := if negative then -(digitsValue digits : Int) else digitsValue digits
  if digits = [] then .error (.other (str "invalid_argument"))
  else if -2 ^ 63 ≤ value ∧ value < 2 ^ 63 then .ok value
  else .error (.other (str "out_of_range"))

/-- `http_lease_grant` after `curl_post` has returned `resp`; -1 where there is no id. -/
def httpLeaseGrant (json : Jsoncpp) (resp : Bytes) : Except CppException Int := do
  if resp = [] then return -1
  match ← json.parse resp with
  | none => pure (-1)
  | some root =>
    let idStr ← (← root.get (str "ID") (.string [])).asString json
    if idStr = [] then pure (-1) else stoll idStr

def Etcd.grant (etcd : Etcd) (lease : Int) : Etcd :=
  { etcd with leases := lease :: etcd.leases, granted := etcd.granted + 1 }

/-- The two calls of a registration: what `curl_post` returns, and what etcd has done.
An id in an answer is that of the lease that etcd has made. -/
structure RegisterCalls (json : Jsoncpp) where
  grantReply : Bytes
  lease : Option Int
  putReply : Bytes
  putDone : Bool
  honest : ∀ id, httpLeaseGrant json grantReply = .ok id → id = -1 ∨ lease = some id ∧ 0 < id

namespace RegisterCalls
variable {json : Jsoncpp}

def Granted (calls : RegisterCalls json) : Prop :=
  ∃ id, httpLeaseGrant json calls.grantReply = .ok id ∧ id ≠ -1

/-- `http_put_with_lease` returns true, and is right. -/
def Put (calls : RegisterCalls json) : Prop := calls.putDone = true ∧ calls.putReply ≠ []

end RegisterCalls

section Register
variable {γ : Type} [DecidableEq γ] (json : Jsoncpp)

/-- `registerInstance`; an exception leaves it before anything is recorded. -/
def EtcdRegistryStore.tryRegisterInstance (s : EtcdRegistryStore γ) (etcd : Etcd)
    (calls : RegisterCalls json) (conn : γ) (host : HostInfo) (method : Bytes) (load : Int32) :
    Except CppException Unit × EtcdRegistryStore γ × Etcd :=
  let etcd :=
    match calls.lease with
    | some lease => etcd.grant lease
    | none => etcd
  match httpLeaseGrant json calls.grantReply with
  | .error e => (.error e, s, etcd)
  | .ok lease =>
    let key := keyFor method host
    -- what `http_put_with_lease` returns is not looked at
    (.ok (), s.record conn key load lease,
      if calls.putDone then etcd.put key (valueFor host load) lease else etcd)

/-- What a REGISTER reads of its request. -/
def registerFields (data : JsonValue) : Except CppException (Bytes × HostInfo × Int32) := do
  let _ ← JsonRequest.traceId json data
  let method ← JsonRequest.method json data
  let host ← ServiceRequest.host json data
  let load ← ServiceRequest.load data
  pure (method, host, load)

def registryResponse (req : BaseMessage JsonValue) : BaseMessage JsonValue where
  rid := req.rid
  msgType := .named .RSP_SERVICE
  body := ServiceResponse.setOptype (JsonResponse.setRcode .null (.named .SUCCESS))
    (.named .REGISTER)

/-- What a REGISTER did; `online` are the ONLINE broadcasts. -/
structure RegisterRun (γ : Type) where
  store : EtcdRegistryStore γ
  etcd : Etcd
  online : List (Bytes × HostInfo) := []
  sent : List (BaseMessage JsonValue) := []
  escaped : Option CppException := none

/-- `PwithDManager::onserviceRequest`, of a REGISTER. -/
def onRegister (s : EtcdRegistryStore γ) (etcd : Etcd) (calls : RegisterCalls json) (conn : γ)
    (req : BaseMessage JsonValue) : RegisterRun γ :=
  match registerFields json req.body with
  | .error e => { store := s, etcd, escaped := some e }
  | .ok (method, host, load) =>
    match s.tryRegisterInstance json etcd calls conn host method load with
    | (.error e, store, etcd) => { store, etcd, escaped := some e }
    | (.ok (), store, etcd) =>
      { store, etcd, online := [(method, host)], sent := [registryResponse req] }

end Register

/-- A request that etcd executes for any instance, or a lease that runs out. -/
inductive EtcdWrite where
  | grant (lease : Int)
  | put (method : Bytes) (host : HostInfo) (load : Int32) (lease : Int)
  | deleteRange (method : Bytes) (host : HostInfo)
  | expire (lease : Int)

def Etcd.write (etcd : Etcd) : EtcdWrite → Etcd
  | .grant lease => etcd.grant lease
  | .put method host load lease => etcd.put (keyFor method host) (valueFor host load) lease
  | .deleteRange method host => etcd.deleteRange (keyFor method host)
  | .expire lease => etcd.expire lease

/-- It neither writes nor deletes the key, and is not the end of the lease. -/
def EtcdWrite.Spares (key : Bytes) (lease : Int) : EtcdWrite → Prop
  | .grant _ => True
  | .put method host _ _ => keyFor method host ≠ key
  | .deleteRange method host => keyFor method host ≠ key
  | .expire l => l ≠ lease

/-- The key is there under a live lease, and the host is found until that ends. -/
def Etcd.Keeps (etcd : Etcd) (method : Bytes) (host : HostInfo) (load : Int32) : Prop :=
  ∃ lease, etcd.kvs.lookup (keyFor method host) = some (valueFor host load, lease) ∧
    lease ∈ etcd.leases ∧
    ∀ writes : List EtcdWrite, (∀ w ∈ writes, w.Spares (keyFor method host) lease) →
      ∃ hosts, EtcdRegistryStore.methodHost (writes.foldl Etcd.write etcd) method = .ok hosts ∧
        host ∈ hosts

def RegisterRun.Succeeded {γ : Type} (run : RegisterRun γ) : Prop :=
  ∃ resp ∈ run.sent, JsonResponse.rcode resp.body = .ok (.named .SUCCESS)

/-- SUCCESS and ONLINE are for what is in etcd; and a failure leaves nothing behind. -/
structure RegisterTruthful {γ : Type} {json : Jsoncpp} (s : EtcdRegistryStore γ)
    (calls : RegisterCalls json) (req : BaseMessage JsonValue) (run : RegisterRun γ) : Prop where
  success : ∀ method host load, registerFields json req.body = .ok (method, host, load) →
    run.Succeeded ∨ run.online ≠ [] → run.etcd.Keeps method host load
  failed : ¬calls.Granted ∨ ¬calls.Put →
    run.store = s ∧ run.online = [] ∧ ¬run.Succeeded

/-- Unless an exception leaves it first, the registration has its lease and its put,
and the host's ip is one that can be read back from the key. -/
def RegisterFits {json : Jsoncpp} (calls : RegisterCalls json) (req : BaseMessage JsonValue) :
    Prop :=
  ∀ method host load, registerFields json req.body = .ok (method, host, load) →
    Returns (httpLeaseGrant json calls.grantReply) →
      calls.Granted ∧ calls.Put ∧ host.ip ≠ [] ∧ 47 ∉ host.ip

/-- A registry instance and the etcd that it shares. -/
structure EtcdRegistry (γ : Type) where
  store : EtcdRegistryStore γ := {}
  etcd : Etcd := {}

inductive EtcdRegistryAct (json : Jsoncpp) (γ : Type) where
  | register (calls : RegisterCalls json) (conn : γ) (req : BaseMessage JsonValue)
  | call (call : StoreCall γ) (keepalive : Bool)
  | other (write : EtcdWrite)

def etcdRegistryStep {γ : Type} [DecidableEq γ] (json : Jsoncpp) (s : EtcdRegistry γ) :
    EtcdRegistryAct json γ → Option (EtcdRegistry γ)
  | .register calls conn req =>
    let run := onRegister json s.store s.etcd calls conn req
    some { store := run.store, etcd := run.etcd }
  | .call call keepalive =>
    let (_, store, etcd) := s.store.serve json s.etcd keepalive call
    some { store, etcd }
  | .other write => some { s with etcd := s.etcd.write write }

/-- Every key is one of a method and a host. -/
def Etcd.Keyed (etcd : Etcd) : Prop :=
  ∀ key, (etcd.kvs.lookup key).isSome = true → ∃ method host, key = keyFor method host

section Keyed
variable {etcd : Etcd} {method : Bytes} {host : HostInfo} {load : Int32} {lease : Int}

theorem Etcd.Keyed.put (h : etcd.Keyed) (method : Bytes) (host : HostInfo) (value : Bytes)
    (lease : Int) : (etcd.put (keyFor method host) value lease).Keyed := by
  intro key hkey
  unfold Etcd.put at hkey
  split at hkey
  · rw [AssocTable.lookup_insert_ite] at hkey
    split at hkey
    · rename_i heq
      exact ⟨method, host, heq⟩
    · exact h key hkey
  · exact h key hkey

theorem Etcd.Keyed.deleteRange (h : etcd.Keyed) (key : Bytes) : (etcd.deleteRange key).Keyed := by
  intro other hother
  rw [Etcd.deleteRange, AssocTable.lookup_erase_ite] at hother
  split at hother
  · simp at hother
  · exact h other hother

theorem Etcd.Keyed.expire (h : etcd.Keyed) (lease : Int) : (etcd.expire lease).Keyed := by
  intro key hkey
  rw [EtcdRegistryStore.lookup_expire] at hkey
  split at hkey
  · simp at hkey
  · exact h key hkey

theorem Etcd.Keyed.write (h : etcd.Keyed) (w : EtcdWrite) : (etcd.write w).Keyed := by
  cases w with
  | grant lease => exact h
  | put method host load lease => exact h.put method host (valueFor host load) lease
  | deleteRange method host => exact h.deleteRange (keyFor method host)
  | expire lease => exact h.expire lease

/-- A write that spares the key leaves it as it is. -/
theorem Etcd.lookup_write {key value : Bytes} {w : EtcdWrite}
    (hlookup : etcd.kvs.lookup key = some (value, lease)) (hspares : w.Spares key lease) :
    (etcd.write w).kvs.lookup key = some (value, lease) := by
  cases w with
  | grant l => exact hlookup
  | put method host load l =>
    have hne : key ≠ keyFor method host := Ne.symm hspares
    simp only [Etcd.write, Etcd.put]
    split
    · rw [AssocTable.lookup_insert_ite, if_neg hne, hlookup]
    · exact hlookup
  | deleteRange method host =>
    have hne : key ≠ keyFor method host := Ne.symm hspares
    rw [Etcd.write, Etcd.deleteRange, AssocTable.lookup_erase_ite, if_neg hne, hlookup]
  | expire l =>
    have hne : lease ≠ l := Ne.symm hspares
    rw [Etcd.write, EtcdRegistryStore.lookup_expire, hlookup]
    simp [hne]

/-- All that is read from a key of a method and a host is a host without a slash. -/
theorem hostFromKey_of_keyed {key : Bytes} (h : ∃ method host, key = keyFor method host) :
    ∃ host, hostFromKey key = .ok host ∧ 47 ∉ host.ip := by
  obtain ⟨method, host, rfl⟩ := h
  obtain ⟨method', host', heq, hslash⟩ := keyFor_normal method host
  exact ⟨host', by rw [heq, hostFromKey_keyFor hslash], hslash⟩

theorem Etcd.Keyed.methodHost (h : etcd.Keyed) (method : Bytes) :
    ∃ hosts, EtcdRegistryStore.methodHost etcd method = .ok hosts ∧
      ∀ host, host ∈ hosts ↔ host.ip ≠ [] ∧
        ∃ kv ∈ etcd.httpGetPrefix (methodPrefix method), hostFromKey kv.1 = .ok host := by
  apply hostsOfKeys_spec
  intro kv hkv
  obtain ⟨_, lease, hlookup⟩ := Etcd.mem_range.mp hkv
  obtain ⟨host, hhost, _⟩ := hostFromKey_of_keyed (h kv.1 (by rw [hlookup]; rfl))
  exact ⟨host, hhost⟩

/-- Only hosts with a name and without a slash are listed. -/
theorem Etcd.Keyed.listed (h : etcd.Keyed) {hosts : List HostInfo}
    (hrun : EtcdRegistryStore.methodHost etcd method = .ok hosts) (hmem : host ∈ hosts) :
    host.ip ≠ [] ∧ 47 ∉ host.ip := by
  obtain ⟨hosts', hrun', hspec⟩ := h.methodHost method
  rw [hrun, Except.ok.injEq] at hrun'
  obtain ⟨hnamed, kv, hkv, hhost⟩ := (hspec host).mp (hrun' ▸ hmem)
  obtain ⟨_, lease, hlookup⟩ := Etcd.mem_range.mp hkv
  obtain ⟨host', hhost', hslash⟩ := hostFromKey_of_keyed (h kv.1 (by rw [hlookup]; rfl))
  rw [hhost, Except.ok.injEq] at hhost'
  exact ⟨hnamed, hhost' ▸ hslash⟩

/-- A host whose key is there is listed. -/
theorem Etcd.Keyed.lists (h : etcd.Keyed) {entry : Bytes × Int}
    (hlookup : etcd.kvs.lookup (keyFor method host) = some entry) (hnamed : host.ip ≠ [])
    (hslash : 47 ∉ host.ip) :
    ∃ hosts, EtcdRegistryStore.methodHost etcd method = .ok hosts ∧ host ∈ hosts := by
  obtain ⟨hosts, hrun, hspec⟩ := h.methodHost method
  refine ⟨hosts, hrun, (hspec host).mpr ⟨hnamed, (keyFor method host, entry.1), ?_,
    hostFromKey_keyFor hslash⟩⟩
  apply Etcd.mem_range.mpr
  refine ⟨?_, entry.2, hlookup⟩
  rw [inRange_methodPrefix, List.isPrefixOf_iff_prefix]
  exact ⟨host.ip ++ 58 :: intText host.port, by simp [methodPrefix, keyFor]⟩

/-- Until its lease ends, whatever else is written. -/
theorem Etcd.Keyed.keeps (h : etcd.Keyed)
    (hlookup : etcd.kvs.lookup (keyFor method host) = some (valueFor host load, lease))
    (hlease : lease ∈ etcd.leases) (hnamed : host.ip ≠ []) (hslash : 47 ∉ host.ip) :
    etcd.Keeps method host load := by
  refine ⟨lease, hlookup, hlease, fun writes hspares => ?_⟩
  clear hlease
  induction writes generalizing etcd with
  | nil => exact h.lists hlookup hnamed hslash
  | cons w writes ih =>
    have hw := hspares w (List.mem_cons_self ..)
    exact ih (h.write w) (Etcd.lookup_write hlookup hw)
      (fun w' hw' => hspares w' (List.mem_cons_of_mem _ hw'))

end Keyed

section Registry
variable {γ : Type} [DecidableEq γ] {json : Jsoncpp} {s : EtcdRegistryStore γ} {etcd : Etcd}
  {calls : RegisterCalls json} {conn : γ} {req : BaseMessage JsonValue} {method : Bytes}
  {host : HostInfo} {load : Int32} {id : Int}

/-- etcd after the grant. -/
def Etcd.granting (etcd : Etcd) (calls : RegisterCalls json) : Etcd :=
  match calls.lease with
  | some lease => etcd.grant lease
  | none => etcd

theorem onRegister_unread {e : CppException} (h : registerFields json req.body = .error e) :
    onRegister json s etcd calls conn req = { store := s, etcd, escaped := some e } := by
  simp only [onRegister, h]

theorem onRegister_escaped {e : CppException}
    (h : registerFields json req.body = .ok (method, host, load))
    (hgrant : httpLeaseGrant json calls.grantReply = .error e) :
    onRegister json s etcd calls conn req =
      { store := s, etcd := etcd.granting calls, escaped := some e } := by
  simp only [onRegister, h, EtcdRegistryStore.tryRegisterInstance, hgrant, Etcd.granting]

theorem onRegister_done (h : registerFields json req.body = .ok (method, host, load))
    (hgrant : httpLeaseGrant json calls.grantReply = .ok id) :
    onRegister json s etcd calls conn req =
      { store := s.record conn (keyFor method host) load id
        etcd :=
          if calls.putDone then
            (etcd.granting calls).put (keyFor method host) (valueFor host load) id
          else etcd.granting calls
        online := [(method, host)]
        sent := [registryResponse req] } := by
  simp only [onRegister, h, EtcdRegistryStore.tryRegisterInstance, hgrant, Etcd.granting]

theorem registryResponse_rcode :
    JsonResponse.rcode (registryResponse req).body = .ok (.named .SUCCESS) := by
  have hne : KEY_RCODE ≠ KEY_OPTYPE := by decide
  simp [registryResponse, ServiceResponse.setOptype, JsonResponse.rcode, JsonResponse.setRcode,
    JsonValue.index_eq, JsonValue.field_set_of_ne hne]

theorem Etcd.Keyed.granting (h : etcd.Keyed) (calls : RegisterCalls json) :
    (etcd.granting calls).Keyed := by
  unfold Etcd.granting
  split
  · exact h
  · exact h

theorem Etcd.Keyed.onRegister (h : etcd.Keyed) :
    (onRegister json s etcd calls conn req).etcd.Keyed := by
  cases hfields : registerFields json req.body with
  | error e =>
    rw [onRegister_unread hfields]
    exact h
  | ok fields =>
    obtain ⟨method, host, load⟩ := fields
    cases hgrant : httpLeaseGrant json calls.grantReply with
    | error e =>
      rw [onRegister_escaped hfields hgrant]
      exact h.granting calls
    | ok id =>
      rw [onRegister_done hfields hgrant]
      show Etcd.Keyed (if _ then _ else _)
      split
      · exact (h.granting calls).put method host _ id
      · exact h.granting calls

theorem Etcd.Keyed.deleteKeys (h : etcd.Keyed) (keys : List Bytes) :
    (EtcdRegistryStore.deleteKeys etcd keys).2.Keyed := by
  induction keys generalizing etcd with
  | nil => exact h
  | cons key keys ih =>
    simp only [EtcdRegistryStore.deleteKeys]
    split
    · exact h
    · exact ih (h.deleteRange key)

theorem Etcd.Keyed.serve (h : etcd.Keyed) (keepalive : Bool) (call : StoreCall γ) :
    (s.serve json etcd keepalive call).2.2.Keyed := by
  have hgrant : etcd.leaseGrant.2.Keyed := h
  cases call with
  | registerInstance conn host method load => exact hgrant.put method host _ _
  | methodHost method => exact h
  | methodHostDetails method => exact h
  | reportLoad method host load =>
    simp only [EtcdRegistryStore.serve, EtcdRegistryStore.reportLoad]
    split
    · exact h
    · exact h.put method host _ _
  | heartbeat method host =>
    simp only [EtcdRegistryStore.serve, EtcdRegistryStore.heartbeat]
    split
    · exact h
    · split
      · exact h
      · exact hgrant.put method host _ _
  | disconnectProvider conn => exact h.deleteKeys _

theorem EtcdRegistry.keyed {r t : EtcdRegistry γ} {a : EtcdRegistryAct json γ}
    (h : r.etcd.Keyed) (hstep : etcdRegistryStep json r a = some t) : t.etcd.Keyed := by
  cases a with
  | register calls conn req =>
    simp only [etcdRegistryStep, Option.some.injEq] at hstep
    exact hstep ▸ h.onRegister
  | call call keepalive =>
    simp only [etcdRegistryStep, Option.some.injEq] at hstep
    exact hstep ▸ h.serve keepalive call
  | other w =>
    simp only [etcdRegistryStep, Option.some.injEq] at hstep
    exact hstep ▸ h.write w

omit [DecidableEq γ] in
/-- Where nothing is recorded and nothing is told, nothing is wrong. -/
theorem RegisterTruthful.of_silent {run : RegisterRun γ} (hstore : run.store = s)
    (honline : run.online = []) (hsent : run.sent = []) : RegisterTruthful s calls req run := by
  have hnot : ¬run.Succeeded := by simp [RegisterRun.Succeeded, hsent]
  constructor
  · intro method host load _ htold
    cases htold with
    | inl hsucceeded => exact absurd hsucceeded hnot
    | inr hne => exact absurd honline hne
  · intro _
    exact ⟨hstore, honline, hnot⟩

/-- A REGISTER that does not escape is truthful when it fits, and only then. -/
theorem registerTruthful_done_iff (hkeyed : etcd.Keyed)
    (h : registerFields json req.body = .ok (method, host, load))
    (hgrant : httpLeaseGrant json calls.grantReply = .ok id) :
    RegisterTruthful s calls req (onRegister json s etcd calls conn req) ↔
      calls.Granted ∧ calls.Put ∧ host.ip ≠ [] ∧ 47 ∉ host.ip := by
  have hsucceeded : (onRegister json s etcd calls conn req).Succeeded := by
    rw [onRegister_done h hgrant]
    exact ⟨registryResponse req, List.mem_singleton.mpr rfl, registryResponse_rcode⟩
  constructor
  · intro htruth
    have hgranted : calls.Granted ∧ calls.Put := by
      by_contra hnot
      exact (htruth.failed (not_and_or.mp hnot)).2.2 hsucceeded
    obtain ⟨lease, _, _, hlisted⟩ := htruth.success method host load h (Or.inl hsucceeded)
    obtain ⟨hosts, hrun, hmem⟩ := hlisted [] (by simp)
    exact ⟨hgranted.1, hgranted.2, hkeyed.onRegister.listed hrun hmem⟩
  · intro hfits
    obtain ⟨hgranted, hput, hnamed, hslash⟩ := hfits
    constructor
    · intro method' host' load' hfields' _
      rw [h] at hfields'
      simp only [Except.ok.injEq, Prod.mk.injEq] at hfields'
      obtain ⟨rfl, rfl, rfl⟩ := hfields'
      have hk : (onRegister json s etcd calls conn req).etcd.Keyed := hkeyed.onRegister
      have hlease : calls.lease = some id := by
        obtain ⟨id', hid', hne⟩ := hgranted
        rw [hgrant, Except.ok.injEq] at hid'
        cases calls.honest id hgrant with
        | inl h => exact absurd (hid' ▸ h) hne
        | inr h => exact h.1
      have hlive : id ∈ (etcd.granting calls).leases := by
        simp [Etcd.granting, hlease, Etcd.grant]
      rw [onRegister_done h hgrant] at hk ⊢
      simp only [hput.1, if_true, Etcd.put, hlive] at hk ⊢
      exact hk.keeps (by simp) hlive hnamed hslash
    · intro hfailed
      exact absurd (And.intro hgranted hput) (not_and_or.mpr hfailed)

end Registry

/-- Success means registered, exactly if an exception leaves the registration first, or it
has its lease and its put and an ip that can be read back. -/
theorem register_truthful_iff {γ : Type} [DecidableEq γ] (json : Jsoncpp) {r : EtcdRegistry γ}
    (h : Reachable (etcdRegistryStep json) {} r) (calls : RegisterCalls json) (conn : γ)
    (req : BaseMessage JsonValue) :
    RegisterTruthful r.store calls req (onRegister json r.store r.etcd calls conn req) ↔
      RegisterFits calls req := by
  have hkeyed : r.etcd.Keyed := by
    refine Run.invariant (fun r : EtcdRegistry γ => r.etcd.Keyed) ?_ ?_ h
    · intro key hkey
      simp at hkey
    · intro t a u ht _ hstep
      exact EtcdRegistry.keyed ht hstep
  cases hfields : registerFields json req.body with
  | error e =>
    -- it escapes before etcd is asked
    rw [onRegister_unread hfields]
    constructor
    · intro _ method host load hread
      rw [hfields] at hread
      cases hread
    · intro _
      exact .of_silent rfl rfl rfl
  | ok fields =>
    obtain ⟨method, host, load⟩ := fields
    have hfits : RegisterFits calls req ↔ (Returns (httpLeaseGrant json calls.grantReply) →
        calls.Granted ∧ calls.Put ∧ host.ip ≠ [] ∧ 47 ∉ host.ip) := by
      constructor
      · intro hfits
        exact hfits method host load hfields
      · intro hfits method' host' load' hread
        rw [hfields] at hread
        cases hread
        exact hfits
    rw [hfits]
    cases hgrant : httpLeaseGrant json calls.grantReply with
    | error e =>
      rw [onRegister_escaped hfields hgrant]
      constructor
      · intro _ hreturns
        simp at hreturns
      · intro _
        exact .of_silent rfl rfl rfl
    | ok id =>
      rw [registerTruthful_done_iff hkeyed hfields hgrant]
      simp

/-- As etcd answers a grant. -/
def grantText : Bytes :=
  str "\x7b\"header\":\x7b\"cluster_id\":\"14841639068965178418\"," ++
    str "\"member_id\":\"10276657743932975437\",\"revision\":\"1\",\"raft_term\":\"2\"\x7d," ++
    str "\"ID\":\"7587869134684545799\",\"TTL\":\"15\"\x7d"

def grantValue : JsonValue :=
  .object [(str "ID", .string (str "7587869134684545799")), (str "TTL", .string (str "15")),
    (str "header", .object [(str "cluster_id", .string (str "14841639068965178418")),
      (str "member_id", .string (str "10276657743932975437")),
      (str "raft_term", .string (str "2")), (str "revision", .string (str "1"))])]

/-- The answer to the put. -/
def putText : Bytes :=
  str "\x7b\"header\":\x7b\"cluster_id\":\"14841639068965178418\"," ++
    str "\"member_id\":\"10276657743932975437\",\"revision\":\"2\",\"raft_term\":\"2\"\x7d\x7d"

/-- The library on the answer to a grant. -/
def grantLibrary : Jsoncpp where
  realText _ := []
  parse text := .ok (if text = grantText then some grantValue else none)
  write _ := none

/-- `add` at 10.0.0.1:80 -/
def addRequest : BaseMessage JsonValue where
  rid := str "1"
  msgType := .named .REQ_SERVICE
  body := ServiceRequest.setHost (ServiceRequest.setOptype
    (JsonRequest.setMethod (.object []) (str "add")) (.named .REGISTER)) ⟨str "10.0.0.1", 80⟩

/-- The grant and the put are answered. -/
def answeredCalls : RegisterCalls grantLibrary where
  grantReply := grantText
  lease := some 7587869134684545799
  putReply := putText
  putDone := true
  honest id h := by
    have hid : httpLeaseGrant grantLibrary grantText = .ok 7587869134684545799 := by
      decide +kernel
    rw [hid, Except.ok.injEq] at h
    exact Or.inr ⟨congrArg some h, h ▸ by decide⟩

theorem register_truthful_answered :
    RegisterTruthful {} answeredCalls addRequest
      (onRegister grantLibrary {} {} answeredCalls 1 addRequest) := by
  refine (register_truthful_iff grantLibrary (r := {}) .refl answeredCalls 1 addRequest).mpr ?_
  intro method host load hfields _
  have hread : registerFields grantLibrary addRequest.body =
      .ok (str "add", ⟨str "10.0.0.1", 80⟩, 0) := rfl
  rw [hread] at hfields
  cases hfields
  exact ⟨⟨7587869134684545799, by decide +kernel, by decide⟩, ⟨rfl, by decide⟩, by decide,
    by decide⟩

/-- etcd is not there. -/
def unansweredCalls : RegisterCalls Jsoncpp.unused where
  grantReply := []
  lease := none
  putReply := []
  putDone := false
  honest _ h := Or.inl (Except.ok.inj h).symm

/-- Success is answered, and the key and the lease -1 are recorded, with nothing in etcd. -/
theorem register_untruthful :
    (onRegister Jsoncpp.unused {} {} unansweredCalls 1 addRequest).Succeeded ∧
      ¬RegisterTruthful {} unansweredCalls addRequest
        (onRegister Jsoncpp.unused {} {} unansweredCalls 1 addRequest) := by
  have hsucceeded : (onRegister Jsoncpp.unused {} {} unansweredCalls 1 addRequest).Succeeded :=
    ⟨registryResponse addRequest, List.mem_singleton.mpr rfl, registryResponse_rcode⟩
  refine ⟨hsucceeded, fun h => ?_⟩
  have hnot : ¬unansweredCalls.Put := fun hput => absurd hput.1 (by decide)
  exact (h.failed (Or.inr hnot)).2.2 hsucceeded

end LyqtRpc
