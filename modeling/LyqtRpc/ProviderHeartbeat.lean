import LyqtRpc.EtcdSweep
import LyqtRpc.RegistryBackends

/-!
The provider side of `RpcServer`, and the registry that it sends its heartbeats
to. The registry may restart, its connections may close, its sweeps may find a
provider idle, and leases may run out in etcd, between any two requests of a
tick. The registry answers one request at a time; a lease that it was granted
outlives the put that follows (15 s, and 3 s at most a request).
-/

set_option autoImplicit false

namespace LyqtRpc

open StepRun

/-- `IRegistryStore` as one of its backends. -/
inductive IRegistryStore (γ : Type) where
  | memoryStore (s : ProviderManager γ)
  | etcdStore (s : EtcdRegistryStore γ) (etcd : Etcd)

namespace IRegistryStore
variable {γ : Type} [DecidableEq γ]

/-- What `RegistryServer` starts with, by the setting of `LCZ_ETCD`. -/
def make (useEtcd : Bool) : IRegistryStore γ :=
  if useEtcd then .etcdStore {} {} else .memoryStore {}

def serve (json : Jsoncpp) (r : IRegistryStore γ) (now : Int) (fresh : Nat) (keepalive : Bool)
    (call : StoreCall γ) : StoreReply × IRegistryStore γ :=
  match r with
  | .memoryStore s =>
    let (reply, s) := s.serve now fresh call
    (reply, .memoryStore s)
  | .etcdStore s etcd =>
    let (reply, s, etcd) := s.serve json etcd keepalive call
    (reply, .etcdStore s etcd)

def methodHost (r : IRegistryStore γ) (method : Bytes) : Except CppException (List HostInfo) :=
  match r with
  | .memoryStore s => .ok (s.methodHost method)
  | .etcdStore _ etcd => EtcdRegistryStore.methodHost etcd method

def sweepExpired (json : Jsoncpp) (decode : Bytes → Except CppException Bytes)
    (r : IRegistryStore γ) (startTime idle now : Int) (resp : Bytes) : IRegistryStore γ :=
  match r with
  | .memoryStore s => .memoryStore (s.sweepExpired idle now).2
  | .etcdStore s etcd => .etcdStore (s.sweepExpired json decode startTime idle now resp).2 etcd

/-- The registry starts anew; etcd has what it had. -/
def restart : IRegistryStore γ → IRegistryStore γ
  | .memoryStore _ => .memoryStore {}
  | .etcdStore _ etcd => .etcdStore {} etcd

def expire (lease : Int) : IRegistryStore γ → IRegistryStore γ
  | .memoryStore s => .memoryStore s
  | .etcdStore s etcd => .etcdStore s (etcd.expire lease)

/-- No object is at the address. -/
def free (r : IRegistryStore γ) (fresh : Nat) : Bool :=
  match r with
  | .memoryStore s => (s.objects fresh).isNone
  | .etcdStore .. => true

end IRegistryStore

structure RpcServer (γ : Type) where
  access_addr : HostInfo
  registered_methods : List Bytes := []
  registry : IRegistryStore γ
  /-- Methods whose REGISTER was answered, on their way to `registered_methods`. -/
  registering : List Bytes := []
  /-- The methods that the tick under way has still to send a heartbeat for. -/
  tick : List Bytes := []
  /-- Every request of the tick has been answered. -/
  answered : Bool := true

/-- `methodRegistry` and `heartbeatProvider` are requests that the registry answers, and
`heartbeatLost` one without an answer. A request of anyone else, an attempt to register
without an answer, and the end of a connection are calls. -/
inductive RpcServerAct (γ : Type) where
  | methodRegistry (method : Bytes) (conn : γ) (load : Int32) (now : Int) (fresh : Nat)
  | registerToRegistry (method : Bytes)
  | heartbeatTick
  | heartbeatProvider (now : Int) (keepalive : Bool)
  | heartbeatLost
  | call (call : StoreCall γ) (now : Int) (fresh : Nat) (keepalive : Bool)
  | sweep (startTime idle now : Int) (resp : Bytes)
  | restart
  | expire (lease : Int)

section Provider
variable {γ : Type} [DecidableEq γ]

/-- A tick goes through the methods that it has copied, one request after the other. An
answer of failure is counted and logged, and nothing else. -/
def rpcServerStep (json : Jsoncpp) (decode : Bytes → Except CppException Bytes)
    (s : RpcServer γ) : RpcServerAct γ → Option (RpcServer γ)
  | .methodRegistry method conn load now fresh =>
    if s.registry.free fresh then
      some { s with
        registering := method :: s.registering
        registry := (s.registry.serve json now fresh true
          (.registerInstance conn s.access_addr method load)).2 }
    else none
  | .registerToRegistry method =>
    if method ∈ s.registering then
      some { s with
        registering := s.registering.erase method
        registered_methods := s.registered_methods ++ [method] }
    else none
  | .heartbeatTick =>
    if s.tick = [] then some { s with tick := s.registered_methods, answered := true } else none
  | .heartbeatProvider now keepalive =>
    match s.tick with
    | [] => none
    | method :: rest =>
      some { s with
        registry := (s.registry.serve json now 0 keepalive (.heartbeat method s.access_addr)).2
        tick := rest }
  | .heartbeatLost =>
    match s.tick with
    | [] => none
    | _ :: rest => some { s with tick := rest, answered := false }
  | .call call now fresh keepalive =>
    if s.registry.free fresh then
      some { s with registry := (s.registry.serve json now fresh keepalive call).2 }
    else none
  | .sweep startTime idle now resp =>
    some { s with registry := s.registry.sweepExpired json decode startTime idle now resp }
  | .restart => some { s with registry := s.registry.restart }
  | .expire lease => some { s with registry := s.registry.expire lease }

/-- The host is discovered for the method. -/
def IRegistryStore.Lists (r : IRegistryStore γ) (method : Bytes) (host : HostInfo) : Prop :=
  ∃ hosts, r.methodHost method = .ok hosts ∧ host ∈ hosts

/-- With the answer to the last request of a tick that has had them all, every registered
method is discoverable at the address. -/
def TickRemakes (json : Jsoncpp) (decode : Bytes → Except CppException Bytes)
    (s : RpcServer γ) (a : RpcServerAct γ) : Prop :=
  ∀ now keepalive last t, a = .heartbeatProvider now keepalive → s.tick = [last] →
    s.answered = true → rpcServerStep json decode s a = some t →
    ∀ method ∈ t.registered_methods, t.registry.Lists method t.access_addr

/-- The instance has a lease for the key. -/
def EtcdRegistryStore.LeaseKnown (s : EtcdRegistryStore γ) (key : Bytes) : Prop :=
  0 ≤ (s.keysToLease.lookup key).getD (-1)

/-- A heartbeat puts the key again: its lease is known, and is not renewed. -/
def IRegistryStore.Remakes (r : IRegistryStore γ) (host : HostInfo) (keepalive : Bool)
    (method : Bytes) : Prop :=
  match r with
  | .memoryStore _ => False
  | .etcdStore s _ => s.LeaseKnown (keyFor method host) ∧ keepalive = false

/-- The key is one that a query for the method reads the host from. -/
def FoundUnder (method : Bytes) (host : HostInfo) (key : Bytes) : Prop :=
  host.ip ≠ [] ∧ (methodPrefix method).isPrefixOf key = true ∧ hostFromKey key = .ok host

/-- When the last request of a tick comes no registration is lost: every method is still
listed, or its key is the one that this heartbeat puts again. -/
def NothingLost (s : RpcServer γ) : RpcServerAct γ → Prop
  | .heartbeatProvider _ keepalive => ∀ last, s.tick = [last] → s.answered = true →
      ∀ method ∈ s.registered_methods,
        s.registry.Lists method s.access_addr ∨
          (s.registry.Remakes s.access_addr keepalive last ∧
            FoundUnder method s.access_addr (keyFor last s.access_addr))
  | _ => True

/-! What a heartbeat does to what is listed. -/

namespace ProviderManager
variable {s : ProviderManager γ}

omit [DecidableEq γ] in
theorem methodHost_update {p : Nat} {f : Provider γ → Provider γ}
    (hf : ∀ x, (f x).address = x.address) (method : Bytes) :
    (s.update p f).methodHost method = s.methodHost method := by
  refine List.filterMap_congr (fun q _ => ?_)
  simp only [update, Function.update_apply]
  split
  · rename_i hq
    rw [hq, Option.map_map]
    exact congrArg (fun g => (s.objects p).map g) (funext hf)
  · rfl

omit [DecidableEq γ] in
theorem methodHost_heartbeat (method' : Bytes) (host : HostInfo) (now : Int) (method : Bytes) :
    (s.updateProviderLastHeartbeat method' host now).2.methodHost method =
      s.methodHost method := by
  unfold updateProviderLastHeartbeat updateFirst
  split
  · rfl
  · exact methodHost_update (f := fun x => { x with lastheartbeat := now }) (fun _ => rfl) method

end ProviderManager

namespace EtcdRegistryStore
variable {s : EtcdRegistryStore γ} {etcd : Etcd} {method : Bytes} {host : HostInfo}

omit [DecidableEq γ] in
theorem heartbeat_spec (s : EtcdRegistryStore γ) (etcd : Etcd) (method : Bytes) (host : HostInfo)
    (keepalive : Bool) (key : Bytes) :
    (((s.heartbeat etcd method host keepalive).2.2.kvs.lookup key).isSome ↔
      (etcd.kvs.lookup key).isSome ∨
        (key = keyFor method host ∧ s.LeaseKnown key ∧ keepalive = false)) ∧
    ((s.heartbeat etcd method host keepalive).2.1.LeaseKnown key ↔ s.LeaseKnown key) := by
  unfold heartbeat
  dsimp only
  split
  · rename_i hunknown
    refine ⟨(or_iff_left ?_).symm, Iff.rfl⟩
    rintro ⟨rfl, hknown, _⟩
    exact absurd hknown (by simp only [LeaseKnown]; omega)
  · rename_i hknown
    cases keepalive with
    | true => exact ⟨(or_iff_left (fun h => nomatch h.2.2)).symm, Iff.rfl⟩
    | false =>
        have hgranted : etcd.leaseGrant.1 ∈ etcd.leaseGrant.2.leases := List.mem_cons_self ..
        rw [if_neg (by decide)]
        refine ⟨?_, ?_⟩
        · show (((etcd.leaseGrant.2.put _ _ etcd.leaseGrant.1).kvs.lookup key).isSome ↔ _)
          rw [Etcd.put, if_pos hgranted]
          show (((etcd.kvs.insert (keyFor method host) _).lookup key).isSome ↔ _)
          rw [AssocTable.lookup_insert_ite]
          split
          · rename_i hkey
            subst hkey
            refine iff_of_true rfl (.inr ⟨rfl, ?_, rfl⟩)
            simp only [LeaseKnown]
            omega
          · rename_i hkey
            exact (or_iff_left (fun h => hkey h.1)).symm
        · simp only [LeaseKnown, AssocTable.lookup_insert_ite]
          split
          · rename_i hkey
            subst hkey
            refine iff_of_true ?_ (by omega)
            show (0 : Int) ≤ etcd.granted + 1
            omega
          · rfl

end EtcdRegistryStore

/-- Keys are written by registries alone. -/
def IRegistryStore.OwnKeys : IRegistryStore γ → Prop
  | .memoryStore _ => True
  | .etcdStore _ etcd =>
    ∀ key, (etcd.kvs.lookup key).isSome → ∃ method host, key = keyFor method host

omit [DecidableEq γ] in
theorem lists_etcd {s : EtcdRegistryStore γ} {etcd : Etcd}
    (hown : (IRegistryStore.etcdStore s etcd).OwnKeys) (method : Bytes) (host : HostInfo) :
    (IRegistryStore.etcdStore s etcd).Lists method host ↔
      ∃ key, (etcd.kvs.lookup key).isSome ∧ FoundUnder method host key := by
  have hrange : ∀ key, (∃ value, (key, value) ∈ etcd.httpGetPrefix (methodPrefix method)) ↔
      (etcd.kvs.lookup key).isSome ∧ (methodPrefix method).isPrefixOf key = true := by
    intro key
    simp only [Etcd.httpGetPrefix, Etcd.mem_range, inRange_methodPrefix,
      Option.isSome_iff_exists, Prod.exists]
    tauto
  obtain ⟨hosts, hhosts, hmem⟩ := hostsOfKeys_spec
    (etcd.httpGetPrefix (methodPrefix method)) (fun kv hkv => by
      obtain ⟨hstored, _⟩ := (hrange kv.1).mp ⟨kv.2, hkv⟩
      obtain ⟨m, h, hkey⟩ := hown kv.1 hstored
      obtain ⟨m', h', hnormal, hip⟩ := keyFor_normal m h
      exact ⟨h', by rw [hkey, hnormal, hostFromKey_keyFor hip]⟩)
  have hlists : (IRegistryStore.etcdStore s etcd).Lists method host ↔ host ∈ hosts := by
    show (∃ l, hostsOfKeys _ = .ok l ∧ _) ↔ _
    rw [hhosts]
    simp
  rw [hlists, hmem]
  constructor
  · rintro ⟨hne, kv, hkv, hhost⟩
    obtain ⟨hstored, hstarts⟩ := (hrange kv.1).mp ⟨kv.2, hkv⟩
    exact ⟨kv.1, hstored, hne, hstarts, hhost⟩
  · rintro ⟨key, hstored, hne, hstarts, hhost⟩
    obtain ⟨value, hvalue⟩ := (hrange key).mpr ⟨hstored, hstarts⟩
    exact ⟨hne, (key, value), hvalue, hhost⟩

/-! Registries write keys of the one form. -/

/-- Every key there is has been there before, or has the form. -/
def OnlyAdds (etcd etcd' : Etcd) : Prop :=
  ∀ key, (etcd'.kvs.lookup key).isSome →
    (etcd.kvs.lookup key).isSome ∨ ∃ method host, key = keyFor method host

theorem onlyAdds_put (etcd etcd' : Etcd) (hkvs : etcd'.kvs = etcd.kvs) (method : Bytes)
    (host : HostInfo) (value : Bytes) (lease : Int) :
    OnlyAdds etcd (etcd'.put (keyFor method host) value lease) := by
  intro key hkey
  unfold Etcd.put at hkey
  split at hkey
  · rw [hkvs] at hkey
    rw [AssocTable.lookup_insert_ite] at hkey
    split at hkey
    · rename_i heq
      exact .inr ⟨method, host, heq⟩
    · exact .inl hkey
  · exact .inl (hkvs ▸ hkey)

theorem isSome_of_erase {β : Type} {m : AList (fun _ : Bytes => β)} {key k : Bytes}
    (h : ((m.erase key).lookup k).isSome) : (m.lookup k).isSome := by
  by_cases hk : k = key
  · rw [hk, AList.lookup_erase] at h
    cases h
  · rwa [AList.lookup_erase_ne hk] at h

theorem onlyAdds_deleteKeys (etcd : Etcd) (keys : List Bytes) :
    OnlyAdds etcd (EtcdRegistryStore.deleteKeys etcd keys).2 := by
  induction keys generalizing etcd with
  | nil => exact fun _ h => .inl h
  | cons first keys ih =>
      unfold EtcdRegistryStore.deleteKeys
      cases providerOfKey first with
      | error e => exact fun _ h => .inl h
      | ok p =>
          exact fun key hkey => (ih (etcd.deleteRange first) key hkey).imp_left isSome_of_erase

theorem onlyAdds_expire (etcd : Etcd) (lease : Int) : OnlyAdds etcd (etcd.expire lease) := by
  intro key hkey
  rw [EtcdRegistryStore.lookup_expire] at hkey
  split at hkey
  · cases hkey
  · exact .inl hkey

theorem onlyAdds_serve (json : Jsoncpp) (s : EtcdRegistryStore γ) (etcd : Etcd)
    (keepalive : Bool) (call : StoreCall γ) :
    OnlyAdds etcd (s.serve json etcd keepalive call).2.2 := by
  cases call with
  | registerInstance conn host method load =>
      exact onlyAdds_put etcd etcd.leaseGrant.2 rfl method host _ _
  | methodHost method => exact fun _ h => .inl h
  | methodHostDetails method => exact fun _ h => .inl h
  | reportLoad method host load =>
      show OnlyAdds etcd (s.reportLoad etcd method host load).2.2
      unfold EtcdRegistryStore.reportLoad
      dsimp only
      split
      · exact fun _ h => .inl h
      · exact onlyAdds_put etcd etcd rfl method host _ _
  | heartbeat method host =>
      intro key hkey
      have hspec := EtcdRegistryStore.heartbeat_spec s etcd method host keepalive key
      exact (hspec.1.mp hkey).imp_right (fun h => ⟨method, host, h.1⟩)
  | disconnectProvider conn => exact onlyAdds_deleteKeys etcd _

theorem IRegistryStore.OwnKeys.serve {r : IRegistryStore γ} (h : r.OwnKeys) (json : Jsoncpp)
    (now : Int) (fresh : Nat) (keepalive : Bool) (call : StoreCall γ) :
    (r.serve json now fresh keepalive call).2.OwnKeys := by
  cases r with
  | memoryStore s => trivial
  | etcdStore s etcd =>
      exact fun key hkey => (onlyAdds_serve json s etcd keepalive call key hkey).elim (h key) id

variable {json : Jsoncpp} {decode : Bytes → Except CppException Bytes} {s t : RpcServer γ}
  {a : RpcServerAct γ}

theorem ownKeys_step (h : s.registry.OwnKeys) (ht : rpcServerStep json decode s a = some t) :
    t.registry.OwnKeys := by
  cases a with
  | methodRegistry method conn load now fresh =>
      simp only [rpcServerStep] at ht
      split at ht
      · obtain rfl := Option.some.inj ht
        exact h.serve json now fresh true _
      · cases ht
  | registerToRegistry method =>
      simp only [rpcServerStep] at ht
      split at ht
      · obtain rfl := Option.some.inj ht
        exact h
      · cases ht
  | heartbeatTick =>
      simp only [rpcServerStep] at ht
      split at ht
      · obtain rfl := Option.some.inj ht
        exact h
      · cases ht
  | heartbeatProvider now keepalive =>
      simp only [rpcServerStep] at ht
      split at ht
      · cases ht
      · obtain rfl := Option.some.inj ht
        exact h.serve json now 0 keepalive _
  | heartbeatLost =>
      simp only [rpcServerStep] at ht
      split at ht
      · cases ht
      · obtain rfl := Option.some.inj ht
        exact h
  | call call now fresh keepalive =>
      simp only [rpcServerStep] at ht
      split at ht
      · obtain rfl := Option.some.inj ht
        exact h.serve json now fresh keepalive call
      · cases ht
  | sweep startTime idle now resp =>
      obtain rfl := Option.some.inj ht
      generalize s.registry = r at h
      cases r with
      | memoryStore s => trivial
      | etcdStore s etcd => exact h
  | restart =>
      obtain rfl := Option.some.inj ht
      generalize s.registry = r at h
      cases r with
      | memoryStore s => trivial
      | etcdStore s etcd => exact h
  | expire lease =>
      obtain rfl := Option.some.inj ht
      generalize s.registry = r at h
      cases r with
      | memoryStore s => trivial
      | etcdStore s etcd =>
          exact fun key hkey => (onlyAdds_expire etcd lease key hkey).elim (h key) id

/-- After a heartbeat a method is listed if it was, or if the heartbeat has put a key
that is found under it. -/
theorem lists_heartbeat {r : IRegistryStore γ} (h : r.OwnKeys) (host : HostInfo) (now : Int)
    (keepalive : Bool) (last method : Bytes) :
    (r.serve json now 0 keepalive (.heartbeat last host)).2.Lists method host ↔
      r.Lists method host ∨ (r.Remakes host keepalive last ∧
        FoundUnder method host (keyFor last host)) := by
  have hown := h.serve json now 0 keepalive (.heartbeat last host)
  cases r with
  | memoryStore s =>
      refine Iff.trans ?_ (or_iff_left (fun hremade => hremade.1)).symm
      show (∃ l, Except.ok ((s.updateProviderLastHeartbeat last host now).2.methodHost method) =
        .ok l ∧ _) ↔ ∃ l, Except.ok (s.methodHost method) = .ok l ∧ _
      rw [ProviderManager.methodHost_heartbeat]
  | etcdStore s etcd =>
      have hstored := fun key =>
        (EtcdRegistryStore.heartbeat_spec s etcd last host keepalive key).1
      rw [lists_etcd h]
      refine (lists_etcd hown method host).trans ?_
      constructor
      · rintro ⟨key, hkey, hfound⟩
        obtain hold | ⟨rfl, hremade⟩ := (hstored key).mp hkey
        · exact .inl ⟨key, hold, hfound⟩
        · exact .inr ⟨hremade, hfound⟩
      · rintro (⟨key, hkey, hfound⟩ | ⟨hremade, hfound⟩)
        · exact ⟨key, (hstored key).mpr (.inl hkey), hfound⟩
        · exact ⟨_, (hstored _).mpr (.inr ⟨rfl, hremade⟩), hfound⟩

theorem nothingLost_iff (h : s.registry.OwnKeys) (a : RpcServerAct γ) :
    NothingLost s a ↔ TickRemakes json decode s a := by
  cases a with
  | heartbeatProvider now keepalive =>
      have hstep : ∀ last, s.tick = [last] →
          rpcServerStep json decode s (.heartbeatProvider now keepalive) = some { s with
            registry := (s.registry.serve json now 0 keepalive (.heartbeat last s.access_addr)).2
            tick := [] } := by
        intro last hlast
        simp only [rpcServerStep, hlast]
      constructor
      · rintro hlost _ _ last t ⟨rfl, rfl⟩ hlast hanswered ht method hmethod
        obtain rfl := Option.some.inj ((hstep last hlast).symm.trans ht)
        exact (lists_heartbeat h ..).mpr (hlost last hlast hanswered method hmethod)
      · intro hremakes last hlast hanswered method hmethod
        have hlisted := hremakes now keepalive last _ rfl hlast hanswered (hstep last hlast)
          method hmethod
        exact (lists_heartbeat h ..).mp hlisted
  | _ => exact iff_of_true trivial (fun _ _ _ _ ha => nomatch ha)

end Provider

end LyqtRpc
