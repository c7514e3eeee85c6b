import LyqtRpc.EtcdStore
import LyqtRpc.Lib.StepRun
import Mathlib.Data.List.Pairwise
import Mathlib.Logic.Function.Basic

/-!
Any number of registry instances over one etcd, each with its own maps. `ι` is
the type of instances; a connection is one of an instance, and its thread has
one call under way at a time. Between two requests to etcd, or two sections
under `_mutex`, of a call every other call may go on.
-/

set_option autoImplicit false

namespace LyqtRpc

open StepRun

/-- What a call does next. -/
inductive FleetCall where
  | registerPut (host : HostInfo) (method : Bytes) (load : Int32) (lease : Int)
  | registerRecord (host : HostInfo) (method : Bytes) (load : Int32) (lease : Int)
  | heartbeatKeepalive (host : HostInfo) (method : Bytes) (lease : Int)
  | heartbeatLoad (host : HostInfo) (method : Bytes)
  | heartbeatGrant (host : HostInfo) (method : Bytes) (load : Int32)
  | heartbeatPut (host : HostInfo) (method : Bytes) (load : Int32) (lease : Int)
  | heartbeatRecord (host : HostInfo) (method : Bytes) (lease : Int)
  | reportPut (host : HostInfo) (method : Bytes) (load : Int32) (lease : Int)
  | reportRecord (host : HostInfo) (method : Bytes) (load : Int32)
  /-- The keys that are still to be deleted, and the providers listed so far. -/
  | close (keys : List Bytes) (out : List (Bytes × HostInfo))

namespace EtcdRegistryStore
variable {γ : Type} [DecidableEq γ]

/-- The next request or section of a call over `conn`, and what is left of the call. -/
def resume (store : EtcdRegistryStore γ) (etcd : Etcd) (conn : γ) (keepalive : Bool) :
    FleetCall → Option FleetCall × EtcdRegistryStore γ × Etcd
  | .registerPut host method load lease =>
    (some (.registerRecord host method load lease), store,
      etcd.put (keyFor method host) (valueFor host load) lease)
  | .registerRecord host method load lease =>
    (none, store.record conn (keyFor method host) load lease, etcd)
  | .heartbeatKeepalive host method _ =>
    (if keepalive then none else some (.heartbeatLoad host method), store, etcd)
  | .heartbeatLoad host method =>
    let load := (store.keysToLoad.lookup (keyFor method host)).getD 0
    (some (.heartbeatGrant host method load), store, etcd)
  | .heartbeatGrant host method load =>
    let (lease, etcd) := etcd.leaseGrant
    (some (.heartbeatPut host method load lease), store, etcd)
  | .heartbeatPut host method load lease =>
    (some (.heartbeatRecord host method lease), store,
      etcd.put (keyFor method host) (valueFor host load) lease)
  | .heartbeatRecord host method lease =>
    let key := keyFor method host
    (none,
      { store with
        keysToLease := store.keysToLease.insert key lease
        knownKeys := store.knownKeys.insert key () },
      etcd)
  | .reportPut host method load lease =>
    (some (.reportRecord host method load), store,
      etcd.put (keyFor method host) (valueFor host load) lease)
  | .reportRecord host method load =>
    (none, { store with keysToLoad := store.keysToLoad.insert (keyFor method host) load }, etcd)
  | .close [] _ => (none, store, etcd)
  | .close (key :: keys) out =>
    match providerOfKey key with
    | .error _ => (none, store, etcd)
    | .ok p => (some (.close keys (out ++ p.toList)), store, etcd.deleteRange key)

/-- What a heartbeat or a load report reads first. -/
def leaseOf (store : EtcdRegistryStore γ) (method : Bytes) (host : HostInfo) : Int :=
  (store.keysToLease.lookup (keyFor method host)).getD (-1)

/-- The call goes on with no other in between, from the one pair of maps and etcd to the
other. -/
inductive Alone (conn : γ) (keepalive : Bool) :
    EtcdRegistryStore γ × Etcd → FleetCall → EtcdRegistryStore γ × Etcd → Prop where
  | last {store etcd call r} :
      resume store etcd conn keepalive call = (none, r) → Alone conn keepalive (store, etcd) call r
  | more {store etcd call next r u} :
      resume store etcd conn keepalive call = (some next, r) →
      Alone conn keepalive r next u → Alone conn keepalive (store, etcd) call u

variable {store : EtcdRegistryStore γ} {etcd : Etcd} {conn : γ} {keepalive : Bool}
  {method : Bytes} {host : HostInfo} {load : Int32}

theorem registerInstance_alone :
    Alone conn keepalive (store, etcd.leaseGrant.2)
      (.registerPut host method load etcd.leaseGrant.1)
      (store.registerInstance etcd conn host method load) :=
  .more rfl (.last rfl)

theorem heartbeat_alone (hlease : ¬ store.leaseOf method host < 0) :
    Alone conn keepalive (store, etcd)
      (.heartbeatKeepalive host method (store.leaseOf method host))
      (store.heartbeat etcd method host keepalive).2 := by
  unfold heartbeat
  dsimp only
  rw [if_neg (show ¬ (store.keysToLease.lookup (keyFor method host)).getD (-1) < 0 from hlease)]
  cases keepalive with
  | true => exact .last rfl
  | false => exact .more rfl (.more rfl (.more rfl (.more rfl (.last rfl))))

theorem reportLoad_alone (hlease : ¬ store.leaseOf method host < 0) :
    Alone conn keepalive (store, etcd) (.reportPut host method load (store.leaseOf method host))
      (store.reportLoad etcd method host load).2 := by
  unfold reportLoad
  dsimp only
  rw [if_neg (show ¬ (store.keysToLease.lookup (keyFor method host)).getD (-1) < 0 from hlease)]
  exact .more rfl (.last rfl)

theorem deleteKeys_alone (keys : List Bytes) (out : List (Bytes × HostInfo)) :
    Alone conn keepalive (store, etcd) (.close keys out) (store, (deleteKeys etcd keys).2) := by
  induction keys generalizing etcd out with
  | nil => exact .last rfl
  | cons first keys ih =>
      unfold deleteKeys
      cases hp : providerOfKey first with
      | error e => exact .last (by rw [resume, hp])
      | ok p => exact .more (by rw [resume, hp]) (ih (out ++ p.toList))

theorem disconnectProvider_alone :
    Alone conn keepalive ((store.takeConnKeys conn).2, etcd)
      (.close (store.takeConnKeys conn).1 []) (store.disconnectProvider etcd conn).2 :=
  deleteKeys_alone _ _

end EtcdRegistryStore

structure Fleet (ι γ : Type) where
  stores : ι → EtcdRegistryStore γ := fun _ => {}
  etcd : Etcd := {}
  /-- The calls under way. -/
  calls : AList (fun _ : ι × γ => FleetCall) := ∅
  /-- The registrations over connections whose close has not returned, in the order they
  were made. -/
  registered : List ((ι × γ) × Bytes) := []
  /-- Who registered a key last. -/
  latest : Bytes → Option (ι × γ) := fun _ => none

/-- A call starts, with its first request or section, or it goes on with the next. -/
inductive FleetAct (ι γ : Type) where
  | registerInstance (x : ι × γ) (host : HostInfo) (method : Bytes) (load : Int32)
  | heartbeat (x : ι × γ) (method : Bytes) (host : HostInfo)
  | reportLoad (x : ι × γ) (method : Bytes) (host : HostInfo) (load : Int32)
  | disconnectProvider (x : ι × γ)
  | resume (x : ι × γ) (keepalive : Bool)

def FleetAct.conn {ι γ : Type} : FleetAct ι γ → ι × γ
  | .registerInstance x .. | .heartbeat x .. | .reportLoad x .. | .disconnectProvider x
  | .resume x _ => x

section Fleet
variable {ι γ : Type} [DecidableEq ι] [DecidableEq γ]

/-- The calls under way when the one of `x` has come to `next`. -/
def Fleet.callsWith (s : Fleet ι γ) (x : ι × γ) :
    Option FleetCall → AList (fun _ : ι × γ => FleetCall)
  | none => s.calls.erase x
  | some call => s.calls.insert x call

/-- The store of the instance of `x`, etcd and the call of `x` are new. -/
def Fleet.goOn (s : Fleet ι γ) (x : ι × γ)
    (r : Option FleetCall × EtcdRegistryStore γ × Etcd) : Fleet ι γ :=
  { s with
    stores := Function.update s.stores x.1 r.2.1
    etcd := r.2.2
    calls := s.callsWith x r.1 }

/-- Registrations are made with the last section of their calls, and end when the close
returns. -/
def Fleet.note (s : Fleet ι γ) (x : ι × γ) : FleetCall → Option FleetCall → Fleet ι γ
  | .registerRecord host method _ _, _ =>
    { s with
      registered := s.registered ++ [(x, keyFor method host)]
      latest := Function.update s.latest (keyFor method host) (some x) }
  | .close .., none => { s with registered := s.registered.filter (fun e => e.1 ≠ x) }
  | _, _ => s

def fleetStep (s : Fleet ι γ) (a : FleetAct ι γ) : Option (Fleet ι γ) :=
  match a, s.calls.lookup a.conn with
  | .registerInstance x host method load, none =>
    let (lease, etcd) := s.etcd.leaseGrant
    some (s.goOn x (some (.registerPut host method load lease), s.stores x.1, etcd))
  | .heartbeat x method host, none =>
    let lease := (s.stores x.1).leaseOf method host
    some (s.goOn x (if lease < 0 then none else some (.heartbeatKeepalive host method lease),
      s.stores x.1, s.etcd))
  | .reportLoad x method host load, none =>
    let lease := (s.stores x.1).leaseOf method host
    some (s.goOn x (if lease < 0 then none else some (.reportPut host method load lease),
      s.stores x.1, s.etcd))
  | .disconnectProvider x, none =>
    let (keys, store) := (s.stores x.1).takeConnKeys x.2
    some (s.goOn x (some (.close keys []), store, s.etcd))
  | .resume x keepalive, some call =>
    let r := (s.stores x.1).resume s.etcd x.2 keepalive call
    some ((s.goOn x r).note x call r.1)
  | _, _ => none

/-- The keys of a connection that has not closed. -/
def Fleet.keysOf (s : Fleet ι γ) (x : ι × γ) : List Bytes :=
  ((s.stores x.1).keysByConn.lookup x.2).getD []

/-- `disconnectProvider` is under way. -/
def Fleet.closing (s : Fleet ι γ) (x : ι × γ) : Bool :=
  match s.calls.lookup x with
  | some (.close ..) => true
  | _ => false

/-- A registration stands: etcd has the key, the instance its lease, load and snapshot entry. -/
structure InPlace (s : Fleet ι γ) (i : ι) (key : Bytes) : Prop where
  stored : (s.etcd.kvs.lookup key).isSome
  lease : ((s.stores i).keysToLease.lookup key).isSome
  load : ((s.stores i).keysToLoad.lookup key).isSome
  known : ((s.stores i).knownKeys.lookup key).isSome

/-- `x` registered the key, and after that `y` did, which is still open. -/
def Reregistered (s : Fleet ι γ) (x y : ι × γ) (key : Bytes) : Prop :=
  x ≠ y ∧ s.closing y = false ∧ [(x, key), (y, key)].Sublist s.registered

instance (s : Fleet ι γ) (x y : ι × γ) (key : Bytes) : Decidable (Reregistered s x y key) :=
  inferInstanceAs (Decidable (_ ∧ _ ∧ _))

/-- Nothing of a registration of the key has changed. -/
structure Untouched (s t : Fleet ι γ) (i : ι) (key : Bytes) : Prop where
  stored : t.etcd.kvs.lookup key = s.etcd.kvs.lookup key
  lease : (t.stores i).keysToLease.lookup key = (s.stores i).keysToLease.lookup key
  load : (t.stores i).keysToLoad.lookup key = (s.stores i).keysToLoad.lookup key
  known : (t.stores i).knownKeys.lookup key = (s.stores i).knownKeys.lookup key

/-- What a step leaves alone: the latest registrations that are open, and in every part of
a close what has been registered again elsewhere. Nor is that among the providers that the
close returns. -/
structure LiveKept (s : Fleet ι γ) (a : FleetAct ι γ) (t : Fleet ι γ) : Prop where
  latest : ∀ key x, t.latest key = some x → key ∈ t.keysOf x → InPlace t x.1 key
  taken : ∀ x y key, a = .disconnectProvider x → Reregistered s x y key →
    Untouched s t y.1 key
  deleted : ∀ x keepalive y key, a = .resume x keepalive → s.closing x = true →
    Reregistered s x y key → Untouched s t y.1 key
  returned : ∀ x keepalive out y key p, a = .resume x keepalive →
    s.calls.lookup x = some (.close [] out) → Reregistered s x y key →
    providerOfKey key = .ok (some p) → p ∉ out

/-- The key that a registration has put and not recorded yet. -/
def FleetCall.putKey : FleetCall → Option Bytes
  | .registerRecord host method _ _ => some (keyFor method host)
  | _ => none

/-- What the next part of a close may find: a key that it deletes has neither been
registered again since nor put by a registration under way, and no provider that it
returns has been registered again. -/
def PartAllowed (s : Fleet ι γ) (x : ι × γ) : FleetCall → Prop
  | .close (key :: _) _ =>
    (∀ e ∈ s.registered, ¬ Reregistered s x e.1 key) ∧
      ∀ e ∈ s.calls.entries, e.2.putKey ≠ some key
  | .close [] _ => ∀ e ∈ s.registered, (providerOfKey e.2).toOption.join.isSome →
      ¬ Reregistered s x e.1 e.2
  | _ => True

instance (s : Fleet ι γ) (x : ι × γ) : (call : FleetCall) → Decidable (PartAllowed s x call)
  | .close (_ :: _) _ => inferInstanceAs (Decidable (_ ∧ _))
  | .close [] _ => inferInstanceAs (Decidable (∀ _ ∈ _, _))
  | .registerPut .. | .registerRecord .. | .heartbeatKeepalive .. | .heartbeatLoad ..
  | .heartbeatGrant .. | .heartbeatPut .. | .heartbeatRecord .. | .reportPut ..
  | .reportRecord .. => inferInstanceAs (Decidable True)

/-- A connection that closes has no key which another open connection has registered after
it: of its instance when the maps are taken, of any when a key is deleted. -/
def CloseAllowed (s : Fleet ι γ) : FleetAct ι γ → Prop
  | .disconnectProvider x =>
    ∀ e ∈ s.registered, e.1.1 = x.1 → ¬ Reregistered s x e.1 e.2
  | .resume x _ => ∀ call ∈ s.calls.lookup x, PartAllowed s x call
  | _ => True

instance (s : Fleet ι γ) : (a : FleetAct ι γ) → Decidable (CloseAllowed s a)
  | .disconnectProvider _ => inferInstanceAs (Decidable (∀ _ ∈ _, _))
  | .resume _ _ => inferInstanceAs (Decidable (∀ _ ∈ _, _))
  | .registerInstance .. | .heartbeat .. | .reportLoad .. => inferInstanceAs (Decidable True)

variable {s t : Fleet ι γ} {a : FleetAct ι γ} {x y : ι × γ} {key : Bytes}

/-- Nothing that was there for a key is missing. -/
structure Grows (store : EtcdRegistryStore γ) (etcd : Etcd) (store' : EtcdRegistryStore γ)
    (etcd' : Etcd) (key : Bytes) : Prop where
  stored : (etcd.kvs.lookup key).isSome → (etcd'.kvs.lookup key).isSome
  lease : (store.keysToLease.lookup key).isSome → (store'.keysToLease.lookup key).isSome
  load : (store.keysToLoad.lookup key).isSome → (store'.keysToLoad.lookup key).isSome
  known : (store.knownKeys.lookup key).isSome → (store'.knownKeys.lookup key).isSome

theorem isSome_lookup_insert {β : Type} (m : AList (fun _ : Bytes => β)) (key : Bytes) (v : β)
    {k : Bytes} (h : (m.lookup k).isSome) : ((m.insert key v).lookup k).isSome := by
  rw [AssocTable.lookup_insert_ite]
  split
  · rfl
  · exact h

theorem isSome_lookup_put (etcd : Etcd) (key value : Bytes) (lease : Int) {k : Bytes}
    (h : (etcd.kvs.lookup k).isSome) : ((etcd.put key value lease).kvs.lookup k).isSome := by
  unfold Etcd.put
  split
  · exact isSome_lookup_insert etcd.kvs key _ h
  · exact h

theorem isSome_lookup_put_self {etcd : Etcd} {lease : Int} (h : lease ∈ etcd.leases)
    (key value : Bytes) : ((etcd.put key value lease).kvs.lookup key).isSome := by
  rw [Etcd.put, if_pos h]
  show ((etcd.kvs.insert key _).lookup key).isSome
  rw [AList.lookup_insert]
  rfl

theorem leases_put (etcd : Etcd) (key value : Bytes) (lease : Int) :
    (etcd.put key value lease).leases = etcd.leases := by
  unfold Etcd.put
  split <;> rfl

theorem record_grows (store : EtcdRegistryStore γ) (etcd : Etcd) (conn : γ) (key : Bytes)
    (load : Int32) (lease : Int) (k : Bytes) :
    Grows store etcd (store.record conn key load lease) etcd k where
  stored := id
  lease := isSome_lookup_insert _ _ _
  load := isSome_lookup_insert _ _ _
  known := isSome_lookup_insert _ _ _

/-- The maps lose the keys of the connection that closes, and no others. -/
theorem takeConnKeys_spec (store : EtcdRegistryStore γ) (conn : γ) :
    (store.takeConnKeys conn).1 = (store.keysByConn.lookup conn).getD [] ∧
      (∀ c, (store.takeConnKeys conn).2.keysByConn.lookup c =
        if c = conn then none else store.keysByConn.lookup c) ∧
      ∀ k ∉ (store.takeConnKeys conn).1,
        (store.takeConnKeys conn).2.keysToLease.lookup k = store.keysToLease.lookup k ∧
        (store.takeConnKeys conn).2.keysToLoad.lookup k = store.keysToLoad.lookup k ∧
        (store.takeConnKeys conn).2.knownKeys.lookup k = store.knownKeys.lookup k := by
  unfold EtcdRegistryStore.takeConnKeys
  cases hkeys : store.keysByConn.lookup conn with
  | none =>
      refine ⟨rfl, fun c => ?_, fun _ _ => ⟨rfl, rfl, rfl⟩⟩
      by_cases hc : c = conn
      · rw [if_pos hc, hc]
        exact hkeys
      · rw [if_neg hc]
  | some keys =>
      obtain ⟨hconns, hlease, hload, hknown⟩ := EtcdRegistryStore.foldl_forget
        { store with keysByConn := store.keysByConn.erase conn } keys
      refine ⟨rfl, fun c => (congrArg (AList.lookup c) hconns).trans ?_, fun k hk =>
        ⟨(hlease k).trans (if_neg hk), (hload k).trans (if_neg hk), (hknown k).trans (if_neg hk)⟩⟩
      exact AssocTable.lookup_erase_ite _ conn c

theorem lookup_callsWith (s : Fleet ι γ) (x y : ι × γ) (next : Option FleetCall) :
    (s.callsWith x next).lookup y = if y = x then next else s.calls.lookup y := by
  cases next with
  | none => exact AssocTable.lookup_erase_ite s.calls x y
  | some call => exact AssocTable.lookup_insert_ite s.calls x y call

theorem stores_goOn (s : Fleet ι γ) (x : ι × γ)
    (r : Option FleetCall × EtcdRegistryStore γ × Etcd) (i : ι) :
    (s.goOn x r).stores i = if i = x.1 then r.2.1 else s.stores i :=
  Function.update_apply ..

theorem keysOf_goOn (s : Fleet ι γ) (x : ι × γ)
    (r : Option FleetCall × EtcdRegistryStore γ × Etcd) (y : ι × γ) :
    (s.goOn x r).keysOf y =
      if y.1 = x.1 then (r.2.1.keysByConn.lookup y.2).getD [] else s.keysOf y := by
  unfold Fleet.keysOf
  rw [stores_goOn]
  split <;> rfl

theorem keysOf_goOn_same {store : EtcdRegistryStore γ}
    (hconns : store.keysByConn = (s.stores x.1).keysByConn) (next : Option FleetCall)
    (etcd : Etcd) (y : ι × γ) : (s.goOn x (next, store, etcd)).keysOf y = s.keysOf y := by
  rw [keysOf_goOn]
  split
  · rename_i hi
    rw [Fleet.keysOf, hi, hconns]
  · rfl

theorem InPlace.goOn {i : ι} (h : InPlace s i key) {next : Option FleetCall}
    {store : EtcdRegistryStore γ} {etcd : Etcd}
    (hgrows : Grows (s.stores x.1) s.etcd store etcd key) :
    InPlace (s.goOn x (next, store, etcd)) i key := by
  have hstore := stores_goOn s x (next, store, etcd) i
  by_cases hi : i = x.1
  · subst hi
    rw [if_pos rfl] at hstore
    exact ⟨hgrows.stored h.stored, hstore ▸ hgrows.lease h.lease,
      hstore ▸ hgrows.load h.load, hstore ▸ hgrows.known h.known⟩
  · rw [if_neg hi] at hstore
    exact ⟨hgrows.stored h.stored, hstore ▸ h.lease, hstore ▸ h.load, hstore ▸ h.known⟩

theorem InPlace.note {i : ι} (h : InPlace s i key) (x : ι × γ) (call : FleetCall)
    (next : Option FleetCall) : InPlace (s.note x call next) i key := by
  unfold Fleet.note
  split <;> exact ⟨h.stored, h.lease, h.load, h.known⟩

/-- What a call under way relies on. -/
def FleetCall.Sound (s : Fleet ι γ) (x : ι × γ) : FleetCall → Prop
  | .registerPut _ _ _ lease => lease ∈ s.etcd.leases
  | .registerRecord host method _ _ => (s.etcd.kvs.lookup (keyFor method host)).isSome
  | .close keys _ => s.keysOf x = [] ∧ ∀ key ∈ keys, (x, key) ∈ s.registered
  | _ => True

/-- `registered` and `latest` tell the order in which a key was registered. -/
structure FleetInv (s : Fleet ι γ) : Prop where
  listed : ∀ x key, key ∈ s.keysOf x → (x, key) ∈ s.registered
  calls : ∀ x call, s.calls.lookup x = some call → call.Sound s x
  order : ∀ key x y, s.latest key = some y → (x, key) ∈ s.registered → (y, key) ∈ s.registered →
    x = y ∨ [(x, key), (y, key)].Sublist s.registered
  live : ∀ key x, s.latest key = some x → key ∈ s.keysOf x → InPlace s x.1 key

omit [DecidableEq ι] in
theorem FleetCall.Sound.mono {call : FleetCall} (h : call.Sound s y)
    (hleases : ∀ lease ∈ s.etcd.leases, lease ∈ t.etcd.leases)
    (hstored : ∀ key, (s.etcd.kvs.lookup key).isSome → (t.etcd.kvs.lookup key).isSome)
    (hkeys : s.keysOf y = [] → t.keysOf y = [])
    (hregistered : ∀ key, (y, key) ∈ s.registered → (y, key) ∈ t.registered) :
    call.Sound t y := by
  cases call with
  | registerPut host method load lease => exact hleases _ h
  | registerRecord host method load lease => exact hstored _ h
  | close keys out => exact ⟨hkeys h.1, fun key hkey => hregistered key (h.2 key hkey)⟩
  | _ => trivial

/-- The calls of the others rely on what they relied on, and that of `x` is new. -/
theorem FleetInv.calls_with (h : FleetInv s) (next : Option FleetCall)
    (hcalls : t.calls = s.callsWith x next)
    (hother : ∀ y call, y ≠ x → s.calls.lookup y = some call → call.Sound s y → call.Sound t y)
    (hnext : ∀ call, next = some call → call.Sound t x) (y : ι × γ) (call : FleetCall)
    (hy : t.calls.lookup y = some call) : call.Sound t y := by
  rw [hcalls, lookup_callsWith] at hy
  split at hy
  · rename_i hyx
    exact hyx ▸ hnext call hy
  · rename_i hyx
    exact hother y call hyx hy (h.calls y call hy)

/-- A part of a call that neither registers nor closes: the maps and etcd grow. -/
theorem FleetInv.goOn (h : FleetInv s) {next : Option FleetCall} {store : EtcdRegistryStore γ}
    {etcd : Etcd} (hgrows : ∀ key, Grows (s.stores x.1) s.etcd store etcd key)
    (hleases : ∀ lease ∈ s.etcd.leases, lease ∈ etcd.leases)
    (hconns : store.keysByConn = (s.stores x.1).keysByConn)
    (hnext : ∀ call, next = some call → call.Sound (s.goOn x (next, store, etcd)) x) :
    FleetInv (s.goOn x (next, store, etcd)) := by
  have hkeys := keysOf_goOn_same hconns next etcd
  refine ⟨fun y key hkey => h.listed y key (hkeys y ▸ hkey), ?_, h.order,
    fun key y hy hkey => (h.live key y hy (hkeys y ▸ hkey)).goOn (hgrows key)⟩
  exact h.calls_with next rfl (fun y call _ _ hsound => hsound.mono hleases
    (fun key => (hgrows key).stored) (hkeys y).trans (fun _ => id)) hnext

theorem mem_keysOf_record (s : Fleet ι γ) (x : ι × γ) (new : Bytes) (load : Int32) (lease : Int)
    (key : Bytes) (y : ι × γ) :
    key ∈ (s.goOn x (none, (s.stores x.1).record x.2 new load lease, s.etcd)).keysOf y ↔
      key ∈ s.keysOf y ∨ (y = x ∧ key = new) := by
  obtain ⟨i, c⟩ := x
  obtain ⟨j, d⟩ := y
  rw [keysOf_goOn, Prod.mk.injEq]
  show key ∈ (if j = i then (((s.stores i).keysByConn.insert c _).lookup d).getD [] else _) ↔ _
  rw [AssocTable.lookup_insert_ite]
  by_cases hj : j = i
  · subst hj
    rw [if_pos rfl]
    by_cases hd : d = c
    · subst hd
      rw [if_pos rfl, Option.getD_some, List.mem_append, List.mem_singleton, Fleet.keysOf]
      tauto
    · rw [if_neg hd, Fleet.keysOf]
      tauto
  · rw [if_neg hj]
    tauto

omit [DecidableEq ι] in
theorem inPlace_record {new : Bytes} {store : EtcdRegistryStore γ} {conn : γ} {load : Int32}
    {lease : Int} {i : ι} (hstore : t.stores i = store.record conn new load lease)
    (hstored : (t.etcd.kvs.lookup new).isSome) : InPlace t i new := by
  have hinserted : ∀ {β : Type} (m : AList (fun _ : Bytes => β)) (v : β),
      ((m.insert new v).lookup new).isSome := by
    intro β m v
    rw [AList.lookup_insert]
    rfl
  exact ⟨hstored, hstore ▸ hinserted _ _, hstore ▸ hinserted _ _, hstore ▸ hinserted _ _⟩

/-- The last section of a registration. -/
theorem FleetInv.record (h : FleetInv s) {host : HostInfo} {method : Bytes} {load : Int32}
    {lease : Int} (hcall : s.calls.lookup x = some (.registerRecord host method load lease)) :
    FleetInv ((s.goOn x (none, (s.stores x.1).record x.2 (keyFor method host) load lease,
      s.etcd)).note x (.registerRecord host method load lease) none) := by
  have hmem := mem_keysOf_record s x (keyFor method host) load lease
  have hgrows := record_grows (s.stores x.1) s.etcd x.2 (keyFor method host) load lease
  refine ⟨fun y key hkey => ?_, ?_, fun key y z hz hy hzmem => ?_, fun key y hy hkey => ?_⟩
  · show (y, key) ∈ s.registered ++ [(x, keyFor method host)]
    cases (hmem key y).mp hkey with
    | inl hold => exact List.mem_append_left _ (h.listed y key hold)
    | inr hnew =>
        obtain ⟨rfl, rfl⟩ := hnew
        exact List.mem_append_right _ (List.mem_singleton.mpr rfl)
  · refine h.calls_with (x := x) none rfl (fun y call hyx _ hsound => ?_)
      (fun _ hnone => nomatch hnone)
    refine hsound.mono (fun _ => id) (fun _ => id) (fun hkeys => ?_)
      (fun key => List.mem_append_left _)
    refine List.eq_nil_iff_forall_not_mem.mpr (fun key hkey => ?_)
    cases (hmem key y).mp hkey with
    | inl hold => exact List.eq_nil_iff_forall_not_mem.mp hkeys key hold
    | inr hnew => exact hyx hnew.1
  · by_cases hyz : y = z
    · exact .inl hyz
    refine .inr ?_
    have hlatest : (if key = keyFor method host then some x else s.latest key) = some z :=
      (Function.update_apply ..).symm.trans hz
    show [(y, key), (z, key)].Sublist (s.registered ++ [(x, keyFor method host)])
    split at hlatest
    · rename_i hkey
      obtain rfl := Option.some.inj hlatest
      subst hkey
      cases List.mem_append.mp hy with
      | inl hy => exact (List.singleton_sublist.mpr hy).append (List.Sublist.refl _)
      | inr hy => exact absurd (Prod.mk.inj (List.mem_singleton.mp hy)).1 hyz
    · rename_i hkey
      have hold : ∀ w, (w, key) ∈ s.registered ++ [(x, keyFor method host)] →
          (w, key) ∈ s.registered := by
        intro w hw
        cases List.mem_append.mp hw with
        | inl hw => exact hw
        | inr hw => exact absurd (Prod.mk.inj (List.mem_singleton.mp hw)).2 hkey
      have hsub := (h.order key y z hlatest (hold y hy) (hold z hzmem)).resolve_left hyz
      exact hsub.trans (List.sublist_append_left ..)
  · have hlatest : (if key = keyFor method host then some x else s.latest key) = some y :=
      (Function.update_apply ..).symm.trans hy
    split at hlatest
    · rename_i hnew
      obtain rfl := Option.some.inj hlatest
      subst hnew
      exact inPlace_record (Function.update_self ..) (h.calls x _ hcall)
    · rename_i hne
      have hold := ((hmem key y).mp hkey).resolve_right (fun hnew => hne hnew.2)
      exact ((h.live key y hlatest hold).goOn (hgrows key)).note x _ none

theorem mem_keysOf_take (s : Fleet ι γ) (x : ι × γ) (next : Option FleetCall) (etcd : Etcd)
    (key : Bytes) (y : ι × γ) :
    key ∈ (s.goOn x (next, ((s.stores x.1).takeConnKeys x.2).2, etcd)).keysOf y ↔
      y ≠ x ∧ key ∈ s.keysOf y := by
  obtain ⟨i, c⟩ := x
  obtain ⟨j, d⟩ := y
  rw [keysOf_goOn, (takeConnKeys_spec (s.stores i) c).2.1, ne_eq, Prod.mk.injEq]
  by_cases hj : j = i
  · subst hj
    rw [if_pos rfl]
    by_cases hd : d = c
    · simp [hd]
    · rw [if_neg hd, Fleet.keysOf]
      tauto
  · rw [if_neg hj]
    tauto

/-- Who registered a key last, and has not closed, registered it after all others. -/
theorem FleetInv.reregistered (h : FleetInv s) (hlatest : s.latest key = some y)
    (hopen : key ∈ s.keysOf y) (hx : (x, key) ∈ s.registered) (hne : x ≠ y) :
    Reregistered s x y key := by
  refine ⟨hne, ?_, (h.order key x y hlatest hx (h.listed y key hopen)).resolve_left hne⟩
  unfold Fleet.closing
  split
  · rename_i keys out hcall
    have hnil := (h.calls y _ hcall).1
    rw [hnil] at hopen
    exact (List.not_mem_nil hopen).elim
  · rfl

/-- The section in which a close takes its keys. -/
theorem FleetInv.take (h : FleetInv s) (hallowed : CloseAllowed s (.disconnectProvider x)) :
    FleetInv (s.goOn x (some (.close ((s.stores x.1).takeConnKeys x.2).1 []),
      ((s.stores x.1).takeConnKeys x.2).2, s.etcd)) := by
  obtain ⟨htaken, _, hother⟩ := takeConnKeys_spec (s.stores x.1) x.2
  have hmem := mem_keysOf_take s x (some (.close ((s.stores x.1).takeConnKeys x.2).1 [])) s.etcd
  have hlisted : ∀ key ∈ ((s.stores x.1).takeConnKeys x.2).1, (x, key) ∈ s.registered := by
    rw [htaken]
    exact h.listed x
  refine ⟨fun y key hkey => h.listed y key ((hmem key y).mp hkey).2, ?_, h.order,
    fun key y hy hkey => ?_⟩
  · refine h.calls_with (some (.close ((s.stores x.1).takeConnKeys x.2).1 [])) rfl
      (fun y call _ _ hsound => ?_) ?_
    · refine hsound.mono (fun _ => id) (fun _ => id) (fun hkeys => ?_) (fun _ => id)
      refine List.eq_nil_iff_forall_not_mem.mpr (fun key hkey => ?_)
      exact List.eq_nil_iff_forall_not_mem.mp hkeys key ((hmem key y).mp hkey).2
    · rintro _ ⟨⟩
      exact ⟨List.eq_nil_iff_forall_not_mem.mpr (fun key hkey => ((hmem key x).mp hkey).1 rfl),
        hlisted⟩
  · obtain ⟨hne, hkey⟩ := (hmem key y).mp hkey
    by_cases hi : y.1 = x.1
    · -- a key that the closing connection lists, too, was registered again by `y`
      have hnot : key ∉ ((s.stores x.1).takeConnKeys x.2).1 := by
        intro hclosing
        exact hallowed (y, key) (h.listed y key hkey) hi
          (h.reregistered hy hkey (hlisted key hclosing) (Ne.symm hne))
      obtain ⟨hlease, hload, hknown⟩ := hother key hnot
      exact (h.live key y hy hkey).goOn ⟨id, (congrArg Option.isSome hlease).trans,
        (congrArg Option.isSome hload).trans, (congrArg Option.isSome hknown).trans⟩
    · have hstore := (stores_goOn s x (some (.close ((s.stores x.1).takeConnKeys x.2).1 []),
        ((s.stores x.1).takeConnKeys x.2).2, s.etcd) y.1).trans (if_neg hi)
      have hlive := h.live key y hy hkey
      exact ⟨hlive.stored, hstore ▸ hlive.lease, hstore ▸ hlive.load, hstore ▸ hlive.known⟩

/-- A part of a call that reads the maps, or a lease that is granted. -/
theorem FleetInv.begin (h : FleetInv s) {next : Option FleetCall} {etcd : Etcd}
    (hkvs : etcd.kvs = s.etcd.kvs) (hleases : ∀ lease ∈ s.etcd.leases, lease ∈ etcd.leases)
    (hnext : ∀ call, next = some call → call.Sound (s.goOn x (next, s.stores x.1, etcd)) x) :
    FleetInv (s.goOn x (next, s.stores x.1, etcd)) :=
  h.goOn (fun _ => ⟨hkvs ▸ id, id, id, id⟩) hleases rfl hnext

/-- A key of a close is deleted. -/
theorem FleetInv.delete (h : FleetInv s) {first : Bytes} {keys : List Bytes}
    {out out' : List (Bytes × HostInfo)}
    (hcall : s.calls.lookup x = some (.close (first :: keys) out))
    (hallowed : PartAllowed s x (.close (first :: keys) out)) :
    FleetInv (s.goOn x (some (.close keys out'), s.stores x.1, s.etcd.deleteRange first)) := by
  have hkeys := keysOf_goOn_same (s := s) (x := x) rfl (some (.close keys out'))
    (s.etcd.deleteRange first)
  obtain ⟨hnil, hregistered⟩ := h.calls x _ hcall
  have hkept : ∀ key, key ≠ first → (s.etcd.kvs.lookup key).isSome →
      ((s.etcd.deleteRange first).kvs.lookup key).isSome :=
    fun key hne hstored => (congrArg Option.isSome (AList.lookup_erase_ne hne)).trans hstored
  refine ⟨fun y key hkey => h.listed y key (hkeys y ▸ hkey), ?_, h.order,
    fun key y hy hkey => ?_⟩
  · refine h.calls_with (some (.close keys out')) rfl (fun y call _ hy hsound => ?_) ?_
    · cases call with
      | registerPut host method load lease => exact hsound
      | registerRecord host method load lease =>
          have hput := hallowed.2 _ (AList.mem_lookup_iff.mp hy)
          exact hkept _ (fun heq => hput (congrArg some heq)) hsound
      | close keys out => exact ⟨(hkeys y).trans hsound.1, hsound.2⟩
      | _ => trivial
    · rintro _ ⟨⟩
      exact ⟨(hkeys x).trans hnil, fun key hkey => hregistered key (List.mem_cons_of_mem _ hkey)⟩
  · rw [hkeys] at hkey
    have hyx : x ≠ y := by
      rintro rfl
      rw [hnil] at hkey
      exact List.not_mem_nil hkey
    have hne : key ≠ first := by
      rintro rfl
      exact hallowed.1 (y, key) (h.listed y key hkey)
        (h.reregistered hy hkey (hregistered key (List.mem_cons_self ..)) hyx)
    exact (h.live key y hy hkey).goOn ⟨hkept key hne, id, id, id⟩

/-- A close returns. -/
theorem FleetInv.returns (h : FleetInv s) {keys : List Bytes} {out : List (Bytes × HostInfo)}
    (hcall : s.calls.lookup x = some (.close keys out)) :
    FleetInv ((s.goOn x (none, s.stores x.1, s.etcd)).note x (.close keys out) none) := by
  have hkeys := keysOf_goOn_same (s := s) (x := x) rfl none s.etcd
  have hmem : ∀ y key, (y, key) ∈ s.registered.filter (fun e => e.1 ≠ x) ↔
      (y, key) ∈ s.registered ∧ y ≠ x := by
    intro y key
    rw [List.mem_filter, decide_eq_true_eq]
  refine ⟨fun y key hkey => ?_, ?_, fun key y z hz hy hzmem => ?_, fun key y hy hkey => ?_⟩
  · replace hkey : key ∈ s.keysOf y := hkeys y ▸ hkey
    refine (hmem y key).mpr ⟨h.listed y key hkey, ?_⟩
    rintro rfl
    rw [(h.calls y _ hcall).1] at hkey
    exact List.not_mem_nil hkey
  · refine h.calls_with (x := x) none rfl (fun y call hyx _ hsound => ?_)
      (fun _ hnone => nomatch hnone)
    exact hsound.mono (fun _ => id) (fun _ => id) (hkeys y).trans
      (fun key hkey => (hmem y key).mpr ⟨hkey, hyx⟩)
  · obtain ⟨hy, hyne⟩ := (hmem y key).mp hy
    obtain ⟨hzmem, hzne⟩ := (hmem z key).mp hzmem
    refine (h.order key y z hz hy hzmem).imp_right (fun hsub => ?_)
    show [(y, key), (z, key)].Sublist (s.registered.filter (fun e => e.1 ≠ x))
    have hkept := hsub.filter (fun e => e.1 ≠ x)
    simpa [hyne, hzne] using hkept
  · have hlive : InPlace (s.goOn x (none, s.stores x.1, s.etcd)) y.1 key :=
      (h.live key y hy (hkeys y ▸ hkey)).goOn ⟨id, id, id, id⟩
    exact hlive.note x _ none

omit [DecidableEq γ] in
theorem put_grows (store : EtcdRegistryStore γ) (etcd : Etcd) (key value : Bytes) (lease : Int)
    (k : Bytes) : Grows store etcd store (etcd.put key value lease) k :=
  ⟨isSome_lookup_put etcd key value lease, id, id, id⟩

theorem FleetInv.resume (h : FleetInv s) {call : FleetCall} (keepalive : Bool)
    (hcall : s.calls.lookup x = some call) (hallowed : PartAllowed s x call) :
    FleetInv ((s.goOn x ((s.stores x.1).resume s.etcd x.2 keepalive call)).note x call
      ((s.stores x.1).resume s.etcd x.2 keepalive call).1) := by
  have hleases : ∀ key value lease, ∀ l ∈ s.etcd.leases, l ∈ (s.etcd.put key value lease).leases :=
    fun key value lease l hl => (leases_put s.etcd key value lease).symm ▸ hl
  cases call with
  | registerPut host method load lease =>
      refine h.goOn (fun _ => put_grows ..) (hleases _ _ _) rfl ?_
      rintro _ ⟨⟩
      exact isSome_lookup_put_self (h.calls x _ hcall) _ _
  | registerRecord host method load lease => exact h.record hcall
  | heartbeatKeepalive host method lease =>
      refine h.begin rfl (fun _ => id) (fun call hnext => ?_)
      cases keepalive with
      | true => cases hnext
      | false =>
          obtain rfl := Option.some.inj hnext
          trivial
  | heartbeatLoad host method =>
      refine h.begin rfl (fun _ => id) ?_
      rintro _ ⟨⟩
      trivial
  | heartbeatGrant host method load =>
      refine h.begin rfl (fun _ => List.mem_cons_of_mem _) ?_
      rintro _ ⟨⟩
      trivial
  | heartbeatPut host method load lease =>
      refine h.goOn (fun _ => put_grows ..) (hleases _ _ _) rfl ?_
      rintro _ ⟨⟩
      trivial
  | heartbeatRecord host method lease =>
      exact h.goOn (fun _ => ⟨id, isSome_lookup_insert _ _ _, id, isSome_lookup_insert _ _ _⟩)
        (fun _ => id) rfl (fun _ hnone => nomatch hnone)
  | reportPut host method load lease =>
      refine h.goOn (fun _ => put_grows ..) (hleases _ _ _) rfl ?_
      rintro _ ⟨⟩
      trivial
  | reportRecord host method load =>
      exact h.goOn (fun _ => ⟨id, id, isSome_lookup_insert _ _ _, id⟩) (fun _ => id) rfl
        (fun _ hnone => nomatch hnone)
  | close keys out =>
      cases keys with
      | nil => exact h.returns hcall
      | cons first keys =>
          simp only [EtcdRegistryStore.resume]
          cases providerOfKey first with
          | error e => exact h.returns hcall
          | ok p => exact h.delete hcall hallowed

theorem FleetInv.step (h : FleetInv s) (hallowed : CloseAllowed s a)
    (ht : fleetStep s a = some t) : FleetInv t := by
  unfold fleetStep at ht
  split at ht
  · obtain rfl := Option.some.inj ht
    refine h.begin rfl (fun _ => List.mem_cons_of_mem _) ?_
    rintro _ ⟨⟩
    exact List.mem_cons_self ..
  · obtain rfl := Option.some.inj ht
    refine h.begin rfl (fun _ => id) (fun call hnext => ?_)
    split at hnext
    · cases hnext
    · obtain rfl := Option.some.inj hnext
      trivial
  · obtain rfl := Option.some.inj ht
    refine h.begin rfl (fun _ => id) (fun call hnext => ?_)
    split at hnext
    · cases hnext
    · obtain rfl := Option.some.inj hnext
      trivial
  · obtain rfl := Option.some.inj ht
    exact h.take hallowed
  · rename_i x keepalive call hcall
    obtain rfl := Option.some.inj ht
    exact h.resume keepalive hcall (hallowed call hcall)
  · cases ht

theorem fleetInv_initial : FleetInv ({} : Fleet ι γ) :=
  ⟨fun _ _ hkey => (List.not_mem_nil hkey).elim, fun _ _ hcall => (nomatch hcall),
    fun _ _ _ hy => (nomatch hy), fun _ _ hx => (nomatch hx)⟩

omit [DecidableEq ι] [DecidableEq γ] in
theorem Untouched.of_stores {i : ι} (hetcd : t.etcd.kvs.lookup key = s.etcd.kvs.lookup key)
    (hstore : t.stores i = s.stores i) : Untouched s t i key :=
  ⟨hetcd, by rw [hstore], by rw [hstore], by rw [hstore]⟩

theorem Reregistered.mem (h : Reregistered s x y key) : (y, key) ∈ s.registered :=
  h.2.2.subset (List.mem_cons_of_mem _ (List.mem_singleton.mpr rfl))

theorem fleetStep_disconnectProvider (ht : fleetStep s (.disconnectProvider x) = some t) :
    t = s.goOn x (some (.close ((s.stores x.1).takeConnKeys x.2).1 []),
      ((s.stores x.1).takeConnKeys x.2).2, s.etcd) := by
  cases hcall : s.calls.lookup x with
  | none =>
      simp only [fleetStep, FleetAct.conn, hcall] at ht
      exact (Option.some.inj ht).symm
  | some call =>
      simp only [fleetStep, FleetAct.conn, hcall] at ht
      cases ht

theorem fleetStep_resume {keepalive : Bool} (ht : fleetStep s (.resume x keepalive) = some t) :
    ∃ call, s.calls.lookup x = some call ∧
      t = (s.goOn x ((s.stores x.1).resume s.etcd x.2 keepalive call)).note x call
        ((s.stores x.1).resume s.etcd x.2 keepalive call).1 := by
  cases hcall : s.calls.lookup x with
  | none =>
      simp only [fleetStep, FleetAct.conn, hcall] at ht
      cases ht
  | some call =>
      simp only [fleetStep, FleetAct.conn, hcall] at ht
      exact ⟨call, rfl, (Option.some.inj ht).symm⟩

/-- The maps of another instance are not those that a close takes its keys from. -/
theorem take_untouched (hallowed : CloseAllowed s (.disconnectProvider x))
    (ht : fleetStep s (.disconnectProvider x) = some t) (hrereg : Reregistered s x y key) :
    Untouched s t y.1 key := by
  have hi : y.1 ≠ x.1 := fun hi => hallowed (y, key) hrereg.mem hi hrereg
  obtain rfl := fleetStep_disconnectProvider ht
  exact .of_stores rfl (Function.update_of_ne hi ..)

/-- A part of a close that follows changes nothing but the key it deletes. -/
theorem part_untouched {keepalive : Bool} (hallowed : CloseAllowed s (.resume x keepalive))
    (ht : fleetStep s (.resume x keepalive) = some t) (hclosing : s.closing x = true)
    (hrereg : Reregistered s x y key) : Untouched s t y.1 key := by
  obtain ⟨call, hcall, rfl⟩ := fleetStep_resume ht
  have hpart := hallowed call hcall
  have hsame : Function.update s.stores x.1 (s.stores x.1) y.1 = s.stores y.1 := by
    rw [Function.update_eq_self]
  cases call with
  | close keys out =>
      cases keys with
      | nil => exact .of_stores rfl hsame
      | cons first keys =>
          have hne : key ≠ first := by
            rintro rfl
            exact hpart.1 (y, key) hrereg.mem hrereg
          simp only [EtcdRegistryStore.resume]
          cases providerOfKey first with
          | error e => exact .of_stores rfl hsame
          | ok p => exact .of_stores (AList.lookup_erase_ne hne) hsame
  | _ =>
      rw [Fleet.closing, hcall] at hclosing
      cases hclosing

/-- In every run in which no connection closes that has a key registered again
elsewhere, every step keeps what is live. -/
theorem close_keeps_live (h : Run fleetStep CloseAllowed {} s) (hallowed : CloseAllowed s a)
    (ht : fleetStep s a = some t) : LiveKept s a t := by
  have hinv := h.invariant FleetInv fleetInv_initial (fun _ _ _ hi hok hs => hi.step hok hs)
  refine ⟨(hinv.step hallowed ht).live, ?_, ?_, ?_⟩
  · rintro x y key rfl hrereg
    exact take_untouched hallowed ht hrereg
  · rintro x keepalive y key rfl hclosing hrereg
    exact part_untouched hallowed ht hclosing hrereg
  · rintro x keepalive out y key p rfl hcall hrereg hp hout
    refine hallowed _ hcall (y, key) hrereg.mem ?_ hrereg
    rw [hp]
    rfl

end Fleet

/-- Two providers of a method, on two instances; their registrations overlap. -/
def twoInstances : List (FleetAct Nat Nat) :=
  [.registerInstance (0, 0) ⟨str "10.0.0.1", 8080⟩ (str "add") 3,
   .registerInstance (1, 0) ⟨str "10.0.0.2", 8080⟩ (str "add") 5,
   .resume (1, 0) true, .resume (0, 0) true, .resume (0, 0) true, .resume (1, 0) true,
   .disconnectProvider (1, 0)]

theorem close_keeps_live_twoInstances :
    ∃ s t, exec (guarded fleetStep CloseAllowed) {} twoInstances = some s ∧
      fleetStep s (.resume (1, 0) true) = some t ∧ LiveKept s (.resume (1, 0) true) t := by
  obtain ⟨s, hs, hview⟩ := Option.map_eq_some_iff.mp
    (show (exec (guarded fleetStep CloseAllowed) {} twoInstances).map (fun s =>
      (decide (CloseAllowed s (.resume (1, 0) true)), (fleetStep s (.resume (1, 0) true)).isSome)) =
      some (true, true) by decide +kernel)
  obtain ⟨hallowed, henabled⟩ := Prod.mk.inj hview
  obtain ⟨t, ht⟩ := Option.isSome_iff_exists.mp henabled
  exact ⟨s, t, hs, ht, close_keeps_live (Run.of_guarded hs) (of_decide_eq_true hallowed) ht⟩

/-- A provider registers again over a new connection, and then its old one is closed. -/
theorem close_removes_live :
    ¬ ∀ s : Fleet Nat Nat, Reachable fleetStep {} s → ∀ a t, fleetStep s a = some t →
      LiveKept s a t := by
  intro h
  let key := keyFor (str "add") ⟨str "10.0.0.1", 8080⟩
  obtain ⟨s, hs, hview⟩ := Option.bind_eq_some_iff.mp
    (show (exec fleetStep ({} : Fleet Nat Nat)
        [.registerInstance (0, 0) ⟨str "10.0.0.1", 8080⟩ (str "add") 3,
         .resume (0, 0) true, .resume (0, 0) true,
         .registerInstance (0, 1) ⟨str "10.0.0.1", 8080⟩ (str "add") 3,
         .resume (0, 1) true, .resume (0, 1) true,
         .disconnectProvider (0, 0)]).bind (fun s =>
      (fleetStep s (.resume (0, 0) true)).map (fun t =>
        (t.latest key, decide (key ∈ t.keysOf (0, 1)), (t.etcd.kvs.lookup key).isSome))) =
      some (some (0, 1), true, false) by decide +kernel)
  obtain ⟨t, ht, hview⟩ := Option.map_eq_some_iff.mp hview
  obtain ⟨hlatest, hview⟩ := Prod.mk.inj hview
  obtain ⟨hopen, hgone⟩ := Prod.mk.inj hview
  have hstored := ((h s (Reachable.of_exec hs) _ t ht).latest key (0, 1) hlatest
    (of_decide_eq_true hopen)).stored
  rw [hgone] at hstored
  cases hstored

end LyqtRpc
