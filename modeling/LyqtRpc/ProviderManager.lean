import LyqtRpc.Fields
import LyqtRpc.Lib.OrderedMap
import Mathlib.Data.List.AList
import Mathlib.Logic.Function.Basic

/-!
`ProviderManager` behind `MemoryRegistryStore`, and `PwithDManager` over it. A
connection has its `Provider` object, a method the set of the objects that offer
it; objects are known by their addresses, in whose order a set is passed through.
-/

set_option autoImplicit false

namespace LyqtRpc

/-- `γ` is the type of connections. -/
structure Provider (γ : Type) where
  conn : γ
  address : HostInfo
  load : Int32 := 0
  methods : List Bytes := []
  /-- `steady_clock`, in nanoseconds. -/
  lastheartbeat : Int

/-- `std::set<Provider::ptr>` -/
abbrev ProviderSet := OrderedMap Nat Unit

structure ProviderManager (γ : Type) where
  /-- Every object made so far. -/
  objects : Nat → Option (Provider γ) := fun _ => none
  methodwithproviders : AList (fun _ : Bytes => ProviderSet) := ∅
  connwithp : AList (fun _ : γ => Nat) := ∅

/-- What `addProvider` makes of the provider a connection has. -/
def Provider.extended {γ : Type} (x : Provider γ) (method : Bytes) (load : Int32) (now : Int) :
    Provider γ :=
  { x with load, lastheartbeat := now, methods := x.methods ++ [method] }

namespace ProviderManager
variable {γ : Type} [DecidableEq γ]

/-- `_methodwithproviders[method]`, empty where there is no entry. -/
def providers (s : ProviderManager γ) (method : Bytes) : ProviderSet :=
  (s.methodwithproviders.lookup method).getD {}

def withProviders (s : ProviderManager γ) (method : Bytes) (set : ProviderSet) :
    ProviderManager γ :=
  { s with methodwithproviders := s.methodwithproviders.insert method set }

def update (s : ProviderManager γ) (p : Nat) (f : Provider γ → Provider γ) : ProviderManager γ :=
  { s with objects := Function.update s.objects p ((s.objects p).map f) }

/-- The object of a connection, made at `fresh` where it has none. -/
def provide (s : ProviderManager γ) (conn : γ) (host : HostInfo) (now : Int) (fresh : Nat) :
    ProviderManager γ × Nat :=
  match s.connwithp.lookup conn with
  | none =>
    ({ s with
       objects := Function.update s.objects fresh
         (some { conn, address := host, lastheartbeat := now })
       connwithp := s.connwithp.insert conn fresh }, fresh)
  | some p => (s, p)

def addProvider (s : ProviderManager γ) (conn : γ) (host : HostInfo) (method : Bytes)
    (load : Int32) (now : Int) (fresh : Nat) : ProviderManager γ :=
  let (s, p) := s.provide conn host now fresh
  (s.withProviders method ((s.providers method).assign p ())).update p (fun x =>
    { x with load, lastheartbeat := now, methods := x.methods ++ [method] })

def getProvider (s : ProviderManager γ) (conn : γ) : Option Nat := s.connwithp.lookup conn

def delProvider (s : ProviderManager γ) (conn : γ) : ProviderManager γ :=
  match s.connwithp.lookup conn with
  | none => s
  | some p =>
    let methods := ((s.objects p).map (·.methods)).getD []
    let erased := methods.foldl (fun s method =>
      s.withProviders method ((s.providers method).erase p)) s
    { erased with connwithp := s.connwithp.erase conn }

def methodHost (s : ProviderManager γ) (method : Bytes) : List HostInfo :=
  (s.providers method).keys.filterMap (fun p => (s.objects p).map (·.address))

def methodHostDetails (s : ProviderManager γ) (method : Bytes) : List HostDetail :=
  (s.providers method).keys.filterMap (fun p =>
    (s.objects p).map (fun x => { host := x.address, load := x.load }))

omit [DecidableEq γ] in
theorem map_host_methodHostDetails (s : ProviderManager γ) (method : Bytes) :
    (s.methodHostDetails method).map (·.host) = s.methodHost method := by
  simp only [methodHostDetails, methodHost, List.map_filterMap, Option.map_map, Function.comp_def]

/-- The first provider of the method at `host`, if there is one. -/
def updateFirst (s : ProviderManager γ) (method : Bytes) (host : HostInfo)
    (f : Provider γ → Provider γ) : Bool × ProviderManager γ :=
  match (s.providers method).keys.find? (fun p =>
    (s.objects p).any (fun x => x.address = host)) with
  | none => (false, s)
  | some p => (true, s.update p f)

def updateProviderLoad (s : ProviderManager γ) (method : Bytes) (host : HostInfo)
    (load : Int32) (now : Int) : Bool × ProviderManager γ :=
  s.updateFirst method host (fun x => { x with load, lastheartbeat := now })

def updateProviderLastHeartbeat (s : ProviderManager γ) (method : Bytes) (host : HostInfo)
    (now : Int) : Bool × ProviderManager γ :=
  s.updateFirst method host (fun x => { x with lastheartbeat := now })

/-- No heartbeat for longer than `idle_timeout`, in seconds. -/
def expired (s : ProviderManager γ) (idle_timeout now : Int) (p : Nat) : Bool :=
  (s.objects p).any (fun x => idle_timeout * 10 ^ 9 < now - x.lastheartbeat)

/-- `to_remove_providers` -/
def toRemove (s : ProviderManager γ) (idle_timeout now : Int) (set : ProviderSet) : List Nat :=
  set.keys.filter (s.expired idle_timeout now)

def mapSets (m : AList (fun _ : Bytes => ProviderSet)) (f : ProviderSet → ProviderSet) :
    AList (fun _ : Bytes => ProviderSet) where
  entries := m.entries.map (Sigma.map id (fun _ => f))
  nodupKeys := by
    rw [List.NodupKeys, List.map₂_keys]
    exact m.nodupKeys

def sweepExpired (s : ProviderManager γ) (idle_timeout now : Int) :
    List (Bytes × HostInfo) × ProviderManager γ :=
  (s.methodwithproviders.entries.flatMap (fun e =>
     (s.toRemove idle_timeout now e.2).filterMap (fun p =>
       (s.objects p).map (fun x => (e.1, x.address)))),
   { s with
     methodwithproviders := mapSets s.methodwithproviders (fun set =>
       (s.toRemove idle_timeout now set).foldl (fun set p => set.erase p) set) })

/-- `MemoryRegistryStore::disconnectProvider` -/
def disconnectProvider (s : ProviderManager γ) (conn : γ) :
    List (Bytes × HostInfo) × ProviderManager γ :=
  match (s.getProvider conn).bind s.objects with
  | none => ([], s)
  | some x => (x.methods.map (fun method => (method, x.address)), s.delProvider conn)

variable {s t : ProviderManager γ} {conn : γ} {method : Bytes} {p : Nat} {x y : Provider γ}

omit [DecidableEq γ] in
theorem providers_withProviders (set : ProviderSet) (method' : Bytes) :
    (s.withProviders method set).providers method' =
      if method' = method then set else s.providers method' := by
  unfold providers withProviders
  split
  · rename_i heq
    rw [heq, AList.lookup_insert]
    rfl
  · rename_i hne
    rw [AList.lookup_insert_ne hne]

omit [DecidableEq γ] in
theorem objects_update (f : Provider γ → Provider γ) (q : Nat) :
    (s.update p f).objects q = if q = p then (s.objects p).map f else s.objects q := by
  simp only [update, Function.update_apply]

/-- The object a registration goes into, as it is before: a new one, or the one
the connection has. -/
inductive ObjectOf (s : ProviderManager γ) (conn : γ) (host : HostInfo) (now : Int) (p : Nat) :
    Provider γ → Prop where
  | new : s.connwithp.lookup conn = none → s.objects p = none →
      ObjectOf s conn host now p { conn, address := host, lastheartbeat := now }
  | old {base : Provider γ} : s.connwithp.lookup conn = some p → s.objects p = some base →
      ObjectOf s conn host now p base

namespace ObjectOf
variable {host : HostInfo} {now : Int} {base : Provider γ}

theorem only (h : ObjectOf s conn host now p base) {q : Nat}
    (hq : s.connwithp.lookup conn = some q) : q = p := by
  cases h with
  | new hnone => cases hnone.symm.trans hq
  | old hlookup => exact Option.some.inj (hq.symm.trans hlookup)

theorem same (h : ObjectOf s conn host now p base) (hx : s.objects p = some x) : x = base := by
  cases h with
  | new _ hnone => cases hnone.symm.trans hx
  | old _ hbase => exact Option.some.inj (hx.symm.trans hbase)

end ObjectOf

/-- What `addProvider` does: `p` is the object of the connection, and `y` is what
it holds afterwards. -/
structure Registers (s t : ProviderManager γ) (conn : γ) (method : Bytes) (p : Nat)
    (y : Provider γ) : Prop where
  conns : ∀ c, t.connwithp.lookup c = if c = conn then some p else s.connwithp.lookup c
  objects : ∀ q, t.objects q = if q = p then some y else s.objects q
  sets : ∀ method', t.providers method' =
    if method' = method then (s.providers method).assign p () else s.providers method'

theorem addProvider_registers
    (hconnected : ∀ c q, s.connwithp.lookup c = some q → (s.objects q).isSome) {fresh : Nat}
    (hfresh : (s.objects fresh).isNone) (conn : γ) (host : HostInfo) (method : Bytes)
    (load : Int32) (now : Int) :
    ∃ p base, ObjectOf s conn host now p base ∧
      Registers s (s.addProvider conn host method load now fresh) conn method p
        (base.extended method load now) := by
  cases hlookup : s.connwithp.lookup conn with
  | none =>
    refine ⟨fresh, _, .new hlookup (Option.isNone_iff_eq_none.mp hfresh), ?_⟩
    simp only [addProvider, provide, hlookup]
    refine ⟨fun c => ?_, fun q => ?_, fun method' => providers_withProviders ..⟩
    · split
      · rename_i hc
        subst hc
        exact AList.lookup_insert _
      · rename_i hc
        exact AList.lookup_insert_ne hc
    · rw [objects_update]
      split
      · exact congrArg (Option.map _) (Function.update_self fresh _ s.objects)
      · rename_i hq
        exact Function.update_of_ne hq _ s.objects
  | some p =>
    obtain ⟨base, hbase⟩ := Option.isSome_iff_exists.mp (hconnected conn p hlookup)
    refine ⟨p, base, .old hlookup hbase, ?_⟩
    simp only [addProvider, provide, hlookup]
    refine ⟨fun c => ?_, fun q => ?_, fun method' => providers_withProviders ..⟩
    · split
      · rename_i hc
        exact hc ▸ hlookup
      · rfl
    · rw [objects_update]
      split
      · exact congrArg (Option.map _) hbase
      · rfl

namespace Registers

theorem mem_keys (h : Registers s t conn method p y) (method' : Bytes) (q : Nat) :
    q ∈ (t.providers method').keys ↔
      q ∈ (s.providers method').keys ∨ (method' = method ∧ q = p) := by
  rw [h.sets]
  split
  · rename_i heq
    subst heq
    rw [OrderedMap.mem_keys_assign]
    tauto
  · tauto

theorem object (h : Registers s t conn method p y) : t.objects p = some y :=
  (h.objects p).trans (if_pos rfl)

theorem others (h : Registers s t conn method p y) (q : Nat) (hq : q ≠ p) :
    t.objects q = s.objects q :=
  (h.objects q).trans (if_neg hq)

end Registers

end ProviderManager

/-- One call of `DiscoverManager::notify`: it goes to every discoverer of the method. -/
structure Notice where
  service_type : ServiceOpType
  method : Bytes
  host : HostInfo
  deriving DecidableEq, Repr

structure PwithDManager (γ : Type) where
  rstore : ProviderManager γ := {}
  notified : List Notice := []

/-- `now` is what `steady_clock` says; `fresh` is where a new object would be. -/
inductive RegistryAct (γ : Type) where
  | register (conn : γ) (host : HostInfo) (method : Bytes) (load : Int32) (now : Int) (fresh : Nat)
  | loadReport (host : HostInfo) (method : Bytes) (load : Int32) (now : Int)
  | heartbeatProvider (host : HostInfo) (method : Bytes) (now : Int)
  | onconnShoutdown (conn : γ)
  | sweepAndNotify (idle_timeout_sec : Int32) (now : Int)

def offlineNotices (offline : List (Bytes × HostInfo)) : List Notice :=
  offline.map (fun e => ⟨.OFFLINE, e.1, e.2⟩)

def registryStep {γ : Type} [DecidableEq γ] (s : PwithDManager γ) :
    RegistryAct γ → Option (PwithDManager γ)
  | .register conn host method load now fresh =>
    if (s.rstore.objects fresh).isNone then
      some { rstore := s.rstore.addProvider conn host method load now fresh
             notified := s.notified ++ [⟨.ONLINE, method, host⟩] }
    else none
  | .loadReport host method load now =>
    some { s with rstore := (s.rstore.updateProviderLoad method host load now).2 }
  | .heartbeatProvider host method now =>
    some { s with rstore := (s.rstore.updateProviderLastHeartbeat method host now).2 }
  | .onconnShoutdown conn =>
    let (offline, rstore) := s.rstore.disconnectProvider conn
    some { rstore, notified := s.notified ++ offlineNotices offline }
  | .sweepAndNotify idle_timeout_sec now =>
    let (expired, rstore) := s.rstore.sweepExpired idle_timeout_sec.toInt now
    some { rstore, notified := s.notified ++ offlineNotices expired }

/-- `methodHost(method)` lists the host. -/
def Discoverable {γ : Type} (s : PwithDManager γ) (method : Bytes) (host : HostInfo) : Prop :=
  host ∈ s.rstore.methodHost method

instance {γ : Type} (s : PwithDManager γ) (method : Bytes) (host : HostInfo) :
    Decidable (Discoverable s method host) :=
  inferInstanceAs (Decidable (host ∈ s.rstore.methodHost method))

end LyqtRpc
