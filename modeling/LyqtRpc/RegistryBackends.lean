import LyqtRpc.EtcdStore
import LyqtRpc.ProviderView

/-!
`IRegistryStore` and its two backends side by side: the same calls made of a
`MemoryRegistryStore` and of an `EtcdRegistryStore` whose etcd always answers,
with no lease running out.
-/

set_option autoImplicit false

namespace LyqtRpc

open StepRun

inductive StoreCall (γ : Type) where
  | registerInstance (conn : γ) (host : HostInfo) (method : Bytes) (load : Int32)
  | methodHost (method : Bytes)
  | methodHostDetails (method : Bytes)
  | reportLoad (method : Bytes) (host : HostInfo) (load : Int32)
  | heartbeat (method : Bytes) (host : HostInfo)
  | disconnectProvider (conn : γ)

inductive StoreReply where
  | done
  | updated (success : Bool)
  | hosts (hosts : List HostInfo)
  | details (details : List HostDetail)
  | offline (providers : List (Bytes × HostInfo))
  | threw (e : CppException)

section Backends
variable {γ : Type} [DecidableEq γ]

/-- `MemoryRegistryStore` -/
def ProviderManager.serve (s : ProviderManager γ) (now : Int) (fresh : Nat) :
    StoreCall γ → StoreReply × ProviderManager γ
  | .registerInstance conn host method load =>
    (.done, s.addProvider conn host method load now fresh)
  | .methodHost method => (.hosts (s.methodHost method), s)
  | .methodHostDetails method => (.details (s.methodHostDetails method), s)
  | .reportLoad method host load =>
    let (success, s) := s.updateProviderLoad method host load now
    (.updated success, s)
  | .heartbeat method host =>
    let (success, s) := s.updateProviderLastHeartbeat method host now
    (.updated success, s)
  | .disconnectProvider conn =>
    let (out, s) := s.disconnectProvider conn
    (.offline out, s)

def StoreReply.ofExcept {α : Type} (f : α → StoreReply) : Except CppException α → StoreReply
  | .ok a => f a
  | .error e => .threw e

def EtcdRegistryStore.serve (json : Jsoncpp) (s : EtcdRegistryStore γ) (etcd : Etcd)
    (keepalive : Bool) : StoreCall γ → StoreReply × EtcdRegistryStore γ × Etcd
  | .registerInstance conn host method load =>
    (.done, s.registerInstance etcd conn host method load)
  | .methodHost method => (.ofExcept .hosts (methodHost etcd method), s, etcd)
  | .methodHostDetails method => (.ofExcept .details (methodHostDetails json etcd method), s, etcd)
  | .reportLoad method host load =>
    let (success, s, etcd) := s.reportLoad etcd method host load
    (.updated success, s, etcd)
  | .heartbeat method host =>
    let (success, s, etcd) := s.heartbeat etcd method host keepalive
    (.updated success, s, etcd)
  | .disconnectProvider conn =>
    let (out, s, etcd) := s.disconnectProvider etcd conn
    (.ofExcept .offline out, s, etcd)

/-- The same boolean, the same set. -/
def StoreReply.Same : StoreReply → StoreReply → Prop
  | .done, .done => True
  | .updated b, .updated b' => b = b'
  | .hosts l, .hosts l' => ∀ h, h ∈ l ↔ h ∈ l'
  | .details l, .details l' => ∀ d, d ∈ l ↔ d ∈ l'
  | .offline l, .offline l' => ∀ p, p ∈ l ↔ p ∈ l'
  | _, _ => False

structure Backends (γ : Type) where
  memory : ProviderManager γ := {}
  store : EtcdRegistryStore γ := {}
  etcd : Etcd := {}

/-- `now` and `fresh` are the memory store's clock and the address of a new object;
`keepalive` is how etcd answers, should it be asked. -/
structure BackendsAct (γ : Type) where
  call : StoreCall γ
  now : Int := 0
  fresh : Nat := 0
  keepalive : Bool := true

def backendsStep (json : Jsoncpp) (b : Backends γ) (a : BackendsAct γ) : Option (Backends γ) :=
  if (b.memory.objects a.fresh).isNone then
    let (_, store, etcd) := b.store.serve json b.etcd a.keepalive a.call
    some { memory := (b.memory.serve a.now a.fresh a.call).2, store, etcd }
  else none

def Provider.offers (x : Provider γ) (method : Bytes) (host : HostInfo) : Bool :=
  x.address = host && method ∈ x.methods

/-- The load that is given for one method is right for all the provider offers. -/
def Provider.sameLoad (x : Provider γ) (method : Bytes) (load : Int32) : Bool :=
  x.load = load || x.methods.all (fun m => m = method)

instance (method : Bytes) (host : HostInfo) : Decidable (Plain method host) :=
  decidable_of_iff (47 ∉ method ∧ 47 ∉ host.ip ∧ host.ip ≠ [])
    ⟨fun h => ⟨h.1, h.2.1, h.2.2⟩, fun h => ⟨h.1, h.2, h.3⟩⟩

/-- The text of a value gives its load back. -/
def readsBack (json : Jsoncpp) (host : HostInfo) (load : Int32) : Bool :=
  match loadFromValue json (valueFor host load) with
  | .ok l => l = load
  | .error _ => false

/-- The call does not set the backends apart. A registration: names whose key and
value can be read back, one address and one load for a connection, and no other
connection offering the same. A load report: one load for a connection. -/
def interchangeable (json : Jsoncpp) (s : ProviderManager γ) : StoreCall γ → Bool
  | .registerInstance conn host method load =>
    decide (Plain method host) && readsBack json host load &&
    (s.providerOf conn).all (fun x => x.address = host && x.sameLoad method load) &&
    s.connwithp.keys.all (fun c => c = conn ||
      (s.providerOf c).all (fun x => !x.offers method host))
  | .reportLoad method host load =>
    s.connwithp.keys.all (fun c => (s.providerOf c).all (fun x =>
      !x.offers method host || (readsBack json host load && x.sameLoad method load)))
  | _ => true

end Backends

end LyqtRpc
