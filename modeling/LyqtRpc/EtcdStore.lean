import LyqtRpc.Fields
import LyqtRpc.Lib.ByteText
import LyqtRpc.Lib.JsonValue
import LyqtRpc.Lib.AssocTable
import Mathlib.Data.List.AList

/-!
`EtcdRegistryStore`: its keys and values, the maps it keeps, and its operations
on an etcd that executes requests one at a time. `γ` is the type of connections.
-/

set_option autoImplicit false

namespace LyqtRpc

def PROVIDERS : Bytes := str "/lcz-rpc/v1/providers/"

def keyFor (method : Bytes) (host : HostInfo) : Bytes :=
  PROVIDERS ++ method ++ 47 :: (host.ip ++ 58 :: intText host.port)

def valueFor (host : HostInfo) (load : Int32) : Bytes :=
  str "\x7b\"ip\":\"" ++ host.ip ++ str "\",\"port\":" ++ intText host.port ++
    str ",\"load\":" ++ intText load ++ str "\x7d"

def hostFromKey (key : Bytes) : Except CppException HostInfo :=
  match rfind key 47 with
  | none => .ok ⟨[], 0⟩
  | some pos =>
    let addr := key.drop (pos + 1)
    match rfind addr 58 with
    | none => .ok ⟨[], 0⟩
    | some mid => return ⟨addr.take mid, ← stoi (addr.drop (mid + 1))⟩

/-- The method and host of a key, as offline lists have them. -/
def providerOfKey (key : Bytes) : Except CppException (Option (Bytes × HostInfo)) := do
  let h ← hostFromKey key
  match find key (str "/providers/"), rfind key 47 with
  | some start, some stop =>
    -- `size_t` arithmetic: a count below zero takes all there is
    let count := if stop < start + 11 then key.length else stop - (start + 11)
    pure (if h.ip = [] then none else some (substr key (start + 11) count, h))
  | _, _ => pure none

def loadFromValue (json : Jsoncpp) (v : Bytes) : Except CppException Int32 := do
  match ← json.parse v with
  | none => pure 0
  | some j => (← j.get (str "load") (.int 0)).asInt

/-- The keys with their values and leases, and the leases that have not expired. -/
structure Etcd where
  kvs : AList (fun _ : Bytes => Bytes × Int) := ∅
  leases : List Int := []
  granted : Nat := 0

namespace Etcd

def leaseGrant (etcd : Etcd) : Int × Etcd :=
  let lease : Int := etcd.granted + 1
  (lease, { etcd with leases := lease :: etcd.leases, granted := etcd.granted + 1 })

/-- A put with a lease that is gone is answered, and writes nothing. -/
def put (etcd : Etcd) (key value : Bytes) (lease : Int) : Etcd :=
  if lease ∈ etcd.leases then { etcd with kvs := etcd.kvs.insert key (value, lease) } else etcd

def deleteRange (etcd : Etcd) (key : Bytes) : Etcd := { etcd with kvs := etcd.kvs.erase key }

def range (etcd : Etcd) (start stop : Bytes) : List (Bytes × Bytes) :=
  (etcd.kvs.entries.filter (fun e => inRange start stop e.1)).map (fun e => (e.1, e.2.1))

/-- A lease runs out, and its keys with it. -/
def expire (etcd : Etcd) (lease : Int) : Etcd :=
  { etcd with
    leases := etcd.leases.filter (fun l => l ≠ lease)
    kvs := ((etcd.kvs.entries.filter (fun e => e.2.2 = lease)).map (·.1)).foldl
      (fun kvs key => kvs.erase key) etcd.kvs }

def httpGetPrefix (etcd : Etcd) (start : Bytes) : List (Bytes × Bytes) :=
  etcd.range start (rangeEnd start)

end Etcd

structure EtcdRegistryStore (γ : Type) where
  keysByConn : AList (fun _ : γ => List Bytes) := ∅
  /-- A negative id is that of a grant that failed. -/
  keysToLease : AList (fun _ : Bytes => Int) := ∅
  keysToLoad : AList (fun _ : Bytes => Int32) := ∅
  keysToConn : AList (fun _ : Bytes => γ) := ∅
  /-- `_known_keys`: the last snapshot -/
  knownKeys : AList (fun _ : Bytes => Unit) := ∅

def methodPrefix (method : Bytes) : Bytes := PROVIDERS ++ method ++ [47]

/-- The hosts of the keys found, but for those that name none. -/
def hostsOfKeys : List (Bytes × Bytes) → Except CppException (List HostInfo)
  | [] => pure []
  | kv :: kvs => do
    let h ← hostFromKey kv.1
    let hosts ← hostsOfKeys kvs
    pure (if h.ip = [] then hosts else h :: hosts)

def detailsOfKeys (json : Jsoncpp) :
    List (Bytes × Bytes) → Except CppException (List HostDetail)
  | [] => pure []
  | kv :: kvs => do
    let h ← hostFromKey kv.1
    if h.ip = [] then detailsOfKeys json kvs
    else
      let load ← loadFromValue json kv.2
      let details ← detailsOfKeys json kvs
      pure (⟨h, load⟩ :: details)

namespace EtcdRegistryStore
variable {γ : Type} [DecidableEq γ]

/-- The maps after `registerInstance`. -/
def record (s : EtcdRegistryStore γ) (conn : γ) (key : Bytes) (load : Int32) (lease : Int) :
    EtcdRegistryStore γ where
  keysByConn := s.keysByConn.insert conn ((s.keysByConn.lookup conn).getD [] ++ [key])
  keysToLease := s.keysToLease.insert key lease
  keysToLoad := s.keysToLoad.insert key load
  keysToConn := s.keysToConn.insert key conn
  knownKeys := s.knownKeys.insert key ()

def registerInstance (s : EtcdRegistryStore γ) (etcd : Etcd) (conn : γ) (host : HostInfo)
    (method : Bytes) (load : Int32) : EtcdRegistryStore γ × Etcd :=
  let (lease, etcd) := etcd.leaseGrant
  let key := keyFor method host
  (s.record conn key load lease, etcd.put key (valueFor host load) lease)

def methodHost (etcd : Etcd) (method : Bytes) : Except CppException (List HostInfo) :=
  hostsOfKeys (etcd.httpGetPrefix (methodPrefix method))

def methodHostDetails (json : Jsoncpp) (etcd : Etcd) (method : Bytes) :
    Except CppException (List HostDetail) :=
  detailsOfKeys json (etcd.httpGetPrefix (methodPrefix method))

def reportLoad (s : EtcdRegistryStore γ) (etcd : Etcd) (method : Bytes) (host : HostInfo)
    (load : Int32) : Bool × EtcdRegistryStore γ × Etcd :=
  let key := keyFor method host
  let lease := (s.keysToLease.lookup key).getD (-1)
  if lease < 0 then (false, s, etcd)
  else
    (true, { s with keysToLoad := s.keysToLoad.insert key load },
      etcd.put key (valueFor host load) lease)

/-- `keepalive`: etcd renewed the lease, as far as its answer shows. -/
def heartbeat (s : EtcdRegistryStore γ) (etcd : Etcd) (method : Bytes) (host : HostInfo)
    (keepalive : Bool) : Bool × EtcdRegistryStore γ × Etcd :=
  let key := keyFor method host
  let lease := (s.keysToLease.lookup key).getD (-1)
  if lease < 0 then (false, s, etcd)
  else if keepalive then (true, s, etcd)
  else
    let load := (s.keysToLoad.lookup key).getD 0
    let (lease, etcd) := etcd.leaseGrant
    (true,
      { s with
        keysToLease := s.keysToLease.insert key lease
        knownKeys := s.knownKeys.insert key () },
      etcd.put key (valueFor host load) lease)

def forget (s : EtcdRegistryStore γ) (key : Bytes) : EtcdRegistryStore γ :=
  { s with
    keysToLease := s.keysToLease.erase key
    keysToLoad := s.keysToLoad.erase key
    keysToConn := s.keysToConn.erase key
    knownKeys := s.knownKeys.erase key }

/-- The keys of a closed connection, one after the other: listed, and deleted. -/
def deleteKeys (etcd : Etcd) :
    List Bytes → Except CppException (List (Bytes × HostInfo)) × Etcd
  | [] => (.ok [], etcd)
  | key :: keys =>
    match providerOfKey key with
    | .error e => (.error e, etcd)
    | .ok p =>
      let (out, etcd) := deleteKeys (etcd.deleteRange key) keys
      (out.map (p.toList ++ ·), etcd)

/-- The local part of a close: the connection's keys, and the maps without them. -/
def takeConnKeys (s : EtcdRegistryStore γ) (conn : γ) : List Bytes × EtcdRegistryStore γ :=
  match s.keysByConn.lookup conn with
  | none => ([], s)
  | some keys => (keys, keys.foldl forget { s with keysByConn := s.keysByConn.erase conn })

def disconnectProvider (s : EtcdRegistryStore γ) (etcd : Etcd) (conn : γ) :
    Except CppException (List (Bytes × HostInfo)) × EtcdRegistryStore γ × Etcd :=
  let (keys, s) := s.takeConnKeys conn
  let (out, etcd) := deleteKeys etcd keys
  (out, s, etcd)

end EtcdRegistryStore

section Keys
variable {method method' : Bytes} {host host' : HostInfo}

/-- What the text of a key can be read back from. -/
structure Plain (method : Bytes) (host : HostInfo) : Prop where
  method : 47 ∉ method
  ip : 47 ∉ host.ip
  named : host.ip ≠ []

theorem slash_not_mem_address (h : 47 ∉ host.ip) : 47 ∉ host.ip ++ 58 :: intText host.port := by
  intro hmem
  rcases List.mem_append.mp hmem with hip | hport
  · exact h hip
  · rcases List.mem_cons.mp hport with hcolon | htext
    · revert hcolon
      decide
    · exact not_mem_intText (by decide) (by decide) htext

theorem address_eq {ip ip' : Bytes} {port port' : Int32}
    (h : ip ++ 58 :: intText port = ip' ++ 58 :: intText port') : ip = ip' ∧ port = port' := by
  have hcolon : ∀ port : Int32, 58 ∉ intText port :=
    fun _ => not_mem_intText (by decide) (by decide)
  have hlen : ip.length = ip'.length := by
    have hfound := rfind_append ip (hcolon port)
    rw [h, rfind_append ip' (hcolon port')] at hfound
    exact (Option.some.inj hfound).symm
  obtain ⟨hip, hrest⟩ := List.append_inj h hlen
  exact ⟨hip, intText_injective (List.cons.inj hrest).2⟩

theorem keyFor_inj (h : Plain method host) (heq : keyFor method' host' = keyFor method host) :
    method' = method ∧ host' = host := by
  simp only [keyFor, List.append_assoc, List.append_cancel_left_eq] at heq
  obtain ⟨hmethod, haddr⟩ := split_unique h.method (slash_not_mem_address h.ip) heq
  obtain ⟨hip, hport⟩ := address_eq haddr
  refine ⟨hmethod, ?_⟩
  cases host'
  cases host
  simp_all

theorem drop_past (a : Bytes) (c : UInt8) (b : Bytes) :
    (a ++ c :: b).drop (a.length + 1) = b := by simp

/-- A key of an ip with a slash is one of a longer method. -/
theorem keyFor_normal (method : Bytes) (host : HostInfo) :
    ∃ method' host', keyFor method host = keyFor method' host' ∧ 47 ∉ host'.ip := by
  by_cases hslash : 47 ∈ host.ip
  · obtain ⟨a, b, hsplit, ha⟩ := List.eq_append_cons_of_mem (List.mem_reverse.mpr hslash)
    have hip : host.ip = b.reverse ++ 47 :: a.reverse := by
      have hback := congrArg List.reverse hsplit
      simpa using hback
    refine ⟨method ++ 47 :: b.reverse, ⟨a.reverse, host.port⟩, ?_, ?_⟩
    · simp only [keyFor, hip, List.append_assoc, List.cons_append]
    · exact fun hmem => ha (List.mem_reverse.mp hmem)
  · exact ⟨method, host, rfl, hslash⟩

theorem hostFromKey_keyFor (h : 47 ∉ host.ip) : hostFromKey (keyFor method host) = .ok host := by
  have hcolon : 58 ∉ intText host.port := not_mem_intText (by decide) (by decide)
  have hslash : rfind (keyFor method host) 47 = some (PROVIDERS ++ method).length :=
    rfind_append _ (slash_not_mem_address h)
  have haddr : (keyFor method host).drop ((PROVIDERS ++ method).length + 1) =
      host.ip ++ 58 :: intText host.port := drop_past _ _ _
  simp only [hostFromKey, hslash, haddr, rfind_append _ hcolon, List.take_left, drop_past,
    stoi_intText]
  rfl

theorem find_providers (rest : Bytes) : find (PROVIDERS ++ rest) (str "/providers/") = some 11 := by
  have hstarts : PROVIDERS = [47, 108, 99, 122, 45, 114, 112, 99, 47, 118, 49, 47, 112, 114, 111,
      118, 105, 100, 101, 114, 115, 47] := by decide
  have hpat : str "/providers/" = [47, 112, 114, 111, 118, 105, 100, 101, 114, 115, 47] := by
    decide
  simp [hstarts, hpat, find, List.isPrefixOf]

/-- Whatever the method is, its key is cut at the right places. -/
theorem providerOfKey_of_ip (hip : 47 ∉ host.ip) (hnamed : host.ip ≠ []) :
    providerOfKey (keyFor method host) = .ok (some (method, host)) := by
  have hfind : find (keyFor method host) (str "/providers/") = some 11 := by
    rw [keyFor, List.append_assoc]
    exact find_providers _
  have hslash : rfind (keyFor method host) 47 = some (PROVIDERS ++ method).length :=
    rfind_append _ (slash_not_mem_address hip)
  have hlen : (PROVIDERS ++ method).length = 22 + method.length := by
    have hlen : PROVIDERS.length = 22 := by decide
    rw [List.length_append, hlen]
  have hmethod : substr (keyFor method host) 22 method.length = method := by
    have hdrop : (keyFor method host).drop 22 =
        method ++ 47 :: (host.ip ++ 58 :: intText host.port) := by
      have hlen : PROVIDERS.length = 22 := by decide
      rw [keyFor, List.append_assoc, ← hlen, List.drop_left]
    rw [substr, hdrop, List.take_left]
  have hcount : 22 + method.length - (11 + 11) = method.length := by omega
  simp only [providerOfKey, hostFromKey_keyFor hip, hfind, hslash, hlen]
  rw [if_neg (by omega), hcount]
  show Except.ok (if host.ip = [] then none
    else some (substr (keyFor method host) 22 method.length, host)) = _
  rw [if_neg hnamed, hmethod]

theorem providerOfKey_keyFor (h : Plain method host) :
    providerOfKey (keyFor method host) = .ok (some (method, host)) :=
  providerOfKey_of_ip h.ip h.named

/-- The keys under the prefix of a method are its own. -/
theorem prefix_keyFor (h : Plain method host) :
    (methodPrefix method').isPrefixOf (keyFor method host) = true ↔ method' = method := by
  rw [List.isPrefixOf_iff_prefix]
  constructor
  · rintro ⟨rest, hrest⟩
    simp only [methodPrefix, keyFor, List.append_assoc, List.append_cancel_left_eq] at hrest
    exact (split_unique h.method (slash_not_mem_address h.ip) hrest).1
  · rintro rfl
    refine ⟨host.ip ++ 58 :: intText host.port, ?_⟩
    simp only [methodPrefix, keyFor, List.append_assoc, List.cons_append, List.nil_append]

theorem inRange_methodPrefix (key : Bytes) :
    inRange (methodPrefix method) (rangeEnd (methodPrefix method)) key =
      (methodPrefix method).isPrefixOf key :=
  inRange_rangeEnd _ (by decide) key

end Keys

/-! What a store reads of etcd, and what a close takes out of it. -/

section Reads
variable {kvs : List (Bytes × Bytes)}

theorem Etcd.mem_range {etcd : Etcd} {start stop key value : Bytes} :
    (key, value) ∈ etcd.range start stop ↔
      inRange start stop key = true ∧ ∃ lease, etcd.kvs.lookup key = some (value, lease) := by
  simp only [range, List.mem_map, List.mem_filter, Prod.mk.injEq]
  constructor
  · rintro ⟨e, ⟨he, hin⟩, rfl, rfl⟩
    exact ⟨hin, e.2.2, AList.mem_lookup_iff.mpr he⟩
  · rintro ⟨hin, lease, hlookup⟩
    exact ⟨⟨key, value, lease⟩, ⟨AList.mem_lookup_iff.mp hlookup, hin⟩, rfl, rfl⟩

theorem hostsOfKeys_spec (kvs : List (Bytes × Bytes))
    (h : ∀ kv ∈ kvs, ∃ host, hostFromKey kv.1 = .ok host) :
    ∃ hosts, hostsOfKeys kvs = .ok hosts ∧
      ∀ host, host ∈ hosts ↔ host.ip ≠ [] ∧ ∃ kv ∈ kvs, hostFromKey kv.1 = .ok host := by
  induction kvs with
  | nil => exact ⟨[], rfl, by simp⟩
  | cons kv kvs ih =>
      obtain ⟨hosts, hrest, hmem⟩ := ih (fun kv hkv => h kv (List.mem_cons_of_mem _ hkv))
      obtain ⟨host, hhost⟩ := h kv (List.mem_cons_self ..)
      refine ⟨if host.ip = [] then hosts else host :: hosts, ?_, fun host' => ?_⟩
      · simp only [hostsOfKeys, hhost, hrest]
        rfl
      · simp only [List.mem_cons, exists_eq_or_imp, hhost, Except.ok.injEq, eq_comm (a := host)]
        split
        · rename_i hempty
          rw [hmem]
          refine and_congr_right (fun hne => (or_iff_right ?_).symm)
          rintro rfl
          exact hne hempty
        · rename_i hnamed
          rw [List.mem_cons, hmem, and_or_left]
          refine or_congr_left (iff_and_self.mpr ?_)
          rintro rfl
          exact hnamed

theorem detailsOfKeys_spec (json : Jsoncpp) (kvs : List (Bytes × Bytes)) (h : ∀ kv ∈ kvs,
      (∃ host, hostFromKey kv.1 = .ok host ∧ host.ip ≠ []) ∧
        ∃ load, loadFromValue json kv.2 = .ok load) :
    ∃ details, detailsOfKeys json kvs = .ok details ∧ ∀ d, d ∈ details ↔
      ∃ kv ∈ kvs, hostFromKey kv.1 = .ok d.host ∧ loadFromValue json kv.2 = .ok d.load := by
  induction kvs with
  | nil => exact ⟨[], rfl, by simp⟩
  | cons kv kvs ih =>
      obtain ⟨details, hrest, hmem⟩ := ih (fun kv hkv => h kv (List.mem_cons_of_mem _ hkv))
      obtain ⟨⟨host, hhost, hnamed⟩, load, hload⟩ := h kv (List.mem_cons_self ..)
      refine ⟨⟨host, load⟩ :: details, ?_, fun d => ?_⟩
      · simp only [detailsOfKeys, hhost, hload, hrest]
        show (if host.ip = [] then _ else Except.ok (⟨host, load⟩ :: details)) = _
        rw [if_neg hnamed]
      · cases d
        simp only [List.mem_cons, hmem, exists_eq_or_imp, hhost, hload, Except.ok.injEq,
          HostDetail.mk.injEq, eq_comm (b := host), eq_comm (b := load)]

end Reads

namespace EtcdRegistryStore
variable {γ : Type} [DecidableEq γ]

theorem lookup_erase_or {β : Type} (m : AList (fun _ : Bytes => β)) (first key : Bytes)
    (keys : List Bytes) :
    (if key ∈ keys then none else (m.erase first).lookup key) =
      if key ∈ first :: keys then none else m.lookup key := by
  rw [AssocTable.lookup_erase_ite]
  by_cases hkey : key = first
  · simp [hkey]
  · simp [hkey]

theorem lookup_foldl_erase {β : Type} (m : AList (fun _ : Bytes => β)) (keys : List Bytes)
    (key : Bytes) : (keys.foldl (fun m k => m.erase k) m).lookup key =
      if key ∈ keys then none else m.lookup key := by
  induction keys generalizing m with
  | nil => exact (if_neg List.not_mem_nil).symm
  | cons first keys ih => exact (ih (m.erase first)).trans (lookup_erase_or ..)

/-- What is left of etcd when keys are deleted. -/
theorem foldl_deleteRange (etcd : Etcd) (keys : List Bytes) :
    (keys.foldl Etcd.deleteRange etcd).leases = etcd.leases ∧
      ∀ key, (keys.foldl Etcd.deleteRange etcd).kvs.lookup key =
        if key ∈ keys then none else etcd.kvs.lookup key := by
  induction keys generalizing etcd with
  | nil => exact ⟨rfl, fun _ => (if_neg List.not_mem_nil).symm⟩
  | cons first keys ih =>
      obtain ⟨hleases, hlookup⟩ := ih (etcd.deleteRange first)
      exact ⟨hleases, fun key => (hlookup key).trans (lookup_erase_or ..)⟩

/-- What is left of etcd when a lease runs out. -/
theorem lookup_expire (etcd : Etcd) (lease : Int) (key : Bytes) :
    (etcd.expire lease).kvs.lookup key =
      if (etcd.kvs.lookup key).map (·.2) = some lease then none else etcd.kvs.lookup key := by
  refine (lookup_foldl_erase ..).trans (if_congr ?_ rfl rfl)
  simp only [List.mem_map, List.mem_filter, decide_eq_true_eq, Option.map_eq_some_iff]
  constructor
  · rintro ⟨e, ⟨he, hlease⟩, rfl⟩
    exact ⟨e.2, AList.mem_lookup_iff.mpr he, hlease⟩
  · rintro ⟨v, hv, hlease⟩
    exact ⟨⟨key, v⟩, ⟨AList.mem_lookup_iff.mp hv, hlease⟩, rfl⟩

theorem deleteKeys_spec {host : HostInfo} (etcd : Etcd) (methods : List Bytes)
    (h : ∀ method ∈ methods, Plain method host) :
    deleteKeys etcd (methods.map (keyFor · host)) =
      (.ok (methods.map (·, host)), (methods.map (keyFor · host)).foldl Etcd.deleteRange etcd) := by
  induction methods generalizing etcd with
  | nil => rfl
  | cons method methods ih =>
      have hfirst := providerOfKey_keyFor (h method (List.mem_cons_self ..))
      have hrest := ih (etcd.deleteRange (keyFor method host))
        (fun m hm => h m (List.mem_cons_of_mem _ hm))
      simp only [List.map_cons, deleteKeys, hfirst, List.foldl_cons, hrest]
      rfl

omit [DecidableEq γ] in
theorem foldl_forget (s : EtcdRegistryStore γ) (keys : List Bytes) :
    let t := keys.foldl forget s
    t.keysByConn = s.keysByConn ∧
      (∀ key, t.keysToLease.lookup key = if key ∈ keys then none else s.keysToLease.lookup key) ∧
      (∀ key, t.keysToLoad.lookup key = if key ∈ keys then none else s.keysToLoad.lookup key) ∧
      ∀ key, t.knownKeys.lookup key = if key ∈ keys then none else s.knownKeys.lookup key := by
  induction keys generalizing s with
  | nil => simp
  | cons first keys ih =>
      obtain ⟨hconns, hlease, hload, hknown⟩ := ih (s.forget first)
      exact ⟨hconns, fun key => (hlease key).trans (lookup_erase_or ..),
        fun key => (hload key).trans (lookup_erase_or ..),
        fun key => (hknown key).trans (lookup_erase_or ..)⟩

end EtcdRegistryStore

end LyqtRpc
