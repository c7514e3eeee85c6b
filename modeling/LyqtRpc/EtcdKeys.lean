import LyqtRpc.Lib.Base64
import LyqtRpc.EtcdStore

/-!
Keys of the etcd backend for methods of any bytes: what is read back from a key,
and whose hosts the prefix of a method finds.
-/

set_option autoImplicit false

namespace LyqtRpc

namespace EtcdRegistryStore

def base64Encode (s : Bytes) : Bytes := Base64.encode s

/-- A character that is not in the alphabet throws. -/
def base64Decode (s : Bytes) : Except CppException Bytes :=
  match Base64.decode s with
  | some bytes => .ok bytes
  | none => .error (.other (str "dataflow_exception"))

end EtcdRegistryStore

/-- A `registerInstance` for a method and a host that have a name. -/
structure EtcdRegistration (γ : Type) where
  conn : γ
  method : Bytes
  host : HostInfo
  load : Int32
  methodNamed : method ≠ []
  hostNamed : host.ip ≠ []
  slashFree : 47 ∉ host.ip

namespace EtcdRegistration
variable {γ : Type} [DecidableEq γ]

def key (r : EtcdRegistration γ) : Bytes := keyFor r.method r.host

def register (state : EtcdRegistryStore γ × Etcd) (r : EtcdRegistration γ) :
    EtcdRegistryStore γ × Etcd :=
  state.1.registerInstance state.2 r.conn r.host r.method r.load

/-- The store and etcd after the registrations, from the first one on. -/
def registerAll (regs : List (EtcdRegistration γ)) : EtcdRegistryStore γ × Etcd :=
  regs.foldl register ({}, {})

end EtcdRegistration

/-- The hosts registered under the method, each of them once. -/
structure HostsOf {γ : Type} (regs : List (EtcdRegistration γ)) (method : Bytes)
    (hosts : List HostInfo) : Prop where
  once : hosts.Nodup
  registered : ∀ host, host ∈ hosts ↔ ∃ r ∈ regs, r.method = method ∧ r.host = host

section Keys
variable {γ : Type} [DecidableEq γ] {regs : List (EtcdRegistration γ)} {method : Bytes}

theorem EtcdRegistryStore.base64Decode_base64Encode (s : Bytes) :
    base64Decode (base64Encode s) = .ok s := by
  simp [base64Decode, base64Encode, Base64.decode_encode]

omit [DecidableEq γ] in
theorem EtcdRegistration.key_injective {r r' : EtcdRegistration γ} (h : r.key = r'.key) :
    r.method = r'.method ∧ r.host = r'.host := by
  have hread : providerOfKey (keyFor r.method r.host) = .ok (some (r.method, r.host)) :=
    providerOfKey_of_ip r.slashFree r.hostNamed
  rw [show keyFor r.method r.host = keyFor r'.method r'.host from h,
    providerOfKey_of_ip r'.slashFree r'.hostNamed] at hread
  simp only [Except.ok.injEq, Option.some.injEq, Prod.mk.injEq] at hread
  exact ⟨hread.1.symm, hread.2.symm⟩

theorem EtcdRegistration.lookup_register (state : EtcdRegistryStore γ × Etcd)
    (r : EtcdRegistration γ) (key : Bytes) :
    ((register state r).2.kvs.lookup key).isSome = true
      ↔ key = r.key ∨ (state.2.kvs.lookup key).isSome = true := by
  simp only [register, EtcdRegistryStore.registerInstance, Etcd.leaseGrant, Etcd.put,
    List.mem_cons, true_or, if_true, AssocTable.lookup_insert_ite]
  by_cases h : key = r.key
  · simp [h, EtcdRegistration.key]
  · have hne : key ≠ keyFor r.method r.host := h
    simp [h, hne]

/-- The keys in etcd are those of the registrations. -/
theorem EtcdRegistration.lookup_registerAll (key : Bytes) :
    ((registerAll regs).2.kvs.lookup key).isSome = true ↔ ∃ r ∈ regs, key = r.key := by
  unfold registerAll
  induction regs using List.reverseRecOn with
  | nil => simp
  | append_singleton rest r ih =>
    rw [List.foldl_append, List.foldl_cons, List.foldl_nil, lookup_register, ih]
    simp only [List.mem_append, List.mem_singleton]
    constructor
    · intro h
      cases h with
      | inl heq => exact ⟨r, Or.inr rfl, heq⟩
      | inr hrest =>
        obtain ⟨r', hr', hkey⟩ := hrest
        exact ⟨r', Or.inl hr', hkey⟩
    · intro h
      obtain ⟨r', hr' | rfl, hkey⟩ := h
      · exact Or.inr ⟨r', hr', hkey⟩
      · exact Or.inl hkey

/-- The host in a key, where there is one. -/
def hostOfKey (key : Bytes) : HostInfo := (hostFromKey key).toOption.getD ⟨[], 0⟩

omit [DecidableEq γ] in
theorem EtcdRegistration.hostFromKey_key (r : EtcdRegistration γ) :
    hostFromKey r.key = .ok r.host := hostFromKey_keyFor r.slashFree

theorem hostsOfKeys_eq_map {kvs : List (Bytes × Bytes)}
    (h : ∀ kv ∈ kvs, ∃ host, hostFromKey kv.1 = .ok host ∧ host.ip ≠ []) :
    hostsOfKeys kvs = .ok (kvs.map fun kv => hostOfKey kv.1) := by
  induction kvs with
  | nil => rfl
  | cons kv kvs ih =>
    obtain ⟨host, hhost, hnamed⟩ := h kv (List.mem_cons_self ..)
    have hrest := ih (fun kv' hkv' => h kv' (List.mem_cons_of_mem _ hkv'))
    have hof : hostOfKey kv.1 = host := by simp [hostOfKey, hhost, Except.toOption]
    rw [hostsOfKeys, hhost, hrest, List.map_cons, hof]
    show Except.ok (if host.ip = [] then _ else _) = _
    rw [if_neg hnamed]

theorem Etcd.range_keys_nodup (etcd : Etcd) (start stop : Bytes) :
    ((etcd.range start stop).map Prod.fst).Nodup := by
  have hkeys : (etcd.kvs.entries.map Sigma.fst).Nodup := etcd.kvs.nodupKeys
  have hsub : ((etcd.kvs.entries.filter fun e => inRange start stop e.1).map Sigma.fst).Sublist
      (etcd.kvs.entries.map Sigma.fst) := List.filter_sublist.map _
  rw [Etcd.range, List.map_map]
  exact hkeys.sublist hsub

/-- The prefix of a method starts its own keys, and those of methods that go on
with a slash. -/
theorem methodPrefix_prefix_iff {method' : Bytes} {host : HostInfo} (h : 47 ∉ host.ip) :
    (methodPrefix method).isPrefixOf (keyFor method' host) = true ↔
      method' = method ∨ method ++ [47] <+: method' := by
  have haddr := slash_not_mem_address h
  rw [List.isPrefixOf_iff_prefix]
  constructor
  · intro hprefix
    obtain ⟨rest, hrest⟩ := hprefix
    simp only [methodPrefix, keyFor, List.append_assoc, List.append_cancel_left_eq,
      List.cons_append, List.nil_append] at hrest
    cases List.append_eq_append_iff.mp hrest with
    | inl hlonger =>
      obtain ⟨tail, hmethod, hcut⟩ := hlonger
      cases tail with
      | nil => exact Or.inl (by simpa using hmethod)
      | cons c tail =>
        have hc : c = 47 := (List.cons.inj hcut).1.symm
        exact Or.inr ⟨tail, by rw [hmethod, hc, List.append_assoc, List.singleton_append]⟩
    | inr hshorter =>
      obtain ⟨tail, hmethod, hcut⟩ := hshorter
      cases tail with
      | nil => exact Or.inl (by simpa using hmethod.symm)
      | cons c tail =>
        -- the slash would be in the address
        have hmem : (47 : UInt8) ∈ host.ip ++ 58 :: intText host.port := by
          rw [(List.cons.inj hcut).2]
          simp
        exact absurd hmem haddr
  · intro hmethod
    cases hmethod with
    | inl heq =>
      rw [heq]
      exact ⟨host.ip ++ 58 :: intText host.port, by simp [methodPrefix, keyFor]⟩
    | inr hlonger =>
      obtain ⟨tail, rfl⟩ := hlonger
      exact ⟨tail ++ 47 :: (host.ip ++ 58 :: intText host.port), by simp [methodPrefix, keyFor]⟩

/-- What the prefix of the method finds. -/
theorem EtcdRegistration.mem_found (key : Bytes) :
    (∃ value, (key, value) ∈ (registerAll regs).2.httpGetPrefix (methodPrefix method)) ↔
      ∃ r ∈ regs, key = r.key ∧ (r.method = method ∨ method ++ [47] <+: r.method) := by
  simp only [Etcd.httpGetPrefix, Etcd.mem_range, inRange_methodPrefix]
  constructor
  · intro h
    obtain ⟨value, hprefix, lease, hlookup⟩ := h
    obtain ⟨r, hr, hkey⟩ := (lookup_registerAll key).mp (by rw [hlookup]; rfl)
    rw [hkey] at hprefix
    exact ⟨r, hr, hkey, (methodPrefix_prefix_iff r.slashFree).mp hprefix⟩
  · intro h
    obtain ⟨r, hr, hkey, hmethod⟩ := h
    obtain ⟨entry, hentry⟩ :=
      Option.isSome_iff_exists.mp ((lookup_registerAll key).mpr ⟨r, hr, hkey⟩)
    refine ⟨entry.1, ?_, entry.2, hentry⟩
    rw [hkey]
    exact (methodPrefix_prefix_iff r.slashFree).mpr hmethod

/-- The answer, with one host for each key. -/
theorem EtcdRegistration.methodHost_registerAll :
    EtcdRegistryStore.methodHost (registerAll regs).2 method =
      .ok (((registerAll regs).2.httpGetPrefix (methodPrefix method)).map
        fun kv => hostOfKey kv.1) := by
  apply hostsOfKeys_eq_map
  intro kv hkv
  obtain ⟨r, _, hkey, _⟩ := (mem_found kv.1).mp ⟨kv.2, hkv⟩
  exact ⟨r.host, by rw [hkey, r.hostFromKey_key], r.hostNamed⟩

/-- One host for each key is one host for each registration if and only if the keys
found are those of the method itself. -/
theorem EtcdRegistration.hostsOf_iff :
    HostsOf regs method (((registerAll regs).2.httpGetPrefix (methodPrefix method)).map
        fun kv => hostOfKey kv.1) ↔
      ∀ r ∈ regs, ¬method ++ [47] <+: r.method := by
  have hof : ∀ r : EtcdRegistration γ, hostOfKey r.key = r.host :=
    fun r => by simp [hostOfKey, r.hostFromKey_key, Except.toOption]
  constructor
  · intro h r hr hlonger
    obtain ⟨value, hfound⟩ := (mem_found r.key).mpr ⟨r, hr, rfl, Or.inr hlonger⟩
    have hmem := List.mem_map_of_mem (f := fun kv => hostOfKey kv.1) hfound
    obtain ⟨r', hr', hmethod, hhost⟩ := (h.registered _).mp hmem
    obtain ⟨value', hfound'⟩ := (mem_found r'.key).mpr ⟨r', hr', rfl, Or.inl hmethod⟩
    -- two keys name the host, and it was to be there once
    have hsame := List.inj_on_of_nodup_map h.once hfound hfound'
      (by simp only [hof] at hhost ⊢; exact hhost.symm)
    have hmethods := (key_injective (congrArg Prod.fst hsame)).1
    obtain ⟨tail, htail⟩ := hlonger
    have hlen := congrArg List.length (htail.trans (hmethods.trans hmethod))
    simp at hlen
  · intro h
    constructor
    · apply List.Nodup.map_on
      · intro kv hkv kv' hkv' hhost
        obtain ⟨r, hr, hkey, hm⟩ := (mem_found kv.1).mp ⟨kv.2, hkv⟩
        obtain ⟨r', hr', hkey', hm'⟩ := (mem_found kv'.1).mp ⟨kv'.2, hkv'⟩
        simp only [hkey, hkey', hof] at hhost
        have hown : r.method = method := hm.resolve_right (h r hr)
        have hown' : r'.method = method := hm'.resolve_right (h r' hr')
        have hkeys : kv.1 = kv'.1 := by
          rw [hkey, hkey', EtcdRegistration.key, EtcdRegistration.key, hown, hown', hhost]
        exact List.inj_on_of_nodup_map (Etcd.range_keys_nodup _ _ _) hkv hkv' hkeys
      · exact (Etcd.range_keys_nodup _ _ _).of_map
    · intro host
      simp only [List.mem_map]
      constructor
      · intro hmem
        obtain ⟨kv, hkv, hhost⟩ := hmem
        obtain ⟨r, hr, hkey, hm⟩ := (mem_found kv.1).mp ⟨kv.2, hkv⟩
        rw [hkey, hof] at hhost
        exact ⟨r, hr, hm.resolve_right (h r hr), hhost⟩
      · intro hreg
        obtain ⟨r, hr, hm, rfl⟩ := hreg
        obtain ⟨value, hfound⟩ := (mem_found r.key).mpr ⟨r, hr, rfl, Or.inl hm⟩
        exact ⟨_, hfound, hof r⟩

end Keys

/-- base64 is undone, and a method and a host are read back from their key, whatever
the bytes; the hosts of a method are those registered for it exactly if no method is
registered that goes on, after it, with a slash. -/
theorem etcd_keys_iff {γ : Type} [DecidableEq γ] (s : Bytes) (regs : List (EtcdRegistration γ))
    (method : Bytes) :
    EtcdRegistryStore.base64Decode (EtcdRegistryStore.base64Encode s) = .ok s ∧
      (∀ r ∈ regs, providerOfKey (keyFor r.method r.host) = .ok (some (r.method, r.host))) ∧
      ((∃ hosts, EtcdRegistryStore.methodHost (EtcdRegistration.registerAll regs).2 method
            = .ok hosts ∧ HostsOf regs method hosts) ↔
        ∀ r ∈ regs, ¬method ++ [47] <+: r.method) := by
  refine ⟨EtcdRegistryStore.base64Decode_base64Encode s,
    fun r _ => providerOfKey_of_ip r.slashFree r.hostNamed, ?_⟩
  rw [EtcdRegistration.methodHost_registerAll, ← EtcdRegistration.hostsOf_iff]
  simp

/-- `a` and `a/b`, each on a host of its own. -/
def slashMethods : List (EtcdRegistration Nat) :=
  [⟨1, str "a", ⟨str "10.0.0.1", 80⟩, 0, by decide, by decide, by decide⟩,
    ⟨2, str "a/b", ⟨str "10.0.0.2", 80⟩, 0, by decide, by decide, by decide⟩]

/-- The host of `a/b` is given out for `a`. -/
theorem etcd_keys_slash :
    ¬∃ hosts, EtcdRegistryStore.methodHost (EtcdRegistration.registerAll slashMethods).2 (str "a")
      = .ok hosts ∧ HostsOf slashMethods (str "a") hosts := by
  intro h
  obtain ⟨hosts, hrun, hexact⟩ := h
  rw [EtcdRegistration.methodHost_registerAll, Except.ok.injEq] at hrun
  rw [← hrun, EtcdRegistration.hostsOf_iff] at hexact
  exact hexact _ (List.mem_cons_of_mem _ (List.mem_cons_self ..)) ⟨str "b", by decide⟩

end LyqtRpc
