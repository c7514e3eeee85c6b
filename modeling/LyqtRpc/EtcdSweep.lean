import LyqtRpc.EtcdStore
import Mathlib.Data.List.ReduceOption

/-!
`sweepExpired` of the etcd backend: the keys that a range query finds, against
those of the last snapshot.
-/

set_option autoImplicit false

namespace LyqtRpc

/-- `http_get_prefix` after `curl_post` has returned `resp`, which is empty where
the transfer failed. `decode` is `base64_decode`. -/
def kvsOfResponse (json : Jsoncpp) (decode : Bytes → Except CppException Bytes) (resp : Bytes) :
    Except CppException (List (Bytes × Bytes)) := do
  if resp = [] then return []
  match ← json.parse resp with
  | none => pure []
  | some root =>
    if ← root.isMember (str "kvs") then
      (← root.index (str "kvs")).elements.mapM (fun kv => do
        let k ← decode (← (← kv.index (str "key")).asString json)
        let v ← decode (← (← kv.index (str "value")).asString json)
        pure (k, v))
    else pure []

namespace EtcdRegistryStore
variable {γ : Type}

def expiredOfKeys (keys : List Bytes) : Except CppException (List (Bytes × HostInfo)) :=
  return (← keys.mapM providerOfKey).reduceOption

/-- `deleted_keys` -/
def deletedKeys (s : EtcdRegistryStore γ) (currentKeys : List Bytes) : List Bytes :=
  s.knownKeys.keys.filter (fun k => k ∉ currentKeys)

/-- The maps after a sweep that found `currentKeys`. -/
def snapshot (s : EtcdRegistryStore γ) (currentKeys : List Bytes) : EtcdRegistryStore γ :=
  let s' := (s.deletedKeys currentKeys).foldl forget s
  { s' with knownKeys := currentKeys.foldl (fun known k => known.insert k ()) s'.knownKeys }

/-- `startTime` and `now` in milliseconds, `idle` in seconds. -/
def sweepExpired (json : Jsoncpp) (decode : Bytes → Except CppException Bytes)
    (s : EtcdRegistryStore γ) (startTime idle now : Int) (resp : Bytes) :
    Except CppException (List (Bytes × HostInfo)) × EtcdRegistryStore γ :=
  if now - startTime < idle * 1000 then (.ok [], s)
  else
    match kvsOfResponse json decode resp with
    | .error e => (.error e, s)
    | .ok kvs =>
      let currentKeys := kvs.map (·.1)
      (expiredOfKeys (s.deletedKeys currentKeys), s.snapshot currentKeys)

end EtcdRegistryStore

section Sweep
variable {γ : Type} {json : Jsoncpp} {decode : Bytes → Except CppException Bytes}
  {s : EtcdRegistryStore γ} {startTime idle now : Int} {resp : Bytes}

/-- What etcd answers a range query with: an object with the keys, or one with the header
that every answer has and no error. -/
def RangeAnswer (root : JsonValue) : Prop :=
  root.hasMember (str "kvs") = true ∨
    root.hasMember (str "header") = true ∧ root.hasMember (str "error") = false

/-- No response, no JSON, or anything else than an answer: an error object, null. -/
def QueryFailed (json : Jsoncpp) (resp : Bytes) : Prop :=
  resp = [] ∨ ∀ root, json.parse resp = .ok (some root) → ¬ RangeAnswer root

/-- The reader throws, as where the nesting is too deep, or there is no table to look up
`kvs` in. -/
def QueryThrows (json : Jsoncpp) (resp : Bytes) : Prop :=
  resp ≠ [] ∧ ((∃ e, json.parse resp = .error e) ∨
    ∃ root, json.parse resp = .ok (some root) ∧ root.isTable = false)

structure SweepSafe (json : Jsoncpp) (decode : Bytes → Except CppException Bytes)
    (s : EtcdRegistryStore γ) (startTime idle now : Int) (resp : Bytes) : Prop where
  failed : QueryFailed json resp →
    s.sweepExpired json decode startTime idle now resp = (.ok [], s)
  reported : ∀ out t, s.sweepExpired json decode startTime idle now resp = (.ok out, t) →
    ∀ p ∈ out, ¬ QueryFailed json resp ∧ ∃ kvs, kvsOfResponse json decode resp = .ok kvs ∧
      ∃ key ∈ s.knownKeys.keys, providerOfKey key = .ok (some p) ∧ key ∉ kvs.map (·.1)

/-- A failure is read as the answer that there are no keys, unless it throws. -/
theorem kvsOfResponse_failed (h : QueryFailed json resp) (hthrows : ¬ QueryThrows json resp) :
    kvsOfResponse json decode resp = .ok [] := by
  by_cases hempty : resp = []
  · rw [kvsOfResponse, if_pos hempty]
    rfl
  rw [kvsOfResponse, if_neg hempty]
  cases hparse : json.parse resp with
  | error e => exact absurd ⟨hempty, .inl ⟨e, hparse⟩⟩ hthrows
  | ok found =>
    cases found with
    | none => rfl
    | some root =>
      have htable : root.isTable = true := by
        by_contra hroot
        exact hthrows ⟨hempty, .inr ⟨root, hparse, Bool.eq_false_of_not_eq_true hroot⟩⟩
      have hkvs : root.hasMember (str "kvs") = false := by
        refine Bool.eq_false_of_not_eq_true (fun hkvs => ?_)
        exact h.resolve_left hempty root hparse (.inl hkvs)
      show (do if ← root.isMember (str "kvs") then _ else _) = _
      rw [JsonValue.isMember_eq htable, hkvs]
      rfl

theorem kvsOfResponse_throws (h : QueryThrows json resp) :
    ∃ e, kvsOfResponse json decode resp = .error e := by
  obtain ⟨hempty, ⟨e, hparse⟩ | ⟨root, hparse, htable⟩⟩ := h
  · refine ⟨e, ?_⟩
    rw [kvsOfResponse, if_neg hempty, hparse]
    rfl
  · cases hmember : root.isMember (str "kvs") with
    | ok b => exact absurd hmember (JsonValue.isMember_throws htable _ b)
    | error e =>
      refine ⟨e, ?_⟩
      rw [kvsOfResponse, if_neg hempty, hparse]
      show (do if ← root.isMember (str "kvs") then _ else _) = _
      rw [hmember]
      rfl

theorem deletedKeys_nil : s.deletedKeys [] = s.knownKeys.keys :=
  List.filter_eq_self.mpr (fun _ _ => decide_eq_true List.not_mem_nil)

/-- An empty answer makes the snapshot forget every key. -/
theorem lookup_snapshot_nil {key : Bytes} (hkey : key ∈ s.knownKeys.keys) :
    (s.snapshot []).knownKeys.lookup key = none := by
  have hknown := (EtcdRegistryStore.foldl_forget s (s.deletedKeys [])).2.2.2 key
  rw [if_pos (deletedKeys_nil.symm ▸ hkey)] at hknown
  exact hknown

theorem mem_expiredOfKeys {keys : List Bytes} {out : List (Bytes × HostInfo)}
    {p : Bytes × HostInfo} (h : EtcdRegistryStore.expiredOfKeys keys = .ok out) (hp : p ∈ out) :
    ∃ key ∈ keys, providerOfKey key = .ok (some p) := by
  obtain ⟨found, hfound, hout⟩ := bind_eq_ok.mp h
  obtain rfl := Except.ok.inj hout
  exact exists_of_mem_mapM hfound (List.reduceOption_mem_iff.mp hp)

/-- What keeps a sweep whose query failed from doing harm. -/
def SweepHarmless (json : Jsoncpp) (s : EtcdRegistryStore γ) (startTime idle now : Int)
    (resp : Bytes) : Prop :=
  now - startTime < idle * 1000 ∨ s.knownKeys.keys = [] ∧ ¬ QueryThrows json resp

theorem sweepExpired_failed (hfailed : QueryFailed json resp)
    (h : SweepHarmless json s startTime idle now resp) :
    s.sweepExpired json decode startTime idle now resp = (.ok [], s) := by
  rw [EtcdRegistryStore.sweepExpired]
  split
  · rfl
  · rename_i hgrace
    obtain ⟨hknown, hthrows⟩ := h.resolve_left hgrace
    have hdeleted : s.deletedKeys [] = [] := deletedKeys_nil.trans hknown
    rw [kvsOfResponse_failed hfailed hthrows]
    simp only [List.map_nil, EtcdRegistryStore.snapshot, hdeleted, List.foldl_nil]
    rfl

/-- What a failed query changes, out of the grace period, is what was known. -/
theorem harmless_of_sweepExpired (hfailed : QueryFailed json resp)
    (h : s.sweepExpired json decode startTime idle now resp = (.ok [], s)) :
    SweepHarmless json s startTime idle now resp := by
  by_cases hgrace : now - startTime < idle * 1000
  · exact .inl hgrace
  rw [EtcdRegistryStore.sweepExpired, if_neg hgrace] at h
  have hthrows : ¬ QueryThrows json resp := by
    intro hthrows
    have hfails : ∃ e, kvsOfResponse json decode resp = .error e := kvsOfResponse_throws hthrows
    obtain ⟨e, he⟩ := hfails
    rw [he] at h
    cases (Prod.mk.inj h).1
  rw [kvsOfResponse_failed hfailed hthrows] at h
  refine .inr ⟨List.eq_nil_iff_forall_not_mem.mpr (fun key hkey => ?_), hthrows⟩
  have hsame : s.snapshot [] = s := (Prod.mk.inj h).2
  have hlookup := lookup_snapshot_nil hkey
  rw [hsame, AList.lookup_eq_none] at hlookup
  exact hlookup (AList.mem_keys.mpr hkey)

theorem sweepExpired_reported {out : List (Bytes × HostInfo)} {t : EtcdRegistryStore γ}
    {p : Bytes × HostInfo}
    (h : s.sweepExpired json decode startTime idle now resp = (.ok out, t)) (hp : p ∈ out) :
    ∃ kvs, kvsOfResponse json decode resp = .ok kvs ∧
      ∃ key ∈ s.knownKeys.keys, providerOfKey key = .ok (some p) ∧ key ∉ kvs.map (·.1) := by
  rw [EtcdRegistryStore.sweepExpired] at h
  split at h
  · obtain rfl := Except.ok.inj (Prod.mk.inj h).1
    exact absurd hp List.not_mem_nil
  · cases hkvs : kvsOfResponse json decode resp with
    | error e =>
        rw [hkvs] at h
        cases (Prod.mk.inj h).1
    | ok kvs =>
        rw [hkvs] at h
        obtain ⟨key, hkey, hprovider⟩ := mem_expiredOfKeys (Prod.mk.inj h).1 hp
        obtain ⟨hknown, habsent⟩ := List.mem_filter.mp hkey
        exact ⟨kvs, rfl, key, hknown, hprovider, of_decide_eq_true habsent⟩

/-- A sweep is safe if and only if a query that fails does so in the grace period, or
before any key is known and without an exception. -/
theorem sweepExpired_safe_iff (json : Jsoncpp) (decode : Bytes → Except CppException Bytes)
    (s : EtcdRegistryStore γ) (startTime idle now : Int) (resp : Bytes) :
    SweepSafe json decode s startTime idle now resp ↔
      (QueryFailed json resp → SweepHarmless json s startTime idle now resp) := by
  constructor
  · exact fun h hfailed => harmless_of_sweepExpired hfailed (h.failed hfailed)
  · intro h
    refine ⟨fun hfailed => sweepExpired_failed hfailed (h hfailed), fun out t hsweep p hp => ?_⟩
    refine ⟨fun hfailed => ?_, sweepExpired_reported hsweep hp⟩
    rw [sweepExpired_failed hfailed (h hfailed)] at hsweep
    obtain rfl := Except.ok.inj (Prod.mk.inj hsweep).1
    exact List.not_mem_nil hp

end Sweep

/-- One provider is known, and etcd does not answer. -/
theorem sweepExpired_unreachable :
    ¬ ∀ (json : Jsoncpp) (decode : Bytes → Except CppException Bytes) (s : EtcdRegistryStore Nat)
      (startTime idle now : Int) (resp : Bytes),
      SweepSafe json decode s startTime idle now resp := by
  intro h
  let s : EtcdRegistryStore Nat :=
    (({} : EtcdRegistryStore Nat).registerInstance {} 0 ⟨str "10.0.0.1", 8080⟩ (str "add") 0).1
  have hsweep := (h .unused (fun v => .ok v) s 0 30 60000 []).failed (.inl rfl)
  have hlist : (s.sweepExpired .unused (fun v => .ok v) 0 30 60000 []).1.toOption =
      some [(str "add", ⟨str "10.0.0.1", 8080⟩)] := by decide +kernel
  rw [hsweep] at hlist
  cases hlist

end LyqtRpc
