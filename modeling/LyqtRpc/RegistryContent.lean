import LyqtRpc.EtcdStore
import LyqtRpc.ProviderManager

/-!
What is offered, as a map from keys to addresses and loads: in memory it is what
the providers of the connections list, in etcd what the keys hold.
-/

set_option autoImplicit false

namespace LyqtRpc

section Content
variable {γ : Type}

abbrev Content := Bytes → Option (HostInfo × Int32)

/-- `view` gives the provider of a connection. -/
def SameContent (view : γ → Option (Provider γ)) (c : Content) : Prop :=
  ∀ key d, c key = some d ↔ ∃ conn x, view conn = some x ∧ d = (x.address, x.load) ∧
    ∃ method ∈ x.methods, key = keyFor method x.address

/-- What is offered can be read back from etcd, and by whom it is offered is no question. -/
structure Separate (json : Jsoncpp) (view : γ → Option (Provider γ)) : Prop where
  plain : ∀ conn x method, view conn = some x → method ∈ x.methods → Plain method x.address
  readable : ∀ conn x, view conn = some x →
    loadFromValue json (valueFor x.address x.load) = .ok x.load
  sole : ∀ conn conn' x x' method, view conn = some x → view conn' = some x' →
    method ∈ x.methods → method ∈ x'.methods → x.address = x'.address → conn = conn'

/-- The provider of `conn` becomes `x`, which has another load for `method` alone. -/
structure Sets (view view' : γ → Option (Provider γ)) (conn : γ) (x : Provider γ)
    (method : Bytes) : Prop where
  self : view' conn = some x
  others : ∀ c, c ≠ conn → view' c = view c
  listed : method ∈ x.methods
  old : ∀ m ∈ x.methods, m ≠ method → ∃ y, view conn = some y ∧ m ∈ y.methods ∧
    y.address = x.address ∧ y.load = x.load
  kept : ∀ y, view conn = some y → y.address = x.address ∧
    ∀ m ∈ y.methods, m ∈ x.methods ∧ (m ≠ method → y.load = x.load)
  sole : ∀ c y, c ≠ conn → view c = some y → method ∈ y.methods → y.address ≠ x.address

variable {json : Jsoncpp} {view view' : γ → Option (Provider γ)} {c : Content} {conn : γ}
  {x : Provider γ} {method : Bytes} {host : HostInfo}

theorem SameContent.keyFor_eq (h : SameContent view c) (hseparate : Separate json view)
    (d : HostInfo × Int32) :
    c (keyFor method host) = some d ↔ ∃ conn x, view conn = some x ∧ method ∈ x.methods ∧
      x.address = host ∧ d = (host, x.load) := by
  rw [h]
  constructor
  · rintro ⟨conn, x, hx, rfl, m, hm, hkey⟩
    obtain ⟨rfl, rfl⟩ := keyFor_inj (hseparate.plain conn x m hx hm) hkey
    exact ⟨conn, x, hx, hm, rfl, rfl⟩
  · rintro ⟨conn, x, hx, hm, rfl, rfl⟩
    exact ⟨conn, x, hx, rfl, method, hm, rfl⟩

theorem Separate.set (h : Separate json view) (hs : Sets view view' conn x method)
    (hplain : Plain method x.address)
    (hreadable : loadFromValue json (valueFor x.address x.load) = .ok x.load) :
    Separate json view' where
  plain c y m hy hm := by
    by_cases hc : c = conn
    · obtain rfl := Option.some.inj (hs.self.symm.trans (hc ▸ hy))
      by_cases hmethod : m = method
      · exact hmethod ▸ hplain
      · obtain ⟨z, hz, hmz, haddress, _⟩ := hs.old m hm hmethod
        exact haddress ▸ h.plain conn z m hz hmz
    · exact h.plain c y m (hs.others c hc ▸ hy) hm
  readable c y hy := by
    by_cases hc : c = conn
    · obtain rfl := Option.some.inj (hs.self.symm.trans (hc ▸ hy))
      exact hreadable
    · exact h.readable c y (hs.others c hc ▸ hy)
  sole := by
    -- between `conn` and another connection the method decides
    have hcross : ∀ c y m, c ≠ conn → view' c = some y → m ∈ x.methods → m ∈ y.methods →
        y.address ≠ x.address := by
      intro c y m hc hy hmx hmy haddress
      rw [hs.others c hc] at hy
      by_cases hmethod : m = method
      · exact hs.sole c y hc hy (hmethod ▸ hmy) haddress
      · obtain ⟨z, hz, hmz, hz', _⟩ := hs.old m hmx hmethod
        exact hc (h.sole c conn y z m hy hz hmy hmz (haddress.trans hz'.symm))
    intro c c' y y' m hy hy' hm hm' haddress
    by_cases hc : c = conn <;> by_cases hc' : c' = conn
    · exact hc.trans hc'.symm
    · obtain rfl := Option.some.inj (hs.self.symm.trans (hc ▸ hy))
      exact absurd haddress.symm (hcross c' y' m hc' hy' hm hm')
    · obtain rfl := Option.some.inj (hs.self.symm.trans (hc' ▸ hy'))
      exact absurd haddress (hcross c y m hc hy hm' hm)
    · exact h.sole c c' y y' m (hs.others c hc ▸ hy) (hs.others c' hc' ▸ hy') hm hm' haddress

theorem SameContent.set (h : SameContent view c) (hs : Sets view view' conn x method)
    (hplain : Plain method x.address) :
    SameContent view'
      (Function.update c (keyFor method x.address) (some (x.address, x.load))) := by
  intro key d
  rw [Function.update_apply]
  split
  · rename_i hkey
    subst hkey
    constructor
    · intro hd
      obtain rfl := Option.some.inj hd
      exact ⟨conn, x, hs.self, rfl, method, hs.listed, rfl⟩
    · rintro ⟨c', y, hy, rfl, m, hm, hkey⟩
      obtain ⟨rfl, haddress⟩ := keyFor_inj hplain hkey.symm
      by_cases hc : c' = conn
      · obtain rfl := Option.some.inj (hs.self.symm.trans (hc ▸ hy))
        rfl
      · exact absurd haddress (hs.sole c' y hc (hs.others c' hc ▸ hy) hm)
  · rename_i hkey
    rw [h]
    constructor
    · rintro ⟨c', y, hy, rfl, m, hm, rfl⟩
      by_cases hc : c' = conn
      · subst hc
        obtain ⟨haddress, hkept⟩ := hs.kept y hy
        have hmethod : m ≠ method := by
          rintro rfl
          exact hkey (by rw [haddress])
        obtain ⟨hmx, hload⟩ := hkept m hm
        exact ⟨c', x, hs.self, by rw [haddress, hload hmethod], m, hmx, by rw [haddress]⟩
      · exact ⟨c', y, (hs.others c' hc).trans hy, rfl, m, hm, rfl⟩
    · rintro ⟨c', y, hy, rfl, m, hm, rfl⟩
      by_cases hc : c' = conn
      · subst hc
        obtain rfl := Option.some.inj (hs.self.symm.trans hy)
        have hmethod : m ≠ method := by
          rintro rfl
          exact hkey rfl
        obtain ⟨z, hz, hmz, haddress, hload⟩ := hs.old m hm hmethod
        exact ⟨c', z, hz, by rw [haddress, hload], m, hmz, by rw [haddress]⟩
      · exact ⟨c', y, (hs.others c' hc).symm.trans hy, rfl, m, hm, rfl⟩

/-- A provider gets another load, and stays what it is otherwise. -/
theorem Separate.sets [DecidableEq γ] (h : Separate json view) {y : Provider γ}
    (hx : view conn = some x) (hmethod : method ∈ x.methods)
    (hview : ∀ c, view' c = if c = conn then some y else view c)
    (haddress : y.address = x.address) (hmethods : y.methods = x.methods)
    (hload : ∀ m ∈ x.methods, m ≠ method → x.load = y.load) : Sets view view' conn y method := by
  refine ⟨(hview conn).trans (if_pos rfl), fun c hc => (hview c).trans (if_neg hc),
    hmethods ▸ hmethod, fun m hm hne => ?_, fun z hz => ?_, fun c z hc hz hmz heq => ?_⟩
  · rw [hmethods] at hm
    exact ⟨x, hx, hm, haddress.symm, hload m hm hne⟩
  · obtain rfl := Option.some.inj (hx.symm.trans hz)
    exact ⟨haddress.symm, fun m hm => ⟨hmethods ▸ hm, hload m hm⟩⟩
  · exact hc (h.sole c conn z x method hz hx hmz hmethod (heq.trans haddress))

/-- A connection that closes takes its keys along. -/
theorem SameContent.drop [DecidableEq γ] (h : SameContent view c)
    (hseparate : Separate json view) (hx : view conn = some x) :
    SameContent (fun c => if c = conn then none else view c)
      (fun key => if key ∈ x.methods.map (keyFor · x.address) then none else c key) := by
  intro key d
  dsimp only
  constructor
  · intro hd
    split at hd
    · cases hd
    · rename_i hkey
      obtain ⟨c', y, hy, hyd, m, hm, rfl⟩ := (h key d).mp hd
      refine ⟨c', y, ?_, hyd, m, hm, rfl⟩
      rw [if_neg, hy]
      rintro rfl
      obtain rfl := Option.some.inj (hx.symm.trans hy)
      exact hkey (List.mem_map_of_mem hm)
  · rintro ⟨c', y, hy, hyd, m, hm, rfl⟩
    split at hy
    · cases hy
    · rename_i hc
      rw [if_neg]
      · exact (h _ d).mpr ⟨c', y, hy, hyd, m, hm, rfl⟩
      · intro hmem
        obtain ⟨m', hm', hkey⟩ := List.mem_map.mp hmem
        obtain ⟨rfl, haddress⟩ := keyFor_inj (hseparate.plain c' y m hy hm) hkey
        exact hc (hseparate.sole c' conn y x m' hy hx hm hm' haddress.symm)

theorem Separate.drop [DecidableEq γ] (h : Separate json view) (conn : γ) :
    Separate json (fun c => if c = conn then none else view c) := by
  have hkept : ∀ c y, (if c = conn then none else view c) = some y → view c = some y := by
    intro c y hy
    split at hy
    · cases hy
    · exact hy
  exact ⟨fun c y m hy => h.plain c y m (hkept c y hy), fun c y hy => h.readable c y (hkept c y hy),
    fun c c' y y' m hy hy' => h.sole c c' y y' m (hkept c y hy) (hkept c' y' hy')⟩

end Content

section Holds
variable {γ : Type}

/-- The keys in etcd, and the maps of the store, say what is offered. -/
structure EtcdHolds (s : EtcdRegistryStore γ) (etcd : Etcd) (c : Content) : Prop where
  values : ∀ key, (etcd.kvs.lookup key).map (·.1) = (c key).map (fun d => valueFor d.1 d.2)
  loads : ∀ key, s.keysToLoad.lookup key = (c key).map (·.2)
  leases : ∀ key, (s.keysToLease.lookup key).isSome = (c key).isSome
  live : ∀ key lease, s.keysToLease.lookup key = some lease → lease ∈ etcd.leases ∧ 0 ≤ lease

variable {s s' : EtcdRegistryStore γ} {etcd etcd' : Etcd} {c : Content} {key : Bytes}
  {host : HostInfo} {load : Int32} {lease : Int}

/-- A value is put under a key, with a lease that lives. -/
theorem EtcdHolds.put (h : EtcdHolds s etcd c) (etcd' : Etcd) (hkvs : etcd'.kvs = etcd.kvs)
    (hleases : ∀ l ∈ etcd.leases, l ∈ etcd'.leases) (hlive : lease ∈ etcd'.leases ∧ 0 ≤ lease)
    (hload : ∀ k, s'.keysToLoad.lookup k = if k = key then some load else s.keysToLoad.lookup k)
    (hlease : ∀ k,
      s'.keysToLease.lookup k = if k = key then some lease else s.keysToLease.lookup k) :
    EtcdHolds s' (etcd'.put key (valueFor host load) lease)
      (Function.update c key (some (host, load))) where
  values k := by
    rw [Etcd.put, if_pos hlive.1, Function.update_apply, hkvs]
    show ((etcd.kvs.insert key (valueFor host load, lease)).lookup k).map _ = _
    rw [AssocTable.lookup_insert_ite]
    split
    · rfl
    · exact h.values k
  loads k := by
    rw [hload, Function.update_apply]
    split
    · rfl
    · exact h.loads k
  leases k := by
    rw [hlease, Function.update_apply]
    split
    · rfl
    · exact h.leases k
  live k l hl := by
    rw [Etcd.put, if_pos hlive.1]
    rw [hlease] at hl
    split at hl
    · exact Option.some.inj hl ▸ hlive
    · exact ⟨hleases l (h.live k l hl).1, (h.live k l hl).2⟩

theorem EtcdHolds.registerInstance [DecidableEq γ] (h : EtcdHolds s etcd c) (conn : γ)
    (host : HostInfo) (method : Bytes) (load : Int32) :
    EtcdHolds (s.registerInstance etcd conn host method load).1
      (s.registerInstance etcd conn host method load).2
      (Function.update c (keyFor method host) (some (host, load))) :=
  h.put etcd.leaseGrant.2 rfl (fun _ hl => List.mem_cons_of_mem _ hl)
    ⟨List.mem_cons_self .., by omega⟩ (AssocTable.lookup_insert_ite _ _ · _)
    (AssocTable.lookup_insert_ite _ _ · _)

/-- A load report or a heartbeat succeeds where the key is there. -/
theorem EtcdHolds.lease_of_some {d : HostInfo × Int32} (h : EtcdHolds s etcd c)
    (hd : c key = some d) : ∃ lease, s.keysToLease.lookup key = some lease ∧
      lease ∈ etcd.leases ∧ ¬ lease < 0 := by
  have hsome := h.leases key
  rw [hd] at hsome
  obtain ⟨lease, hlease⟩ := Option.isSome_iff_exists.mp hsome
  obtain ⟨hlive, hle⟩ := h.live key lease hlease
  exact ⟨lease, hlease, hlive, by omega⟩

theorem EtcdHolds.lease_of_none (h : EtcdHolds s etcd c) (hd : c key = none) :
    s.keysToLease.lookup key = none := by
  have hlease := h.leases key
  rw [hd] at hlease
  exact Option.isSome_eq_false_iff.mp hlease |> Option.isNone_iff_eq_none.mp

theorem EtcdHolds.reportLoad {method : Bytes} {d : HostInfo × Int32} (h : EtcdHolds s etcd c)
    (hd : c (keyFor method host) = some d) (load : Int32) :
    (s.reportLoad etcd method host load).1 = true ∧
      (s.reportLoad etcd method host load).2.1.keysByConn = s.keysByConn ∧
      EtcdHolds (s.reportLoad etcd method host load).2.1
        (s.reportLoad etcd method host load).2.2
        (Function.update c (keyFor method host) (some (host, load))) := by
  obtain ⟨lease, hlease, hlive, hle⟩ := h.lease_of_some hd
  unfold EtcdRegistryStore.reportLoad
  simp only [hlease, Option.getD_some, if_neg hle]
  refine ⟨trivial, trivial, h.put etcd rfl (fun _ hl => hl) (h.live _ _ hlease)
    (AssocTable.lookup_insert_ite _ _ · _) (fun k => ?_)⟩
  split
  · rename_i hk
    exact hk ▸ hlease
  · rfl

/-- Whether etcd renews the lease or not, a heartbeat leaves what is offered. -/
theorem EtcdHolds.heartbeat {method : Bytes} (h : EtcdHolds s etcd c)
    (hd : c (keyFor method host) = some (host, load)) (keepalive : Bool) :
    (s.heartbeat etcd method host keepalive).1 = true ∧
      (s.heartbeat etcd method host keepalive).2.1.keysByConn = s.keysByConn ∧
      EtcdHolds (s.heartbeat etcd method host keepalive).2.1
        (s.heartbeat etcd method host keepalive).2.2 c := by
  obtain ⟨lease, hlease, _, hle⟩ := h.lease_of_some hd
  unfold EtcdRegistryStore.heartbeat
  simp only [hlease, Option.getD_some, if_neg hle]
  cases keepalive with
  | true => exact ⟨rfl, rfl, h⟩
  | false =>
      have hload : s.keysToLoad.lookup (keyFor method host) = some load := by
        rw [h.loads, hd]
        rfl
      refine ⟨rfl, rfl, ?_⟩
      have hgrant : 0 ≤ etcd.leaseGrant.1 := by
        show (0 : Int) ≤ etcd.granted + 1
        omega
      have hput : EtcdHolds
          { s with
            keysToLease := s.keysToLease.insert (keyFor method host) etcd.leaseGrant.1
            knownKeys := s.knownKeys.insert (keyFor method host) () }
          (etcd.leaseGrant.2.put (keyFor method host) (valueFor host load) etcd.leaseGrant.1)
          (Function.update c (keyFor method host) (some (host, load))) := by
        refine h.put etcd.leaseGrant.2 rfl (fun _ hl => List.mem_cons_of_mem _ hl)
          ⟨List.mem_cons_self .., hgrant⟩ (fun k => ?_)
          (AssocTable.lookup_insert_ite _ _ · _)
        split
        · rename_i hk
          exact hk ▸ hload
        · rfl
      rw [Function.update_eq_self_iff.mpr hd.symm] at hput
      rw [if_neg (by decide), hload]
      exact hput

theorem EtcdHolds.drop (h : EtcdHolds s etcd c) (keys : List Bytes) :
    EtcdHolds (keys.foldl EtcdRegistryStore.forget s) (keys.foldl Etcd.deleteRange etcd)
      (fun key => if key ∈ keys then none else c key) := by
  obtain ⟨hleases, hkvs⟩ := EtcdRegistryStore.foldl_deleteRange etcd keys
  obtain ⟨_, hlease, hload, _⟩ := EtcdRegistryStore.foldl_forget s keys
  refine ⟨fun key => ?_, fun key => ?_, fun key => ?_, fun key l hl => ?_⟩
  · rw [hkvs]
    split
    · rfl
    · exact h.values key
  · rw [hload]
    split
    · rfl
    · exact h.loads key
  · rw [hlease]
    split
    · rfl
    · exact h.leases key
  · rw [hleases]
    rw [hlease] at hl
    split at hl
    · cases hl
    · exact h.live key l hl

end Holds

end LyqtRpc
