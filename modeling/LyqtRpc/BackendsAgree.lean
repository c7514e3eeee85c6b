import LyqtRpc.RegistryBackends
import LyqtRpc.RegistryContent

/-!
The two backends answer alike as long as no call sets them apart: every call
reads what is offered, and changes it in the same way.
-/

set_option autoImplicit false

namespace LyqtRpc

open StepRun

section Alike
variable {γ : Type} [DecidableEq γ]

structure Alike (json : Jsoncpp) (b : Backends γ) (c : Content) : Prop where
  connected : b.memory.Connected
  separate : Separate json b.memory.providerOf
  content : SameContent b.memory.providerOf c
  holds : EtcdHolds b.store b.etcd c
  keys : ∀ conn, b.store.keysByConn.lookup conn =
    (b.memory.providerOf conn).map (fun x => x.methods.map (keyFor · x.address))

variable {json : Jsoncpp} {b : Backends γ} {c : Content} {method : Bytes} {host : HostInfo}
  {load : Int32} {conn : γ}

/-- The keys under the prefix of a method, with their values. -/
theorem Alike.mem_httpGetPrefix (h : Alike json b c) {key value : Bytes} :
    (key, value) ∈ b.etcd.httpGetPrefix (methodPrefix method) ↔
      ∃ conn x, b.memory.providerOf conn = some x ∧ method ∈ x.methods ∧
        key = keyFor method x.address ∧ value = valueFor x.address x.load := by
  have hvalue : (∃ lease, b.etcd.kvs.lookup key = some (value, lease)) ↔
      ∃ d, c key = some d ∧ value = valueFor d.1 d.2 := by
    have hmap := h.holds.values key
    constructor
    · rintro ⟨lease, hlookup⟩
      rw [hlookup] at hmap
      obtain ⟨d, hd, hv⟩ := Option.map_eq_some_iff.mp hmap.symm
      exact ⟨d, hd, hv.symm⟩
    · rintro ⟨d, hd, rfl⟩
      rw [hd] at hmap
      obtain ⟨e, he, hv⟩ := Option.map_eq_some_iff.mp hmap
      exact ⟨e.2, he.trans (congrArg some (Prod.ext hv rfl))⟩
  rw [Etcd.httpGetPrefix, Etcd.mem_range, inRange_methodPrefix, hvalue]
  constructor
  · rintro ⟨hstarts, d, hd, rfl⟩
    obtain ⟨conn, x, hx, rfl, m, hm, rfl⟩ := (h.content key d).mp hd
    obtain rfl := (prefix_keyFor (h.separate.plain conn x m hx hm)).mp hstarts
    exact ⟨conn, x, hx, hm, rfl, rfl⟩
  · rintro ⟨conn, x, hx, hm, rfl, rfl⟩
    exact ⟨(prefix_keyFor (h.separate.plain conn x method hx hm)).mpr rfl,
      (x.address, x.load), (h.content ..).mpr ⟨conn, x, hx, rfl, method, hm, rfl⟩, rfl⟩

theorem Alike.methodHost (h : Alike json b c) (method : Bytes) :
    ∃ hosts, EtcdRegistryStore.methodHost b.etcd method = .ok hosts ∧
      ∀ host, host ∈ b.memory.methodHost method ↔ host ∈ hosts := by
  obtain ⟨hosts, hhosts, hmem⟩ := hostsOfKeys_spec
    (b.etcd.httpGetPrefix (methodPrefix method)) (fun kv hkv => by
      obtain ⟨conn, x, hx, hm, hkey, _⟩ := h.mem_httpGetPrefix.mp hkv
      exact ⟨x.address, hkey ▸ hostFromKey_keyFor (h.separate.plain conn x method hx hm).ip⟩)
  refine ⟨hosts, hhosts, fun host => ?_⟩
  rw [h.connected.mem_methodHost, hmem]
  constructor
  · rintro ⟨conn, x, hx, hm, rfl⟩
    have hplain := h.separate.plain conn x method hx hm
    exact ⟨hplain.named, (keyFor method x.address, valueFor x.address x.load),
      h.mem_httpGetPrefix.mpr ⟨conn, x, hx, hm, rfl, rfl⟩, hostFromKey_keyFor hplain.ip⟩
  · rintro ⟨_, kv, hkv, hhost⟩
    obtain ⟨conn, x, hx, hm, hkey, _⟩ := h.mem_httpGetPrefix.mp hkv
    rw [hkey, hostFromKey_keyFor (h.separate.plain conn x method hx hm).ip] at hhost
    exact ⟨conn, x, hx, hm, Except.ok.inj hhost⟩

theorem Alike.methodHostDetails (h : Alike json b c) (method : Bytes) :
    ∃ details, EtcdRegistryStore.methodHostDetails json b.etcd method = .ok details ∧
      ∀ d, d ∈ b.memory.methodHostDetails method ↔ d ∈ details := by
  obtain ⟨details, hdetails, hmem⟩ := detailsOfKeys_spec json
    (b.etcd.httpGetPrefix (methodPrefix method)) (fun kv hkv => by
      obtain ⟨conn, x, hx, hm, hkey, hvalue⟩ := h.mem_httpGetPrefix.mp hkv
      have hplain := h.separate.plain conn x method hx hm
      exact ⟨⟨x.address, hkey ▸ hostFromKey_keyFor hplain.ip, hplain.named⟩,
        x.load, hvalue ▸ h.separate.readable conn x hx⟩)
  refine ⟨details, hdetails, fun d => ?_⟩
  rw [h.connected.mem_methodHostDetails, hmem]
  constructor
  · rintro ⟨conn, x, hx, hm, rfl⟩
    exact ⟨(keyFor method x.address, valueFor x.address x.load),
      h.mem_httpGetPrefix.mpr ⟨conn, x, hx, hm, rfl, rfl⟩,
      hostFromKey_keyFor (h.separate.plain conn x method hx hm).ip,
      h.separate.readable conn x hx⟩
  · rintro ⟨kv, hkv, hhost, hload⟩
    obtain ⟨conn, x, hx, hm, hkey, hvalue⟩ := h.mem_httpGetPrefix.mp hkv
    rw [hkey, hostFromKey_keyFor (h.separate.plain conn x method hx hm).ip] at hhost
    rw [hvalue, h.separate.readable conn x hx] at hload
    refine ⟨conn, x, hx, hm, ?_⟩
    rw [Except.ok.inj hhost, Except.ok.inj hload]

/-- The calls of one step are answered alike, and the backends agree after it. -/
def ServesAlike (json : Jsoncpp) (b : Backends γ) (a : BackendsAct γ) : Prop :=
  (b.memory.serve a.now a.fresh a.call).1.Same
      (b.store.serve json b.etcd a.keepalive a.call).1 ∧
    ∃ c, Alike json
      { memory := (b.memory.serve a.now a.fresh a.call).2
        store := (b.store.serve json b.etcd a.keepalive a.call).2.1
        etcd := (b.store.serve json b.etcd a.keepalive a.call).2.2 } c

/-! What the condition on a call says of the connections. -/

theorem mem_keys_of_providerOf {s : ProviderManager γ} {x : Provider γ}
    (hx : s.providerOf conn = some x) : conn ∈ s.connwithp.keys := by
  obtain ⟨p, hp, _⟩ := ProviderManager.providerOf_eq_some.mp hx
  exact AList.mem_keys.mp (AList.lookup_isSome.mp (by rw [hp]; rfl))

theorem readsBack_iff : readsBack json host load = true ↔
    loadFromValue json (valueFor host load) = .ok load := by
  unfold readsBack
  split
  · rename_i l heq
    rw [heq, decide_eq_true_eq, Except.ok.injEq]
  · rename_i e heq
    rw [heq]
    simp

omit [DecidableEq γ] in
theorem sameLoad_iff {x : Provider γ} : x.sameLoad method load = true ↔
    ∀ m ∈ x.methods, m ≠ method → x.load = load := by
  rw [Provider.sameLoad, Bool.or_eq_true, decide_eq_true_eq, List.all_eq_true]
  constructor
  · rintro (hload | hall) m hm hne
    · exact hload
    · exact absurd (of_decide_eq_true (hall m hm)) hne
  · intro h
    by_cases hload : x.load = load
    · exact .inl hload
    · exact .inr (fun m hm => decide_eq_true (by_contra (fun hne => hload (h m hm hne))))

/-- Nobody else has the provider that offers the method at the host. -/
theorem others_iff {s : ProviderManager γ} {q : γ → Provider γ → Bool} :
    (s.connwithp.keys.all fun c => (s.providerOf c).all (q c)) = true ↔
      ∀ c x, s.providerOf c = some x → q c x = true := by
  rw [List.all_eq_true]
  constructor
  · intro h c x hx
    have hall := h c (mem_keys_of_providerOf hx)
    rw [hx] at hall
    exact hall
  · intro h c _
    cases hx : s.providerOf c with
    | none => rfl
    | some x => exact h c x hx

variable {now : Int} {fresh : Nat} {keepalive : Bool}

theorem Alike.registerInstance (h : Alike json b c) (hfresh : (b.memory.objects fresh).isNone)
    (hok : interchangeable json b.memory (.registerInstance conn host method load) = true) :
    ServesAlike json b ⟨.registerInstance conn host method load, now, fresh, keepalive⟩ := by
  simp only [interchangeable, Bool.and_eq_true, decide_eq_true_eq] at hok
  obtain ⟨⟨⟨hplain, hreads⟩, hself⟩, hothers⟩ := hok
  obtain ⟨hconnected, hview⟩ := h.connected.addProvider_spec hfresh conn host method load now
  generalize hbase : (b.memory.providerOf conn).getD
    { conn, address := host, lastheartbeat := now } = base at hview
  have hold : ∀ y, b.memory.providerOf conn = some y →
      y = base ∧ y.address = host ∧ ∀ m ∈ y.methods, m ≠ method → y.load = load := by
    intro y hy
    rw [hy] at hself hbase
    rw [Option.all_some, Bool.and_eq_true, decide_eq_true_eq, sameLoad_iff] at hself
    exact ⟨hbase, hself⟩
  have hbasis : base.address = host ∧ (∀ m ∈ base.methods, m ≠ method →
      b.memory.providerOf conn = some base ∧ base.load = load) := by
    cases hy : b.memory.providerOf conn with
    | none =>
        rw [hy] at hbase
        subst hbase
        exact ⟨rfl, fun m hm => nomatch hm⟩
    | some y =>
        obtain ⟨rfl, haddress, hload⟩ := hold y hy
        exact ⟨haddress, fun m hm hne => ⟨rfl, hload m hm hne⟩⟩
  have hsets : Sets b.memory.providerOf
      (b.memory.addProvider conn host method load now fresh).providerOf conn
      (base.extended method load now) method := by
    refine ⟨(hview conn).trans (if_pos rfl), fun c hc => (hview c).trans (if_neg hc),
      List.mem_append_right _ (List.mem_singleton.mpr rfl), fun m hm hne => ?_, fun y hy => ?_,
      fun c y hc hy hm => ?_⟩
    · cases List.mem_append.mp hm with
      | inl hm =>
          obtain ⟨hx, hload⟩ := hbasis.2 m hm hne
          exact ⟨base, hx, hm, rfl, hload⟩
      | inr hm => exact absurd (List.mem_singleton.mp hm) hne
    · obtain ⟨rfl, haddress, hload⟩ := hold y hy
      exact ⟨rfl, fun m hm => ⟨List.mem_append_left _ hm, hload m hm⟩⟩
    · intro haddress
      have hall := List.all_eq_true.mp hothers c (mem_keys_of_providerOf hy)
      rw [hy, Bool.or_eq_true, decide_eq_true_eq] at hall
      cases hall with
      | inl heq => exact hc heq
      | inr hoffers =>
          rw [Option.all_some, Bool.not_eq_true', Provider.offers, Bool.and_eq_false_iff] at hoffers
          rw [show y.address = host from haddress.trans hbasis.1] at hoffers
          simp [hm] at hoffers
  have haddress : (base.extended method load now).address = host := hbasis.1
  refine ⟨trivial, _, hconnected, h.separate.set hsets (haddress.symm ▸ hplain) ?_,
    h.content.set hsets (haddress.symm ▸ hplain), ?_, fun c => ?_⟩
  · rw [haddress]
    exact readsBack_iff.mp hreads
  · rw [haddress]
    exact h.holds.registerInstance conn host method load
  · show (b.store.keysByConn.insert conn _).lookup c = Option.map _
      ((b.memory.addProvider conn host method load now fresh).providerOf c)
    rw [AssocTable.lookup_insert_ite]
    split
    · rename_i hc
      subst hc
      rw [hsets.self, h.keys, Option.map_some, haddress]
      cases hy : b.memory.providerOf c with
      | none =>
          rw [hy] at hbase
          subst hbase
          rfl
      | some y =>
          obtain ⟨rfl, haddress, _⟩ := hold y hy
          simp [Provider.extended, haddress]
    · rename_i hc
      rw [hsets.others c hc, h.keys]

/-- Where a load report or a heartbeat finds a provider, etcd has its key. -/
theorem Alike.key_eq_none (h : Alike json b c) (hnone : ∀ conn x,
    b.memory.providerOf conn = some x → method ∈ x.methods → x.address ≠ host) :
    c (keyFor method host) = none := by
  rw [Option.eq_none_iff_forall_not_mem]
  intro d hd
  obtain ⟨conn, x, hx, hm, haddress, _⟩ := (h.content.keyFor_eq h.separate d).mp hd
  exact hnone conn x hx hm haddress

theorem Alike.keys_update (h : Alike json b c) {x y : Provider γ}
    (hx : b.memory.providerOf conn = some x) {view : γ → Option (Provider γ)}
    (hview : ∀ c, view c = if c = conn then some y else b.memory.providerOf c)
    (haddress : y.address = x.address) (hmethods : y.methods = x.methods) (c : γ) :
    b.store.keysByConn.lookup c =
      (view c).map (fun x => x.methods.map (keyFor · x.address)) := by
  rw [h.keys, hview]
  split
  · rename_i hc
    rw [hc, hx, Option.map_some, Option.map_some, haddress, hmethods]
  · rfl

theorem Alike.reportLoad (h : Alike json b c)
    (hok : interchangeable json b.memory (.reportLoad method host load) = true) :
    ServesAlike json b ⟨.reportLoad method host load, now, fresh, keepalive⟩ := by
  obtain ⟨hconnected, hcases⟩ := h.connected.updateFirst_spec method host
    (f := fun x => { x with load, lastheartbeat := now }) (fun _ => rfl) (fun _ => rfl)
  obtain ⟨hfalse, hsame, hnone⟩ | ⟨htrue, conn, x, hx, hm, haddress, hview⟩ := hcases
  · have hlease := h.holds.lease_of_none (h.key_eq_none hnone)
    have hstore : b.store.reportLoad b.etcd method host load = (false, b.store, b.etcd) := by
      rw [EtcdRegistryStore.reportLoad, hlease]
      rfl
    refine ⟨?_, c, ?_⟩
    · simp only [ProviderManager.serve, EtcdRegistryStore.serve, hstore]
      exact hfalse
    · simp only [ProviderManager.serve, EtcdRegistryStore.serve, hstore]
      rw [show (b.memory.updateProviderLoad method host load now).2 = b.memory from hsame]
      exact h
  · rw [interchangeable, others_iff] at hok
    have hoffers : x.offers method host = true := by
      simp [Provider.offers, haddress, hm]
    have hx' := hok conn x hx
    rw [hoffers, Bool.not_true, Bool.false_or, Bool.and_eq_true, readsBack_iff,
      sameLoad_iff] at hx'
    obtain ⟨hreads, hload⟩ := hx'
    have hsets : Sets b.memory.providerOf
        (b.memory.updateProviderLoad method host load now).2.providerOf conn
        { x with load, lastheartbeat := now } method :=
      h.separate.sets hx hm hview rfl rfl hload
    have hplain := h.separate.plain conn x method hx hm
    have hkey : c (keyFor method host) = some (host, x.load) :=
      (h.content.keyFor_eq h.separate _).mpr ⟨conn, x, hx, hm, haddress, rfl⟩
    obtain ⟨hreply, hkeys, hholds⟩ := h.holds.reportLoad hkey load
    refine ⟨htrue.trans hreply.symm, _, hconnected, h.separate.set hsets hplain ?_,
      h.content.set hsets hplain, ?_, fun c => ?_⟩
    · exact haddress.symm ▸ hreads
    · show EtcdHolds _ _ (Function.update c (keyFor method x.address) (some (x.address, load)))
      rw [haddress]
      exact hholds
    · exact (congrArg (AList.lookup c) hkeys).trans (h.keys_update hx hview rfl rfl c)

theorem Alike.heartbeat (h : Alike json b c) :
    ServesAlike json b ⟨.heartbeat method host, now, fresh, keepalive⟩ := by
  obtain ⟨hconnected, hcases⟩ := h.connected.updateFirst_spec method host
    (f := fun x => { x with lastheartbeat := now }) (fun _ => rfl) (fun _ => rfl)
  obtain ⟨hfalse, hsame, hnone⟩ | ⟨htrue, conn, x, hx, hm, haddress, hview⟩ := hcases
  · have hlease := h.holds.lease_of_none (h.key_eq_none hnone)
    have hstore : b.store.heartbeat b.etcd method host keepalive = (false, b.store, b.etcd) := by
      rw [EtcdRegistryStore.heartbeat, hlease]
      rfl
    refine ⟨?_, c, ?_⟩
    · simp only [ProviderManager.serve, EtcdRegistryStore.serve, hstore]
      exact hfalse
    · simp only [ProviderManager.serve, EtcdRegistryStore.serve, hstore]
      rw [show (b.memory.updateProviderLastHeartbeat method host now).2 = b.memory from hsame]
      exact h
  · have hsets : Sets b.memory.providerOf
        (b.memory.updateProviderLastHeartbeat method host now).2.providerOf conn
        { x with lastheartbeat := now } method :=
      h.separate.sets hx hm hview rfl rfl (fun _ _ _ => rfl)
    have hplain := h.separate.plain conn x method hx hm
    have hkey : c (keyFor method host) = some (host, x.load) :=
      (h.content.keyFor_eq h.separate _).mpr ⟨conn, x, hx, hm, haddress, rfl⟩
    obtain ⟨hreply, hkeys, hholds⟩ := h.holds.heartbeat hkey keepalive
    have hcontent := h.content.set hsets hplain
    rw [show ({ x with lastheartbeat := now } : Provider γ).address = host from haddress,
      Function.update_eq_self_iff.mpr hkey.symm] at hcontent
    refine ⟨htrue.trans hreply.symm, c, hconnected,
      h.separate.set hsets hplain (h.separate.readable conn x hx), hcontent, hholds, fun c => ?_⟩
    exact (congrArg (AList.lookup c) hkeys).trans (h.keys_update hx hview rfl rfl c)

theorem Alike.disconnectProvider (h : Alike json b c) :
    ServesAlike json b ⟨.disconnectProvider conn, now, fresh, keepalive⟩ := by
  obtain ⟨hconnected, hout, hview⟩ := h.connected.disconnectProvider_spec conn
  have hview : (b.memory.disconnectProvider conn).2.providerOf =
      fun c => if c = conn then none else b.memory.providerOf c := funext hview
  cases hx : b.memory.providerOf conn with
  | none =>
      have hlookup := h.keys conn
      rw [hx] at hlookup hout
      have hstore : b.store.disconnectProvider b.etcd conn = (.ok [], b.store, b.etcd) := by
        rw [EtcdRegistryStore.disconnectProvider, EtcdRegistryStore.takeConnKeys, hlookup]
        rfl
      have hsame : (b.memory.disconnectProvider conn).2 = b.memory := by
        rw [ProviderManager.disconnectProvider_eq, hx]
      refine ⟨?_, c, ?_⟩
      · simp only [ProviderManager.serve, EtcdRegistryStore.serve, hstore, hout]
        exact fun _ => Iff.rfl
      · simp only [ProviderManager.serve, EtcdRegistryStore.serve, hstore, hsame]
        exact h
  | some x =>
      have hlookup := h.keys conn
      rw [hx] at hlookup hout
      have hdelete := EtcdRegistryStore.deleteKeys_spec b.etcd x.methods
        (fun m hm => h.separate.plain conn x m hx hm)
      have hstore : b.store.disconnectProvider b.etcd conn =
          (.ok (x.methods.map (·, x.address)),
            (x.methods.map (keyFor · x.address)).foldl EtcdRegistryStore.forget
              { b.store with keysByConn := b.store.keysByConn.erase conn },
            (x.methods.map (keyFor · x.address)).foldl Etcd.deleteRange b.etcd) := by
        rw [EtcdRegistryStore.disconnectProvider, EtcdRegistryStore.takeConnKeys, hlookup]
        simp only [Option.map_some, hdelete]
      refine ⟨?_, fun key => if key ∈ x.methods.map (keyFor · x.address) then none else c key, ?_⟩
      · simp only [ProviderManager.serve, EtcdRegistryStore.serve, hstore, hout]
        exact fun _ => Iff.rfl
      · simp only [ProviderManager.serve, EtcdRegistryStore.serve, hstore]
        have hholds : EtcdHolds { b.store with keysByConn := b.store.keysByConn.erase conn }
            b.etcd c := ⟨h.holds.values, h.holds.loads, h.holds.leases, h.holds.live⟩
        refine ⟨hconnected, ?_, ?_, hholds.drop _, fun c' => ?_⟩
        · exact hview.symm ▸ h.separate.drop conn
        · exact hview.symm ▸ h.content.drop h.separate hx
        · refine (congrArg (AList.lookup c')
            (EtcdRegistryStore.foldl_forget _ (x.methods.map (keyFor · x.address))).1).trans ?_
          show (b.store.keysByConn.erase conn).lookup c' = Option.map _
            ((b.memory.disconnectProvider conn).2.providerOf c')
          rw [hview]
          dsimp only
          split
          · rename_i hc
            rw [hc, AList.lookup_erase]
            rfl
          · rename_i hc
            rw [AList.lookup_erase_ne hc, h.keys]

theorem Alike.serves (h : Alike json b c) (a : BackendsAct γ)
    (hfresh : (b.memory.objects a.fresh).isNone)
    (hok : interchangeable json b.memory a.call = true) : ServesAlike json b a := by
  obtain ⟨call, now, fresh, keepalive⟩ := a
  cases call with
  | registerInstance conn host method load => exact h.registerInstance hfresh hok
  | methodHost method =>
      obtain ⟨hosts, hhosts, hmem⟩ := h.methodHost method
      refine ⟨?_, c, h⟩
      simp only [ProviderManager.serve, EtcdRegistryStore.serve, hhosts]
      exact hmem
  | methodHostDetails method =>
      obtain ⟨details, hdetails, hmem⟩ := h.methodHostDetails method
      refine ⟨?_, c, h⟩
      simp only [ProviderManager.serve, EtcdRegistryStore.serve, hdetails]
      exact hmem
  | reportLoad method host load => exact h.reportLoad hok
  | heartbeat method host => exact h.heartbeat
  | disconnectProvider conn => exact h.disconnectProvider

theorem alike_initial : Alike json ({} : Backends γ) (fun _ => none) := by
  have hview : ∀ conn, ({} : ProviderManager γ).providerOf conn = none := fun _ => rfl
  refine ⟨⟨fun _ _ hp => (nomatch hp), fun method p => ?_⟩,
    ⟨fun conn x _ hx => ?_, fun conn x hx => ?_, fun conn _ x _ _ hx => ?_⟩,
    fun key d => ⟨fun hd => (nomatch hd), ?_⟩,
    ⟨fun _ => rfl, fun _ => rfl, fun _ => rfl, fun _ _ hl => (nomatch hl)⟩, fun _ => rfl⟩
  · constructor
    · exact fun hp => (List.not_mem_nil hp).elim
    · rintro ⟨_, hx, _⟩
      cases hx
  · rw [hview] at hx
    cases hx
  · rw [hview] at hx
    cases hx
  · rw [hview] at hx
    cases hx
  · rintro ⟨conn, x, hx, _⟩
    rw [hview] at hx
    cases hx

theorem Alike.of_run (h : Run (backendsStep json)
    (fun b a => interchangeable json b.memory a.call = true) {} b) : ∃ c, Alike json b c := by
  refine h.invariant (fun b => ∃ c, Alike json b c) ⟨_, alike_initial⟩ ?_
  rintro s a t ⟨c, hs⟩ hok ht
  unfold backendsStep at ht
  split at ht
  · rename_i hfresh
    obtain rfl := Option.some.inj ht
    exact (hs.serves a hfresh hok).2
  · cases ht

/-- After any calls that do not set the backends apart, one more such call is
answered by both in the same way. -/
theorem backends_agree (h : Run (backendsStep json)
      (fun b a => interchangeable json b.memory a.call = true) {} b) (a : BackendsAct γ)
    (hfresh : (b.memory.objects a.fresh).isNone)
    (hok : interchangeable json b.memory a.call = true) :
    (b.memory.serve a.now a.fresh a.call).1.Same
      (b.store.serve json b.etcd a.keepalive a.call).1 := by
  obtain ⟨c, halike⟩ := Alike.of_run h
  exact (halike.serves a hfresh hok).1

end Alike

/-- A reader that knows the values of one host, with load 3 or 5. -/
def loadReader : Jsoncpp where
  realText _ := []
  parse input :=
    if input = valueFor ⟨str "10.0.0.1", 8080⟩ 3 then .ok (some (.object [(str "load", .int 3)]))
    else if input = valueFor ⟨str "10.0.0.1", 8080⟩ 5 then
      .ok (some (.object [(str "load", .int 5)]))
    else .ok none
  write _ := none

def oneProvider : List (BackendsAct Nat) :=
  [{ call := .registerInstance 0 ⟨str "10.0.0.1", 8080⟩ (str "add") 3, fresh := 100 },
   { call := .reportLoad (str "add") ⟨str "10.0.0.1", 8080⟩ 5, fresh := 200 },
   { call := .heartbeat (str "add") ⟨str "10.0.0.1", 8080⟩, fresh := 200, keepalive := false }]

theorem backends_agree_oneProvider :
    ∃ b, exec (guarded (backendsStep loadReader)
        (fun b a => interchangeable loadReader b.memory a.call = true)) {} oneProvider = some b ∧
      (b.memory.serve 0 200 (.methodHostDetails (str "add"))).1.Same
        (b.store.serve loadReader b.etcd true (.methodHostDetails (str "add"))).1 := by
  obtain ⟨b, hb, hfresh⟩ := Option.map_eq_some_iff.mp
    (show (exec (guarded (backendsStep loadReader)
      (fun b a => interchangeable loadReader b.memory a.call = true)) {} oneProvider).map
        (fun b => (b.memory.objects 200).isNone) = some true by decide +kernel)
  exact ⟨b, hb, backends_agree (Run.of_guarded hb)
    { call := .methodHostDetails (str "add"), fresh := 200 } hfresh rfl⟩

/-- Two connections offer the same, and the first closes. -/
def sharedKey : List (BackendsAct Nat) :=
  [{ call := .registerInstance 0 ⟨str "10.0.0.1", 8080⟩ (str "add") 3, fresh := 100 },
   { call := .registerInstance 1 ⟨str "10.0.0.1", 8080⟩ (str "add") 3, fresh := 200 },
   { call := .disconnectProvider 0, fresh := 300 }]

/-- In memory the host is still offered, in etcd it is gone. -/
theorem backends_disagree :
    ¬ ∀ b : Backends Nat, Reachable (backendsStep loadReader) {} b →
      ∀ a : BackendsAct Nat, (b.memory.objects a.fresh).isNone →
        (b.memory.serve a.now a.fresh a.call).1.Same
          (b.store.serve loadReader b.etcd a.keepalive a.call).1 := by
  intro h
  obtain ⟨b, hb, hview⟩ := Option.map_eq_some_iff.mp
    (show (exec (backendsStep loadReader) {} sharedKey).map (fun b =>
        ((b.memory.objects 300).isNone, b.memory.methodHost (str "add"),
          b.etcd.httpGetPrefix (methodPrefix (str "add")))) =
      some (true, [⟨str "10.0.0.1", 8080⟩], []) by decide +kernel)
  obtain ⟨hfresh, hview⟩ := Prod.mk.inj hview
  obtain ⟨hmemory, hetcd⟩ := Prod.mk.inj hview
  have hsame := h b (Reachable.of_exec hb) { call := .methodHost (str "add"), fresh := 300 } hfresh
  simp only [ProviderManager.serve, EtcdRegistryStore.serve, EtcdRegistryStore.methodHost, hmemory,
    hetcd] at hsame
  exact List.not_mem_nil ((hsame ⟨str "10.0.0.1", 8080⟩).mp (List.mem_singleton.mpr rfl))

end LyqtRpc
