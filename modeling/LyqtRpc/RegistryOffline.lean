import LyqtRpc.ProviderManager
import LyqtRpc.Lib.Departure
import LyqtRpc.Lib.StepRun

/-!
OFFLINE notices: which providers a step takes out of the set of a method, and
for which of them it announces the host as gone.
-/

set_option autoImplicit false

namespace LyqtRpc

open StepRun Departure

section Registry
variable {γ : Type}

namespace ProviderManager

def addressOf (s : ProviderManager γ) (p : Nat) : HostInfo :=
  ((s.objects p).map (·.address)).getD ⟨[], 0⟩

variable [DecidableEq γ]

/-- Addresses in the maps are those of objects. -/
structure Allocated (s : ProviderManager γ) : Prop where
  offered : ∀ method, ∀ p ∈ (s.providers method).keys, (s.objects p).isSome
  connected : ∀ conn p, s.connwithp.lookup conn = some p → (s.objects p).isSome

variable {s : ProviderManager γ} {method : Bytes} {p : Nat}

omit [DecidableEq γ] in
theorem methodHost_eq (h : ∀ p ∈ (s.providers method).keys, (s.objects p).isSome) :
    s.methodHost method = (s.providers method).keys.map s.addressOf := by
  rw [methodHost, ← List.filterMap_eq_map]
  refine List.filterMap_congr (fun p hp => ?_)
  obtain ⟨x, hx⟩ := Option.isSome_iff_exists.mp (h p hp)
  simp [addressOf, hx]

omit [DecidableEq γ] in
@[simp] theorem isSome_update (f : Provider γ → Provider γ) (q : Nat) :
    ((s.update p f).objects q).isSome = (s.objects q).isSome := by
  simp only [update, Function.update_apply]
  split
  · rename_i heq
    rw [heq, Option.isSome_map]
  · rfl

omit [DecidableEq γ] in
theorem addressOf_update {f : Provider γ → Provider γ} (hf : ∀ x, (f x).address = x.address)
    (q : Nat) : (s.update p f).addressOf q = s.addressOf q := by
  simp only [addressOf, update, Function.update_apply]
  split
  · rename_i heq
    rw [heq, Option.map_map]
    congr 2
    funext x
    exact hf x
  · rfl

theorem Allocated.update (h : s.Allocated) (f : Provider γ → Provider γ) :
    (s.update p f).Allocated where
  offered method q hq := (isSome_update f q).trans (h.offered method q hq)
  connected conn q hq := (isSome_update f q).trans (h.connected conn q hq)

/-- `t` has one offer more than `s`; the objects of `s` are where they were. -/
structure Adds (s t : ProviderManager γ) (method : Bytes) (p : Nat) : Prop where
  offered : ∀ method' q, q ∈ (t.providers method').keys ↔
    q ∈ (s.providers method').keys ∨ (method' = method ∧ q = p)
  address : ∀ q, (s.objects q).isSome → t.addressOf q = s.addressOf q
  allocated : t.Allocated

theorem addProvider_adds (h : s.Allocated) {fresh : Nat} (hfresh : (s.objects fresh).isNone)
    (conn : γ) (host : HostInfo) (method : Bytes) (load : Int32) (now : Int) :
    ∃ p, Adds s (s.addProvider conn host method load now fresh) method p := by
  obtain ⟨p, base, hobject, hreg⟩ :=
    addProvider_registers h.connected hfresh conn host method load now
  generalize s.addProvider conn host method load now fresh = t at hreg ⊢
  have hgrows : ∀ q, (s.objects q).isSome → (t.objects q).isSome := by
    intro q hq
    rw [hreg.objects]
    split
    · rfl
    · exact hq
  refine ⟨p, hreg.mem_keys, fun q hq => ?_, fun method' q hq => ?_, fun c q hq => ?_⟩
  · unfold addressOf
    rw [hreg.objects]
    split
    · rename_i heq
      subst heq
      obtain ⟨x, hx⟩ := Option.isSome_iff_exists.mp hq
      rw [hx, hobject.same hx]
      rfl
    · rfl
  · cases (hreg.mem_keys method' q).mp hq with
    | inl hold => exact hgrows q (h.offered method' q hold)
    | inr hnew => rw [hnew.2, hreg.object]; rfl
  · rw [hreg.conns] at hq
    split at hq
    · obtain rfl := Option.some.inj hq
      rw [hreg.object]
      rfl
    · exact hgrows q (h.connected c q hq)

theorem updateFirst_spec (h : s.Allocated) (method : Bytes) (host : HostInfo)
    {f : Provider γ → Provider γ} (hf : ∀ x, (f x).address = x.address) :
    (∀ q, (s.updateFirst method host f).2.addressOf q = s.addressOf q) ∧
      (∀ method', (s.updateFirst method host f).2.providers method' = s.providers method') ∧
      (s.updateFirst method host f).2.Allocated := by
  unfold updateFirst
  split
  · exact ⟨fun _ => rfl, fun _ => rfl, h⟩
  · exact ⟨addressOf_update hf, fun _ => rfl, h.update f⟩

/-- `t` has lost the offers in `gone`, and the objects are where they were. -/
structure Removes (s t : ProviderManager γ) (gone : Bytes → List Nat) : Prop where
  leaves : ∀ method, Leaves (s.providers method).keys (gone method) (t.providers method).keys
  objects : t.objects = s.objects
  connected : ∀ conn q, t.connwithp.lookup conn = some q → s.connwithp.lookup conn = some q

theorem Removes.allocated {t : ProviderManager γ} {gone : Bytes → List Nat}
    (h : Removes s t gone) (hs : s.Allocated) : t.Allocated where
  offered method q hq := by
    rw [h.objects]
    exact hs.offered method q ((h.leaves method q).mp hq).1
  connected conn q hq := by
    rw [h.objects]
    exact hs.connected conn q (h.connected conn q hq)

theorem Removes.address {t : ProviderManager γ} {gone : Bytes → List Nat}
    (h : Removes s t gone) (q : Nat) : t.addressOf q = s.addressOf q := by
  rw [addressOf, h.objects]
  rfl

omit [DecidableEq γ] in
/-- `delProvider` erases the provider from the set of each method it lists. -/
theorem eraseAll_spec (s : ProviderManager γ) (p : Nat) (methods : List Bytes) :
    let t := methods.foldl (fun s method =>
      s.withProviders method ((s.providers method).erase p)) s
    (∀ method q, q ∈ (t.providers method).keys ↔
      q ∈ (s.providers method).keys ∧ ¬ (method ∈ methods ∧ q = p)) ∧
    t.objects = s.objects ∧ t.connwithp = s.connwithp := by
  induction methods generalizing s with
  | nil => simp
  | cons first methods ih =>
    obtain ⟨hsets, hobjects, hconns⟩ :=
      ih (s.withProviders first ((s.providers first).erase p))
    refine ⟨fun method q => ?_, hobjects, hconns⟩
    rw [List.foldl_cons, hsets, providers_withProviders, List.mem_cons]
    split
    · rename_i heq
      subst heq
      rw [OrderedMap.mem_keys_erase]
      tauto
    · tauto

/-- The providers a closing connection takes out of the set of a method, once
for every time the method is listed. -/
def closing (s : ProviderManager γ) (conn : γ) (method : Bytes) : List Nat :=
  match s.getProvider conn with
  | none => []
  | some p =>
    ((((s.objects p).map (·.methods)).getD []).filter (· = method)).map (fun _ => p)

theorem delProvider_removes (s : ProviderManager γ) (conn : γ) :
    Removes s (s.delProvider conn) (s.closing conn) := by
  unfold delProvider closing getProvider
  cases hp : s.connwithp.lookup conn with
  | none => exact ⟨fun _ _ => by simp, rfl, fun _ _ h => h⟩
  | some p =>
    obtain ⟨hsets, hobjects, hconns⟩ :=
      eraseAll_spec s p (((s.objects p).map (·.methods)).getD [])
    refine ⟨fun method q => ?_, hobjects, fun conn' q hq => ?_⟩
    · refine (hsets method q).trans (and_congr_right' (not_congr ?_))
      simp only [List.mem_map, List.mem_filter, decide_eq_true_eq]
      constructor
      · rintro ⟨hmethod, rfl⟩
        exact ⟨method, ⟨hmethod, rfl⟩, rfl⟩
      · rintro ⟨_, ⟨hmethod, rfl⟩, rfl⟩
        exact ⟨hmethod, rfl⟩
    · by_cases hconn : conn' = conn
      · subst hconn
        cases (AList.lookup_erase _ _).symm.trans hq
      · exact (AList.lookup_erase_ne hconn).symm.trans hq

theorem disconnectProvider_removes (h : s.Allocated) (conn : γ) :
    Removes s (s.disconnectProvider conn).2 (s.closing conn) := by
  unfold disconnectProvider
  cases hx : (s.getProvider conn).bind s.objects with
  | some x => exact delProvider_removes s conn
  | none =>
    cases hp : s.getProvider conn with
    | none =>
      have hclosing : s.closing conn = fun _ => [] := by
        funext method
        rw [closing, hp]
      rw [hclosing]
      exact ⟨fun _ _ => by simp, rfl, fun _ _ h => h⟩
    | some p =>
      rw [hp] at hx
      have hsome := h.connected conn p hp
      rw [show s.objects p = none from hx] at hsome
      cases hsome

/-- The offline list names the method as often as the connection lists it. -/
theorem disconnectProvider_count (s : ProviderManager γ) (conn : γ) (method : Bytes)
    (host : HostInfo) :
    (s.disconnectProvider conn).1.count (method, host) =
      ((s.closing conn method).map s.addressOf).count host := by
  unfold disconnectProvider closing
  cases hp : s.getProvider conn with
  | none => rfl
  | some p =>
    cases hx : s.objects p with
    | none => simp [hx]
    | some x =>
      have haddress : s.addressOf p = x.address := by simp [addressOf, hx]
      simp only [Option.bind_some, hx, Option.map_some, Option.getD_some, List.map_map,
        Function.comp_def, haddress]
      induction x.methods with
      | nil => rfl
      | cons first methods ih =>
        by_cases hfirst : first = method
        · simp [hfirst, ih, List.count_cons]
        · simp [hfirst, ih]

omit [DecidableEq γ] in
theorem providers_mapSets (s : ProviderManager γ) {f : ProviderSet → ProviderSet}
    (hf : f {} = {}) (method : Bytes) :
    providers { s with methodwithproviders := mapSets s.methodwithproviders f } method =
      f (s.providers method) := by
  have hlookup : (mapSets s.methodwithproviders f).lookup method =
      (s.methodwithproviders.lookup method).map f := List.dlookup_map₂ method
  rw [providers, providers, hlookup]
  cases s.methodwithproviders.lookup method with
  | none => exact hf.symm
  | some set => rfl

theorem sweepExpired_removes (s : ProviderManager γ) (idle_timeout now : Int) :
    Removes s (s.sweepExpired idle_timeout now).2
      (fun method => s.toRemove idle_timeout now (s.providers method)) where
  leaves method q := by
    rw [sweepExpired, providers_mapSets s rfl]
    exact OrderedMap.mem_keys_foldl_erase
  objects := rfl
  connected _ _ h := h

omit [DecidableEq γ] in
/-- Every method has one entry, so what is listed for a method comes from its set. -/
theorem count_flatMap_entries {f : ProviderSet → List HostInfo} (hf : f {} = [])
    {entries : List (Σ _ : Bytes, ProviderSet)} (h : entries.NodupKeys) (method : Bytes)
    (host : HostInfo) :
    (entries.flatMap (fun e => (f e.2).map (fun a => (e.1, a)))).count (method, host) =
      (f ((entries.dlookup method).getD {})).count host := by
  induction entries with
  | nil => simp [hf]
  | cons e entries ih =>
    obtain ⟨hkey, hentries⟩ := List.nodupKeys_cons.mp h
    rw [List.flatMap_cons, List.count_append, ih hentries]
    by_cases hmethod : method = e.1
    · subst hmethod
      have hinj : Function.Injective (fun a : HostInfo => (e.1, a)) :=
        fun _ _ h => (Prod.mk.inj h).2
      rw [List.dlookup_eq_none.mpr hkey, List.dlookup_cons_eq, Option.getD_none, hf,
        List.count_map_of_injective _ _ hinj]
      rfl
    · rw [List.dlookup_cons_ne _ _ hmethod, List.count_eq_zero_of_not_mem, Nat.zero_add]
      simp [Ne.symm hmethod]

omit [DecidableEq γ] in
theorem sweepExpired_count (s : ProviderManager γ) (idle_timeout now : Int) (method : Bytes)
    (host : HostInfo) :
    (s.sweepExpired idle_timeout now).1.count (method, host) =
      ((s.toRemove idle_timeout now (s.providers method)).map s.addressOf).count host := by
  have hlist : (s.sweepExpired idle_timeout now).1 =
      s.methodwithproviders.entries.flatMap (fun e =>
        ((s.toRemove idle_timeout now e.2).map s.addressOf).map (fun a => (e.1, a))) := by
    refine List.flatMap_congr (fun e _ => ?_)
    rw [List.map_map, ← List.filterMap_eq_map]
    refine List.filterMap_congr (fun p hp => ?_)
    obtain ⟨_, hexpired⟩ := List.mem_filter.mp hp
    obtain ⟨x, hx, _⟩ := (Option.any_eq_true ..).mp hexpired
    simp [addressOf, hx]
  rw [hlist]
  exact count_flatMap_entries (f := fun set => (s.toRemove idle_timeout now set).map s.addressOf)
    rfl s.methodwithproviders.nodupKeys method host

end ProviderManager

variable [DecidableEq γ]

/-- The providers a step takes out of the set of a method. -/
def withdrawn (s : PwithDManager γ) : RegistryAct γ → Bytes → List Nat
  | .onconnShoutdown conn, method => s.rstore.closing conn method
  | .sweepAndNotify idle_timeout_sec now, method =>
    s.rstore.toRemove idle_timeout_sec.toInt now (s.rstore.providers method)
  | _, _ => []

/-- A connection that closes has named no method twice, and is in the set of each
as the only provider at its address; so is every provider that expires. -/
def CleanStep (s : PwithDManager γ) : RegistryAct γ → Prop
  | .onconnShoutdown conn => ∀ p x, s.rstore.getProvider conn = some p →
      s.rstore.objects p = some x → x.methods.Nodup ∧ ∀ method ∈ x.methods,
        Sole s.rstore.addressOf (s.rstore.providers method).keys p
  | .sweepAndNotify idle_timeout_sec now => ∀ method, ∀ p ∈ (s.rstore.providers method).keys,
      s.rstore.expired idle_timeout_sec.toInt now p = true →
        Sole s.rstore.addressOf (s.rstore.providers method).keys p
  | _ => True

/-- The step broadcasts OFFLINE once for what it makes undiscoverable, and for
nothing else; only a REGISTER of the method makes a host discoverable. -/
structure OfflineExactTo (s : PwithDManager γ) (a : RegistryAct γ) (t : PwithDManager γ) :
    Prop where
  offline : ∀ method host, t.notified.count ⟨.OFFLINE, method, host⟩ =
    s.notified.count ⟨.OFFLINE, method, host⟩ +
      if Discoverable s method host ∧ ¬ Discoverable t method host then 1 else 0
  online : ∀ method host, ¬ Discoverable s method host → Discoverable t method host →
    ∃ conn at' load now fresh, a = .register conn at' method load now fresh

def OfflineExact (s : PwithDManager γ) (a : RegistryAct γ) : Prop :=
  ∀ t, registryStep s a = some t → OfflineExactTo s a t

variable {s t : PwithDManager γ} {a : RegistryAct γ}

omit [DecidableEq γ] in
theorem count_offlineNotices (offline : List (Bytes × HostInfo)) (method : Bytes)
    (host : HostInfo) :
    (offlineNotices offline).count ⟨.OFFLINE, method, host⟩ = offline.count (method, host) := by
  have hinj : Function.Injective (fun e : Bytes × HostInfo => Notice.mk .OFFLINE e.1 e.2) :=
    fun _ _ h => Prod.ext (Notice.mk.inj h).2.1 (Notice.mk.inj h).2.2
  exact List.count_map_of_injective offline _ hinj (method, host)

theorem discoverable_iff (h : s.rstore.Allocated) (method : Bytes) (host : HostInfo) :
    Discoverable s method host ↔
      host ∈ (s.rstore.providers method).keys.map s.rstore.addressOf := by
  rw [Discoverable, ProviderManager.methodHost_eq (h.offered method)]

/-- What a step that registers nothing does to the offers and the notices. -/
structure Withdraws (s : PwithDManager γ) (a : RegistryAct γ) (t : PwithDManager γ) : Prop where
  allocated : t.rstore.Allocated
  leaves : ∀ method, Leaves (s.rstore.providers method).keys (withdrawn s a method)
    (t.rstore.providers method).keys
  address : ∀ q, t.rstore.addressOf q = s.rstore.addressOf q
  announced : ∀ method host, t.notified.count ⟨.OFFLINE, method, host⟩ =
    s.notified.count ⟨.OFFLINE, method, host⟩ +
      ((withdrawn s a method).map s.rstore.addressOf).count host

theorem Withdraws.lost (h : Withdraws s a t) (hs : s.rstore.Allocated) (method : Bytes)
    (host : HostInfo) :
    (if Discoverable s method host ∧ ¬ Discoverable t method host then 1 else 0) =
      Departure.lost s.rstore.addressOf (s.rstore.providers method).keys
        (t.rstore.providers method).keys host := by
  have haddress : t.rstore.addressOf = s.rstore.addressOf := funext h.address
  simp only [discoverable_iff hs, discoverable_iff h.allocated, haddress, Departure.lost]

theorem Withdraws.exact_iff (h : Withdraws s a t) (hs : s.rstore.Allocated) :
    OfflineExactTo s a t ↔ ∀ method, (withdrawn s a method).Nodup ∧
      ∀ p ∈ withdrawn s a method,
        Sole s.rstore.addressOf (s.rstore.providers method).keys p := by
  have honline : ∀ method host, ¬ Discoverable s method host → ¬ Discoverable t method host := by
    intro method host hnot ht
    rw [discoverable_iff hs] at hnot
    rw [discoverable_iff h.allocated] at ht
    obtain ⟨q, hq, rfl⟩ := List.mem_map.mp ht
    exact hnot (List.mem_map.mpr ⟨q, ((h.leaves method q).mp hq).1, (h.address q).symm⟩)
  have hoffline : OfflineExactTo s a t ↔ ∀ method host,
      ((withdrawn s a method).map s.rstore.addressOf).count host =
        Departure.lost s.rstore.addressOf (s.rstore.providers method).keys
          (t.rstore.providers method).keys host := by
    constructor
    · intro hexact method host
      have hcount := hexact.offline method host
      rw [h.announced, h.lost hs] at hcount
      exact Nat.add_left_cancel hcount
    · intro hcount
      refine ⟨fun method host => ?_, fun method host hnot ht =>
        absurd ht (honline method host hnot)⟩
      rw [h.announced, h.lost hs, hcount]
  rw [hoffline]
  exact forall_congr' fun method => (h.leaves method).exact_iff

/-- The condition on the step, spelled out, says that of the providers withdrawn. -/
theorem cleanStep_iff (a : RegistryAct γ) :
    CleanStep s a ↔ ∀ method, (withdrawn s a method).Nodup ∧
      ∀ p ∈ withdrawn s a method,
        Sole s.rstore.addressOf (s.rstore.providers method).keys p := by
  cases a with
  | register conn host method load now fresh => simp [CleanStep, withdrawn]
  | loadReport host method load now => simp [CleanStep, withdrawn]
  | heartbeatProvider host method now => simp [CleanStep, withdrawn]
  | sweepAndNotify idle_timeout_sec now =>
      simp only [CleanStep, withdrawn, ProviderManager.toRemove, List.mem_filter, and_imp]
      exact forall_congr' fun method =>
        ⟨fun h => ⟨(OrderedMap.nodup_keys _).filter _, h⟩, fun h => h.2⟩
  | onconnShoutdown conn =>
      simp only [CleanStep, withdrawn]
      cases hp : s.rstore.getProvider conn with
      | none => simp [ProviderManager.closing, hp]
      | some p =>
        cases hx : s.rstore.objects p with
        | none =>
          refine iff_of_true (fun p' x hp' hx' => ?_) (fun method => ?_)
          · obtain rfl := Option.some.inj hp'
            cases hx.symm.trans hx'
          · simp [ProviderManager.closing, hp, hx]
        | some x =>
          have hclosing : ∀ method,
              s.rstore.closing conn method = List.replicate (x.methods.count method) p := by
            intro method
            simp [ProviderManager.closing, hp, hx, List.filter_eq]
          simp only [hclosing, List.nodup_replicate, List.mem_replicate, and_imp]
          constructor
          · intro h method
            obtain ⟨hnodup, hsole⟩ := h p x rfl hx
            refine ⟨List.nodup_iff_count_le_one.mp hnodup method, ?_⟩
            rintro q hcount rfl
            exact hsole method (List.count_pos_iff.mp (Nat.pos_of_ne_zero hcount))
          · rintro h p' x' hp' hx'
            obtain rfl := Option.some.inj hp'
            obtain rfl := Option.some.inj (hx.symm.trans hx')
            exact ⟨List.nodup_iff_count_le_one.mpr (fun method => (h method).1),
              fun method hmethod => (h method).2 p (List.count_pos_iff.mpr hmethod).ne' rfl⟩

theorem registryStep_withdraws (h : s.rstore.Allocated) :
    (∃ conn host method load now fresh, a = .register conn host method load now fresh) ∨
      ∃ t, registryStep s a = some t ∧ Withdraws s a t := by
  have hnone : ∀ method, Leaves (s.rstore.providers method).keys []
      (s.rstore.providers method).keys := fun _ _ => by simp
  cases a with
  | register conn host method load now fresh => exact .inl ⟨_, _, _, _, _, _, rfl⟩
  | loadReport host method load now =>
      obtain ⟨haddress, hsets, hallocated⟩ := s.rstore.updateFirst_spec h method host
        (f := fun x => { x with load, lastheartbeat := now }) (fun _ => rfl)
      refine .inr ⟨_, rfl, hallocated, fun method' => ?_, haddress, fun _ _ => rfl⟩
      exact (hsets method').symm ▸ hnone method'
  | heartbeatProvider host method now =>
      obtain ⟨haddress, hsets, hallocated⟩ := s.rstore.updateFirst_spec h method host
        (f := fun x => { x with lastheartbeat := now }) (fun _ => rfl)
      refine .inr ⟨_, rfl, hallocated, fun method' => ?_, haddress, fun _ _ => rfl⟩
      exact (hsets method').symm ▸ hnone method'
  | onconnShoutdown conn =>
      have hremoves := ProviderManager.disconnectProvider_removes h conn
      refine .inr ⟨⟨(s.rstore.disconnectProvider conn).2,
        s.notified ++ offlineNotices (s.rstore.disconnectProvider conn).1⟩, rfl,
        hremoves.allocated h, hremoves.leaves, hremoves.address, fun method host => ?_⟩
      rw [List.count_append, count_offlineNotices, s.rstore.disconnectProvider_count]
      rfl
  | sweepAndNotify idle_timeout_sec now =>
      have hremoves := s.rstore.sweepExpired_removes idle_timeout_sec.toInt now
      refine .inr ⟨⟨(s.rstore.sweepExpired idle_timeout_sec.toInt now).2,
        s.notified ++ offlineNotices (s.rstore.sweepExpired idle_timeout_sec.toInt now).1⟩, rfl,
        hremoves.allocated h, hremoves.leaves, hremoves.address, fun method host => ?_⟩
      rw [List.count_append, count_offlineNotices, s.rstore.sweepExpired_count]
      rfl

/-- A REGISTER takes nothing offline. -/
theorem register_exact (h : s.rstore.Allocated) {conn : γ} {host : HostInfo} {method : Bytes}
    {load : Int32} {now : Int} {fresh : Nat}
    (hs : registryStep s (.register conn host method load now fresh) = some t) :
    OfflineExactTo s (.register conn host method load now fresh) t ∧ t.rstore.Allocated := by
  simp only [registryStep] at hs
  split at hs
  · rename_i hfresh
    obtain rfl := Option.some.inj hs
    obtain ⟨p, hadds⟩ := ProviderManager.addProvider_adds h hfresh conn host method load now
    refine ⟨⟨fun method' host' => ?_, fun method' host' hnot ht => ?_⟩, hadds.allocated⟩
    · have hstays : ¬ (Discoverable s method' host' ∧ ¬ Discoverable
          ⟨s.rstore.addProvider conn host method load now fresh,
            s.notified ++ [⟨.ONLINE, method, host⟩]⟩ method' host') := by
        rintro ⟨hbefore, hafter⟩
        rw [discoverable_iff hadds.allocated] at hafter
        obtain ⟨q, hq, rfl⟩ := List.mem_map.mp ((discoverable_iff h ..).mp hbefore)
        exact hafter (List.mem_map.mpr ⟨q, (hadds.offered method' q).mpr (.inl hq),
          hadds.address q (h.offered method' q hq)⟩)
      rw [if_neg hstays, List.count_append]
      simp
    · obtain ⟨q, hq, rfl⟩ := List.mem_map.mp ((discoverable_iff hadds.allocated ..).mp ht)
      cases (hadds.offered method' q).mp hq with
      | inl hold =>
        refine absurd ((discoverable_iff h ..).mpr ?_) hnot
        exact List.mem_map.mpr ⟨q, hold, (hadds.address q (h.offered method' q hold)).symm⟩
      | inr hnew =>
        obtain ⟨rfl, _⟩ := hnew
        exact ⟨_, _, _, _, _, rfl⟩
  · cases hs

theorem registryStep_allocated (h : s.rstore.Allocated) (hs : registryStep s a = some t) :
    t.rstore.Allocated := by
  cases registryStep_withdraws (a := a) h with
  | inl hregister =>
    obtain ⟨conn, host, method, load, now, fresh, rfl⟩ := hregister
    exact (register_exact h hs).2
  | inr hwithdraws =>
    obtain ⟨u, hu, hwithdraws⟩ := hwithdraws
    obtain rfl := Option.some.inj (hu.symm.trans hs)
    exact hwithdraws.allocated

theorem cleanStep_iff_exact (h : s.rstore.Allocated) (a : RegistryAct γ) :
    CleanStep s a ↔ OfflineExact s a := by
  cases registryStep_withdraws (a := a) h with
  | inl hregister =>
    obtain ⟨conn, host, method, load, now, fresh, rfl⟩ := hregister
    exact iff_of_true trivial (fun t ht => (register_exact h ht).1)
  | inr hwithdraws =>
    obtain ⟨u, hu, hwithdraws⟩ := hwithdraws
    rw [cleanStep_iff, ← hwithdraws.exact_iff h]
    constructor
    · intro hexact t ht
      obtain rfl := Option.some.inj (hu.symm.trans ht)
      exact hexact
    · exact fun hexact => hexact u hu

/-- In every run: OFFLINE is broadcast exactly as hosts stop being discoverable, step by
step, if and only if every step that takes providers away is clean. -/
theorem offline_exact (acts : List (RegistryAct γ)) :
    Along registryStep CleanStep {} acts ↔ Along registryStep OfflineExact {} acts := by
  have hinitial : ProviderManager.Allocated ({} : ProviderManager γ) :=
    ⟨fun _ _ hp => (List.not_mem_nil hp).elim, fun _ _ hp => nomatch hp⟩
  exact Along.congr (fun s => s.rstore.Allocated)
    (fun _ _ _ h hs => registryStep_allocated h hs) (fun _ a h => cleanStep_iff_exact h a) hinitial

end Registry

/-- A provider reconnects and registers again, while its old connection is still open. -/
def reconnectRun : List (RegistryAct Nat) :=
  [.register 0 ⟨str "10.0.0.1", 8080⟩ (str "add") 0 0 100,
   .register 1 ⟨str "10.0.0.1", 8080⟩ (str "add") 0 1 200]

/-- When the old connection closes, a host that is offered all the time is taken offline. -/
theorem reconnect_goes_offline :
    ¬ ∀ acts : List (RegistryAct Nat), Along registryStep OfflineExact {} acts := by
  intro h
  obtain ⟨s, hs, hclose⟩ := Option.bind_eq_some_iff.mp
    (show (exec registryStep {} reconnectRun).bind (fun s =>
      (registryStep s (.onconnShoutdown 0)).map (fun t =>
        (s.notified.count ⟨.OFFLINE, str "add", ⟨str "10.0.0.1", 8080⟩⟩,
          t.notified.count ⟨.OFFLINE, str "add", ⟨str "10.0.0.1", 8080⟩⟩,
          decide (Discoverable t (str "add") ⟨str "10.0.0.1", 8080⟩)))) = some (0, 1, true)
      by decide +kernel)
  obtain ⟨t, ht, hview⟩ := Option.map_eq_some_iff.mp hclose
  simp only [Prod.mk.injEq, decide_eq_true_eq] at hview
  obtain ⟨hbefore, hafter, hlisted⟩ := hview
  have hexact := ((h (reconnectRun ++ [.onconnShoutdown 0])).last hs t ht).offline
    (str "add") ⟨str "10.0.0.1", 8080⟩
  rw [hbefore, hafter, if_neg (fun hgone => hgone.2 hlisted)] at hexact
  cases hexact

end LyqtRpc
