import LyqtRpc.ProviderMaps

/-!
What a registration or a load report changes of what is discovered. Address and
load are those of the one provider of a connection, whatever the method.
-/

set_option autoImplicit false

namespace LyqtRpc

open StepRun

section Frame
variable {γ : Type} [DecidableEq γ]

namespace ProviderManager

/-- What is listed for a method at a host. -/
def entriesAt (s : ProviderManager γ) (method : Bytes) (host : HostInfo) : List HostDetail :=
  (s.methodHostDetails method).filter (fun d => d.host = host)

/-- For every other method and host the list is what it was. -/
def OthersKept (s t : ProviderManager γ) (method : Bytes) (host : HostInfo) : Prop :=
  ∀ method' host', (method', host') ≠ (method, host) →
    t.entriesAt method' host' = s.entriesAt method' host'

/-- The entry of one object in such a list. -/
def entryOf (s : ProviderManager γ) (host : HostInfo) (p : Nat) : Option HostDetail :=
  ((s.objects p).map (fun x => { host := x.address, load := x.load })).filter
    (fun d => d.host = host)

def ownEntry (s : ProviderManager γ) (p : Nat) (method : Bytes) (host : HostInfo) :
    Option HostDetail :=
  if p ∈ (s.providers method).keys then s.entryOf host p else none

variable {s t : ProviderManager γ} {method : Bytes} {host : HostInfo} {p : Nat}
  {x y : Provider γ}

omit [DecidableEq γ] in
theorem entriesAt_eq (s : ProviderManager γ) (method : Bytes) (host : HostInfo) :
    s.entriesAt method host = (s.providers method).keys.filterMap (s.entryOf host) :=
  List.filter_filterMap

omit [DecidableEq γ] in
theorem mem_entriesAt {d : HostDetail} :
    d ∈ s.entriesAt method d.host ↔ d ∈ s.methodHostDetails method := by
  simp [entriesAt]

omit [DecidableEq γ] in
theorem entryOf_eq (hx : s.objects p = some x) (host : HostInfo) :
    s.entryOf host p = if x.address = host then some ⟨x.address, x.load⟩ else none := by
  rw [entryOf, hx, Option.map_some, Option.filter_some]
  simp only [decide_eq_true_eq]

omit [DecidableEq γ] in
/-- Where one object alone is written to, and at most put into the set, a list
stays what it was if and only if its own entry does. -/
theorem entriesAt_eq_iff (hobjects : ∀ q, q ≠ p → t.objects q = s.objects q)
    (hset : t.providers method = s.providers method ∨
      t.providers method = (s.providers method).assign p ()) (host : HostInfo) :
    t.entriesAt method host = s.entriesAt method host ↔
      t.ownEntry p method host = s.ownEntry p method host := by
  obtain ⟨before, behind, hbefore, hbehind, hold, hnew⟩ := (s.providers method).split_keys p ()
  have hsame : ∀ ks : List Nat, p ∉ ks →
      ks.filterMap (t.entryOf host) = ks.filterMap (s.entryOf host) := by
    refine fun ks hks => List.filterMap_congr (fun q hq => ?_)
    rw [entryOf, entryOf, hobjects q (fun heq => hks (heq ▸ hq))]
  have hown : ∀ u : ProviderManager γ,
      (if p ∈ (u.providers method).keys then [p] else []).filterMap (u.entryOf host) =
        (u.ownEntry p method host).toList := by
    intro u
    unfold ownEntry
    split
    · cases hentry : u.entryOf host p <;> simp [hentry]
    · rfl
  have hkeys : (t.providers method).keys =
      before ++ (if p ∈ (t.providers method).keys then [p] else []) ++ behind := by
    cases hset with
    | inl h => rw [h, ← hold]
    | inr h => rw [h, if_pos (OrderedMap.mem_keys_assign.mpr (.inl rfl)), hnew]
  rw [entriesAt_eq, entriesAt_eq, hold, hkeys]
  simp only [List.filterMap_append, hown, hsame before hbefore, hsame behind hbehind,
    List.append_cancel_right_eq, List.append_cancel_left_eq]
  constructor
  · intro h
    simpa using congrArg List.head? h
  · intro h
    rw [h]

omit [DecidableEq γ] in
/-- The other lists stay what they were, if and only if the object was already in
every set that lists its host otherwise, with the load it has now. -/
theorem othersKept_iff (hobjects : ∀ q, q ≠ p → t.objects q = s.objects q)
    (hsets : ∀ method, t.providers method = s.providers method ∨
      t.providers method = (s.providers method).assign p ())
    (hx : s.objects p = some x) (hy : t.objects p = some y) (haddress : y.address = x.address)
    (method : Bytes) (host : HostInfo) :
    OthersKept s t method host ↔ ∀ method', (method', x.address) ≠ (method, host) →
      p ∈ (t.providers method').keys → p ∈ (s.providers method').keys ∧ y.load = x.load := by
  have hgrows : ∀ method', p ∈ (s.providers method').keys → p ∈ (t.providers method').keys := by
    intro method' hp
    cases hsets method' with
    | inl h => rwa [h]
    | inr h => rw [h, OrderedMap.mem_keys_assign]; exact .inl rfl
  have hown : ∀ method' host', t.ownEntry p method' host' = s.ownEntry p method' host' ↔
      (x.address = host' → p ∈ (t.providers method').keys →
        p ∈ (s.providers method').keys ∧ y.load = x.load) := by
    intro method' host'
    rw [ownEntry, ownEntry, entryOf_eq hx, entryOf_eq hy, haddress]
    by_cases hhost : x.address = host'
    · by_cases hin : p ∈ (s.providers method').keys
      · simp [hhost, hin, hgrows method' hin]
      · simp [hhost, hin]
    · simp [hhost]
  unfold OthersKept
  simp only [entriesAt_eq_iff hobjects (hsets _), hown]
  constructor
  · exact fun h method' hne => h method' x.address hne rfl
  · intro h method' host' hne hhost
    subst hhost
    exact h method' hne

/-- No set but that of the method has the object. -/
def OnlyIn (s : ProviderManager γ) (p : Nat) (method : Bytes) : Prop :=
  ∀ method', method' ≠ method → p ∉ (s.providers method').keys

omit [DecidableEq γ] in
/-- At the address of the object: its load is listed by the other sets too. -/
theorem othersKept_iff_onlyIn (hobjects : ∀ q, q ≠ p → t.objects q = s.objects q)
    (hsets : ∀ method, t.providers method = s.providers method ∨
      t.providers method = (s.providers method).assign p ())
    (hstays : ∀ method', method' ≠ method →
      (p ∈ (t.providers method').keys ↔ p ∈ (s.providers method').keys))
    (hx : s.objects p = some x) (hy : t.objects p = some y) (haddress : y.address = x.address) :
    OthersKept s t method x.address ↔ x.load = y.load ∨ s.OnlyIn p method := by
  rw [othersKept_iff hobjects hsets hx hy haddress]
  constructor
  · intro hkept
    by_cases hload : x.load = y.load
    · exact .inl hload
    · refine .inr (fun method' hne hp => hload ?_)
      have hpair : (method', x.address) ≠ (method, x.address) :=
        fun heq => hne (Prod.mk.inj heq).1
      exact (hkept method' hpair ((hstays method' hne).mpr hp)).2.symm
  · intro hfit method' hne hp
    have hmethod : method' ≠ method := fun heq => hne (heq ▸ rfl)
    have hp := (hstays method' hmethod).mp hp
    exact ⟨hp, hfit.elim Eq.symm (fun honly => absurd hp (honly method' hmethod))⟩

omit [DecidableEq γ] in
theorem mem_methodHostDetails (hp : p ∈ (s.providers method).keys) (hx : s.objects p = some x) :
    { host := x.address, load := x.load } ∈ s.methodHostDetails method := by
  refine List.mem_filterMap.mpr ⟨p, hp, ?_⟩
  rw [hx]
  rfl

namespace Registers
variable {conn : γ}

theorem assigned (h : Registers s t conn method p y) (method' : Bytes) :
    t.providers method' = s.providers method' ∨
      t.providers method' = (s.providers method').assign p () := by
  rw [h.sets]
  split
  · rename_i heq
    exact .inr (heq ▸ rfl)
  · exact .inl rfl

theorem listed (h : Registers s t conn method p y) : p ∈ (t.providers method).keys := by
  rw [h.sets, if_pos rfl, OrderedMap.mem_keys_assign]
  exact .inl rfl

theorem stays (h : Registers s t conn method p y) (method' : Bytes) (hne : method' ≠ method) :
    p ∈ (t.providers method').keys ↔ p ∈ (s.providers method').keys := by
  rw [h.sets, if_neg hne]

/-- A new object is nobody's entry but that of its host for the method. -/
theorem kept_of_new (h : Registers s t conn method p y)
    (hout : ∀ method', p ∉ (s.providers method').keys) : OthersKept s t method y.address := by
  intro method' host' hne
  refine (entriesAt_eq_iff h.others (h.assigned method') host').mpr ?_
  rw [ownEntry, ownEntry, if_neg (hout method'), entryOf_eq h.object]
  split
  · rename_i hp
    have hmethod : method' = method := by
      by_contra hmethod
      exact hout method' ((h.stays method' hmethod).mp hp)
    exact if_neg (fun hhost => hne (Prod.ext hmethod hhost.symm))
  · rfl

/-- At another address: the object must have been in the set with that load. -/
theorem kept_iff_other (h : Registers s t conn method p y) (hx : s.objects p = some x)
    (haddress : y.address = x.address) {host : HostInfo} (hhost : x.address ≠ host) :
    OthersKept s t method host ↔ x.load = y.load ∧ p ∈ (s.providers method).keys := by
  rw [othersKept_iff h.others h.assigned hx h.object haddress]
  have hpair : ∀ method', (method', x.address) ≠ (method, host) :=
    fun method' heq => hhost (Prod.mk.inj heq).2
  constructor
  · intro hkept
    obtain ⟨hp, hload⟩ := hkept method (hpair method) h.listed
    exact ⟨hload.symm, hp⟩
  · intro hfit method' _ hp'
    obtain ⟨hload, hp⟩ := hfit
    refine ⟨?_, hload.symm⟩
    by_cases hmethod : method' = method
    · exact hmethod ▸ hp
    · exact (h.stays method' hmethod).mp hp'

/-- Nothing is listed at an address that is not the object's. -/
theorem mem_iff_other (h : Registers s t conn method p y) (hx : s.objects p = some x)
    (haddress : y.address = x.address) {d : HostDetail} (hhost : x.address ≠ d.host) :
    d ∈ t.methodHostDetails method ↔ d ∈ s.methodHostDetails method := by
  have hlisted : t.entriesAt method d.host = s.entriesAt method d.host := by
    refine (entriesAt_eq_iff h.others (h.assigned method) d.host).mpr ?_
    simp only [ownEntry, entryOf_eq h.object, entryOf_eq hx, haddress, if_neg hhost, ite_self]
  rw [← mem_entriesAt, hlisted, mem_entriesAt]

end Registers

/-- What a registration over a connection that has a provider already must meet:
the provider keeps its address, and gets the load for all its methods. -/
def RegisterFits (s : ProviderManager γ) (conn : γ) (host : HostInfo) (method : Bytes)
    (load : Int32) : Prop :=
  ∀ p x, s.getProvider conn = some p → s.objects p = some x →
    if x.address = host then x.load = load ∨ s.OnlyIn p method
    else x.load = load ∧ p ∈ (s.providers method).keys ∧
      { host, load } ∈ s.methodHostDetails method

theorem addProvider_fits_iff (h : s.Represented) {fresh : Nat}
    (hfresh : (s.objects fresh).isNone) (conn : γ) (host : HostInfo) (method : Bytes)
    (load : Int32) (now : Int) :
    ({ host, load } ∈ (s.addProvider conn host method load now fresh).methodHostDetails method ∧
        OthersKept s (s.addProvider conn host method load now fresh) method host) ↔
      s.RegisterFits conn host method load := by
  obtain ⟨p, base, hobject, hreg⟩ :=
    addProvider_registers (Served.isSome h.connected) hfresh conn host method load now
  generalize s.addProvider conn host method load now fresh = t at hreg ⊢
  have hlisted : { host := base.address, load } ∈ t.methodHostDetails method :=
    mem_methodHostDetails hreg.listed hreg.object
  cases hobject with
  | new hnone habsent =>
    have hout : ∀ method', p ∉ (s.providers method').keys := by
      intro method' hp
      obtain ⟨x, hx, _⟩ := h.offered method' p hp
      cases habsent.symm.trans hx
    refine iff_of_true ⟨hlisted, hreg.kept_of_new hout⟩ (fun q x hq => ?_)
    cases hnone.symm.trans hq
  | old hlookup hx =>
    have hfits : s.RegisterFits conn host method load ↔
        if base.address = host then base.load = load ∨ s.OnlyIn p method
        else base.load = load ∧ p ∈ (s.providers method).keys ∧
          { host, load } ∈ s.methodHostDetails method := by
      constructor
      · exact fun hfits => hfits p base hlookup hx
      · intro hfits q x hq hqx
        obtain rfl := Option.some.inj (hlookup.symm.trans hq)
        obtain rfl := Option.some.inj (hx.symm.trans hqx)
        exact hfits
    rw [hfits]
    split
    · rename_i hhost
      subst hhost
      rw [and_iff_right hlisted]
      exact othersKept_iff_onlyIn hreg.others hreg.assigned hreg.stays hx hreg.object rfl
    · rename_i hhost
      rw [hreg.mem_iff_other hx rfl hhost, hreg.kept_iff_other hx rfl hhost]
      exact and_comm.trans and_assoc

/-- The provider that a report of the method at the host reaches. -/
def firstAt (s : ProviderManager γ) (method : Bytes) (host : HostInfo) : Option Nat :=
  (s.providers method).keys.find? (fun p => (s.objects p).any (fun x => x.address = host))

omit [DecidableEq γ] in
theorem firstAt_spec (h : s.firstAt method host = some p) :
    ∃ x, s.objects p = some x ∧ x.address = host := by
  rw [firstAt] at h
  have hany := List.find?_some h
  obtain ⟨x, hx, hhost⟩ := (Option.any_eq_true ..).mp hany
  exact ⟨x, hx, of_decide_eq_true hhost⟩

omit [DecidableEq γ] in
theorem updateFirst_eq (s : ProviderManager γ) (method : Bytes) (host : HostInfo)
    (f : Provider γ → Provider γ) :
    s.updateFirst method host f =
      match s.firstAt method host with
      | none => (false, s)
      | some p => (true, s.update p f) := rfl

/-- The load of a provider is the one of all its methods. -/
def ReportFits (s : ProviderManager γ) (method : Bytes) (host : HostInfo) (load : Int32) : Prop :=
  ∀ p x, s.firstAt method host = some p → s.objects p = some x →
    x.load = load ∨ s.OnlyIn p method

omit [DecidableEq γ] in
theorem updateProviderLoad_fits_iff (s : ProviderManager γ) (method : Bytes) (host : HostInfo)
    (load : Int32) (now : Int) :
    ((s.updateProviderLoad method host load now).1 = true →
        OthersKept s (s.updateProviderLoad method host load now).2 method host) ↔
      s.ReportFits method host load := by
  unfold updateProviderLoad ReportFits
  rw [updateFirst_eq]
  cases hfirst : s.firstAt method host with
  | none => simp
  | some p =>
    obtain ⟨x, hx, rfl⟩ := firstAt_spec hfirst
    have hy : (s.update p (fun x => { x with load, lastheartbeat := now })).objects p =
        some { x with load, lastheartbeat := now } := by
      rw [objects_update, if_pos rfl, hx]
      rfl
    have hothers : ∀ q, q ≠ p →
        (s.update p (fun x => { x with load, lastheartbeat := now })).objects q = s.objects q :=
      fun q hq => (objects_update _ q).trans (if_neg hq)
    have hkept : OthersKept s (s.update p (fun x => { x with load, lastheartbeat := now })) method
        x.address ↔ x.load = load ∨ s.OnlyIn p method :=
      othersKept_iff_onlyIn hothers (fun _ => .inl rfl) (fun _ _ => Iff.rfl) hx hy rfl
    refine (forall_prop_of_true rfl).trans (hkept.trans ?_)
    constructor
    · intro hfit q z hq hz
      obtain rfl := Option.some.inj hq
      obtain rfl := Option.some.inj (hx.symm.trans hz)
      exact hfit
    · exact fun hfit => hfit p x rfl hx

end ProviderManager

open ProviderManager

/-- What is registered is listed, and no other list changes. -/
def Discovers (s : ProviderManager γ) : ProviderAct γ → Prop
  | .addProvider conn host method load now fresh =>
    (s.objects fresh).isNone →
      { host, load } ∈ (s.addProvider conn host method load now fresh).methodHostDetails method ∧
        OthersKept s (s.addProvider conn host method load now fresh) method host
  | .updateProviderLoad method host load now =>
    (s.updateProviderLoad method host load now).1 = true →
      OthersKept s (s.updateProviderLoad method host load now).2 method host
  | .delProvider _ | .updateProviderLastHeartbeat .. | .sweepExpired .. => True

def Fits (s : ProviderManager γ) : ProviderAct γ → Prop
  | .addProvider conn host method load _ fresh =>
    (s.objects fresh).isNone → s.RegisterFits conn host method load
  | .updateProviderLoad method host load _ => s.ReportFits method host load
  | .delProvider _ | .updateProviderLastHeartbeat .. | .sweepExpired .. => True

theorem discovers_iff_fits {s : ProviderManager γ} (h : s.Represented) (a : ProviderAct γ) :
    Discovers s a ↔ Fits s a := by
  cases a with
  | addProvider conn host method load now fresh =>
    exact forall_congr' (fun hfresh => addProvider_fits_iff h hfresh conn host method load now)
  | updateProviderLoad method host load now =>
    exact updateProviderLoad_fits_iff s method host load now
  | delProvider conn => exact Iff.rfl
  | updateProviderLastHeartbeat method host now => exact Iff.rfl
  | sweepExpired idle_timeout now => exact Iff.rfl

/-- A run lists what was registered and changes no other list, if and only if
the address and the load of every connection fit all its methods. -/
theorem registered_discovered_iff (acts : List (ProviderAct γ)) :
    Along providerStep Discovers {} acts ↔ Along providerStep Fits {} acts :=
  Along.congr Represented (fun _ _ _ hi hs => providerStep_represented hi hs)
    (fun _ a hi => discovers_iff_fits hi a) empty_represented

end Frame

/-- Two methods of one connection: the load of the second is listed for the first. -/
theorem registered_changes_other : ¬ ∀ acts : List (ProviderAct Nat),
    Along providerStep Discovers {} acts := by
  intro h
  have hrun := h [.addProvider 0 ⟨str "10.0.0.1", 8080⟩ (str "add") 3 0 7,
    .addProvider 0 ⟨str "10.0.0.1", 8080⟩ (str "sub") 5 0 8]
  obtain ⟨_, hkept⟩ := (hrun.2 _ rfl).1 rfl
  exact absurd (hkept (str "add") ⟨str "10.0.0.1", 8080⟩ (by decide)) (by decide)

end LyqtRpc
