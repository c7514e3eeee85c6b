import LyqtRpc.Fields
import LyqtRpc.Lib.AssocTable
import LyqtRpc.Lib.OrderedMap
import Mathlib.Logic.Function.Basic

/-!
`DiscoverManager` of `rpc_registry.hpp`: which connection is told of the providers of which
method. Objects are known by their addresses, in whose order a set is passed through.
-/

set_option autoImplicit false

namespace LyqtRpc

/-- `γ` is the type of connections. -/
structure Discoverer (γ : Type) where
  conn : γ
  methods : List Bytes := []

structure DiscoverManager (γ : Type) where
  /-- Every object made so far. -/
  objects : Nat → Option (Discoverer γ) := fun _ => none
  methodwithdiscoverer : AList (fun _ : Bytes => OrderedMap Nat Unit) := ∅
  connwithd : AList (fun _ : γ => Nat) := ∅

namespace DiscoverManager
variable {γ : Type}

/-- `_methodwithdiscoverer[method]`, empty where there is no entry. -/
def discoverers (s : DiscoverManager γ) (method : Bytes) : OrderedMap Nat Unit :=
  (s.methodwithdiscoverer.lookup method).getD .empty

def withDiscoverers (s : DiscoverManager γ) (method : Bytes) (set : OrderedMap Nat Unit) :
    DiscoverManager γ :=
  { s with methodwithdiscoverer := s.methodwithdiscoverer.insert method set }

def appendmethod (s : DiscoverManager γ) (d : Nat) (method : Bytes) : DiscoverManager γ :=
  { s with
    objects := Function.update s.objects d
      ((s.objects d).map fun x => { x with methods := x.methods ++ [method] }) }

/-- The connections that `notify` sends to. -/
def notify (s : DiscoverManager γ) (method : Bytes) : List γ :=
  (s.discoverers method).keys.filterMap fun d => (s.objects d).map (·.conn)

variable [DecidableEq γ]

/-- The object of a connection, made at `fresh` where it has none. -/
def discoverer (s : DiscoverManager γ) (conn : γ) (fresh : Nat) : DiscoverManager γ × Nat :=
  match s.connwithd.lookup conn with
  | none =>
    ({ s with
       objects := Function.update s.objects fresh (some { conn })
       connwithd := s.connwithd.insert conn fresh }, fresh)
  | some d => (s, d)

def addDiscoverer (s : DiscoverManager γ) (conn : γ) (method : Bytes) (fresh : Nat) :
    DiscoverManager γ :=
  let (s, d) := s.discoverer conn fresh
  (s.withDiscoverers method ((s.discoverers method).assign d ())).appendmethod d method

def delProvider (s : DiscoverManager γ) (conn : γ) : DiscoverManager γ :=
  match s.connwithd.lookup conn with
  | none => s
  | some d =>
    let methods := ((s.objects d).map (·.methods)).getD []
    let erased := methods.foldl (fun s method =>
      s.withDiscoverers method ((s.discoverers method).erase d)) s
    { erased with connwithd := s.connwithd.erase conn }

/-- The object of the connection has the method. -/
def Watches (s : DiscoverManager γ) (conn : γ) (method : Bytes) : Prop :=
  ∃ d x, s.connwithd.lookup conn = some d ∧ s.objects d = some x ∧ method ∈ x.methods

/-- The sets of the methods say what the objects of the connections say. -/
structure Linked (s : DiscoverManager γ) : Prop where
  entry : ∀ conn d, s.connwithd.lookup conn = some d → ∃ x, s.objects d = some x ∧ x.conn = conn
  mem : ∀ method d, d ∈ (s.discoverers method).keys ↔
    ∃ x, s.objects d = some x ∧ s.connwithd.lookup x.conn = some d ∧ method ∈ x.methods

variable {s : DiscoverManager γ} {conn : γ} {method : Bytes}

omit [DecidableEq γ] in
theorem discoverers_withDiscoverers (set : OrderedMap Nat Unit) (method' : Bytes) :
    (s.withDiscoverers method set).discoverers method' =
      if method' = method then set else s.discoverers method' := by
  unfold discoverers withDiscoverers
  rw [AssocTable.lookup_insert_ite]
  split <;> rfl

theorem linked_init : ({} : DiscoverManager γ).Linked := by
  constructor
  · intro conn d hlookup
    cases hlookup
  · intro method d
    constructor
    · intro hmem
      cases hmem
    · intro hmem
      obtain ⟨x, hx, _⟩ := hmem
      cases hx

namespace Linked

theorem mem_notify (h : s.Linked) (method : Bytes) (conn : γ) :
    conn ∈ s.notify method ↔ s.Watches conn method := by
  unfold notify Watches
  rw [List.mem_filterMap]
  constructor
  · intro hmem
    obtain ⟨d, hd, hx⟩ := hmem
    obtain ⟨x, hobject, rfl⟩ := Option.map_eq_some_iff.mp hx
    obtain ⟨x', hobject', hlookup, hmethod⟩ := (h.mem method d).mp hd
    obtain rfl := Option.some.inj (hobject.symm.trans hobject')
    exact ⟨d, x, hlookup, hobject, hmethod⟩
  · intro hwatches
    obtain ⟨d, x, hlookup, hobject, hmethod⟩ := hwatches
    obtain ⟨x', hobject', hconn⟩ := h.entry conn d hlookup
    obtain rfl := Option.some.inj (hobject.symm.trans hobject')
    exact ⟨d, (h.mem method d).mpr ⟨x, hobject, hconn ▸ hlookup, hmethod⟩,
      Option.map_eq_some_iff.mpr ⟨x, hobject, hconn⟩⟩

/-- Nobody is told twice. -/
theorem nodup_notify (h : s.Linked) (method : Bytes) : (s.notify method).Nodup := by
  refine List.pairwise_filterMap.mpr ((s.discoverers method).nodup_keys.imp_of_mem ?_)
  intro d d' hd hd' hne conn hconn conn' hconn'
  obtain ⟨x, hx, hlookup, _⟩ := (h.mem method d).mp hd
  obtain ⟨x', hx', hlookup', _⟩ := (h.mem method d').mp hd'
  rw [hx] at hconn
  rw [hx'] at hconn'
  obtain rfl := Option.some.inj hconn
  obtain rfl := Option.some.inj hconn'
  intro (heq : x.conn = x'.conn)
  rw [heq, hlookup'] at hlookup
  exact hne (Option.some.inj hlookup).symm

end Linked

/-- `base` is the object of the connection before the method is added to it. -/
structure Adds (s t : DiscoverManager γ) (conn : γ) (method : Bytes) (d : Nat)
    (base : Discoverer γ) : Prop where
  conns : ∀ c, t.connwithd.lookup c = if c = conn then some d else s.connwithd.lookup c
  objects : ∀ q, t.objects q =
    if q = d then some { base with methods := base.methods ++ [method] } else s.objects q
  sets : ∀ method', t.discoverers method' =
    if method' = method then (s.discoverers method).assign d () else s.discoverers method'
  own : base.conn = conn
  base : (s.connwithd.lookup conn = none ∧ s.objects d = none ∧ base.methods = []) ∨
    (s.connwithd.lookup conn = some d ∧ s.objects d = some base)

theorem Linked.adds (h : s.Linked) (conn : γ) (method : Bytes) {fresh : Nat}
    (hfresh : s.objects fresh = none) :
    ∃ d base, Adds s (s.addDiscoverer conn method fresh) conn method d base := by
  cases hlookup : s.connwithd.lookup conn with
  | none =>
    refine ⟨fresh, { conn }, ?_⟩
    simp only [DiscoverManager.addDiscoverer, discoverer, hlookup]
    refine ⟨fun c => ?_, fun q => ?_, fun method' => discoverers_withDiscoverers .., rfl,
      .inl ⟨hlookup, hfresh, rfl⟩⟩
    · exact AssocTable.lookup_insert_ite ..
    · simp only [appendmethod, withDiscoverers, Function.update_apply, if_true]
      split <;> rfl
  | some d =>
    obtain ⟨x, hx, hconn⟩ := h.entry conn d hlookup
    refine ⟨d, x, ?_⟩
    simp only [DiscoverManager.addDiscoverer, discoverer, hlookup]
    refine ⟨fun c => ?_, fun q => ?_, fun method' => discoverers_withDiscoverers .., hconn,
      .inr ⟨hlookup, hx⟩⟩
    · split
      · rename_i hc
        exact hc ▸ hlookup
      · rfl
    · simp only [appendmethod, withDiscoverers, Function.update_apply, hx]
      split <;> rfl

namespace Adds
variable {t : DiscoverManager γ} {d : Nat} {base : Discoverer γ}

/-- No other connection has the object. -/
theorem alone (h : Adds s t conn method d base) (hs : s.Linked) {c : γ}
    (hc : s.connwithd.lookup c = some d) : c = conn := by
  obtain ⟨x, hx, hconn⟩ := hs.entry c d hc
  rcases h.base with ⟨_, hnone, _⟩ | ⟨_, hbase⟩
  · rw [hx] at hnone
    cases hnone
  · rw [hx] at hbase
    exact hconn.symm.trans ((congrArg (·.conn) (Option.some.inj hbase)).trans h.own)

/-- The object has the methods that its connection watches. -/
theorem watches_base (h : Adds s t conn method d base) (method' : Bytes) :
    s.Watches conn method' ↔ method' ∈ base.methods := by
  unfold Watches
  rcases h.base with ⟨hnone, _, hempty⟩ | ⟨hlookup, hbase⟩
  · rw [hempty, hnone]
    constructor
    · intro hwatches
      obtain ⟨q, x, hq, _⟩ := hwatches
      cases hq
    · intro hmethod
      cases hmethod
  · constructor
    · intro hwatches
      obtain ⟨q, x, hq, hx, hmethod⟩ := hwatches
      obtain rfl := Option.some.inj (hlookup.symm.trans hq)
      obtain rfl := Option.some.inj (hbase.symm.trans hx)
      exact hmethod
    · exact fun hmethod => ⟨d, base, hlookup, hbase, hmethod⟩

theorem mem_discoverers (h : Adds s t conn method d base) (hs : s.Linked) (method' : Bytes) :
    d ∈ (s.discoverers method').keys ↔ method' ∈ base.methods := by
  rw [hs.mem]
  rcases h.base with ⟨_, hnone, hempty⟩ | ⟨hlookup, hbase⟩
  · rw [hempty, hnone]
    constructor
    · intro hmem
      obtain ⟨x, hx, _⟩ := hmem
      cases hx
    · intro hmethod
      cases hmethod
  · constructor
    · intro hmem
      obtain ⟨x, hx, _, hmethod⟩ := hmem
      obtain rfl := Option.some.inj (hbase.symm.trans hx)
      exact hmethod
    · exact fun hmethod => ⟨base, hbase, h.own ▸ hlookup, hmethod⟩

theorem entry (h : Adds s t conn method d base) (hs : s.Linked) (c : γ) (q : Nat)
    (hq : t.connwithd.lookup c = some q) : ∃ x, t.objects q = some x ∧ x.conn = c := by
  rw [h.conns] at hq
  rw [h.objects]
  split at hq
  · rename_i hc
    rw [if_pos (Option.some.inj hq).symm]
    exact ⟨_, rfl, h.own.trans hc.symm⟩
  · rename_i hc
    rw [if_neg fun (hqd : q = d) => hc (h.alone hs (hqd ▸ hq))]
    exact hs.entry c q hq

/-- The table has the entries for other objects that it had. -/
theorem conns_of_ne (h : Adds s t conn method d base) {q : Nat} (hq : q ≠ d) (c : γ) :
    t.connwithd.lookup c = some q ↔ c ≠ conn ∧ s.connwithd.lookup c = some q := by
  rw [h.conns]
  split
  · rename_i hc
    exact ⟨fun hd => absurd (Option.some.inj hd).symm hq, fun hne => absurd hc hne.1⟩
  · rename_i hc
    exact ⟨fun hlookup => ⟨hc, hlookup⟩, fun hne => hne.2⟩

theorem linked (h : Adds s t conn method d base) (hs : s.Linked) : t.Linked := by
  refine ⟨h.entry hs, fun method' q => ?_⟩
  have hsets : q ∈ (t.discoverers method').keys ↔
      (method' = method ∧ q = d) ∨ q ∈ (s.discoverers method').keys := by
    rw [h.sets]
    split
    · rename_i hm
      rw [OrderedMap.mem_keys_assign, hm]
      simp only [true_and]
    · rename_i hm
      simp only [hm, false_and, false_or]
  rw [hsets, h.objects]
  by_cases hq : q = d
  · subst hq
    rw [if_pos rfl, h.mem_discoverers hs]
    constructor
    · intro hmem
      refine ⟨_, rfl, (h.conns _).trans (if_pos h.own), List.mem_append.mpr ?_⟩
      exact hmem.symm.imp id fun hnew => List.mem_singleton.mpr hnew.1
    · intro hmem
      obtain ⟨x, hx, _, hmethod⟩ := hmem
      cases hx
      exact (List.mem_append.mp hmethod).symm.imp
        (fun hnew => ⟨List.mem_singleton.mp hnew, rfl⟩) id
  · rw [if_neg hq, hs.mem]
    simp only [hq, and_false, false_or]
    refine exists_congr fun x => and_congr_right fun hx => and_congr_left fun _ => ?_
    rw [h.conns_of_ne hq]
    refine ⟨fun hlookup => ⟨fun hc => ?_, hlookup⟩, fun hne => hne.2⟩
    -- The connection that asks has the object `d`, if it had one at all.
    rcases h.base with ⟨hnone, _⟩ | ⟨hsome, _⟩
    · rw [hc, hnone] at hlookup
      cases hlookup
    · rw [hc, hsome] at hlookup
      exact hq (Option.some.inj hlookup).symm

theorem watches (h : Adds s t conn method d base) (hs : s.Linked) (conn' : γ) (method' : Bytes) :
    t.Watches conn' method' ↔ s.Watches conn' method' ∨ (conn' = conn ∧ method' = method) := by
  by_cases hc : conn' = conn
  · rw [hc, h.watches_base]
    simp only [Watches, h.conns, if_true, true_and]
    constructor
    · intro hwatches
      obtain ⟨q, x, hq, hx, hmethod⟩ := hwatches
      rw [h.objects, if_pos (Option.some.inj hq).symm] at hx
      cases hx
      exact (List.mem_append.mp hmethod).imp id List.mem_singleton.mp
    · intro hwatches
      refine ⟨d, _, rfl, (h.objects d).trans (if_pos rfl), List.mem_append.mpr ?_⟩
      exact hwatches.imp id List.mem_singleton.mpr
  · simp only [Watches, h.conns, hc, if_false, false_and, or_false]
    refine exists_congr fun q => exists_congr fun x => and_congr_right fun hq => ?_
    rw [h.objects, if_neg fun (hqd : q = d) => hc (h.alone hs (hqd ▸ hq))]

end Adds

omit [DecidableEq γ] in
theorem discoverers_eraseAll (d : Nat) (methods : List Bytes) (s : DiscoverManager γ) :
    (methods.foldl (fun s method =>
        s.withDiscoverers method ((s.discoverers method).erase d)) s).objects = s.objects ∧
      (∀ method q, q ∈ ((methods.foldl (fun s method =>
          s.withDiscoverers method ((s.discoverers method).erase d)) s).discoverers method).keys ↔
        q ∈ (s.discoverers method).keys ∧ ¬ (method ∈ methods ∧ q = d)) ∧
      (methods.foldl (fun s method =>
        s.withDiscoverers method ((s.discoverers method).erase d)) s).connwithd = s.connwithd := by
  induction methods generalizing s with
  | nil => exact ⟨rfl, fun _ _ => by simp only [List.foldl_nil, List.not_mem_nil, false_and,
      not_false_eq_true, and_true], rfl⟩
  | cons first methods ih =>
    obtain ⟨hobjects, hsets, hconns⟩ :=
      ih (s.withDiscoverers first ((s.discoverers first).erase d))
    refine ⟨hobjects, fun method q => ?_, hconns⟩
    rw [List.foldl_cons, hsets, discoverers_withDiscoverers]
    split
    · rename_i heq
      subst heq
      rw [OrderedMap.mem_keys_erase]
      simp only [List.mem_cons, true_or, true_and]
      tauto
    · rename_i hne
      simp only [List.mem_cons, hne, false_or]

/-- `d` is the object of the connection that is gone, `x` what it holds. -/
structure Forgets (s t : DiscoverManager γ) (conn : γ) (d : Nat) (x : Discoverer γ) : Prop where
  lookup : s.connwithd.lookup conn = some d
  object : s.objects d = some x
  conns : ∀ c, t.connwithd.lookup c = if c = conn then none else s.connwithd.lookup c
  objects : t.objects = s.objects
  sets : ∀ method q, q ∈ (t.discoverers method).keys ↔
    q ∈ (s.discoverers method).keys ∧ ¬ (method ∈ x.methods ∧ q = d)

theorem Linked.forgets (h : s.Linked) {d : Nat} (hlookup : s.connwithd.lookup conn = some d) :
    ∃ x, Forgets s (s.delProvider conn) conn d x := by
  obtain ⟨x, hx, _⟩ := h.entry conn d hlookup
  have hmethods : ((s.objects d).map (·.methods)).getD [] = x.methods := by
    rw [hx]
    rfl
  obtain ⟨hobjects, hsets, _⟩ := discoverers_eraseAll d x.methods s
  refine ⟨x, hlookup, hx, fun c => ?_, ?_, fun method q => ?_⟩ <;>
    simp only [DiscoverManager.delProvider, hlookup, hmethods]
  · exact AssocTable.lookup_erase_ite ..
  · exact hobjects
  · exact hsets method q

namespace Forgets
variable {t : DiscoverManager γ} {d : Nat} {x : Discoverer γ}

theorem other (h : Forgets s t conn d x) (hs : s.Linked) {c : γ} {q : Nat}
    (hq : s.connwithd.lookup c = some q) (hc : c ≠ conn) : q ≠ d := by
  intro hqd
  obtain ⟨y, hy, hyconn⟩ := hs.entry c q hq
  obtain ⟨z, hz, hzconn⟩ := hs.entry conn d h.lookup
  rw [hqd, hz] at hy
  obtain rfl := Option.some.inj hy
  exact hc (hyconn.symm.trans hzconn)

theorem linked (h : Forgets s t conn d x) (hs : s.Linked) : t.Linked := by
  constructor
  · intro c q hq
    rw [h.conns] at hq
    split at hq
    · cases hq
    · rw [h.objects]
      exact hs.entry c q hq
  · intro method q
    rw [h.sets, hs.mem, h.objects]
    constructor
    · intro hmem
      obtain ⟨⟨y, hy, hlookup, hmethod⟩, hstays⟩ := hmem
      refine ⟨y, hy, (h.conns _).trans ?_, hmethod⟩
      split
      · rename_i hc
        rw [hc, h.lookup] at hlookup
        obtain rfl := Option.some.inj hlookup
        obtain rfl := Option.some.inj (h.object.symm.trans hy)
        exact absurd ⟨hmethod, rfl⟩ hstays
      · exact hlookup
    · intro hmem
      obtain ⟨y, hy, hlookup, hmethod⟩ := hmem
      rw [h.conns] at hlookup
      split at hlookup
      · cases hlookup
      · rename_i hc
        exact ⟨⟨y, hy, hlookup, hmethod⟩, fun hgone => h.other hs hlookup hc hgone.2⟩

theorem watches (h : Forgets s t conn d x) (conn' : γ) (method : Bytes) :
    t.Watches conn' method ↔ s.Watches conn' method ∧ conn' ≠ conn := by
  unfold Watches
  rw [h.conns, h.objects]
  by_cases hc : conn' = conn
  · simp only [hc, if_true, ne_eq, not_true_eq_false, and_false, iff_false]
    intro hwatches
    obtain ⟨q, y, hq, _⟩ := hwatches
    cases hq
  · simp only [hc, if_false, ne_eq, not_false_eq_true, and_true]

end Forgets

theorem Linked.delProvider (h : s.Linked) (conn : γ) :
    (s.delProvider conn).Linked ∧ ∀ conn' method,
      (s.delProvider conn).Watches conn' method ↔ s.Watches conn' method ∧ conn' ≠ conn := by
  cases hlookup : s.connwithd.lookup conn with
  | none =>
    rw [DiscoverManager.delProvider, hlookup]
    refine ⟨h, fun conn' method => (and_iff_left_of_imp fun hwatches hc => ?_).symm⟩
    obtain ⟨d, x, hd, _⟩ := hwatches
    rw [hc, hlookup] at hd
    cases hd
  | some d =>
    obtain ⟨x, hforgets⟩ := h.forgets hlookup
    exact ⟨hforgets.linked h, hforgets.watches⟩

end DiscoverManager

end LyqtRpc
