import LyqtRpc.Lib.OrderedMap
import Mathlib.Data.List.TakeWhile
import Mathlib.Data.Prod.Lex
import Mathlib.Data.Set.Defs
import Mathlib.Order.BooleanAlgebra.Basic

/-!
Points on a ring, each owned by somebody. A key is served by the owner of the
first point met clockwise from it. Where one owner comes or goes, no key moves
between two of the others.
-/

set_option autoImplicit false

namespace LyqtRpc.HashRing

section Cyclic
variable {κ : Type} [LinearOrder κ]

/-- The order in which points are met clockwise from `k`. -/
def turn (k x : κ) : Bool ×ₗ κ := toLex (decide (x < k), x)

theorem turn_injective (k : κ) : Function.Injective (turn k) := fun _ _ h =>
  congrArg (fun t => (ofLex t).2) h

theorem turn_le_of_le {k x y : κ} (hx : k ≤ x) (hxy : x ≤ y) : turn k x ≤ turn k y := by
  rw [turn, turn, Prod.Lex.toLex_le_toLex]
  have hx' : ¬ x < k := not_lt.mpr hx
  have hy' : ¬ y < k := not_lt.mpr (hx.trans hxy)
  right
  simp [hx', hy', hxy]

theorem turn_le_of_wrapped {k x y : κ} (hx : k ≤ x) (hy : y < k) : turn k x ≤ turn k y := by
  rw [turn, turn, Prod.Lex.toLex_le_toLex]
  have hx' : ¬ x < k := not_lt.mpr hx
  left
  simp [hx', hy]

theorem turn_le_of_lt {k x y : κ} (hy : y < k) (hxy : x ≤ y) : turn k x ≤ turn k y := by
  rw [turn, turn, Prod.Lex.toLex_le_toLex]
  have hx : x < k := hxy.trans_lt hy
  right
  simp [hx, hy, hxy]

/-- The first point of `S` clockwise from `k`, `k` itself included. -/
structure Next (S : Set κ) (k x : κ) : Prop where
  mem : x ∈ S
  first : ∀ y ∈ S, turn k x ≤ turn k y

variable {S T : Set κ} {k x y : κ}

theorem Next.unique (hx : Next S k x) (hy : Next S k y) : x = y :=
  turn_injective k (le_antisymm (hx.first y hy.mem) (hy.first x hx.mem))

/-- A point of the smaller set that is the first one of the larger set. -/
theorem Next.restrict (h : Next T k x) (hST : S ⊆ T) (hx : x ∈ S) : Next S k x where
  mem := hx
  first y hy := h.first y (hST hy)

end Cyclic

section Members
variable {κ ω : Type} {claims : ω → κ → Bool} {members : List ω}

/-- Every member claims points; the last one that claims a point owns it. -/
def lastOwner (claims : ω → κ → Bool) (members : List ω) (x : κ) : Option ω :=
  members.reverse.find? (fun v => claims v x)


theorem lastOwner_append (v : ω) (x : κ) :
    lastOwner claims (members ++ [v]) x =
      if claims v x then some v else lastOwner claims members x := by
  simp only [lastOwner, List.reverse_append, List.reverse_singleton, List.singleton_append,
    List.find?_cons]
  cases claims v x <;> rfl

theorem isSome_lastOwner {x : κ} :
    (lastOwner claims members x).isSome ↔ ∃ v ∈ members, claims v x = true := by
  simp [lastOwner, List.find?_isSome]

end Members

section Owner
variable {κ ω : Type} [LinearOrder κ]

def owned (owner : κ → Option ω) : Set κ := {x | (owner x).isSome}

/-- `v` owns the first owned point clockwise from `k`. -/
def Serves (owner : κ → Option ω) (k : κ) (v : ω) : Prop :=
  ∃ x, Next (owned owner) k x ∧ owner x = some v

variable {owner owner' : κ → Option ω} {k : κ} {u v : ω}

theorem Serves.unique (hu : Serves owner k u) (hv : Serves owner k v) : u = v := by
  obtain ⟨x, hx, hux⟩ := hu
  obtain ⟨y, hy, hvy⟩ := hv
  obtain rfl := hx.unique hy
  exact Option.some.inj (hux.symm.trans hvy)

/-- One owner takes points, owned already or not. -/
theorem Serves.of_taken (h : Serves owner' k v)
    (htaken : ∀ x, owner' x = owner x ∨ owner' x = some u) (hkeep : owned owner ⊆ owned owner') :
    v = u ∨ Serves owner k v := by
  obtain ⟨x, hx, hv⟩ := h
  cases htaken x with
  | inl hsame =>
    rw [hsame] at hv
    exact .inr ⟨x, hx.restrict hkeep (Option.isSome_of_eq_some hv), hv⟩
  | inr hu => exact .inl (Option.some.inj (hv.symm.trans hu))

/-- Points are given up, but none of those `v` owns. -/
theorem Serves.of_left (h : Serves owner k v) (hleft : owned owner' ⊆ owned owner)
    (hkeep : ∀ x, owner x = some v → owner' x = some v) : Serves owner' k v := by
  obtain ⟨x, hx, hv⟩ := h
  exact ⟨x, hx.restrict hleft (Option.isSome_of_eq_some (hkeep x hv)), hkeep x hv⟩

variable {claims : ω → κ → Bool} {members : List ω}

/-- Whoever joins last: a key stays where it was, or goes to the new member. -/
theorem serves_append (h : Serves (lastOwner claims (members ++ [u])) k v) :
    v = u ∨ Serves (lastOwner claims members) k v := by
  refine h.of_taken (fun x => ?_) (fun x hx => ?_)
  · rw [lastOwner_append]
    split
    · exact .inr rfl
    · exact .inl rfl
  · obtain ⟨w, hw, hclaim⟩ := isSome_lastOwner.mp hx
    exact isSome_lastOwner.mpr ⟨w, List.mem_append_left _ hw, hclaim⟩

/-- Whoever leaves: a key served by a member that stays is served by it still. -/
theorem serves_filter {stays : ω → Bool} (h : Serves (lastOwner claims members) k v)
    (hv : stays v = true) : Serves (lastOwner claims (members.filter stays)) k v := by
  refine h.of_left (fun x hx => ?_) (fun x hx => ?_)
  · obtain ⟨w, hw, hclaim⟩ := isSome_lastOwner.mp hx
    exact isSome_lastOwner.mpr ⟨w, (List.mem_filter.mp hw).1, hclaim⟩
  · rw [lastOwner, ← List.filter_reverse]
    obtain ⟨hclaim, before, after, hsplit, hbefore⟩ := List.find?_eq_some_iff_append.mp hx
    refine List.find?_eq_some_iff_append.mpr
      ⟨hclaim, before.filter stays, after.filter stays, ?_, fun w hw => ?_⟩
    · rw [hsplit, List.filter_append, List.filter_cons_of_pos hv]
    · exact hbefore w (List.mem_filter.mp hw).1

end Owner

end LyqtRpc.HashRing

namespace LyqtRpc.OrderedMap

variable {κ β : Type} [LinearOrder κ]

/-- `lower_bound`, and `begin` where that is the end of the map. -/
def clockwise (m : OrderedMap κ β) (k : κ) : Option (κ × β) :=
  match m.lowerBound k with
  | some e => some e
  | none => m.entries.head?

/-- All entries, in the order in which they are met clockwise from `k`. -/
def clockwiseFrom (m : OrderedMap κ β) (k : κ) : List (κ × β) :=
  m.entries.dropWhile (fun e => e.1 < k) ++ m.entries.takeWhile (fun e => e.1 < k)

theorem clockwiseFrom_perm (m : OrderedMap κ β) (k : κ) :
    (m.clockwiseFrom k).Perm m.entries := by
  have hsplit := List.takeWhile_append_dropWhile (p := fun e => e.1 < k) (l := m.entries)
  exact List.perm_append_comm.trans (List.Perm.of_eq hsplit)

theorem head?_clockwiseFrom (m : OrderedMap κ β) (k : κ) :
    (m.clockwiseFrom k).head? = m.clockwise k := by
  have hlow : (m.entries.dropWhile (fun e => e.1 < k)).head? = m.lowerBound k := by
    rw [← List.find?_not_eq_head?_dropWhile, lowerBound]
    refine congrArg (fun p => List.find? p m.entries) (funext fun e => ?_)
    rw [← decide_not]
    exact decide_eq_decide.mpr not_lt
  rw [clockwiseFrom, List.head?_append, hlow, clockwise]
  cases hfound : m.lowerBound k with
  | some e => rfl
  | none =>
    have hall : ∀ e ∈ m.entries, decide (e.1 < k) = true := fun e he => by
      simpa using List.find?_eq_none.mp hfound e he
    rw [List.takeWhile_eq_self_iff.mpr hall]
    rfl

open HashRing

theorem clockwise_next {m : OrderedMap κ β} {k : κ} {e : κ × β} (h : m.clockwise k = some e) :
    Next {x | x ∈ m.keys} k e.1 := by
  have hinc : Increasing m.entries := m.increasing
  cases hlow : m.lowerBound k with
  | some f =>
    rw [clockwise, hlow] at h
    obtain rfl := Option.some.inj h
    obtain ⟨hge, before, after, hsplit, hbefore⟩ := List.find?_eq_some_iff_append.mp hlow
    have hge : k ≤ f.1 := of_decide_eq_true hge
    refine ⟨List.mem_map_of_mem (hsplit ▸ by simp), fun y hy => ?_⟩
    obtain ⟨g, hg, rfl⟩ := List.mem_map.mp hy
    rw [hsplit] at hg hinc
    cases List.mem_append.mp hg with
    | inl hg =>
      have hlt : ¬ k ≤ g.1 := by simpa using hbefore g hg
      exact turn_le_of_wrapped hge (not_le.mp hlt)
    | inr hg =>
      cases hg with
      | head => exact le_refl _
      | tail _ hg =>
        have hafter := (List.pairwise_cons.mp (List.pairwise_append.mp hinc).2.1).1
        exact turn_le_of_le hge (hafter g hg).le
  | none =>
    rw [clockwise, hlow] at h
    have hall : ∀ g ∈ m.entries, g.1 < k := fun g hg => by
      simpa using List.find?_eq_none.mp hlow g hg
    obtain ⟨es, hes⟩ := List.head?_eq_some_iff.mp h
    refine ⟨List.mem_map_of_mem (hes ▸ List.mem_cons_self ..), fun y hy => ?_⟩
    obtain ⟨g, hg, rfl⟩ := List.mem_map.mp hy
    have hgk := hall g hg
    rw [hes] at hg hinc
    cases hg with
    | head => exact le_refl _
    | tail _ hg => exact turn_le_of_lt hgk ((List.pairwise_cons.mp hinc).1 g hg).le

theorem mem_of_clockwise {m : OrderedMap κ β} {k : κ} {e : κ × β}
    (h : m.clockwise k = some e) : m.find? e.1 = some e.2 := by
  refine mem_entries.mp ?_
  cases hlow : m.lowerBound k with
  | some f =>
    rw [clockwise, hlow] at h
    obtain rfl := Option.some.inj h
    exact List.mem_of_find?_eq_some hlow
  | none =>
    rw [clockwise, hlow] at h
    exact List.mem_of_head? h

theorem clockwise_eq_none {m : OrderedMap κ β} {k : κ} :
    m.clockwise k = none ↔ m.entries = [] := by
  cases hlow : m.lowerBound k with
  | some f =>
    have hmem := List.mem_of_find?_eq_some hlow
    simp only [clockwise, hlow, reduceCtorEq, false_iff]
    exact List.ne_nil_of_mem hmem
  | none => simp only [clockwise, hlow, List.head?_eq_none_iff]

end LyqtRpc.OrderedMap
