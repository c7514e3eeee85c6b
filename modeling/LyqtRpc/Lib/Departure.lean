import Mathlib.Data.List.Nodup
import Mathlib.Data.List.Count

/-!
Members that each offer a value, several of them perhaps the same one. Some leave,
and what each of them offered is announced. When is a value announced once if
it is lost, and not at all if it is not?
-/

set_option autoImplicit false

namespace LyqtRpc.Departure

variable {ι ω : Type} [DecidableEq ω] {offers : ι → ω} {members left gone : List ι}

/-- `p` is a member, and no other member offers what it offers. -/
structure Sole (offers : ι → ω) (members : List ι) (p : ι) : Prop where
  mem : p ∈ members
  only : ∀ q ∈ members, offers q = offers p → q = p

/-- `left` is what remains of the members when those in `gone` leave. -/
def Leaves (members gone left : List ι) : Prop := ∀ q, q ∈ left ↔ q ∈ members ∧ q ∉ gone

/-- How often the value is announced if announcements are exact. -/
def lost (offers : ι → ω) (members left : List ι) (w : ω) : Nat :=
  if w ∈ members.map offers ∧ w ∉ left.map offers then 1 else 0

theorem lost_eq_one {w : ω} (h : lost offers members left w ≠ 0) :
    lost offers members left w = 1 ∧ w ∈ members.map offers ∧ w ∉ left.map offers := by
  unfold lost at h ⊢
  split
  · rename_i hw
    exact ⟨rfl, hw⟩
  · rename_i hw
    exact absurd (if_neg hw) h

theorem Leaves.exact_of_sole (h : Leaves members gone left) (hnodup : gone.Nodup)
    (hsole : ∀ p ∈ gone, Sole offers members p) (w : ω) :
    (gone.map offers).count w = lost offers members left w := by
  by_cases hw : w ∈ gone.map offers
  · obtain ⟨p, hp, rfl⟩ := List.mem_map.mp hw
    have hinj : (gone.map offers).Nodup :=
      hnodup.map_on (fun x hx y hy hxy => (hsole y hy).only x (hsole x hx).mem hxy)
    have hlost : offers p ∈ members.map offers ∧ offers p ∉ left.map offers := by
      refine ⟨List.mem_map_of_mem (hsole p hp).mem, fun hleft => ?_⟩
      obtain ⟨q, hq, heq⟩ := List.mem_map.mp hleft
      obtain ⟨hmem, hstays⟩ := (h q).mp hq
      exact hstays ((hsole p hp).only q hmem heq ▸ hp)
    rw [List.count_eq_one_of_mem hinj hw, lost, if_pos hlost]
  · have hkept : ¬ (w ∈ members.map offers ∧ w ∉ left.map offers) := by
      rintro ⟨hmem, hleft⟩
      obtain ⟨q, hq, rfl⟩ := List.mem_map.mp hmem
      have hgone : q ∉ gone := fun hgone => hw (List.mem_map_of_mem hgone)
      exact hleft (List.mem_map_of_mem ((h q).mpr ⟨hq, hgone⟩))
    rw [List.count_eq_zero_of_not_mem hw, lost, if_neg hkept]

theorem Leaves.sole_of_exact (h : Leaves members gone left)
    (hexact : ∀ w, (gone.map offers).count w = lost offers members left w) :
    gone.Nodup ∧ ∀ p ∈ gone, Sole offers members p := by
  have hlost : ∀ p ∈ gone, (gone.map offers).count (offers p) = 1 ∧
      offers p ∈ members.map offers ∧ offers p ∉ left.map offers := fun p hp => by
    have hpos := List.count_pos_iff.mpr (List.mem_map_of_mem (f := offers) hp)
    rw [hexact] at hpos ⊢
    exact lost_eq_one (Nat.pos_iff_ne_zero.mp hpos)
  have hinj : (gone.map offers).Nodup := by
    refine List.nodup_iff_count_le_one.mpr (fun w => ?_)
    rw [hexact, lost]
    split <;> decide
  have hsame : ∀ p ∈ gone, ∀ q ∈ members, offers q = offers p → q = p := fun p hp q hq heq => by
    have hgone : q ∈ gone := by
      by_contra hstays
      have hleft := List.mem_map_of_mem (f := offers) ((h q).mpr ⟨hq, hstays⟩)
      exact (hlost p hp).2.2 (heq ▸ hleft)
    exact List.inj_on_of_nodup_map hinj hgone hp heq
  refine ⟨hinj.of_map, fun p hp => ⟨?_, hsame p hp⟩⟩
  obtain ⟨q, hq, heq⟩ := List.mem_map.mp (hlost p hp).2.1
  exact hsame p hp q hq heq ▸ hq

/-- Announcements are exact where nobody leaves twice, and whoever leaves was
the only member with its offer. -/
theorem Leaves.exact_iff (h : Leaves members gone left) :
    (∀ w, (gone.map offers).count w = lost offers members left w) ↔
      gone.Nodup ∧ ∀ p ∈ gone, Sole offers members p :=
  ⟨h.sole_of_exact, fun hsole => h.exact_of_sole hsole.1 hsole.2⟩

end LyqtRpc.Departure
