import Mathlib.Data.List.Chain
import Mathlib.Data.List.Range
import Mathlib.Data.List.Rotate
import Mathlib.Order.Lattice

/-!
Orders in which candidates are tried: a list read around from some position on,
a stable sort by a key, with the candidates of the least key in front, and the
candidates taken in turns.
-/

set_option autoImplicit false

namespace LyqtRpc.Candidates

variable {α β κ : Type}

theorem mapM_eq_some {f : α → Option β} {as : List α} {bs : List β}
    (h : as.map f = bs.map some) : as.mapM f = some bs := by
  induction as generalizing bs with
  | nil =>
    cases bs with
    | nil => rfl
    | cons b bs => cases h
  | cons a as ih =>
    cases bs with
    | nil => cases h
    | cons b bs =>
      obtain ⟨hhead, htail⟩ := List.cons.inj h
      rw [List.mapM_cons, hhead, ih htail]
      rfl

theorem map_getElem?_add_mod (l : List α) (start : Nat) :
    (List.range l.length).map (fun i => l[(start + i) % l.length]?) =
      (l.rotate start).map some := by
  refine List.ext_getElem (by simp) (fun i hi _ => ?_)
  have hi : i < l.length := by simpa using hi
  have hmod : (start + i) % l.length < l.length := Nat.mod_lt _ (Nat.zero_lt_of_lt hi)
  simp only [List.getElem_map, List.getElem_range, List.getElem_rotate, Nat.add_comm i start]
  exact List.getElem?_eq_getElem hmod

theorem head?_rotate_mod {l : List α} (hl : l ≠ []) (start : Nat) :
    (l.rotate start).head? = l[start % l.length]? := by
  rw [← List.rotate_mod, List.head?_rotate (Nat.mod_lt _ (List.length_pos_iff.mpr hl))]

section Sorting
variable [LinearOrder κ]

/-- The comparison a sort by `key` is run with. -/
def byKey (key : α → κ) (a b : α) : Bool := decide (key a ≤ key b)

theorem byKey_trans (key : α → κ) (a b c : α) (hab : byKey key a b) (hbc : byKey key b c) :
    byKey key a c :=
  decide_eq_true ((of_decide_eq_true hab).trans (of_decide_eq_true hbc))

theorem byKey_total (key : α → κ) (a b : α) : byKey key a b || byKey key b a := by
  simpa [byKey] using le_total (key a) (key b)

theorem pairwise_mergeSort_key (key : α → κ) (l : List α) :
    (l.mergeSort (byKey key)).Pairwise (fun a b => key a ≤ key b) :=
  (List.pairwise_mergeSort (byKey_trans key) (byKey_total key) l).imp
    (fun h => of_decide_eq_true h)

/-- The sort is stable: elements of one key stay in their order. -/
theorem filter_mergeSort_key (key : α → κ) (l : List α) (k : κ) :
    (l.mergeSort (byKey key)).filter (fun a => key a = k) = l.filter (fun a => key a = k) := by
  have hsame : (l.filter (fun a => key a = k)).Pairwise (fun a b => byKey key a b = true) := by
    refine List.pairwise_of_forall_mem_list (fun a ha b hb => decide_eq_true ?_)
    have hka : key a = k := by simpa using (List.mem_filter.mp ha).2
    have hkb : key b = k := by simpa using (List.mem_filter.mp hb).2
    exact (hka.trans hkb.symm).le
  have hsub := (List.sublist_mergeSort (byKey_trans key) (byKey_total key) hsame
    List.filter_sublist).filter (fun a => decide (key a = k))
  rw [List.filter_filter] at hsub
  simp only [Bool.and_self] at hsub
  exact (hsub.eq_of_length ((List.mergeSort_perm l _).filter _).length_eq.symm).symm

/-- In a sorted list the elements of the least key are the ones in front. -/
theorem takeWhile_eq_filter {key : α → κ} {l : List α}
    (hsorted : l.Pairwise (fun a b => key a ≤ key b)) {k : κ} (hk : ∀ a ∈ l, k ≤ key a) :
    l.takeWhile (fun a => key a = k) = l.filter (fun a => key a = k) := by
  induction l with
  | nil => rfl
  | cons a l ih =>
    obtain ⟨hfirst, hrest⟩ := List.pairwise_cons.mp hsorted
    have ih := ih hrest (fun b hb => hk b (List.mem_cons_of_mem a hb))
    by_cases ha : key a = k
    · rw [List.takeWhile_cons_of_pos (by simpa using ha),
        List.filter_cons_of_pos (by simpa using ha), ih]
    · have hnone : l.filter (fun a => key a = k) = [] := by
        refine List.filter_eq_nil_iff.mpr (fun b hb => ?_)
        have hlt := lt_of_le_of_ne (hk a (List.mem_cons_self ..)) (Ne.symm ha)
        have hb := (hlt.trans_le (hfirst b hb)).ne'
        simpa using hb
      rw [List.takeWhile_cons_of_neg (by simpa using ha),
        List.filter_cons_of_neg (by simpa using ha), hnone]

end Sorting

section Turns
variable {l : List α}

/-- From one pick to the next: the position behind it, around the end. -/
def Advances (l : List α) (a b : Option α) : Prop :=
  ∃ i < l.length, a = l[i]? ∧ b = l[(i + 1) % l.length]?

theorem advances_iff (hnodup : l.Nodup) (hl : l ≠ []) (i j : Nat) :
    Advances l l[i % l.length]? l[j % l.length]? ↔ j % l.length = (i + 1) % l.length := by
  have hpos : 0 < l.length := List.length_pos_iff.mpr hl
  constructor
  · intro hnext
    obtain ⟨k, hk, ha, hb⟩ := hnext
    have hi : i % l.length = k := (List.getElem?_inj (Nat.mod_lt i hpos) hnodup).mp ha
    have hj := (List.getElem?_inj (Nat.mod_lt j hpos) hnodup).mp hb
    rw [hj, ← hi, Nat.mod_add_mod]
  · intro hj
    refine ⟨i % l.length, Nat.mod_lt i hpos, rfl, ?_⟩
    rw [Nat.mod_add_mod, hj]

/-- Picks by an index advance, if and only if the index grows by one modulo the
number of candidates. -/
theorem isChain_turns (hnodup : l.Nodup) (hl : l ≠ []) (turn : Nat → Nat) (count : Nat) :
    ((List.range count).map (fun i => l[turn i % l.length]?)).IsChain (Advances l) ↔
      ∀ i, i + 1 < count → turn (i + 1) % l.length = (turn i + 1) % l.length := by
  rw [List.isChain_map, List.isChain_range]
  refine forall_congr' (fun i => ?_)
  rw [advances_iff hnodup hl, Nat.lt_sub_iff_add_lt]

end Turns

end LyqtRpc.Candidates
