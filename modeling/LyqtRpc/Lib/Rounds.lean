import Mathlib.Data.List.Nodup

/-!
Going round a list: the next element whose key has not been seen, and the first
one again when all have been.
-/

set_option autoImplicit false

namespace LyqtRpc.Rounds

variable {α κ : Type} [DecidableEq κ]

/-- The next element, and what counts as seen before it. -/
def nextUnseen (key : α → κ) (xs : List α) (seen : List κ) : Option α × List κ :=
  match xs with
  | [] => (none, seen)
  | front :: _ =>
    match xs.find? (fun x => key x ∉ seen) with
    | some x => (some x, seen)
    | none => (some front, [])

/-- After so many turns: of the round that was begun, the first few are seen. -/
def InRound (key : α → κ) (xs : List α) (turn : Nat) (seen : List κ) : Prop :=
  ∃ count ≤ xs.length, count % xs.length = turn % xs.length ∧
    ∀ k, k ∈ seen ↔ k ∈ (xs.take count).map key

variable {key : α → κ} {xs : List α} {seen : List κ} {turn : Nat}

omit [DecidableEq κ] in
theorem inRound_zero : InRound key xs 0 [] :=
  ⟨0, Nat.zero_le _, rfl, by simp⟩

/-- Where the first few are seen, the next one is found. -/
theorem find?_unseen (hnodup : (xs.map key).Nodup) {count : Nat} (hcount : count < xs.length)
    (hseen : ∀ k, k ∈ seen ↔ k ∈ (xs.take count).map key) :
    xs.find? (fun x => key x ∉ seen) = some xs[count] := by
  have hsplit : xs.take count ++ xs[count] :: xs.drop (count + 1) = xs := by
    rw [← List.drop_eq_getElem_cons hcount, List.take_append_drop]
  have hbefore : (xs.take count).find? (fun x => key x ∉ seen) = none := by
    rw [List.find?_eq_none]
    intro x hx
    have hmem : key x ∈ seen := (hseen _).mpr (List.mem_map_of_mem hx)
    simp [hmem]
  have hnew : key xs[count] ∉ seen := by
    intro hmem
    have hmem := (hseen _).mp hmem
    rw [← hsplit, List.map_append, List.map_cons] at hnodup
    exact (List.nodup_append.mp hnodup).2.2 _ hmem _ (List.mem_cons_self ..) rfl
  calc xs.find? (fun x => key x ∉ seen)
      = (xs.take count ++ xs[count] :: xs.drop (count + 1)).find? (fun x => key x ∉ seen) := by
        rw [hsplit]
    _ = some xs[count] := by
        rw [List.find?_append, hbefore, Option.none_or]
        exact List.find?_cons_of_pos (decide_eq_true hnew)

omit [DecidableEq κ] in
/-- One more is seen. -/
theorem mem_cons_take {count : Nat} (hcount : count < xs.length)
    (hseen : ∀ k, k ∈ seen ↔ k ∈ (xs.take count).map key) (k : κ) :
    k ∈ key xs[count] :: seen ↔ k ∈ (xs.take (count + 1)).map key := by
  rw [List.take_succ_eq_append_getElem hcount, List.map_append, List.mem_append, List.mem_cons,
    hseen]
  simp [or_comm]

theorem succ_mod_eq {count n turn : Nat} (h : count % n = turn % n) :
    (count + 1) % n = (turn + 1) % n := by
  rw [Nat.add_mod, h, ← Nat.add_mod]

/-- Every turn takes the element at its number modulo the length. -/
theorem InRound.next (h : InRound key xs turn seen) (hne : xs ≠ [])
    (hnodup : (xs.map key).Nodup) :
    ∃ x seen', nextUnseen key xs seen = (some x, seen') ∧ xs[turn % xs.length]? = some x ∧
      InRound key xs (turn + 1) (key x :: seen') := by
  obtain ⟨count, hle, hmod, hseen⟩ := h
  have hpos : 0 < xs.length := List.length_pos_iff.mpr hne
  cases Nat.lt_or_eq_of_le hle with
  | inl hcount =>
    have hfind := find?_unseen hnodup hcount hseen
    have hturn : turn % xs.length = count := by rw [← hmod, Nat.mod_eq_of_lt hcount]
    refine ⟨xs[count], seen, ?_, ?_, count + 1, hcount, succ_mod_eq hmod,
      mem_cons_take hcount hseen⟩
    · cases xs with
      | nil => exact absurd rfl hne
      | cons front rest => simp only [nextUnseen, hfind]
    · rw [hturn, List.getElem?_eq_getElem hcount]
  | inr hall =>
    -- all seen: the next round begins
    have hfind : xs.find? (fun x => key x ∉ seen) = none := by
      rw [List.find?_eq_none]
      intro x hx
      have hmem : key x ∈ seen := by
        rw [hseen, hall, List.take_length]
        exact List.mem_map_of_mem hx
      simp [hmem]
    have hturn : turn % xs.length = 0 := by rw [← hmod, hall, Nat.mod_self]
    have hnone : ∀ k, k ∈ ([] : List κ) ↔ k ∈ (xs.take 0).map key := by simp
    refine ⟨xs[0], [], ?_, ?_, 1, hpos, ?_, mem_cons_take hpos hnone⟩
    · cases xs with
      | nil => exact absurd rfl hne
      | cons front rest => simp only [nextUnseen, hfind, List.getElem_cons_zero]
    · rw [hturn, List.getElem?_eq_getElem hpos]
    · rw [← succ_mod_eq (hmod.symm.trans (by rw [hall, Nat.mod_self, Nat.zero_mod]))]

omit [DecidableEq κ] in
/-- Nobody has a second turn before the first round is over. -/
theorem length_le_of_again (hnodup : (xs.map key).Nodup) {i j : Nat} (hij : i < j) {x y : α}
    (hx : xs[i % xs.length]? = some x) (hy : xs[j % xs.length]? = some y)
    (hkey : key x = key y) : xs.length ≤ j := by
  obtain ⟨hi, hx⟩ := List.getElem?_eq_some_iff.mp hx
  obtain ⟨hj, hy⟩ := List.getElem?_eq_some_iff.mp hy
  have hsame : i % xs.length = j % xs.length := by
    have hi' : i % xs.length < (xs.map key).length := by simpa using hi
    have hj' : j % xs.length < (xs.map key).length := by simpa using hj
    have hequal : (xs.map key).get ⟨i % xs.length, hi'⟩ =
        (xs.map key).get ⟨j % xs.length, hj'⟩ := by
      simp only [List.get_eq_getElem, List.getElem_map, hx, hy, hkey]
    exact Fin.mk.inj_iff.mp (List.nodup_iff_injective_get.mp hnodup hequal)
  by_contra hlt
  have hjlt : j < xs.length := by omega
  have hilt : i < xs.length := by omega
  rw [Nat.mod_eq_of_lt hjlt, Nat.mod_eq_of_lt hilt] at hsame
  omega

end LyqtRpc.Rounds
