import Mathlib.Data.List.DropRight
import Mathlib.Data.List.Rotate

/-!
A ring of cells in which every new entry overwrites the oldest one: what it
holds are the last entries of the history, as many as it has cells.
-/

set_option autoImplicit false

namespace LyqtRpc.SlidingWindow

variable {α : Type} {blank x : α} {cells history : List α} {pos : Nat}

/-- Read from the cell that is overwritten next, the ring shows the end of the
history, after blanks where the history is shorter. -/
structure Holds (blank : α) (cells : List α) (pos : Nat) (history : List α) : Prop where
  bound : pos < cells.length
  shown : cells.rotate pos =
    (List.replicate cells.length blank ++ history).drop history.length

theorem rotate_set (x : α) (h : pos < cells.length) :
    (cells.set pos x).rotate ((pos + 1) % cells.length) = (cells.rotate pos).tail ++ [x] := by
  have hlength : (cells.set pos x).length = cells.length := List.length_set
  have hend : pos + 1 ≤ (cells.set pos x).length := by omega
  have hlast : (cells.set pos x).take (pos + 1) = cells.take pos ++ [x] := by
    rw [List.take_add_one, List.getElem?_set_self h, List.take_set_of_le (Nat.le_refl pos)]
    rfl
  rw [← hlength, List.rotate_mod, List.rotate_eq_drop_append_take hend, hlast,
    List.drop_set_of_lt (Nat.lt_succ_self pos), List.rotate_eq_drop_append_take h.le,
    List.drop_eq_getElem_cons h, List.cons_append, List.tail_cons, List.append_assoc]

theorem Holds.empty {n : Nat} (hn : 0 < n) : Holds blank (List.replicate n blank) 0 [] where
  bound := by simpa using hn
  shown := by simp

theorem Holds.record (h : Holds blank cells pos history) (x : α) :
    Holds blank (cells.set pos x) ((pos + 1) % cells.length) (history ++ [x]) where
  bound := by
    rw [List.length_set]
    exact Nat.mod_lt _ (Nat.zero_lt_of_lt h.bound)
  shown := by
    have hroom : history.length + 1 ≤
        (List.replicate cells.length blank ++ history).length := by
      have hbound := h.bound
      simp only [List.length_append, List.length_replicate]
      omega
    rw [rotate_set x h.bound, h.shown, List.tail_drop, List.length_set, List.length_append,
      List.length_singleton, ← List.append_assoc, List.drop_append_of_le_length hroom]

/-- What the ring shows, blanks and entries apart. -/
theorem Holds.shown_eq (h : Holds blank cells pos history) :
    cells.rotate pos = List.replicate (cells.length - history.length) blank ++
      history.rtake cells.length := by
  rw [h.shown, List.drop_append, List.drop_replicate, List.length_replicate]
  rfl

/-- Until the ring is full, the next cell is blank. -/
theorem Holds.full (h : Holds blank cells pos history) (hx : cells[pos]? = some x)
    (hne : x ≠ blank) : cells.length ≤ history.length := by
  by_contra hshort
  obtain ⟨k, hk⟩ : ∃ k, cells.length - history.length = k + 1 :=
    ⟨cells.length - history.length - 1, by omega⟩
  have hhead := congrArg List.head? h.shown_eq
  rw [List.head?_rotate h.bound, hx, hk, List.replicate_succ, List.cons_append,
    List.head?_cons] at hhead
  exact hne (Option.some.inj hhead)

variable [DecidableEq α]

theorem Holds.count (h : Holds blank cells pos history) (hx : x ≠ blank) :
    cells.count x = (history.rtake cells.length).count x := by
  have hnone : (List.replicate (cells.length - history.length) blank).count x = 0 :=
    List.count_eq_zero_of_not_mem (fun hmem => hx (List.eq_of_mem_replicate hmem))
  rw [← (List.rotate_perm cells pos).count_eq x, h.shown_eq, List.count_append, hnone,
    Nat.zero_add]

/-- A counter follows one overwritten cell. -/
theorem count_overwrite (hx : cells[pos]? = some x) (y z : α) :
    ((cells.set pos y).count z : Int) =
      (if x = z then (cells.count z : Int) - 1 else cells.count z) + if y = z then 1 else 0 := by
  obtain ⟨hpos, hcell⟩ := List.getElem?_eq_some_iff.mp hx
  have hmem : x = z → 0 < cells.count z := fun hz =>
    List.count_pos_iff.mpr (hz ▸ List.mem_of_getElem? hx)
  rw [List.count_set hpos, hcell]
  simp only [beq_iff_eq]
  by_cases hz : x = z
  · have hpos := hmem hz
    simp only [if_pos hz]
    split <;> omega
  · simp only [if_neg hz, Nat.sub_zero]
    split <;> omega

end LyqtRpc.SlidingWindow
