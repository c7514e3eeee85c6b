import LyqtRpc.Lib.ByteText

/-!
Lines that end in CR LF, taken off the front of a buffer that holds a prefix of a
stream: the first line is there with its end, or it is not found.
-/

set_option autoImplicit false

namespace LyqtRpc

def findCRLF (buf : Bytes) : Option Nat := find buf [13, 10]

/-- `s.find(c, pos)` -/
def findFrom (s : Bytes) (c : UInt8) (pos : Nat) : Option Nat :=
  (find (s.drop pos) [c]).map (· + pos)

theorem find_le {s pat : Bytes} {n : Nat} (h : find s pat = some n) :
    n + pat.length ≤ s.length := by
  induction s generalizing n with
  | nil =>
    simp only [find] at h
    split at h
    · rename_i hpre
      cases h
      simpa using (List.isPrefixOf_iff_prefix.mp hpre).length_le
    · cases h
  | cons b s ih =>
    rw [find] at h
    split at h
    · rename_i hpre
      cases h
      simpa using (List.isPrefixOf_iff_prefix.mp hpre).length_le
    · obtain ⟨m, hm, rfl⟩ := Option.map_eq_some_iff.mp h
      have := ih hm
      simp only [List.length_cons]
      omega

/-- A pattern is first found where its first byte first stands. -/
theorem find_append {c : UInt8} {a b pat : Bytes} (h : c ∉ a) (hpat : (c :: pat).isPrefixOf b) :
    find (a ++ b) (c :: pat) = some a.length := by
  induction a with
  | nil =>
    rw [List.nil_append, find.eq_def, if_pos hpat]
    rfl
  | cons x a ih =>
    obtain ⟨hx, ha⟩ := not_or.mp (fun hmem => h (List.mem_cons.mpr hmem))
    have hne : ¬ ((c :: pat).isPrefixOf (x :: (a ++ b))) := by
      simp [hx]
    rw [List.cons_append, find, if_neg hne, ih ha]
    rfl

/-- Where a byte is found, it stands. -/
theorem getElem?_of_find {c : UInt8} {s pat : Bytes} {n : Nat} (h : find s (c :: pat) = some n) :
    s[n]? = some c := by
  induction s generalizing n with
  | nil => cases h
  | cons x s ih =>
    rw [find] at h
    split at h
    · rename_i hpre
      cases h
      have hx : c = x := by
        simp only [List.isPrefixOf_cons_cons, Bool.and_eq_true, beq_iff_eq] at hpre
        exact hpre.1
      simp [hx]
    · obtain ⟨m, hm, rfl⟩ := Option.map_eq_some_iff.mp h
      simpa using ih hm

/-- It does not stand before that. -/
theorem notMem_take_of_find {c : UInt8} {s : Bytes} {n : Nat} (h : find s [c] = some n) :
    c ∉ s.take n := by
  induction s generalizing n with
  | nil => cases h
  | cons x s ih =>
    rw [find] at h
    split at h
    · cases h
      exact List.not_mem_nil
    · rename_i hne
      obtain ⟨m, hm, rfl⟩ := Option.map_eq_some_iff.mp h
      rw [List.take_succ_cons, List.mem_cons, not_or]
      refine ⟨fun hx => hne ?_, ih hm⟩
      rw [hx, List.isPrefixOf_iff_prefix]
      exact List.prefix_append [x] s

theorem find_eq_none {c : UInt8} {a pat : Bytes} (h : c ∉ a) : find a (c :: pat) = none := by
  induction a with
  | nil => rfl
  | cons x a ih =>
    obtain ⟨hx, ha⟩ := not_or.mp (fun hmem => h (List.mem_cons.mpr hmem))
    have hne : ¬ ((c :: pat).isPrefixOf (x :: a)) := by
      simp [hx]
    rw [find, if_neg hne, ih ha]
    rfl

/-- Half a line end is none. -/
theorem findCRLF_half {a : Bytes} (h : 13 ∉ a) : findCRLF (a ++ [13]) = none := by
  induction a with
  | nil => rfl
  | cons x a ih =>
    obtain ⟨hx, ha⟩ := not_or.mp (fun hmem => h (List.mem_cons.mpr hmem))
    have hne : ¬ ([13, 10].isPrefixOf (x :: (a ++ [13]))) := by
      simp [hx]
    have hrest : find (a ++ [13]) [13, 10] = none := ih ha
    rw [findCRLF, List.cons_append, find, if_neg hne, hrest]
    rfl

theorem findCRLF_le {buf : Bytes} {n : Nat} (h : findCRLF buf = some n) : n + 2 ≤ buf.length :=
  find_le h

/-- The buffer holds a prefix of a line and of what follows it. -/
theorem findCRLF_prefix {buf rest line tail : Bytes} (h : 13 ∉ line)
    (hcat : buf ++ rest = line ++ 13 :: 10 :: tail) :
    (buf.length < line.length + 2 ∧ findCRLF buf = none) ∨
    ∃ buf', buf = line ++ 13 :: 10 :: buf' ∧ buf' ++ rest = tail ∧
      findCRLF buf = some line.length := by
  have hends : buf ++ rest = (line ++ [13, 10]) ++ tail := by simpa using hcat
  rcases List.append_eq_append_iff.mp hends with ⟨a, ha, -⟩ | ⟨a, rfl, htail⟩
  · rcases List.eq_nil_or_concat a with rfl | ⟨a, x, rfl⟩
    · refine .inr ⟨[], by simpa using ha.symm, ?_, ?_⟩
      · rw [ha, List.append_nil] at hends
        exact List.append_cancel_left hends
      · rw [← List.append_nil buf, ← ha]
        exact find_append h (by simp)
    · left
      have hhalf : line ++ [13] = buf ++ a := by
        have hlast : (line ++ [13]) ++ [10] = (buf ++ a) ++ [x] := by simpa using ha
        exact (List.append_inj' hlast rfl).1
      have hlen := congrArg List.length hhalf
      simp only [List.length_append, List.length_singleton] at hlen
      refine ⟨by omega, ?_⟩
      rcases List.eq_nil_or_concat a with rfl | ⟨a, y, rfl⟩
      · rw [List.append_nil] at hhalf
        rw [← hhalf]
        exact findCRLF_half h
      · have hline : line = buf ++ a := by
          have hlast : line ++ [13] = (buf ++ a) ++ [y] := by simpa using hhalf
          exact (List.append_inj' hlast rfl).1
        exact find_eq_none (fun hmem => h (hline ▸ List.mem_append_left a hmem))
  · refine .inr ⟨a, by simp, htail.symm, ?_⟩
    rw [List.append_assoc]
    exact find_append h (by simp)

/-! Patterns that are longer than one byte. -/

theorem find_cons (b : UInt8) (s pat : Bytes) :
    find (b :: s) pat = if pat.isPrefixOf (b :: s) then some 0 else (find s pat).map (· + 1) := by
  rw [find]

/-- A pattern with a byte that does not stand in the text is not found. -/
theorem find_of_notMem {c : UInt8} {s pat : Bytes} (hpat : c ∈ pat) (h : c ∉ s) :
    find s pat = none := by
  have hfront : ∀ t : Bytes, c ∉ t → ¬ pat.isPrefixOf t = true := fun t ht hpre =>
    ht ((List.isPrefixOf_iff_prefix.mp hpre).subset hpat)
  induction s with
  | nil =>
    rw [find]
    exact if_neg (hfront [] h)
  | cons b s ih =>
    rw [find_cons, if_neg (hfront _ h), ih (fun hmem => h (List.mem_cons_of_mem b hmem))]
    rfl

/-- A byte that stands in the pattern, and for the first time in the text: there the
pattern is, or behind it. -/
theorem find_infix {c : UInt8} {x y u v : Bytes} (hx : c ∉ x) (hu : c ∉ u) :
    find (u ++ c :: v) (x ++ c :: y) =
      if x <:+ u ∧ y <+: v then some (u.length - x.length)
      else (find v (x ++ c :: y)).map (· + (u.length + 1)) := by
  have hhere : ∀ u, c ∉ u → ((x ++ c :: y).isPrefixOf (u ++ c :: v) = true ↔ x = u ∧ y <+: v) := by
    intro u hu
    rw [List.isPrefixOf_iff_prefix]
    constructor
    · intro ⟨t, ht⟩
      rw [List.append_assoc, List.cons_append] at ht
      obtain ⟨rfl, hrest⟩ := split_first hx hu ht
      exact ⟨rfl, t, hrest⟩
    · intro ⟨hxu, t, ht⟩
      exact ⟨t, by rw [hxu, ← ht, List.append_assoc, List.cons_append]⟩
  induction u with
  | nil =>
    have hnow := hhere [] hu
    rw [List.nil_append] at hnow
    rw [List.nil_append, find_cons]
    by_cases hpre : x = [] ∧ y <+: v
    · rw [if_pos (hnow.mpr hpre), if_pos ⟨hpre.1 ▸ List.suffix_rfl, hpre.2⟩, List.length_nil,
        Nat.zero_sub]
    · rw [if_neg fun h => hpre (hnow.mp h), if_neg fun h => hpre ⟨List.suffix_nil.mp h.1, h.2⟩]
      rfl
  | cons b u ih =>
    have hbu := hu
    rw [List.mem_cons, not_or] at hu
    rw [List.cons_append, find_cons, ← List.cons_append, ih hu.2]
    by_cases hpre : x = b :: u ∧ y <+: v
    · rw [if_pos ((hhere _ hbu).mpr hpre), if_pos ⟨hpre.1 ▸ List.suffix_rfl, hpre.2⟩, hpre.1,
        Nat.sub_self]
    · rw [if_neg fun h => hpre ((hhere _ hbu).mp h)]
      by_cases hlater : x <:+ u ∧ y <+: v
      · have hle := hlater.1.length_le
        rw [if_pos hlater, if_pos ⟨hlater.1.trans (List.suffix_cons b u), hlater.2⟩,
          Option.map_some, List.length_cons, Nat.sub_add_comm hle]
      · have hnone : ¬ (x <:+ b :: u ∧ y <+: v) := by
          intro ⟨hsuffix, hy⟩
          rcases List.suffix_cons_iff.mp hsuffix with heq | htail
          · exact hpre ⟨heq, hy⟩
          · exact hlater ⟨htail, hy⟩
        rw [if_neg hlater, if_neg hnone, Option.map_map]
        refine congrArg (Option.map · _) (funext fun n => ?_)
        simp only [Function.comp_apply, List.length_cons]
        omega

/-- A pattern without the byte that ends a line is found in the line, or behind it. -/
theorem find_line {c : UInt8} {pat : Bytes} (line rest : Bytes) (hne : pat ≠ []) (hpat : c ∉ pat) :
    find (line ++ c :: rest) pat =
      (find line pat).or ((find rest pat).map (· + (line.length + 1))) := by
  have hfront : ∀ line, (pat.isPrefixOf (line ++ c :: rest) = true ↔
      pat.isPrefixOf line = true) := by
    intro line
    rw [List.isPrefixOf_iff_prefix, List.isPrefixOf_iff_prefix]
    constructor
    · intro ⟨t, ht⟩
      rcases List.append_eq_append_iff.mp ht with ⟨d, hline, -⟩ | ⟨d, rfl, hd⟩
      · exact ⟨d, hline.symm⟩
      · cases d with
        | nil => exact ⟨[], by simp⟩
        | cons e d =>
          obtain ⟨rfl, -⟩ := List.cons.inj hd
          exact absurd (List.mem_append_right line (List.mem_cons_self ..)) hpat
    · exact fun h => h.trans (List.prefix_append _ _)
  induction line with
  | nil =>
    have hnil : ¬ pat.isPrefixOf [] = true := fun h =>
      hne (List.prefix_nil.mp (List.isPrefixOf_iff_prefix.mp h))
    have hnow := hfront []
    rw [List.nil_append] at hnow
    rw [List.nil_append, find_cons, if_neg fun h => hnil (hnow.mp h), find.eq_def [],
      if_neg hnil]
    rfl
  | cons b line ih =>
    rw [List.cons_append, find_cons, find_cons, ← List.cons_append, ih]
    by_cases hpre : pat.isPrefixOf (b :: line) = true
    · rw [if_pos ((hfront _).mpr hpre), if_pos hpre, Option.some_or]
    · rw [if_neg fun h => hpre ((hfront _).mp h), if_neg hpre, Option.map_or, Option.map_map]
      refine congrArg (Option.or _ <| Option.map · _) (funext fun n => ?_)
      simp only [Function.comp_apply, List.length_cons]
      omega

end LyqtRpc
