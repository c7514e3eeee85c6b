import Mathlib.Data.List.AList

/-!
`std::unordered_map` as an association list: what is found under a key after an
entry was written or taken out.
-/

set_option autoImplicit false

namespace LyqtRpc.AssocTable

variable {α β : Type} [DecidableEq α] (m : AList (fun _ : α => β))

theorem lookup_insert_ite (a b : α) (v : β) :
    (m.insert a v).lookup b = if b = a then some v else m.lookup b := by
  split
  · rename_i heq
    rw [heq, AList.lookup_insert]
  · rename_i hne
    rw [AList.lookup_insert_ne hne]

theorem lookup_erase_ite (a b : α) :
    (m.erase a).lookup b = if b = a then none else m.lookup b := by
  split
  · rename_i heq
    rw [heq, AList.lookup_erase]
  · rename_i hne
    rw [AList.lookup_erase_ne hne]

/-! A table of tables. -/

/-- The outer key leads to a table of its own. -/
abbrev Nested (α β V : Type) := AList fun _ : α => AList fun _ : β => V

namespace Nested
variable {V : Type} (t : Nested α β V)

/-- No inner table is empty. -/
def Tidy : Prop := ∀ a inner, t.lookup a = some inner → inner.entries ≠ []

/-- Only the table under `a` may be empty. -/
def TidyBut (a : α) : Prop := ∀ x inner, x ≠ a → t.lookup x = some inner → inner.entries ≠ []

/-- Erase the table under `a` if nothing is in it. -/
def prune (a : α) : Nested α β V :=
  match t.lookup a with
  | some inner => if inner.entries = [] then t.erase a else t
  | none => t

theorem tidy_empty : (∅ : Nested α β V).Tidy := by
  intro x inner hinner
  cases hinner

variable {t} in
theorem TidyBut.prune {a : α} (h : t.TidyBut a) : (t.prune a).Tidy := by
  intro x inner hinner
  unfold Nested.prune at hinner
  split at hinner
  · rename_i inner' hinner'
    split at hinner
    · rw [lookup_erase_ite] at hinner
      split at hinner
      · cases hinner
      · rename_i hx
        exact h x inner hx hinner
    · rename_i hne
      by_cases hx : x = a
      · subst hx
        rw [hinner'] at hinner
        exact Option.some.inj hinner ▸ hne
      · exact h x inner hx hinner
  · rename_i hnone
    refine h x inner ?_ hinner
    intro hx
    rw [hx, hnone] at hinner
    cases hinner

variable [DecidableEq β]

def find (a : α) (b : β) : Option V := (t.lookup a).bind fun inner => inner.lookup b

/-- `t[a][b] = v` -/
def put (a : α) (b : β) (v : V) : Nested α β V :=
  t.insert a (((t.lookup a).getD ∅).insert b v)

/-- `t.find(a)->second.erase(b)` -/
def drop (a : α) (b : β) : Nested α β V :=
  match t.lookup a with
  | some inner => t.insert a (inner.erase b)
  | none => t

theorem find_put (a x : α) (b y : β) (v : V) :
    (t.put a b v).find x y = if x = a ∧ y = b then some v else t.find x y := by
  rw [find, put, lookup_insert_ite]
  by_cases hx : x = a
  · subst hx
    rw [if_pos rfl, Option.bind_some, lookup_insert_ite, find]
    by_cases hy : y = b
    · rw [if_pos hy, if_pos ⟨rfl, hy⟩]
    · rw [if_neg hy, if_neg fun h => hy h.2]
      cases t.lookup x with
      | none => exact AList.lookup_eq_none.mpr (AList.notMem_empty y)
      | some inner => rfl
  · rw [if_neg hx, if_neg fun h => hx h.1, find]

theorem find_drop (a x : α) (b y : β) :
    (t.drop a b).find x y = if x = a ∧ y = b then none else t.find x y := by
  unfold drop
  split
  · rename_i inner hinner
    rw [find, lookup_insert_ite]
    by_cases hx : x = a
    · subst hx
      rw [if_pos rfl, Option.bind_some, lookup_erase_ite, find, hinner, Option.bind_some]
      simp only [true_and]
    · rw [if_neg hx, if_neg fun h => hx h.1, find]
  · rename_i hnone
    split
    · rename_i h
      rw [find, h.1, hnone]
      rfl
    · rfl

theorem find_prune (a x : α) (y : β) : (t.prune a).find x y = t.find x y := by
  unfold prune
  split
  · rename_i inner hinner
    split
    · rename_i hempty
      rw [find, lookup_erase_ite]
      split
      · rename_i hx
        have hnot : y ∉ inner := by
          intro hmem
          rw [AList.mem_keys, AList.keys, hempty] at hmem
          cases hmem
        rw [find, hx, hinner, Option.bind_some, Option.bind_none, AList.lookup_eq_none.mpr hnot]
      · rw [find]
    · rfl
  · rfl

variable {t} {a : α} {b : β}

theorem Tidy.put (h : t.Tidy) (v : V) : (t.put a b v).Tidy := by
  intro x inner hinner hempty
  rw [Nested.put, lookup_insert_ite] at hinner
  split at hinner
  · obtain rfl := Option.some.inj hinner
    rw [AList.entries_insert] at hempty
    cases hempty
  · exact h x inner hinner hempty

theorem Tidy.drop (h : t.Tidy) : (t.drop a b).TidyBut a := by
  intro x inner hx hinner
  unfold Nested.drop at hinner
  split at hinner
  · rw [lookup_insert_ite, if_neg hx] at hinner
    exact h x inner hinner
  · exact h x inner hinner

end Nested

end LyqtRpc.AssocTable
