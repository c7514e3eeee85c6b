import Mathlib.Data.List.Lemmas
import Mathlib.Order.Basic

/-!
`std::map`: entries in strictly increasing order of their keys, `m[k] = v`,
`erase`, lookup, and `lower_bound`. With trivial values it is `std::set`.
-/

set_option autoImplicit false

namespace LyqtRpc

variable {κ β : Type} [LinearOrder κ]

def Increasing (es : List (κ × β)) : Prop := es.Pairwise (fun e f => e.1 < f.1)

def assignList (k : κ) (v : β) : List (κ × β) → List (κ × β)
  | [] => [(k, v)]
  | e :: es =>
    if k < e.1 then (k, v) :: e :: es
    else if k = e.1 then (k, v) :: es
    else e :: assignList k v es

theorem mem_of_mem_assignList {k : κ} {v : β} {es : List (κ × β)} {e : κ × β}
    (h : e ∈ assignList k v es) : e = (k, v) ∨ e ∈ es := by
  induction es with
  | nil => exact .inl (List.mem_singleton.mp h)
  | cons f es ih =>
    simp only [assignList] at h
    split at h
    · exact (List.mem_cons.mp h).imp_right id
    · split at h
      · exact (List.mem_cons.mp h).imp_right (List.mem_cons_of_mem f)
      · cases h with
        | head => exact .inr (List.mem_cons_self ..)
        | tail _ h => exact (ih h).imp_right (List.mem_cons_of_mem f)

theorem increasing_assignList {k : κ} {v : β} {es : List (κ × β)} (h : Increasing es) :
    Increasing (assignList k v es) := by
  induction es with
  | nil => exact List.pairwise_singleton ..
  | cons f es ih =>
    obtain ⟨hf, hes⟩ := List.pairwise_cons.mp h
    simp only [assignList]
    split
    · rename_i hlt
      refine List.pairwise_cons.mpr ⟨fun e he => ?_, h⟩
      cases he with
      | head => exact hlt
      | tail _ he => exact hlt.trans (hf e he)
    · split
      · rename_i heq
        exact List.pairwise_cons.mpr ⟨heq ▸ hf, hes⟩
      · rename_i hlt hne
        refine List.pairwise_cons.mpr ⟨fun e he => ?_, ih hes⟩
        cases mem_of_mem_assignList he with
        | inl heq => exact heq ▸ lt_of_le_of_ne (not_lt.mp hlt) (Ne.symm hne)
        | inr he => exact hf e he

theorem lookup_cons_self {k : κ} {v : β} {es : List (κ × β)} :
    ((k, v) :: es).lookup k = some v := by simp

theorem lookup_cons_ne {k x : κ} {v : β} {es : List (κ × β)} (h : x ≠ k) :
    ((k, v) :: es).lookup x = es.lookup x := by
  have hk : (x == k) = false := by simpa using h
  simp only [List.lookup_cons, hk]

theorem lookup_assignList {k x : κ} {v : β} {es : List (κ × β)} :
    (assignList k v es).lookup x = if x = k then some v else es.lookup x := by
  split
  · rename_i heq
    subst heq
    induction es with
    | nil => exact lookup_cons_self
    | cons f es ih =>
      simp only [assignList]
      split
      · exact lookup_cons_self
      · split
        · exact lookup_cons_self
        · rename_i hne
          rw [lookup_cons_ne hne, ih]
  · rename_i hx
    induction es with
    | nil => exact lookup_cons_ne hx
    | cons f es ih =>
      simp only [assignList]
      split
      · exact lookup_cons_ne hx
      · split
        · rename_i heq
          rw [lookup_cons_ne hx, lookup_cons_ne (heq ▸ hx)]
        · by_cases hf : x = f.1
          · subst hf
            exact lookup_cons_self.trans lookup_cons_self.symm
          · rw [lookup_cons_ne hf, ih, lookup_cons_ne hf]

theorem mem_of_lookup {x : κ} {v : β} {es : List (κ × β)} (h : es.lookup x = some v) :
    (x, v) ∈ es := by
  induction es with
  | nil => simp at h
  | cons f es ih =>
    by_cases hx : x = f.1
    · subst hx
      rw [lookup_cons_self, Option.some.injEq] at h
      exact h ▸ List.mem_cons_self ..
    · rw [lookup_cons_ne hx] at h
      exact List.mem_cons_of_mem _ (ih h)

theorem lookup_of_mem {x : κ} {v : β} {es : List (κ × β)} (hes : Increasing es)
    (h : (x, v) ∈ es) : es.lookup x = some v := by
  induction es with
  | nil => cases h
  | cons f es ih =>
    obtain ⟨hf, hes⟩ := List.pairwise_cons.mp hes
    cases h with
    | head => exact lookup_cons_self
    | tail _ h =>
      rw [lookup_cons_ne (hf _ h).ne']
      exact ih hes h

/-- The keys before `k` and behind it, whether it is there or is put there. -/
theorem split_assignList {k : κ} {v : β} {es : List (κ × β)} (h : Increasing es) :
    ∃ before behind, k ∉ before ∧ k ∉ behind ∧
      es.map Prod.fst = before ++ (if k ∈ es.map Prod.fst then [k] else []) ++ behind ∧
      (assignList k v es).map Prod.fst = before ++ [k] ++ behind := by
  induction es with
  | nil => exact ⟨[], [], List.not_mem_nil, List.not_mem_nil, rfl, rfl⟩
  | cons f es ih =>
    obtain ⟨hf, hes⟩ := List.pairwise_cons.mp h
    have habove : ∀ {x}, x ≤ f.1 → x ∉ es.map Prod.fst := by
      intro x hx hmem
      obtain ⟨e, he, rfl⟩ := List.mem_map.mp hmem
      exact (hf e he).not_ge hx
    rcases lt_trichotomy k f.1 with hlt | heq | hgt
    · have hk : k ∉ (f :: es).map Prod.fst := by
        rw [List.map_cons, List.mem_cons, not_or]
        exact ⟨hlt.ne, habove hlt.le⟩
      refine ⟨[], _, List.not_mem_nil, hk, by rw [if_neg hk]; rfl, ?_⟩
      rw [assignList, if_pos hlt]
      rfl
    · subst heq
      refine ⟨[], es.map Prod.fst, List.not_mem_nil, habove le_rfl, ?_, ?_⟩
      · rw [List.map_cons, if_pos (List.mem_cons_self ..)]
        rfl
      · rw [assignList, if_neg (lt_irrefl _), if_pos rfl]
        rfl
    · obtain ⟨before, behind, hbefore, hbehind, hold, hnew⟩ := ih hes
      refine ⟨f.1 :: before, behind, ?_, hbehind, ?_, ?_⟩
      · rw [List.mem_cons, not_or]
        exact ⟨hgt.ne', hbefore⟩
      · have hiff : k ∈ (f :: es).map Prod.fst ↔ k ∈ es.map Prod.fst := by
          rw [List.map_cons, List.mem_cons, or_iff_right hgt.ne']
        simp only [hiff]
        exact congrArg (f.1 :: ·) hold
      · rw [assignList, if_neg hgt.not_gt, if_neg hgt.ne']
        exact congrArg (f.1 :: ·) hnew

structure OrderedMap (κ β : Type) [LinearOrder κ] where
  entries : List (κ × β) := []
  increasing : Increasing entries := by exact List.Pairwise.nil

namespace OrderedMap

def empty : OrderedMap κ β where
  entries := []
  increasing := .nil

/-- `m[k] = v`: an entry the key has already is overwritten. -/
def assign (m : OrderedMap κ β) (k : κ) (v : β) : OrderedMap κ β where
  entries := assignList k v m.entries
  increasing := increasing_assignList m.increasing

def erase (m : OrderedMap κ β) (k : κ) : OrderedMap κ β where
  entries := m.entries.filter (fun e => e.1 ≠ k)
  increasing := m.increasing.filter _

def find? (m : OrderedMap κ β) (k : κ) : Option β := m.entries.lookup k

def keys (m : OrderedMap κ β) : List κ := m.entries.map Prod.fst

/-- The first entry whose key is not below `k`. -/
def lowerBound (m : OrderedMap κ β) (k : κ) : Option (κ × β) :=
  m.entries.find? (fun e => k ≤ e.1)

theorem find?_assign (m : OrderedMap κ β) (k x : κ) (v : β) :
    (m.assign k v).find? x = if x = k then some v else m.find? x := lookup_assignList

theorem mem_entries {m : OrderedMap κ β} {e : κ × β} :
    e ∈ m.entries ↔ m.find? e.1 = some e.2 :=
  ⟨lookup_of_mem m.increasing, mem_of_lookup⟩

theorem mem_keys {m : OrderedMap κ β} {x : κ} : x ∈ m.keys ↔ (m.find? x).isSome := by
  rw [keys, List.mem_map, Option.isSome_iff_exists]
  constructor
  · intro hmem
    obtain ⟨e, he, rfl⟩ := hmem
    exact ⟨e.2, mem_entries.mp he⟩
  · intro hsome
    obtain ⟨v, hv⟩ := hsome
    exact ⟨(x, v), mem_entries.mpr hv, rfl⟩

theorem nodup_keys (m : OrderedMap κ β) : m.keys.Nodup :=
  List.pairwise_map.mpr (m.increasing.imp (fun h => h.ne))

@[simp] theorem mem_keys_assign {m : OrderedMap κ β} {k x : κ} {v : β} :
    x ∈ (m.assign k v).keys ↔ x = k ∨ x ∈ m.keys := by
  rw [mem_keys, mem_keys, find?_assign]
  split <;> simp_all

theorem split_keys (m : OrderedMap κ β) (k : κ) (v : β) :
    ∃ before behind, k ∉ before ∧ k ∉ behind ∧
      m.keys = before ++ (if k ∈ m.keys then [k] else []) ++ behind ∧
      (m.assign k v).keys = before ++ [k] ++ behind :=
  split_assignList m.increasing

@[simp] theorem mem_keys_erase {m : OrderedMap κ β} {k x : κ} :
    x ∈ (m.erase k).keys ↔ x ∈ m.keys ∧ x ≠ k := by
  simp only [keys, erase, List.mem_map, List.mem_filter, decide_eq_true_eq]
  constructor
  · intro hmem
    obtain ⟨e, ⟨he, hne⟩, rfl⟩ := hmem
    exact ⟨⟨e, he, rfl⟩, hne⟩
  · intro hmem
    obtain ⟨⟨e, he, rfl⟩, hne⟩ := hmem
    exact ⟨e, ⟨he, hne⟩, rfl⟩

theorem mem_keys_foldl_erase {m : OrderedMap κ β} {ks : List κ} {x : κ} :
    x ∈ (ks.foldl (fun m k => m.erase k) m).keys ↔ x ∈ m.keys ∧ x ∉ ks := by
  induction ks generalizing m with
  | nil => simp
  | cons k ks ih =>
    simp only [List.foldl_cons, ih, mem_keys_erase, List.mem_cons, not_or, and_assoc]

/-- Keys assigned one after the other, all to the same value. -/
theorem find?_foldl_assign (m : OrderedMap κ β) (ks : List κ) (v : β) (x : κ) :
    (ks.foldl (fun m k => m.assign k v) m).find? x =
      if x ∈ ks then some v else m.find? x := by
  induction ks generalizing m with
  | nil => simp
  | cons k ks ih =>
    simp only [List.foldl_cons, ih, find?_assign, List.mem_cons]
    by_cases hx : x ∈ ks
    · simp [hx]
    · simp [hx]

end OrderedMap

end LyqtRpc
