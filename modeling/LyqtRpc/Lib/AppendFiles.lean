import Mathlib.Data.List.Nodup

/-!
Files that are opened for appending: names with contents, in the order in which
the files were created.
-/

set_option autoImplicit false

namespace LyqtRpc.AppendFiles

variable {κ β : Type}

/-- All that was written, in the order of creation. -/
def contents (files : List (κ × List β)) : List β := files.flatMap Prod.snd

theorem contents_append_last (files : List (κ × List β)) (name : κ) (old : List β) :
    contents (files ++ [(name, old)]) = contents files ++ old := by
  simp [contents]

variable [DecidableEq κ]

/-- A file of that name is kept as it is. -/
def openApp (name : κ) (files : List (κ × List β)) : List (κ × List β) :=
  if name ∈ files.map Prod.fst then files else files ++ [(name, [])]

def write (name : κ) (data : List β) (files : List (κ × List β)) : List (κ × List β) :=
  files.map fun f => if f.1 = name then (f.1, f.2 ++ data) else f

theorem openApp_fresh {name : κ} {files : List (κ × List β)} (h : name ∉ files.map Prod.fst) :
    openApp name files = files ++ [(name, [])] := if_neg h

theorem write_of_not_mem {name : κ} {files : List (κ × List β)} (h : name ∉ files.map Prod.fst)
    (data : List β) : write name data files = files := by
  induction files with
  | nil => rfl
  | cons f files ih =>
    simp only [List.map_cons, List.mem_cons, not_or] at h
    have htail := ih h.2
    unfold write at htail ⊢
    rw [List.map_cons, if_neg (Ne.symm h.1), htail]

theorem write_last {name : κ} {files : List (κ × List β)} (h : name ∉ files.map Prod.fst)
    (old data : List β) :
    write name data (files ++ [(name, old)]) = files ++ [(name, old ++ data)] := by
  have hfront := write_of_not_mem h data
  unfold write at hfront ⊢
  rw [List.map_append, hfront]
  simp

end LyqtRpc.AppendFiles
