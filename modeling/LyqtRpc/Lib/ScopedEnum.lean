import Mathlib.Data.List.Basic

/-!
Scoped enumerations with a fixed underlying `int`. A `static_cast` from an
integer that names no enumerator is not an error: it yields a value that
compares unequal to every enumerator and casts back to the same integer.
-/

set_option autoImplicit false

namespace LyqtRpc

/-- The enumerators of an enumeration and their codes. -/
class ScopedEnum (E : Type) where
  all : List E
  mem_all : ∀ e, e ∈ all
  code : E → Int32
  code_injective : ∀ e e', code e = code e' → e = e'

namespace ScopedEnum
variable {E : Type} [ScopedEnum E]

def named (c : Int32) : Option E := all.find? (fun e => decide (code e = c))

theorem code_of_named {c : Int32} {e : E} (h : named c = some e) : code e = c := by
  have hp := List.find?_some h
  simpa using hp

theorem named_code (e : E) : named (code e) = some e := by
  cases h : (named (code e) : Option E) with
  | none =>
    have hn := List.find?_eq_none.mp h e (mem_all e)
    simp at hn
  | some e' => rw [code_injective _ _ (code_of_named h)]

end ScopedEnum

open ScopedEnum

/-- What a variable of the enumeration can hold. -/
inductive EnumValue (E : Type) [ScopedEnum E] where
  | named (e : E)
  | unnamed (c : Int32) (h : (ScopedEnum.named c : Option E) = none)

namespace EnumValue
variable {E : Type} [ScopedEnum E]

def toInt32 : EnumValue E → Int32
  | .named e => code e
  | .unnamed c _ => c

def ofInt32 (c : Int32) : EnumValue E :=
  match h : (ScopedEnum.named c : Option E) with
  | some e => .named e
  | none => .unnamed c h

@[simp] theorem toInt32_ofInt32 (c : Int32) : (ofInt32 c : EnumValue E).toInt32 = c := by
  unfold ofInt32
  split
  · rename_i e h
    exact code_of_named h
  · rfl

theorem toInt32_injective {v w : EnumValue E} (h : v.toInt32 = w.toInt32) : v = w := by
  cases v with
  | named e =>
    cases w with
    | named e' => rw [code_injective e e' h]
    | unnamed c hc =>
      have hn := named_code e
      rw [show code e = c from h, hc] at hn
      cases hn
  | unnamed c hc =>
    cases w with
    | named e =>
      have hn := named_code e
      rw [← show c = code e from h, hc] at hn
      cases hn
    | unnamed c' hc' =>
      cases show c = c' from h
      rfl

@[simp] theorem ofInt32_toInt32 (v : EnumValue E) : ofInt32 v.toInt32 = v :=
  toInt32_injective (toInt32_ofInt32 _)

instance : DecidableEq (EnumValue E) := fun v w =>
  decidable_of_iff (v.toInt32 = w.toInt32) ⟨toInt32_injective, congrArg toInt32⟩

end EnumValue

end LyqtRpc
