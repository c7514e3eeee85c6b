import LyqtRpc.Lib.ByteText
import Mathlib.Data.List.AList
import Mathlib.Data.List.Induction

/-!
`HttpRouter`: one table keyed by the method and the path in one string, and a list of
prefixes. `dispatch` against the registrations themselves.
-/

set_option autoImplicit false

namespace LyqtRpc

variable {H : Type}

structure RouteRule (H : Type) where
  method : Bytes
  path : Bytes
  is_prefix : Bool
  handler : H

structure HttpRouter (H : Type) where
  exact : AList (fun _ : Bytes => H) := ∅
  prefixes : List (RouteRule H) := []

namespace HttpRouter

def key (method path : Bytes) : Bytes := method ++ 32 :: path

def addRoute (r : HttpRouter H) (method path : Bytes) (handler : H) : HttpRouter H :=
  { r with exact := r.exact.insert (key method path) handler }

def addPrefixRoute (r : HttpRouter H) (method path : Bytes) (handler : H) : HttpRouter H :=
  { r with prefixes := r.prefixes ++ [⟨method, path, true, handler⟩] }

def dispatch (r : HttpRouter H) (method path : Bytes) : Option H :=
  match r.exact.lookup (key method path) with
  | some handler => some handler
  | none =>
    (r.prefixes.find? fun rule =>
      decide (rule.method = method) && rule.path.isPrefixOf path).map (·.handler)

end HttpRouter

/-! The table as the registrations say it. -/

inductive Registration (H : Type) where
  | addRoute (method path : Bytes) (handler : H)
  | addPrefixRoute (method path : Bytes) (handler : H)

namespace Registration

def apply (r : HttpRouter H) : Registration H → HttpRouter H
  | .addRoute method path handler => r.addRoute method path handler
  | .addPrefixRoute method path handler => r.addPrefixRoute method path handler

/-- Without a blank, as the method of every request that the server has parsed. -/
def Parsable : Registration H → Prop
  | .addRoute method _ _ => 32 ∉ method
  | .addPrefixRoute _ _ _ => True

/-- The handler it gives to this very path. -/
def exactly (method path : Bytes) : Registration H → Option H
  | .addRoute m p handler => if m = method ∧ p = path then some handler else none
  | .addPrefixRoute _ _ _ => none

/-- The handler it gives to a path that starts like this. -/
def starting (method path : Bytes) : Registration H → Option H
  | .addRoute _ _ _ => none
  | .addPrefixRoute m p handler => if m = method ∧ p <+: path then some handler else none

end Registration

open Registration

def HttpRouter.build (regs : List (Registration H)) : HttpRouter H :=
  regs.foldl Registration.apply {}

/-- The last registration of the path itself, and the first of a prefix of it. -/
def routeOf (regs : List (Registration H)) (method path : Bytes) : Option H :=
  (regs.reverse.findSome? (exactly method path)).or (regs.findSome? (starting method path))

namespace HttpRouter

variable {regs : List (Registration H)} {method path : Bytes}

theorem key_inj {m p : Bytes} (hm : 32 ∉ m) (hmethod : 32 ∉ method) :
    key m p = key method path ↔ m = method ∧ p = path := by
  constructor
  · exact fun h => split_first hm hmethod h
  · intro h
    rw [h.1, h.2]

theorem build_concat (reg : Registration H) : build (regs ++ [reg]) = reg.apply (build regs) := by
  rw [build, List.foldl_append]
  rfl

theorem lookup_build (hregs : ∀ reg ∈ regs, reg.Parsable) (hmethod : 32 ∉ method) :
    (build regs).exact.lookup (key method path) = regs.reverse.findSome? (exactly method path) := by
  induction regs using List.reverseRecOn with
  | nil => rfl
  | append_singleton regs reg ih =>
    have hreg := hregs reg (List.mem_append_right _ (List.mem_singleton_self reg))
    have hrest := ih fun r hr => hregs r (List.mem_append_left _ hr)
    rw [build_concat, List.reverse_append, List.reverse_singleton, List.singleton_append,
      List.findSome?_cons]
    cases reg with
    | addPrefixRoute m p handler => exact hrest
    | addRoute m p handler =>
      by_cases hsame : m = method ∧ p = path
      · simp only [apply, addRoute, exactly, if_pos hsame]
        rw [hsame.1, hsame.2, AList.lookup_insert]
      · have hkey : key method path ≠ key m p := fun h => hsame ((key_inj hreg hmethod).mp h.symm)
        simp only [apply, addRoute, exactly, if_neg hsame]
        rw [AList.lookup_insert_ne hkey, hrest]

theorem find_build :
    ((build regs).prefixes.find? fun rule =>
      decide (rule.method = method) && rule.path.isPrefixOf path).map (·.handler) =
      regs.findSome? (starting method path) := by
  induction regs using List.reverseRecOn with
  | nil => rfl
  | append_singleton regs reg ih =>
    rw [build_concat, List.findSome?_append, ← ih]
    cases reg with
    | addRoute m p handler =>
      simp only [apply, addRoute, List.findSome?_singleton, starting, Option.or_none]
    | addPrefixRoute m p handler =>
      simp only [apply, addPrefixRoute, List.find?_append, List.findSome?_singleton, starting,
        Option.map_or, List.find?_singleton, Bool.and_eq_true, decide_eq_true_eq,
        List.isPrefixOf_iff_prefix]
      split <;> rfl

end HttpRouter

open HttpRouter in
/-- For a method without a blank the string keys answer as the registrations do. -/
theorem dispatch_build {regs : List (Registration H)} (hregs : ∀ reg ∈ regs, reg.Parsable)
    {method path : Bytes} (hmethod : 32 ∉ method) :
    (build regs).dispatch method path = routeOf regs method path := by
  rw [dispatch, lookup_build hregs hmethod, find_build, routeOf]
  cases regs.reverse.findSome? (exactly method path) <;> rfl

end LyqtRpc
