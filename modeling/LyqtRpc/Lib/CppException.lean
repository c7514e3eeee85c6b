import LyqtRpc.Lib.ByteMemory

/-!
Calls that return a value or let an exception through.
-/

set_option autoImplicit false

namespace LyqtRpc

/-- An exception in flight. -/
inductive CppException where
  | jsonLogicError
  | other (what : Bytes)
  deriving DecidableEq, Repr

variable {ε α β : Type}

/-- The call does not throw. -/
def Returns (x : Except ε α) : Prop := ∃ a, x = .ok a

@[simp] theorem returns_ok (a : α) : Returns (.ok a : Except ε α) := ⟨a, rfl⟩

@[simp] theorem returns_pure (a : α) : Returns (pure a : Except ε α) := ⟨a, rfl⟩

@[simp] theorem not_returns_error (e : ε) : ¬ Returns (.error e : Except ε α) := by
  rintro ⟨_, h⟩
  cases h

theorem bind_eq_ok {x : Except ε α} {f : α → Except ε β} {b : β} :
    x >>= f = .ok b ↔ ∃ a, x = .ok a ∧ f a = .ok b := by
  cases x with
  | error e =>
      constructor
      · intro h
        cases h
      · rintro ⟨a, h, _⟩
        cases h
  | ok a =>
      constructor
      · exact fun h => ⟨a, rfl, h⟩
      · rintro ⟨a', h, hf⟩
        cases h
        exact hf

theorem returns_bind {x : Except ε α} {f : α → Except ε β} :
    Returns (x >>= f) ↔ ∃ a, x = .ok a ∧ Returns (f a) := by
  constructor
  · rintro ⟨b, h⟩
    obtain ⟨a, hx, hf⟩ := bind_eq_ok.mp h
    exact ⟨a, hx, b, hf⟩
  · rintro ⟨a, rfl, hf⟩
    exact hf

/-- Whatever a loop of calls has collected, one of the calls has returned. -/
theorem exists_of_mem_mapM {f : α → Except ε β} {xs : List α} {ys : List β}
    (h : xs.mapM f = .ok ys) {y : β} (hy : y ∈ ys) : ∃ x ∈ xs, f x = .ok y := by
  induction xs generalizing ys with
  | nil =>
      cases h
      cases hy
  | cons x xs ih =>
      rw [List.mapM_cons] at h
      obtain ⟨first, hfirst, h⟩ := bind_eq_ok.mp h
      obtain ⟨rest, hrest, h⟩ := bind_eq_ok.mp h
      cases h
      cases List.mem_cons.mp hy with
      | inl heq => exact ⟨x, List.mem_cons_self .., heq ▸ hfirst⟩
      | inr hy =>
          obtain ⟨x', hx', hf⟩ := ih hrest hy
          exact ⟨x', List.mem_cons_of_mem _ hx', hf⟩

/-- Only the first call can throw. -/
theorem returns_bind_of {x : Except ε α} {f : α → Except ε β} (hf : ∀ a, Returns (f a)) :
    Returns (x >>= f) ↔ Returns x := by
  rw [returns_bind]
  constructor
  · rintro ⟨a, hx, _⟩
    exact ⟨a, hx⟩
  · rintro ⟨a, hx⟩
    exact ⟨a, hx, hf a⟩

@[simp] theorem pure_eq_ok {a b : α} : (pure a : Except ε α) = .ok b ↔ a = b := by
  constructor
  · intro h
    cases h
    rfl
  · rintro rfl
    rfl

@[simp] theorem error_bind (e : ε) (f : α → Except ε β) :
    (.error e : Except ε α) >>= f = .error e := rfl

@[simp] theorem ok_bind (a : α) (f : α → Except ε β) : (.ok a : Except ε α) >>= f = f a := rfl

@[simp] theorem returns_map {x : Except ε α} {f : α → β} : Returns (f <$> x) ↔ Returns x := by
  cases x with
  | error e => simp [Functor.map, Except.map]
  | ok a => simp [Functor.map, Except.map]

theorem map_eq_ok {x : Except ε α} {f : α → β} {b : β} :
    f <$> x = .ok b ↔ ∃ a, x = .ok a ∧ f a = b := by
  cases x <;> simp [Functor.map, Except.map]

/-- A check that throws where it fails. -/
@[simp] theorem returns_ite {p : Prop} [Decidable p] {a : α} {e : ε} :
    Returns (if p then .ok a else .error e : Except ε α) ↔ p := by
  by_cases h : p <;> simp [h]

end LyqtRpc
