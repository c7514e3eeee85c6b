import Mathlib.Data.Nat.ModEq

/-!
Counters kept in unsigned 64-bit words, next to the counters that never wrap:
a word is the counter modulo `2 ^ 64`. Differences survive the reduction as
long as they fit a word; remainders survive it for divisors of `2 ^ 64`.
-/

set_option autoImplicit false

namespace LyqtRpc.Word64

def word (n : Nat) : Nat := n % 2 ^ 64

def add (a b : Nat) : Nat := (a + b) % 2 ^ 64

def sub (a b : Nat) : Nat := (a + 2 ^ 64 - b) % 2 ^ 64

theorem word_of_lt {n : Nat} (h : n < 2 ^ 64) : word n = n := Nat.mod_eq_of_lt h

@[simp] theorem word_zero : word 0 = 0 := rfl

theorem add_word (a b : Nat) : add (word a) b = word (a + b) := by
  unfold add word
  omega

theorem sub_word {a b : Nat} (hle : b ≤ a) (hlt : a - b < 2 ^ 64) :
    sub (word a) (word b) = a - b := by
  unfold sub word
  omega

theorem sub_of_le {a b : Nat} (hle : b ≤ a) (hlt : a < 2 ^ 64) : sub a b = a - b := by
  unfold sub
  omega

theorem add_lt (a b : Nat) : add a b < 2 ^ 64 := Nat.mod_lt _ (by decide)

theorem sub_self_eq_zero {a b : Nat} (ha : a < 2 ^ 64) (hb : b < 2 ^ 64) :
    sub a b = 0 ↔ a = b := by
  unfold sub
  omega

/-- A step that stays within the distance shortens it. -/
theorem sub_add_of_le {w p k : Nat} (hp : p < 2 ^ 64) (h : k ≤ sub w p) :
    sub w (add p k) = sub w p - k := by
  unfold sub add at *
  omega

/-- A longer one leads almost a lap away. -/
theorem sub_add_of_lt {w p k : Nat} (hw : w < 2 ^ 64) (hp : p < 2 ^ 64) (h : sub w p < k)
    (hk : k < 2 ^ 64) : sub w (add p k) = sub w p + (2 ^ 64 - k) := by
  unfold sub add at *
  omega

/-- A step is within the distance exactly if the distance does not grow. -/
theorem sub_add_le_iff {w p k : Nat} (hw : w < 2 ^ 64) (hp : p < 2 ^ 64) (hk : k < 2 ^ 64) :
    sub w (add p k) ≤ sub w p ↔ k ≤ sub w p := by
  unfold sub add
  omega

/-- Two counters less than a lap apart are equal when their words are. -/
theorem word_inj {a b : Nat} (hle : b ≤ a) (hlt : a < b + 2 ^ 64) :
    word a = word b ↔ a = b := by
  unfold word
  omega

/-- The remainder of a counter can be taken from its word. -/
theorem word_mod {n d : Nat} (h : n < 2 ^ 64 ∨ d ∣ 2 ^ 64) : word n % d = n % d := by
  rcases h with hlt | hdvd
  · rw [word_of_lt hlt]
  · exact Nat.mod_mod_of_dvd n hdvd

end LyqtRpc.Word64
