import Mathlib.Algebra.Group.Int.Defs
import Mathlib.Algebra.Group.Nat.Defs
import Mathlib.Data.List.Basic

/-!
Byte strings, fixed-width words in either byte order, and a byte-addressed
memory with block loads and stores.
-/

set_option autoImplicit false

namespace LyqtRpc

abbrev Bytes := List UInt8

instance Bytes.lawfulBEq : LawfulBEq Bytes := inferInstance

/-- The bytes of an ASCII literal. -/
def str (s : String) : Bytes := s.toList.map (fun c => UInt8.ofNat c.toNat)

/-- Least significant byte first, `k` bytes, higher digits dropped. -/
def leBytes : Nat → Nat → Bytes
  | 0, _ => []
  | k+1, n => UInt8.ofNat n :: leBytes k (n / 256)

def ofLe : Bytes → Nat
  | [] => 0
  | b :: bs => b.toNat + 256 * ofLe bs

@[simp] theorem leBytes_length (k n : Nat) : (leBytes k n).length = k := by
  induction k generalizing n with
  | zero => rfl
  | succ k ih => simp [leBytes, ih]

theorem ofLe_leBytes (k n : Nat) : ofLe (leBytes k n) = n % 256 ^ k := by
  induction k generalizing n with
  | zero => simp [leBytes, ofLe, Nat.mod_one]
  | succ k ih =>
    have h : (UInt8.ofNat n).toNat = n % 256 := by simp
    simp only [leBytes, ofLe, ih, h]
    rw [Nat.pow_succ, Nat.mul_comm (256 ^ k) 256, Nat.mod_mul]

theorem ofLe_leBytes_of_lt {k n : Nat} (h : n < 256 ^ k) : ofLe (leBytes k n) = n := by
  rw [ofLe_leBytes, Nat.mod_eq_of_lt h]

/-- Network byte order. -/
def beBytes (k n : Nat) : Bytes := (leBytes k n).reverse

def ofBe (bs : Bytes) : Nat := ofLe bs.reverse

@[simp] theorem beBytes_length (k n : Nat) : (beBytes k n).length = k := by simp [beBytes]

theorem ofBe_beBytes_of_lt {k n : Nat} (h : n < 256 ^ k) : ofBe (beBytes k n) = n := by
  simp [ofBe, beBytes, ofLe_leBytes_of_lt h]

/-- An `int32_t` as the unsigned word with the same bits. -/
def Int32.word (x : Int32) : Nat := x.toBitVec.toNat

def Int32.ofWord (n : Nat) : Int32 := .ofBitVec (BitVec.ofNat 32 n)

theorem Int32.word_lt (x : Int32) : Int32.word x < 256 ^ 4 := x.toBitVec.isLt

@[simp] theorem Int32.ofWord_word (x : Int32) : Int32.ofWord (Int32.word x) = x := by
  simp [Int32.ofWord, Int32.word]

theorem Int32.ofWord_add (a b : Nat) :
    Int32.ofWord (a + b) = Int32.ofWord a + Int32.ofWord b := by
  apply Int32.toBitVec_inj.mp
  simp [Int32.ofWord, BitVec.ofNat_add]

theorem Int32.toInt_ofWord {n : Nat} (h : n < 2 ^ 31) : (Int32.ofWord n).toInt = n := by
  show (BitVec.ofNat 32 n).toInt = n
  have hn : (BitVec.ofNat 32 n).toNat = n := by
    simp
    omega
  rw [BitVec.toInt_eq_toNat_of_lt, hn]
  omega

/-- Byte-addressed memory, unbounded: bounds are facts proved about the accesses. -/
abbrev Memory := Nat → UInt8

namespace Memory

def store (m : Memory) (off : Nat) (bs : Bytes) : Memory := fun i =>
  if off ≤ i then (bs[i - off]?).getD (m i) else m i

def load (m : Memory) (off n : Nat) : Bytes := (List.range n).map (fun i => m (off + i))

@[simp] theorem load_length (m : Memory) (off n : Nat) : (m.load off n).length = n := by
  simp [load]

theorem load_append (m : Memory) (off a b : Nat) :
    m.load off (a + b) = m.load off a ++ m.load (off + a) b := by
  simp [load, List.range_add, Nat.add_assoc]

theorem store_outside (m : Memory) {off i : Nat} {bs : Bytes}
    (h : i < off ∨ off + bs.length ≤ i) : m.store off bs i = m i := by
  unfold store
  split
  · rw [List.getElem?_eq_none (by omega)]; rfl
  · rfl

theorem store_inside (m : Memory) {off i : Nat} {bs : Bytes} (h : i < bs.length) :
    m.store off bs (off + i) = bs[i] := by
  unfold store
  rw [if_pos (by omega), Nat.add_sub_cancel_left, List.getElem?_eq_getElem h]
  rfl

theorem store_comm (m : Memory) {a b : Nat} {xs ys : Bytes} (h : a + xs.length ≤ b) :
    (m.store a xs).store b ys = (m.store b ys).store a xs := by
  funext i
  by_cases hi : b ≤ i
  · have hx : xs[i - a]? = none := List.getElem?_eq_none (by omega)
    simp [store, hi, hx]
  · simp [store, hi]

theorem load_congr {m m' : Memory} {off n : Nat}
    (h : ∀ i, off ≤ i → i < off + n → m i = m' i) : m.load off n = m'.load off n := by
  unfold load
  apply List.map_congr_left
  intro i hi
  have hlt : i < n := List.mem_range.mp hi
  exact h _ (by omega) (by omega)

theorem load_store (m : Memory) (off : Nat) (bs : Bytes) :
    (m.store off bs).load off bs.length = bs := by
  apply List.ext_getElem
  · simp
  · intro i h₁ h₂
    simp only [load, List.getElem_map, List.getElem_range]
    exact m.store_inside h₂

theorem load_store_disjoint (m : Memory) {off n o : Nat} {bs : Bytes}
    (h : off + n ≤ o ∨ o + bs.length ≤ off) :
    (m.store o bs).load off n = m.load off n :=
  load_congr (fun _ _ _ => m.store_outside (by omega))

end Memory

end LyqtRpc
