import LyqtRpc.Lib.ByteMemory
import Mathlib.Data.List.DropRight

/-!
Sequences of bits regrouped into words of another width, most significant bit
first, and base64 over them.
-/

set_option autoImplicit false

namespace LyqtRpc.Base64

def bits : Nat → Nat → List Bool
  | 0, _ => []
  | w + 1, n => bits w (n / 2) ++ [decide (n % 2 = 1)]

def value (bs : List Bool) : Nat := bs.foldl (fun n b => 2 * n + b.toNat) 0

/-- The first `k` groups of `w` bits. -/
def groups (w : Nat) : Nat → List Bool → List (List Bool)
  | 0, _ => []
  | k + 1, bs => bs.take w :: groups w k (bs.drop w)

/-- Words of width `a` into words of width `b`; the last one is filled with zeros. -/
def zeroFill (a b : Nat) (xs : List Nat) : List Nat :=
  let bs := xs.flatMap (bits a)
  let k := (bs.length + b - 1) / b
  (groups b k (bs ++ List.replicate (k * b - bs.length) false)).map value

/-- Bits that are left over are discarded. -/
def discard (a b : Nat) (xs : List Nat) : List Nat :=
  let bs := xs.flatMap (bits a)
  (groups b (bs.length / b) bs).map value

section Regroup
variable {a b w k n : Nat} {bs : List Bool}

@[simp] theorem bits_length : (bits w n).length = w := by
  induction w generalizing n with
  | zero => rfl
  | succ w ih => simp [bits, ih]

theorem value_concat (bit : Bool) : value (bs ++ [bit]) = 2 * value bs + bit.toNat := by
  simp [value, List.foldl_append]

theorem value_bits : value (bits w n) = n % 2 ^ w := by
  induction w generalizing n with
  | zero => simp [bits, value, Nat.mod_one]
  | succ w ih =>
    have hbit : (decide (n % 2 = 1)).toNat = n % 2 := by
      cases Nat.mod_two_eq_zero_or_one n with
      | inl h => simp [h]
      | inr h => simp [h]
    rw [bits, value_concat, ih, hbit, Nat.pow_succ, Nat.mul_comm (2 ^ w) 2, Nat.mod_mul]
    omega

theorem bits_value : bits bs.length (value bs) = bs := by
  induction bs using List.reverseRecOn with
  | nil => rfl
  | append_singleton bs bit ih =>
    rw [List.length_append, List.length_singleton, bits, value_concat]
    have hhalf : (2 * value bs + bit.toNat) / 2 = value bs := by
      have hle := bit.toNat_le
      omega
    have hlast : decide ((2 * value bs + bit.toNat) % 2 = 1) = bit := by
      cases bit <;> simp
    rw [hhalf, ih, hlast]

theorem value_lt : value bs < 2 ^ bs.length := by
  rw [← @bits_value bs, value_bits, bits_length]
  exact Nat.mod_lt _ (Nat.two_pow_pos _)

theorem flatten_groups (h : bs.length = k * w) : (groups w k bs).flatten = bs := by
  induction k generalizing bs with
  | zero =>
    have hnil : bs = [] := by simpa using h
    simp [groups, hnil]
  | succ k ih =>
    have hrest : (bs.drop w).length = k * w := by
      rw [List.length_drop, h, Nat.add_mul]
      omega
    rw [groups, List.flatten_cons, ih hrest, List.take_append_drop]

theorem length_of_mem_groups (h : bs.length = k * w) {g : List Bool} (hg : g ∈ groups w k bs) :
    g.length = w := by
  induction k generalizing bs with
  | zero => simp [groups] at hg
  | succ k ih =>
    have hlen : w ≤ bs.length := by
      rw [h, Nat.add_mul]
      omega
    have hrest : (bs.drop w).length = k * w := by
      rw [List.length_drop, h, Nat.add_mul]
      omega
    simp only [groups, List.mem_cons] at hg
    cases hg with
    | inl heq => rw [heq, List.length_take, Nat.min_eq_left hlen]
    | inr hmem => exact ih hrest hmem

/-- Groups that were put together come apart again, whatever follows. -/
theorem groups_flatten {gs : List (List Bool)} (h : ∀ g ∈ gs, g.length = w)
    (rest : List Bool) : groups w gs.length (gs.flatten ++ rest) = gs := by
  induction gs with
  | nil => rfl
  | cons g gs ih =>
    have hg : g.length = w := h g (List.mem_cons_self ..)
    have hrest := ih (fun g' hg' => h g' (List.mem_cons_of_mem _ hg'))
    rw [List.length_cons, groups, List.flatten_cons, List.append_assoc,
      List.take_left' hg, List.drop_left' hg, hrest]

theorem flatMap_bits_length (xs : List Nat) : (xs.flatMap (bits a)).length = xs.length * a := by
  induction xs with
  | nil => simp
  | cons x xs ih =>
    rw [List.flatMap_cons, List.length_append, bits_length, ih, List.length_cons, Nat.add_mul]
    omega

/-- The bits of the words that groups of bits make up. -/
theorem flatMap_bits_value {gs : List (List Bool)} (h : ∀ g ∈ gs, g.length = w) :
    (gs.map value).flatMap (bits w) = gs.flatten := by
  induction gs with
  | nil => rfl
  | cons g gs ih =>
    have hg : bits w (value g) = g := by
      rw [← h g (List.mem_cons_self ..), bits_value]
    rw [List.map_cons, List.flatMap_cons, List.flatten_cons, hg,
      ih (fun g' hg' => h g' (List.mem_cons_of_mem _ hg'))]

/-- Filling up adds less than a word of bits. -/
theorem fill_bound (hb : 0 < b) (m : Nat) :
    m ≤ (m + b - 1) / b * b ∧ (m + b - 1) / b * b < m + b := by
  have hdiv := Nat.div_add_mod (m + b - 1) b
  have hmod := Nat.mod_lt (m + b - 1) hb
  rw [Nat.mul_comm] at hdiv
  omega

theorem zeroFill_lt (hb : 0 < b) {xs : List Nat} {v : Nat} (hv : v ∈ zeroFill a b xs) :
    v < 2 ^ b := by
  obtain ⟨g, hg, rfl⟩ := List.mem_map.mp hv
  have hlen : g.length = b := by
    apply length_of_mem_groups _ hg
    have hfill := fill_bound hb (xs.flatMap (bits a)).length
    rw [List.length_append, List.length_replicate]
    omega
  rw [← hlen]
  exact value_lt

/-- What filling up has added, discarding takes away again. -/
theorem discard_zeroFill (hb : 0 < b) (hba : b ≤ a) {xs : List Nat} (h : ∀ x ∈ xs, x < 2 ^ a) :
    discard b a (zeroFill a b xs) = xs := by
  let bs := xs.flatMap (bits a)
  let k := (bs.length + b - 1) / b
  let pad := List.replicate (k * b - bs.length) false
  have hlen : bs.length = xs.length * a := flatMap_bits_length xs
  have hfill : bs.length ≤ k * b ∧ k * b < bs.length + b := fill_bound hb bs.length
  have hfull : (bs ++ pad).length = k * b := by
    rw [List.length_append, List.length_replicate]
    omega
  have hback : (zeroFill a b xs).flatMap (bits b) = bs ++ pad := by
    rw [zeroFill, flatMap_bits_value fun g hg => length_of_mem_groups hfull hg,
      flatten_groups hfull]
  have hcount : (bs ++ pad).length / a = xs.length := by
    rw [hfull]
    apply Nat.div_eq_of_lt_le
    · rw [← hlen]
      exact hfill.1
    · rw [Nat.add_mul, ← hlen, Nat.one_mul]
      omega
  have hgroups : groups a xs.length (bs ++ pad) = xs.map (bits a) := by
    have hwords : ∀ g ∈ xs.map (bits a), g.length = a := by
      intro g hg
      obtain ⟨x, _, rfl⟩ := List.mem_map.mp hg
      exact bits_length
    have happart := groups_flatten hwords pad
    rw [List.length_map] at happart
    exact happart
  rw [discard, hback, hcount, hgroups, List.map_map]
  conv_rhs => rw [← List.map_id xs]
  apply List.map_congr_left
  intro x hx
  rw [Function.comp_apply, value_bits, Nat.mod_eq_of_lt (h x hx), id]

end Regroup

def alphabet : Bytes := str "ABCDEFGHIJKLMNOPQRSTUVWXYZabcdefghijklmnopqrstuvwxyz0123456789+/"

def toChar (v : Nat) : UInt8 := alphabet.getD v 0

def ofChar (c : UInt8) : Option Nat := alphabet.idxOf? c

/-- `=` -/
def padding : UInt8 := 61

def encode (s : Bytes) : Bytes :=
  let tmp := (zeroFill 8 6 (s.map UInt8.toNat)).map toChar
  tmp ++ List.replicate ((4 - tmp.length % 4) % 4) padding

/-- `none`: a character is not in the alphabet. -/
def decode (s : Bytes) : Option Bytes :=
  ((s.rdropWhile (fun c => c = padding)).mapM ofChar).map
    fun vs => (discard 6 8 vs).map UInt8.ofNat

theorem ofChar_toChar {v : Nat} (h : v < 64) : ofChar (toChar v) = some v := by
  have hall : ∀ v : Fin 64, ofChar (toChar v) = some v.val := by decide +kernel
  exact hall ⟨v, h⟩

theorem toChar_ne_padding {v : Nat} (h : v < 64) : toChar v ≠ padding := by
  have hall : ∀ v : Fin 64, toChar v ≠ padding := by decide +kernel
  exact hall ⟨v, h⟩

theorem mapM_ofChar {vs : List Nat} (h : ∀ v ∈ vs, v < 64) :
    (vs.map toChar).mapM ofChar = some vs := by
  induction vs with
  | nil => rfl
  | cons v vs ih =>
    have hv := ofChar_toChar (h v (List.mem_cons_self ..))
    have hrest := ih (fun u hu => h u (List.mem_cons_of_mem _ hu))
    rw [List.map_cons, List.mapM_cons, hv, hrest]
    rfl

/-- Only the padding is taken off. -/
theorem rdropWhile_padding {s : Bytes} (h : ∀ c ∈ s, c ≠ padding) (n : Nat) :
    (s ++ List.replicate n padding).rdropWhile (fun c => c = padding) = s := by
  induction n with
  | zero =>
    rw [List.replicate_zero, List.append_nil, List.rdropWhile_eq_self_iff]
    intro hne
    simpa using h _ (List.getLast_mem hne)
  | succ n ih =>
    rw [List.replicate_succ', ← List.append_assoc, List.rdropWhile_concat_pos _ _ _ (by simp), ih]

theorem decode_encode (s : Bytes) : decode (encode s) = some s := by
  have hsextets : ∀ v ∈ zeroFill 8 6 (s.map UInt8.toNat), v < 64 :=
    fun v hv => zeroFill_lt (by decide) hv
  have hchars : ∀ c ∈ (zeroFill 8 6 (s.map UInt8.toNat)).map toChar, c ≠ padding := by
    intro c hc
    obtain ⟨v, hv, rfl⟩ := List.mem_map.mp hc
    exact toChar_ne_padding (hsextets v hv)
  have hbytes : ∀ x ∈ s.map UInt8.toNat, x < 2 ^ 8 := by
    intro x hx
    obtain ⟨c, _, rfl⟩ := List.mem_map.mp hx
    exact c.toNat_lt
  rw [decode, encode, rdropWhile_padding hchars, mapM_ofChar hsextets, Option.map_some,
    discard_zeroFill (by decide) (by decide) hbytes, List.map_map]
  simp [Function.comp_def]

end LyqtRpc.Base64
