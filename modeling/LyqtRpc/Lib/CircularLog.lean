import LyqtRpc.Lib.ByteMemory
import Mathlib.Data.Nat.ModEq

/-!
Records in a circular byte region. Positions grow without bound; position `p`
lives at byte `p % ds`. A record never straddles the end of the region: where
the tail is too short for one, a mark says that the tail is to be skipped.
-/

set_option autoImplicit false

namespace LyqtRpc.CircularLog

theorem mod_ne {ds p q : Nat} (hpq : p < q) (hq : q < p + ds) : p % ds ≠ q % ds := by
  intro h
  have h0 : (q - p) % ds = 0 := Nat.sub_mod_eq_zero_of_mod_eq h.symm
  rw [Nat.mod_eq_of_lt (by omega)] at h0
  omega

theorem add_mod_fits {ds q i : Nat} (h : q % ds + i < ds) : (q + i) % ds = q % ds + i := by
  rw [Nat.add_mod, Nat.mod_eq_of_lt (by omega : i < ds), Nat.mod_eq_of_lt h]

/-- The end of the region, as a position, starts the region again. -/
theorem wrap_mod {ds w : Nat} (hds : 0 < ds) : (w + (ds - w % ds)) % ds = 0 := by
  have hlt := Nat.mod_lt w hds
  have hd := Nat.div_add_mod w ds
  have he : w + (ds - w % ds) = ds * (w / ds + 1) := by
    rw [Nat.mul_succ]
    omega
  rw [he, Nat.mul_mod_right]

/-- `m` and `m'` hold the same bytes at the positions from `a` up to `b`. -/
def Agree (ds a b : Nat) (m m' : Memory) : Prop :=
  ∀ p, a ≤ p → p < b → m (p % ds) = m' (p % ds)

theorem Agree.refl (ds a b : Nat) (m : Memory) : Agree ds a b m m := fun _ _ _ => rfl

theorem Agree.mono {ds a b a' b' : Nat} {m m' : Memory} (h : Agree ds a b m m')
    (ha : a ≤ a') (hb : b' ≤ b) : Agree ds a' b' m m' :=
  fun p h1 h2 => h p (by omega) (by omega)

theorem Agree.load {ds a b n : Nat} {m m' : Memory} (h : Agree ds a b m m')
    (hfit : a % ds + n ≤ ds) (hn : a + n ≤ b) :
    m.load (a % ds) n = m'.load (a % ds) n := by
  apply Memory.load_congr
  intro i hi hlt
  have hp := h (a + (i - a % ds)) (by omega) (by omega)
  rw [add_mod_fits (by omega)] at hp
  have hi' : a % ds + (i - a % ds) = i := by omega
  rwa [hi'] at hp

/-- A store `d` bytes into the run of bytes that starts at position `p`, above
the occupied positions and below their next lap, leaves them alone. -/
theorem agree_store {ds r w p d : Nat} {m : Memory} {bs : Bytes}
    (hfit : p % ds + d + bs.length ≤ ds) (hw : w ≤ p + d)
    (hp : p + d + bs.length ≤ r + ds) : Agree ds r w m (m.store (p % ds + d) bs) := by
  intro q hr hlt
  by_cases hin : p % ds + d ≤ q % ds ∧ q % ds < p % ds + d + bs.length
  · obtain ⟨h1, h2⟩ := hin
    have hfits : p % ds + (q % ds - p % ds) < ds := by omega
    have hmod := add_mod_fits hfits
    have hne : q % ds ≠ (p + (q % ds - p % ds)) % ds := mod_ne (by omega) (by omega)
    omega
  · rw [Memory.store_outside]
    omega

/-- How records look in memory, and the mark of a skipped tail. -/
structure Format (F : Type) where
  encode : F → Bytes
  mark : Bytes

namespace Format
variable {F : Type} (fmt : Format F)

def size (f : F) : Nat := (fmt.encode f).length

def RecordAt (m : Memory) (off : Nat) (f : F) : Prop :=
  m.load off (fmt.size f) = fmt.encode f

/-- The tail from `a` to the end of the region is to be skipped: it is shorter
than the mark, or it starts with the mark. -/
def SkipAt (m : Memory) (ds a : Nat) : Prop :=
  ds - a % ds < fmt.mark.length ∨ m.load (a % ds) fmt.mark.length = fmt.mark

/-- The positions from `a` to `b` hold exactly the records of a list, in order. -/
inductive Log (m : Memory) (ds : Nat) : Nat → Nat → List F → Prop where
  | nil (a : Nat) : Log m ds a a []
  | record {a b : Nat} {f : F} {fs : List F} :
      a % ds + fmt.size f ≤ ds → fmt.RecordAt m (a % ds) f →
      Log m ds (a + fmt.size f) b fs → Log m ds a b (f :: fs)
  | skip {a b : Nat} {f : F} {fs : List F} :
      fmt.SkipAt m ds a → Log m ds (a + (ds - a % ds)) b (f :: fs) →
      Log m ds a b (f :: fs)

variable {fmt}
variable {m m' : Memory} {ds a b : Nat} {f : F} {fs : List F}

theorem Log.le (h : fmt.Log m ds a b fs) : a ≤ b := by
  induction h with
  | nil => exact Nat.le_refl _
  | record _ _ _ ih => omega
  | skip _ _ ih => omega

theorem SkipAt.congr (hds : 0 < ds) (h : fmt.SkipAt m ds a)
    (hm : Agree ds a (a + (ds - a % ds)) m m') : fmt.SkipAt m' ds a := by
  have hlt := Nat.mod_lt a hds
  rcases h with h | h
  · exact .inl h
  · by_cases hlt : ds - a % ds < fmt.mark.length
    · exact .inl hlt
    · right
      rw [← hm.load (by omega) (by omega), h]

/-- Memory outside the occupied positions does not matter. -/
theorem Log.congr (hds : 0 < ds) (h : fmt.Log m ds a b fs) (hm : Agree ds a b m m') :
    fmt.Log m' ds a b fs := by
  induction h with
  | nil => exact .nil _
  | record hfit hrec htail ih =>
    have hle := htail.le
    refine .record hfit ?_ (ih (hm.mono (by omega) (Nat.le_refl _)))
    unfold RecordAt at hrec ⊢
    rw [← hm.load hfit hle, hrec]
  | skip hskip htail ih =>
    have hle := htail.le
    exact .skip (hskip.congr hds (hm.mono (Nat.le_refl _) hle))
      (ih (hm.mono (by omega) (Nat.le_refl _)))

theorem Log.snoc (h : fmt.Log m ds a b fs) (hfit : b % ds + fmt.size f ≤ ds)
    (hrec : fmt.RecordAt m (b % ds) f) : fmt.Log m ds a (b + fmt.size f) (fs ++ [f]) := by
  induction h with
  | nil a => exact .record hfit hrec (.nil _)
  | record hfit' hrec' _ ih => exact .record hfit' hrec' (ih hfit hrec)
  | skip hskip _ ih => exact .skip hskip (ih hfit hrec)

theorem Log.snoc_skip (h : fmt.Log m ds a b fs) (hskip : fmt.SkipAt m ds b)
    (hfit : (b + (ds - b % ds)) % ds + fmt.size f ≤ ds)
    (hrec : fmt.RecordAt m ((b + (ds - b % ds)) % ds) f) :
    fmt.Log m ds a (b + (ds - b % ds) + fmt.size f) (fs ++ [f]) := by
  induction h with
  | nil a => exact .skip hskip (.record hfit hrec (.nil _))
  | record hfit' hrec' _ ih => exact .record hfit' hrec' (ih hskip hfit hrec)
  | skip hskip' _ ih => exact .skip hskip' (ih hskip hfit hrec)

/-- What a reader standing before the end of a log finds. -/
theorem Log.head (h : fmt.Log m ds a b fs) (hlt : a < b) :
    (∃ f rest, fs = f :: rest ∧ a % ds + fmt.size f ≤ ds ∧ fmt.RecordAt m (a % ds) f ∧
      fmt.Log m ds (a + fmt.size f) b rest) ∨
    (fmt.SkipAt m ds a ∧ fmt.Log m ds (a + (ds - a % ds)) b fs) := by
  cases h with
  | nil => exact absurd hlt (Nat.lt_irrefl _)
  | @record _ _ f fs hfit hrec htail => exact .inl ⟨f, fs, rfl, hfit, hrec, htail⟩
  | skip hskip htail => exact .inr ⟨hskip, htail⟩

theorem Log.eq_nil (h : fmt.Log m ds a a fs) (hpos : ∀ f, 0 < fmt.size f) (hds : 0 < ds) :
    fs = [] := by
  have hmod := Nat.mod_lt a hds
  cases h with
  | nil => rfl
  | @record _ _ f _ _ _ htail =>
    have hle := htail.le
    have hp := hpos f
    omega
  | skip _ htail =>
    have hle := htail.le
    omega

end Format

end LyqtRpc.CircularLog
