import LyqtRpc.Lib.StepRun
import Mathlib.Data.List.Basic
import Mathlib.Logic.Function.Basic

/-!
A table of shared objects that are made on demand. Under the lock one looks the key up;
without it one makes an object; under the lock one looks again, and whoever comes too late
gives up what was made. What is under a key may be taken out at any time.
-/

set_option autoImplicit false

namespace LyqtRpc.DoubleChecked

open StepRun

variable {K : Type}

inductive Pc (K : Type) where
  | idle
  | find (key : K)
  | make (key : K)
  | insert (key : K) (n : Nat)
  /-- `other` was there first, in `round`. -/
  | giveUp (key : K) (n other round : Nat)
  deriving DecidableEq, Repr

/-- Where an object is. -/
inductive Place where
  /-- A thread has made it. -/
  | hand (i : Nat)
  /-- It was put into the table in this round. -/
  | kept (round : Nat)
  | givenUp
  deriving DecidableEq, Repr

structure Object (K : Type) where
  key : K
  place : Place
  deriving DecidableEq, Repr

/-- What a call returned. -/
structure Got (K : Type) where
  key : K
  object : Nat
  round : Nat
  deriving DecidableEq, Repr

/-- `round` counts how often the key was taken out; it, `objects` and `returned` are
histories that no step reads. -/
structure Cache (K : Type) where
  table : K → Option Nat := fun _ => none
  fresh : Nat := 0
  threads : Nat → Pc K := fun _ => .idle
  objects : Nat → Option (Object K) := fun _ => none
  round : K → Nat := fun _ => 0
  returned : List (Got K) := []

inductive Act (K : Type) where
  | get (i : Nat) (key : K)
  | run (i : Nat)
  | erase (key : K)

namespace Cache

def setPc (s : Cache K) (i : Nat) (pc : Pc K) : Cache K :=
  { s with threads := Function.update s.threads i pc }

def setObject (s : Cache K) (n : Nat) (key : K) (place : Place) : Cache K :=
  { s with objects := Function.update s.objects n (some ⟨key, place⟩) }

/-- The call of thread `i` returns. -/
def yield (s : Cache K) (i : Nat) (got : Got K) : Cache K :=
  { s with returned := s.returned ++ [got] }.setPc i .idle

def step [DecidableEq K] (s : Cache K) : Act K → Option (Cache K)
  | .get i key =>
    match s.threads i with
    | .idle => some (s.setPc i (.find key))
    | _ => none
  | .run i =>
    match s.threads i with
    | .idle => none
    | .find key =>
      match s.table key with
      | some n => some (s.yield i ⟨key, n, s.round key⟩)
      | none => some (s.setPc i (.make key))
    | .make key =>
      some (({ s with fresh := s.fresh + 1 }.setObject s.fresh key (.hand i)).setPc i
        (.insert key s.fresh))
    | .insert key n =>
      match s.table key with
      | some other => some (s.setPc i (.giveUp key n other (s.round key)))
      | none =>
        some (({ s with table := Function.update s.table key (some n) }.setObject n key
          (.kept (s.round key))).yield i ⟨key, n, s.round key⟩)
    | .giveUp key n other round => some ((s.setObject n key .givenUp).yield i ⟨key, other, round⟩)
  | .erase key =>
    some { s with
      table := Function.update s.table key none
      round := Function.update s.round key (s.round key + 1) }

end Cache

/-- What is under a key stays there until it is taken out. -/
theorem Cache.step_table [DecidableEq K] {s t : Cache K} {a : Act K} {key : K} {n : Nat}
    (hstep : s.step a = some t) (ha : a ≠ .erase key) (hn : s.table key = some n) :
    t.table key = some n ∧ t.round key = s.round key := by
  cases a with
  | get i k =>
    simp only [Cache.step] at hstep
    split at hstep <;> cases hstep
    exact ⟨hn, rfl⟩
  | run i =>
    simp only [Cache.step] at hstep
    split at hstep
    · cases hstep
    · split at hstep <;> cases hstep <;> exact ⟨hn, rfl⟩
    · cases hstep
      exact ⟨hn, rfl⟩
    · rename_i k m hpc
      split at hstep <;> cases hstep
      · exact ⟨hn, rfl⟩
      · rename_i hnone
        have hk : key ≠ k := fun hk => by
          rw [← hk, hn] at hnone
          cases hnone
        exact ⟨(Function.update_of_ne hk ..).trans hn, rfl⟩
    · cases hstep
      exact ⟨hn, rfl⟩
  | erase k =>
    cases hstep
    have hk : key ≠ k := fun hk => ha (hk ▸ rfl)
    exact ⟨(Function.update_of_ne hk ..).trans hn, Function.update_of_ne hk ..⟩

/-- What the thread has made and nobody else has. -/
def Pc.made : Pc K → Option (K × Nat)
  | .insert key n | .giveUp key n _ _ => some (key, n)
  | _ => none

/-- What the thread is going to return. -/
def Pc.other : Pc K → Option (Got K)
  | .giveUp key _ other round => some ⟨key, other, round⟩
  | _ => none

structure Inv (s : Cache K) : Prop where
  fresh : ∀ n, s.objects n = none ↔ s.fresh ≤ n
  hand : ∀ i n key,
    (s.threads i).made = some (key, n) ↔ s.objects n = some ⟨key, .hand i⟩
  table : ∀ key n, s.table key = some n ↔ s.objects n = some ⟨key, .kept (s.round key)⟩
  past : ∀ key n round, s.objects n = some ⟨key, .kept round⟩ → round ≤ s.round key
  once : ∀ key n n' round, s.objects n = some ⟨key, .kept round⟩ →
    s.objects n' = some ⟨key, .kept round⟩ → n = n'
  other : ∀ i got, (s.threads i).other = some got →
    s.objects got.object = some ⟨got.key, .kept got.round⟩
  returned : ∀ got ∈ s.returned, s.objects got.object = some ⟨got.key, .kept got.round⟩

namespace Inv
variable {s t : Cache K} {i n : Nat} {key : K} {pc : Pc K} {place : Place}

theorem init : Inv ({} : Cache K) :=
  ⟨fun n => ⟨fun _ => n.zero_le, fun _ => rfl⟩, fun _ _ _ => ⟨nofun, nofun⟩,
    fun _ _ => ⟨nofun, nofun⟩, nofun, nofun, nofun, nofun⟩

/-- The thread goes on and has nothing new in hand. -/
theorem setPc (h : Inv s) (hmade : pc.made = (s.threads i).made)
    (hother : ∀ got, pc.other = some got →
      s.objects got.object = some ⟨got.key, .kept got.round⟩) : Inv (s.setPc i pc) := by
  refine ⟨h.fresh, fun j m k => .trans ?_ (h.hand j m k), h.table, h.past, h.once,
    fun j got hj => ?_, h.returned⟩
  · simp only [Cache.setPc, Function.update_apply]
    split
    · rename_i hji
      rw [hmade, hji]
    · rfl
  · simp only [Cache.setPc, Function.update_apply] at hj
    split at hj
    · exact hother got hj
    · exact h.other j got hj

/-- A call returns what is, or was, in the table. -/
theorem returns (h : Inv s) (got : Got K)
    (hgot : s.objects got.object = some ⟨got.key, .kept got.round⟩) :
    Inv { s with returned := s.returned ++ [got] } := by
  refine ⟨h.fresh, h.hand, h.table, h.past, h.once, h.other, fun got' hmem => ?_⟩
  rcases List.mem_append.mp hmem with hold | hnew
  · exact h.returned got' hold
  · rw [List.mem_singleton.mp hnew]
    exact hgot

/-- Nobody but thread `i` has the object, and the table never had it. -/
def Own (s : Cache K) (i n : Nat) (key : K) : Prop :=
  s.objects n = none ∨ (s.threads i).made = some (key, n)

theorem not_kept (h : Inv s) (hown : Own s i n key) {k : K} {round : Nat} :
    s.objects n ≠ some ⟨k, .kept round⟩ := by
  intro hkept
  rcases hown with hnone | hmade
  · rw [hnone] at hkept
    cases hkept
  · rw [(h.hand i n key).mp hmade] at hkept
    cases hkept

/-- An object that the table has or had stays where it is. -/
theorem kept_stays (h : Inv s) (hown : Own s i n key) {m : Nat} {k : K} {round : Nat}
    (hm : s.objects m = some ⟨k, .kept round⟩) :
    Function.update s.objects n (some ⟨key, place⟩) m = some ⟨k, .kept round⟩ := by
  have hmn : m ≠ n := fun hmn => h.not_kept hown (hmn ▸ hm)
  rw [Function.update_of_ne hmn, hm]

theorem kept_new (h : Inv s) (hown : Own s i n key) {m : Nat} {k : K} {round : Nat} :
    Function.update s.objects n (some ⟨key, place⟩) m = some ⟨k, .kept round⟩ ↔
      (m = n ∧ key = k ∧ place = .kept round) ∨ s.objects m = some ⟨k, .kept round⟩ := by
  rw [Function.update_apply]
  split
  · rename_i hmn
    rw [hmn, Option.some.injEq, Object.mk.injEq]
    simp only [true_and, h.not_kept hown, or_false]
  · rename_i hmn
    simp only [hmn, false_and, false_or]

/-- Who has what in hand, when thread `i` goes on and its object gets another place. -/
theorem hand_new (h : Inv s) (place : Place) (pc : Pc K) (hown : Own s i n key)
    (hold : ∀ k m, (s.threads i).made = some (k, m) → m = n)
    (hnew : ∀ k m, pc.made = some (k, m) ↔ k = key ∧ m = n ∧ place = .hand i)
    (hplace : ∀ j, place = .hand j → j = i) (j m : Nat) (k : K) :
    (Function.update s.threads i pc j).made = some (k, m) ↔
      Function.update s.objects n (some ⟨key, place⟩) m = some ⟨k, .hand j⟩ := by
  rw [Function.update_apply, Function.update_apply]
  by_cases hj : j = i
  · subst hj
    rw [if_pos rfl, hnew]
    by_cases hm : m = n
    · rw [if_pos hm, Option.some.injEq, Object.mk.injEq]
      simp only [hm, true_and, eq_comm (a := k)]
    · rw [if_neg hm]
      refine ⟨fun hall => absurd hall.2.1 hm, fun hobject => ?_⟩
      exact absurd (hold k m ((h.hand j m k).mpr hobject)) hm
  · rw [if_neg hj, h.hand]
    by_cases hm : m = n
    · rw [if_pos hm, Option.some.injEq, Object.mk.injEq, hm]
      refine ⟨fun hobject => ?_, fun hall => absurd (hplace j hall.2) hj⟩
      rcases hown with hnone | hmade
      · rw [hnone] at hobject
        cases hobject
      · rw [(h.hand i n key).mp hmade] at hobject
        exact absurd (Place.hand.inj (Object.mk.inj (Option.some.inj hobject)).2).symm hj
    · rw [if_neg hm]

/-- The object of thread `i` gets a place outside of the table. -/
theorem moves (h : Inv s) (place : Place) (pc : Pc K) (hown : Own s i n key)
    (hT : t.threads = Function.update s.threads i pc)
    (hobjects : t.objects = Function.update s.objects n (some ⟨key, place⟩))
    (htable : t.table = s.table) (hround : t.round = s.round)
    (hreturned : t.returned = s.returned) (hfresh : ∀ m, t.fresh ≤ m ↔ s.fresh ≤ m ∧ m ≠ n)
    (hold : ∀ k m, (s.threads i).made = some (k, m) → m = n)
    (hnew : ∀ k m, pc.made = some (k, m) ↔ k = key ∧ m = n ∧ place = .hand i)
    (hplace : ∀ j, place = .hand j → j = i) (hkept : ∀ round, place ≠ .kept round)
    (hother : ∀ got, pc.other = some got → (s.threads i).other = some got) : Inv t := by
  have hiff : ∀ m k round, t.objects m = some ⟨k, .kept round⟩ ↔
      s.objects m = some ⟨k, .kept round⟩ := by
    intro m k round
    rw [hobjects, h.kept_new hown]
    simp only [hkept, and_false, false_or]
  refine ⟨fun m => ?_, fun j m k => ?_, fun k m => ?_, fun k m round hm => ?_, ?_, ?_, ?_⟩
  · have hall := hfresh m
    rw [hobjects, Function.update_apply]
    split
    · rename_i hmn
      refine ⟨nofun, fun hm => ?_⟩
      omega
    · rename_i hmn
      exact (h.fresh m).trans (by omega)
  · rw [hT, hobjects]
    exact h.hand_new place pc hown hold hnew hplace j m k
  · rw [htable, hround, hiff]
    exact h.table k m
  · rw [hround]
    exact h.past k m round ((hiff ..).mp hm)
  · intro k m m' round hm hm'
    exact h.once k m m' round ((hiff ..).mp hm) ((hiff ..).mp hm')
  · intro j got hj
    rw [hiff]
    rw [hT, Function.update_apply] at hj
    split at hj
    · exact h.other i got (hother got hj)
    · exact h.other j got hj
  · rw [hreturned]
    exact fun got hmem => (hiff ..).mpr (h.returned got hmem)

/-- Whoever asks for one key in one round gets one object. -/
theorem shared {got got' : Got K} (h : Inv s) (hgot : got ∈ s.returned) (hgot' : got' ∈ s.returned)
    (hkey : got.key = got'.key) (hround : got.round = got'.round) : got.object = got'.object := by
  have hobject := h.returned got hgot
  have hobject' := h.returned got' hgot'
  rw [← hkey, ← hround] at hobject'
  exact h.once _ _ _ _ hobject hobject'

section Step
variable [DecidableEq K]

/-- The object of thread `i` is put under its key, where nothing is. -/
theorem inserts (h : Inv s) (hmade : (s.threads i).made = some (key, n))
    (hnone : s.table key = none) :
    Inv (({ s with table := Function.update s.table key (some n) }.setObject n key
      (.kept (s.round key))).setPc i .idle) := by
  have hown : Own s i n key := .inr hmade
  have hobject := (h.hand i n key).mp hmade
  have hempty : ∀ m, s.objects m ≠ some ⟨key, .kept (s.round key)⟩ := fun m hm => by
    rw [(h.table key m).mpr hm] at hnone
    cases hnone
  refine ⟨fun m => ?_, fun j m k => ?_, fun k m => ?_, fun k m round hm => ?_, ?_, ?_, ?_⟩
  · refine .trans ?_ (h.fresh m)
    simp only [Cache.setPc, Cache.setObject, Function.update_apply]
    split
    · rename_i hmn
      rw [hmn, hobject]
      exact ⟨nofun, nofun⟩
    · rfl
  · refine h.hand_new (.kept (s.round key)) .idle hown (fun k m hm => ?_)
      (fun k m => ⟨nofun, nofun⟩) nofun j m k
    rw [hmade] at hm
    exact (Prod.mk.inj (Option.some.inj hm)).2.symm
  · refine .trans ?_ (h.kept_new hown).symm
    simp only [Cache.setPc, Cache.setObject, Function.update_apply, Place.kept.injEq]
    split
    · rename_i hk
      subst hk
      simp only [Option.some.injEq, hempty, or_false, and_true, eq_comm]
    · rename_i hk
      simp only [h.table, Ne.symm hk, false_and, and_false, false_or]
  · rcases (h.kept_new hown).mp hm with ⟨rfl, rfl, hround⟩ | hold
    · exact Nat.le_of_eq (Place.kept.inj hround).symm
    · exact h.past k m round hold
  · intro k m m' round hm hm'
    rcases (h.kept_new hown).mp hm with ⟨rfl, rfl, hround⟩ | hold
    · rcases (h.kept_new hown).mp hm' with ⟨rfl, -, -⟩ | hold'
      · rfl
      · exact absurd (Place.kept.inj hround ▸ hold') (hempty m')
    · rcases (h.kept_new hown).mp hm' with ⟨rfl, rfl, hround⟩ | hold'
      · exact absurd (Place.kept.inj hround ▸ hold) (hempty m)
      · exact h.once k m m' round hold hold'
  · intro j got hj
    simp only [Cache.setPc, Cache.setObject, Function.update_apply] at hj
    split at hj
    · cases hj
    · exact h.kept_stays hown (h.other j got hj)
  · exact fun got hmem => h.kept_stays hown (h.returned got hmem)

/-- What is under a key is taken out. -/
theorem erases (h : Inv s) : Inv { s with
    table := Function.update s.table key none
    round := Function.update s.round key (s.round key + 1) } := by
  refine ⟨h.fresh, h.hand, fun k m => ?_, fun k m round hm => ?_, h.once, h.other, h.returned⟩
  · simp only [Function.update_apply]
    split
    · rename_i hk
      subst hk
      refine ⟨nofun, fun hm => ?_⟩
      exact absurd (h.past k m _ hm) (Nat.not_succ_le_self _)
    · exact h.table k m
  · simp only [Function.update_apply]
    have hpast := h.past k m round hm
    split
    · rename_i hk
      subst hk
      omega
    · exact hpast

theorem step {a : Act K} (h : Inv s) (hstep : s.step a = some t) : Inv t := by
  cases a with
  | get i key =>
    simp only [Cache.step] at hstep
    split at hstep
    · rename_i hpc
      cases hstep
      exact h.setPc (by rw [hpc]; rfl) nofun
    · cases hstep
  | run i =>
    simp only [Cache.step] at hstep
    split at hstep
    · cases hstep
    · rename_i key hpc
      split at hstep
      · rename_i n hfound
        cases hstep
        exact (h.returns ⟨key, n, _⟩ ((h.table key n).mp hfound)).setPc
          (by rw [hpc]; rfl) nofun
      · cases hstep
        exact h.setPc (by rw [hpc]; rfl) nofun
    · rename_i key hpc
      cases hstep
      refine h.moves (.hand i) (.insert key s.fresh) (.inl ((h.fresh _).mpr (Nat.le_refl _))) rfl
        rfl rfl rfl rfl (fun m => ?_) ?_ ?_ (fun j hj => (Place.hand.inj hj).symm) nofun
        nofun
      · change s.fresh + 1 ≤ m ↔ _
        omega
      · intro k m hm
        rw [hpc] at hm
        cases hm
      · intro k m
        simp only [Pc.made, Option.some.injEq, Prod.mk.injEq, and_true, eq_comm]
    · rename_i key n hpc
      split at hstep
      · rename_i other hfound
        cases hstep
        refine h.setPc (by rw [hpc]; rfl) fun got hgot => ?_
        cases hgot
        exact (h.table key other).mp hfound
      · rename_i hnone
        cases hstep
        have hin := h.inserts (show (s.threads i).made = some (key, n) by rw [hpc]; rfl) hnone
        exact hin.returns ⟨key, n, s.round key⟩ (Function.update_self ..)
    · rename_i key n other round hpc
      cases hstep
      have hmade : (s.threads i).made = some (key, n) := by
        rw [hpc]
        rfl
      have hlt : n < s.fresh := by
        by_contra hge
        have hobject := (h.hand i n key).mp hmade
        rw [(h.fresh n).mpr (Nat.not_lt.mp hge)] at hobject
        cases hobject
      have hgiven : Inv ((s.setObject n key .givenUp).setPc i .idle) := by
        refine h.moves .givenUp .idle (.inr hmade) rfl rfl rfl rfl rfl (fun m => ?_) ?_
          (fun k m => ⟨nofun, nofun⟩) nofun nofun nofun
        · change s.fresh ≤ m ↔ _
          omega
        · intro k m hm
          rw [hmade] at hm
          exact (Prod.mk.inj (Option.some.inj hm)).2.symm
      refine hgiven.returns ⟨key, other, round⟩ (h.kept_stays (.inr hmade) ?_)
      exact h.other i ⟨key, other, round⟩ (by rw [hpc]; rfl)
  | erase key =>
    cases hstep
    exact h.erases

end Step

end Inv

end LyqtRpc.DoubleChecked
