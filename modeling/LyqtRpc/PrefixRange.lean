import LyqtRpc.EtcdStore

/-!
The loop of `http_get_prefix` that makes the end of the range, with the `int` it counts
down in.
-/

set_option autoImplicit false

namespace LyqtRpc

/-- The loop from index `i - 1` down to 0. -/
def raiseLast (range_end : Bytes) : Nat → Bytes
  | 0 => range_end
  | i + 1 =>
    let b := range_end.getD i 0
    if b < 255 then (range_end.set i (b + 1)).take (i + 1) else raiseLast range_end i

/-- `static_cast<int>(size) - 1`, plus one; `none` if the subtraction overflows. A negative
index ends the loop before it begins. -/
def loopCount (size : Nat) : Option Nat :=
  let n := Int32.ofNat size
  if n = Int32.minValue then none else some n.toNatClampNeg

def httpRangeEnd (start : Bytes) : Option Bytes :=
  (loopCount start.length).map (raiseLast start)

/-- The range holds the keys with the prefix. -/
def RangeIsPrefix (start : Bytes) : Prop :=
  ∃ stop, httpRangeEnd start = some stop ∧
    ∀ key, inRange start stop key = true ↔ start <+: key

section PrefixRange
variable {start : Bytes}

/-- The loop sees the bytes below its index alone. -/
theorem raiseLast_eq {i : Nat} (hi : i ≤ start.length) :
    raiseLast start i = (rangeEndList (start.take i)).getD start := by
  induction i with
  | zero => rfl
  | succ i ih =>
    have hlt : i < start.length := by omega
    have hget : start.getD i 0 = start[i] := by simp [hlt]
    have htake : start.take (i + 1) = start.take i ++ [start[i]] := by simp
    rw [raiseLast, hget, htake, rangeEndList_concat]
    by_cases hb : start[i] < 255
    · have hset : (start.set i (start[i] + 1)).take (i + 1) = start.take i ++ [start[i] + 1] := by
        rw [List.take_add_one, List.take_set_of_le (Nat.le_refl i)]
        simp [hlt]
      simp [hb, hset]
    · simp only [hb, if_false]
      exact ih (by omega)

/-- A length that is an `int` starts the loop at the last byte. -/
theorem loopCount_of_lt {size : Nat} (h : size < 2 ^ 31) : loopCount size = some size := by
  have hne : Int32.ofNat size ≠ Int32.minValue := by
    intro heq
    have hint := congrArg Int32.toInt heq
    rw [Int32.toInt_ofNat_of_lt h] at hint
    simp at hint
  rw [loopCount, if_neg hne, Int32.toNatClampNeg_ofNat_of_lt h]

/-- A prefix of a usual length has the end that a range over all bytes gives it. -/
theorem httpRangeEnd_of_lt (h : start.length < 2 ^ 31) :
    httpRangeEnd start = some (rangeEnd start) := by
  rw [httpRangeEnd, loopCount_of_lt h, Option.map_some, raiseLast_eq (Nat.le_refl _),
    List.take_length, rangeEnd]

/-- For every prefix with a byte below `0xff` whose length is an `int`, and all keys. -/
theorem range_isPrefix (start : Bytes) (hlen : start.length < 2 ^ 31)
    (h : ∃ b ∈ start, b ≠ 255) : RangeIsPrefix start := by
  refine ⟨rangeEnd start, httpRangeEnd_of_lt hlen, fun key => ?_⟩
  rcases eq_raised_or_full start with hfull | ⟨u, b, f, rfl, hb, hf⟩
  · obtain ⟨b, hmem, hb⟩ := h
    exact absurd (hfull b hmem) hb
  · have hend : rangeEnd (u ++ b :: f) = u ++ [b + 1] := by
      rw [rangeEnd, ← List.singleton_append, ← List.append_assoc, rangeEndList_append_full _ hf,
        rangeEndList_concat, if_pos hb, Option.getD_some]
    rw [hend]
    exact inRange_raised u hb hf key

/-- A prefix that ends in `0xff`. -/
theorem range_isPrefix_carried : RangeIsPrefix [47, 255] :=
  range_isPrefix [47, 255] (by decide) ⟨47, by decide, by decide⟩

/-- What the store asks etcd for is the range that the loop makes. -/
theorem httpGetPrefix_eq (etcd : Etcd) (h : start.length < 2 ^ 31) :
    (httpRangeEnd start).map (etcd.range start) = some (etcd.httpGetPrefix start) := by
  rw [httpRangeEnd_of_lt h, Option.map_some, Etcd.httpGetPrefix]

/-- The callers' prefixes: `PROVIDERS`, and that with a method and a slash. -/
theorem range_isPrefix_callers {method : Bytes} (h : method.length < 2 ^ 31 - 23) :
    RangeIsPrefix PROVIDERS ∧ RangeIsPrefix (methodPrefix method) := by
  have hproviders : PROVIDERS.length = 22 := by decide
  have hslash : 47 ∈ PROVIDERS := by decide
  constructor
  · exact range_isPrefix PROVIDERS (by rw [hproviders]; decide) ⟨47, hslash, by decide⟩
  · refine range_isPrefix (methodPrefix method) ?_ ⟨47, by simp [methodPrefix], by decide⟩
    simp only [methodPrefix, List.length_append, hproviders, List.length_singleton]
    omega

end PrefixRange

end LyqtRpc
