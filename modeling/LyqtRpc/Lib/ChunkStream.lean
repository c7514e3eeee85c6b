import LyqtRpc.Lib.ByteMemory

/-!
A reader that takes items off the front of a buffer as long as it can, fed by
chunks. On a stream of whole items the chunk boundaries do not matter.
-/

set_option autoImplicit false

namespace LyqtRpc.ChunkStream

variable {M E : Type}

inductive Next (M E : Type) where
  /-- Nothing can be taken yet. -/
  | more
  | item (m : M) (rest : Bytes)
  | fault (e : E)

inductive Status (E : Type) where
  | pending (rest : Bytes)
  | stopped (e : E)

/-- Take items until there is no whole one or a fault; at most `n` of them. -/
def drain (next : Bytes → Next M E) : Nat → Bytes → List M × Status E
  | 0, buf => ([], .pending buf)
  | n+1, buf =>
    match next buf with
    | .more => ([], .pending buf)
    | .fault e => ([], .stopped e)
    | .item m rest => (m :: (drain next n rest).1, (drain next n rest).2)

/-- Every item shortens the buffer. -/
def Progress (next : Bytes → Next M E) : Prop :=
  ∀ buf m rest, next buf = .item m rest → rest.length < buf.length

/-- A bound above the length of the buffer is no bound. -/
theorem drain_bound {next : Bytes → Next M E} (hp : Progress next) {n k : Nat} {buf : Bytes}
    (hn : buf.length < n) (hk : buf.length < k) : drain next n buf = drain next k buf := by
  induction n generalizing k buf with
  | zero => omega
  | succ n ih =>
      cases k with
      | zero => omega
      | succ k =>
          cases hnext : next buf with
          | more => simp only [drain, hnext]
          | fault e => simp only [drain, hnext]
          | item m rest =>
              have hlt := hp _ _ _ hnext
              have hrest : drain next n rest = drain next k rest := ih (by omega) (by omega)
              simp only [drain, hnext, hrest]

/-- `enc m` is read as `m` whatever follows it, and not before it is whole. -/
structure Framed (next : Bytes → Next M E) (enc : M → Bytes) (m : M) : Prop where
  whole : ∀ rest, next (enc m ++ rest) = .item m rest
  partialFrame : ∀ p q, p ++ q = enc m → q ≠ [] → next p = .more

variable {next : Bytes → Next M E} {enc : M → Bytes}

/-- A buffer that is the front of a stream of framed items: the whole ones come
out, and what stays is the front of the rest of the stream, short of an item. -/
theorem drain_front (hnil : next [] = .more) {ms : List M} {buf future : Bytes} {n : Nat}
    (hframed : ∀ m ∈ ms, Framed next enc m) (hbuf : buf ++ future = ms.flatMap enc)
    (hn : ms.length < n) :
    ∃ done later rest, ms = done ++ later ∧ drain next n buf = (done, .pending rest) ∧
      rest ++ future = later.flatMap enc ∧ next rest = .more := by
  induction ms generalizing buf n with
  | nil =>
      cases n with
      | zero => exact absurd hn (Nat.not_lt_zero _)
      | succ n =>
          have hempty : buf = [] := by
            have h0 : buf ++ future = [] := hbuf
            exact (List.append_eq_nil_iff.mp h0).1
          subst hempty
          exact ⟨[], [], [], rfl, by simp only [drain, hnil], hbuf, hnil⟩
  | cons m ms ih =>
      cases n with
      | zero => exact absurd hn (Nat.not_lt_zero _)
      | succ n =>
          have hm := hframed m (List.mem_cons_self ..)
          rw [List.flatMap_cons] at hbuf
          rcases List.append_eq_append_iff.mp hbuf with ⟨q, henc, hfut⟩ | ⟨rest, hwhole, hrest⟩
          · by_cases hq : q = []
            · subst hq
              rw [List.append_nil] at henc
              have hw := hm.whole []
              rw [List.append_nil, henc] at hw
              rw [List.nil_append] at hfut
              have hfut' : [] ++ future = ms.flatMap enc := hfut
              obtain ⟨done, later, rest, hms, hdrain, hstay⟩ :=
                ih (n := n) (fun m' hm' => hframed m' (List.mem_cons_of_mem _ hm'))
                  hfut' (by simpa using hn)
              refine ⟨m :: done, later, rest, by rw [hms, List.cons_append], ?_, hstay⟩
              simp only [drain, hw, hdrain]
            · have hmore := hm.partialFrame buf q henc.symm hq
              refine ⟨[], m :: ms, buf, rfl, by simp only [drain, hmore], ?_, hmore⟩
              rw [List.flatMap_cons]
              exact hbuf
          · have hw := hm.whole rest
            rw [← hwhole] at hw
            obtain ⟨done, later, stay, hms, hdrain, hstay⟩ :=
              ih (n := n) (fun m' hm' => hframed m' (List.mem_cons_of_mem _ hm')) hrest.symm
                (by simpa using hn)
            refine ⟨m :: done, later, stay, by rw [hms, List.cons_append], ?_, hstay⟩
            simp only [drain, hw, hdrain]

/-- The front of a stream whose items are read as something else: there is no whole item
in it, or the first one comes out and the front of the rest stays. -/
theorem next_front {I : Type} {write : I → Bytes} {reads : I → M → Prop}
    (hnil : next [] = .more) {ms : List I} {buf future : Bytes}
    (hframed : ∀ m ∈ ms, ∃ o, reads m o ∧ Framed next (fun _ => write m) o)
    (hbuf : buf ++ future = ms.flatMap write) :
    next buf = .more ∨ ∃ m later o rest, ms = m :: later ∧ reads m o ∧
      next buf = .item o rest ∧ rest ++ future = later.flatMap write := by
  cases ms with
  | nil =>
      left
      rw [(List.append_eq_nil_iff.mp hbuf).1, hnil]
  | cons m later =>
      obtain ⟨o, hreads, hm⟩ := hframed m (List.mem_cons_self ..)
      rw [List.flatMap_cons] at hbuf
      have hwhole : ∀ rest, buf = write m ++ rest → next buf = .item o rest :=
        fun rest h => h ▸ hm.whole rest
      rcases List.append_eq_append_iff.mp hbuf with ⟨q, henc, hfuture⟩ | ⟨rest, hrest, hstay⟩
      · by_cases hq : q = []
        · subst hq
          right
          refine ⟨m, later, o, [], rfl, hreads, hwhole [] ?_, hfuture⟩
          rw [henc, List.append_nil, List.append_nil]
        · left
          exact hm.partialFrame buf q henc.symm hq
      · right
        exact ⟨m, later, o, rest, rfl, hreads, hwhole rest hrest, hstay.symm⟩

/-- A stream of framed items that stays in the buffer is empty. -/
theorem eq_nil_of_more {ms : List M} {buf : Bytes} (hframed : ∀ m ∈ ms, Framed next enc m)
    (hbuf : buf = ms.flatMap enc) (hmore : next buf = .more) : ms = [] := by
  cases ms with
  | nil => rfl
  | cons m ms =>
      have hw := (hframed m (List.mem_cons_self ..)).whole (ms.flatMap enc)
      rw [hbuf, List.flatMap_cons, hw] at hmore
      cases hmore

end LyqtRpc.ChunkStream
