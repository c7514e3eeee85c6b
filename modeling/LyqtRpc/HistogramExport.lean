import LyqtRpc.Lib.Buckets
import LyqtRpc.Lib.StepRun
import LyqtRpc.Metrics
import Mathlib.Algebra.Order.BigOperators.Group.Finset

/-!
`Histogram::observe` and the loads of `exportText`, cut at every atomic operation. The
counters are unbounded here; as `int64_t` they are the same while there are fewer than
`2 ^ 63` observations.
-/

set_option autoImplicit false

namespace LyqtRpc.Metrics

open StepRun Buckets Finset

/-- `v <= bound` -/
def atMost (v : Double) (bound : Nat) : Bool :=
  match v with
  | .finite q => q ≤ bound
  | .infinite negative => negative
  | .nan _ => false

/-- The bucket that `observe` adds to. -/
def bucketOf : Double → Option Nat := firstFit atMost bucketBounds

/-- What a call of `observe` does next. -/
inductive ObservePc where
  | loadSum
  /-- `compare_exchange_weak` with what was seen. -/
  | addSum (seen : Double)
  | addBucket

/-- A call under way, on a thread of its own. -/
structure Observing where
  v : Double
  pc : ObservePc := .loadSum

/-- What an export reads of a histogram. -/
structure Exported where
  buckets : List Nat
  inf : Nat
  sum : Double
  count : Nat

/-- What `exportText` loads next; `lines` are the buckets that are written. -/
inductive ExportPc where
  | idle
  | bucket (i j cum : Nat) (lines : List Nat)
  | inf (lines : List Nat)
  | sum (lines : List Nat) (inf : Nat)
  | count (lines : List Nat) (inf : Nat) (sum : Double)
  deriving DecidableEq

/-- `exports` and `observed` are histories that no step reads. -/
structure HistogramRun where
  count : Nat := 0
  sum : Double := .finite 0
  b : Nat → Nat := fun _ => 0
  calls : List Observing := []
  exporter : ExportPc := .idle
  exports : List Exported := []
  observed : List Double := []

inductive HistogramAct where
  /-- `_count.fetch_add` of a new call. -/
  | observe (v : Double)
  /-- The `k`-th call goes on; a weak exchange may fail for no reason. -/
  | step (k : Nat) (spurious : Bool)
  | exportText
  | load

namespace HistogramRun

def observeStep (add : Double → Double → Double) (s : HistogramRun) (k : Nat) (call : Observing)
    (spurious : Bool) : HistogramRun :=
  match call.pc with
  | .loadSum => { s with calls := s.calls.set k { call with pc := .addSum s.sum } }
  | .addSum seen =>
    if s.sum = seen ∧ spurious = false then
      { s with sum := add seen call.v, calls := s.calls.set k { call with pc := .addBucket } }
    else { s with calls := s.calls.set k { call with pc := .addSum s.sum } }
  | .addBucket =>
    { s with
      b :=
        match bucketOf call.v with
        | some i => Function.update s.b i (s.b i + 1)
        | none => s.b
      calls := s.calls.eraseIdx k }

def load (s : HistogramRun) : Option HistogramRun :=
  match s.exporter with
  | .idle => none
  | .bucket i j cum lines =>
    let cum := cum + s.b j
    some { s with
      exporter :=
        if j < i then .bucket i (j + 1) cum lines
        else if i + 1 < bucketBounds.length then .bucket (i + 1) 0 0 (lines ++ [cum])
        else .inf (lines ++ [cum]) }
  | .inf lines => some { s with exporter := .sum lines s.count }
  | .sum lines inf => some { s with exporter := .count lines inf s.sum }
  | .count lines inf sum =>
    some { s with exporter := .idle, exports := s.exports ++ [⟨lines, inf, sum, s.count⟩] }

end HistogramRun

/-- `add` is the addition of doubles. -/
def histogramStep (add : Double → Double → Double) (s : HistogramRun) :
    HistogramAct → Option HistogramRun
  | .observe v =>
    some { s with
      count := s.count + 1
      calls := s.calls ++ [⟨v, .loadSum⟩]
      observed := s.observed ++ [v] }
  | .step k spurious => (s.calls[k]?).map fun call => s.observeStep add k call spurious
  | .exportText =>
    match s.exporter with
    | .idle => some { s with exporter := .bucket 0 0 0 [] }
    | _ => none
  | .load => s.load

def HistogramAct.exports : HistogramAct → Bool
  | .exportText | .load => true
  | _ => false

/-- The buckets ascend, and none is above `+Inf`. -/
structure Exported.Consistent (e : Exported) : Prop where
  complete : e.buckets.length = bucketBounds.length
  ascending : e.buckets.Pairwise (· ≤ ·)
  bounded : ∀ n ∈ e.buckets, n ≤ e.inf

/-- What is written is the number of the observations up to each bound, and of them all. -/
structure Exported.Counts (e : Exported) (vs : List Double) : Prop where
  buckets : e.buckets = bucketBounds.map fun bound => vs.countP (atMost · bound)
  inf : e.inf = vs.length
  count : e.count = vs.length

/-- `n` lines in ascending order. -/
structure Written (lines : List Nat) (n : Nat) : Prop where
  length : lines.length = n
  ascending : lines.Pairwise (· ≤ ·)

/-- What was summed up is below what the buckets hold by now. -/
def ExportPc.Inv (b : Nat → Nat) : ExportPc → Prop
  | .idle => True
  | .bucket i j cum lines =>
    (Written lines i ∧ j ≤ i ∧ i < bucketBounds.length) ∧ cum ≤ ∑ k ∈ range j, b k ∧
      ∀ n ∈ lines, n + ∑ k ∈ range j, b k ≤ cum + ∑ k ∈ range i, b k
  | .inf lines =>
    Written lines bucketBounds.length ∧ ∀ n ∈ lines, n ≤ ∑ k ∈ range bucketBounds.length, b k
  | .sum lines all | .count lines all _ =>
    Written lines bucketBounds.length ∧ ∀ n ∈ lines, n ≤ all

/-- Every observation is counted, and is in its bucket or in a call that will put it there. -/
structure HistogramInv (s : HistogramRun) : Prop where
  count : s.count = s.observed.length
  buckets : ∀ i, s.b i + (s.calls.map Observing.v).countP (fun v => bucketOf v = some i) =
    s.observed.countP (fun v => bucketOf v = some i)
  exporter : s.exporter.Inv s.b
  exports : ∀ e ∈ s.exports, e.Consistent

theorem ascending_bucketBounds : Ascending atMost bucketBounds := by
  intro v
  have hsorted : bucketBounds.Pairwise (· ≤ ·) := by decide
  refine hsorted.imp fun hle hfits => ?_
  cases v with
  | finite q =>
    simp only [atMost, decide_eq_true_eq] at hfits ⊢
    exact hfits.trans (by exact_mod_cast hle)
  | infinite negative => exact hfits
  | nan negative => exact hfits

theorem Written.concat {lines : List Nat} {i cum : Nat} (h : Written lines i)
    (hle : ∀ n ∈ lines, n ≤ cum) : Written (lines ++ [cum]) (i + 1) where
  length := by simp [h.length]
  ascending := by
    rw [List.pairwise_append]
    exact ⟨h.ascending, by simp, by simpa using hle⟩

/-- A bucket that grows makes the bounds weaker. -/
theorem ExportPc.Inv.update {b : Nat → Nat} {pc : ExportPc} (h : pc.Inv b) (m : Nat) :
    pc.Inv (Function.update b m (b m + 1)) := by
  cases pc with
  | idle => trivial
  | bucket i j cum lines =>
    obtain ⟨hpos, hcum, hlines⟩ := h
    have hji := hpos.2.1
    refine ⟨hpos, ?_, fun n hn => ?_⟩
    · rw [sum_update]
      omega
    · have hle := hlines n hn
      rw [sum_update, sum_update]
      split <;> split <;> omega
  | inf lines =>
    obtain ⟨hwritten, hlines⟩ := h
    refine ⟨hwritten, fun n hn => ?_⟩
    have hle := hlines n hn
    rw [sum_update]
    omega
  | sum lines all => exact h
  | count lines all sum => exact h

section Run
variable {add : Double → Double → Double} {s t : HistogramRun}

theorem histogramInv_init : HistogramInv {} where
  count := rfl
  buckets _ := rfl
  exporter := trivial
  exports := nofun

/-- All buckets together hold no more than was counted. -/
theorem HistogramInv.sum_le (h : HistogramInv s) :
    ∑ k ∈ range bucketBounds.length, s.b k ≤ s.count := by
  have hlast := sum_countP_firstFit ascending_bucketBounds
    (show bucketBounds.length - 1 < bucketBounds.length by decide) s.observed
  calc ∑ k ∈ range bucketBounds.length, s.b k
      ≤ ∑ k ∈ range bucketBounds.length, s.observed.countP (fun v => bucketOf v = some k) := by
        refine Finset.sum_le_sum fun k _ => ?_
        have hk := h.buckets k
        omega
    _ ≤ s.count := by
        rw [h.count]
        exact hlast.trans_le List.countP_le_length

theorem HistogramInv.observe (h : HistogramInv s) (v : Double) :
    HistogramInv { s with
      count := s.count + 1
      calls := s.calls ++ [⟨v, .loadSum⟩]
      observed := s.observed ++ [v] } where
  count := by simp [h.count]
  buckets i := by
    have hi := h.buckets i
    simp only [List.map_append, List.countP_append, List.map_cons, List.map_nil]
    omega
  exporter := h.exporter
  exports := h.exports

/-- A call that goes on with its value. -/
theorem HistogramInv.goOn (h : HistogramInv s) {k : Nat} {call : Observing}
    (hk : s.calls[k]? = some call) (pc : ObservePc) (sum : Double) :
    HistogramInv { s with sum, calls := s.calls.set k { call with pc } } where
  count := h.count
  buckets i := by
    have hsame : (s.calls.set k { call with pc }).map Observing.v = s.calls.map Observing.v := by
      obtain ⟨hlt, rfl⟩ := List.getElem?_eq_some_iff.mp hk
      rw [List.map_set]
      refine List.ext_getElem (by simp) fun n hn hn' => ?_
      rw [List.getElem_set]
      split
      · rename_i heq
        subst heq
        simp
      · rfl
    rw [hsame]
    exact h.buckets i
  exporter := h.exporter
  exports := h.exports

/-- A call puts its observation into its bucket and ends. -/
theorem HistogramInv.addBucket (h : HistogramInv s) {k : Nat} {call : Observing}
    (hk : s.calls[k]? = some call) :
    HistogramInv { s with
      b :=
        match bucketOf call.v with
        | some i => Function.update s.b i (s.b i + 1)
        | none => s.b
      calls := s.calls.eraseIdx k } where
  count := h.count
  buckets i := by
    obtain ⟨hlt, rfl⟩ := List.getElem?_eq_some_iff.mp hk
    have hperm := (List.getElem_cons_eraseIdx_perm hlt).map Observing.v
    have hcount := hperm.countP_eq fun v => bucketOf v = some i
    have hi := h.buckets i
    rw [List.map_cons, List.countP_cons] at hcount
    cases hbucket : bucketOf s.calls[k].v with
    | none =>
      simp only [hbucket, reduceCtorEq, decide_false, Bool.false_eq_true, if_false] at hcount ⊢
      omega
    | some m =>
      simp only [hbucket, Option.some.injEq, decide_eq_true_eq] at hcount ⊢
      by_cases hm : m = i
      · subst hm
        simp only [if_true, Function.update_self] at hcount ⊢
        omega
      · rw [Function.update_of_ne (Ne.symm hm)]
        simp only [hm, if_false] at hcount
        omega
  exporter := by
    cases bucketOf call.v with
    | none => exact h.exporter
    | some m => exact h.exporter.update m
  exports := h.exports

theorem HistogramInv.observeStep (h : HistogramInv s) {k : Nat} {call : Observing}
    (hk : s.calls[k]? = some call) (spurious : Bool) :
    HistogramInv (s.observeStep add k call spurious) := by
  unfold HistogramRun.observeStep
  cases call.pc with
  | loadSum => exact h.goOn hk _ _
  | addSum seen =>
    dsimp only
    split
    · exact h.goOn hk _ _
    · exact h.goOn hk _ _
  | addBucket => exact h.addBucket hk

/-- What one load of an export does. -/
inductive Loads (s : HistogramRun) : HistogramRun → Prop where
  | bucket {i j cum : Nat} {lines : List Nat} (hpc : s.exporter = .bucket i j cum lines)
      (hlt : j < i) : Loads s { s with exporter := .bucket i (j + 1) (cum + s.b j) lines }
  | line {i j cum : Nat} {lines : List Nat} (hpc : s.exporter = .bucket i j cum lines)
      (hij : i ≤ j) (hmore : i + 1 < bucketBounds.length) :
      Loads s { s with exporter := .bucket (i + 1) 0 0 (lines ++ [cum + s.b j]) }
  | lastLine {i j cum : Nat} {lines : List Nat} (hpc : s.exporter = .bucket i j cum lines)
      (hij : i ≤ j) (hlast : bucketBounds.length ≤ i + 1) :
      Loads s { s with exporter := .inf (lines ++ [cum + s.b j]) }
  | total {lines : List Nat} (hpc : s.exporter = .inf lines) :
      Loads s { s with exporter := .sum lines s.count }
  | sum {lines : List Nat} {all : Nat} (hpc : s.exporter = .sum lines all) :
      Loads s { s with exporter := .count lines all s.sum }
  | count {lines : List Nat} {all : Nat} {sum : Double} (hpc : s.exporter = .count lines all sum) :
      Loads s { s with exporter := .idle, exports := s.exports ++ [⟨lines, all, sum, s.count⟩] }

theorem load_loads (hs : s.load = some t) : Loads s t := by
  unfold HistogramRun.load at hs
  cases hpc : s.exporter with
  | idle => simp [hpc] at hs
  | bucket i j cum lines =>
    simp only [hpc, Option.some.injEq] at hs
    subst hs
    by_cases hlt : j < i
    · simp only [hlt, if_true]
      exact .bucket hpc hlt
    · by_cases hmore : i + 1 < bucketBounds.length
      · simp only [hlt, hmore, if_false, if_true]
        exact .line hpc (by omega) hmore
      · simp only [hlt, hmore, if_false]
        exact .lastLine hpc (by omega) (by omega)
  | inf lines | sum lines all | count lines all sum =>
    simp only [hpc, Option.some.injEq] at hs
    subst hs
    constructor
    exact hpc

theorem ExportPc.Inv.next {b : Nat → Nat} {i j cum : Nat} {lines : List Nat}
    (h : (ExportPc.bucket i j cum lines).Inv b) (hlt : j < i) :
    (ExportPc.bucket i (j + 1) (cum + b j) lines).Inv b := by
  obtain ⟨⟨hwritten, _, hi⟩, hcum, hlines⟩ := h
  refine ⟨⟨hwritten, hlt, hi⟩, ?_, fun n hn => ?_⟩
  · rw [Finset.sum_range_succ]
    omega
  · have hle := hlines n hn
    rw [Finset.sum_range_succ]
    omega

/-- The line of bucket `i` is complete, and stays below the next one. -/
theorem ExportPc.Inv.line {b : Nat → Nat} {i j cum : Nat} {lines : List Nat}
    (h : (ExportPc.bucket i j cum lines).Inv b) (hij : i ≤ j) :
    Written (lines ++ [cum + b j]) (i + 1) ∧
      ∀ n ∈ lines ++ [cum + b j], n ≤ ∑ k ∈ range (i + 1), b k := by
  obtain ⟨⟨hwritten, hji, _⟩, hcum, hlines⟩ := h
  obtain rfl : j = i := by omega
  have hline : ∀ n ∈ lines, n ≤ cum + b j := by
    intro n hn
    have hle := hlines n hn
    omega
  refine ⟨hwritten.concat hline, fun n hn => ?_⟩
  rw [Finset.sum_range_succ]
  rcases List.mem_append.mp hn with hn | hn
  · have hle := hline n hn
    omega
  · rw [List.mem_singleton.mp hn]
    omega

/-- A load takes a bucket as it is by now, and every line stays below the next. -/
theorem HistogramInv.load (h : HistogramInv s) (hs : s.load = some t) : HistogramInv t := by
  have hexporter := h.exporter
  cases load_loads hs with
  | bucket hpc hlt =>
    rw [hpc] at hexporter
    exact ⟨h.count, h.buckets, hexporter.next hlt, h.exports⟩
  | line hpc hij hmore =>
    rw [hpc] at hexporter
    obtain ⟨hwritten, hnext⟩ := hexporter.line hij
    exact ⟨h.count, h.buckets,
      ⟨⟨hwritten, Nat.zero_le _, hmore⟩, Nat.zero_le _, by simpa using hnext⟩, h.exports⟩
  | @lastLine i _ _ _ hpc hij hlast =>
    rw [hpc] at hexporter
    have hline := hexporter.line hij
    have hlen : i + 1 = bucketBounds.length := Nat.le_antisymm hexporter.1.2.2 hlast
    rw [hlen] at hline
    exact ⟨h.count, h.buckets, hline, h.exports⟩
  | total hpc =>
    rw [hpc] at hexporter
    exact ⟨h.count, h.buckets,
      ⟨hexporter.1, fun n hn => (hexporter.2 n hn).trans h.sum_le⟩, h.exports⟩
  | sum hpc =>
    rw [hpc] at hexporter
    exact ⟨h.count, h.buckets, hexporter, h.exports⟩
  | count hpc =>
    rw [hpc] at hexporter
    obtain ⟨hwritten, hlines⟩ := hexporter
    refine ⟨h.count, h.buckets, trivial, fun e he => ?_⟩
    rcases List.mem_append.mp he with he | he
    · exact h.exports e he
    · obtain rfl := List.mem_singleton.mp he
      exact ⟨hwritten.length, hwritten.ascending, hlines⟩

theorem HistogramInv.step {a : HistogramAct} (h : HistogramInv s)
    (hs : histogramStep add s a = some t) : HistogramInv t := by
  cases a with
  | observe v =>
    cases hs
    exact h.observe v
  | step k spurious =>
    obtain ⟨call, hk, rfl⟩ := Option.map_eq_some_iff.mp hs
    exact h.observeStep hk spurious
  | exportText =>
    simp only [histogramStep] at hs
    split at hs
    · cases hs
      refine ⟨h.count, h.buckets, ⟨⟨⟨rfl, .nil⟩, Nat.le_refl 0, by decide⟩, ?_, ?_⟩, h.exports⟩
      · simp
      · simp
    · cases hs
  | load => exact h.load hs

theorem histogramInv_of_reachable (h : Reachable (histogramStep add) {} s) : HistogramInv s :=
  h.invariant HistogramInv histogramInv_init fun _ _ _ hi _ hs => hi.step hs

/-! An export that no call disturbs. -/

/-- The first `n` lines, when all is loaded of the same buckets. -/
def cumulativeSums (b : Nat → Nat) (n : Nat) : List Nat :=
  (List.range n).map fun i => ∑ k ∈ range (i + 1), b k

theorem cumulativeSums_succ (b : Nat → Nat) (n : Nat) :
    cumulativeSums b (n + 1) = cumulativeSums b n ++ [∑ k ∈ range n, b k + b n] := by
  simp [cumulativeSums, List.range_succ, Finset.sum_range_succ]

def ExportPc.Undisturbed (b : Nat → Nat) (total : Nat) : ExportPc → Prop
  | .idle => True
  | .bucket i j cum lines =>
    (j ≤ i ∧ i < bucketBounds.length) ∧ cum = ∑ k ∈ range j, b k ∧ lines = cumulativeSums b i
  | .inf lines => lines = cumulativeSums b bucketBounds.length
  | .sum lines all | .count lines all _ =>
    lines = cumulativeSums b bucketBounds.length ∧ all = total

/-- `t` comes after `s`, and only exports ran in between. -/
structure ExportsOnly (s t : HistogramRun) : Prop where
  b : t.b = s.b
  count : t.count = s.count
  exporter : t.exporter.Undisturbed s.b s.count
  exports : ∀ e ∈ t.exports, e ∈ s.exports ∨
    (e.buckets = cumulativeSums s.b bucketBounds.length ∧ e.inf = s.count ∧ e.count = s.count)

theorem ExportsOnly.load {u : HistogramRun} (h : ExportsOnly s t) (hs : t.load = some u) :
    ExportsOnly s u := by
  have hexporter := h.exporter
  have hb := h.b
  cases load_loads hs with
  | bucket hpc hlt =>
    rw [hpc] at hexporter
    obtain ⟨⟨_, hi⟩, rfl, rfl⟩ := hexporter
    refine ⟨h.b, h.count, ⟨⟨hlt, hi⟩, ?_, rfl⟩, h.exports⟩
    rw [hb, Finset.sum_range_succ]
  | line hpc hij hmore =>
    rw [hpc] at hexporter
    obtain ⟨⟨hji, _⟩, rfl, rfl⟩ := hexporter
    refine ⟨h.b, h.count, ⟨⟨Nat.zero_le _, hmore⟩, rfl, ?_⟩, h.exports⟩
    rw [Nat.le_antisymm hji hij, hb, cumulativeSums_succ]
  | lastLine hpc hij hlast =>
    rw [hpc] at hexporter
    obtain ⟨⟨hji, hi⟩, rfl, rfl⟩ := hexporter
    refine ⟨h.b, h.count, ?_, h.exports⟩
    show cumulativeSums s.b _ ++ [_] = cumulativeSums s.b bucketBounds.length
    rw [← Nat.le_antisymm hi hlast, Nat.le_antisymm hji hij, hb, cumulativeSums_succ]
  | total hpc =>
    rw [hpc] at hexporter
    exact ⟨h.b, h.count, ⟨hexporter, h.count⟩, h.exports⟩
  | sum hpc =>
    rw [hpc] at hexporter
    exact ⟨h.b, h.count, hexporter, h.exports⟩
  | count hpc =>
    rw [hpc] at hexporter
    refine ⟨h.b, h.count, trivial, fun e he => ?_⟩
    rcases List.mem_append.mp he with he | he
    · exact h.exports e he
    · obtain rfl := List.mem_singleton.mp he
      exact .inr ⟨hexporter.1, hexporter.2, h.count⟩

theorem ExportsOnly.step {u : HistogramRun} {a : HistogramAct} (h : ExportsOnly s t)
    (ha : a.exports = true) (hs : histogramStep add t a = some u) : ExportsOnly s u := by
  cases a with
  | observe v => cases ha
  | step k spurious => cases ha
  | exportText =>
    simp only [histogramStep] at hs
    split at hs
    · cases hs
      exact ⟨h.b, h.count, ⟨⟨Nat.le_refl 0, by decide⟩, rfl, rfl⟩, h.exports⟩
    · cases hs
  | load => exact h.load hs

/-- Where no call is under way, the buckets hold the observations. -/
theorem HistogramInv.cumulativeSums_eq (h : HistogramInv s) (hcalls : s.calls = []) :
    cumulativeSums s.b bucketBounds.length =
      bucketBounds.map fun bound => s.observed.countP (atMost · bound) := by
  refine List.ext_getElem (by simp [cumulativeSums]) fun i hi hi' => ?_
  have hlt : i < bucketBounds.length := by simpa using hi'
  have hb : ∀ k, s.b k = s.observed.countP (fun v => bucketOf v = some k) := by
    intro k
    simpa [hcalls] using h.buckets k
  simp only [cumulativeSums, List.getElem_map, List.getElem_range, hb]
  exact sum_countP_firstFit ascending_bucketBounds hlt s.observed

/-! The counters as `int64_t`. -/

/-- The histogram with its counters cut to 64 bits. -/
def HistogramRun.toHistogram (s : HistogramRun) (d : Description) : Histogram :=
  { d with
    count := Int64.ofNat s.count
    sum := s.sum
    b := Vector.ofFn fun i => Int64.ofNat (s.b i) }

theorem cumulative_toHistogram (d : Description) {i : Nat}
    (hi : i < bucketBounds.length) :
    cumulative (s.toHistogram d).b i = Int64.ofNat (∑ k ∈ range (i + 1), s.b k) := by
  have hsum : ∀ n ≤ 10, ((s.toHistogram d).b.toList.take n).foldl (· + ·) 0 =
      Int64.ofNat (∑ k ∈ range n, s.b k) := by
    intro n hn
    induction n with
    | zero => rfl
    | succ n ih =>
      have hlt : n < (s.toHistogram d).b.toList.length := by
        rw [Vector.length_toList]
        omega
      have hget : (s.toHistogram d).b.toList[n] = Int64.ofNat (s.b n) := by
        simp [HistogramRun.toHistogram]
      rw [List.take_succ_eq_append_getElem hlt, List.foldl_append, ih (by omega), hget,
        Finset.sum_range_succ, Int64.ofNat_add]
      rfl
  exact hsum (i + 1) hi

/-- With fewer than `2 ^ 63` observations they do not overflow. -/
theorem HistogramInv.toInt_eq (h : HistogramInv s)
    (hfew : s.observed.length < 2 ^ 63) (d : Description) {i : Nat} (hi : i < bucketBounds.length) :
    (cumulative (s.toHistogram d).b i).toInt = ∑ k ∈ range (i + 1), s.b k ∧
      (s.toHistogram d).count.toInt = s.count := by
  have hcount := h.count
  have hle : ∑ k ∈ range (i + 1), s.b k ≤ s.count :=
    (Finset.sum_le_sum_of_subset (Finset.range_mono hi)).trans h.sum_le
  rw [cumulative_toHistogram d hi]
  exact ⟨Int64.toInt_ofNat_of_lt (by omega), Int64.toInt_ofNat_of_lt (by omega)⟩

/-- What `Histogram.exportLines` writes of its counters. -/
structure Histogram.Counts (h : Histogram) (vs : List Double) : Prop where
  buckets : ∀ (i : Nat) (hi : i < bucketBounds.length),
    (cumulative h.b i).toInt = vs.countP (atMost · bucketBounds[i])
  count : h.count.toInt = vs.length

theorem HistogramInv.counts (h : HistogramInv s) (hcalls : s.calls = [])
    (hfew : s.observed.length < 2 ^ 63) (d : Description) :
    (s.toHistogram d).Counts s.observed where
  buckets i hi := by
    have hsum : (cumulativeSums s.b bucketBounds.length)[i]? =
        (bucketBounds.map fun bound => s.observed.countP (atMost · bound))[i]? :=
      congrArg (·[i]?) (h.cumulativeSums_eq hcalls)
    rw [cumulativeSums, List.getElem?_map, List.getElem?_range hi, List.getElem?_map,
      List.getElem?_eq_getElem hi, Option.map_some, Option.map_some, Option.some.injEq] at hsum
    rw [(h.toInt_eq hfew d hi).1, hsum]
  count := by
    rw [(h.toInt_eq hfew d (by decide : 0 < bucketBounds.length)).2, h.count]

/-- For all observations, on whatever threads, and all orders of the atomic steps. The last
part is of the counters with their 64 bits. -/
theorem histogram_consistent (h : Reachable (histogramStep add) {} s) :
    (∀ e ∈ s.exports, e.Consistent) ∧
    (s.calls = [] → s.exporter = .idle →
      ∀ t, Run (histogramStep add) (fun _ a => a.exports = true) s t →
        ∀ e ∈ t.exports, e ∈ s.exports ∨ e.Counts s.observed) ∧
    (s.calls = [] → s.observed.length < 2 ^ 63 →
      ∀ d, (s.toHistogram d).Counts s.observed) := by
  have hinv := histogramInv_of_reachable h
  refine ⟨hinv.exports, fun hcalls hidle t hrun e he => ?_, hinv.counts⟩
  have honly : ExportsOnly s t := by
    refine hrun.invariant (ExportsOnly s) ⟨rfl, rfl, ?_, fun _ => .inl⟩
      fun _ _ _ hi ha hs => hi.step ha hs
    rw [hidle]
    trivial
  refine (honly.exports e he).imp_right fun hexport => ?_
  obtain ⟨hbuckets, hall, hcount⟩ := hexport
  exact ⟨hbuckets.trans (hinv.cumulativeSums_eq hcalls), hall.trans hinv.count,
    hcount.trans hinv.count⟩

/-- The sum of the doubles that the run below adds. -/
def exactSum : Double → Double → Double
  | .finite p, .finite q => .finite (p + q)
  | _, _ => .nan false

/-- Two calls at once, one of which has to exchange again. -/
def twoCalls : List HistogramAct :=
  [.observe (.finite 5), .observe (.finite 30), .step 0 false, .step 1 false, .step 1 false,
    .step 0 false, .step 0 false, .step 0 false, .step 0 false]

def oneExport : List HistogramAct := .exportText :: List.replicate 58 .load

theorem histogram_consistent_twoCalls : ∃ s t, exec (histogramStep exactSum) {} twoCalls = some s ∧
    exec (histogramStep exactSum) s oneExport = some t ∧
    ∃ e ∈ t.exports, e.Counts s.observed := by
  have hdone : (exec (histogramStep exactSum) {} twoCalls).map (fun s =>
      (s.calls.isEmpty, s.exports.isEmpty, decide (s.exporter = .idle))) =
      some (true, true, true) := by decide +kernel
  have hexported : ((exec (histogramStep exactSum) {} twoCalls).bind fun s =>
      exec (histogramStep exactSum) s oneExport).map (fun t =>
        t.exports.map fun e => (e.buckets, e.inf, e.count)) =
      some [([1, 1, 2, 2, 2, 2, 2, 2, 2, 2], 2, 2)] := by decide +kernel
  obtain ⟨t, hst, hview⟩ := Option.map_eq_some_iff.mp hexported
  obtain ⟨s, hs, ht⟩ := Option.bind_eq_some_iff.mp hst
  obtain ⟨e, he⟩ : ∃ e, e ∈ t.exports := by
    cases hexports : t.exports with
    | nil => simp [hexports] at hview
    | cons e es => exact ⟨e, List.mem_cons_self ..⟩
  rw [hs] at hdone
  simp only [Option.map_some, Option.some.injEq, Prod.mk.injEq, List.isEmpty_iff,
    decide_eq_true_eq] at hdone
  obtain ⟨hcalls, hnone, hidle⟩ := hdone
  have hacts : ∀ a ∈ oneExport, a.exports = true := by decide
  have hmem := (histogram_consistent (Reachable.of_exec hs)).2.1 hcalls hidle t
    (Run.of_exec_mem ht fun a ha _ => hacts a ha) e he
  refine ⟨s, t, hs, ht, e, he, hmem.resolve_left ?_⟩
  simp [hnone]

end Run

end LyqtRpc.Metrics
