import LyqtRpc.Lib.Exposition
import LyqtRpc.Lib.AssocTable
import LyqtRpc.Lib.JsonValue

/-!
`metrics.hpp`: counters, gauges and histograms in the registry, and the text that is
exported of them. An object is known by its address; its value is written through the
reference a caller got, without the registry.
-/

set_option autoImplicit false

namespace LyqtRpc.Metrics

open Exposition

abbrev Labels := List (Bytes × Bytes)

/-- `{key1="val1",key2="val2"}`, and nothing for no labels. -/
def formatLabels (ls : Labels) : Bytes :=
  if ls = [] then []
  else 123 :: ([44].intercalate (ls.map fun l => l.1 ++ str "=\"" ++ l.2 ++ str "\"") ++ [125])

/-- `existing` has been formatted. -/
def mergeLabels (existing extraKV : Bytes) : Bytes :=
  if existing = [] ∨ existing = [123, 125] then 123 :: (extraKV ++ [125])
  else existing.dropLast ++ 44 :: (extraKV ++ [125])

/-- What the constructors keep. -/
structure Description where
  name : Bytes
  help : Bytes
  labels : Bytes
  deriving DecidableEq

def describe (name help : Bytes) (ls : Labels) : Description where
  name := name
  help := help
  labels := formatLabels ls

structure Counter extends Description where
  value : Int64

structure Gauge extends Description where
  value : Double

/-- The upper bounds of the buckets. -/
def bucketBounds : List Nat := [10, 25, 50, 100, 250, 500, 1000, 5000, 10000, 50000]

/-- `b` has what fell into each bucket alone. -/
structure Histogram extends Description where
  count : Int64
  sum : Double
  b : Vector Int64 10

def Counter.create (name help : Bytes) (ls : Labels) : Counter :=
  { describe name help ls with value := 0 }

def Gauge.create (name help : Bytes) (ls : Labels) : Gauge :=
  { describe name help ls with value := .finite 0 }

def Histogram.create (name help : Bytes) (ls : Labels) : Histogram :=
  { describe name help ls with count := 0, sum := .finite 0, b := Vector.replicate 10 0 }

/-! The registry. -/

/-- The objects of one kind at their addresses; none is ever deleted. -/
structure Pool (M : Type) where
  objects : List M := []
  table : AList (fun _ : Bytes => Nat) := ∅

namespace Pool
variable {M : Type}

/-- `operator[]`, and `new` where it gives a null pointer. -/
def get (pool : Pool M) (key : Bytes) (new : M) : Nat × Pool M :=
  match pool.table.lookup key with
  | some p => (p, pool)
  | none =>
    (pool.objects.length,
      { objects := pool.objects ++ [new], table := pool.table.insert key pool.objects.length })

def modify (pool : Pool M) (p : Nat) (f : M → M) : Pool M :=
  { pool with objects := pool.objects.modify p f }

end Pool

structure Registry where
  counters : Pool Counter := {}
  gauges : Pool Gauge := {}
  hists : Pool Histogram := {}

def seriesKey (name : Bytes) (ls : Labels) : Bytes := name ++ formatLabels ls

namespace Registry

def counter (r : Registry) (name help : Bytes) (ls : Labels) : Nat × Registry :=
  let (p, counters) := r.counters.get (seriesKey name ls) (Counter.create name help ls)
  (p, { r with counters })

def gauge (r : Registry) (name help : Bytes) (ls : Labels) : Nat × Registry :=
  let (p, gauges) := r.gauges.get (seriesKey name ls) (Gauge.create name help ls)
  (p, { r with gauges })

def histogram (r : Registry) (name help : Bytes) (ls : Labels) : Nat × Registry :=
  let (p, hists) := r.hists.get (seriesKey name ls) (Histogram.create name help ls)
  (p, { r with hists })

end Registry

inductive Kind where
  | counter
  | gauge
  | histogram
  deriving DecidableEq

def Registry.get (r : Registry) : Kind → Bytes → Bytes → Labels → Nat × Registry
  | .counter => r.counter
  | .gauge => r.gauge
  | .histogram => r.histogram

/-- A call of the registry, or whatever a holder of a reference writes. -/
inductive Act where
  | get (kind : Kind) (name help : Bytes) (ls : Labels)
  | writeCounter (p : Nat) (value : Int64)
  | writeGauge (p : Nat) (value : Double)
  | writeHistogram (p : Nat) (count : Int64) (sum : Double) (b : Vector Int64 10)

def Registry.act (r : Registry) : Act → Registry
  | .get kind name help ls => (r.get kind name help ls).2
  | .writeCounter p value =>
    { r with counters := r.counters.modify p fun c => { c with value } }
  | .writeGauge p value => { r with gauges := r.gauges.modify p fun g => { g with value } }
  | .writeHistogram p count sum b =>
    { r with hists := r.hists.modify p fun h => { h with count, sum, b } }

/-- The registry after some acts. -/
def Registry.after (r : Registry) (acts : List Act) : Registry := acts.foldl Registry.act r

/-! The text. -/

inductive ExportLine where
  | help (name text : Bytes)
  | type (name text : Bytes)
  | sample (name labels value : Bytes)
  | blank
  deriving DecidableEq

def ExportLine.text : ExportLine → Bytes
  | .help name text => str "# HELP " ++ name ++ 32 :: text
  | .type name text => str "# TYPE " ++ name ++ 32 :: text
  | .sample name labels value => name ++ labels ++ 32 :: value
  | .blank => []

/-- What a stream with `setprecision(15)` writes of a number. -/
def doubleText : Double → Bytes
  | .finite q => Decimal.generalText 15 q
  | .infinite negative => if negative then str "-inf" else str "inf"
  | .nan negative => if negative then str "-nan" else str "nan"

def Counter.exportLines (c : Counter) : List ExportLine :=
  [.help c.name c.help, .type c.name (str "counter"),
    .sample c.name c.labels (integerText c.value.toInt), .blank]

theorem isWord_doubleText (d : Double) : IsWord (doubleText d) := by
  cases d with
  | finite q =>
    exact isWord_of_number (Decimal.generalText_ne_nil 15 q)
      fun _ => Decimal.isNumberByte_generalText
  | infinite negative => cases negative <;> exact isWord_of_all (by decide) (by decide)
  | nan negative => cases negative <;> exact isWord_of_all (by decide) (by decide)

/-- `n.size() > 6 && n.compare(n.size() - 6, 6, "_total") == 0` -/
def isTotal (n : Bytes) : Bool := 6 < n.length && n.drop (n.length - 6) = str "_total"

def Gauge.exportLines (g : Gauge) : List ExportLine :=
  [.help g.name g.help,
    .type g.name (if isTotal g.name then str "counter" else str "gauge"),
    .sample g.name g.labels (doubleText g.value), .blank]

/-- All that fell into the buckets up to `i`. -/
def cumulative (b : Vector Int64 10) (i : Nat) : Int64 := (b.toList.take (i + 1)).foldl (· + ·) 0

def Histogram.bucketLine (h : Histogram) (le : Bytes) (value : Int64) : ExportLine :=
  .sample (h.name ++ str "_bucket")
    (mergeLabels h.labels (str "le=\"" ++ le ++ str "\"")) (integerText value.toInt)

def Histogram.exportLines (h : Histogram) : List ExportLine :=
  [.help h.name h.help, .type h.name (str "histogram")] ++
    (bucketBounds.zipIdx.map fun (bound, i) => h.bucketLine (natText bound) (cumulative h.b i)) ++
    [h.bucketLine (str "+Inf") h.count,
      .sample (h.name ++ str "_sum") h.labels (doubleText h.sum),
      .sample (h.name ++ str "_count") h.labels (integerText h.count.toInt), .blank]

/-- The objects in the orders in which the three maps are iterated. -/
structure Iteration (r : Registry) where
  counters : List Counter
  gauges : List Gauge
  hists : List Histogram
  counters_perm : counters.Perm r.counters.objects
  gauges_perm : gauges.Perm r.gauges.objects
  hists_perm : hists.Perm r.hists.objects

def Iteration.lines {r : Registry} (order : Iteration r) : List ExportLine :=
  order.counters.flatMap Counter.exportLines ++
    order.gauges.flatMap Gauge.exportLines ++
    order.hists.flatMap Histogram.exportLines

def exportText {r : Registry} (order : Iteration r) : Bytes :=
  (order.lines).flatMap fun line => line.text ++ [10]

/-! One object a key. -/

theorem getElem?_of_prefix {α : Type} {xs ys : List α} {i : Nat} {x : α} (h : xs <+: ys)
    (hx : xs[i]? = some x) : ys[i]? = some x := by
  obtain ⟨zs, rfl⟩ := h
  rw [List.getElem?_append_left (List.getElem?_eq_some_iff.mp hx).1, hx]

def Description.key (d : Description) : Bytes := d.name ++ d.labels

namespace Pool
variable {M : Type} {describedBy : M → Description} {pool : Pool M} {key : Bytes} {new : M}

/-- What the objects keep, by address. -/
def descriptions (describedBy : M → Description) (pool : Pool M) : List Description :=
  pool.objects.map describedBy

/-- What the table finds has the key that was looked for. -/
def Indexed (describedBy : M → Description) (pool : Pool M) : Prop :=
  ∀ key p, pool.table.lookup key = some p →
    ∃ d, (pool.descriptions describedBy)[p]? = some d ∧ d.key = key

/-- A call adds at most its own object. -/
theorem descriptions_get :
    (pool.get key new).2.descriptions describedBy = pool.descriptions describedBy ∨
      (pool.get key new).2.descriptions describedBy =
        pool.descriptions describedBy ++ [describedBy new] := by
  unfold get
  split
  · exact .inl rfl
  · exact .inr (by simp [descriptions])

theorem get_key (h : pool.Indexed describedBy) (hnew : (describedBy new).key = key) :
    ∃ d, ((pool.get key new).2.descriptions describedBy)[(pool.get key new).1]? = some d ∧
      d.key = key := by
  unfold get
  split
  · rename_i p hp
    exact h key p hp
  · exact ⟨describedBy new, by simp [descriptions], hnew⟩

theorem Indexed.get (h : pool.Indexed describedBy) (hnew : (describedBy new).key = key) :
    (pool.get key new).2.Indexed describedBy := by
  intro key' p hp
  unfold Pool.get at hp ⊢
  split at hp
  · rename_i q hq
    exact h key' p hp
  · rename_i hnone
    dsimp only at hp ⊢
    rw [AssocTable.lookup_insert_ite] at hp
    split at hp
    · rename_i hkey
      obtain rfl := Option.some.inj hp
      exact ⟨describedBy new, by simp [descriptions], hnew.trans hkey.symm⟩
    · obtain ⟨d, hd, hkey⟩ := h key' p hp
      refine ⟨d, ?_, hkey⟩
      simp only [descriptions, List.map_append]
      exact getElem?_of_prefix (List.prefix_append _ _) hd

theorem descriptions_modify {p : Nat} {f : M → M} (h : ∀ m, describedBy (f m) = describedBy m) :
    (pool.modify p f).descriptions describedBy = pool.descriptions describedBy := by
  refine List.ext_getElem? fun i => ?_
  simp only [descriptions, modify, List.getElem?_map, List.getElem?_modify]
  cases pool.objects[i]? with
  | none => rfl
  | some m =>
    show some (describedBy (if p = i then f m else m)) = some (describedBy m)
    split
    · rw [h]
    · rfl

theorem Indexed.modify (h : pool.Indexed describedBy) {p : Nat} {f : M → M}
    (hf : ∀ m, describedBy (f m) = describedBy m) : (pool.modify p f).Indexed describedBy := by
  intro key q hq
  rw [descriptions_modify hf]
  exact h key q hq

end Pool

namespace Registry
variable {r : Registry}

structure Indexed (r : Registry) : Prop where
  counters : r.counters.Indexed Counter.toDescription
  gauges : r.gauges.Indexed Gauge.toDescription
  hists : r.hists.Indexed Histogram.toDescription

def descriptions (r : Registry) : Kind → List Description
  | .counter => r.counters.descriptions Counter.toDescription
  | .gauge => r.gauges.descriptions Gauge.toDescription
  | .histogram => r.hists.descriptions Histogram.toDescription

theorem Indexed.act (h : r.Indexed) (a : Act) : (r.act a).Indexed := by
  cases a with
  | get kind name help ls =>
    cases kind with
    | counter => exact ⟨h.counters.get rfl, h.gauges, h.hists⟩
    | gauge => exact ⟨h.counters, h.gauges.get rfl, h.hists⟩
    | histogram => exact ⟨h.counters, h.gauges, h.hists.get rfl⟩
  | writeCounter p value => exact ⟨h.counters.modify fun _ => rfl, h.gauges, h.hists⟩
  | writeGauge p value => exact ⟨h.counters, h.gauges.modify fun _ => rfl, h.hists⟩
  | writeHistogram p count sum b => exact ⟨h.counters, h.gauges, h.hists.modify fun _ => rfl⟩

/-- What an act can do: a call may add the object it describes. -/
theorem descriptions_act (a : Act) (kind : Kind) :
    (r.act a).descriptions kind = r.descriptions kind ∨
      ∃ name help ls, a = .get kind name help ls ∧
        (r.act a).descriptions kind = r.descriptions kind ++ [describe name help ls] := by
  cases a with
  | get kind' name help ls =>
    by_cases hkind : kind' = kind
    · subst hkind
      have hadds : (r.act (.get kind' name help ls)).descriptions kind' = r.descriptions kind' ∨
          (r.act (.get kind' name help ls)).descriptions kind' =
            r.descriptions kind' ++ [describe name help ls] := by
        cases kind' <;> exact Pool.descriptions_get
      exact hadds.imp_right fun hadd => ⟨name, help, ls, rfl, hadd⟩
    · left
      cases kind' <;> cases kind <;> first | exact absurd rfl hkind | rfl
  | writeCounter p value =>
    left
    cases kind with
    | counter => exact Pool.descriptions_modify fun _ => rfl
    | gauge => rfl
    | histogram => rfl
  | writeGauge p value =>
    left
    cases kind with
    | counter => rfl
    | gauge => exact Pool.descriptions_modify fun _ => rfl
    | histogram => rfl
  | writeHistogram p count sum b =>
    left
    cases kind with
    | counter => rfl
    | gauge => rfl
    | histogram => exact Pool.descriptions_modify fun _ => rfl

theorem prefix_act (a : Act) (kind : Kind) :
    r.descriptions kind <+: (r.act a).descriptions kind := by
  rcases descriptions_act a kind with hsame | ⟨name, help, ls, -, hadd⟩
  · exact ⟨[], by rw [List.append_nil, hsame]⟩
  · rw [hadd]
    exact List.prefix_append _ _

theorem Indexed.after (h : r.Indexed) (acts : List Act) : (r.after acts).Indexed := by
  induction acts generalizing r with
  | nil => exact h
  | cons a acts ih => exact ih (h.act a)

theorem prefix_after (acts : List Act) (kind : Kind) :
    r.descriptions kind <+: (r.after acts).descriptions kind := by
  induction acts generalizing r with
  | nil => exact List.prefix_rfl
  | cons a acts ih => exact (prefix_act a kind).trans ih

theorem indexed_empty : Indexed {} where
  counters _ _ h := nomatch h
  gauges _ _ h := nomatch h
  hists _ _ h := nomatch h

/-- Every object was described by a call. -/
theorem mem_descriptions_after {acts : List Act} {kind : Kind} {d : Description}
    (hd : d ∈ (r.after acts).descriptions kind) :
    d ∈ r.descriptions kind ∨
      ∃ name help ls, .get kind name help ls ∈ acts ∧ d = describe name help ls := by
  induction acts generalizing r with
  | nil => exact .inl hd
  | cons a acts ih =>
    rcases ih hd with hd | ⟨name, help, ls, hmem, rfl⟩
    · rcases descriptions_act a kind with hsame | ⟨name, help, ls, rfl, hadd⟩
      · exact .inl (hsame ▸ hd)
      · rw [hadd, List.mem_append, List.mem_singleton] at hd
        exact hd.imp_right fun hd => ⟨name, help, ls, List.mem_cons_self .., hd⟩
    · exact .inr ⟨name, help, ls, List.mem_cons_of_mem _ hmem, rfl⟩

theorem get_key (h : r.Indexed) (kind : Kind) (name help : Bytes) (ls : Labels) :
    ∃ d, ((r.get kind name help ls).2.descriptions kind)[(r.get kind name help ls).1]? = some d ∧
      d.key = seriesKey name ls := by
  cases kind with
  | counter => exact Pool.get_key h.counters rfl
  | gauge => exact Pool.get_key h.gauges rfl
  | histogram => exact Pool.get_key h.hists rfl

/-- Two calls get the same object only with the same key. -/
theorem get_same (h : r.Indexed) {kind : Kind} {name₁ name₂ help₁ help₂ : Bytes}
    {ls₁ ls₂ : Labels} {acts : List Act}
    (hsame : (((r.get kind name₁ help₁ ls₁).2.after acts).get kind name₂ help₂ ls₂).1 =
      (r.get kind name₁ help₁ ls₁).1) :
    seriesKey name₁ ls₁ = seriesKey name₂ ls₂ := by
  have hfirst : Indexed (r.get kind name₁ help₁ ls₁).2 := h.act (.get kind name₁ help₁ ls₁)
  obtain ⟨d₁, hd₁, hkey₁⟩ := get_key h kind name₁ help₁ ls₁
  obtain ⟨d₂, hd₂, hkey₂⟩ := get_key (hfirst.after acts) kind name₂ help₂ ls₂
  have hkept : (r.get kind name₁ help₁ ls₁).2.descriptions kind <+:
      (((r.get kind name₁ help₁ ls₁).2.after acts).get kind name₂ help₂ ls₂).2.descriptions
        kind :=
    (prefix_after acts kind).trans (prefix_act (.get kind name₂ help₂ ls₂) kind)
  rw [hsame, getElem?_of_prefix hkept hd₁, Option.some.injEq] at hd₂
  rw [← hkey₁, ← hkey₂, hd₂]

end Registry

end LyqtRpc.Metrics
