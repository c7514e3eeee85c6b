import LyqtRpc.HostSelection

/-!
The candidates `selectHosts` lists, for each strategy that draws no lots, and
the one `selectHost` takes.
-/

set_option autoImplicit false

namespace LyqtRpc

open Candidates StepRun

section Scan

theorem scanLoads_append (details : List HostDetail) (d : HostDetail) :
    scanLoads (details ++ [d]) =
      if d.load < (scanLoads details).1 then (d.load, [details.length])
      else if d.load = (scanLoads details).1 then
        ((scanLoads details).1, (scanLoads details).2 ++ [details.length])
      else scanLoads details := by
  simp only [scanLoads, List.zipIdx_append, List.zipIdx_singleton, List.foldl_append,
    List.foldl_cons, List.foldl_nil, Nat.zero_add]
  rfl

def hasLoad (details : List HostDetail) (load : Int32) (i : Nat) : Bool :=
  (details.getD i noHost).load = load

theorem filter_hasLoad_append (details : List HostDetail) (d : HostDetail) (load : Int32) :
    (List.range (details ++ [d]).length).filter (hasLoad (details ++ [d]) load) =
      (List.range details.length).filter (hasLoad details load) ++
        if d.load = load then [details.length] else [] := by
  have hold : ∀ i ∈ List.range details.length,
      hasLoad (details ++ [d]) load i = hasLoad details load i := by
    intro i hi
    have hi : i < details.length := List.mem_range.mp hi
    simp only [hasLoad, List.getD_eq_getElem?_getD, List.getElem?_append_left hi]
  have hnew : hasLoad (details ++ [d]) load details.length = decide (d.load = load) := by
    simp [hasLoad]
  rw [List.length_append, List.length_singleton, List.range_succ, List.filter_append,
    List.filter_congr hold, List.filter_singleton, hnew]
  split <;> simp_all

/-- The scan finds the least load, and everybody who has it, in order. -/
theorem scanLoads_spec (details : List HostDetail) :
    (∀ d ∈ details, (scanLoads details).1 ≤ d.load) ∧
      (scanLoads details).2 =
        (List.range details.length).filter (hasLoad details (scanLoads details).1) ∧
      (details ≠ [] → (scanLoads details).2 ≠ []) := by
  induction details using List.reverseRecOn with
  | nil => exact ⟨fun d hd => absurd hd List.not_mem_nil, rfl, fun h => absurd rfl h⟩
  | append_singleton details d ih =>
    obtain ⟨hleast, hwho, hsome⟩ := ih
    have hbelow : ∀ best : Int32, (∀ x ∈ details, best ≤ x.load) → best ≤ d.load →
        ∀ x ∈ details ++ [d], best ≤ x.load := by
      intro best hold hnew x hx
      cases List.mem_append.mp hx with
      | inl hx => exact hold x hx
      | inr hx => exact List.mem_singleton.mp hx ▸ hnew
    rw [scanLoads_append]
    split
    · rename_i hlt
      refine ⟨hbelow _ (fun x hx => ?_) (Int32.le_refl _), ?_, fun _ => List.cons_ne_nil _ _⟩
      · exact Int32.le_of_lt (Int32.lt_of_lt_of_le hlt (hleast x hx))
      · -- whoever was listed before has a greater load
        have hnone : (List.range details.length).filter (hasLoad details d.load) = [] := by
          refine List.filter_eq_nil_iff.mpr (fun i hi => ?_)
          have hi : i < details.length := List.mem_range.mp hi
          have hload := Int32.lt_of_lt_of_le hlt (hleast details[i] (List.getElem_mem hi))
          have hne := (Int32.lt_iff_le_and_ne.mp hload).2
          simpa [hasLoad, List.getElem?_eq_getElem hi] using fun h => hne h.symm
        rw [filter_hasLoad_append, hnone, if_pos rfl, List.nil_append]
    · split
      · rename_i heq
        refine ⟨hbelow _ hleast (heq ▸ Int32.le_refl _), ?_, fun _ => ?_⟩
        · rw [filter_hasLoad_append, if_pos heq, ← hwho]
        · exact List.append_ne_nil_of_right_ne_nil _ (List.cons_ne_nil _ _)
      · rename_i hlt hne
        refine ⟨hbelow _ hleast (Int32.not_lt.mp hlt), ?_, fun _ => hsome ?_⟩
        · rw [filter_hasLoad_append, if_neg hne, List.append_nil, ← hwho]
        · -- the first load is never above `INT_MAX`
          rintro rfl
          exact hlt (Int32.lt_iff_le_and_ne.mpr ⟨Int32.le_maxValue _, hne⟩)

end Scan

namespace IndexedMethodHost
variable {hash : Bytes → Nat} {m : IndexedMethodHost}

def hostAt (m : IndexedMethodHost) (i : Nat) : HostDetail := m.details.getD i noHost

theorem getElem?_eq_hostAt {i : Nat} (h : i < m.details.length) :
    m.details[i]? = some (m.hostAt i) := by
  simp [hostAt, h]

theorem hostsAt_eq {order : List Nat} (h : ∀ i ∈ order, i < m.details.length) :
    m.hostsAt order = some (order.map m.hostAt) := by
  refine mapM_eq_some ?_
  rw [List.map_map]
  exact List.map_congr_left (fun i hi => getElem?_eq_hostAt (h i hi))

theorem map_hostAt_range : (List.range m.details.length).map m.hostAt = m.details := by
  refine List.ext_getElem (by simp) (fun i hi hi' => ?_)
  simp [hostAt, hi']

theorem around_eq (start : Nat) : m.around start = some (m.details.rotate start) :=
  mapM_eq_some (map_getElem?_add_mod m.details start)

/-- The hosts of the least load, in their order. -/
def leastLoaded (m : IndexedMethodHost) : List Nat := (scanLoads m.details).2

theorem leastLoaded_ne_nil (h : m.details ≠ []) : m.leastLoaded ≠ [] :=
  (scanLoads_spec m.details).2.2 h

theorem leastLoaded_lt {i : Nat} (h : i ∈ m.leastLoaded) : i < m.details.length := by
  rw [leastLoaded, (scanLoads_spec m.details).2.1] at h
  exact List.mem_range.mp (List.mem_filter.mp h).1

theorem loadOrder_eq : m.loadOrder =
    (List.range m.details.length).mergeSort (byKey (fun i => (m.loadAt i).toInt)) := by
  refine congrArg (fun le => List.mergeSort (List.range m.details.length) le)
    (funext fun a => funext fun b => ?_)
  rw [← decide_not]
  exact decide_eq_decide.mpr (Int32.not_lt.trans Int32.le_iff_toInt_le)

theorem loadOrder_perm : m.loadOrder.Perm (List.range m.details.length) :=
  List.mergeSort_perm _ _

theorem loadOrder_sorted : m.loadOrder.Pairwise (fun a b => m.loadAt a ≤ m.loadAt b) := by
  rw [loadOrder_eq]
  refine (pairwise_mergeSort_key (fun i => (m.loadAt i).toInt) _).imp (fun h => ?_)
  exact Int32.le_iff_toInt_le.mpr h

theorem takeWhile_loadOrder :
    m.loadOrder.takeWhile (fun i => m.loadAt i = (scanLoads m.details).1) = m.leastLoaded := by
  have hbest := scanLoads_spec m.details
  have hleast : ∀ i ∈ m.loadOrder,
      (scanLoads m.details).1.toInt ≤ (m.loadAt i).toInt := by
    intro i hi
    have hi : i < m.details.length := List.mem_range.mp (loadOrder_perm.mem_iff.mp hi)
    refine Int32.le_iff_toInt_le.mp (hbest.1 _ ?_)
    simp [hi]
  have hkey : ∀ i, decide ((m.loadAt i).toInt = (scanLoads m.details).1.toInt) =
      decide (m.loadAt i = (scanLoads m.details).1) :=
    fun i => decide_eq_decide.mpr Int32.toInt_inj
  have hsorted := pairwise_mergeSort_key (fun i => (m.loadAt i).toInt)
    (List.range m.details.length)
  rw [← loadOrder_eq] at hsorted
  have htake := takeWhile_eq_filter hsorted hleast
  have hfilter := filter_mergeSort_key (fun i => (m.loadAt i).toInt)
    (List.range m.details.length) (scanLoads m.details).1.toInt
  rw [← loadOrder_eq] at hfilter
  simp only [hkey] at htake hfilter
  rw [htake, hfilter, leastLoaded, hbest.2.1]
  rfl

/-- In the sorted order the hosts of the least load come first, as the scan
lists them, and `best_cnt` counts them. -/
theorem loadOrder_split (h : m.details ≠ []) :
    ∃ rest, m.loadOrder = m.leastLoaded ++ rest ∧
      m.bestCount m.loadOrder = m.leastLoaded.length := by
  have htake := @takeWhile_loadOrder m
  have hsplit := List.takeWhile_append_dropWhile
    (p := fun i => decide (m.loadAt i = (scanLoads m.details).1)) (l := m.loadOrder)
  rw [htake] at hsplit
  refine ⟨_, hsplit.symm, ?_⟩
  cases horder : m.loadOrder with
  | nil =>
    rw [horder] at htake
    exact absurd htake.symm (leastLoaded_ne_nil h)
  | cons first order =>
    rw [horder] at htake
    have hfirst : m.loadAt first = (scanLoads m.details).1 := by
      by_contra hne
      rw [List.takeWhile_cons_of_neg (by simpa using hne)] at htake
      exact leastLoaded_ne_nil h htake.symm
    rw [List.takeWhile_cons_of_pos (by simpa using hfirst)] at htake
    rw [← htake, List.length_cons, bestCount, hfirst, Nat.add_comm]

theorem byLoad_eq {rest : List Nat} (hsplit : m.loadOrder = m.leastLoaded ++ rest)
    (hbest : m.bestCount m.loadOrder = m.leastLoaded.length) :
    m.byLoad = some ((m.leastLoaded.rotate m.idx ++ rest).map m.hostAt) := by
  have hfront : (List.range m.leastLoaded.length).mapM (fun i =>
      m.loadOrder[(m.idx + i) % m.leastLoaded.length]?.bind (m.details[·]?)) =
        some ((m.leastLoaded.rotate m.idx).map m.hostAt) := by
    refine mapM_eq_some ?_
    have hturn := congrArg (List.map (fun o : Option Nat => o.bind (m.details[·]?)))
      (map_getElem?_add_mod m.leastLoaded m.idx)
    rw [List.map_map, List.map_map] at hturn
    refine Eq.trans (List.map_congr_left (fun i hi => ?_)) (hturn.trans ?_)
    · have hlt : (m.idx + i) % m.leastLoaded.length < m.leastLoaded.length :=
        Nat.mod_lt _ (Nat.zero_lt_of_lt (List.mem_range.mp hi))
      rw [hsplit, List.getElem?_append_left hlt]
      rfl
    · rw [List.map_map]
      exact List.map_congr_left (fun i hi =>
        getElem?_eq_hostAt (leastLoaded_lt (List.mem_rotate.mp hi)))
  have hrest : m.hostsAt (m.loadOrder.drop m.leastLoaded.length) = some (rest.map m.hostAt) := by
    rw [hsplit, List.drop_left]
    refine hostsAt_eq (fun i hi => List.mem_range.mp (loadOrder_perm.mem_iff.mp ?_))
    rw [hsplit]
    exact List.mem_append_right _ hi
  unfold byLoad
  dsimp only
  rw [hbest, hfront, hrest, List.map_append]
  rfl

end IndexedMethodHost

end LyqtRpc
