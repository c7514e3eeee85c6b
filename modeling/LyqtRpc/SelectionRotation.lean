import LyqtRpc.SelectionAgrees
import LyqtRpc.Lib.Replies

/-!
Selections one after the other, with the hosts and the loads unchanged: whose
turn it is, where `_idx` grows and where it is reduced.
-/

set_option autoImplicit false

namespace LyqtRpc

open Candidates Replies StepRun

section Turn
variable {n g idx : Nat}

theorem nextIdx_mod (idx n : Nat) : nextIdx idx n % n = (idx + 1) % n := by
  unfold nextIdx
  split
  · exact Nat.mod_mod _ _
  · rfl

/-- The index after so many selections. -/
def idxAfter (n idx count : Nat) : Nat := (fun k => nextIdx k n)^[count] idx

theorem idxAfter_succ (n idx count : Nat) :
    idxAfter n idx (count + 1) = nextIdx (idxAfter n idx count) n :=
  Function.iterate_succ_apply' _ _ _

/-- Where the index is reduced, it is still the turn of the same one of `g`. -/
def KeepsTurn (n g idx : Nat) : Prop :=
  MAX_IDX ≤ idx + 1 → (idx + 1) % n % g = (idx + 1) % g

theorem keepsTurn_iff : KeepsTurn n g idx ↔ nextIdx idx n % g = (idx + 1) % g := by
  unfold KeepsTurn nextIdx
  split
  · rename_i hreset
    exact ⟨fun h => h hreset, fun h _ => h⟩
  · rename_i hgrows
    exact ⟨fun _ => rfl, fun _ hreset => absurd hreset hgrows⟩

/-- Below both bounds the index only grows. -/
theorem nextIdx_of_lt (h : idx + 1 < max MAX_IDX n) : nextIdx idx n = idx + 1 := by
  unfold nextIdx
  split
  · rename_i hreset
    exact Nat.mod_eq_of_lt ((lt_max_iff.mp h).resolve_left (Nat.not_lt.mpr hreset))
  · rfl

theorem idxAfter_of_lt {count : Nat} (h : idx + count < max MAX_IDX n) :
    idxAfter n idx count = idx + count := by
  induction count with
  | zero => rfl
  | succ count ih =>
    have hgrows : idx + count + 1 < max MAX_IDX n := h
    rw [idxAfter_succ, ih (Nat.lt_of_succ_lt hgrows), nextIdx_of_lt hgrows, Nat.add_assoc]

theorem idxAfter_lt (hn : 0 < n) (hidx : idx < max MAX_IDX n) (count : Nat) :
    idxAfter n idx count < max MAX_IDX n := by
  cases count with
  | zero => exact hidx
  | succ count =>
    rw [idxAfter_succ]
    exact nextIdx_lt hn _

/-- A run keeps the turns if it ends before the index is reduced, and otherwise
if the bound itself leaves the same one of `g`, reduced or not. -/
theorem keepsTurns_iff (hn : 0 < n) (hidx : idx < max MAX_IDX n) (count : Nat) :
    (∀ i, i + 1 < count → KeepsTurn n g (idxAfter n idx i)) ↔
      idx + count ≤ max MAX_IDX n ∨ max MAX_IDX n % n % g = max MAX_IDX n % g := by
  constructor
  · intro h
    by_cases hcount : idx + count ≤ max MAX_IDX n
    · exact .inl hcount
    · right
      have hlast : idxAfter n idx (max MAX_IDX n - 1 - idx) + 1 = max MAX_IDX n := by
        rw [idxAfter_of_lt (by omega)]
        omega
      have hkeeps := h (max MAX_IDX n - 1 - idx) (by omega)
      rw [KeepsTurn, hlast] at hkeeps
      exact hkeeps (le_max_left ..)
  · intro h i hi
    have hbelow := idxAfter_lt hn hidx i
    rcases Nat.lt_or_ge (idxAfter n idx i + 1) (max MAX_IDX n) with hlt | hge
    · rw [keepsTurn_iff, nextIdx_of_lt hlt]
    · cases h with
      | inl hcount =>
        rw [idxAfter_of_lt (by omega)] at hge
        omega
      | inr hbound =>
        have heq : idxAfter n idx i + 1 = max MAX_IDX n := Nat.le_antisymm hbelow hge
        intro _
        rw [heq]
        exact hbound

end Turn

inductive Selection where
  | selectHost (draw : Nat)
  | selectHosts (shuffle : List Nat → List Nat)

namespace IndexedMethodHost
variable {hash : Bytes → Nat} {m : IndexedMethodHost}

/-- The host a caller tries first. -/
def select (hash : Bytes → Nat) (strategy : LoadBalanceStrategy) (key : Bytes)
    (m : IndexedMethodHost) : Selection → Option HostDetail × IndexedMethodHost
  | .selectHost draw => m.selectHost hash draw (.named strategy) key
  | .selectHosts shuffle =>
    let out := m.selectHosts hash shuffle (.named strategy) key
    (out.1.bind List.head?, out.2)

/-- The hosts that nobody undercuts. -/
def leastGroup (m : IndexedMethodHost) : List HostDetail :=
  m.details.filter (fun d => m.details.all (fun e => decide (d.load ≤ e.load)))

/-- The scan lists the group. -/
theorem leastGroup_eq (h : m.details ≠ []) : m.leastGroup = m.leastLoaded.map m.hostAt := by
  obtain ⟨hleast, hwho, _⟩ := scanLoads_spec m.details
  obtain ⟨j, hj⟩ := List.exists_mem_of_ne_nil _ (leastLoaded_ne_nil h)
  have hjlt := leastLoaded_lt hj
  have hjload : (m.hostAt j).load = (scanLoads m.details).1 := by
    rw [leastLoaded, hwho] at hj
    exact of_decide_eq_true (List.mem_filter.mp hj).2
  have hmem : ∀ i, i < m.details.length → m.hostAt i ∈ m.details :=
    fun i hi => List.mem_of_getElem? (getElem?_eq_hostAt hi)
  have hsplit : m.leastGroup = ((List.range m.details.length).map m.hostAt).filter
      (fun d => m.details.all (fun e => decide (d.load ≤ e.load))) := by
    rw [map_hostAt_range]
    rfl
  rw [hsplit, List.filter_map, leastLoaded, hwho]
  refine congrArg (List.map m.hostAt) (List.filter_congr (fun i hi => ?_))
  have hi : i < m.details.length := List.mem_range.mp hi
  rw [Bool.eq_iff_iff, Function.comp_apply, List.all_eq_true, hasLoad, decide_eq_true_eq]
  constructor
  · intro hall
    have hle := of_decide_eq_true (hall _ (hmem j hjlt))
    rw [hjload] at hle
    exact Int32.le_antisymm hle (hleast _ (hmem i hi))
  · intro hload e he
    exact decide_eq_true (hload ▸ hleast e he)

theorem leastGroup_ne_nil (h : m.details ≠ []) : m.leastGroup ≠ [] := by
  rw [leastGroup_eq h]
  exact fun hnil => leastLoaded_ne_nil h (List.map_eq_nil_iff.mp hnil)

theorem details_nodup : m.details.Nodup := m.nodup.of_map

theorem leastGroup_nodup : m.leastGroup.Nodup := details_nodup.filter _

/-- A caller that goes down the list starts with the host the others are given. -/
theorem select_of_list {strategy : LoadBalanceStrategy} {key : Bytes} {t : IndexedMethodHost}
    {first : Option HostDetail} {out : List HostDetail}
    (hhost : ∀ draw, m.selectHost hash draw (.named strategy) key = (first, t))
    (hhosts : ∀ shuffle, m.selectHosts hash shuffle (.named strategy) key = (some out, t))
    (hfirst : out.head? = first) (s : Selection) : m.select hash strategy key s = (first, t) := by
  cases s with
  | selectHost draw => exact hhost draw
  | selectHosts shuffle =>
    rw [select, hhosts]
    exact congrArg (·, t) hfirst

theorem select_roundRobin (h : m.details ≠ []) (key : Bytes) (s : Selection) :
    m.select hash .ROUND_ROBIN key s =
      (m.details[m.idx % m.details.length]?, m.advance) := by
  obtain ⟨out, picked, haround, hpick, hlist⟩ := roundRobin_list h
  have hturn : m.pickRoundRobin = (m.details[m.idx % m.details.length]?, m.advance) := if_neg h
  have hfirst : out.head? = some picked := hlist.first.trans (if_neg h)
  have hhead : out.head? = m.details[m.idx % m.details.length]? :=
    hfirst.trans (congrArg Prod.fst (hpick.symm.trans hturn))
  refine select_of_list (fun draw => ?_) (fun shuffle => ?_) hhead s
  · exact (if_neg h).trans hturn
  · exact (if_neg h).trans (congrArg (·, m.advance) haround)

theorem select_lowestLoad (h : m.details ≠ []) (key : Bytes) (s : Selection) :
    m.select hash .LOWEST_LOAD key s =
      (m.leastGroup[m.idx % m.leastGroup.length]?, m.advance) := by
  obtain ⟨out, picked, hload, hpick, hlist⟩ := lowestLoad_list h
  have hgroup := leastLoaded_ne_nil h
  have hlt : m.idx % m.leastLoaded.length < m.leastLoaded.length :=
    Nat.mod_lt _ (List.length_pos_iff.mpr hgroup)
  have hturn : m.pickLowestLoad =
      (m.leastGroup[m.idx % m.leastGroup.length]?, m.advance) := by
    rw [leastGroup_eq h, List.length_map, List.getElem?_map, List.getElem?_eq_getElem hlt]
    refine (if_neg h).trans ((if_neg hgroup).trans (congrArg (·, m.advance) ?_))
    have hhost := getElem?_eq_hostAt (leastLoaded_lt (List.getElem_mem hlt))
    exact (congrArg (fun i => i.bind (m.details[·]?)) (List.getElem?_eq_getElem hlt)).trans hhost
  have hfirst : out.head? = some picked := hlist.first.trans (if_neg h)
  have hhead : out.head? = m.leastGroup[m.idx % m.leastGroup.length]? :=
    hfirst.trans (congrArg Prod.fst (hpick.symm.trans hturn))
  refine select_of_list (fun draw => ?_) (fun shuffle => ?_) hhead s
  · exact (if_neg h).trans hturn
  · exact (if_neg h).trans (congrArg (·, m.advance) hload)

theorem advance_details_ne_nil (m : IndexedMethodHost) (h : m.details ≠ []) :
    m.advance.details ≠ [] := h

theorem advance_iterate (m : IndexedMethodHost) (count : Nat) :
    advance^[count] m = { m with idx := idxAfter m.details.length m.idx count } := by
  induction count with
  | zero => rfl
  | succ count ih =>
    rw [Function.iterate_succ_apply', ih, idxAfter_succ]
    rfl

/-- One position modulo the number of hosts, whatever the index. -/
theorem roundRobin_advances (h : m.details ≠ []) (key : Bytes) (sels : List Selection) :
    (answers (select hash .ROUND_ROBIN key) m sels).IsChain (Advances m.details) := by
  rw [answers_iterate advance_details_ne_nil (fun _ s hm => select_roundRobin hm key s) sels h]
  simp only [advance_iterate]
  refine (isChain_turns details_nodup h _ _).mpr (fun i _ => ?_)
  rw [idxAfter_succ, nextIdx_mod]

theorem lowestLoad_advances_iff (h : m.details ≠ []) (key : Bytes) (sels : List Selection) :
    (answers (select hash .LOWEST_LOAD key) m sels).IsChain (Advances m.leastGroup) ↔
      ∀ i, i + 1 < sels.length →
        KeepsTurn m.details.length m.leastGroup.length (idxAfter m.details.length m.idx i) := by
  rw [answers_iterate advance_details_ne_nil (fun _ s hm => select_lowestLoad hm key s) sels h]
  simp only [advance_iterate]
  refine (isChain_turns leastGroup_nodup (leastGroup_ne_nil h) _ _).trans ?_
  refine forall_congr' (fun i => imp_congr_right (fun _ => ?_))
  rw [idxAfter_succ, keepsTurn_iff]

end IndexedMethodHost

open IndexedMethodHost

/-- Both strategies move on by one position with every selection, if and only if
no reduction of the index between two of them changes whose turn it is. -/
theorem rotation_advances_iff {hash : Bytes → Nat} {m : IndexedMethodHost} (h : m.details ≠ [])
    (key : Bytes) (sels : List Selection) :
    ((answers (select hash .ROUND_ROBIN key) m sels).IsChain (Advances m.details) ∧
      (answers (select hash .LOWEST_LOAD key) m sels).IsChain (Advances m.leastGroup)) ↔
    ∀ i, i + 1 < sels.length →
      KeepsTurn m.details.length m.leastGroup.length (idxAfter m.details.length m.idx i) :=
  (and_iff_right (roundRobin_advances h key sels)).trans (lowestLoad_advances_iff h key sels)

/-- Selections alone take the index up to its bound. -/
theorem reachable_idx {hash : Bytes → Nat} {s m : IndexedMethodHost}
    (hm : Reachable (selectionStep hash) s m) (h : m.details ≠ []) (count : Nat)
    (hcount : m.idx + count < MAX_IDX) :
    Reachable (selectionStep hash) s { m with idx := m.idx + count } := by
  induction count with
  | zero => exact hm
  | succ count ih =>
    have hbelow : m.idx + count + 1 < max MAX_IDX m.details.length :=
      lt_max_of_lt_left hcount
    refine .snoc (a := .selectHost 0 (.named .ROUND_ROBIN) []) (ih (Nat.lt_of_succ_lt hcount))
      trivial (congrArg some ?_)
    have hselect := @select_roundRobin hash { m with idx := m.idx + count } h []
      (.selectHost 0)
    refine (congrArg Prod.snd hselect).trans ?_
    rw [advance, nextIdx_of_lt hbelow]
    rfl

/-- Two idle hosts and a busy one. -/
def idlePair : IndexedMethodHost :=
  { toMethodHostRing := twoHosts.appendHost byteHash ⟨str "10.0.0.3", 8080⟩ 5 }

theorem rotation_advances_idlePair :
    (answers (select byteHash .LOWEST_LOAD []) idlePair
      [.selectHost 0, .selectHost 0, .selectHost 0]).IsChain (Advances idlePair.leastGroup) := by
  have hdetails : idlePair.details ≠ [] := List.cons_ne_nil _ _
  refine ((rotation_advances_iff hdetails [] _).mpr ?_).2
  exact (keepsTurns_iff (by decide) (by decide) _).mpr (.inl (by decide))

def beforeReset : IndexedMethodHost := { idlePair with idx := 999999999 }

/-- At the reset `_idx` goes from 999999999 to 1000000000 % 3, and the second
idle host is taken twice. -/
theorem rotation_stutters : ¬ ∀ (hash : Bytes → Nat) (m : IndexedMethodHost),
    Reachable (selectionStep hash) {} m → m.details ≠ [] → ∀ key sels,
      (answers (select hash .ROUND_ROBIN key) m sels).IsChain (Advances m.details) ∧
      (answers (select hash .LOWEST_LOAD key) m sels).IsChain (Advances m.leastGroup) := by
  intro h
  have hdetails : beforeReset.details ≠ [] := List.cons_ne_nil _ _
  have hpair : Reachable (selectionStep byteHash) {} idlePair :=
    .of_exec (show exec (selectionStep byteHash) {} [.appendHost ⟨str "10.0.0.1", 8080⟩ 0,
      .appendHost ⟨str "10.0.0.2", 8080⟩ 0, .appendHost ⟨str "10.0.0.3", 8080⟩ 5] =
        some idlePair from rfl)
  have hreset : Reachable (selectionStep byteHash) {} beforeReset :=
    reachable_idx hpair hdetails 999999999 (by decide)
  have hchain := (h byteHash _ hreset hdetails [] [.selectHost 0, .selectHost 0]).2
  have hkeeps := (lowestLoad_advances_iff hdetails [] _).mp hchain 0 (by decide)
  exact absurd (hkeeps (by decide)) (by decide)

end LyqtRpc
