import LyqtRpc.SelectionOrder

/-!
`selectHosts` against `selectHost`: the first candidate is the host that
`selectHost` takes, and whoever tries them all has tried every host once.
-/

set_option autoImplicit false

namespace LyqtRpc

open Candidates StepRun

namespace IndexedMethodHost
variable {hash : Bytes → Nat} {m : IndexedMethodHost}

/-- `--remaining`: it counts what is not marked. -/
theorem count_mark {seen : List Bool} {i : Nat} (hi : seen[i]? = some false) :
    (seen.set i true).count false = seen.count false - 1 := by
  obtain ⟨hlt, hcell⟩ := List.getElem?_eq_some_iff.mp hi
  rw [List.count_set hlt, hcell]
  simp

/-- The loop lists what is not marked yet, each index where it is met first. -/
theorem unseen_spec (is : List Nat) (seen : List Bool) (hlt : ∀ i ∈ is, i < seen.length) :
    ∃ order : List Nat, unseen is seen (seen.count false) = some order ∧ order.Nodup ∧
      (∀ i, i ∈ order ↔ i ∈ is ∧ seen[i]? = some false) ∧
      (∀ i, is.head? = some i → seen[i]? = some false → order.head? = some i) := by
  induction is generalizing seen with
  | nil =>
    exact ⟨[], rfl, List.nodup_nil, fun i => by simp, fun i hi => absurd hi (by simp)⟩
  | cons i is ih =>
    have hi : i < seen.length := hlt i (List.mem_cons_self ..)
    have his : ∀ j ∈ is, j < seen.length := fun j hj => hlt j (List.mem_cons_of_mem i hj)
    by_cases hnone : seen.count false = 0
    · have hmarked : ∀ j, seen[j]? ≠ some false := fun j hj =>
        List.count_eq_zero.mp hnone (List.mem_of_getElem? hj)
      refine ⟨[], ?_, List.nodup_nil, fun j => ?_, fun j _ hj => absurd hj (hmarked j)⟩
      · rw [unseen, if_pos hnone]
      · simp [hmarked j]
    · cases hseen : seen[i]? with
      | none => exact absurd (List.getElem?_eq_none_iff.mp hseen) (by omega)
      | some marked =>
        cases marked with
        | true =>
          obtain ⟨order, horder, hnodup, hmem, _⟩ := ih seen his
          refine ⟨order, ?_, hnodup, fun j => ?_, fun j hj hfalse => ?_⟩
          · rw [unseen, if_neg hnone, hseen]
            exact horder
          · rw [hmem, List.mem_cons]
            constructor
            · exact fun h => ⟨.inr h.1, h.2⟩
            · rintro ⟨rfl | hj, hfalse⟩
              · rw [hseen] at hfalse
                cases hfalse
              · exact ⟨hj, hfalse⟩
          · obtain rfl := Option.some.inj hj
            rw [hseen] at hfalse
            cases hfalse
        | false =>
          obtain ⟨order, horder, hnodup, hmem, _⟩ :=
            ih (seen.set i true) (fun j hj => (his j hj).trans_eq List.length_set.symm)
          rw [count_mark hseen] at horder
          have hself : (seen.set i true)[i]? = some true := List.getElem?_set_self hi
          refine ⟨i :: order, ?_, List.nodup_cons.mpr ⟨fun h => ?_, hnodup⟩, fun j => ?_,
            fun j hj _ => hj⟩
          · rw [unseen, if_neg hnone, hseen]
            show (unseen is (seen.set i true) (seen.count false - 1)).map (i :: ·) = _
            rw [horder]
            rfl
          · rw [hmem, hself] at h
            exact absurd h.2 (by simp)
          · rw [List.mem_cons, List.mem_cons, hmem]
            by_cases hj : j = i
            · subst hj
              simp [hseen]
            · rw [List.getElem?_set_ne (Ne.symm hj)]
              simp [hj]

/-- Every host has a node left on the ring. -/
def AllOnRing (m : IndexedMethodHost) : Prop :=
  ∀ i < m.details.length, ∃ e ∈ m.ring.entries, e.2 = i

theorem alongRing_spec (h : RingCurrent hash m.toMethodHostRing) {k : Nat} {e : Nat × Nat}
    (he : m.ring.clockwise k = some e) :
    ∃ order : List Nat, m.alongRing k = some (order.map m.hostAt) ∧ order.Nodup ∧
      (∀ i ∈ order, i < m.details.length) ∧ order.head? = some e.2 ∧
      (m.AllOnRing → order.Perm (List.range m.details.length)) := by
  have hmet : ∀ i, i ∈ (m.ring.clockwiseFrom k).map (·.2) ↔ ∃ f ∈ m.ring.entries, f.2 = i := by
    intro i
    rw [List.mem_map]
    exact exists_congr (fun f => and_congr_left'
      (OrderedMap.clockwiseFrom_perm m.ring k).mem_iff)
  have hlt : ∀ i ∈ (m.ring.clockwiseFrom k).map (·.2), i < m.details.length := by
    intro i hi
    obtain ⟨f, hf, rfl⟩ := (hmet i).mp hi
    exact ring_index_lt h hf
  have hfirst : ((m.ring.clockwiseFrom k).map (·.2)).head? = some e.2 := by
    rw [List.head?_map, OrderedMap.head?_clockwiseFrom, he]
    rfl
  have hunmarked : ∀ i, i < m.details.length →
      (List.replicate m.details.length false)[i]? = some false :=
    fun i hi => List.getElem?_replicate_of_lt hi
  obtain ⟨order, horder, hnodup, hmem, hhead⟩ := unseen_spec
    ((m.ring.clockwiseFrom k).map (·.2)) (List.replicate m.details.length false)
    (fun i hi => (hlt i hi).trans_eq List.length_replicate.symm)
  rw [List.count_replicate_self] at horder
  have hin : ∀ i ∈ order, i < m.details.length := fun i hi => hlt i ((hmem i).mp hi).1
  refine ⟨order, ?_, hnodup, hin, hhead e.2 hfirst (hunmarked e.2 ?_), fun hall => ?_⟩
  · rw [alongRing, horder]
    exact hostsAt_eq hin
  · exact hlt e.2 (List.mem_of_head? hfirst)
  · refine (List.perm_ext_iff_of_nodup hnodup List.nodup_range).mpr (fun i => ?_)
    rw [List.mem_range]
    exact ⟨hin i, fun hi => (hmem i).mpr ⟨(hmet i).mpr (hall i hi), hunmarked i hi⟩⟩

theorem nodup_hostsOf_map {order : List Nat} (hnodup : order.Nodup)
    (hlt : ∀ i ∈ order, i < m.details.length) : (hostsOf (order.map m.hostAt)).Nodup := by
  rw [hostsOf, List.map_map]
  refine hnodup.map_on (fun i hi j hj hsame => ?_)
  have hi' := hlt i hi
  have hj' := hlt j hj
  have hhost : m.hosts[i]? = m.hosts[j]? := by
    simp only [MethodHost.hosts, hostsOf, List.getElem?_map, getElem?_eq_hostAt hi',
      getElem?_eq_hostAt hj', Option.map_some]
    exact congrArg some hsame
  have hlength : i < m.hosts.length := hi'.trans_eq (List.length_map _).symm
  exact (List.getElem?_inj hlength m.nodup).mp hhost

theorem nodup_hostsOf_perm {out : List HostDetail} (h : out.Perm m.details) :
    (hostsOf out).Nodup := by
  have hhosts : (hostsOf out).Perm (hostsOf m.details) := h.map HostDetail.host
  exact hhosts.nodup_iff.mpr m.nodup

/-- What the candidates of a strategy that draws no lots are like. -/
structure CandidateList (m : IndexedMethodHost) (strategy : LoadBalanceStrategy)
    (out : List HostDetail) (picked : HostDetail) : Prop where
  first : out.head? = if m.details = [] then none else some picked
  nodup : (hostsOf out).Nodup
  all : (strategy = .CONSISTENT_HASH → m.AllOnRing) → out.Perm m.details
  byLoad : strategy = .LOWEST_LOAD → out.Pairwise (fun d e => d.load ≤ e.load)

/-- No random number decides. -/
def Deterministic (strategy : LoadBalanceStrategy) (key : Bytes) : Prop :=
  strategy = .ROUND_ROBIN ∨ strategy = .LOWEST_LOAD ∨
    (strategy = .SOURCE_HASH ∨ strategy = .CONSISTENT_HASH) ∧ key ≠ []

/-- All hosts once around, whatever the position to start from. -/
theorem around_list (h : m.details ≠ []) (start : Nat) {strategy : LoadBalanceStrategy}
    (hload : strategy ≠ .LOWEST_LOAD) : ∃ out picked,
    m.around start = some out ∧ m.details[start % m.details.length]? = some picked ∧
    m.CandidateList strategy out picked := by
  have hlt : start % m.details.length < m.details.length :=
    Nat.mod_lt _ (List.length_pos_iff.mpr h)
  have hpicked := getElem?_eq_hostAt hlt
  have hperm := List.rotate_perm m.details start
  refine ⟨_, _, around_eq start, hpicked, ?_, nodup_hostsOf_perm hperm, fun _ => hperm,
    fun heq => absurd heq hload⟩
  rw [if_neg h, head?_rotate_mod h, hpicked]

theorem roundRobin_list (h : m.details ≠ []) : ∃ out picked,
    m.around (m.idx % m.details.length) = some out ∧
    m.pickRoundRobin = (some picked, m.advance) ∧
    m.CandidateList .ROUND_ROBIN out picked := by
  obtain ⟨out, picked, haround, hpicked, hlist⟩ :=
    @around_list m h (m.idx % m.details.length) .ROUND_ROBIN (by decide)
  rw [Nat.mod_mod] at hpicked
  exact ⟨out, picked, haround, by rw [pickRoundRobin, if_neg h, hpicked], hlist⟩

theorem sourceHash_list (hash : Bytes → Nat) (h : m.details ≠ []) {key : Bytes}
    (hkey : key ≠ []) : ∃ out picked,
    m.around (hash key % m.details.length) = some out ∧
    (∀ draw, m.pickSourceHash hash draw key = some picked) ∧
    m.CandidateList .SOURCE_HASH out picked := by
  obtain ⟨out, picked, haround, hpicked, hlist⟩ :=
    @around_list m h (hash key % m.details.length) .SOURCE_HASH (by decide)
  rw [Nat.mod_mod] at hpicked
  refine ⟨out, picked, haround, fun draw => ?_, hlist⟩
  rw [pickSourceHash, if_neg hkey, if_neg h, hpicked]

theorem lowestLoad_list (h : m.details ≠ []) : ∃ out picked,
    m.byLoad = some out ∧ m.pickLowestLoad = (some picked, m.advance) ∧
    m.CandidateList .LOWEST_LOAD out picked := by
  obtain ⟨rest, hsplit, hbest⟩ := loadOrder_split h
  have hgroup : m.leastLoaded ≠ [] := leastLoaded_ne_nil h
  have hlt : m.idx % m.leastLoaded.length < m.leastLoaded.length :=
    Nat.mod_lt _ (List.length_pos_iff.mpr hgroup)
  have hmember : m.leastLoaded[m.idx % m.leastLoaded.length]? =
      some m.leastLoaded[m.idx % m.leastLoaded.length] := List.getElem?_eq_getElem hlt
  have hindex := leastLoaded_lt (List.getElem_mem hlt)
  have hperm : ((m.leastLoaded.rotate m.idx ++ rest).map m.hostAt).Perm m.details := by
    have horder : (m.leastLoaded.rotate m.idx ++ rest).Perm (List.range m.details.length) :=
      ((List.rotate_perm _ _).append_right rest).trans (hsplit ▸ loadOrder_perm)
    exact (horder.map m.hostAt).trans (List.Perm.of_eq map_hostAt_range)
  refine ⟨_, m.hostAt m.leastLoaded[m.idx % m.leastLoaded.length], byLoad_eq hsplit hbest,
    ?_, ?_, nodup_hostsOf_perm hperm, fun _ => hperm, fun _ => ?_⟩
  · have hpick : (m.leastLoaded[m.idx % m.leastLoaded.length]?.bind (m.details[·]?)) =
        some (m.hostAt m.leastLoaded[m.idx % m.leastLoaded.length]) := by
      rw [hmember]
      exact getElem?_eq_hostAt hindex
    rw [pickLowestLoad, if_neg h]
    exact (if_neg hgroup).trans (congrArg (·, m.advance) hpick)
  · rw [if_neg h, List.head?_map, List.head?_append, head?_rotate_mod hgroup, hmember]
    rfl
  · -- the loads of the group in front are all the same
    have hsorted := @loadOrder_sorted m
    rw [hsplit] at hsorted
    obtain ⟨hfront, hback, hcross⟩ := List.pairwise_append.mp hsorted
    refine List.pairwise_map.mpr (List.pairwise_append.mpr ⟨?_, hback, fun i hi j hj => ?_⟩)
    · refine List.pairwise_of_forall_mem_list (fun i hi j hj => ?_)
      have hload : ∀ i ∈ m.leastLoaded, m.loadAt i = (scanLoads m.details).1 := by
        intro i hi
        rw [leastLoaded, (scanLoads_spec m.details).2.1] at hi
        exact of_decide_eq_true (List.mem_filter.mp hi).2
      have hsame : m.loadAt i = m.loadAt j :=
        (hload i (List.mem_rotate.mp hi)).trans (hload j (List.mem_rotate.mp hj)).symm
      show m.loadAt i ≤ m.loadAt j
      rw [hsame]
      exact Int32.le_refl _
    · exact hcross i (List.mem_rotate.mp hi) j hj

theorem consistentHash_list (hring : RingCurrent hash m.toMethodHostRing) (h : m.details ≠ [])
    {key : Bytes} (hkey : key ≠ []) : ∃ out picked,
    m.ring.entries ≠ [] ∧ m.alongRing (hash key) = some out ∧
    (∀ draw, m.pickConsistentHash hash draw key = some picked) ∧
    m.CandidateList .CONSISTENT_HASH out picked := by
  obtain ⟨d, hd⟩ := List.exists_mem_of_ne_nil _ h
  obtain ⟨e, he⟩ := clockwise_isSome hring (List.mem_map_of_mem hd) (hash key)
  obtain ⟨order, horder, hnodup, hlt, hhead, hall⟩ := alongRing_spec hring he
  have hindex : e.2 < m.details.length := hlt e.2 (List.mem_of_head? hhead)
  have hentries : m.ring.entries ≠ [] := fun hnil => by
    rw [OrderedMap.clockwise_eq_none.mpr hnil] at he
    cases he
  refine ⟨_, m.hostAt e.2, hentries, horder, fun draw => ?_, ?_, nodup_hostsOf_map hnodup hlt,
    fun hon => ?_, fun hstrategy => by cases hstrategy⟩
  · rw [MethodHostRing.pickConsistentHash, if_neg hkey, he]
    exact getElem?_eq_hostAt hindex
  · rw [if_neg h, List.head?_map, hhead]
    rfl
  · exact ((hall (hon rfl)).map m.hostAt).trans (List.Perm.of_eq map_hostAt_range)

theorem nohosts_list (h : m.details = []) (strategy : LoadBalanceStrategy)
    (picked : HostDetail) : m.CandidateList strategy [] picked := by
  refine ⟨?_, List.nodup_nil, fun _ => ?_, fun _ => List.Pairwise.nil⟩
  · rw [if_pos h]
    rfl
  · rw [h]

end IndexedMethodHost

open IndexedMethodHost

/-- Both selections leave the same state, the list starts with the host that
`selectHost` takes, and it is what a caller needs who tries them in order. -/
theorem selectHosts_agrees {hash : Bytes → Nat} {m : IndexedMethodHost}
    (hm : Reachable (selectionStep hash) {} m) {strategy : LoadBalanceStrategy} {key : Bytes}
    (hdet : Deterministic strategy key) :
    ∃ out picked after,
      (∀ shuffle, m.selectHosts hash shuffle (.named strategy) key = (some out, after)) ∧
      (∀ draw, m.selectHost hash draw (.named strategy) key = (some picked, after)) ∧
      m.CandidateList strategy out picked := by
  by_cases h : m.details = []
  · refine ⟨[], noHost, m, fun shuffle => ?_, fun draw => ?_, nohosts_list h strategy noHost⟩
    · exact if_pos h
    · exact if_pos h
  · obtain rfl | rfl | ⟨rfl | rfl, hkey⟩ := hdet
    · obtain ⟨out, picked, haround, hpick, hlist⟩ := roundRobin_list h
      refine ⟨out, picked, m.advance, fun shuffle => ?_, fun draw => ?_, hlist⟩
      · exact (if_neg h).trans (congrArg (·, m.advance) haround)
      · exact (if_neg h).trans hpick
    · obtain ⟨out, picked, hload, hpick, hlist⟩ := lowestLoad_list h
      refine ⟨out, picked, m.advance, fun shuffle => ?_, fun draw => ?_, hlist⟩
      · exact (if_neg h).trans (congrArg (·, m.advance) hload)
      · exact (if_neg h).trans hpick
    · obtain ⟨out, picked, haround, hpick, hlist⟩ := sourceHash_list hash h hkey
      refine ⟨out, picked, m, fun shuffle => ?_, fun draw => ?_, hlist⟩
      · exact (if_neg h).trans ((if_neg hkey).trans (congrArg (·, m) haround))
      · exact (if_neg h).trans (congrArg (·, m) (hpick draw))
    · obtain ⟨out, picked, hentries, hwalk, hpick, hlist⟩ :=
        consistentHash_list (selection_current hm) h hkey
      refine ⟨out, picked, m, fun shuffle => ?_, fun draw => ?_, hlist⟩
      · have hring : ¬(key = [] ∨ m.ring.entries = []) := not_or.mpr ⟨hkey, hentries⟩
        exact (if_neg h).trans ((if_neg hring).trans (congrArg (·, m) hwalk))
      · exact (if_neg h).trans (congrArg (·, m) (hpick draw))

/-- Two hosts, and it is the turn of the second. -/
def secondTurn : IndexedMethodHost := { toMethodHostRing := twoHosts, idx := 1 }

theorem selectHosts_agrees_secondTurn :
    ∃ out picked after,
      (∀ shuffle, secondTurn.selectHosts byteHash shuffle (.named .ROUND_ROBIN) [] =
        (some out, after)) ∧
      (∀ draw, secondTurn.selectHost byteHash draw (.named .ROUND_ROBIN) [] =
        (some picked, after)) ∧
      secondTurn.CandidateList .ROUND_ROBIN out picked ∧
      picked = ⟨⟨str "10.0.0.2", 8080⟩, 0⟩ := by
  have hreach : Reachable (selectionStep byteHash) {} secondTurn :=
    .of_exec (show exec (selectionStep byteHash) {} [.appendHost ⟨str "10.0.0.1", 8080⟩ 0,
      .appendHost ⟨str "10.0.0.2", 8080⟩ 0, .selectHost 0 (.named .ROUND_ROBIN) []] =
        some secondTurn from rfl)
  obtain ⟨out, picked, after, hlist, hone, hall⟩ :=
    @selectHosts_agrees byteHash secondTurn hreach .ROUND_ROBIN [] (.inl rfl)
  have hpicked : (secondTurn.selectHost byteHash 0 (.named .ROUND_ROBIN) []).1 =
      some ⟨⟨str "10.0.0.2", 8080⟩, 0⟩ := rfl
  rw [hone 0] at hpicked
  exact ⟨out, picked, after, hlist, hone, hall, Option.some.inj hpicked⟩

end LyqtRpc
