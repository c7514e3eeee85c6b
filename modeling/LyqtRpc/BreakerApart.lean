import LyqtRpc.CircuitBreaker

/-!
The breaker of one method on one host is a machine of its own: what `CircuitBreaker` does for
all other keys does not show in it.
-/

set_option autoImplicit false

namespace LyqtRpc

open StepRun AssocTable

/-! What one key sees of a thread. -/

def NodeCall.entry : NodeCall → BreakerEntry
  | .allowRequest => .allowRequest
  | .onSuccess => .onSuccess
  | .onFailure => .onFailure

def NodePc.pc : NodePc → BreakerPc
  | .lookup => .lookup
  | .load => .load
  | .insert node => .insert node
  | .ready n => .ready n
  | .changed n => .changed n
  | .save n status => .save n status

namespace CircuitPc

/-- A `removeHost` waits until its walk comes to the method. -/
def seen (method host : Bytes) : CircuitPc → BreakerPc
  | .idle => .idle
  | .node _ m h pc => if m = method ∧ h = host then pc.pc else .idle
  | .lock h => if h = host then .lookup else .idle
  | .walk h rest => if h = host ∧ method ∈ rest then .lookup else .idle
  | .remove h m rest =>
    if h = host then if m = method then .remove else if method ∈ rest then .lookup else .idle
    else .idle

def entry : CircuitPc → BreakerEntry
  | .node call _ _ _ => call.entry
  | _ => .removeHost

/-- The walk does not come to a method twice. -/
def Ordered : CircuitPc → Prop
  | .walk _ rest => rest.Nodup
  | .remove _ m rest => (m :: rest).Nodup
  | _ => True

/-- The thread holds the mutex. -/
def Holds : CircuitPc → Prop
  | .walk _ _ | .remove _ _ _ => True
  | _ => False

end CircuitPc

/-- The machine of one key is in the state that the key sees. -/
structure Projects (method host : Bytes) (S : CircuitBreaker) (s : PersistState) : Prop where
  live : s.live = S.nodes.find method host
  nodes : ∀ n, (s.nodes n).breaker = S.objects method host n
  fresh : s.fresh = S.made method host
  store : s.store = S.store.find method host
  mutex : ∀ i, s.mutex = some i ↔ (S.threads i).seen method host = .remove
  pc : ∀ i, (s.threads i).pc = (S.threads i).seen method host
  call : ∀ i, (S.threads i).seen method host ≠ .idle → (s.threads i).call = (S.threads i).entry

/-- Who holds the mutex. -/
structure CircuitInv (S : CircuitBreaker) : Prop where
  holder : ∀ i, (S.threads i).Holds → S.mutex = some i
  ordered : ∀ i, (S.threads i).Ordered

theorem CircuitPc.holds_of_seen {method host : Bytes} {pc : CircuitPc}
    (h : pc.seen method host = .remove) : pc.Holds := by
  cases pc with
  | idle => cases h
  | node call m k pc =>
    simp only [seen] at h
    split at h
    · cases pc <;> cases h
    · cases h
  | lock k =>
    simp only [seen] at h
    split at h <;> cases h
  | walk k rest => trivial
  | remove k m rest => trivial

namespace CircuitInv
variable {cfg : CircuitConfig} {S T : CircuitBreaker} {i : Nat} {pc : CircuitPc}

theorem move (h : CircuitInv S) (hT : T.threads = Function.update S.threads i pc)
    (hpc : pc.Holds → T.mutex = some i)
    (hothers : ∀ j, j ≠ i → (S.threads j).Holds → T.mutex = some j) (hordered : pc.Ordered) :
    CircuitInv T := by
  constructor
  · intro j hj
    rw [hT, Function.update_apply] at hj
    split at hj
    · rename_i hji
      exact hji ▸ hpc hj
    · rename_i hji
      exact hothers j hji hj
  · intro j
    rw [hT, Function.update_apply]
    split
    · exact hordered
    · exact h.ordered j

/-- The mutex is as it was. -/
theorem stay (h : CircuitInv S) (hT : T.threads = Function.update S.threads i pc)
    (hmutex : T.mutex = S.mutex) (hpc : pc.Holds → (S.threads i).Holds) (hordered : pc.Ordered) :
    CircuitInv T :=
  h.move hT (fun hholds => hmutex.trans (h.holder i (hpc hholds)))
    (fun j _ hj => hmutex.trans (h.holder j hj)) hordered

theorem init : CircuitInv {} := ⟨fun _ hi => hi.elim, fun _ => trivial⟩

end CircuitInv

/-- What a call for a key leaves alone. -/
structure NodeFrame (method host : Bytes) (S T : CircuitBreaker) : Prop where
  threads : T.threads = S.threads
  mutex : T.mutex = S.mutex
  nodes : ∀ m h, ¬ (m = method ∧ h = host) → T.nodes.find m h = S.nodes.find m h
  objects : ∀ m h, ¬ (m = method ∧ h = host) → T.objects m h = S.objects m h
  made : ∀ m h, ¬ (m = method ∧ h = host) → T.made m h = S.made m h
  store : ∀ m h, ¬ (m = method ∧ h = host) → T.store.find m h = S.store.find m h

theorem CircuitBreaker.setObject_other {S : CircuitBreaker} {method host m h : Bytes} {n : Nat}
    {b : NodeBreaker} (hother : ¬ (m = method ∧ h = host)) :
    (S.setObject method host n b).objects m h = S.objects m h := by
  funext k
  exact if_neg fun hall => hother ⟨hall.1, hall.2.1⟩

theorem CircuitBreaker.nodeStep_frame {cfg : CircuitConfig} {S T : CircuitBreaker}
    {call : NodeCall} {method host : Bytes} {now wallNow : Int} {pc : NodePc}
    {next : Option NodePc}
    (hstep : S.nodeStep cfg call method host now wallNow pc = some (next, T)) :
    NodeFrame method host S T := by
  have hrefl : NodeFrame method host S S :=
    ⟨rfl, rfl, fun _ _ _ => rfl, fun _ _ _ => rfl, fun _ _ _ => rfl, fun _ _ _ => rfl⟩
  have hobject : ∀ n b, NodeFrame method host S (S.setObject method host n b) := fun n b =>
    ⟨rfl, rfl, fun _ _ _ => rfl, fun _ _ hother => setObject_other hother, fun _ _ _ => rfl,
      fun _ _ _ => rfl⟩
  cases pc with
  | lookup =>
    simp only [nodeStep] at hstep
    split at hstep
    · cases hstep
    · split at hstep <;> cases hstep <;> exact hrefl
  | load =>
    cases hstep
    exact hrefl
  | insert node =>
    simp only [nodeStep, insert] at hstep
    split at hstep
    · cases hstep
    · split at hstep
      · cases hstep
        exact hrefl
      · cases hstep
        refine ⟨rfl, rfl, ?_, fun _ _ hother => setObject_other hother, ?_, fun _ _ _ => rfl⟩
        · intro m h hother
          exact (Nested.find_put ..).trans (if_neg hother)
        · intro m h hother
          exact if_neg hother
  | ready n =>
    cases hstep
    exact hobject n _
  | changed n =>
    cases hstep
    exact hrefl
  | save n status =>
    cases hstep
    refine ⟨rfl, rfl, fun _ _ _ => rfl, fun _ _ _ => rfl, fun _ _ _ => rfl, ?_⟩
    intro m h hother
    exact (Nested.find_put ..).trans (if_neg hother)

theorem CircuitInv.step {cfg : CircuitConfig} {S T : CircuitBreaker} {a : CircuitAct}
    (h : CircuitInv S) (hstep : circuitStep cfg S a = some T) : CircuitInv T := by
  cases a with
  | call i call method host =>
    simp only [circuitStep] at hstep
    split at hstep
    · cases hstep
      exact h.stay rfl rfl nofun trivial
    · cases hstep
  | removeHost i host =>
    simp only [circuitStep] at hstep
    split at hstep
    · cases hstep
      exact h.stay rfl rfl nofun trivial
    · cases hstep
  | run i env =>
    simp only [circuitStep] at hstep
    split at hstep
    · cases hstep
    · obtain ⟨⟨next, S'⟩, hnode, rfl⟩ := Option.map_eq_some_iff.mp hstep
      have hframe := CircuitBreaker.nodeStep_frame hnode
      refine h.stay (congrArg (Function.update · i _) hframe.threads) hframe.mutex ?_ ?_
      · cases next <;> exact nofun
      · cases next <;> trivial
    · split at hstep
      · cases hstep
      · rename_i hfree
        cases hstep
        refine h.move rfl (fun _ => rfl) ?_ (AList.keys_nodup S.nodes)
        intro j _ hj
        rw [h.holder j hj] at hfree
        exact absurd rfl hfree
    · rename_i host rest hpc
      have hmine : S.mutex = some i := h.holder i (by rw [hpc]; trivial)
      split at hstep
      · cases hstep
        refine h.move rfl nofun ?_ trivial
        intro j hji hj
        rw [h.holder j hj] at hmine
        exact absurd (Option.some.inj hmine) hji
      · split at hstep
        · rename_i hmem
          cases hstep
          have hnodup : rest.Nodup := by
            have := h.ordered i
            rwa [hpc] at this
          refine h.stay rfl rfl (fun _ => by rw [hpc]; trivial) ?_
          exact List.nodup_cons.mpr ⟨hnodup.not_mem_erase, hnodup.erase _⟩
        · cases hstep
    · rename_i host method rest hpc
      cases hstep
      have hnodup : (method :: rest).Nodup := by
        have := h.ordered i
        rwa [hpc] at this
      exact h.stay rfl rfl (fun _ => by rw [hpc]; trivial) (List.nodup_cons.mp hnodup).2

theorem PersistState.report_eq (s : PersistState) (i n : Nat) (result : Bool × NodeBreaker) :
    ∃ last, s.report i n result = (s.setNode n { breaker := result.2, last }).setPc i
      (if result.1 then .changed n else .idle) := by
  by_cases h : result.1 = true
  · exact ⟨.byOutcome, by simp only [report, if_pos h]⟩
  · exact ⟨(s.nodes n).last, by simp only [report, if_neg h]⟩

/-- The call itself, as the machine of one key makes it. -/
theorem threadStep_ready (cfg : CircuitConfig) (now wallNow : Int) {s : PersistState} {i n : Nat}
    {call : NodeCall} (hpc : (s.threads i).pc = .ready n)
    (hcall : (s.threads i).call = call.entry) :
    ∃ last, threadStep cfg s i { now, wallNow } =
      some ((s.setNode n { breaker := (call.run (s.nodes n).breaker now wallNow).2, last }).setPc i
        (if (call.run (s.nodes n).breaker now wallNow).1 then .changed n else .idle)) := by
  simp only [threadStep, hpc, hcall]
  cases call with
  | allowRequest => exact ⟨_, rfl⟩
  | onSuccess =>
    obtain ⟨last, hreport⟩ := s.report_eq i n (s.nodes n).breaker.onSuccess
    exact ⟨last, congrArg some hreport⟩
  | onFailure =>
    obtain ⟨last, hreport⟩ := s.report_eq i n ((s.nodes n).breaker.onFailure now wallNow)
    exact ⟨last, congrArg some hreport⟩

namespace Projects
variable {cfg : CircuitConfig} {method host : Bytes} {S T : CircuitBreaker} {s t : PersistState}
  {i : Nat} {pc : CircuitPc}

/-- One thread goes on; the data of the key is what the two states say. -/
theorem move (h : Projects method host S s) (hT : T.threads = Function.update S.threads i pc)
    (hothers : ∀ j, j ≠ i → (t.threads j).pc = (s.threads j).pc ∧
      (t.threads j).call = (s.threads j).call)
    (hpc : (t.threads i).pc = pc.seen method host)
    (hcall : pc.seen method host ≠ .idle → (t.threads i).call = pc.entry)
    (hmutex : ∀ j, t.mutex = some j ↔ (T.threads j).seen method host = .remove)
    (hlive : t.live = T.nodes.find method host)
    (hnodes : ∀ n, (t.nodes n).breaker = T.objects method host n)
    (hfresh : t.fresh = T.made method host) (hstore : t.store = T.store.find method host) :
    Projects method host T t := by
  have hthreads : ∀ j, T.threads j = if j = i then pc else S.threads j := by
    intro j
    rw [hT, Function.update_apply]
  refine ⟨hlive, hnodes, hfresh, hstore, hmutex, fun j => ?_, fun j hj => ?_⟩
  · rw [hthreads]
    split
    · rename_i hji
      exact hji ▸ hpc
    · rename_i hji
      rw [(hothers j hji).1, h.pc j]
  · rw [hthreads] at hj ⊢
    split at hj
    · rename_i hji
      rw [if_pos hji, hji]
      exact hcall hj
    · rename_i hji
      rw [if_neg hji, (hothers j hji).2, h.call j hj]

/-- Nobody enters or leaves the part of `removeHost` that holds the mutex for the key. -/
theorem mutex_stays (h : Projects method host S s)
    (hT : T.threads = Function.update S.threads i pc) (hmutex : t.mutex = s.mutex)
    (hsame : pc.seen method host = .remove ↔ (S.threads i).seen method host = .remove) :
    ∀ j, t.mutex = some j ↔ (T.threads j).seen method host = .remove := by
  intro j
  rw [hmutex, h.mutex j, hT, Function.update_apply]
  split
  · rename_i hji
    rw [hji, hsame]
  · rfl

/-- A step that the key does not see. -/
theorem stutter (h : Projects method host S s) (hT : T.threads = Function.update S.threads i pc)
    (hpc : pc.seen method host = (S.threads i).seen method host)
    (hcall : pc.seen method host ≠ .idle → pc.entry = (S.threads i).entry)
    (hnodes : T.nodes.find method host = S.nodes.find method host)
    (hobjects : T.objects method host = S.objects method host)
    (hmade : T.made method host = S.made method host)
    (hstore : T.store.find method host = S.store.find method host) :
    Projects method host T s := by
  refine h.move hT (fun j _ => ⟨rfl, rfl⟩) ((h.pc i).trans hpc.symm) ?_
    (h.mutex_stays hT rfl (by rw [hpc])) (h.live.trans hnodes.symm) ?_ (h.fresh.trans hmade.symm)
    (h.store.trans hstore.symm)
  · intro hne
    rw [h.call i (hpc ▸ hne), hcall hne]
  · intro n
    rw [h.nodes n, hobjects]

/-- The call of a thread that the key sees begins. -/
theorem begins (h : Projects method host S s) (hidle : S.threads i = .idle) {call : BreakerEntry}
    (hseen : pc.seen method host = .lookup) (hentry : pc.entry = call) :
    ∃ t, Reachable (persistStep cfg) s t ∧ Projects method host (S.setPc i pc) t := by
  have hpc : (s.threads i).pc = .idle := by rw [h.pc i, hidle]; rfl
  refine ⟨_, .snoc (a := .begin i call) .refl trivial (by rw [persistStep, hpc]), ?_⟩
  have hthreads : (S.setPc i pc).threads = Function.update S.threads i pc := rfl
  refine h.move hthreads ?_ ?_ ?_ ?_ h.live h.nodes h.fresh h.store
  · intro j hji
    constructor <;> simp only [Function.update_of_ne hji]
  · simp only [Function.update_self, hseen]
  · intro _
    simp only [Function.update_self, hentry]
  · refine h.mutex_stays hthreads rfl ?_
    rw [hseen, hidle]
    constructor <;> intro hremove <;> cases hremove

/-- A step of the thread in the machine of the key. -/
theorem runs (h : Projects method host S s) (hT : T.threads = Function.update S.threads i pc)
    {env : BreakerEnv} {u : PersistState} (hcall : pc.seen method host ≠ .idle →
      (S.threads i).seen method host ≠ .idle ∧ pc.entry = (S.threads i).entry)
    (hstep : threadStep cfg s i env = some (u.setPc i (pc.seen method host)))
    (hu : ∀ j, (u.threads j).pc = (s.threads j).pc ∧ (u.threads j).call = (s.threads j).call)
    (hmutex : ∀ j, u.mutex = some j ↔ (T.threads j).seen method host = .remove)
    (hlive : u.live = T.nodes.find method host)
    (hnodes : ∀ n, (u.nodes n).breaker = T.objects method host n)
    (hfresh : u.fresh = T.made method host) (hstore : u.store = T.store.find method host) :
    ∃ t, Reachable (persistStep cfg) s t ∧ Projects method host T t := by
  refine ⟨_, .snoc (a := .run i env) .refl trivial hstep, ?_⟩
  refine h.move hT ?_ ?_ ?_ hmutex hlive hnodes hfresh hstore
  · intro j hji
    rw [PersistState.setPc_pc, if_neg hji]
    refine ⟨(hu j).1, ?_⟩
    simp only [PersistState.setPc, Function.update_of_ne hji]
    exact (hu j).2
  · rw [PersistState.setPc_pc, if_pos rfl]
  · intro hne
    obtain ⟨hold, hentry⟩ := hcall hne
    simp only [PersistState.setPc, Function.update_self]
    rw [(hu i).2, h.call i hold, hentry]

/-- A step of a call for the key itself. -/
theorem runs_node (h : Projects method host S s) {call : NodeCall} {npc : NodePc}
    {next : Option NodePc} {e : BreakerEnv} {u : PersistState}
    (hpc : S.threads i = .node call method host npc) (hframe : NodeFrame method host S T)
    (hstep : threadStep cfg s i e = some (u.setPc i (next.elim .idle NodePc.pc)))
    (hthreads : u.threads = s.threads) (hmutex : u.mutex = s.mutex)
    (hlive : u.live = T.nodes.find method host)
    (hnodes : ∀ n, (u.nodes n).breaker = T.objects method host n)
    (hfresh : u.fresh = T.made method host) (hstore : u.store = T.store.find method host) :
    ∃ t, Reachable (persistStep cfg) s t ∧ Projects method host
      (T.setPc i (next.elim .idle (.node call method host))) t := by
  have hseen : ∀ pc : NodePc, (CircuitPc.node call method host pc).seen method host = pc.pc :=
    fun _ => if_pos ⟨rfl, rfl⟩
  have hnext : (next.elim .idle (CircuitPc.node call method host)).seen method host =
      next.elim .idle NodePc.pc := by
    cases next with
    | none => rfl
    | some pc => exact hseen pc
  have hruns : ∀ pc : NodePc, pc.pc ≠ .idle ∧ pc.pc ≠ .remove := fun pc => by
    cases pc <;> exact ⟨nofun, nofun⟩
  have hT := congrArg (Function.update · i (next.elim .idle (.node call method host)))
    hframe.threads
  refine h.runs (T := T.setPc i (next.elim .idle (.node call method host))) hT ?_
    (by rw [hnext]; exact hstep) (fun _ => by rw [hthreads]; exact ⟨rfl, rfl⟩)
    (h.mutex_stays hT hmutex ?_) hlive hnodes hfresh hstore
  · intro hidle
    rw [hpc, hseen]
    refine ⟨(hruns npc).1, ?_⟩
    cases next with
    | none => exact absurd rfl hidle
    | some pc => rfl
  · rw [hpc, hseen, hnext]
    refine ⟨fun hr => ?_, fun hr => absurd hr (hruns npc).2⟩
    cases next with
    | none => cases hr
    | some pc => exact absurd hr (hruns pc).2

/-- The mutex is free for the key too. -/
theorem free (h : Projects method host S s) (hinv : CircuitInv S)
    (hnone : ¬ S.mutex.isSome = true) : s.mutex.isSome = false := by
  cases hmutex : s.mutex with
  | none => rfl
  | some j =>
    have hholds := CircuitPc.holds_of_seen ((h.mutex j).mp hmutex)
    rw [hinv.holder j hholds] at hnone
    exact absurd rfl hnone

/-- One object of the key is another one now. -/
theorem object (h : Projects method host S s) {cell : NodeCell} {n : Nat} :
    ∀ k, ((s.setNode n cell).nodes k).breaker =
      (S.setObject method host n cell.breaker).objects method host k := by
  intro k
  simp only [PersistState.setNode, CircuitBreaker.setObject, Function.update_apply]
  split
  · rename_i hk
    exact (if_pos ⟨trivial, trivial, hk⟩).symm
  · rename_i hk
    rw [if_neg (fun hall => hk hall.2.2), h.nodes]

theorem node (h : Projects method host S s) {call : NodeCall} {npc : NodePc}
    {next : Option NodePc} {now wallNow : Int}
    (hpc : S.threads i = .node call method host npc)
    (hstep : S.nodeStep cfg call method host now wallNow npc = some (next, T))
    (hinv : CircuitInv S) :
    ∃ t, Reachable (persistStep cfg) s t ∧ Projects method host
      (T.setPc i (next.elim .idle (.node call method host))) t := by
  have hseen : (S.threads i).seen method host = npc.pc := by
    rw [hpc]
    exact if_pos ⟨rfl, rfl⟩
  have hspc : (s.threads i).pc = npc.pc := (h.pc i).trans hseen
  have hcall : (s.threads i).call = call.entry := by
    rw [h.call i (by rw [hseen]; cases npc <;> exact nofun), hpc]
    rfl
  have hkeeps : call.entry ≠ .removeHost := by cases call <;> exact nofun
  have hframe := CircuitBreaker.nodeStep_frame hstep
  have hlive := h.live
  cases npc with
  | lookup =>
    simp only [CircuitBreaker.nodeStep] at hstep
    split at hstep
    · cases hstep
    · rename_i hlock
      have hfree := h.free hinv hlock
      split at hstep
      all_goals
        rename_i hfound
        cases hstep
        rw [hfound] at hlive
        refine h.runs_node (e := ⟨now, wallNow, false⟩) hpc hframe ?_ rfl rfl h.live h.nodes
          h.fresh h.store
        simp only [threadStep, hspc, NodePc.pc, hfree, hcall, hkeeps, hlive, Option.elim_some,
          if_false, Bool.false_eq_true]
  | load =>
    cases hstep
    refine h.runs_node (e := ⟨now, wallNow, false⟩) hpc hframe ?_ rfl rfl h.live h.nodes
      h.fresh h.store
    simp only [threadStep, hspc, NodePc.pc, Option.elim_some, MemoryCircuitStore.load, h.store]
  | insert node =>
    simp only [CircuitBreaker.nodeStep, CircuitBreaker.insert] at hstep
    split at hstep
    · cases hstep
    · rename_i hlock
      have hfree := h.free hinv hlock
      split at hstep
      · rename_i n hfound
        cases hstep
        rw [hfound] at hlive
        refine h.runs_node (e := ⟨now, wallNow, false⟩) hpc hframe ?_ rfl rfl h.live h.nodes
          h.fresh h.store
        simp only [threadStep, hspc, NodePc.pc, hfree, PersistState.insert, hlive,
          Option.elim_some, if_false, Bool.false_eq_true]
      · rename_i hfound
        cases hstep
        rw [hfound] at hlive
        refine h.runs_node (e := ⟨now, wallNow, false⟩) (u := { s with
            live := some s.fresh, fresh := s.fresh + 1 }.setNode s.fresh { breaker := node })
          hpc hframe ?_ rfl rfl ?_ ?_ ?_ h.store
        · simp only [threadStep, hspc, NodePc.pc, hfree, PersistState.insert, hlive, h.fresh,
            Option.elim_some, if_false, Bool.false_eq_true]
        · rw [h.fresh]
          exact ((Nested.find_put ..).trans (if_pos ⟨rfl, rfl⟩)).symm
        · rw [h.fresh]
          exact h.object
        · exact (congrArg (· + 1) h.fresh).trans (if_pos ⟨rfl, rfl⟩).symm
  | ready n =>
    obtain ⟨last, hthread⟩ := threadStep_ready cfg now wallNow hspc hcall
    rw [h.nodes n] at hthread
    cases hstep
    refine h.runs_node (u := s.setNode n ⟨(call.run (S.objects method host n) now wallNow).2, last⟩)
      hpc hframe (hthread.trans ?_) rfl rfl h.live h.object h.fresh h.store
    cases (call.run (S.objects method host n) now wallNow).1 <;> rfl
  | changed n =>
    cases hstep
    refine h.runs_node (e := ⟨now, wallNow, false⟩) hpc hframe ?_ rfl rfl h.live h.nodes
      h.fresh h.store
    simp only [threadStep, hspc, NodePc.pc, Option.elim_some, h.nodes]
  | save n status =>
    cases hstep
    refine h.runs_node (e := ⟨now, wallNow, false⟩) (u := { s with store := some status })
      hpc hframe ?_ rfl rfl h.live h.nodes h.fresh ?_
    · simp only [threadStep, hspc, NodePc.pc, Option.elim_none]
    · exact ((Nested.find_put ..).trans (if_pos ⟨rfl, rfl⟩)).symm

/-- `removeHost` comes to the method of the key, which may have no node for the host. -/
theorem erases (h : Projects method host S s) (pc : CircuitPc)
    (hT : T.threads = Function.update S.threads i pc)
    (hpc : (s.threads i).pc = .lookup) (hcall : (s.threads i).call = .removeHost)
    (hfree : s.mutex.isSome = false) (hseen : pc.seen method host = .remove)
    (hentry : pc.entry = .removeHost) (hlive : T.nodes.find method host = none)
    (hobjects : T.objects method host = S.objects method host)
    (hmade : T.made method host = S.made method host)
    (hstore : T.store.find method host = S.store.find method host) :
    ∃ t, Reachable (persistStep cfg) s t ∧ Projects method host T t := by
  have hnone : ∀ j, ¬ s.mutex = some j := fun j hj => by
    rw [hj] at hfree
    cases hfree
  refine ⟨(s.erase i true), .snoc (a := .run i ⟨0, 0, true⟩) .refl trivial ?_, ?_⟩
  · simp only [persistStep, threadStep, hpc, hcall, hfree, if_true, if_false, Bool.false_eq_true]
  · simp only [PersistState.erase, Bool.or_true, if_true]
    refine h.move hT ?_ ?_ ?_ ?_ hlive.symm ?_ (h.fresh.trans hmade.symm)
      (h.store.trans hstore.symm)
    · intro j hji
      rw [PersistState.setPc_pc, if_neg hji]
      simp only [PersistState.setPc, Function.update_of_ne hji, and_self]
    · rw [PersistState.setPc_pc, if_pos rfl, hseen]
    · intro _
      simp only [PersistState.setPc, Function.update_self, hcall, hentry]
    · intro j
      rw [PersistState.setPc_mutex, hT, Function.update_apply]
      split
      · rename_i hji
        rw [hji, hseen]
        exact ⟨fun _ => rfl, fun _ => rfl⟩
      · rename_i hji
        rw [← h.mutex j]
        exact ⟨fun hij => absurd (Option.some.inj hij).symm hji, fun hj => absurd hj (hnone j)⟩
    · intro n
      rw [hobjects]
      exact h.nodes n

/-- `removeHost` finds no table for the method of the key. -/
theorem passes (h : Projects method host S s) (pc : CircuitPc)
    (hT : T.threads = Function.update S.threads i pc)
    (hpc : (s.threads i).pc = .lookup) (hcall : (s.threads i).call = .removeHost)
    (hfree : s.mutex.isSome = false) (hseen : pc.seen method host = .idle)
    (hlive : S.nodes.find method host = none) (hnodes : T.nodes = S.nodes)
    (hobjects : T.objects = S.objects) (hmade : T.made = S.made) (hstore : T.store = S.store) :
    ∃ t, Reachable (persistStep cfg) s t ∧ Projects method host T t := by
  have hidle : s.live.isSome = false := by
    rw [h.live, hlive]
    rfl
  refine ⟨(s.erase i false), .snoc (a := .run i {}) .refl trivial ?_, ?_⟩
  · simp only [persistStep, threadStep, hpc, hcall, hfree, if_true, if_false, Bool.false_eq_true]
  · simp only [PersistState.erase, hidle, Bool.or_false, Bool.false_eq_true, if_false]
    refine h.move hT ?_ ?_ (fun hne => absurd hseen hne) ?_ (hnodes ▸ h.live) ?_ (hmade ▸ h.fresh)
      (hstore ▸ h.store)
    · intro j hji
      rw [PersistState.setPc_pc, if_neg hji]
      simp only [PersistState.setPc, Function.update_of_ne hji, and_self]
    · rw [PersistState.setPc_pc, if_pos rfl, hseen]
    · refine h.mutex_stays hT rfl ?_
      rw [hseen, ← h.pc i, hpc]
      constructor <;> intro hremove <;> cases hremove
    · intro n
      rw [hobjects]
      exact h.nodes n

/-- `removeHost` erases the saved status of the key. -/
theorem removes (h : Projects method host S s) (pc : CircuitPc)
    (hT : T.threads = Function.update S.threads i pc)
    (hinv : CircuitInv S) (hremove : (S.threads i).seen method host = .remove)
    (hseen : pc.seen method host = .idle)
    (hlive : T.nodes.find method host = S.nodes.find method host) (hobjects : T.objects = S.objects)
    (hmade : T.made = S.made) (hstore : T.store.find method host = none) :
    ∃ t, Reachable (persistStep cfg) s t ∧ Projects method host T t := by
  refine ⟨_, .snoc (a := .run i {}) .refl trivial (by
    rw [persistStep, threadStep, h.pc i, hremove]), ?_⟩
  refine h.move hT ?_ ?_ (fun hne => absurd hseen hne) ?_ (h.live.trans hlive.symm) ?_
    (hmade ▸ h.fresh) hstore.symm
  · intro j hji
    rw [PersistState.setPc_pc, if_neg hji]
    simp only [PersistState.setPc, Function.update_of_ne hji, and_self]
  · rw [PersistState.setPc_pc, if_pos rfl, hseen]
  · intro j
    rw [PersistState.setPc_mutex, hT, Function.update_apply]
    refine ⟨fun hnone => (by cases hnone), fun hj => ?_⟩
    split at hj
    · rw [hseen] at hj
      cases hj
    · rename_i hji
      -- The mutex has one holder.
      have hi := hinv.holder i (CircuitPc.holds_of_seen hremove)
      rw [hinv.holder j (CircuitPc.holds_of_seen hj)] at hi
      exact absurd (Option.some.inj hi) hji
  · intro n
    rw [hobjects]
    exact h.nodes n

theorem walk (h : Projects method host S s) {k : Bytes} {env : CircuitEnv} {rest : List Bytes}
    (hinv : CircuitInv S) (hpc : S.threads i = .walk k rest)
    (hstep : circuitStep cfg S (.run i env) = some T) :
    ∃ t, Reachable (persistStep cfg) s t ∧ Projects method host T t := by
  have hmine : S.mutex = some i := hinv.holder i (by rw [hpc]; trivial)
  simp only [circuitStep, hpc] at hstep
  split at hstep
  · rename_i hnil
    cases hstep
    refine ⟨s, .refl, h.stutter (i := i) rfl ?_ nofun rfl rfl rfl rfl⟩
    rw [hpc, hnil]
    exact (if_neg fun hin => List.not_mem_nil hin.2).symm
  · split at hstep
    · rename_i hmem
      cases hstep
      by_cases hhost : k = host
      · by_cases hmethod : env.method = method
        · have hlookup : (S.threads i).seen method host = .lookup := by
            rw [hpc]
            exact if_pos ⟨hhost, hmethod ▸ hmem⟩
          refine h.erases (.remove k env.method (rest.erase env.method)) rfl
            ((h.pc i).trans hlookup) ?_ ?_ ?_ rfl ?_ rfl rfl rfl
          · rw [h.call i (by rw [hlookup]; exact nofun), hpc]
            rfl
          · cases hheld : s.mutex with
            | none => rfl
            | some j =>
              have hj := (h.mutex j).mp hheld
              have hji := hinv.holder j (CircuitPc.holds_of_seen hj)
              rw [hmine] at hji
              rw [← Option.some.inj hji, hlookup] at hj
              cases hj
          · simp only [CircuitPc.seen, hhost, hmethod, if_true]
          · exact (Nested.find_drop ..).trans (if_pos ⟨hmethod.symm, hhost.symm⟩)
        · refine ⟨s, .refl, h.stutter (i := i) rfl ?_ (fun _ => by rw [hpc]; rfl) ?_ rfl rfl rfl⟩
          · rw [hpc]
            simp only [CircuitPc.seen, hhost, hmethod, if_true, if_false, true_and,
              List.mem_erase_of_ne (Ne.symm hmethod)]
          · exact (Nested.find_drop ..).trans (if_neg fun hall => hmethod hall.1.symm)
      · refine ⟨s, .refl, h.stutter (i := i) rfl ?_ (fun _ => by rw [hpc]; rfl) ?_ rfl rfl rfl⟩
        · rw [hpc]
          simp only [CircuitPc.seen, hhost, if_false, false_and]
        · exact (Nested.find_drop ..).trans (if_neg fun hall => hhost hall.2.symm)
    · cases hstep

theorem remove (h : Projects method host S s) {k m : Bytes} {env : CircuitEnv} {rest : List Bytes}
    (hinv : CircuitInv S) (hpc : S.threads i = .remove k m rest)
    (hstep : circuitStep cfg S (.run i env) = some T) :
    ∃ t, Reachable (persistStep cfg) s t ∧ Projects method host T t := by
  have hnodup : m ∉ rest := by
    have hordered := hinv.ordered i
    rw [hpc] at hordered
    exact (List.nodup_cons.mp hordered).1
  simp only [circuitStep, hpc] at hstep
  cases hstep
  have hprune : (S.nodes.prune m).find method host = S.nodes.find method host :=
    Nested.find_prune ..
  by_cases hkey : method = m ∧ host = k
  · refine h.removes (.walk k rest) rfl hinv ?_ ?_ hprune rfl rfl ?_
    · rw [hpc]
      simp only [CircuitPc.seen, hkey.1, hkey.2, if_true]
    · exact if_neg fun hin => hnodup (hkey.1 ▸ hin.2)
    · exact (MemoryCircuitStore.find_remove ..).trans (if_pos hkey)
  · refine ⟨s, .refl, h.stutter (i := i) rfl ?_ (fun _ => by rw [hpc]; rfl) hprune rfl rfl ?_⟩
    · rw [hpc]
      simp only [CircuitPc.seen]
      by_cases hhost : k = host
      · have hmethod : ¬ m = method := fun hm => hkey ⟨hm.symm, hhost.symm⟩
        simp only [hhost, hmethod, if_true, if_false, true_and]
      · simp only [hhost, if_false, false_and]
    · exact (MemoryCircuitStore.find_remove ..).trans (if_neg hkey)

theorem lock (h : Projects method host S s) {k : Bytes} {env : CircuitEnv}
    (hinv : CircuitInv S) (hpc : S.threads i = .lock k)
    (hstep : circuitStep cfg S (.run i env) = some T) :
    ∃ t, Reachable (persistStep cfg) s t ∧ Projects method host T t := by
  simp only [circuitStep, hpc] at hstep
  split at hstep
  · cases hstep
  · rename_i hlock
    cases hstep
    by_cases hhost : k = host
    · have hlookup : (S.threads i).seen method host = .lookup := by
        rw [hpc]
        exact if_pos hhost
      by_cases hmem : method ∈ S.nodes.keys
      · refine ⟨s, .refl, h.stutter (i := i) rfl ?_ (fun _ => by rw [hpc]; rfl) rfl rfl rfl rfl⟩
        rw [hlookup]
        exact if_pos ⟨hhost, hmem⟩
      · refine h.passes (.walk k S.nodes.keys) rfl ((h.pc i).trans hlookup) ?_
          (h.free hinv hlock) (if_neg fun hin => hmem hin.2) ?_ rfl rfl rfl rfl
        · rw [h.call i (by rw [hlookup]; exact nofun), hpc]
          rfl
        · rw [Nested.find, AList.lookup_eq_none.mpr hmem]
          rfl
    · refine ⟨s, .refl, h.stutter (i := i) rfl ?_ (fun _ => by rw [hpc]; rfl) rfl rfl rfl rfl⟩
      rw [hpc]
      simp only [CircuitPc.seen, hhost, if_false, false_and]

theorem step (h : Projects method host S s) (hinv : CircuitInv S) {a : CircuitAct}
    (hstep : circuitStep cfg S a = some T) :
    ∃ t, Reachable (persistStep cfg) s t ∧ Projects method host T t := by
  cases a with
  | call i call m k =>
    simp only [circuitStep] at hstep
    split at hstep
    · rename_i hidle
      cases hstep
      by_cases hkey : m = method ∧ k = host
      · exact h.begins hidle (if_pos hkey) rfl
      · refine ⟨s, .refl, h.stutter (i := i) rfl ?_ (fun hne => absurd (if_neg hkey) hne) rfl rfl
          rfl rfl⟩
        rw [hidle]
        exact if_neg hkey
    · cases hstep
  | removeHost i k =>
    simp only [circuitStep] at hstep
    split at hstep
    · rename_i hidle
      cases hstep
      by_cases hhost : k = host
      · exact h.begins hidle (if_pos hhost) rfl
      · refine ⟨s, .refl, h.stutter (i := i) rfl ?_ (fun hne => absurd (if_neg hhost) hne) rfl rfl
          rfl rfl⟩
        rw [hidle]
        exact if_neg hhost
    · cases hstep
  | run i env =>
    cases hpc : S.threads i with
    | idle =>
      simp only [circuitStep, hpc] at hstep
      cases hstep
    | node call m k npc =>
      simp only [circuitStep, hpc] at hstep
      obtain ⟨⟨next, S'⟩, hnode, rfl⟩ := Option.map_eq_some_iff.mp hstep
      by_cases hkey : m = method ∧ k = host
      · obtain ⟨rfl, rfl⟩ := hkey
        exact h.node hpc hnode hinv
      · have hframe := CircuitBreaker.nodeStep_frame hnode
        have hother : ¬ (method = m ∧ host = k) := fun heq => hkey ⟨heq.1.symm, heq.2.symm⟩
        have hunseen : (next.elim .idle (CircuitPc.node call m k)).seen method host = .idle := by
          cases next with
          | none => rfl
          | some npc => exact if_neg hkey
        refine ⟨s, .refl, h.stutter (i := i) (congrArg (Function.update · i _) hframe.threads) ?_
          (fun hne => absurd hunseen hne) (hframe.nodes _ _ hother) (hframe.objects _ _ hother)
          (hframe.made _ _ hother) (hframe.store _ _ hother)⟩
        rw [hunseen, hpc]
        exact (if_neg hkey).symm
    | lock k => exact h.lock hinv hpc hstep
    | walk k rest => exact h.walk hinv hpc hstep
    | remove k m rest => exact h.remove hinv hpc hstep

theorem init : Projects method host {} {} :=
  ⟨rfl, fun _ => rfl, rfl, rfl, fun _ => ⟨nofun, nofun⟩, fun _ => rfl, fun _ hne => absurd rfl hne⟩

end Projects

/-! No table is left behind empty. -/

theorem MemoryCircuitStore.tidy_remove {t : Nested Bytes Bytes CircuitStatus} (h : t.Tidy)
    (method host : Bytes) : (remove t method host).Tidy := by
  unfold remove
  split
  · exact h
  · exact h.drop.prune

/-- Only a `removeHost` that has just erased may have left a table empty. -/
structure CircuitTidy (S : CircuitBreaker) : Prop where
  nodes : S.nodes.Tidy ∨ ∃ i host method rest,
    S.threads i = .remove host method rest ∧ S.nodes.TidyBut method
  store : S.store.Tidy

namespace CircuitTidy
variable {cfg : CircuitConfig} {S T : CircuitBreaker}

theorem tidy (h : CircuitTidy S) (hnone : ∀ i host method rest,
    S.threads i ≠ .remove host method rest) : S.nodes.Tidy := by
  obtain htidy | ⟨i, host, method, rest, hpc, -⟩ := h.nodes
  · exact htidy
  · exact absurd hpc (hnone i host method rest)

/-- A step of a thread that is not removing and leaves `_nodes` alone. -/
theorem keep (h : CircuitTidy S) {i : Nat} {pc : CircuitPc}
    (hT : T.threads = Function.update S.threads i pc)
    (hpc : ∀ host method rest, S.threads i ≠ .remove host method rest)
    (hnodes : T.nodes = S.nodes) (hstore : T.store.Tidy) : CircuitTidy T := by
  refine ⟨?_, hstore⟩
  rw [hnodes]
  obtain htidy | ⟨j, host, method, rest, hj, hbut⟩ := h.nodes
  · exact .inl htidy
  · have hji : j ≠ i := fun hji => hpc host method rest (hji ▸ hj)
    exact .inr ⟨j, host, method, rest, by rw [hT, Function.update_of_ne hji, hj], hbut⟩

theorem node (h : CircuitTidy S) (hinv : CircuitInv S) {i : Nat} {call : NodeCall}
    {method host : Bytes} {npc : NodePc} {next : Option NodePc} {now wallNow : Int}
    (hpc : S.threads i = .node call method host npc)
    (hstep : S.nodeStep cfg call method host now wallNow npc = some (next, T)) :
    CircuitTidy (T.setPc i (next.elim .idle (.node call method host))) := by
  have hframe := CircuitBreaker.nodeStep_frame hstep
  have hT := congrArg (Function.update · i (next.elim .idle (.node call method host)))
    hframe.threads
  have hne : ∀ k m rest, S.threads i ≠ .remove k m rest := fun _ _ _ => by
    rw [hpc]
    exact nofun
  cases npc with
  | lookup =>
    simp only [CircuitBreaker.nodeStep] at hstep
    split at hstep
    · cases hstep
    · split at hstep <;> cases hstep <;> exact h.keep hT hne rfl h.store
  | load =>
    cases hstep
    exact h.keep hT hne rfl h.store
  | insert node =>
    simp only [CircuitBreaker.nodeStep, CircuitBreaker.insert] at hstep
    split at hstep
    · cases hstep
    · rename_i hlock
      have htidy : S.nodes.Tidy := by
        refine h.tidy fun j k m rest hj => hlock ?_
        rw [hinv.holder j (by rw [hj]; trivial)]
        rfl
      split at hstep <;> cases hstep
      · exact h.keep hT hne rfl h.store
      · exact ⟨.inl (htidy.put _), h.store⟩
  | ready n =>
    cases hstep
    exact h.keep hT hne rfl h.store
  | changed n =>
    cases hstep
    exact h.keep hT hne rfl h.store
  | save n status =>
    cases hstep
    exact h.keep hT hne rfl (h.store.put _)

theorem step (h : CircuitTidy S) (hinv : CircuitInv S) {a : CircuitAct}
    (hstep : circuitStep cfg S a = some T) : CircuitTidy T := by
  cases a with
  | call i call method host =>
    simp only [circuitStep] at hstep
    split at hstep
    · rename_i hidle
      cases hstep
      exact h.keep (i := i) rfl (fun _ _ _ => by rw [hidle]; exact nofun) rfl h.store
    · cases hstep
  | removeHost i host =>
    simp only [circuitStep] at hstep
    split at hstep
    · rename_i hidle
      cases hstep
      exact h.keep (i := i) rfl (fun _ _ _ => by rw [hidle]; exact nofun) rfl h.store
    · cases hstep
  | run i env =>
    simp only [circuitStep] at hstep
    split at hstep
    · cases hstep
    · rename_i hpc
      obtain ⟨⟨next, S'⟩, hnode, rfl⟩ := Option.map_eq_some_iff.mp hstep
      exact h.node hinv hpc hnode
    · rename_i hpc
      split at hstep
      · cases hstep
      · cases hstep
        exact h.keep (i := i) rfl (fun _ _ _ => by rw [hpc]; exact nofun) rfl h.store
    · rename_i host rest hpc
      split at hstep
      · cases hstep
        exact h.keep (i := i) rfl (fun _ _ _ => by rw [hpc]; exact nofun) rfl h.store
      · split at hstep
        · cases hstep
          have hmine := hinv.holder i (by rw [hpc]; trivial)
          have htidy : S.nodes.Tidy := by
            refine h.tidy fun j k m rest' hj => ?_
            have hother := hinv.holder j (by rw [hj]; trivial)
            rw [Option.some.inj (hother.symm.trans hmine), hpc] at hj
            cases hj
          exact ⟨.inr ⟨i, host, env.method, _, Function.update_self .., htidy.drop⟩, h.store⟩
        · cases hstep
    · rename_i host method rest hpc
      cases hstep
      have hmine := hinv.holder i (by rw [hpc]; trivial)
      have hbut : S.nodes.TidyBut method := by
        obtain htidy | ⟨j, k, m, rest', hj, hbut⟩ := h.nodes
        · exact fun x inner _ hinner => htidy x inner hinner
        · have hother := hinv.holder j (by rw [hj]; trivial)
          rw [Option.some.inj (hother.symm.trans hmine), hpc] at hj
          cases hj
          exact hbut
      exact ⟨.inl hbut.prune, MemoryCircuitStore.tidy_remove h.store method host⟩

theorem init : CircuitTidy {} := ⟨.inl Nested.tidy_empty, Nested.tidy_empty⟩

end CircuitTidy

theorem breaker_apart (cfg : CircuitConfig) {S : CircuitBreaker}
    (h : Reachable (circuitStep cfg) {} S) :
    (∀ method host, ∃ s, Reachable (persistStep cfg) {} s ∧ Projects method host S s) ∧
      (S.mutex = none → S.nodes.Tidy) ∧ S.store.Tidy := by
  have hinv : CircuitInv S ∧ CircuitTidy S :=
    h.invariant (fun S => CircuitInv S ∧ CircuitTidy S) ⟨.init, .init⟩
      fun _ _ _ hI _ hs => ⟨hI.1.step hs, hI.2.step hI.1 hs⟩
  refine ⟨fun method host => ?_, fun hnone => ?_, hinv.2.store⟩
  · obtain ⟨s, hreach, hproj, -⟩ := h.simulates
      (fun S s => Projects method host S s ∧ CircuitInv S) ⟨.init, .init⟩
      fun _ _ _ _ hR _ hs => by
        obtain ⟨t, hreach, hproj⟩ := hR.1.step hR.2 hs
        exact ⟨t, hreach, hproj, hR.2.step hs⟩
    exact ⟨s, hreach, hproj⟩
  · refine hinv.2.tidy fun i host method rest hpc => ?_
    have hholds := hinv.1.holder i (by rw [hpc]; trivial)
    rw [hnone] at hholds
    cases hholds

/-- The breaker of one host opens while another call is under way; that host leaves. -/
theorem breaker_apart_leave :
    ∃ S, (S.store.find [1] [2] = none ∧ S.nodes.find [1] [3] = some 0 ∧ S.mutex = none) ∧
      (∀ method host, ∃ s, Reachable (persistStep { minCalls := 1 }) {} s ∧
        Projects method host S s) ∧
      (S.mutex = none → S.nodes.Tidy) ∧ S.store.Tidy := by
  have hview : (exec (circuitStep { minCalls := 1 }) {}
      ([.call 0 .onFailure [1] [2], .call 1 .allowRequest [1] [3]] ++
        List.replicate 6 (.run 0 {}) ++ List.replicate 4 (.run 1 {}) ++
        [.removeHost 0 [2], .run 0 {}, .run 0 { method := [1] }, .run 0 {}, .run 0 {}])).map
      (fun S => (S.store.find [1] [2] == none, S.nodes.find [1] [3], S.mutex)) =
        some (true, some 0, none) := by
    decide +kernel
  obtain ⟨S, hS, hview⟩ := Option.map_eq_some_iff.mp hview
  obtain ⟨hstore, hrest⟩ := Prod.mk.inj hview
  obtain ⟨hnodes, hmutex⟩ := Prod.mk.inj hrest
  exact ⟨S, ⟨eq_of_beq hstore, hnodes, hmutex⟩, breaker_apart _ (.of_exec hS)⟩

end LyqtRpc
