import LyqtRpc.Lib.StepRun
import LyqtRpc.NodeBreaker
import Mathlib.Logic.Function.Basic

/-!
`CircuitBreaker` over one (method, host) key: `_nodes`, the circuit store, and the
calls of any number of threads. A critical section, a transition of a node, a
reading of its status and a store operation are one step each.
-/

set_option autoImplicit false

namespace LyqtRpc

open StepRun

inductive BreakerEntry where
  | getOrCreate | allowRequest | onSuccess | onFailure | removeHost
  deriving DecidableEq, Repr

/-- Where a call is. -/
inductive BreakerPc where
  | idle
  | lookup
  | load
  | insert (node : NodeBreaker)
  | ready (node : Nat)
  /-- The state has changed, and the status not been read. -/
  | changed (node : Nat)
  | save (node : Nat) (status : CircuitStatus)
  /-- `removeHost` holds the mutex, and has erased the node. -/
  | remove
  deriving DecidableEq, Repr

/-- `overtaken` is a history: a `removeHost` has erased since the call began. -/
structure BreakerThread where
  call : BreakerEntry := .getOrCreate
  pc : BreakerPc := .idle
  overtaken : Bool := false

/-- Whose transition was the last one. -/
inductive Transition where
  | none | byOutcome | byAllowRequest
  deriving DecidableEq, Repr

structure NodeCell where
  breaker : NodeBreaker
  last : Transition := .none

/-- Nodes keep their number when they are no longer in `_nodes`. `mutex` is the thread
that holds it over more than one step; `removed` is a history: since the last
`removeHost` no call has begun. -/
structure PersistState where
  live : Option Nat := none
  nodes : Nat → NodeCell := fun _ => { breaker := .create {} }
  fresh : Nat := 0
  store : Option CircuitStatus := none
  mutex : Option Nat := none
  threads : Nat → BreakerThread := fun _ => {}
  removed : Bool := false

/-- `otherHosts`: the method has a node for another host. -/
structure BreakerEnv where
  now : Int := 0
  wallNow : Int := 0
  otherHosts : Bool := false

inductive PersistAct where
  | begin (i : Nat) (call : BreakerEntry)
  | run (i : Nat) (env : BreakerEnv)

/-- What the outcome that a call reports does to a node. -/
def BreakerEntry.outcome (call : BreakerEntry) (env : BreakerEnv) (b : NodeBreaker) :
    Option (Bool × NodeBreaker) :=
  match call with
  | .onSuccess => some b.onSuccess
  | .onFailure => some (b.onFailure env.now env.wallNow)
  | _ => none

namespace PersistState

def setPc (s : PersistState) (i : Nat) (pc : BreakerPc) : PersistState :=
  { s with threads := Function.update s.threads i { s.threads i with pc } }

def setNode (s : PersistState) (n : Nat) (cell : NodeCell) : PersistState :=
  { s with nodes := Function.update s.nodes n cell }

/-- The first steps of `removeHost`; a method that is not in `_nodes` is passed over. -/
def erase (s : PersistState) (i : Nat) (otherHosts : Bool) : PersistState :=
  let t := { s with
    threads := fun j => { s.threads j with overtaken := true }
    removed := true }
  if s.live.isSome || otherHosts then { t with live := none, mutex := some i }.setPc i .remove
  else t.setPc i .idle

/-- The second look at `_nodes`, under the mutex. -/
def insert (s : PersistState) (i : Nat) (node : NodeBreaker) : PersistState :=
  match s.live with
  | some n => s.setPc i (.ready n)
  | none =>
    ({ s with live := some s.fresh, fresh := s.fresh + 1 }.setNode s.fresh
      { breaker := node }).setPc i (.ready s.fresh)

/-- `node->allowRequest()` -/
def allow (s : PersistState) (i n : Nat) (now : Int) : PersistState :=
  let cell := s.nodes n
  let breaker := (cell.breaker.allowRequest now).2
  (s.setNode n
    { breaker
      last := if breaker.status.state = cell.breaker.status.state then cell.last
        else .byAllowRequest }).setPc i .idle

/-- `node->onSuccess()` or `node->onFailure()` -/
def report (s : PersistState) (i n : Nat) (result : Bool × NodeBreaker) : PersistState :=
  if result.1 then
    (s.setNode n { breaker := result.2, last := .byOutcome }).setPc i (.changed n)
  else (s.setNode n { breaker := result.2, last := (s.nodes n).last }).setPc i .idle

end PersistState

def threadStep (cfg : CircuitConfig) (s : PersistState) (i : Nat) (env : BreakerEnv) :
    Option PersistState :=
  match (s.threads i).pc with
  | .idle => none
  | .lookup =>
    if s.mutex.isSome then none
    else if (s.threads i).call = .removeHost then some (s.erase i env.otherHosts)
    else
      match s.live with
      | some n => some (s.setPc i (.ready n))
      | none => some (s.setPc i .load)
  | .load =>
    some (s.setPc i (.insert (.getOrCreate cfg (s.store.getD {}) env.now env.wallNow)))
  | .insert node => if s.mutex.isSome then none else some (s.insert i node)
  | .ready n =>
    match (s.threads i).call.outcome env (s.nodes n).breaker with
    | some result => some (s.report i n result)
    | none =>
      if (s.threads i).call = .allowRequest then some (s.allow i n env.now)
      else some (s.setPc i .idle)
  | .changed n => some (s.setPc i (.save n (s.nodes n).breaker.status))
  | .save _ status => some ({ s with store := some status }.setPc i .idle)
  | .remove => some ({ s with store := none, mutex := none }.setPc i .idle)

def persistStep (cfg : CircuitConfig) (s : PersistState) : PersistAct → Option PersistState
  | .begin i call =>
    match (s.threads i).pc with
    | .idle =>
      some { s with
        threads := Function.update s.threads i { call, pc := .lookup }
        removed := false }
    | _ => none
  | .run i env => threadStep cfg s i env

/-- All calls have returned. -/
def PersistState.Quiescent (s : PersistState) : Prop := ∀ i, (s.threads i).pc = .idle

/-- The status in the store is that of the live node, if an outcome made it what it
is; after a `removeHost` there is none. -/
structure PersistState.Persisted (s : PersistState) : Prop where
  saved : ∀ n, s.live = some n → (s.nodes n).last = .byOutcome →
    ∃ status, s.store = some status ∧ status.state = (s.nodes n).breaker.status.state
  removed : s.removed = true → s.store = none

/-- The node whose status the call is about to read, or to save. -/
def BreakerPc.unsaved : BreakerPc → Option Nat
  | .changed n | .save n _ => some n
  | _ => none

/-- No outcome changes a node while a status that was read before is not yet saved,
or when a `removeHost` has overtaken its call; and `removeHost` does not erase while
a change is not yet saved. -/
def Undisturbed (s : PersistState) : PersistAct → Prop
  | .begin _ _ => True
  | .run i env =>
    match (s.threads i).pc with
    | .lookup => (s.threads i).call = .removeHost → ∀ j, (s.threads j).pc.unsaved = none
    | .ready n =>
      (∃ b, (s.threads i).call.outcome env (s.nodes n).breaker = some (true, b)) →
        (s.threads i).overtaken = false ∧ ∀ j m status, (s.threads j).pc ≠ .save m status
    | _ => True

structure PersistInv (s : PersistState) : Prop where
  mutex : ∀ i, s.mutex = some i ↔ (s.threads i).pc = .remove
  held : s.mutex ≠ none → s.live = none
  stored : s.store ≠ none → s.live ≠ none ∨ s.mutex ≠ none
  /-- A call that no `removeHost` has overtaken has the node that is in `_nodes`. -/
  mine : ∀ j n, (s.threads j).pc = .ready n → (s.threads j).overtaken = false →
    s.live = some n
  unsaved : ∀ j n, (s.threads j).pc.unsaved = some n →
    s.live = some n ∧ (s.threads j).overtaken = false
  /-- What is about to be saved is not out of date. -/
  current : ∀ j n status, (s.threads j).pc = .save n status → (s.nodes n).last = .byOutcome →
    status.state = (s.nodes n).breaker.status.state
  saved : ∀ n, s.live = some n → (s.nodes n).last = .byOutcome →
    (∃ j, (s.threads j).pc.unsaved = some n) ∨
      ∃ status, s.store = some status ∧ status.state = (s.nodes n).breaker.status.state
  removed : s.removed = true →
    (∀ j, (s.threads j).pc ≠ .idle → (s.threads j).overtaken = true) ∧
      (s.store = none ∨ s.mutex ≠ none)

section Persist
variable {cfg : CircuitConfig} {s t : PersistState} {i j n : Nat} {pc : BreakerPc}
  {env : BreakerEnv}

@[simp] theorem PersistState.setPc_pc :
    ((s.setPc i pc).threads j).pc = if j = i then pc else (s.threads j).pc := by
  by_cases h : j = i
  · subst h
    simp [setPc]
  · simp [setPc, h]

@[simp] theorem PersistState.setPc_overtaken :
    ((s.setPc i pc).threads j).overtaken = (s.threads j).overtaken := by
  by_cases h : j = i
  · subst h
    simp [setPc]
  · simp [setPc, h]

@[simp] theorem PersistState.setPc_live : (s.setPc i pc).live = s.live := rfl

@[simp] theorem PersistState.setPc_store : (s.setPc i pc).store = s.store := rfl

@[simp] theorem PersistState.setPc_mutex : (s.setPc i pc).mutex = s.mutex := rfl

/-- What a call that does not remove may hold. -/
structure BreakerThread.Fits (thread : BreakerThread) (s : PersistState) : Prop where
  runs : thread.pc ≠ .remove
  mine : ∀ n, thread.pc = .ready n → thread.overtaken = false → s.live = some n
  unsaved : ∀ n, thread.pc.unsaved = some n → s.live = some n ∧ thread.overtaken = false
  current : ∀ n status, thread.pc = .save n status → (s.nodes n).last = .byOutcome →
    status.state = (s.nodes n).breaker.status.state

/-- One call goes on, and `_nodes`, the mutex and the other calls are left as they are. -/
theorem PersistInv.of_thread {thread : BreakerThread} (h : PersistInv s)
    (hthreads : t.threads = Function.update s.threads i thread) (hlive : t.live = s.live)
    (hnodes : t.nodes = s.nodes) (hmutex : t.mutex = s.mutex)
    (hremove : (s.threads i).pc ≠ .remove) (hfits : thread.Fits s)
    (hstored : t.store ≠ none → s.live ≠ none ∨ s.mutex ≠ none)
    (hsaved : ∀ n, s.live = some n → (s.nodes n).last = .byOutcome →
      ((s.threads i).pc.unsaved = some n ∨
        ∃ status, s.store = some status ∧ status.state = (s.nodes n).breaker.status.state) →
      (thread.pc.unsaved = some n ∨
        ∃ status, t.store = some status ∧ status.state = (s.nodes n).breaker.status.state))
    (hremoved : t.removed = true → s.removed = true ∧
      (thread.pc ≠ .idle → thread.overtaken = true) ∧ (t.store = none ∨ s.mutex ≠ none)) :
    PersistInv t := by
  have hself : t.threads i = thread := by rw [hthreads, Function.update_self]
  have hother : ∀ j, j ≠ i → t.threads j = s.threads j := by
    intro j hj
    rw [hthreads, Function.update_of_ne hj]
  constructor
  · intro j
    by_cases hj : j = i
    · subst hj
      simp [hself, hmutex, h.mutex, hremove, hfits.runs]
    · rw [hother j hj, hmutex, h.mutex]
  · rw [hmutex, hlive]
    exact h.held
  · rw [hmutex, hlive]
    exact hstored
  · intro j n
    by_cases hj : j = i
    · rw [hj, hself, hlive]
      exact hfits.mine n
    · rw [hother j hj, hlive]
      exact h.mine j n
  · intro j n
    by_cases hj : j = i
    · rw [hj, hself, hlive]
      exact hfits.unsaved n
    · rw [hother j hj, hlive]
      exact h.unsaved j n
  · intro j n status
    by_cases hj : j = i
    · rw [hj, hself, hnodes]
      exact hfits.current n status
    · rw [hother j hj, hnodes]
      exact h.current j n status
  · intro n hn hlast
    rw [hlive] at hn
    rw [hnodes] at hlast ⊢
    have hmoved : ((s.threads i).pc.unsaved = some n ∨
        ∃ status, s.store = some status ∧
          status.state = (s.nodes n).breaker.status.state) →
        (∃ j, (t.threads j).pc.unsaved = some n) ∨
          ∃ status, t.store = some status ∧
            status.state = (s.nodes n).breaker.status.state := by
      intro hbefore
      cases hsaved n hn hlast hbefore with
      | inl hpending => exact Or.inl ⟨i, hself ▸ hpending⟩
      | inr hstore => exact Or.inr hstore
    cases h.saved n hn hlast with
    | inl hpending =>
      obtain ⟨j, hj⟩ := hpending
      by_cases hji : j = i
      · exact hmoved (Or.inl (hji ▸ hj))
      · exact Or.inl ⟨j, (hother j hji).symm ▸ hj⟩
    | inr hstore => exact hmoved (Or.inr hstore)
  · intro hgone
    obtain ⟨hbefore, hover, hstore⟩ := hremoved hgone
    rw [hmutex]
    constructor
    · intro j
      by_cases hj : j = i
      · rw [hj, hself]
        exact hover
      · rw [hother j hj]
        exact (h.removed hbefore).1 j
    · exact hstore

/-- A step that only moves a call on, neither to nor from a change to be saved. -/
theorem PersistInv.setPc (h : PersistInv s) (hidle : (s.threads i).pc ≠ .idle)
    (hrem : (s.threads i).pc ≠ .remove) (hun : (s.threads i).pc.unsaved = none)
    (hrem' : pc ≠ .remove) (hun' : pc.unsaved = none)
    (hready : ∀ n, pc = .ready n → s.live = some n) : PersistInv (s.setPc i pc) := by
  refine h.of_thread (i := i) rfl rfl rfl rfl hrem ?_ ?_ ?_ ?_
  · constructor
    · exact hrem'
    · intro n hpc _
      exact hready n hpc
    · simp [hun']
    · intro n status hpc
      have hpc : pc = .save n status := hpc
      simp [hpc, BreakerPc.unsaved] at hun'
  · exact h.stored
  · simp [hun, hun']
  · intro hremoved
    have hgone := h.removed hremoved
    exact ⟨hremoved, fun _ => hgone.1 i hidle, hgone.2⟩

/-- A node that no outcome changes. -/
theorem PersistInv.setNode {cell : NodeCell} (h : PersistInv s)
    (hcell : cell.last = .byOutcome → (s.nodes n).last = .byOutcome ∧
      cell.breaker.status.state = (s.nodes n).breaker.status.state) :
    PersistInv (s.setNode n cell) where
  mutex := h.mutex
  held := h.held
  stored := h.stored
  mine := h.mine
  unsaved := h.unsaved
  current j m status hpc hlast := by
    by_cases hm : m = n
    · subst hm
      simp only [PersistState.setNode, Function.update_self] at hlast ⊢
      obtain ⟨hold, hstate⟩ := hcell hlast
      rw [hstate]
      exact h.current j m status hpc hold
    · simp only [PersistState.setNode, Function.update_of_ne hm] at hlast ⊢
      exact h.current j m status hpc hlast
  saved m hlive hlast := by
    by_cases hm : m = n
    · subst hm
      simp only [PersistState.setNode, Function.update_self] at hlast ⊢
      obtain ⟨hold, hstate⟩ := hcell hlast
      rw [hstate]
      exact h.saved m hlive hold
    · simp only [PersistState.setNode, Function.update_of_ne hm] at hlast ⊢
      exact h.saved m hlive hlast
  removed := h.removed

theorem PersistInv.init : PersistInv {} := by
  constructor <;> simp [BreakerPc.unsaved]

theorem PersistInv.begin {call : BreakerEntry} (h : PersistInv s)
    (hidle : (s.threads i).pc = .idle) :
    PersistInv { s with
      threads := Function.update s.threads i { call, pc := .lookup }
      removed := false } := by
  refine h.of_thread rfl rfl rfl rfl ?_ ?_ ?_ ?_ ?_
  · simp [hidle]
  · constructor <;> simp [BreakerPc.unsaved]
  · exact h.stored
  · simp [hidle, BreakerPc.unsaved]
  · simp

section Erase
variable (i : Nat) (otherHosts : Bool)

theorem PersistState.erase_overtaken : ((s.erase i otherHosts).threads j).overtaken = true := by
  unfold PersistState.erase
  split <;> simp

theorem PersistState.erase_live : (s.erase i otherHosts).live = none := by
  unfold PersistState.erase
  split
  · rfl
  · rename_i hother
    simp only [Bool.or_eq_true, not_or, Bool.not_eq_true, Option.isSome_eq_false_iff,
      Option.isNone_iff_eq_none] at hother
    exact hother.1

theorem PersistState.erase_unsaved (hsaved : ∀ j, (s.threads j).pc.unsaved = none) (j : Nat) :
    ((s.erase i otherHosts).threads j).pc.unsaved = none := by
  unfold PersistState.erase
  by_cases hj : j = i
  · split <;> simp [hj, BreakerPc.unsaved]
  · split <;> simp [hj, hsaved j]

/-- Either `removeHost` takes the mutex, or nothing is stored. -/
theorem PersistInv.erase_mutex (h : PersistInv s) (hfree : s.mutex = none) :
    (∀ j, (s.erase i otherHosts).mutex = some j ↔
      ((s.erase i otherHosts).threads j).pc = .remove) ∧
    ((s.erase i otherHosts).store = none ∨ (s.erase i otherHosts).mutex ≠ none) := by
  have hnone : ∀ j, (s.threads j).pc ≠ .remove := by
    intro j hj
    simpa [hfree] using (h.mutex j).mpr hj
  have hgone : (s.erase i otherHosts).live = none := PersistState.erase_live i otherHosts
  unfold PersistState.erase at hgone ⊢
  split
  · constructor
    · intro j
      by_cases hj : j = i
      · simp [hj]
      · simp [hj, hnone j, Ne.symm hj]
    · exact Or.inr (by simp)
  · rename_i hother
    rw [if_neg hother] at hgone
    constructor
    · intro j
      by_cases hj : j = i
      · simp [hj, hfree]
      · simp [hj, hnone j, hfree]
    · left
      by_contra hstore
      exact (h.stored hstore).elim (fun hl => hl hgone) (fun hm => hm hfree)

/-- No change is unsaved, and whoever has the node has been overtaken from now on. -/
theorem PersistInv.erase (h : PersistInv s) (hfree : s.mutex = none)
    (hsaved : ∀ j, (s.threads j).pc.unsaved = none) : PersistInv (s.erase i otherHosts) := by
  have hmutex := h.erase_mutex i otherHosts hfree
  have hunsaved := PersistState.erase_unsaved i otherHosts hsaved
  constructor
  · exact hmutex.1
  · intro _
    exact PersistState.erase_live i otherHosts
  · intro hstore
    exact Or.inr (hmutex.2.resolve_left hstore)
  · intro j n _ hover
    rw [PersistState.erase_overtaken] at hover
    cases hover
  · intro j n hpc
    rw [hunsaved j] at hpc
    cases hpc
  · intro j n status hpc
    have hnone := hunsaved j
    rw [hpc] at hnone
    cases hnone
  · intro n hlive
    rw [PersistState.erase_live] at hlive
    cases hlive
  · intro _
    exact ⟨fun _ _ => PersistState.erase_overtaken i otherHosts, hmutex.2⟩

end Erase

theorem PersistInv.insert {node : NodeBreaker} (h : PersistInv s)
    (hinsert : (s.threads i).pc = .insert node) (hfree : s.mutex = none) :
    PersistInv (s.insert i node) := by
  unfold PersistState.insert
  split
  · rename_i n hlive
    exact h.setPc (by simp [hinsert]) (by simp [hinsert]) (by simp [hinsert, BreakerPc.unsaved])
      (by simp) rfl (by simp [hlive])
  · rename_i hlive
    have hnone : ∀ j, (s.threads j).pc.unsaved = none := by
      intro j
      by_contra hun
      obtain ⟨n, hn⟩ := Option.ne_none_iff_exists'.mp hun
      simpa [hlive] using (h.unsaved j n hn).1
    have hnew : PersistInv ({ s with live := some s.fresh, fresh := s.fresh + 1 }.setNode s.fresh
        { breaker := node }) := by
      constructor
      · exact h.mutex
      · intro hheld
        exact absurd hfree hheld
      · intro _
        exact Or.inl (by simp [PersistState.setNode])
      · intro j n hpc hover
        simpa [hlive] using h.mine j n hpc hover
      · intro j n hpc
        simp [PersistState.setNode, hnone j] at hpc
      · intro j n status hpc
        have hun := hnone j
        simp only [PersistState.setNode] at hpc
        simp [hpc, BreakerPc.unsaved] at hun
      · intro n hn hlast
        simp only [PersistState.setNode, Option.some.injEq] at hn
        subst hn
        simp [PersistState.setNode] at hlast
      · exact h.removed
    exact hnew.setPc (by simp [PersistState.setNode, hinsert])
      (by simp [PersistState.setNode, hinsert])
      (by simp [PersistState.setNode, hinsert, BreakerPc.unsaved])
      (by simp) rfl (by simp [PersistState.setNode])

/-- An outcome has changed the node that is in `_nodes`, with no status about to be saved. -/
theorem PersistInv.change {b : NodeBreaker} (h : PersistInv s)
    (hready : (s.threads i).pc = .ready n) (hover : (s.threads i).overtaken = false)
    (hsave : ∀ j m status, (s.threads j).pc ≠ .save m status) :
    PersistInv ((s.setNode n { breaker := b, last := .byOutcome }).setPc i (.changed n)) where
  mutex j := by
    by_cases hj : j = i
    · subst hj
      simp [PersistState.setNode, h.mutex, hready]
    · simp [PersistState.setNode, h.mutex, hj]
  held := h.held
  stored := h.stored
  mine j m hpc hnot := by
    by_cases hj : j = i
    · simp [hj] at hpc
    · exact h.mine j m (by simpa [PersistState.setNode, hj] using hpc)
        (by simpa [PersistState.setNode] using hnot)
  unsaved j m hpc := by
    by_cases hj : j = i
    · subst hj
      have hm : n = m := by simpa [BreakerPc.unsaved] using hpc
      subst hm
      exact ⟨h.mine j n hready hover, by simpa [PersistState.setNode] using hover⟩
    · simpa [PersistState.setNode] using
        h.unsaved j m (by simpa [PersistState.setNode, hj] using hpc)
  current j m status hpc hlast := by
    by_cases hj : j = i
    · simp [hj] at hpc
    · exact absurd (by simpa [PersistState.setNode, hj] using hpc) (hsave j m status)
  saved m hlive hlast := by
    have hm : s.live = some n := h.mine i n hready hover
    simp only [PersistState.setNode, PersistState.setPc_live, hm, Option.some.injEq] at hlive
    exact Or.inl ⟨i, by simp [BreakerPc.unsaved, hlive]⟩
  removed hremoved := by
    have hgone := (h.removed hremoved).1 i (by simp [hready])
    simp [hover] at hgone

theorem PersistInv.read (h : PersistInv s) (hchanged : (s.threads i).pc = .changed n) :
    PersistInv (s.setPc i (.save n (s.nodes n).breaker.status)) := by
  have hmine := h.unsaved i n (by simp [hchanged, BreakerPc.unsaved])
  refine h.of_thread (i := i) rfl rfl rfl rfl ?_ ?_ ?_ ?_ ?_
  · simp [hchanged]
  · constructor
    · simp
    · simp
    · intro m hpc
      have hm : n = m := by simpa [BreakerPc.unsaved] using hpc
      exact hm ▸ hmine
    · intro m status hpc _
      simp only [BreakerPc.save.injEq] at hpc
      obtain ⟨rfl, rfl⟩ := hpc
      rfl
  · exact h.stored
  · intro m _ _ hbefore
    simpa [hchanged, BreakerPc.unsaved] using hbefore
  · intro hremoved
    have hgone := h.removed hremoved
    exact ⟨hremoved, fun _ => hgone.1 i (by simp [hchanged]), hgone.2⟩

theorem PersistInv.save {status : CircuitStatus} (h : PersistInv s)
    (hsave : (s.threads i).pc = .save n status) :
    PersistInv ({ s with store := some status }.setPc i .idle) := by
  have hmine := h.unsaved i n (by simp [hsave, BreakerPc.unsaved])
  refine h.of_thread (i := i) rfl rfl rfl rfl ?_ ?_ ?_ ?_ ?_
  · simp [hsave]
  · constructor <;> simp [BreakerPc.unsaved]
  · intro _
    exact Or.inl (by simp [hmine.1])
  · intro m hlive hlast _
    have hm : n = m := Option.some.inj (hmine.1.symm.trans hlive)
    subst hm
    exact Or.inr ⟨status, rfl, h.current i n status hsave hlast⟩
  · intro hremoved
    -- it would have been overtaken
    have hgone := (h.removed hremoved).1 i (by simp [hsave])
    simp [hmine.2] at hgone

theorem PersistInv.remove (h : PersistInv s) (hremove : (s.threads i).pc = .remove) :
    PersistInv ({ s with store := none, mutex := none }.setPc i .idle) where
  mutex j := by
    have hi := (h.mutex i).mpr hremove
    by_cases hj : j = i
    · simp [hj]
    · have hnot : (s.threads j).pc ≠ .remove := by
        intro hpc
        have hboth := (h.mutex j).mpr hpc
        rw [hi, Option.some.injEq] at hboth
        exact hj hboth.symm
      simp [hj, hnot]
  held := by simp
  stored := by simp
  mine j m hpc hnot := by
    by_cases hj : j = i
    · simp [hj] at hpc
    · exact h.mine j m (by simpa [hj] using hpc) (by simpa using hnot)
  unsaved j m hpc := by
    by_cases hj : j = i
    · simp [hj, BreakerPc.unsaved] at hpc
    · simpa using h.unsaved j m (by simpa [hj] using hpc)
  current j m status hpc hlast := by
    by_cases hj : j = i
    · simp [hj] at hpc
    · exact h.current j m status (by simpa [hj] using hpc) hlast
  saved m hlive := by
    have hnone : s.live = none := h.held (by simp [(h.mutex i).mpr hremove])
    simp [hnone] at hlive
  removed hremoved := by
    refine ⟨fun j hpc => ?_, Or.inl rfl⟩
    by_cases hj : j = i
    · simp [hj] at hpc
    · simpa using (h.removed hremoved).1 j (by simpa [hj] using hpc)

theorem BreakerEntry.outcome_unchanged {call : BreakerEntry} {b b' : NodeBreaker}
    (h : call.outcome env b = some (false, b')) : b'.status.state = b.status.state := by
  cases call with
  | onSuccess =>
    simp only [outcome, NodeBreaker.onSuccess, Option.some.injEq] at h
    split at h
    · simp only [Prod.mk.injEq, true_and] at h
      rw [← h, NodeBreaker.record_state]
    · simp at h
  | onFailure =>
    simp only [outcome, NodeBreaker.onFailure, Option.some.injEq] at h
    split at h
    · split at h
      · simp at h
      · simp only [Prod.mk.injEq, true_and] at h
        rw [← h, NodeBreaker.record_state]
    · simp only [Prod.mk.injEq, true_and] at h
      rw [← h, NodeBreaker.record_state]
    · simp at h
  | getOrCreate => simp [outcome] at h
  | allowRequest => simp [outcome] at h
  | removeHost => simp [outcome] at h

theorem PersistInv.report {result : Bool × NodeBreaker} (h : PersistInv s)
    (hready : (s.threads i).pc = .ready n)
    (hresult : (s.threads i).call.outcome env (s.nodes n).breaker = some result)
    (hok : Undisturbed s (.run i env)) : PersistInv (s.report i n result) := by
  obtain ⟨changed, b⟩ := result
  unfold PersistState.report
  cases changed with
  | true =>
    simp only [Undisturbed, hready, hresult] at hok
    obtain ⟨hover, hsave⟩ := hok ⟨b, rfl⟩
    exact h.change hready hover hsave
  | false =>
    have hstate := BreakerEntry.outcome_unchanged hresult
    have hnode : PersistInv (s.setNode n { breaker := b, last := (s.nodes n).last }) :=
      h.setNode fun hlast => ⟨hlast, hstate⟩
    exact hnode.setPc (by simp [PersistState.setNode, hready])
      (by simp [PersistState.setNode, hready])
      (by simp [PersistState.setNode, hready, BreakerPc.unsaved]) (by simp) rfl (by simp)

theorem PersistInv.allow {now : Int} (h : PersistInv s)
    (hready : (s.threads i).pc = .ready n) : PersistInv (s.allow i n now) := by
  unfold PersistState.allow
  have hnode : PersistInv (s.setNode n
      { breaker := ((s.nodes n).breaker.allowRequest now).2
        last :=
          if ((s.nodes n).breaker.allowRequest now).2.status.state
              = (s.nodes n).breaker.status.state then (s.nodes n).last
          else .byAllowRequest }) := by
    apply h.setNode
    intro hlast
    split at hlast
    · rename_i hsame
      exact ⟨hlast, hsame⟩
    · simp at hlast
  exact hnode.setPc (by simp [PersistState.setNode, hready])
    (by simp [PersistState.setNode, hready])
    (by simp [PersistState.setNode, hready, BreakerPc.unsaved]) (by simp) rfl (by simp)

theorem PersistInv.thread (h : PersistInv s) (hok : Undisturbed s (.run i env))
    (hstep : threadStep cfg s i env = some t) : PersistInv t := by
  unfold threadStep at hstep
  split at hstep
  · simp at hstep
  · rename_i hpc
    split at hstep
    · simp at hstep
    · rename_i hfree
      have hfree : s.mutex = none := by simpa using hfree
      split at hstep
      · rename_i hcall
        simp only [Undisturbed, hpc] at hok
        simp only [Option.some.injEq] at hstep
        exact hstep ▸ h.erase i env.otherHosts hfree (hok hcall)
      · split at hstep
        · rename_i n hlive
          simp only [Option.some.injEq] at hstep
          exact hstep ▸ h.setPc (by simp [hpc]) (by simp [hpc]) (by simp [hpc, BreakerPc.unsaved])
            (by simp) rfl (by simp [hlive])
        · simp only [Option.some.injEq] at hstep
          exact hstep ▸ h.setPc (by simp [hpc]) (by simp [hpc]) (by simp [hpc, BreakerPc.unsaved])
            (by simp) rfl (by simp)
  · rename_i hpc
    simp only [Option.some.injEq] at hstep
    exact hstep ▸ h.setPc (by simp [hpc]) (by simp [hpc]) (by simp [hpc, BreakerPc.unsaved])
      (by simp) rfl (by simp)
  · rename_i node hpc
    split at hstep
    · simp at hstep
    · rename_i hfree
      simp only [Option.some.injEq] at hstep
      exact hstep ▸ h.insert hpc (by simpa using hfree)
  · rename_i n hpc
    split at hstep
    · rename_i result hresult
      simp only [Option.some.injEq] at hstep
      exact hstep ▸ h.report hpc hresult hok
    · split at hstep
      · simp only [Option.some.injEq] at hstep
        exact hstep ▸ h.allow hpc
      · simp only [Option.some.injEq] at hstep
        exact hstep ▸ h.setPc (by simp [hpc]) (by simp [hpc]) (by simp [hpc, BreakerPc.unsaved])
          (by simp) rfl (by simp)
  · rename_i n hpc
    simp only [Option.some.injEq] at hstep
    exact hstep ▸ h.read hpc
  · rename_i n status hpc
    simp only [Option.some.injEq] at hstep
    exact hstep ▸ h.save hpc
  · rename_i hpc
    simp only [Option.some.injEq] at hstep
    exact hstep ▸ h.remove hpc

theorem PersistInv.step {a : PersistAct} (h : PersistInv s) (hok : Undisturbed s a)
    (hstep : persistStep cfg s a = some t) : PersistInv t := by
  cases a with
  | begin i call =>
    simp only [persistStep] at hstep
    split at hstep
    · rename_i hidle
      simp only [Option.some.injEq] at hstep
      exact hstep ▸ h.begin hidle
    · simp at hstep
  | run i env => exact h.thread hok hstep

/-- When every call has returned, nothing is left to be saved, and nothing removes. -/
theorem PersistInv.persisted (h : PersistInv s) (hq : s.Quiescent) : s.Persisted where
  saved n hlive hlast := by
    cases h.saved n hlive hlast with
    | inl hpending =>
      obtain ⟨j, hj⟩ := hpending
      simp [hq j, BreakerPc.unsaved] at hj
    | inr hstore => exact hstore
  removed hremoved := by
    cases (h.removed hremoved).2 with
    | inl hnone => exact hnone
    | inr hheld =>
      obtain ⟨i, hi⟩ := Option.ne_none_iff_exists'.mp hheld
      have hpc := (h.mutex i).mp hi
      simp [hq i] at hpc

end Persist

/-- In a run whose outcomes do not get in each other's way, nor in that of a
`removeHost`, the store agrees with `_nodes` whenever all calls have returned. The store
starts empty, as a `MemoryCircuitStore` is made with its breaker. -/
theorem breaker_persisted (cfg : CircuitConfig) (s : PersistState)
    (h : Run (persistStep cfg) Undisturbed {} s) : s.Quiescent → s.Persisted := by
  have hinv : PersistInv s :=
    h.invariant PersistInv PersistInv.init (fun t a u ht hok hs => ht.step hok hs)
  exact hinv.persisted

/-- A single failure opens the circuit. -/
def tripAtOnce : CircuitConfig := { windowSize := 1, minCalls := 1 }

/-- The failure is saved. -/
theorem breaker_persisted_failure :
    ∃ s, Run (persistStep tripAtOnce) Undisturbed {} s ∧ s.Persisted ∧ s.live = some 0 ∧
      (s.nodes 0).last = .byOutcome ∧
      (s.nodes 0).breaker.status.state = .OPEN := by
  have h0 : Run (persistStep tripAtOnce) Undisturbed {} {} := .refl
  have h1 := h0.snoc (show Undisturbed _ (.begin 0 .onFailure) from trivial) rfl
  have h2 := h1.snoc (show Undisturbed _ (.run 0 {}) from fun hcall => nomatch hcall) rfl
  have h3 := h2.snoc (show Undisturbed _ (.run 0 {}) from trivial) rfl
  have h4 := h3.snoc (show Undisturbed _ (.run 0 {}) from trivial) rfl
  have h5 := h4.snoc (show Undisturbed _ (.run 0 {}) from
    fun _ => ⟨rfl, fun j _ _ => match j with | 0 => nofun | _ + 1 => nofun⟩) rfl
  have h6 := h5.snoc (show Undisturbed _ (.run 0 {}) from trivial) rfl
  have h7 := h6.snoc (show Undisturbed _ (.run 0 {}) from trivial) rfl
  have hpersisted := breaker_persisted tripAtOnce _ h7
    (fun j => match j with | 0 => rfl | _ + 1 => rfl)
  exact ⟨_, h7, hpersisted, rfl, rfl, rfl⟩

/-- A failure whose status is read, and saved only after a success was reported. -/
def overtakenSave : List PersistAct :=
  [.begin 0 .onFailure, .run 0 {}, .run 0 {}, .run 0 {}, .run 0 {}, .run 0 {},
    .begin 1 .onSuccess, .run 1 {}, .run 1 {}, .run 1 {}, .run 1 {}, .run 0 {}]

/-- A failure that is reported after the host was taken offline. -/
def lateOutcome : List PersistAct :=
  [.begin 0 .onFailure, .run 0 {}, .run 0 {}, .run 0 {},
    .begin 1 .removeHost, .run 1 {}, .run 1 {}, .run 0 {}, .run 0 {}, .run 0 {}]

theorem breaker_store_differs :
    (∃ s, exec (persistStep tripAtOnce) {} overtakenSave = some s ∧ s.Quiescent ∧
      ¬s.Persisted) ∧
    ∃ s, exec (persistStep tripAtOnce) {} lateOutcome = some s ∧ s.Quiescent ∧
      ¬s.Persisted := by
  constructor
  · refine ⟨_, rfl, ?_, ?_⟩
    · intro i
      match i with
      | 0 => rfl
      | 1 => rfl
      | _ + 2 => rfl
    · intro h
      obtain ⟨status, hstore, hstate⟩ := h.saved 0 rfl rfl
      cases hstore
      exact absurd hstate (by decide)
  · refine ⟨_, rfl, ?_, ?_⟩
    · intro i
      match i with
      | 0 => rfl
      | 1 => rfl
      | _ + 2 => rfl
    · intro h
      exact absurd (h.removed rfl) (by simp)

end LyqtRpc
