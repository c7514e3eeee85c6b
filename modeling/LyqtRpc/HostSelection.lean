import LyqtRpc.ConsistentHash
import LyqtRpc.Lib.Candidates

/-!
`MethodHost::selectHost` and `selectHosts`: one host by a strategy, and the list
of candidates a caller tries one after the other.
-/

set_option autoImplicit false

namespace LyqtRpc

open Candidates StepRun

def MAX_IDX : Nat := 1000000000

structure IndexedMethodHost extends MethodHostRing Nat where
  idx : Nat := 0

/-- `_idx++`, and the reset. -/
def nextIdx (idx n : Nat) : Nat :=
  if MAX_IDX ≤ idx + 1 then (idx + 1) % n else idx + 1

/-- `uint64_t` has room for the index. -/
theorem nextIdx_lt {n : Nat} (hn : 0 < n) (idx : Nat) : nextIdx idx n < max MAX_IDX n := by
  unfold nextIdx
  split
  · exact (Nat.mod_lt _ hn).trans_le (le_max_right ..)
  · exact (Nat.lt_of_not_le (by assumption)).trans_le (le_max_left ..)

/-- `HostDetail()` -/
def noHost : HostDetail := ⟨⟨[], 0⟩, 0⟩

/-- The scan of `pickLowestLoad`: the least load so far and who has it. -/
def scanLoads (details : List HostDetail) : Int32 × List Nat :=
  details.zipIdx.foldl (fun best e =>
    if e.1.load < best.1 then (e.1.load, [e.2])
    else if e.1.load = best.1 then (best.1, best.2 ++ [e.2])
    else best) (Int32.maxValue, [])

namespace IndexedMethodHost

/-- `hash` is `std::hash<std::string>`. -/
def appendHost (hash : Bytes → Nat) (m : IndexedMethodHost) (host : HostInfo) (load : Int32) :
    IndexedMethodHost :=
  { m with toMethodHostRing := m.toMethodHostRing.appendHost hash host load }

def removeHost (hash : Bytes → Nat) (m : IndexedMethodHost) (host : HostInfo) :
    IndexedMethodHost :=
  { m with toMethodHostRing := m.toMethodHostRing.removeHost hash host }

def advance (m : IndexedMethodHost) : IndexedMethodHost :=
  { m with idx := nextIdx m.idx m.details.length }

def pickRoundRobin (m : IndexedMethodHost) : Option HostDetail × IndexedMethodHost :=
  if m.details = [] then (some noHost, m)
  else (m.details[m.idx % m.details.length]?, m.advance)

/-- `draw` is what the random generator gives. -/
def pickSourceHash (hash : Bytes → Nat) (m : IndexedMethodHost) (draw : Nat) (key : Bytes) :
    Option HostDetail :=
  if key = [] then m.pickRandom draw
  else if m.details = [] then some noHost
  else m.details[hash key % m.details.length]?

def pickLowestLoad (m : IndexedMethodHost) : Option HostDetail × IndexedMethodHost :=
  if m.details = [] then (some noHost, m)
  else
    let candidates := (scanLoads m.details).2
    if candidates = [] then (some noHost, m)
    else (candidates[m.idx % candidates.length]?.bind (m.details[·]?), m.advance)

def selectHost (hash : Bytes → Nat) (m : IndexedMethodHost) (draw : Nat)
    (strategy : EnumValue LoadBalanceStrategy) (key : Bytes) :
    Option HostDetail × IndexedMethodHost :=
  if m.details = [] then (some noHost, m)
  else
    match strategy with
    | .named .ROUND_ROBIN => m.pickRoundRobin
    | .named .RANDOM => (m.pickRandom draw, m)
    | .named .SOURCE_HASH => (m.pickSourceHash hash draw key, m)
    | .named .LOWEST_LOAD => m.pickLowestLoad
    | .named .CONSISTENT_HASH => (m.pickConsistentHash hash draw key, m)
    | .unnamed _ _ => (some noHost, m)

/-- The hosts at these indices; `none` where one is outside `_host`. -/
def hostsAt (m : IndexedMethodHost) (order : List Nat) : Option (List HostDetail) :=
  order.mapM (m.details[·]?)

/-- All hosts once around, from `start` on. -/
def around (m : IndexedMethodHost) (start : Nat) : Option (List HostDetail) :=
  (List.range m.details.length).mapM (fun i => m.details[(start + i) % m.details.length]?)

/-- `shuffle` is what `std::shuffle` makes of the indices. -/
def randomOrder (m : IndexedMethodHost) (shuffle : List Nat → List Nat) :
    Option (List HostDetail) :=
  m.hostsAt (shuffle (List.range m.details.length))

def loadAt (m : IndexedMethodHost) (i : Nat) : Int32 := (m.details.getD i noHost).load

/-- `std::stable_sort` of the indices. -/
def loadOrder (m : IndexedMethodHost) : List Nat :=
  (List.range m.details.length).mergeSort (fun a b => !decide (m.loadAt b < m.loadAt a))

/-- `best_cnt`: how many in front have the load of the first. -/
def bestCount (m : IndexedMethodHost) : List Nat → Nat
  | [] => 1
  | first :: order => 1 + (order.takeWhile (fun i => m.loadAt i = m.loadAt first)).length

def byLoad (m : IndexedMethodHost) : Option (List HostDetail) := do
  let order := m.loadOrder
  let best := m.bestCount order
  let front ← (List.range best).mapM (fun i => order[(m.idx + i) % best]?.bind (m.details[·]?))
  let rest ← m.hostsAt (order.drop best)
  pure (front ++ rest)

/-- The loop over the ring: hosts not seen before, until none is left. -/
def unseen : List Nat → List Bool → Nat → Option (List Nat)
  | [], _, _ => some []
  | i :: is, seen, remaining =>
    if remaining = 0 then some []
    else
      match seen[i]? with
      | none => none
      | some true => unseen is seen remaining
      | some false => (unseen is (seen.set i true) (remaining - 1)).map (i :: ·)

def alongRing (m : IndexedMethodHost) (hashVal : Nat) : Option (List HostDetail) :=
  (unseen ((m.ring.clockwiseFrom hashVal).map (·.2))
    (List.replicate m.details.length false) m.details.length).bind m.hostsAt

def selectHosts (hash : Bytes → Nat) (m : IndexedMethodHost) (shuffle : List Nat → List Nat)
    (strategy : EnumValue LoadBalanceStrategy) (key : Bytes) :
    Option (List HostDetail) × IndexedMethodHost :=
  if m.details = [] then (some [], m)
  else
    match strategy with
    | .named .ROUND_ROBIN => (m.around (m.idx % m.details.length), m.advance)
    | .named .RANDOM => (m.randomOrder shuffle, m)
    | .named .SOURCE_HASH =>
      if key = [] then (m.randomOrder shuffle, m)
      else (m.around (hash key % m.details.length), m)
    | .named .LOWEST_LOAD => (m.byLoad, m.advance)
    | .named .CONSISTENT_HASH =>
      if key = [] ∨ m.ring.entries = [] then (m.randomOrder shuffle, m)
      else (m.alongRing (hash key), m)
    | .unnamed _ _ => (some [], m)

end IndexedMethodHost

inductive SelectionAct where
  | appendHost (host : HostInfo) (load : Int32)
  | removeHost (host : HostInfo)
  | selectHost (draw : Nat) (strategy : EnumValue LoadBalanceStrategy) (key : Bytes)
  | selectHosts (shuffle : List Nat → List Nat) (strategy : EnumValue LoadBalanceStrategy)
      (key : Bytes)

def selectionStep (hash : Bytes → Nat) (m : IndexedMethodHost) :
    SelectionAct → Option IndexedMethodHost
  | .appendHost host load => some (m.appendHost hash host load)
  | .removeHost host => some (m.removeHost hash host)
  | .selectHost draw strategy key => some (m.selectHost hash draw strategy key).2
  | .selectHosts shuffle strategy key => some (m.selectHosts hash shuffle strategy key).2

namespace IndexedMethodHost
variable {hash : Bytes → Nat} {m : IndexedMethodHost}

/-- A selection changes nothing but the index. -/
theorem selectHost_hosts (draw : Nat) (strategy : EnumValue LoadBalanceStrategy) (key : Bytes) :
    (m.selectHost hash draw strategy key).2.toMethodHostRing = m.toMethodHostRing := by
  unfold selectHost
  split
  · rfl
  · split
    · unfold pickRoundRobin
      split <;> rfl
    · rfl
    · rfl
    · unfold pickLowestLoad
      split
      · rfl
      · dsimp only
        split <;> rfl
    · rfl
    · rfl

theorem selectHosts_hosts (shuffle : List Nat → List Nat)
    (strategy : EnumValue LoadBalanceStrategy) (key : Bytes) :
    (m.selectHosts hash shuffle strategy key).2.toMethodHostRing = m.toMethodHostRing := by
  unfold selectHosts
  split
  · rfl
  · split
    · rfl
    · rfl
    · split <;> rfl
    · rfl
    · split <;> rfl
    · rfl

end IndexedMethodHost

theorem selectionStep_current {hash : Bytes → Nat} {m t : IndexedMethodHost} {a : SelectionAct}
    (h : RingCurrent hash m.toMethodHostRing) (hs : selectionStep hash m a = some t) :
    RingCurrent hash t.toMethodHostRing := by
  cases a with
  | appendHost host load =>
      obtain rfl := Option.some.inj hs
      exact hostStep_current (a := .appendHost host load) h rfl
  | removeHost host =>
      obtain rfl := Option.some.inj hs
      exact hostStep_current (a := .removeHost host) h rfl
  | selectHost draw strategy key =>
      obtain rfl := Option.some.inj hs
      rw [IndexedMethodHost.selectHost_hosts]
      exact h
  | selectHosts shuffle strategy key =>
      obtain rfl := Option.some.inj hs
      rw [IndexedMethodHost.selectHosts_hosts]
      exact h

theorem selection_current {hash : Bytes → Nat} {m : IndexedMethodHost}
    (h : Reachable (selectionStep hash) {} m) : RingCurrent hash m.toMethodHostRing := by
  have hinitial : RingCurrent hash ({} : IndexedMethodHost).toMethodHostRing := rfl
  exact h.invariant (fun m => RingCurrent hash m.toMethodHostRing) hinitial
    (fun _ _ _ hi _ hs => selectionStep_current hi hs)

end LyqtRpc
