import LyqtRpc.BreakerStore
import LyqtRpc.Lib.AssocTable
import LyqtRpc.Lib.ByteMemory

/-!
`circuit_breaker.cpp` and `memory_circuit_store.cpp` over all methods and hosts: the two
nested tables and the calls of any number of threads. The steps are those of the machine of
one key; `removeHost` walks through the methods and holds the mutex.
-/

set_option autoImplicit false

namespace LyqtRpc

open StepRun AssocTable

namespace MemoryCircuitStore

def save (t : Nested Bytes Bytes CircuitStatus) (method host : Bytes) (status : CircuitStatus) :
    Nested Bytes Bytes CircuitStatus :=
  t.put method host status

def load (t : Nested Bytes Bytes CircuitStatus) (method host : Bytes) : CircuitStatus :=
  (t.find method host).getD {}

def remove (t : Nested Bytes Bytes CircuitStatus) (method host : Bytes) :
    Nested Bytes Bytes CircuitStatus :=
  match t.find method host with
  | none => t
  | some _ => (t.drop method host).prune method

theorem find_remove (t : Nested Bytes Bytes CircuitStatus) (method host m h : Bytes) :
    (remove t method host).find m h = if m = method ∧ h = host then none else t.find m h := by
  unfold remove
  split
  · rename_i hnone
    split
    · rename_i heq
      rw [heq.1, heq.2, hnone]
    · rfl
  · rw [Nested.find_prune, Nested.find_drop]

end MemoryCircuitStore

inductive NodeCall where
  | allowRequest | onSuccess | onFailure
  deriving DecidableEq, Repr

inductive NodePc where
  | lookup
  | load
  | insert (node : NodeBreaker)
  | ready (n : Nat)
  | changed (n : Nat)
  | save (n : Nat) (status : CircuitStatus)

/-- Where a thread is. -/
inductive CircuitPc where
  | idle
  | node (call : NodeCall) (method host : Bytes) (pc : NodePc)
  /-- `removeHost` waits for the mutex. -/
  | lock (host : Bytes)
  /-- It has still to go to these methods. -/
  | walk (host : Bytes) (rest : List Bytes)
  /-- It has erased the host under this method. -/
  | remove (host method : Bytes) (rest : List Bytes)

/-- `objects` are the nodes that were put into `_nodes` for a key, by number; they live on
when they are erased. -/
structure CircuitBreaker where
  nodes : Nested Bytes Bytes Nat := ∅
  objects : Bytes → Bytes → Nat → NodeBreaker := fun _ _ _ => .create {}
  made : Bytes → Bytes → Nat := fun _ _ => 0
  store : Nested Bytes Bytes CircuitStatus := ∅
  mutex : Option Nat := none
  threads : Nat → CircuitPc := fun _ => .idle

/-- The clocks, and the method that the walk comes to next. -/
structure CircuitEnv where
  now : Int := 0
  wallNow : Int := 0
  method : Bytes := []

inductive CircuitAct where
  | call (i : Nat) (call : NodeCall) (method host : Bytes)
  | removeHost (i : Nat) (host : Bytes)
  | run (i : Nat) (env : CircuitEnv)

/-- Whether a status is to be saved, and the node after the call. -/
def NodeCall.run (call : NodeCall) (b : NodeBreaker) (now wallNow : Int) : Bool × NodeBreaker :=
  match call with
  | .allowRequest => (false, (b.allowRequest now).2)
  | .onSuccess => b.onSuccess
  | .onFailure => b.onFailure now wallNow

namespace CircuitBreaker

def setPc (S : CircuitBreaker) (i : Nat) (pc : CircuitPc) : CircuitBreaker :=
  { S with threads := Function.update S.threads i pc }

def setObject (S : CircuitBreaker) (method host : Bytes) (n : Nat) (b : NodeBreaker) :
    CircuitBreaker :=
  { S with objects := fun m h k => if m = method ∧ h = host ∧ k = n then b else S.objects m h k }

/-- The second look at `_nodes`, under the mutex. -/
def insert (S : CircuitBreaker) (method host : Bytes) (node : NodeBreaker) :
    Nat × CircuitBreaker :=
  match S.nodes.find method host with
  | some n => (n, S)
  | none =>
    let n := S.made method host
    (n, { S with
      nodes := S.nodes.put method host n
      made := fun m h => if m = method ∧ h = host then n + 1 else S.made m h }.setObject
        method host n node)

/-- A call for one key goes on. -/
def nodeStep (cfg : CircuitConfig) (S : CircuitBreaker) (call : NodeCall) (method host : Bytes)
    (now wallNow : Int) : NodePc → Option (Option NodePc × CircuitBreaker)
  | .lookup =>
    if S.mutex.isSome then none
    else
      match S.nodes.find method host with
      | some n => some (some (.ready n), S)
      | none => some (some .load, S)
  | .load =>
    let saved := MemoryCircuitStore.load S.store method host
    some (some (.insert (.getOrCreate cfg saved now wallNow)), S)
  | .insert node =>
    if S.mutex.isSome then none
    else
      let (n, S) := S.insert method host node
      some (some (.ready n), S)
  | .ready n =>
    let result := call.run (S.objects method host n) now wallNow
    some (if result.1 then some (.changed n) else none, S.setObject method host n result.2)
  | .changed n => some (some (.save n (S.objects method host n).status), S)
  | .save _ status =>
    some (none, { S with store := MemoryCircuitStore.save S.store method host status })

end CircuitBreaker

def circuitStep (cfg : CircuitConfig) (S : CircuitBreaker) : CircuitAct → Option CircuitBreaker
  | .call i call method host =>
    match S.threads i with
    | .idle => some (S.setPc i (.node call method host .lookup))
    | _ => none
  | .removeHost i host =>
    match S.threads i with
    | .idle => some (S.setPc i (.lock host))
    | _ => none
  | .run i env =>
    match S.threads i with
    | .idle => none
    | .node call method host pc =>
      (S.nodeStep cfg call method host env.now env.wallNow pc).map fun (next, T) =>
        T.setPc i (next.elim .idle (.node call method host))
    | .lock host =>
      if S.mutex.isSome then none
      else some ({ S with mutex := some i }.setPc i (.walk host S.nodes.keys))
    | .walk host rest =>
      if rest = [] then some ({ S with mutex := none }.setPc i .idle)
      else if env.method ∈ rest then
        some ({ S with nodes := S.nodes.drop env.method host }.setPc i
          (.remove host env.method (rest.erase env.method)))
      else none
    | .remove host method rest =>
      some ({ S with
        nodes := S.nodes.prune method
        store := MemoryCircuitStore.remove S.store method host }.setPc i (.walk host rest))

end LyqtRpc
