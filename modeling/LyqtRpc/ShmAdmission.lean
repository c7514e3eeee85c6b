import Mathlib.Data.PNat.Basic
import LyqtRpc.Lib.AssocTable
import LyqtRpc.Lib.ByteText
import LyqtRpc.Lib.StepRun

/-!
The accept loops of `ShmServer` and `ShmServerProto` over the life of a server:
who is let in, and what the server goes on holding for whom. The workers look
entries up and take none away; a client that detaches sends nothing.
-/

set_option autoImplicit false

namespace LyqtRpc

open StepRun

structure ShmConfig where
  shmPrefix : Bytes
  maxClients : Int32
  workerCount : ℕ+

/-- What `handshake_server` meets: its eventfd, the two writes, the descriptor
that the client sends. -/
structure HandshakeCalls where
  eventfd : Option Nat
  writeLen : Bool
  writeName : Bool
  recvFd : Option Nat

inductive HandshakeResult where
  /-- Returns false, with its eventfd closed again. -/
  | failed
  | done (reqFd respFd : Nat)
  /-- `recv_fd` copies out of a control message that has not come. -/
  | undefined
  deriving DecidableEq, Repr

def handshakeServer (c : HandshakeCalls) : HandshakeResult :=
  match c.eventfd with
  | none => .failed
  | some reqFd =>
    if !c.writeLen then .failed
    else if !c.writeName then .failed
    else
      match c.recvFd with
      | none => .undefined
      | some respFd => .done reqFd respFd

/-- Whether `create` succeeds, and the handshake behind it. -/
structure RoundCalls where
  create : Bool
  handshake : HandshakeCalls

/-- `client` is the client the entry was made for; no code reads it. -/
structure ClientEntry where
  client : Nat
  shmName : Bytes
  reqFd : Nat
  respFd : Nat

/-- Where a server keeps its entries. -/
structure ClientTable (σ : Type) where
  empty : σ
  add : Nat → ClientEntry → σ → σ
  Held : σ → ClientEntry → Prop
  not_held_empty : ∀ e, ¬ Held empty e
  held_add : ∀ wid new t e, Held (add wid new t) e → e = new ∨ Held t e

/-- `segments` and `eventfds` are what the server has made or received and not
given back, each with its client. No code reads these two, nor the last three:
the clients that are connected, the number of connections that have come, and the
number of those that failed after they were let in. -/
structure AcceptLoop (σ : Type) where
  nextId : Nat := 0
  roundRobin : Nat := 0
  table : σ
  undefined : Bool := false
  segments : List (Bytes × Nat) := []
  eventfds : List (Nat × Nat) := []
  connected : List Nat := []
  arrivals : Nat := 0
  failed : Nat := 0

namespace AcceptLoop

variable {σ : Type}

def init (T : ClientTable σ) : AcceptLoop σ := { table := T.empty }

/-- `next_id >= _max_clients` -/
def refuses (cfg : ShmConfig) (s : AcceptLoop σ) : Bool :=
  decide (cfg.maxClients.toInt ≤ s.nextId)

def shmName (cfg : ShmConfig) (s : AcceptLoop σ) : Bytes :=
  cfg.shmPrefix ++ str "_" ++ natText s.nextId

/-- One round with a connection. -/
def accept (T : ClientTable σ) (cfg : ShmConfig) (s : AcceptLoop σ) (calls : RoundCalls) :
    AcceptLoop σ :=
  let client := s.arrivals
  let name := s.shmName cfg
  if s.refuses cfg then { s with arrivals := s.arrivals + 1 }
  else
    let s := { s with nextId := s.nextId + 1, arrivals := s.arrivals + 1 }
    if !calls.create then { s with failed := s.failed + 1 }
    else
      let s := { s with segments := (name, client) :: s.segments }
      match handshakeServer calls.handshake with
      | .failed =>
        { s with segments := s.segments.erase (name, client), failed := s.failed + 1 }
      | .undefined => { s with undefined := true }
      | .done reqFd respFd =>
        { s with
          eventfds := (reqFd, client) :: (respFd, client) :: s.eventfds
          table := T.add (s.roundRobin % cfg.workerCount) ⟨client, name, reqFd, respFd⟩ s.table
          roundRobin := s.roundRobin + 1
          connected := client :: s.connected }

inductive Act where
  | accept (calls : RoundCalls)
  | disconnect (client : Nat)

def step (T : ClientTable σ) (cfg : ShmConfig) (s : AcceptLoop σ) : Act → Option (AcceptLoop σ)
  | .accept calls => if s.undefined then none else some (s.accept T cfg calls)
  | .disconnect client =>
    if client ∈ s.connected then
      some { s with connected := s.connected.filter (· ≠ client) }
    else none

/-- What the server holds belongs to clients that are connected. -/
structure Holds (T : ClientTable σ) (s : AcceptLoop σ) : Prop where
  entries : ∀ e, T.Held s.table e → e.client ∈ s.connected
  eventfds : ∀ h ∈ s.eventfds, h.2 ∈ s.connected
  segments : ∀ h ∈ s.segments, h.2 ∈ s.connected

/-- A connection is refused only while the server is full, and behind the step
the server is defined and holds nothing for a client that is gone. -/
structure Lawful (T : ClientTable σ) (cfg : ShmConfig) (s : AcceptLoop σ) (a : Act) : Prop where
  admits : ∀ calls, a = .accept calls → s.refuses cfg = true →
    cfg.maxClients.toInt ≤ s.connected.length
  holds : ∀ s', s.step T cfg a = some s' → s'.Holds T ∧ s'.undefined = false

/-- No client leaves, none is lost before its eventfd has come, and a connection
is not refused once another one has failed. -/
def Fits (cfg : ShmConfig) (s : AcceptLoop σ) : Act → Prop
  | .accept calls =>
    if s.refuses cfg then s.failed = 0
    else calls.create = true → handshakeServer calls.handshake ≠ .undefined
  | .disconnect client => client ∉ s.connected

variable {T : ClientTable σ} {cfg : ShmConfig} {s s' : AcceptLoop σ}

/-- Along a run that is lawful so far: each connected client has its segment, and
every id was used for one of them or for a failure. -/
structure Inv (T : ClientTable σ) (cfg : ShmConfig) (s : AcceptLoop σ) : Prop where
  holds : s.Holds T
  defined : s.undefined = false
  owns : ∀ client ∈ s.connected, ∃ name, (name, client) ∈ s.segments
  count : s.nextId = s.connected.length + s.failed
  bound : s.nextId = 0 ∨ (s.nextId : Int) ≤ cfg.maxClients.toInt

theorem inv_init : (init T).Inv T cfg where
  holds := ⟨fun e he => absurd he (T.not_held_empty e), by simp [init], by simp [init]⟩
  defined := rfl
  owns := by simp [init]
  count := rfl
  bound := .inl rfl

theorem accept_refused (calls : RoundCalls) (h : s.refuses cfg = true) :
    s.accept T cfg calls = { s with arrivals := s.arrivals + 1 } := by
  simp only [accept, h, if_true]

/-- What a round may do once the connection is let in. -/
theorem accept_cases (calls : RoundCalls) (h : s.refuses cfg = false) :
    ((calls.create = true → handshakeServer calls.handshake ≠ .undefined) ∧
      s.accept T cfg calls =
        { s with nextId := s.nextId + 1, arrivals := s.arrivals + 1, failed := s.failed + 1 }) ∨
    (calls.create = true ∧ handshakeServer calls.handshake = .undefined ∧
      (s.accept T cfg calls).undefined = true) ∨
    ∃ reqFd respFd, handshakeServer calls.handshake = .done reqFd respFd ∧
      s.accept T cfg calls =
        { s with
          nextId := s.nextId + 1
          arrivals := s.arrivals + 1
          segments := (s.shmName cfg, s.arrivals) :: s.segments
          eventfds := (reqFd, s.arrivals) :: (respFd, s.arrivals) :: s.eventfds
          table := T.add (s.roundRobin % cfg.workerCount)
            ⟨s.arrivals, s.shmName cfg, reqFd, respFd⟩ s.table
          roundRobin := s.roundRobin + 1
          connected := s.arrivals :: s.connected } := by
  cases hcreate : calls.create with
  | false => exact .inl ⟨by simp, by simp [accept, h, hcreate]⟩
  | true =>
      cases hshake : handshakeServer calls.handshake with
      | failed => exact .inl ⟨by simp, by simp [accept, h, hcreate, hshake]⟩
      | undefined => exact .inr (.inl ⟨rfl, rfl, by simp [accept, h, hcreate, hshake]⟩)
      | done reqFd respFd =>
          exact .inr (.inr ⟨reqFd, respFd, rfl, by simp [accept, h, hcreate, hshake]⟩)

theorem refuses_eq_false : s.refuses cfg = false ↔ (s.nextId : Int) < cfg.maxClients.toInt := by
  simp [refuses]

theorem Holds.idle (h : s.Holds T) (nextId arrivals failed : Nat) :
    { s with nextId := nextId, arrivals := arrivals, failed := failed }.Holds T :=
  ⟨h.entries, h.eventfds, h.segments⟩

theorem Holds.letIn (h : s.Holds T) (wid reqFd respFd client : Nat) (name : Bytes) :
    { s with
      nextId := s.nextId + 1
      arrivals := s.arrivals + 1
      segments := (name, client) :: s.segments
      eventfds := (reqFd, client) :: (respFd, client) :: s.eventfds
      table := T.add wid ⟨client, name, reqFd, respFd⟩ s.table
      roundRobin := s.roundRobin + 1
      connected := client :: s.connected }.Holds T where
  entries := by
    intro e he
    rcases T.held_add _ _ _ e he with rfl | hold
    · exact List.mem_cons_self ..
    · exact List.mem_cons_of_mem _ (h.entries e hold)
  eventfds := by
    intro g hg
    simp only [List.mem_cons] at hg ⊢
    rcases hg with rfl | rfl | hg
    · exact .inl rfl
    · exact .inl rfl
    · exact .inr (h.eventfds g hg)
  segments := by
    intro g hg
    simp only [List.mem_cons] at hg ⊢
    exact hg.imp (fun heq => by rw [heq]) (h.segments g)

/-- What the server holds for a client outlives the client. -/
theorem Inv.not_holds_disconnect (h : s.Inv T cfg) {client : Nat} (hc : client ∈ s.connected) :
    ¬ { s with connected := s.connected.filter (· ≠ client) }.Holds T := by
  intro hholds
  obtain ⟨name, hname⟩ := h.owns client hc
  have hmem := hholds.segments _ hname
  simp at hmem

/-- An id is used up by every connection that is let in, so the server is full in
its own eyes only when that many came. -/
theorem Inv.refuses_iff (h : s.Inv T cfg) (hr : s.refuses cfg = true) :
    cfg.maxClients.toInt ≤ s.connected.length ↔ s.failed = 0 := by
  have hcount := h.count
  have hbound := h.bound
  have hr : cfg.maxClients.toInt ≤ s.nextId := by simpa [refuses] using hr
  constructor <;> intro <;> omega

theorem Inv.accept (h : s.Inv T cfg) (calls : RoundCalls)
    (hdef : (s.accept T cfg calls).undefined = false) : (s.accept T cfg calls).Inv T cfg := by
  cases hr : s.refuses cfg with
  | true =>
      rw [accept_refused calls hr]
      exact ⟨h.holds.idle s.nextId _ s.failed, h.defined, h.owns, h.count, h.bound⟩
  | false =>
      have hlt := refuses_eq_false.mp hr
      have hcount := h.count
      obtain ⟨_, heq⟩ | ⟨_, _, hundef⟩ | ⟨reqFd, respFd, _, heq⟩ := accept_cases calls hr
      · rw [heq]
        refine ⟨h.holds.idle _ _ _, h.defined, h.owns, ?_, .inr ?_⟩
        · show s.nextId + 1 = s.connected.length + (s.failed + 1)
          omega
        · show ((s.nextId + 1 : Nat) : Int) ≤ cfg.maxClients.toInt
          omega
      · rw [hdef] at hundef
        cases hundef
      · rw [heq]
        refine ⟨h.holds.letIn _ _ _ _ _, h.defined, ?_, ?_, .inr ?_⟩
        · intro client hc
          rcases List.mem_cons.mp hc with rfl | hc
          · exact ⟨_, List.mem_cons_self ..⟩
          · obtain ⟨name, hname⟩ := h.owns client hc
            exact ⟨name, List.mem_cons_of_mem _ hname⟩
        · show s.nextId + 1 = (s.connected.length + 1) + s.failed
          omega
        · show ((s.nextId + 1 : Nat) : Int) ≤ cfg.maxClients.toInt
          omega

theorem Inv.step {a : Act} (h : s.Inv T cfg) (hlaw : s.Lawful T cfg a)
    (hs : s.step T cfg a = some s') : s'.Inv T cfg := by
  obtain ⟨hholds, hdef⟩ := hlaw.holds s' hs
  cases a with
  | accept calls =>
      simp only [AcceptLoop.step, h.defined, Bool.false_eq_true, if_false] at hs
      obtain rfl := Option.some.inj hs
      exact h.accept calls hdef
  | disconnect client =>
      simp only [AcceptLoop.step] at hs
      split at hs
      · rename_i hc
        obtain rfl := Option.some.inj hs
        exact absurd hholds (h.not_holds_disconnect hc)
      · cases hs

theorem Inv.step_accept (h : s.Inv T cfg) (calls : RoundCalls) :
    s.step T cfg (.accept calls) = some (s.accept T cfg calls) := by
  simp [AcceptLoop.step, h.defined]

theorem Inv.accept_defined_iff (h : s.Inv T cfg) (calls : RoundCalls)
    (hr : s.refuses cfg = false) : (s.accept T cfg calls).undefined = false ↔
      (calls.create = true → handshakeServer calls.handshake ≠ .undefined) := by
  have hdef := h.defined
  obtain ⟨hok, heq⟩ | ⟨hcreate, hundef, hbad⟩ | ⟨_, _, hdone, heq⟩ :=
    accept_cases (T := T) calls hr
  · simpa [heq, hdef] using hok
  · simp [hbad, hcreate, hundef]
  · simp [heq, hdef, hdone]

/-- A refusal is lawful when no connection has failed so far. -/
theorem Inv.refused_lawful_iff (h : s.Inv T cfg) (calls : RoundCalls)
    (hr : s.refuses cfg = true) : s.Lawful T cfg (.accept calls) ↔ s.failed = 0 := by
  refine ⟨fun hlaw => (h.refuses_iff hr).mp (hlaw.admits calls rfl hr), fun hnone => ?_⟩
  refine ⟨fun _ _ _ => (h.refuses_iff hr).mpr hnone, fun s' hs' => ?_⟩
  obtain rfl := Option.some.inj ((h.step_accept calls).symm.trans hs')
  rw [accept_refused calls hr]
  exact ⟨h.holds.idle s.nextId _ s.failed, h.defined⟩

theorem Inv.accept_lawful_iff (h : s.Inv T cfg) (calls : RoundCalls)
    (hr : s.refuses cfg = false) : s.Lawful T cfg (.accept calls) ↔
      (s.accept T cfg calls).undefined = false := by
  refine ⟨fun hlaw => (hlaw.holds _ (h.step_accept calls)).2, fun hdef => ⟨?_, ?_⟩⟩
  · intro _ _ href
    rw [hr] at href
    cases href
  · intro s' hs'
    obtain rfl := Option.some.inj ((h.step_accept calls).symm.trans hs')
    exact ⟨(h.accept calls hdef).holds, hdef⟩

theorem Inv.disconnect_lawful_iff (h : s.Inv T cfg) (client : Nat) :
    s.Lawful T cfg (.disconnect client) ↔ client ∉ s.connected := by
  constructor
  · intro hlaw hc
    have hstep : s.step T cfg (.disconnect client) =
        some { s with connected := s.connected.filter (· ≠ client) } := if_pos hc
    exact h.not_holds_disconnect hc (hlaw.holds _ hstep).1
  · intro hc
    refine ⟨fun _ heq => (nomatch heq), fun s' hs' => ?_⟩
    rw [AcceptLoop.step, if_neg hc] at hs'
    cases hs'

theorem Inv.lawful_iff (h : s.Inv T cfg) (a : Act) : s.Lawful T cfg a ↔ s.Fits cfg a := by
  cases a with
  | accept calls =>
      cases hr : s.refuses cfg with
      | true =>
          simp only [Fits, hr, if_true]
          exact h.refused_lawful_iff calls hr
      | false =>
          simp only [Fits, hr, Bool.false_eq_true, if_false]
          exact (h.accept_lawful_iff calls hr).trans (h.accept_defined_iff calls hr)
  | disconnect client => exact h.disconnect_lawful_iff client

theorem along_iff (T : ClientTable σ) (cfg : ShmConfig) (acts : List Act) :
    Along (step T cfg) (Lawful T cfg) (init T) acts ↔
      Along (step T cfg) (Fits cfg) (init T) acts :=
  Along.congr_of (Inv T cfg) (fun _ _ _ h hlaw hs => h.step hlaw hs)
    (fun _ a h => h.lawful_iff a) inv_init

end AcceptLoop

/-- `Worker::clients` of each worker: the request descriptor finds the entry. -/
def ShmServer.clientTable : ClientTable (Nat → AList (fun _ : Nat => ClientEntry)) where
  empty := fun _ => ∅
  add wid new workers := Function.update workers wid ((workers wid).insert new.reqFd new)
  Held workers e := ∃ wid fd, (workers wid).lookup fd = some e
  not_held_empty := by
    rintro e ⟨wid, fd, h⟩
    simp at h
  held_add := by
    rintro wid new workers e ⟨w, fd, h⟩
    by_cases hw : w = wid
    · subst hw
      rw [Function.update_self, AssocTable.lookup_insert_ite] at h
      split at h
      · exact .inl (Option.some.inj h).symm
      · exact .inr ⟨w, fd, h⟩
    · rw [Function.update_of_ne hw] at h
      exact .inr ⟨w, fd, h⟩

/-- `_clients` -/
def ShmServerProto.clientTable : ClientTable (List ClientEntry) where
  empty := []
  add _ new clients := clients ++ [new]
  Held clients e := e ∈ clients
  not_held_empty _ := List.not_mem_nil
  held_add _ new clients e h := by
    rcases List.mem_append.mp h with h | h
    · exact .inr h
    · exact .inl (List.mem_singleton.mp h)

/-- Over any history of either server, a connection is refused only by a full server and
all that is held belongs to connected clients, exactly when every step fits. -/
theorem shm_admission_iff (cfg : ShmConfig) (acts : List AcceptLoop.Act) :
    (Along (AcceptLoop.step ShmServer.clientTable cfg)
        (AcceptLoop.Lawful ShmServer.clientTable cfg) (.init ShmServer.clientTable) acts ↔
      Along (AcceptLoop.step ShmServer.clientTable cfg) (AcceptLoop.Fits cfg)
        (.init ShmServer.clientTable) acts) ∧
    (Along (AcceptLoop.step ShmServerProto.clientTable cfg)
        (AcceptLoop.Lawful ShmServerProto.clientTable cfg) (.init ShmServerProto.clientTable) acts ↔
      Along (AcceptLoop.step ShmServerProto.clientTable cfg) (AcceptLoop.Fits cfg)
        (.init ShmServerProto.clientTable) acts) :=
  ⟨AcceptLoop.along_iff _ cfg acts, AcceptLoop.along_iff _ cfg acts⟩

namespace AcceptLoop

def oneClient : ShmConfig := ⟨str "lcz_shm", 1, 4⟩

def goodCalls : RoundCalls := ⟨true, ⟨some 5, true, true, some 6⟩⟩

/-- The state when the only client there was has left. -/
def Abandoned {σ : Type} (T : ClientTable σ) (s : AcceptLoop σ) : Prop :=
  exec (step T oneClient) (init T) [.accept goodCalls, .disconnect 0] = some s ∧
    s.connected = [] ∧ ¬ s.Holds T ∧ s.refuses oneClient = true

theorem exists_abandoned {σ : Type} (T : ClientTable σ) : ∃ s, Abandoned T s := by
  refine ⟨_, rfl, rfl, fun h => ?_, rfl⟩
  exact absurd (h.segments _ (List.mem_cons_self ..)) List.not_mem_nil

end AcceptLoop

/-- One client comes and goes; its segment stays, and the next one is refused by a
server for one client that has none. -/
theorem shm_refuses_alone :
    (∃ s, AcceptLoop.Abandoned ShmServer.clientTable s) ∧
      ∃ s, AcceptLoop.Abandoned ShmServerProto.clientTable s :=
  ⟨AcceptLoop.exists_abandoned _, AcceptLoop.exists_abandoned _⟩

end LyqtRpc
