import LyqtRpc.Fields
import LyqtRpc.Lib.DoubleChecked

/-!
The connection pool of `RpcClient` in `rpc_client.hpp`: `getClient`, `newClient` and
`delClient` in any number of threads, and connections that come up and are lost.
-/

set_option autoImplicit false

namespace LyqtRpc

open StepRun DoubleChecked

/-- The connection of a `MuduoClient`. -/
inductive ClientConn where
  /-- `connect()` waits. -/
  | connecting
  | up
  /-- `connection()` is null; nothing connects again. -/
  | lost
  /-- `shutdown()` -/
  | shut
  deriving DecidableEq, Repr

/-- The clients are numbered in the order in which they are made. -/
structure ClientPool where
  clients : Cache HostInfo := {}
  conn : Nat → ClientConn := fun _ => .connecting

inductive PoolAct where
  | getClient (i : Nat) (host : HostInfo)
  | run (i : Nat)
  | delClient (host : HostInfo)
  /-- `onConnection` -/
  | connected (n : Nat)
  | disconnected (n : Nat)
  deriving DecidableEq, Repr

def poolStep (s : ClientPool) : PoolAct → Option ClientPool
  | .getClient i host => (s.clients.step (.get i host)).map fun clients => { s with clients }
  | .run i =>
    match s.clients.threads i with
    | .insert _ n =>
      if s.conn n = .connecting then none
      else (s.clients.step (.run i)).map fun clients => { s with clients }
    | .giveUp _ n _ _ =>
      (s.clients.step (.run i)).map fun clients =>
        { clients, conn := Function.update s.conn n .shut }
    | _ => (s.clients.step (.run i)).map fun clients => { s with clients }
  | .delClient host => (s.clients.step (.erase host)).map fun clients => { s with clients }
  | .connected n =>
    if n < s.clients.fresh ∧ s.conn n = .connecting then
      some { s with conn := Function.update s.conn n .up }
    else none
  | .disconnected n =>
    if s.conn n = .up then some { s with conn := Function.update s.conn n .lost } else none

/-- What the connection of a client may be, by what became of the client. -/
def ClientConn.Fits (conn : ClientConn) : Option (Object HostInfo) → Prop
  | some ⟨_, .kept _⟩ => conn = .up ∨ conn = .lost
  | some ⟨_, .givenUp⟩ => conn = .shut
  | some ⟨_, .hand _⟩ => conn ≠ .shut
  | none => conn = .connecting

namespace ClientPool

structure Inv (s : ClientPool) : Prop where
  clients : DoubleChecked.Inv s.clients
  conn : ∀ n, (s.conn n).Fits (s.clients.objects n)

namespace Inv
variable {s t : ClientPool} {i n : Nat} {host : HostInfo}

/-- The connection of one client changes. -/
theorem turns {conn : ClientConn} (h : Inv s) (hn : conn.Fits (s.clients.objects n)) :
    Inv { s with conn := Function.update s.conn n conn } := by
  refine ⟨h.clients, fun m => ?_⟩
  simp only [Function.update_apply]
  split
  · rename_i hm
    exact hm ▸ hn
  · exact h.conn m

/-- One client gets another place. -/
theorem places {clients : Cache HostInfo} {place : Place} (h : Inv s) (n : Nat) (host : HostInfo)
    (hclients : DoubleChecked.Inv clients)
    (hobjects : clients.objects = Function.update s.clients.objects n (some ⟨host, place⟩))
    (hfits : (s.conn n).Fits (some ⟨host, place⟩)) : Inv { s with clients } := by
  refine ⟨hclients, fun m => ?_⟩
  rw [hobjects, Function.update_apply]
  split
  · rename_i hm
    exact hm ▸ hfits
  · exact h.conn m

theorem keeps {clients : Cache HostInfo} (h : Inv s) (hclients : DoubleChecked.Inv clients)
    (hobjects : clients.objects = s.clients.objects) : Inv { s with clients } := by
  refine ⟨hclients, fun m => ?_⟩
  rw [hobjects]
  exact h.conn m

theorem init : Inv {} := ⟨.init, fun _ => rfl⟩

theorem step {a : PoolAct} (h : Inv s) (hstep : poolStep s a = some t) : Inv t := by
  cases a with
  | getClient i host =>
    obtain ⟨clients, hclients, rfl⟩ := Option.map_eq_some_iff.mp hstep
    refine h.keeps (h.clients.step hclients) ?_
    simp only [Cache.step] at hclients
    split at hclients <;> cases hclients
    rfl
  | run i =>
    cases hpc : s.clients.threads i with
    | idle =>
      simp only [poolStep, hpc, Cache.step, Option.map_none] at hstep
      cases hstep
    | find host =>
      simp only [poolStep, hpc] at hstep
      obtain ⟨clients, hclients, rfl⟩ := Option.map_eq_some_iff.mp hstep
      refine h.keeps (h.clients.step hclients) ?_
      simp only [Cache.step, hpc] at hclients
      split at hclients <;> cases hclients <;> rfl
    | make host =>
      simp only [poolStep, hpc] at hstep
      obtain ⟨clients, hclients, rfl⟩ := Option.map_eq_some_iff.mp hstep
      have hinv := h.clients.step hclients
      simp only [Cache.step, hpc] at hclients
      cases hclients
      refine h.places s.clients.fresh host hinv rfl ?_
      have hfits := h.conn s.clients.fresh
      rw [(h.clients.fresh _).mpr (Nat.le_refl _)] at hfits
      intro hshut
      cases hfits.symm.trans hshut
    | insert host n =>
      simp only [poolStep, hpc] at hstep
      split at hstep
      · cases hstep
      · rename_i hup
        obtain ⟨clients, hclients, rfl⟩ := Option.map_eq_some_iff.mp hstep
        have hinv := h.clients.step hclients
        have hobject := (h.clients.hand i n host).mp (by rw [hpc]; rfl)
        have hshut := h.conn n
        rw [hobject] at hshut
        simp only [Cache.step, hpc] at hclients
        split at hclients <;> cases hclients
        · exact h.keeps hinv rfl
        · refine h.places n host hinv rfl ?_
          change s.conn n = .up ∨ s.conn n = .lost
          cases hconn : s.conn n with
          | connecting => exact absurd hconn hup
          | up => exact .inl rfl
          | lost => exact .inr rfl
          | shut => exact absurd hconn hshut
    | giveUp host n other round =>
      simp only [poolStep, hpc] at hstep
      obtain ⟨clients, hclients, rfl⟩ := Option.map_eq_some_iff.mp hstep
      have hinv := h.clients.step hclients
      simp only [Cache.step, hpc] at hclients
      cases hclients
      refine ⟨hinv, fun m => ?_⟩
      simp only [Cache.yield, Cache.setPc, Cache.setObject, Function.update_apply]
      split
      · rfl
      · exact h.conn m
  | delClient host =>
    cases hstep
    exact h.keeps h.clients.erases rfl
  | connected n =>
    simp only [poolStep] at hstep
    split at hstep
    · rename_i hn
      cases hstep
      refine h.turns ?_
      have hfits := h.conn n
      rw [hn.2] at hfits
      cases hobject : s.clients.objects n with
      | none => exact absurd ((h.clients.fresh n).mp hobject) (Nat.not_le.mpr hn.1)
      | some object =>
        rw [hobject] at hfits
        obtain ⟨k, place⟩ := object
        cases place with
        | hand i => exact fun hshut => by cases hshut
        | kept round => exact .inl rfl
        | givenUp => cases hfits
    · cases hstep
  | disconnected n =>
    simp only [poolStep] at hstep
    split at hstep
    · rename_i hup
      cases hstep
      refine h.turns ?_
      have hfits := h.conn n
      rw [hup] at hfits
      cases hobject : s.clients.objects n with
      | none =>
        rw [hobject] at hfits
        cases hfits
      | some object =>
        rw [hobject] at hfits
        obtain ⟨k, place⟩ := object
        cases place with
        | hand i => exact fun hshut => by cases hshut
        | kept round => exact .inr rfl
        | givenUp => cases hfits
    · cases hstep

end Inv

/-- The pool has a client for the host whose connection is lost. -/
structure Stuck (host : HostInfo) (n round : Nat) (s : ClientPool) : Prop where
  table : s.clients.table host = some n
  round : s.clients.round host = round
  conn : s.conn n = .lost

theorem Stuck.step {s t : ClientPool} {host : HostInfo} {n round : Nat} {a : PoolAct}
    (h : Stuck host n round s) (hinv : Inv s) (ha : a ≠ .delClient host)
    (hstep : poolStep s a = some t) : Stuck host n round t := by
  have htable : ∀ {b : Act HostInfo} {clients : Cache HostInfo}, s.clients.step b = some clients →
      b ≠ .erase host → clients.table host = some n ∧ clients.round host = round := by
    intro b clients hclients hb
    obtain ⟨htable, hround⟩ := Cache.step_table hclients hb h.table
    exact ⟨htable, hround.trans h.round⟩
  have hconn : ∀ {m : Nat} {conn : ClientConn}, m ≠ n →
      Function.update s.conn m conn n = .lost := by
    intro m conn hm
    rw [Function.update_of_ne (Ne.symm hm), h.conn]
  cases a with
  | getClient i k =>
    obtain ⟨clients, hclients, rfl⟩ := Option.map_eq_some_iff.mp hstep
    exact ⟨(htable hclients nofun).1, (htable hclients nofun).2, h.conn⟩
  | run i =>
    simp only [poolStep] at hstep
    split at hstep
    · split at hstep
      · cases hstep
      · obtain ⟨clients, hclients, rfl⟩ := Option.map_eq_some_iff.mp hstep
        exact ⟨(htable hclients nofun).1, (htable hclients nofun).2, h.conn⟩
    · rename_i k m other e hpc
      obtain ⟨clients, hclients, rfl⟩ := Option.map_eq_some_iff.mp hstep
      refine ⟨(htable hclients nofun).1, (htable hclients nofun).2, hconn fun hm => ?_⟩
      -- What is given up is not in the pool.
      have hkept := (hinv.clients.table host n).mp h.table
      rw [← hm, (hinv.clients.hand i m k).mp (by rw [hpc]; rfl)] at hkept
      cases hkept
    · obtain ⟨clients, hclients, rfl⟩ := Option.map_eq_some_iff.mp hstep
      exact ⟨(htable hclients nofun).1, (htable hclients nofun).2, h.conn⟩
  | delClient k =>
    cases hstep
    obtain ⟨htable, hround⟩ := htable (b := .erase k) rfl fun hk => ha (Act.erase.inj hk ▸ rfl)
    exact ⟨htable, hround, h.conn⟩
  | connected m =>
    simp only [poolStep] at hstep
    split at hstep
    · rename_i hm
      cases hstep
      refine ⟨h.table, h.round, hconn fun heq => ?_⟩
      rw [heq, h.conn] at hm
      cases hm.2
    · cases hstep
  | disconnected m =>
    simp only [poolStep] at hstep
    split at hstep
    · rename_i hm
      cases hstep
      refine ⟨h.table, h.round, hconn fun heq => ?_⟩
      rw [heq, h.conn] at hm
      cases hm
    · cases hstep

end ClientPool

/-- What has become of a client. -/
def ClientPool.Accounted (s : ClientPool) (n : Nat) (host : HostInfo) : Place → Prop
  | .hand i => (s.clients.threads i).made = some (host, n)
  | .kept round => round ≤ s.clients.round host ∧
      (round = s.clients.round host → s.clients.table host = some n)
  | .givenUp => s.conn n = .shut

theorem pool_shares {s : ClientPool} (h : Reachable poolStep {} s) :
    (∀ got ∈ s.clients.returned,
      s.clients.objects got.object = some ⟨got.key, .kept got.round⟩ ∧
        (s.conn got.object = .up ∨ s.conn got.object = .lost)) ∧
    (∀ got ∈ s.clients.returned, ∀ got' ∈ s.clients.returned, got.key = got'.key →
      got.round = got'.round → got.object = got'.object) ∧
    (∀ n < s.clients.fresh, ∃ host place,
      s.clients.objects n = some ⟨host, place⟩ ∧ s.Accounted n host place) ∧
    ∀ host n t, s.clients.table host = some n → s.conn n = .lost →
      Run poolStep (fun _ a => a ≠ .delClient host) s t →
        t.conn n = .lost ∧ ∀ got ∈ t.clients.returned, got.key = host →
          got.round = s.clients.round host → got.object = n := by
  have hinv : ClientPool.Inv s := h.invariant _ .init fun _ _ _ hI _ hs => hI.step hs
  refine ⟨fun got hgot => ?_, fun got hgot got' hgot' => hinv.clients.shared hgot hgot',
    fun n hn => ?_, fun host n t htable hlost hrun => ?_⟩
  · have hobject := hinv.clients.returned got hgot
    have hfits := hinv.conn got.object
    rw [hobject] at hfits
    exact ⟨hobject, hfits⟩
  · cases hobject : s.clients.objects n with
    | none => exact absurd ((hinv.clients.fresh n).mp hobject) (Nat.not_le.mpr hn)
    | some object =>
      obtain ⟨host, place⟩ := object
      refine ⟨host, place, rfl, ?_⟩
      cases place with
      | hand i => exact (hinv.clients.hand i n host).mpr hobject
      | kept round =>
        refine ⟨hinv.clients.past host n round hobject, fun hround => ?_⟩
        exact (hinv.clients.table host n).mpr (hround ▸ hobject)
      | givenUp =>
        have hfits := hinv.conn n
        rw [hobject] at hfits
        exact hfits
  · obtain ⟨hinv', hstuck⟩ := hrun.invariant
      (fun t => ClientPool.Inv t ∧ ClientPool.Stuck host n (s.clients.round host) t)
      ⟨hinv, htable, rfl, hlost⟩
      fun _ _ _ hI ha hs => ⟨hI.1.step hs, hI.2.step hI.1 ha hs⟩
    refine ⟨hstuck.conn, fun got hgot hkey hround => ?_⟩
    have hobject := hinv'.clients.returned got hgot
    have hnow := (hinv'.clients.table host n).mp hstuck.table
    rw [hkey, hround] at hobject
    rw [hstuck.round] at hnow
    exact hinv'.clients.once _ _ _ _ hobject hnow

/-- Two threads connect to one host, one of them in vain; then the connection is lost. -/
theorem pool_shares_race :
    ∃ s : ClientPool, s.conn 1 = .shut ∧ s.clients.table ⟨[1], 80⟩ = some 0 ∧
      ∀ t, Run poolStep (fun _ a => a ≠ .delClient ⟨[1], 80⟩) s t → t.conn 0 = .lost ∧
        ∀ got ∈ t.clients.returned, got.key = ⟨[1], 80⟩ → got.round = 0 → got.object = 0 := by
  have hview : (exec poolStep {} [.getClient 0 ⟨[1], 80⟩, .getClient 1 ⟨[1], 80⟩, .run 0, .run 1,
      .run 0, .run 1, .connected 0, .run 0, .connected 1, .run 1, .disconnected 0, .run 1]).map
      (fun s : ClientPool => (s.conn 0, s.conn 1, s.clients.table ⟨[1], 80⟩,
        s.clients.round ⟨[1], 80⟩)) = some (.lost, .shut, some 0, 0) := by
    decide +kernel
  obtain ⟨s, hs, hview⟩ := Option.map_eq_some_iff.mp hview
  obtain ⟨hlost, hrest⟩ := Prod.mk.inj hview
  obtain ⟨hshut, hrest⟩ := Prod.mk.inj hrest
  obtain ⟨htable, hround⟩ := Prod.mk.inj hrest
  refine ⟨s, hshut, htable, fun t hrun => ?_⟩
  obtain ⟨hconn, hgot⟩ := (pool_shares (.of_exec hs)).2.2.2 ⟨[1], 80⟩ 0 t htable hlost hrun
  exact ⟨hconn, fun got hmem hkey hzero => hgot got hmem hkey (hzero.trans hround.symm)⟩

end LyqtRpc
