import LyqtRpc.DiscoverCache
import LyqtRpc.Lib.HashRing
import Mathlib.Data.List.Induction

/-!
`MethodHost` with its hash ring: `_ring` takes the hash of a virtual node to the
index of its host. `κ` is `size_t`, and `hash` is `std::hash<std::string>`.
-/

set_option autoImplicit false

namespace LyqtRpc

open HashRing StepRun

def VIRTUAL_NODES : Nat := 160

def hostKey (host : HostInfo) : Bytes := host.ip ++ str ":" ++ str (toString host.port.toInt)

structure MethodHostRing (κ : Type) [LinearOrder κ] extends MethodHost where
  ring : OrderedMap κ Nat := {}
  ringBuilt : Bool := false

section Ring
variable {κ : Type} [LinearOrder κ] (hash : Bytes → κ)

def nodeHash (host : HostInfo) (v : Nat) : κ := hash (hostKey host ++ str "#" ++ str (toString v))

/-- The virtual nodes of host number `i`; nodes of other hosts are overwritten. -/
def insertNodes (ring : OrderedMap κ Nat) (host : HostInfo) (i : Nat) : OrderedMap κ Nat :=
  (List.range VIRTUAL_NODES).foldl (fun ring v => ring.assign (nodeHash hash host v) i) ring

def ringOf (hosts : List HostInfo) : OrderedMap κ Nat :=
  hosts.zipIdx.foldl (fun ring e => insertNodes hash ring e.1 e.2) {}

namespace MethodHostRing

def rebuildRing (m : MethodHostRing κ) : MethodHostRing κ :=
  { m with ring := ringOf hash m.hosts, ringBuilt := true }

def appendHost (m : MethodHostRing κ) (host : HostInfo) (load : Int32) : MethodHostRing κ :=
  let updated := { m with toMethodHost := m.toMethodHost.appendHost host load }
  if host ∈ m.hosts then updated
  else if m.ringBuilt then
    { updated with ring := insertNodes hash m.ring host m.details.length }
  else updated.rebuildRing hash

def removeHost (m : MethodHostRing κ) (host : HostInfo) : MethodHostRing κ :=
  if host ∈ m.hosts then
    rebuildRing hash { m with toMethodHost := m.toMethodHost.removeHost host }
  else m

/-- `draw` is what the random generator gives. -/
def pickRandom (m : MethodHostRing κ) (draw : Nat) : Option HostDetail :=
  if m.details = [] then some ⟨⟨[], 0⟩, 0⟩ else m.details[draw % m.details.length]?

/-- `none` is an index outside `_host`. -/
def pickConsistentHash (m : MethodHostRing κ) (draw : Nat) (key : Bytes) : Option HostDetail :=
  if key = [] then m.pickRandom draw
  else
    match m.ring.clockwise (hash key) with
    | none => m.pickRandom draw
    | some e => m.details[e.2]?

end MethodHostRing

inductive HostAct where
  | appendHost (host : HostInfo) (load : Int32)
  | removeHost (host : HostInfo)

def hostStep (m : MethodHostRing κ) : HostAct → Option (MethodHostRing κ)
  | .appendHost host load => some (m.appendHost hash host load)
  | .removeHost host => some (m.removeHost hash host)

/-- The host claims the point as one of its virtual nodes. -/
def claims (host : HostInfo) (x : κ) : Bool :=
  (List.range VIRTUAL_NODES).any (fun v => nodeHash hash host v = x)

/-- The ring is the one a rebuild would give. -/
def RingCurrent (m : MethodHostRing κ) : Prop := m.ring = ringOf hash m.hosts

variable {hash}

theorem find?_insertNodes (ring : OrderedMap κ Nat) (host : HostInfo) (i : Nat) (x : κ) :
    (insertNodes hash ring host i).find? x =
      if claims hash host x then some i else ring.find? x := by
  have hnodes : insertNodes hash ring host i =
      ((List.range VIRTUAL_NODES).map (nodeHash hash host)).foldl
        (fun ring k => ring.assign k i) ring := by rw [List.foldl_map]; rfl
  have hclaims : claims hash host x = true ↔
      x ∈ (List.range VIRTUAL_NODES).map (nodeHash hash host) := by
    simp [claims, List.any_eq_true]
  rw [hnodes, OrderedMap.find?_foldl_assign]
  simp only [hclaims]

theorem ringOf_append (hosts : List HostInfo) (host : HostInfo) :
    ringOf hash (hosts ++ [host]) = insertNodes hash (ringOf hash hosts) host hosts.length := by
  simp [ringOf, List.zipIdx_append]

/-- The index a point is mapped to is that of the last host that claims it. -/
theorem find?_ringOf (hosts : List HostInfo) (x : κ) :
    ((ringOf hash hosts).find? x).map (fun i => hosts[i]?) =
      (lastOwner (claims hash) hosts x).map some := by
  induction hosts using List.reverseRecOn with
  | nil => rfl
  | append_singleton hosts host ih =>
    rw [ringOf_append, find?_insertNodes, lastOwner_append]
    split
    · simp
    · cases hfind : (ringOf hash hosts).find? x with
      | none =>
        rw [hfind] at ih
        exact ih
      | some i =>
        rw [hfind] at ih
        obtain ⟨owner, howner, hi⟩ := Option.map_eq_some_iff.mp ih.symm
        have hlt : i < hosts.length := (List.getElem?_eq_some_iff.mp hi.symm).1
        rw [← ih]
        simp [List.getElem?_append_left hlt]

theorem find?_ring (m : MethodHostRing κ) (h : RingCurrent hash m) (x : κ) :
    (m.ring.find? x).map (fun i => m.hosts[i]?) = (lastOwner (claims hash) m.hosts x).map some := by
  rw [h, find?_ringOf]

/-- The points of the ring are the ones some host claims. -/
theorem keys_ring (m : MethodHostRing κ) (h : RingCurrent hash m) :
    {x | x ∈ m.ring.keys} = owned (lastOwner (claims hash) m.hosts) := by
  ext x
  have hsome := congrArg Option.isSome (find?_ring m h x)
  rw [Option.isSome_map, Option.isSome_map] at hsome
  rw [Set.mem_ofPred_eq, OrderedMap.mem_keys, hsome]
  rfl

theorem appendHost_listed {m : MethodHost} {host : HostInfo} {load : Int32}
    (h : host ∈ m.hosts) : (m.appendHost host load).hosts = m.hosts :=
  (hostsOf_upsert ..).trans (if_pos h)

theorem appendHost_new {m : MethodHost} {host : HostInfo} {load : Int32}
    (h : host ∉ m.hosts) : (m.appendHost host load).hosts = m.hosts ++ [host] :=
  (hostsOf_upsert ..).trans (if_neg h)

theorem rebuildRing_current (m : MethodHostRing κ) : RingCurrent hash (m.rebuildRing hash) := rfl

theorem hostStep_current {m m' : MethodHostRing κ} {a : HostAct} (h : RingCurrent hash m)
    (hs : hostStep hash m a = some m') : RingCurrent hash m' := by
  cases a with
  | appendHost host load =>
      obtain rfl := Option.some.inj hs
      unfold MethodHostRing.appendHost
      split
      · rename_i hlisted
        exact h.trans (congrArg (ringOf hash) (appendHost_listed hlisted).symm)
      · rename_i hnew
        split
        · show insertNodes hash m.ring host m.details.length = ringOf hash _
          have hlength : m.details.length = m.hosts.length := (List.length_map _).symm
          rw [hlength, h, ← ringOf_append]
          exact congrArg (ringOf hash) (appendHost_new hnew).symm
        · exact rebuildRing_current _
  | removeHost host =>
      obtain rfl := Option.some.inj hs
      unfold MethodHostRing.removeHost
      split
      · exact rebuildRing_current _
      · exact h

theorem ring_current {m : MethodHostRing κ} (h : Reachable (hostStep hash) {} m) :
    RingCurrent hash m := by
  have hinitial : RingCurrent hash ({} : MethodHostRing κ) := rfl
  exact h.invariant (RingCurrent hash) hinitial (fun _ _ _ hi _ hs => hostStep_current hi hs)

theorem clockwise_isSome {m : MethodHostRing κ} (h : RingCurrent hash m) {host : HostInfo}
    (hhost : host ∈ m.hosts) (k : κ) : ∃ e, m.ring.clockwise k = some e := by
  cases hclock : m.ring.clockwise k with
  | some e => exact ⟨e, rfl⟩
  | none =>
    have hclaim : claims hash host (nodeHash hash host 0) = true :=
      List.any_eq_true.mpr ⟨0, List.mem_range.mpr (by decide), by simp⟩
    have hpoint : nodeHash hash host 0 ∈ owned (lastOwner (claims hash) m.hosts) :=
      isSome_lastOwner.mpr ⟨host, hhost, hclaim⟩
    rw [← keys_ring m h, Set.mem_ofPred_eq, OrderedMap.keys,
      OrderedMap.clockwise_eq_none.mp hclock] at hpoint
    cases hpoint

/-- What is picked is the host that serves the key on the ring of all hosts. -/
theorem pickConsistentHash_serves {m : MethodHostRing κ} (h : RingCurrent hash m)
    {host : HostInfo} (hhost : host ∈ m.hosts) {key : Bytes} (hkey : key ≠ []) (draw : Nat) :
    ∃ d ∈ m.details, m.pickConsistentHash hash draw key = some d ∧
      Serves (lastOwner (claims hash) m.hosts) (hash key) d.host := by
  obtain ⟨e, he⟩ := clockwise_isSome h hhost (hash key)
  have hnext := OrderedMap.clockwise_next he
  rw [keys_ring m h] at hnext
  have hindex := find?_ring m h e.1
  rw [OrderedMap.mem_of_clockwise he] at hindex
  obtain ⟨owner, howner, hi⟩ := Option.map_eq_some_iff.mp hindex.symm
  have hdetail : m.hosts[e.2]? = some owner := hi.symm
  rw [MethodHost.hosts, hostsOf, List.getElem?_map] at hdetail
  obtain ⟨d, hd, rfl⟩ := Option.map_eq_some_iff.mp hdetail
  refine ⟨d, List.mem_of_getElem? hd, ?_, e.1, hnext, howner⟩
  rw [MethodHostRing.pickConsistentHash, if_neg hkey, he]
  exact hd

theorem MethodHost.eq_of_host {m : MethodHost} {d d' : HostDetail} (hd : d ∈ m.details)
    (hd' : d' ∈ m.details) (h : d.host = d'.host) : d = d' :=
  List.inj_on_of_nodup_map m.nodup hd hd' h

theorem pickConsistentHash_empty {m : MethodHostRing κ} (h : RingCurrent hash m)
    (hempty : m.hosts = []) (key : Bytes) (draw : Nat) :
    m.pickConsistentHash hash draw key = some ⟨⟨[], 0⟩, 0⟩ := by
  have hdetails : m.details = [] := List.map_eq_nil_iff.mp hempty
  have hrandom : m.pickRandom draw = some ⟨⟨[], 0⟩, 0⟩ := if_pos hdetails
  have hclock : m.ring.clockwise (hash key) = none := by
    rw [h, hempty]
    rfl
  rw [MethodHostRing.pickConsistentHash, hclock]
  split
  · exact hrandom
  · exact hrandom

/-- Whatever the random generator gives, a key that is not empty has one host. -/
theorem pickConsistentHash_some {m : MethodHostRing κ} (h : RingCurrent hash m)
    {key : Bytes} (hkey : key ≠ []) :
    ∃ d, ∀ draw, m.pickConsistentHash hash draw key = some d := by
  cases hhosts : m.hosts with
  | nil => exact ⟨_, fun draw => pickConsistentHash_empty h hhosts key draw⟩
  | cons host hosts =>
    have hhost : host ∈ m.hosts := hhosts ▸ List.mem_cons_self ..
    obtain ⟨d, hd, hpick, hserves⟩ := pickConsistentHash_serves h hhost hkey 0
    refine ⟨d, fun draw => ?_⟩
    obtain ⟨d', hd', hpick', hserves'⟩ := pickConsistentHash_serves h hhost hkey draw
    rw [hpick', MethodHost.eq_of_host hd' hd (hserves'.unique hserves)]

theorem pickConsistentHash_append {m : MethodHostRing κ} (h : RingCurrent hash m)
    {host : HostInfo} (hnew : host ∉ m.hosts) (load : Int32) {key : Bytes} (hkey : key ≠ [])
    {d d' : HostDetail} {draw draw' : Nat} (hd : m.pickConsistentHash hash draw key = some d)
    (hd' : (m.appendHost hash host load).pickConsistentHash hash draw' key = some d') :
    d'.host = d.host ∨ d'.host = host := by
  have hcurrent : RingCurrent hash (m.appendHost hash host load) :=
    hostStep_current (a := .appendHost host load) h rfl
  have hhosts : (m.appendHost hash host load).hosts = m.hosts ++ [host] := by
    have happend : (m.toMethodHost.appendHost host load).hosts = m.hosts ++ [host] :=
      appendHost_new hnew
    unfold MethodHostRing.appendHost
    rw [if_neg hnew]
    split <;> exact happend
  have hmem : host ∈ (m.appendHost hash host load).hosts := by simp [hhosts]
  obtain ⟨e, he, hpick, hserves⟩ := pickConsistentHash_serves hcurrent hmem hkey draw'
  obtain rfl : e = d' := Option.some.inj (hpick.symm.trans hd')
  rw [hhosts] at hserves
  cases serves_append hserves with
  | inl hhost => exact .inr hhost
  | inr hold =>
    obtain ⟨x, hx, howner⟩ := hold
    have hlisted : e.host ∈ m.hosts :=
      List.mem_reverse.mp (List.mem_of_find?_eq_some howner)
    obtain ⟨f, hf, hpick, hserves⟩ := pickConsistentHash_serves h hlisted hkey draw
    obtain rfl : f = d := Option.some.inj (hpick.symm.trans hd)
    exact .inl (Serves.unique ⟨x, hx, howner⟩ hserves)

theorem pickConsistentHash_remove {m : MethodHostRing κ} (h : RingCurrent hash m)
    {host : HostInfo} {key : Bytes} (hkey : key ≠ []) {d : HostDetail} {draw : Nat}
    (hd : m.pickConsistentHash hash draw key = some d) (hother : d.host ≠ host) (draw' : Nat) :
    (m.removeHost hash host).pickConsistentHash hash draw' key = some d := by
  by_cases hhost : host ∈ m.hosts
  · have hcurrent : RingCurrent hash (m.removeHost hash host) :=
      hostStep_current (a := .removeHost host) h rfl
    have hremoved : (m.removeHost hash host).toMethodHost = m.toMethodHost.removeHost host := by
      rw [MethodHostRing.removeHost, if_pos hhost]
      rfl
    have hhosts : (m.removeHost hash host).hosts = m.hosts.filter (fun x => x != host) := by
      have hnodup : m.hosts.Nodup := m.nodup
      rw [hremoved, MethodHost.hosts_removeHost, hnodup.erase_eq_filter]
    obtain ⟨e, he, hpick, hserves⟩ := pickConsistentHash_serves h hhost hkey draw
    obtain rfl : e = d := Option.some.inj (hpick.symm.trans hd)
    have hstays : e.host ∈ (m.removeHost hash host).hosts := by
      rw [hhosts]
      exact List.mem_filter.mpr ⟨List.mem_map_of_mem he, by simpa using hother⟩
    obtain ⟨f, hf, hpick', hserves'⟩ := pickConsistentHash_serves hcurrent hstays hkey draw'
    have hsame : Serves (lastOwner (claims hash) (m.hosts.filter (fun x => x != host)))
        (hash key) e.host := serves_filter hserves (by simpa using hother)
    rw [← hhosts] at hsame
    have hf' : f ∈ m.details := by
      rw [hremoved] at hf
      exact List.mem_of_mem_eraseP hf
    rw [hpick', MethodHost.eq_of_host hf' he (hserves'.unique hsame)]
  · rw [MethodHostRing.removeHost, if_neg hhost]
    obtain ⟨f, hf⟩ := pickConsistentHash_some h hkey
    rw [hf] at hd ⊢
    exact hd

/-- For every hash function, hosts that collide on the ring included: a key stays
with its host, or goes to the new one; and it stays where another host leaves. -/
theorem consistent_hash_minimal {m : MethodHostRing κ} (hm : Reachable (hostStep hash) {} m)
    (host : HostInfo) (load : Int32) {key : Bytes} (hkey : key ≠ []) :
    ∃ d d' : HostDetail,
      (∀ draw, m.pickConsistentHash hash draw key = some d) ∧
      (∀ draw, (m.appendHost hash host load).pickConsistentHash hash draw key = some d') ∧
      (host ∉ m.hosts → d'.host = d.host ∨ d'.host = host) ∧
      (d.host ≠ host →
        ∀ draw, (m.removeHost hash host).pickConsistentHash hash draw key = some d) := by
  have hcurrent := ring_current hm
  obtain ⟨d, hd⟩ := pickConsistentHash_some hcurrent hkey
  obtain ⟨d', hd'⟩ := pickConsistentHash_some
    (hostStep_current (a := .appendHost host load) hcurrent rfl) hkey
  refine ⟨d, d', hd, hd', fun hnew => ?_, fun hother draw => ?_⟩
  · exact pickConsistentHash_append hcurrent hnew load hkey (hd 0) (hd' 0)
  · exact pickConsistentHash_remove hcurrent hkey (hd 0) hother draw

end Ring

def byteHash (s : Bytes) : Nat := s.foldl (fun h b => (31 * h + b.toNat) % 2 ^ 64) 7

def twoHosts : MethodHostRing Nat :=
  (MethodHostRing.appendHost byteHash {} ⟨str "10.0.0.1", 8080⟩ 0).appendHost byteHash
    ⟨str "10.0.0.2", 8080⟩ 0

theorem consistent_hash_minimal_twoHosts :
    twoHosts.pickConsistentHash byteHash 0 (str "user-42") = some ⟨⟨str "10.0.0.1", 8080⟩, 0⟩ ∧
    (twoHosts.removeHost byteHash ⟨str "10.0.0.2", 8080⟩).pickConsistentHash byteHash 0
      (str "user-42") = some ⟨⟨str "10.0.0.1", 8080⟩, 0⟩ := by
  have hreach : Reachable (hostStep byteHash) {} twoHosts :=
    .of_exec (show exec (hostStep byteHash) {} [.appendHost ⟨str "10.0.0.1", 8080⟩ 0,
      .appendHost ⟨str "10.0.0.2", 8080⟩ 0] = some twoHosts from rfl)
  have hpick : twoHosts.pickConsistentHash byteHash 0 (str "user-42") =
      some ⟨⟨str "10.0.0.1", 8080⟩, 0⟩ := by decide +kernel
  have hkey : str "user-42" ≠ [] := by decide +kernel
  obtain ⟨d, d', hd, _, _, hremove⟩ :=
    consistent_hash_minimal hreach ⟨str "10.0.0.2", 8080⟩ 0 hkey
  obtain rfl := Option.some.inj ((hd 0).symm.trans hpick)
  exact ⟨hpick, hremove (by decide +kernel) 0⟩

section Updates
variable {κ : Type} [LinearOrder κ] {hash : Bytes → κ} {m : MethodHostRing κ}

/-- What the ring points at is listed. -/
theorem ring_index_lt (h : RingCurrent hash m) {e : κ × Nat} (he : e ∈ m.ring.entries) :
    e.2 < m.details.length := by
  have hindex := find?_ring m h e.1
  rw [OrderedMap.mem_entries.mp he] at hindex
  obtain ⟨owner, _, hi⟩ := Option.map_eq_some_iff.mp hindex.symm
  have hlt : e.2 < m.hosts.length := (List.getElem?_eq_some_iff.mp hi.symm).1
  exact hlt.trans_eq (List.length_map _)

/-- However hosts come, go and change their loads: the ring is the one a rebuild
gives, for hash functions with collisions too, and its indices are of hosts. -/
theorem ring_rebuilt (hm : Reachable (hostStep hash) {} m) :
    m.ring = (m.rebuildRing hash).ring ∧ (∀ e ∈ m.ring.entries, e.2 < m.details.length) ∧
      m.hosts.Nodup :=
  have hcurrent := ring_current hm
  ⟨hcurrent, fun _ he => ring_index_lt hcurrent he, m.nodup⟩

end Updates

theorem ring_rebuilt_twoHosts :
    twoHosts.ring = (twoHosts.rebuildRing byteHash).ring ∧
    ∀ e ∈ twoHosts.ring.entries, e.2 < 2 := by
  have hreach : Reachable (hostStep byteHash) {} twoHosts :=
    .of_exec (show exec (hostStep byteHash) {} [.appendHost ⟨str "10.0.0.1", 8080⟩ 0,
      .appendHost ⟨str "10.0.0.2", 8080⟩ 0] = some twoHosts from rfl)
  obtain ⟨hring, hindex, _⟩ := ring_rebuilt hreach
  exact ⟨hring, hindex⟩

end LyqtRpc
