import LyqtRpc.LeaderElection

/-!
`EtcdLeaderElector::stop` on one thread while the ticks run on another. A tick and
`stop` are cut at every statement that writes a field and at every part of a
`curl_post`; what other instances ask of etcd comes in between.
-/

set_option autoImplicit false

namespace LyqtRpc

open StepRun

inductive ElectorThread where
  | timer
  | stopping
  deriving DecidableEq

/-- The statement of a tick that comes next. -/
inductive TickPhase where
  | idle
  | granting
  | competing (lease : Int)
  | givingUp (lease : Int)
  /-- `_is_leader = true` -/
  | elected (lease : Int)
  /-- `_lease_id = lease_id` -/
  | recording (lease : Int)
  /-- `refreshLease` looks at `_lease_id`. -/
  | refreshing
  | renewing (lease : Int)
  /-- `becomeFollower` looks at `_lease_id`. -/
  | becomingFollower
  | revoking (lease : Int)
  /-- `_lease_id = -1` -/
  | dropping
  /-- `_is_leader = false` -/
  | resigning
  deriving DecidableEq

/-- The statement of `stop` that comes next. -/
inductive StopPhase where
  | notCalled
  | revoking (lease : Int)
  | dropping
  | leaving
  | returned
  deriving DecidableEq

def TickPhase.request : TickPhase → Option ElectionRequest
  | .granting => some .leaseGrant
  | .competing lease => some (.txn lease)
  | .givingUp lease | .revoking lease => some (.revoke lease)
  | .renewing lease => some (.keepalive lease)
  | _ => none

def StopPhase.request : StopPhase → Option ElectionRequest
  | .revoking lease => some (.revoke lease)
  | _ => none

/-- What follows a `curl_post`; the answer is `none` where there is none to be read. -/
def TickPhase.resume (answer : Option ElectionAnswer) : TickPhase → TickPhase
  | .granting =>
    match answer with
    | some (.granted lease) => .competing lease
    | _ => .idle
  | .competing lease => if answer = some (.txn true) then .elected lease else .givingUp lease
  | .givingUp _ => .idle
  | .renewing _ => if answer = some (.keepalive true) then .idle else .becomingFollower
  | .revoking _ => .dropping
  | phase => phase

def StopPhase.resume : StopPhase → StopPhase
  | .revoking _ => .dropping
  | phase => phase

/-- The `curl_post` that holds `_curl_mutex`. -/
structure CurlCall where
  thread : ElectorThread
  request : ElectionRequest
  answer : Option ElectionAnswer := none

structure ElectorThreads where
  is_leader : Bool := false
  lease_id : Int := -1
  tick : TickPhase := .idle
  stop : StopPhase := .notCalled
  curl : Option CurlCall := none
  /-- Requests under way that nobody waits for any more. -/
  late : List ElectionRequest := []
  etcd : Etcd := {}
  /-- All leases that etcd ever granted to the instance. -/
  obtained : List Int := []

inductive ElectorAct where
  | electionTick
  | tickGoesOn
  | stop
  | stopGoesOn
  | post (thread : ElectorThread)
  | execute
  | answer
  /-- The transfer fails, the time is up, or the answer is not read. -/
  | fail
  | executeLate (request : ElectionRequest)
  | expire (lease : Int)
  /-- Another instance, which has leases of its own. -/
  | other (instance_id : Bytes) (request : ElectionRequest)

namespace ElectorThreads

def request (s : ElectorThreads) : ElectorThread → Option ElectionRequest
  | .timer => s.tick.request
  | .stopping => s.stop.request

/-- Etcd executes a request of the instance. -/
def serve (instance_id : Bytes) (s : ElectorThreads) (request : ElectionRequest) :
    ElectionAnswer × ElectorThreads :=
  let (answer, etcd) := s.etcd.serveElection instance_id request
  let obtained :=
    match answer with
    | .granted lease => lease :: s.obtained
    | _ => s.obtained
  (answer, { s with etcd, obtained })

/-- `curl_post` returns, and the lock is free. -/
def resume (s : ElectorThreads) (answer : Option ElectionAnswer) :
    ElectorThread → ElectorThreads
  | .timer => { s with tick := s.tick.resume answer, curl := none }
  | .stopping => { s with stop := s.stop.resume, curl := none }

end ElectorThreads

def electorStep (instance_id : Bytes) (s : ElectorThreads) : ElectorAct → Option ElectorThreads
  | .electionTick =>
    if s.tick = .idle then
      some { s with tick := if s.is_leader then .refreshing else .granting }
    else none
  | .tickGoesOn =>
    match s.tick with
    | .elected lease => some { s with is_leader := true, tick := .recording lease }
    | .recording lease => some { s with lease_id := lease, tick := .idle }
    | .refreshing =>
      some { s with tick := if s.lease_id < 0 then .becomingFollower else .renewing s.lease_id }
    | .becomingFollower =>
      some { s with tick := if 0 ≤ s.lease_id then .revoking s.lease_id else .resigning }
    | .dropping => some { s with lease_id := -1, tick := .resigning }
    | .resigning => some { s with is_leader := false, tick := .idle }
    | _ => none
  | .stop =>
    if s.stop = .notCalled then
      some { s with stop := if 0 ≤ s.lease_id then .revoking s.lease_id else .leaving }
    else none
  | .stopGoesOn =>
    match s.stop with
    | .dropping => some { s with lease_id := -1, stop := .leaving }
    | .leaving => some { s with is_leader := false, stop := .returned }
    | _ => none
  | .post thread =>
    match s.curl, s.request thread with
    | none, some request => some { s with curl := some { thread, request } }
    | _, _ => none
  | .execute =>
    match s.curl with
    | some ⟨thread, request, none⟩ =>
      let (answer, s) := s.serve instance_id request
      some { s with curl := some { thread, request, answer := some answer } }
    | _ => none
  | .answer =>
    match s.curl with
    | some ⟨thread, _, some answer⟩ => some (s.resume (some answer) thread)
    | _ => none
  | .fail =>
    match s.curl with
    | some ⟨thread, request, none⟩ =>
      some { s.resume none thread with late := request :: s.late }
    | some ⟨thread, _, some _⟩ => some (s.resume none thread)
    | none => none
  | .executeLate request =>
    if request ∈ s.late then
      some { (s.serve instance_id request).2 with late := s.late.erase request }
    else none
  | .expire lease => some { s with etcd := s.etcd.expire lease }
  | .other instance_id request =>
    if ∀ lease ∈ s.obtained, request ≠ .txn lease then
      some { s with etcd := (s.etcd.serveElection instance_id request).2 }
    else none

/-- The key is held under the lease. -/
def HoldsLeader (etcd : Etcd) (lease : Int) : Prop :=
  (etcd.kvs.lookup leaderKey).map (·.2) = some lease

instance (etcd : Etcd) (lease : Int) : Decidable (HoldsLeader etcd lease) :=
  inferInstanceAs (Decidable (_ = _))

/-- After `stop` the instance is no leader, and leaves the key to others when its tick ends. -/
structure StoppedForGood (s : ElectorThreads) : Prop where
  follower : s.stop = .returned → s.is_leader = false
  released : s.stop = .returned → s.tick = .idle → ∀ lease ∈ s.obtained,
    ¬HoldsLeader s.etcd lease

/-- The lease is gone, or it neither holds the key nor has a transaction under way. -/
def Spent (etcd : Etcd) (late : List ElectionRequest) (lease : Int) : Prop :=
  lease ∉ etcd.leases ∨ (¬HoldsLeader etcd lease ∧ .txn lease ∉ late)

instance (etcd : Etcd) (late : List ElectionRequest) (lease : Int) :
    Decidable (Spent etcd late lease) := inferInstanceAs (Decidable (_ ∨ _))

namespace ElectorThreads

/-- The step is `_is_leader = true`. -/
def elects (s : ElectorThreads) : ElectorAct → Bool
  | .tickGoesOn =>
    match s.tick with
    | .elected _ => true
    | _ => false
  | _ => false

/-- The leases that no variable has after the step, or none that `stop` will look at. -/
def letsGo (s : ElectorThreads) : ElectorAct → List Int
  | .tickGoesOn =>
    match s.tick with
    | .recording lease => if s.stop = .returned then [s.lease_id, lease] else [s.lease_id]
    | .dropping => [s.lease_id]
    | _ => []
  | .stopGoesOn =>
    match s.stop with
    | .dropping | .leaving => [s.lease_id]
    | _ => []
  | .answer | .fail =>
    match s.curl.map (·.thread), s.tick with
    | some ElectorThread.timer, .givingUp lease => [lease]
    | _, _ => []
  | _ => []

end ElectorThreads

/-- No tick takes a success when `stop` has returned, and a lease that is let go is spent. -/
def Orderly (s : ElectorThreads) (a : ElectorAct) : Prop :=
  (s.elects a = true → s.stop ≠ .returned) ∧ ∀ lease ∈ s.letsGo a, Spent s.etcd s.late lease

instance (s : ElectorThreads) (a : ElectorAct) : Decidable (Orderly s a) :=
  inferInstanceAs (Decidable (_ ∧ _))

/-! What etcd does to the key. -/

/-- The key goes with its lease, and leases are numbered as they are granted. -/
structure Etcd.Sound (etcd : Etcd) : Prop where
  held : ∀ lease, HoldsLeader etcd lease → lease ∈ etcd.leases
  bounded : ∀ lease ∈ etcd.leases, lease ≤ etcd.granted

section Etcd
variable {etcd : Etcd} {instance_id : Bytes} {request : ElectionRequest} {lease : Int}

theorem holdsLeader_expire {other : Int} (h : HoldsLeader (etcd.expire other) lease) :
    HoldsLeader etcd lease ∧ lease ≠ other := by
  unfold HoldsLeader at h ⊢
  rw [EtcdRegistryStore.lookup_expire] at h
  by_cases hother : (etcd.kvs.lookup leaderKey).map (·.2) = some other
  · simp [hother] at h
  · rw [if_neg hother] at h
    refine ⟨h, fun heq => hother ?_⟩
    rw [h, heq]

/-- Only the transaction with the lease puts the key under it, while the lease lives. -/
theorem holdsLeader_serve (h : HoldsLeader (etcd.serveElection instance_id request).2 lease) :
    HoldsLeader etcd lease ∨ (request = .txn lease ∧ lease ∈ etcd.leases) := by
  cases request with
  | leaseGrant => exact Or.inl h
  | keepalive other => exact Or.inl h
  | revoke other => exact Or.inl (holdsLeader_expire h).1
  | txn other =>
      simp only [Etcd.serveElection, Etcd.createIfAbsent] at h
      split at h
      · rename_i hcreated
        right
        simp only [HoldsLeader, AList.lookup_insert, Option.map_some, Option.some.injEq] at h
        rw [← h]
        exact ⟨rfl, hcreated.2⟩
      · exact Or.inl h

theorem mem_leases_serve (h : lease ∈ (etcd.serveElection instance_id request).2.leases) :
    lease ∈ etcd.leases ∨ (request = .leaseGrant ∧ lease = etcd.granted + 1) := by
  cases request with
  | leaseGrant =>
      obtain hnew | hold := List.mem_cons.mp h
      · exact Or.inr ⟨rfl, hnew⟩
      · exact Or.inl hold
  | keepalive other => exact Or.inl h
  | revoke other => exact Or.inl (List.mem_of_mem_filter h)
  | txn other =>
      simp only [Etcd.serveElection, Etcd.createIfAbsent] at h
      split at h <;> exact Or.inl h

theorem granted_serve : (etcd.serveElection instance_id request).2.granted =
    if request = .leaseGrant then etcd.granted + 1 else etcd.granted := by
  cases request with
  | txn other =>
      simp only [Etcd.serveElection, Etcd.createIfAbsent]
      split <;> simp
  | _ => rfl

theorem granted_le_serve :
    etcd.granted ≤ (etcd.serveElection instance_id request).2.granted := by
  rw [granted_serve]
  split <;> omega

theorem answer_granted (h : (etcd.serveElection instance_id request).1 = .granted lease) :
    request = .leaseGrant ∧ lease = etcd.granted + 1 := by
  cases request with
  | leaseGrant =>
      simp only [Etcd.serveElection, Etcd.leaseGrant, ElectionAnswer.granted.injEq] at h
      exact ⟨rfl, h.symm⟩
  | _ => simp [Etcd.serveElection] at h

/-- A lease lives on, or it is taken from the list with all that is under it. -/
theorem holdsLeader_mem_serve (hsound : etcd.Sound)
    (h : HoldsLeader (etcd.serveElection instance_id request).2 lease) :
    lease ∈ (etcd.serveElection instance_id request).2.leases := by
  cases request with
  | leaseGrant => exact List.mem_cons_of_mem _ (hsound.held lease h)
  | keepalive other => exact hsound.held lease h
  | revoke other =>
      obtain ⟨hheld, hne⟩ := holdsLeader_expire h
      have hlive := hsound.held lease hheld
      simp only [Etcd.serveElection, Etcd.expire]
      simp [hlive, hne]
  | txn other =>
      have hsame : (etcd.serveElection instance_id (.txn other)).2.leases = etcd.leases := by
        simp only [Etcd.serveElection, Etcd.createIfAbsent]
        split <;> rfl
      rw [hsame]
      obtain hheld | ⟨_, hlive⟩ := holdsLeader_serve h
      · exact hsound.held lease hheld
      · exact hlive

theorem Etcd.Sound.serve (h : etcd.Sound) :
    (etcd.serveElection instance_id request).2.Sound := by
  refine ⟨fun lease hheld => holdsLeader_mem_serve h hheld, fun lease hlive => ?_⟩
  obtain hold | ⟨hgrant, hnew⟩ := mem_leases_serve hlive
  · have hbound := h.bounded lease hold
    have hmono := @granted_le_serve etcd instance_id request
    omega
  · rw [granted_serve, if_pos hgrant, hnew]
    omega

theorem Etcd.Sound.expire (h : etcd.Sound) (other : Int) : (etcd.expire other).Sound :=
  @Etcd.Sound.serve etcd [] (.revoke other) h

variable {late late' : List ElectionRequest}

theorem Spent.not_held (h : Spent etcd late lease) (hsound : etcd.Sound) :
    ¬HoldsLeader etcd lease := by
  intro hheld
  obtain hgone | ⟨hfree, _⟩ := h
  · exact hgone (hsound.held lease hheld)
  · exact hfree hheld

theorem Spent.mono (h : Spent etcd late lease)
    (hlate : .txn lease ∈ late' → .txn lease ∈ late) : Spent etcd late' lease := by
  obtain hgone | ⟨hfree, hnone⟩ := h
  · exact Or.inl hgone
  · exact Or.inr ⟨hfree, fun hmem => hnone (hlate hmem)⟩

/-- A spent lease stays so, if only its own late transaction is executed. -/
theorem Spent.serve (h : Spent etcd late lease) (hold : lease ≤ etcd.granted)
    (htxn : request = .txn lease → .txn lease ∈ late) :
    Spent (etcd.serveElection instance_id request).2 late lease := by
  obtain hgone | ⟨hfree, hnone⟩ := h
  · left
    intro hlive
    obtain hbefore | ⟨_, hnew⟩ := mem_leases_serve hlive
    · exact hgone hbefore
    · omega
  · right
    refine ⟨fun hheld => ?_, hnone⟩
    obtain hbefore | ⟨hrequest, _⟩ := holdsLeader_serve hheld
    · exact hfree hbefore
    · exact hnone (htxn hrequest)

end Etcd

/-- The lease that a tick is at work with. -/
def TickPhase.lease : TickPhase → Option Int
  | .competing lease | .givingUp lease | .elected lease | .recording lease => some lease
  | _ => none

/-- A tick is at work with the lease, or `stop` will find it. -/
def ElectorThreads.Keeps (s : ElectorThreads) (lease : Int) : Prop :=
  s.tick.lease = some lease ∨ (s.lease_id = lease ∧ s.stop ≠ .returned)

structure ThreadsInv (s : ElectorThreads) : Prop where
  sound : s.etcd.Sound
  bounded : ∀ lease ∈ s.obtained, lease ≤ s.etcd.granted
  late : ∀ lease, .txn lease ∈ s.late → lease ∈ s.obtained
  calling : ∀ c, s.curl = some c → s.request c.thread = some c.request
  granted : ∀ c lease, s.curl = some c → c.answer = some (.granted lease) → lease ∈ s.obtained
  asked : ∀ lease, s.tick = .competing lease → lease ∈ s.obtained
  known : ∀ lease ∈ s.obtained, Spent s.etcd s.late lease ∨ s.Keeps lease
  returned : s.stop = .returned → s.is_leader = false

section Threads
variable {s t : ElectorThreads} {a : ElectorAct} {instance_id : Bytes}

theorem threadsInv_init : ThreadsInv {} := by
  refine ⟨⟨fun lease hheld => ?_, nofun⟩, nofun, nofun, nofun, nofun, nofun, nofun, nofun⟩
  simp [HoldsLeader] at hheld

/-- What holds of an idle elector whose stop has returned. -/
theorem ThreadsInv.stoppedForGood (h : ThreadsInv s) : StoppedForGood s := by
  refine ⟨h.returned, fun hreturned hidle lease hobtained => ?_⟩
  obtain hspent | hkeeps := h.known lease hobtained
  · exact hspent.not_held h.sound
  · simp [ElectorThreads.Keeps, hidle, hreturned, TickPhase.lease] at hkeeps

/-- A statement of a tick that is no call. -/
theorem ThreadsInv.ticks (h : ThreadsInv s) {is_leader : Bool} {lease_id : Int}
    {tick : TickPhase} (hfree : s.tick.request = none) (hasked : ∀ lease, tick ≠ .competing lease)
    (hknown : ∀ lease ∈ s.obtained, s.Keeps lease → Spent s.etcd s.late lease ∨
      ElectorThreads.Keeps { s with is_leader, lease_id, tick } lease)
    (hreturned : s.stop = .returned → is_leader = false) :
    ThreadsInv { s with is_leader, lease_id, tick } where
  sound := h.sound
  bounded := h.bounded
  late := h.late
  calling := by
    intro c hc
    have hcalling := h.calling c hc
    cases hthread : c.thread with
    | stopping =>
        rw [hthread] at hcalling
        exact hcalling
    | timer =>
        rw [hthread, ElectorThreads.request, hfree] at hcalling
        cases hcalling
  granted := h.granted
  asked := fun lease hdoing => absurd hdoing (hasked lease)
  known := by
    intro lease hobtained
    obtain hspent | hkeeps := h.known lease hobtained
    · exact Or.inl hspent
    · exact hknown lease hobtained hkeeps
  returned := hreturned

/-- A statement of a tick that has no lease at hand and writes none. -/
theorem ThreadsInv.turns (h : ThreadsInv s) {is_leader : Bool} {tick : TickPhase}
    (hfree : s.tick.request = none) (hlease : s.tick.lease = none)
    (hasked : ∀ lease, tick ≠ .competing lease)
    (hreturned : s.stop = .returned → is_leader = false) :
    ThreadsInv { s with is_leader, tick } := by
  refine h.ticks hfree hasked (fun lease _ hkeeps => ?_) hreturned
  obtain hdoing | hfound := hkeeps
  · rw [hlease] at hdoing
    cases hdoing
  · exact Or.inr (Or.inr hfound)

/-- A statement of `stop` that is no call. -/
theorem ThreadsInv.stops (h : ThreadsInv s) {is_leader : Bool} {lease_id : Int}
    {stop : StopPhase} (hfree : s.stop.request = none)
    (hknown : s.stop ≠ .returned → s.lease_id ∈ s.obtained →
      Spent s.etcd s.late s.lease_id ∨ (lease_id = s.lease_id ∧ stop ≠ .returned))
    (hreturned : stop = .returned → is_leader = false) :
    ThreadsInv { s with is_leader, lease_id, stop } where
  sound := h.sound
  bounded := h.bounded
  late := h.late
  calling := by
    intro c hc
    have hcalling := h.calling c hc
    cases hthread : c.thread with
    | timer =>
        rw [hthread] at hcalling
        exact hcalling
    | stopping =>
        rw [hthread, ElectorThreads.request, hfree] at hcalling
        cases hcalling
  granted := h.granted
  asked := h.asked
  known := by
    intro lease hobtained
    obtain hspent | hkeeps := h.known lease hobtained
    · exact Or.inl hspent
    · obtain hdoing | ⟨rfl, hearlier⟩ := hkeeps
      · exact Or.inr (Or.inl hdoing)
      · obtain hspent | ⟨hsame, hlater⟩ := hknown hearlier hobtained
        · exact Or.inl hspent
        · exact Or.inr (Or.inr ⟨hsame, hlater⟩)
  returned := hreturned

theorem ThreadsInv.electionTick (h : ThreadsInv s)
    (hs : electorStep instance_id s .electionTick = some t) : ThreadsInv t := by
  simp only [electorStep] at hs
  split at hs
  · rename_i hidle
    cases hs
    refine h.turns (by rw [hidle]; rfl) (by rw [hidle]; rfl) (fun lease => ?_) h.returned
    cases s.is_leader <;> simp
  · cases hs

theorem ThreadsInv.tickGoesOn (h : ThreadsInv s) (hok : Orderly s .tickGoesOn)
    (hs : electorStep instance_id s .tickGoesOn = some t) : ThreadsInv t := by
  obtain ⟨helects, hspent⟩ := hok
  simp only [electorStep] at hs
  simp only [ElectorThreads.elects, ElectorThreads.letsGo] at helects hspent
  cases hdoing : s.tick with
  | elected lease =>
      simp only [hdoing, Option.some.injEq] at hs helects
      subst hs
      have hearlier : s.stop ≠ .returned := helects trivial
      refine h.ticks (by rw [hdoing]; rfl) (fun _ => nofun) (fun other _ hkeeps => ?_)
        (fun hreturned => absurd hreturned hearlier)
      simp only [ElectorThreads.Keeps, hdoing] at hkeeps
      exact Or.inr hkeeps
  | recording lease =>
      simp only [hdoing, Option.some.injEq] at hs hspent
      subst hs
      refine h.ticks (by rw [hdoing]; rfl) (fun _ => nofun) (fun other _ hkeeps => ?_) h.returned
      simp only [ElectorThreads.Keeps, hdoing, TickPhase.lease, Option.some.injEq] at hkeeps
      obtain rfl | ⟨rfl, hearlier⟩ := hkeeps
      · by_cases hreturned : s.stop = .returned
        · -- `stop` did not wait for it
          rw [if_pos hreturned] at hspent
          exact Or.inl (hspent lease (by simp))
        · exact Or.inr (Or.inr ⟨rfl, hreturned⟩)
      · rw [if_neg hearlier] at hspent
        exact Or.inl (hspent s.lease_id (by simp))
  | dropping =>
      simp only [hdoing, Option.some.injEq] at hs hspent
      subst hs
      refine h.ticks (by rw [hdoing]; rfl) (fun _ => nofun) (fun other _ hkeeps => ?_) h.returned
      simp only [ElectorThreads.Keeps, hdoing, TickPhase.lease] at hkeeps
      obtain hnone | ⟨rfl, _⟩ := hkeeps
      · cases hnone
      · exact Or.inl (hspent s.lease_id (by simp))
  | refreshing =>
      simp only [hdoing, Option.some.injEq] at hs
      subst hs
      refine h.turns (by rw [hdoing]; rfl) (by rw [hdoing]; rfl) (fun lease => ?_) h.returned
      split <;> simp
  | becomingFollower =>
      simp only [hdoing, Option.some.injEq] at hs
      subst hs
      refine h.turns (by rw [hdoing]; rfl) (by rw [hdoing]; rfl) (fun lease => ?_) h.returned
      split <;> simp
  | resigning =>
      simp only [hdoing, Option.some.injEq] at hs
      subst hs
      exact h.turns (by rw [hdoing]; rfl) (by rw [hdoing]; rfl) (fun _ => nofun) (fun _ => rfl)
  | _ => simp [hdoing] at hs

theorem ThreadsInv.stop (h : ThreadsInv s) (hs : electorStep instance_id s .stop = some t) :
    ThreadsInv t := by
  simp only [electorStep] at hs
  split at hs
  · rename_i hcalled
    cases hs
    refine h.stops (by rw [hcalled]; rfl) (fun _ _ => Or.inr ⟨rfl, ?_⟩) (fun hreturned => ?_)
    · split <;> simp
    · split at hreturned <;> cases hreturned
  · cases hs

theorem ThreadsInv.stopGoesOn (h : ThreadsInv s) (hok : Orderly s .stopGoesOn)
    (hs : electorStep instance_id s .stopGoesOn = some t) : ThreadsInv t := by
  have hspent := hok.2
  simp only [electorStep] at hs
  simp only [ElectorThreads.letsGo] at hspent
  cases hdoing : s.stop with
  | dropping =>
      simp only [hdoing, Option.some.injEq] at hs hspent
      subst hs
      exact h.stops (by rw [hdoing]; rfl) (fun _ _ => Or.inl (hspent s.lease_id (by simp))) nofun
  | leaving =>
      simp only [hdoing, Option.some.injEq] at hs hspent
      subst hs
      exact h.stops (by rw [hdoing]; rfl) (fun _ _ => Or.inl (hspent s.lease_id (by simp)))
        (fun _ => rfl)
  | _ => simp [hdoing] at hs

theorem ThreadsInv.post (h : ThreadsInv s) {thread : ElectorThread}
    (hs : electorStep instance_id s (.post thread) = some t) : ThreadsInv t := by
  simp only [electorStep] at hs
  split at hs
  · rename_i request _ hrequest
    cases hs
    exact {
      sound := h.sound
      bounded := h.bounded
      late := h.late
      calling := by
        intro c hc
        cases hc
        exact hrequest
      granted := by
        intro c lease hc hanswer
        cases hc
        cases hanswer
      asked := h.asked
      known := h.known
      returned := h.returned }
  · cases hs

/-- Etcd executes a request, of the instance or of another. -/
theorem ThreadsInv.serve (h : ThreadsInv s) {id : Bytes} {request : ElectionRequest}
    {obtained : List Int} {late : List ElectionRequest} {curl : Option CurlCall}
    (hobtained : ∀ lease ∈ obtained, lease ∈ s.obtained ∨
      (request = .leaseGrant ∧ lease = s.etcd.granted + 1))
    (hkept : ∀ lease ∈ s.obtained, lease ∈ obtained)
    (hlate : ∀ lease, .txn lease ∈ late → .txn lease ∈ s.late)
    (htxn : ∀ lease ∈ s.obtained, request = .txn lease →
      .txn lease ∈ s.late ∨ s.Keeps lease)
    (hcalling : ∀ c, curl = some c → s.request c.thread = some c.request)
    (hgranted : ∀ c lease, curl = some c → c.answer = some (.granted lease) → lease ∈ obtained) :
    ThreadsInv { s with
      etcd := (s.etcd.serveElection id request).2
      obtained, late, curl } where
  sound := h.sound.serve
  bounded := by
    intro lease hmem
    obtain hold | ⟨hgrant, hnew⟩ := hobtained lease hmem
    · have hbound := h.bounded lease hold
      have hmono := @granted_le_serve s.etcd id request
      simp only
      omega
    · simp only [granted_serve, if_pos hgrant]
      omega
  late := fun lease hmem => hkept lease (h.late lease (hlate lease hmem))
  calling := hcalling
  granted := hgranted
  asked := fun lease hdoing => hkept lease (h.asked lease hdoing)
  known := by
    intro lease hmem
    obtain hold | ⟨hgrant, hnew⟩ := hobtained lease hmem
    · by_cases hkeeps : s.Keeps lease
      · exact Or.inr hkeeps
      obtain hspent | hkeeps' := h.known lease hold
      · left
        refine (hspent.serve (h.bounded lease hold) fun hrequest => ?_).mono (hlate lease)
        exact (htxn lease hold hrequest).resolve_right hkeeps
      · exact absurd hkeeps' hkeeps
    · -- a new lease, which nothing is under
      left; right
      refine ⟨fun hheld => ?_, fun hasked => ?_⟩
      · obtain hbefore | ⟨hrequest, _⟩ := holdsLeader_serve hheld
        · have hbound := h.sound.bounded lease (h.sound.held lease hbefore)
          omega
        · rw [hgrant] at hrequest
          cases hrequest
      · have hbound := h.bounded lease (h.late lease (hlate lease hasked))
        omega
  returned := h.returned

/-- Only a tick that competes asks for a transaction. -/
theorem request_txn {thread : ElectorThread} {lease : Int}
    (h : s.request thread = some (.txn lease)) :
    thread = .timer ∧ s.tick = .competing lease := by
  cases thread with
  | timer =>
      simp only [ElectorThreads.request] at h
      cases hdoing : s.tick with
      | competing other =>
          simp only [hdoing, TickPhase.request, Option.some.injEq, ElectionRequest.txn.injEq] at h
          rw [h]
          exact ⟨rfl, rfl⟩
      | _ => simp [hdoing, TickPhase.request] at h
  | stopping =>
      simp only [ElectorThreads.request] at h
      cases hdoing : s.stop <;> simp [hdoing, StopPhase.request] at h

theorem stop_revoking {request : ElectionRequest}
    (h : s.request .stopping = some request) : ∃ lease, s.stop = .revoking lease := by
  simp only [ElectorThreads.request] at h
  cases hdoing : s.stop with
  | revoking lease => exact ⟨lease, rfl⟩
  | _ => simp [hdoing, StopPhase.request] at h

/-- A tick goes on to compete with the lease that it is granted. -/
theorem resume_competing {request : ElectionRequest} {answer : Option ElectionAnswer}
    {lease : Int} (h : s.request .timer = some request)
    (hnext : s.tick.resume answer = .competing lease) :
    s.tick = .granting ∧ answer = some (.granted lease) := by
  simp only [ElectorThreads.request] at h
  cases hdoing : s.tick with
  | granting =>
      simp only [hdoing, TickPhase.resume] at hnext
      split at hnext
      · cases hnext
        exact ⟨rfl, rfl⟩
      · cases hnext
  | competing other =>
      simp only [hdoing, TickPhase.resume] at hnext
      split at hnext <;> cases hnext
  | renewing other =>
      simp only [hdoing, TickPhase.resume] at hnext
      split at hnext <;> cases hnext
  | givingUp other => simp [hdoing, TickPhase.resume] at hnext
  | revoking other => simp [hdoing, TickPhase.resume] at hnext
  | _ => simp [hdoing, TickPhase.request] at h

theorem lease_waiting {request : ElectionRequest} {lease : Int}
    (h : s.request .timer = some request) (hlease : s.tick.lease = some lease)
    (hdoing : s.tick ≠ .competing lease) : s.tick = .givingUp lease := by
  simp only [ElectorThreads.request] at h
  cases hphase : s.tick <;> simp_all [TickPhase.request, TickPhase.lease]

theorem mem_obtained_serve {request : ElectionRequest} {lease : Int} :
    lease ∈ (s.serve instance_id request).2.obtained ↔
      lease ∈ s.obtained ∨
        (s.etcd.serveElection instance_id request).1 = .granted lease := by
  simp only [ElectorThreads.serve]
  split
  · rename_i new hnew
    rw [hnew, List.mem_cons, ElectionAnswer.granted.injEq, or_comm, eq_comm]
  · rename_i hother
    exact ⟨Or.inl, fun hmem => hmem.resolve_right (hother lease)⟩

theorem ThreadsInv.execute (h : ThreadsInv s)
    (hs : electorStep instance_id s .execute = some t) : ThreadsInv t := by
  simp only [electorStep] at hs
  split at hs
  · rename_i thread request hcurl
    cases hs
    have hasked := h.calling _ hcurl
    refine h.serve (fun lease hmem => ?_) (fun lease hmem => mem_obtained_serve.mpr (Or.inl hmem))
      (fun _ hmem => hmem) (fun lease _ hrequest => ?_) (fun c hc => ?_)
      (fun c lease hc hanswer => ?_)
    · exact (mem_obtained_serve.mp hmem).imp_right answer_granted
    · right; left
      rw [(request_txn (hrequest ▸ hasked)).2]
      rfl
    · cases hc
      exact hasked
    · cases hc
      exact mem_obtained_serve.mpr (Or.inr (Option.some.inj hanswer))
  · cases hs

theorem ThreadsInv.executeLate (h : ThreadsInv s) {request : ElectionRequest}
    (hs : electorStep instance_id s (.executeLate request) = some t) : ThreadsInv t := by
  simp only [electorStep] at hs
  split at hs
  · rename_i hlate
    cases hs
    refine h.serve (fun lease hmem => ?_) (fun lease hmem => mem_obtained_serve.mpr (Or.inl hmem))
      (fun _ => List.mem_of_mem_erase) (fun lease _ hrequest => ?_) h.calling
      (fun c lease hc hanswer => ?_)
    · exact (mem_obtained_serve.mp hmem).imp_right answer_granted
    · exact Or.inl (hrequest ▸ hlate)
    · exact mem_obtained_serve.mpr (Or.inl (h.granted c lease hc hanswer))
  · cases hs

theorem ThreadsInv.other (h : ThreadsInv s) {id : Bytes} {request : ElectionRequest}
    (hs : electorStep instance_id s (.other id request) = some t) : ThreadsInv t := by
  simp only [electorStep] at hs
  split at hs
  · rename_i hforeign
    cases hs
    exact h.serve (fun _ => Or.inl) (fun _ hmem => hmem) (fun _ hmem => hmem)
      (fun lease hmem hrequest => absurd hrequest (hforeign lease hmem)) h.calling h.granted
  · cases hs

theorem ThreadsInv.expire (h : ThreadsInv s) {lease : Int}
    (hs : electorStep instance_id s (.expire lease) = some t) : ThreadsInv t := by
  cases hs
  exact @ThreadsInv.serve s h [] (.revoke lease) _ _ _ (fun _ => Or.inl) (fun _ hmem => hmem)
    (fun _ hmem => hmem) (fun _ _ => nofun) h.calling h.granted

/-- `curl_post` returns: a lease that is let go is spent, and a request that was not
executed yet may still be. -/
theorem ThreadsInv.resume (h : ThreadsInv s) {c : CurlCall} {answer : Option ElectionAnswer}
    {late : List ElectionRequest} (hcurl : s.curl = some c)
    (hanswer : ∀ a, answer = some a → c.answer = some a)
    (hlate : ∀ lease, .txn lease ∈ late → .txn lease ∈ s.late ∨ c.request = .txn lease)
    (hspent : ∀ lease, c.thread = .timer → s.tick = .givingUp lease →
      Spent s.etcd s.late lease) :
    ThreadsInv { s.resume answer c.thread with late } := by
  have hcalling := h.calling c hcurl
  have hcompeting : ∀ lease, c.request = .txn lease →
      c.thread = .timer ∧ s.tick = .competing lease :=
    fun lease hrequest => request_txn (hrequest ▸ hcalling)
  have hlate' : ∀ lease, .txn lease ∈ late → lease ∈ s.obtained := by
    intro lease hmem
    obtain hold | hrequest := hlate lease hmem
    · exact h.late lease hold
    · exact h.asked lease (hcompeting lease hrequest).2
  have hmono : ∀ lease, s.tick ≠ .competing lease ∨ c.thread = .stopping →
      Spent s.etcd s.late lease → Spent s.etcd late lease := by
    intro lease hother hspent
    refine hspent.mono fun hmem => (hlate lease hmem).resolve_right fun hrequest => ?_
    obtain ⟨hthread, hdoing⟩ := hcompeting lease hrequest
    obtain hne | hstopping := hother
    · exact hne hdoing
    · rw [hthread] at hstopping
      cases hstopping
  cases hthread : c.thread with
  | stopping =>
      rw [hthread] at hcalling
      obtain ⟨lease, hdoing⟩ := stop_revoking hcalling
      refine ⟨h.sound, h.bounded, hlate', nofun, nofun, h.asked, fun other hmem => ?_, ?_⟩
      · obtain hold | hkeeps := h.known other hmem
        · exact Or.inl (hmono other (Or.inr hthread) hold)
        · refine Or.inr (hkeeps.imp_right fun hrecorded => ⟨hrecorded.1, ?_⟩)
          simp [ElectorThreads.resume, StopPhase.resume, hdoing]
      · simp [ElectorThreads.resume, StopPhase.resume, hdoing]
  | timer =>
      rw [hthread] at hcalling
      refine ⟨h.sound, h.bounded, hlate', nofun, nofun, fun lease hnext => ?_,
        fun lease hmem => ?_, h.returned⟩
      · obtain ⟨hgranting, hgranted⟩ := resume_competing hcalling hnext
        exact h.granted c lease hcurl (hanswer _ hgranted)
      · by_cases hdoing : s.tick = .competing lease
        · right; left
          simp only [ElectorThreads.resume, TickPhase.resume, hdoing]
          split <;> rfl
        · obtain hold | hkeeps | hrecorded := h.known lease hmem
          · exact Or.inl (hmono lease (Or.inl hdoing) hold)
          · -- a tick that waits for an answer and has this lease gives it up
            have hgivingUp : s.tick = .givingUp lease := lease_waiting hcalling hkeeps hdoing
            exact Or.inl (hmono lease (Or.inl hdoing) (hspent lease hthread hgivingUp))
          · exact Or.inr (Or.inr hrecorded)

theorem ThreadsInv.answer (h : ThreadsInv s) (hok : Orderly s .answer)
    (hs : electorStep instance_id s .answer = some t) : ThreadsInv t := by
  have hspent := hok.2
  simp only [electorStep] at hs
  split at hs
  · rename_i thread request answer hcurl
    cases hs
    simp only [ElectorThreads.letsGo, hcurl, Option.map_some] at hspent
    cases thread with
    | timer =>
        refine h.resume hcurl (fun _ => id) (fun _ => Or.inl) (fun lease _ hdoing => ?_)
        exact hspent lease (by simp [hdoing])
    | stopping => exact h.resume hcurl (fun _ => id) (fun _ => Or.inl) (fun _ => nofun)
  · cases hs

theorem ThreadsInv.fail (h : ThreadsInv s) (hok : Orderly s .fail)
    (hs : electorStep instance_id s .fail = some t) : ThreadsInv t := by
  have hspent := hok.2
  simp only [electorStep] at hs
  cases hcurl : s.curl with
  | none => simp [hcurl] at hs
  | some c =>
    have hresume : ∀ late : List ElectionRequest,
        (∀ lease, .txn lease ∈ late → .txn lease ∈ s.late ∨ c.request = .txn lease) →
          ThreadsInv { s.resume none c.thread with late } := by
      intro late hlate
      refine h.resume hcurl nofun hlate (fun lease hthread hdoing => ?_)
      simp only [ElectorThreads.letsGo, hcurl, Option.map_some, hthread, hdoing] at hspent
      exact hspent lease (by simp)
    obtain ⟨thread, request, _ | answer⟩ := c
    · simp only [hcurl, Option.some.injEq] at hs
      subst hs
      refine hresume (request :: s.late) (fun lease hmem => ?_)
      exact (List.mem_cons.mp hmem).symm.imp_right Eq.symm
    · simp only [hcurl, Option.some.injEq] at hs
      subst hs
      cases thread <;> exact hresume s.late (fun _ => Or.inl)

theorem ThreadsInv.step (h : ThreadsInv s) (hok : Orderly s a)
    (hs : electorStep instance_id s a = some t) : ThreadsInv t := by
  cases a with
  | electionTick => exact h.electionTick hs
  | tickGoesOn => exact h.tickGoesOn hok hs
  | stop => exact h.stop hs
  | stopGoesOn => exact h.stopGoesOn hok hs
  | post thread => exact h.post hs
  | execute => exact h.execute hs
  | answer => exact h.answer hok hs
  | fail => exact h.fail hok hs
  | executeLate request => exact h.executeLate hs
  | expire lease => exact h.expire hs
  | other id request => exact h.other hs

/-- In a run in which no tick takes a success after `stop`, and leases are let go only when
they are spent, `stop` is final. -/
theorem stop_is_final (h : Run (electorStep instance_id) Orderly {} s) : StoppedForGood s :=
  (h.invariant ThreadsInv threadsInv_init
    (fun _ _ _ hinv hok hs => hinv.step hok hs)).stoppedForGood

end Threads

/-- A leader stops, another instance takes its place, and the timer fires once more. -/
theorem stop_is_final_succeeded : ∃ s : ElectorThreads, s.stop = .returned ∧ s.tick = .idle ∧
    s.obtained = [3, 1] ∧ StoppedForGood s := by
  let acts : List ElectorAct :=
    [.electionTick, .post .timer, .execute, .answer, .post .timer, .execute, .answer, .tickGoesOn,
      .tickGoesOn, .stop, .post .stopping, .execute, .answer, .stopGoesOn, .stopGoesOn,
      .other (str "b:2") .leaseGrant, .other (str "b:2") (.txn 2),
      .electionTick, .post .timer, .execute, .answer, .post .timer, .execute, .answer,
      .post .timer, .execute, .answer]
  have hexec : (exec (guarded (electorStep (str "a:1")) Orderly) {} acts).map
      (fun s => (s.stop, s.tick, s.obtained)) = some (.returned, .idle, [3, 1]) := by
    decide +kernel
  obtain ⟨s, hrun, hs⟩ := Option.map_eq_some_iff.mp hexec
  simp only [Prod.mk.injEq] at hs
  exact ⟨s, hs.1, hs.2.1, hs.2.2, stop_is_final (Run.of_guarded hrun)⟩

/-- `stop` comes and goes between the grant and the transaction of a tick. -/
theorem stop_not_final :
    ¬ ∀ (instance_id : Bytes) (s : ElectorThreads),
      Reachable (electorStep instance_id) {} s → StoppedForGood s := by
  intro h
  let acts : List ElectorAct :=
    [.electionTick, .post .timer, .execute, .answer, .stop, .stopGoesOn, .post .timer, .execute,
      .answer, .tickGoesOn, .tickGoesOn]
  have hexec : (exec (electorStep (str "a:1")) {} acts).map (fun s => (s.stop, s.is_leader)) =
      some (.returned, true) := by decide +kernel
  obtain ⟨s, hrun, hs⟩ := Option.map_eq_some_iff.mp hexec
  simp only [Prod.mk.injEq] at hs
  have hfollower := (h (str "a:1") s (Reachable.of_exec hrun)).follower hs.1
  rw [hs.2] at hfollower
  cases hfollower

end LyqtRpc
