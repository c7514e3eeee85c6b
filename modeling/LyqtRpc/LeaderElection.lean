import LyqtRpc.EtcdStore
import LyqtRpc.Lib.StepRun
import Mathlib.Logic.Function.Basic

/-!
`EtcdLeaderElector` in any number of registry instances. Every `curl_post` is cut
into its parts: the request is under way, etcd executes it, its answer is under
way, and the instance takes the answer or gives up.
-/

set_option autoImplicit false

namespace LyqtRpc

open StepRun

def leaderKey : Bytes := str "/lcz-rpc/v1/leader"

inductive ElectionRequest where
  | leaseGrant
  | txn (lease : Int)
  | keepalive (lease : Int)
  | revoke (lease : Int)
  deriving DecidableEq

inductive ElectionAnswer where
  | granted (lease : Int)
  | txn (succeeded : Bool)
  | keepalive (alive : Bool)
  | revoked
  deriving DecidableEq

/-- Where the thread of `_hb_loop` is. -/
inductive ElectionPhase where
  | idle
  | granting
  | competing (lease : Int)
  | givingUp (lease : Int)
  | refreshing
  | steppingDown
  | sweeping
  deriving DecidableEq

structure EtcdLeaderElector where
  is_leader : Bool := false
  lease_id : Int := -1
  doing : ElectionPhase := .idle
  /-- How often it has called `curl_post`. -/
  calls : Nat := 0

/-- The request whose answer it waits for. -/
def EtcdLeaderElector.request (e : EtcdLeaderElector) : Option ElectionRequest :=
  match e.doing with
  | .granting => some .leaseGrant
  | .competing lease => some (.txn lease)
  | .givingUp lease => some (.revoke lease)
  | .refreshing => some (.keepalive e.lease_id)
  | .steppingDown => some (.revoke e.lease_id)
  | .idle | .sweeping => none

/-- Compare `version == 0`, put with the lease; a lease that is gone is an error. -/
def Etcd.createIfAbsent (etcd : Etcd) (key value : Bytes) (lease : Int) : Bool × Etcd :=
  if (etcd.kvs.lookup key).isNone ∧ lease ∈ etcd.leases then
    (true, { etcd with kvs := etcd.kvs.insert key (value, lease) })
  else (false, etcd)

/-- `instance_id` is what a leader writes. -/
def Etcd.serveElection (etcd : Etcd) (instance_id : Bytes) :
    ElectionRequest → ElectionAnswer × Etcd
  | .leaseGrant =>
    let (lease, etcd) := etcd.leaseGrant
    (.granted lease, etcd)
  | .txn lease =>
    let (succeeded, etcd) := etcd.createIfAbsent leaderKey instance_id lease
    (.txn succeeded, etcd)
  | .keepalive lease => (.keepalive (lease ∈ etcd.leases), etcd)
  | .revoke lease => (.revoked, etcd.expire lease)

structure Election (ι : Type) where
  electors : ι → EtcdLeaderElector := fun _ => {}
  etcd : Etcd := {}
  requests : List (ι × Nat × ElectionRequest) := []
  answers : List (ι × Nat × ElectionRequest × ElectionAnswer) := []

inductive ElectionAct (ι : Type) where
  | electionTick (i : ι)
  | execute (i : ι) (call : Nat) (request : ElectionRequest)
  | answer (i : ι) (answer : ElectionAnswer)
  /-- The transfer fails, the time is up, or the answer is not read. -/
  | fail (i : ι)
  | expire (lease : Int)
  | sweepAndNotify (i : ι)
  | sweepDone (i : ι)

section Election
variable {ι : Type} [DecidableEq ι]

namespace Election

def put (s : Election ι) (i : ι) (e : EtcdLeaderElector) : Election ι :=
  { s with electors := Function.update s.electors i e }

/-- `curl_post` begins. -/
def post (s : Election ι) (i : ι) (e : EtcdLeaderElector) (request : ElectionRequest) :
    Election ι :=
  { s.put i { e with calls := e.calls + 1 } with
    requests := (i, e.calls + 1, request) :: s.requests }

def becomeFollower (s : Election ι) (i : ι) (e : EtcdLeaderElector) : Election ι :=
  if 0 ≤ e.lease_id then s.post i { e with doing := .steppingDown } (.revoke e.lease_id)
  else s.put i { e with is_leader := false, doing := .idle }

def refreshLease (s : Election ι) (i : ι) (e : EtcdLeaderElector) : Election ι :=
  if e.lease_id < 0 then s.becomeFollower i e
  else s.post i { e with doing := .refreshing } (.keepalive e.lease_id)

def electionTick (s : Election ι) (i : ι) (e : EtcdLeaderElector) : Election ι :=
  if e.is_leader then s.refreshLease i e
  else s.post i { e with doing := .granting } .leaseGrant

/-- What follows a `curl_post`; the answer is `none` where there is none to be read. -/
def resume (s : Election ι) (i : ι) (e : EtcdLeaderElector) (answer : Option ElectionAnswer) :
    Election ι :=
  match e.doing with
  | .granting =>
    match answer with
    | some (.granted lease) => s.post i { e with doing := .competing lease } (.txn lease)
    | _ => s.put i { e with doing := .idle }
  | .competing lease =>
    if answer = some (.txn true) then
      s.put i { e with is_leader := true, lease_id := lease, doing := .idle }
    else s.post i { e with doing := .givingUp lease } (.revoke lease)
  | .givingUp _ => s.put i { e with doing := .idle }
  | .refreshing =>
    if answer = some (.keepalive true) then s.put i { e with doing := .idle }
    else s.becomeFollower i e
  | .steppingDown => s.put i { e with is_leader := false, lease_id := -1, doing := .idle }
  | .idle | .sweeping => s

end Election

def electionStep (instance_id : ι → Bytes) (s : Election ι) : ElectionAct ι → Option (Election ι)
  | .electionTick i =>
    if (s.electors i).doing = .idle then some (s.electionTick i (s.electors i)) else none
  | .execute i call request =>
    if (i, call, request) ∈ s.requests then
      let (answer, etcd) := s.etcd.serveElection (instance_id i) request
      some
        { s with
          etcd
          requests := s.requests.erase (i, call, request)
          answers := (i, call, request, answer) :: s.answers }
    else none
  | .answer i answer =>
    match (s.electors i).request with
    | none => none
    | some request =>
      if (i, (s.electors i).calls, request, answer) ∈ s.answers then
        some (s.resume i (s.electors i) (some answer))
      else none
  | .fail i =>
    if (s.electors i).request.isSome then some (s.resume i (s.electors i) none) else none
  | .expire lease => some { s with etcd := s.etcd.expire lease }
  | .sweepAndNotify i =>
    if (s.electors i).doing = .idle ∧ (s.electors i).is_leader = true then
      some (s.put i { s.electors i with doing := .sweeping })
    else none
  | .sweepDone i =>
    if (s.electors i).doing = .sweeping then some (s.put i { s.electors i with doing := .idle })
    else none

/-- No two instances are leader, and no two sweep. -/
structure AtMostOne (s : Election ι) : Prop where
  leader : ∀ i j, (s.electors i).is_leader = true → (s.electors j).is_leader = true → i = j
  sweeping : ∀ i j, (s.electors i).doing = .sweeping → (s.electors j).doing = .sweeping → i = j

/-- An instance that takes the success of its CAS while another is leader: the leases
of both still live in etcd. -/
def LeasesLive (s : Election ι) : ElectionAct ι → Prop
  | .answer i (.txn true) => ∀ lease, (s.electors i).doing = .competing lease →
      (i, (s.electors i).calls, .txn lease, .txn true) ∈ s.answers →
        ∀ j, (s.electors j).is_leader = true →
          lease ∈ s.etcd.leases ∧ (s.electors j).lease_id ∈ s.etcd.leases
  | _ => True

/-- While the lease lives, the key is bound to it. -/
def Won (etcd : Etcd) (lease : Int) : Prop :=
  lease ∈ etcd.leases → (etcd.kvs.lookup leaderKey).map (·.2) = some lease

/-- The lease is one that was granted to the instance. -/
inductive Uses (s : Election ι) (i : ι) : Int → Prop where
  | leader : (s.electors i).is_leader = true → Uses s i (s.electors i).lease_id
  | competing {lease : Int} : (s.electors i).doing = .competing lease → Uses s i lease
  | granted {n : Nat} {request : ElectionRequest} {lease : Int} :
      (i, n, request, .granted lease) ∈ s.answers → Uses s i lease
  | asked {n : Nat} {lease : Int} : (i, n, .txn lease) ∈ s.requests → Uses s i lease
  | answered {n : Nat} {lease : Int} {answer : ElectionAnswer} :
      (i, n, .txn lease, answer) ∈ s.answers → Uses s i lease

/-- An elector's flag goes with where it is. -/
structure EtcdLeaderElector.Settled (e : EtcdLeaderElector) : Prop where
  follower : e.doing = .granting ∨ (∃ lease, e.doing = .competing lease) ∨
    (∃ lease, e.doing = .givingUp lease) → e.is_leader = false
  sweeping : e.doing = .sweeping → e.is_leader = true

structure ElectionInv (s : Election ι) : Prop where
  bounded : ∀ i lease, Uses s i lease → lease ≤ s.etcd.granted
  owned : ∀ i j lease, Uses s i lease → Uses s j lease → i = j
  flagged : ∀ i, (s.electors i).is_leader = true → Won s.etcd (s.electors i).lease_id
  succeeded : ∀ i n lease, (i, n, .txn lease, .txn true) ∈ s.answers → Won s.etcd lease
  settled : ∀ i, (s.electors i).Settled

variable {s t : Election ι} {i : ι} {e : EtcdLeaderElector}

/-- An instance goes on by itself: it sends at most one request, for a lease of its own. -/
theorem ElectionInv.local (h : ElectionInv s)
    (helectors : t.electors = Function.update s.electors i e) (hetcd : t.etcd = s.etcd)
    (hanswers : t.answers = s.answers)
    (hrequests : ∀ j n lease, (j, n, .txn lease) ∈ t.requests →
      (j, n, .txn lease) ∈ s.requests ∨ (j = i ∧ Uses s i lease))
    (hflag : e.is_leader = true → Uses s i e.lease_id ∧ Won s.etcd e.lease_id)
    (hdoing : ∀ lease, e.doing = .competing lease → Uses s i lease) (hsettled : e.Settled) :
    ElectionInv t := by
  have hself : t.electors i = e := by rw [helectors, Function.update_self]
  have hother : ∀ j, j ≠ i → t.electors j = s.electors j := by
    intro j hj
    rw [helectors, Function.update_of_ne hj]
  have huses : ∀ j lease, Uses t j lease → Uses s j lease := by
    intro j lease hj
    cases hj with
    | leader hleader =>
        by_cases hji : j = i
        · subst hji
          rw [hself] at hleader ⊢
          exact (hflag hleader).1
        · rw [hother j hji] at hleader ⊢
          exact .leader hleader
    | competing hcompeting =>
        by_cases hji : j = i
        · subst hji
          rw [hself] at hcompeting
          exact hdoing lease hcompeting
        · rw [hother j hji] at hcompeting
          exact .competing hcompeting
    | granted hmem => exact .granted (hanswers ▸ hmem)
    | asked hmem =>
        obtain hold | ⟨rfl, hnew⟩ := hrequests j _ lease hmem
        · exact .asked hold
        · exact hnew
    | answered hmem => exact .answered (hanswers ▸ hmem)
  refine ⟨fun j lease hj => hetcd ▸ h.bounded j lease (huses j lease hj),
    fun j k lease hj hk => h.owned j k lease (huses j lease hj) (huses k lease hk),
    fun j hj => ?_, fun j n lease hmem => ?_, fun j => ?_⟩
  · rw [hetcd]
    by_cases hji : j = i
    · subst hji
      rw [hself] at hj ⊢
      exact (hflag hj).2
    · rw [hother j hji] at hj ⊢
      exact h.flagged j hj
  · rw [hanswers] at hmem
    exact hetcd ▸ h.succeeded j n lease hmem
  · by_cases hji : j = i
    · subst hji
      exact hself ▸ hsettled
    · exact hother j hji ▸ h.settled j

theorem ElectionInv.put (h : ElectionInv s)
    (hflag : e.is_leader = true → Uses s i e.lease_id ∧ Won s.etcd e.lease_id)
    (hdoing : ∀ lease, e.doing = .competing lease → Uses s i lease) (hsettled : e.Settled) :
    ElectionInv (s.put i e) :=
  h.local rfl rfl rfl (fun _ _ _ hmem => .inl hmem) hflag hdoing hsettled

theorem ElectionInv.post (h : ElectionInv s) {request : ElectionRequest}
    (hrequest : ∀ lease, request = .txn lease → Uses s i lease)
    (hflag : e.is_leader = true → Uses s i e.lease_id ∧ Won s.etcd e.lease_id)
    (hdoing : ∀ lease, e.doing = .competing lease → Uses s i lease) (hsettled : e.Settled) :
    ElectionInv (s.post i e request) := by
  refine h.local (e := { e with calls := e.calls + 1 }) rfl rfl rfl (fun j n lease hmem => ?_) hflag
    hdoing ⟨hsettled.follower, hsettled.sweeping⟩
  cases List.mem_cons.mp hmem with
  | inl heq =>
      obtain ⟨rfl, hrest⟩ := Prod.mk.inj heq
      exact .inr ⟨rfl, hrequest lease (Prod.mk.inj hrest).2.symm⟩
  | inr hold => exact .inl hold

omit [DecidableEq ι] in
/-- The elector of `s` with its flag as it was. -/
theorem ElectionInv.flag (h : ElectionInv s) (hleader : (s.electors i).is_leader = true) :
    Uses s i (s.electors i).lease_id ∧ Won s.etcd (s.electors i).lease_id :=
  ⟨.leader hleader, h.flagged i hleader⟩

theorem ElectionInv.becomeFollower (h : ElectionInv s) :
    ElectionInv (s.becomeFollower i (s.electors i)) := by
  unfold Election.becomeFollower
  split
  · exact h.post (fun _ hrequest => nomatch hrequest) h.flag (fun _ hdoing => nomatch hdoing)
      ⟨fun hdoing => by simp at hdoing, fun hdoing => nomatch hdoing⟩
  · exact h.put (fun hleader => nomatch hleader) (fun _ hdoing => nomatch hdoing)
      ⟨fun _ => rfl, fun hdoing => nomatch hdoing⟩

theorem ElectionInv.electionTick (h : ElectionInv s) :
    ElectionInv (s.electionTick i (s.electors i)) := by
  unfold Election.electionTick Election.refreshLease
  split
  · split
    · exact h.becomeFollower
    · exact h.post (fun _ hrequest => nomatch hrequest) h.flag (fun _ hdoing => nomatch hdoing)
        ⟨fun hdoing => by simp at hdoing, fun hdoing => nomatch hdoing⟩
  · rename_i hfollower
    exact h.post (fun _ hrequest => nomatch hrequest) h.flag (fun _ hdoing => nomatch hdoing)
      ⟨fun _ => eq_false_of_ne_true hfollower, fun hdoing => nomatch hdoing⟩

theorem ElectionInv.resume (h : ElectionInv s) {answer : Option ElectionAnswer}
    (hanswer : ∀ a, answer = some a → ∃ request, (s.electors i).request = some request ∧
      (i, (s.electors i).calls, request, a) ∈ s.answers) :
    ElectionInv (s.resume i (s.electors i) answer) := by
  have hidle : ∀ b, (b = true → (s.electors i).is_leader = true) →
      ElectionInv (s.put i { s.electors i with is_leader := b, doing := .idle }) := by
    intro b hb
    exact h.put (fun hleader => h.flag (hb hleader)) (fun _ hdoing => nomatch hdoing)
      ⟨fun hdoing => by simp at hdoing, fun hdoing => nomatch hdoing⟩
  unfold Election.resume
  cases hdoing : (s.electors i).doing with
  | granting =>
      have hfollower := (h.settled i).follower (.inl hdoing)
      dsimp only
      split
      · rename_i lease
        obtain ⟨request, _, hmem⟩ := hanswer _ rfl
        exact h.post (fun _ heq => ElectionRequest.txn.inj heq ▸ .granted hmem) h.flag
          (fun _ heq => ElectionPhase.competing.inj heq ▸ .granted hmem)
          ⟨fun _ => hfollower, fun heq => nomatch heq⟩
      · exact hidle _ id
  | competing lease =>
      have hfollower := (h.settled i).follower (.inr (.inl ⟨lease, hdoing⟩))
      dsimp only
      split
      · rename_i hsucceeded
        obtain ⟨request, hrequest, hmem⟩ := hanswer _ hsucceeded
        have htxn : request = .txn lease := by
          rw [EtcdLeaderElector.request, hdoing] at hrequest
          exact (Option.some.inj hrequest).symm
        subst htxn
        exact h.put (fun _ => ⟨.competing hdoing, h.succeeded i _ lease hmem⟩)
          (fun _ heq => nomatch heq) ⟨fun heq => by simp at heq, fun heq => nomatch heq⟩
      · exact h.post (fun _ heq => nomatch heq) h.flag (fun _ heq => nomatch heq)
          ⟨fun _ => hfollower, fun heq => nomatch heq⟩
  | givingUp lease => exact hidle _ id
  | refreshing =>
      dsimp only
      split
      · exact hidle _ id
      · exact h.becomeFollower
  | steppingDown =>
      exact h.put (fun hleader => nomatch hleader) (fun _ heq => nomatch heq)
        ⟨fun _ => rfl, fun heq => nomatch heq⟩
  | idle => exact h
  | sweeping => exact h

/-! What etcd does to the leases and the key. -/

section Etcd
variable {etcd : Etcd} {lease lease' : Int}

theorem Won.expire (h : Won etcd lease) : Won (etcd.expire lease') lease := by
  intro hlive
  obtain ⟨hlive, hne⟩ := List.mem_filter.mp hlive
  have hbound := h hlive
  rw [EtcdRegistryStore.lookup_expire, if_neg]
  · exact hbound
  · rw [hbound, Option.some.injEq]
    exact of_decide_eq_true hne

theorem Won.leaseGrant (h : Won etcd lease) (hold : lease ≤ etcd.granted) :
    Won etcd.leaseGrant.2 lease := by
  intro hlive
  cases List.mem_cons.mp hlive with
  | inl heq =>
      have : lease = etcd.granted + 1 := heq
      omega
  | inr hlive => exact h hlive

theorem createIfAbsent_spec (etcd : Etcd) (key value : Bytes) (lease : Int) :
    ((etcd.createIfAbsent key value lease).1 = true ∧ etcd.kvs.lookup key = none ∧
        (etcd.createIfAbsent key value lease).2.kvs.lookup key = some (value, lease) ∧
        (etcd.createIfAbsent key value lease).2.leases = etcd.leases) ∨
      ((etcd.createIfAbsent key value lease).1 = false ∧
        (etcd.createIfAbsent key value lease).2 = etcd) := by
  unfold Etcd.createIfAbsent
  split
  · rename_i habsent
    exact .inl ⟨rfl, Option.isNone_iff_eq_none.mp habsent.1, AList.lookup_insert _, rfl⟩
  · exact .inr ⟨rfl, rfl⟩

/-- The CAS takes the key from nobody whose lease lives. -/
theorem Won.createIfAbsent (h : Won etcd lease) (value : Bytes) (lease' : Int) :
    Won (etcd.createIfAbsent leaderKey value lease').2 lease := by
  obtain ⟨_, habsent, _, hleases⟩ | ⟨_, hsame⟩ := createIfAbsent_spec etcd leaderKey value lease'
  · intro hlive
    rw [hleases] at hlive
    have hbound := h hlive
    rw [habsent] at hbound
    cases hbound
  · rwa [hsame]

end Etcd

/-- Etcd executes a request: what it answers is of the instance that asked. -/
theorem ElectionInv.served (h : ElectionInv s) {n : Nat} {request : ElectionRequest}
    {a : ElectionAnswer} {etcd : Etcd} (hsent : (i, n, request) ∈ s.requests)
    (hgranted : s.etcd.granted ≤ etcd.granted)
    (hwon : ∀ j lease, Uses s j lease → Won s.etcd lease → Won etcd lease)
    (hgrant : ∀ lease : Int, a = .granted lease → s.etcd.granted < lease ∧ lease ≤ etcd.granted)
    (htxn : ∀ lease, request = .txn lease → a = .txn true → Won etcd lease) :
    ElectionInv { s with
      etcd
      requests := s.requests.erase (i, n, request)
      answers := (i, n, request, a) :: s.answers } := by
  have huses : ∀ j (lease : Int), Uses { s with
        etcd
        requests := s.requests.erase (i, n, request)
        answers := (i, n, request, a) :: s.answers } j lease →
      Uses s j lease ∨ (j = i ∧ s.etcd.granted < lease ∧ lease ≤ etcd.granted) := by
    intro j lease hj
    cases hj with
    | leader hleader => exact .inl (.leader hleader)
    | competing hcompeting => exact .inl (.competing hcompeting)
    | granted hmem =>
        cases List.mem_cons.mp hmem with
        | inl heq =>
            simp only [Prod.mk.injEq] at heq
            exact .inr ⟨heq.1, hgrant lease heq.2.2.2.symm⟩
        | inr hold => exact .inl (.granted hold)
    | asked hmem => exact .inl (.asked (List.mem_of_mem_erase hmem))
    | answered hmem =>
        cases List.mem_cons.mp hmem with
        | inl heq =>
            simp only [Prod.mk.injEq] at heq
            obtain ⟨rfl, rfl, rfl, _⟩ := heq
            exact .inl (.asked hsent)
        | inr hold => exact .inl (.answered hold)
  refine ⟨fun j lease hj => ?_, fun j k lease hj hk => ?_,
    fun j hj => hwon j _ (.leader hj) (h.flagged j hj), fun j m lease hmem => ?_, h.settled⟩
  · obtain hold | hnew := huses j lease hj
    · exact le_trans (h.bounded j lease hold) (by exact_mod_cast hgranted)
    · exact hnew.2.2
  · obtain hold | ⟨hji, hlt, _⟩ := huses j lease hj
    · obtain hold' | ⟨_, hlt, _⟩ := huses k lease hk
      · exact h.owned j k lease hold hold'
      · exact absurd (h.bounded j lease hold) (by omega)
    · obtain hold' | ⟨hki, _⟩ := huses k lease hk
      · exact absurd (h.bounded k lease hold') (by omega)
      · exact hji.trans hki.symm
  · cases List.mem_cons.mp hmem with
    | inl heq =>
        simp only [Prod.mk.injEq] at heq
        exact htxn lease heq.2.2.1.symm heq.2.2.2.symm
    | inr hold => exact hwon j lease (.answered hold) (h.succeeded j m lease hold)

theorem ElectionInv.execute (h : ElectionInv s) {n : Nat} {request : ElectionRequest}
    {instance_id : ι → Bytes}
    (ht : electionStep instance_id s (.execute i n request) = some t) : ElectionInv t := by
  simp only [electionStep] at ht
  split at ht
  · rename_i hsent
    obtain rfl := Option.some.inj ht
    cases request with
    | leaseGrant =>
        refine h.served hsent (Nat.le_succ _)
          (fun j lease hj hwon => hwon.leaseGrant (h.bounded j lease hj)) (fun lease heq => ?_)
          (fun _ heq => nomatch heq)
        obtain rfl := ElectionAnswer.granted.inj heq
        refine ⟨?_, le_refl _⟩
        show (s.etcd.granted : Int) < s.etcd.granted + 1
        omega
    | txn lease =>
        have hgranted : (s.etcd.createIfAbsent leaderKey (instance_id i) lease).2.granted =
            s.etcd.granted := by
          unfold Etcd.createIfAbsent
          split <;> rfl
        refine h.served hsent hgranted.ge
          (fun _ _ _ hwon => hwon.createIfAbsent (instance_id i) lease) (fun _ heq => nomatch heq)
          (fun lease' heq hsucceeded _ => ?_)
        obtain rfl := ElectionRequest.txn.inj heq
        obtain ⟨_, _, hbound, _⟩ | ⟨hfailed, _⟩ :=
          createIfAbsent_spec s.etcd leaderKey (instance_id i) lease
        · exact congrArg (Option.map (·.2)) hbound
        · exact absurd (hfailed.symm.trans (ElectionAnswer.txn.inj hsucceeded)) (by decide)
    | keepalive lease =>
        exact h.served hsent (le_refl _) (fun _ _ _ hwon => hwon) (fun _ heq => nomatch heq)
          (fun _ heq => nomatch heq)
    | revoke lease =>
        exact h.served hsent (le_refl _) (fun _ _ _ hwon => hwon.expire) (fun _ heq => nomatch heq)
          (fun _ heq => nomatch heq)
  · cases ht

omit [DecidableEq ι] in
theorem ElectionInv.expire (h : ElectionInv s) (lease : Int) :
    ElectionInv { s with etcd := s.etcd.expire lease } := by
  have huses : ∀ j l, Uses { s with etcd := s.etcd.expire lease } j l → Uses s j l := by
    intro j l hj
    cases hj with
    | leader hleader => exact .leader hleader
    | competing hcompeting => exact .competing hcompeting
    | granted hmem => exact .granted hmem
    | asked hmem => exact .asked hmem
    | answered hmem => exact .answered hmem
  exact ⟨fun j l hj => h.bounded j l (huses j l hj),
    fun j k l hj hk => h.owned j k l (huses j l hj) (huses k l hk),
    fun j hj => (h.flagged j hj).expire, fun j n l hmem => (h.succeeded j n l hmem).expire,
    h.settled⟩

variable {instance_id : ι → Bytes} {a : ElectionAct ι}

/-- An answer that is read is one that etcd gave to the request the elector waits with. -/
theorem electionStep_answer {i : ι} {answer : ElectionAnswer}
    (ht : electionStep instance_id s (.answer i answer) = some t) :
    ∃ request, (s.electors i).request = some request ∧
      (i, (s.electors i).calls, request, answer) ∈ s.answers ∧
      t = s.resume i (s.electors i) (some answer) := by
  simp only [electionStep] at ht
  cases hrequest : (s.electors i).request with
  | none =>
      rw [hrequest] at ht
      cases ht
  | some request =>
      rw [hrequest] at ht
      dsimp only at ht
      split at ht
      · rename_i hmem
        exact ⟨request, rfl, hmem, (Option.some.inj ht).symm⟩
      · cases ht

theorem ElectionInv.step (h : ElectionInv s) (ht : electionStep instance_id s a = some t) :
    ElectionInv t := by
  cases a with
  | electionTick i =>
      simp only [electionStep] at ht
      split at ht
      · obtain rfl := Option.some.inj ht
        exact h.electionTick
      · cases ht
  | execute i call request => exact h.execute ht
  | answer i answer =>
      obtain ⟨request, hrequest, hmem, rfl⟩ := electionStep_answer ht
      exact h.resume (fun _ heq => Option.some.inj heq ▸ ⟨request, hrequest, hmem⟩)
  | fail i =>
      simp only [electionStep] at ht
      split at ht
      · obtain rfl := Option.some.inj ht
        exact h.resume (fun _ heq => nomatch heq)
      · cases ht
  | expire lease =>
      obtain rfl := Option.some.inj ht
      exact h.expire lease
  | sweepAndNotify i =>
      simp only [electionStep] at ht
      split at ht
      · rename_i hready
        obtain rfl := Option.some.inj ht
        exact h.put h.flag (fun _ heq => nomatch heq) ⟨fun heq => by simp at heq, fun _ => hready.2⟩
      · cases ht
  | sweepDone i =>
      simp only [electionStep] at ht
      split at ht
      · obtain rfl := Option.some.inj ht
        exact h.put h.flag (fun _ heq => nomatch heq)
          ⟨fun heq => by simp at heq, fun heq => nomatch heq⟩
      · cases ht

/-! Who becomes leader. -/

def KeepsLeaders (s t : Election ι) : Prop :=
  ∀ j, (t.electors j).is_leader = true → (s.electors j).is_leader = true

theorem keepsLeaders_put (h : e.is_leader = true → (s.electors i).is_leader = true) :
    KeepsLeaders s (s.put i e) := by
  intro j hj
  by_cases hji : j = i
  · subst hji
    have hself : (s.put j e).electors j = e := Function.update_self ..
    exact h (hself ▸ hj)
  · have hother : (s.put i e).electors j = s.electors j := Function.update_of_ne hji ..
    exact hother ▸ hj

theorem keepsLeaders_post {request : ElectionRequest}
    (h : e.is_leader = true → (s.electors i).is_leader = true) :
    KeepsLeaders s (s.post i e request) :=
  keepsLeaders_put (e := { e with calls := e.calls + 1 }) h

theorem keepsLeaders_becomeFollower : KeepsLeaders s (s.becomeFollower i (s.electors i)) := by
  unfold Election.becomeFollower
  split
  · exact keepsLeaders_post id
  · exact keepsLeaders_put (fun h => (Bool.false_ne_true h).elim)

theorem keepsLeaders_electionTick : KeepsLeaders s (s.electionTick i (s.electors i)) := by
  unfold Election.electionTick Election.refreshLease
  split
  · split
    · exact keepsLeaders_becomeFollower
    · exact keepsLeaders_post id
  · exact keepsLeaders_post id

/-- Only the success of a CAS makes a leader. -/
theorem keepsLeaders_resume {answer : Option ElectionAnswer} (hanswer : ∀ lease,
      (s.electors i).doing = .competing lease → answer ≠ some (.txn true)) :
    KeepsLeaders s (s.resume i (s.electors i) answer) := by
  unfold Election.resume
  cases hdoing : (s.electors i).doing with
  | granting =>
      dsimp only
      split
      · exact keepsLeaders_post id
      · exact keepsLeaders_put id
  | competing lease =>
      dsimp only
      rw [if_neg (hanswer lease hdoing)]
      exact keepsLeaders_post id
  | givingUp lease => exact keepsLeaders_put id
  | refreshing =>
      dsimp only
      split
      · exact keepsLeaders_put id
      · exact keepsLeaders_becomeFollower
  | steppingDown => exact keepsLeaders_put (fun h => (Bool.false_ne_true h).elim)
  | idle => exact fun _ hj => hj
  | sweeping => exact fun _ hj => hj

/-- The instance takes the success of its CAS. -/
def Elected (s : Election ι) (a : ElectionAct ι) (i : ι) (lease : Int) : Prop :=
  a = .answer i (.txn true) ∧ (s.electors i).doing = .competing lease ∧
    (i, (s.electors i).calls, .txn lease, .txn true) ∈ s.answers

omit [DecidableEq ι] in
theorem leasesLive_iff : LeasesLive s a ↔ ∀ i lease, Elected s a i lease → ∀ j,
    (s.electors j).is_leader = true →
      lease ∈ s.etcd.leases ∧ (s.electors j).lease_id ∈ s.etcd.leases := by
  unfold LeasesLive
  split
  · rename_i i
    constructor
    · rintro h i' lease ⟨ha, hdoing, hmem⟩
      obtain rfl := (ElectionAct.answer.inj ha).1
      exact h lease hdoing hmem
    · exact fun h lease hdoing hmem => h i lease ⟨rfl, hdoing, hmem⟩
  · rename_i hother
    exact iff_of_true trivial (fun i lease ha => absurd ha.1 (hother i))

theorem keepsLeaders_step (ht : electionStep instance_id s a = some t)
    (hnot : ∀ i lease, ¬ Elected s a i lease) : KeepsLeaders s t := by
  cases a with
  | electionTick i =>
      simp only [electionStep] at ht
      split at ht
      · obtain rfl := Option.some.inj ht
        exact keepsLeaders_electionTick
      · cases ht
  | execute i call request =>
      simp only [electionStep] at ht
      split at ht
      · obtain rfl := Option.some.inj ht
        exact fun _ hj => hj
      · cases ht
  | answer i answer =>
      obtain ⟨request, hrequest, hmem, rfl⟩ := electionStep_answer ht
      refine keepsLeaders_resume (fun lease hdoing heq => ?_)
      obtain rfl := Option.some.inj heq
      rw [EtcdLeaderElector.request, hdoing] at hrequest
      obtain rfl := Option.some.inj hrequest
      exact hnot i lease ⟨rfl, hdoing, hmem⟩
  | fail i =>
      simp only [electionStep] at ht
      split at ht
      · obtain rfl := Option.some.inj ht
        exact keepsLeaders_resume (fun _ _ heq => nomatch heq)
      · cases ht
  | expire lease =>
      obtain rfl := Option.some.inj ht
      exact fun _ hj => hj
  | sweepAndNotify i =>
      simp only [electionStep] at ht
      split at ht
      · obtain rfl := Option.some.inj ht
        exact keepsLeaders_put id
      · cases ht
  | sweepDone i =>
      simp only [electionStep] at ht
      split at ht
      · obtain rfl := Option.some.inj ht
        exact keepsLeaders_put id
      · cases ht

theorem leader_of_elected (instance_id : ι → Bytes) {lease : Int} (h : Elected s a i lease) :
    ∃ t, electionStep instance_id s a = some t ∧ ∀ j, (t.electors j).is_leader = true ↔
      (s.electors j).is_leader = true ∨ j = i := by
  obtain ⟨rfl, hdoing, hmem⟩ := h
  have hrequest : (s.electors i).request = some (.txn lease) := by
    rw [EtcdLeaderElector.request, hdoing]
  let e : EtcdLeaderElector :=
    { s.electors i with is_leader := true, lease_id := lease, doing := .idle }
  have hresume : s.resume i (s.electors i) (some (.txn true)) = s.put i e := by
    unfold Election.resume
    rw [hdoing]
    exact if_pos rfl
  refine ⟨s.put i e, ?_, fun j => ?_⟩
  · simp only [electionStep, hrequest, ← hresume]
    exact if_pos hmem
  · by_cases hji : j = i
    · subst hji
      have hself : (s.put j e).electors j = e := Function.update_self ..
      rw [hself]
      exact iff_of_true rfl (.inr rfl)
    · have hother : (s.put i e).electors j = s.electors j := Function.update_of_ne hji ..
      rw [hother]
      exact (or_iff_left hji).symm

omit [DecidableEq ι] in
theorem ElectionInv.atMostOne (h : ElectionInv s) (hleader : ∀ i j,
    (s.electors i).is_leader = true → (s.electors j).is_leader = true → i = j) : AtMostOne s :=
  ⟨hleader, fun i j hi hj => hleader i j ((h.settled i).sweeping hi) ((h.settled j).sweeping hj)⟩

omit [DecidableEq ι] in
/-- A leader whose lease lives holds the key; so does the instance that is elected. -/
theorem ElectionInv.elected_alone (h : ElectionInv s) {lease : Int} (helected : Elected s a i lease)
    {j : ι} (hj : (s.electors j).is_leader = true) (hlive : lease ∈ s.etcd.leases)
    (hlive' : (s.electors j).lease_id ∈ s.etcd.leases) : j = i := by
  have hbound := h.succeeded i _ lease helected.2.2 hlive
  have hbound' := h.flagged j hj hlive'
  have heq : (s.electors j).lease_id = lease := Option.some.inj (hbound'.symm.trans hbound)
  exact h.owned j i lease (heq ▸ .leader hj) (.competing helected.2.1)

theorem leasesLive_iff_atMostOne (h : ElectionInv s) (hone : AtMostOne s) (a : ElectionAct ι) :
    LeasesLive s a ↔ ∀ t, electionStep instance_id s a = some t → AtMostOne t := by
  rw [leasesLive_iff]
  constructor
  · intro hlive t ht
    refine (h.step ht).atMostOne (fun j k hj hk => ?_)
    by_cases helected : ∃ i lease, Elected s a i lease
    · obtain ⟨i, lease, helected⟩ := helected
      obtain ⟨u, hu, hleaders⟩ := leader_of_elected instance_id helected
      obtain rfl := Option.some.inj (hu.symm.trans ht)
      have hself : ∀ j, (u.electors j).is_leader = true → j = i := by
        intro j hj
        refine ((hleaders j).mp hj).elim (fun hj => ?_) id
        obtain ⟨hlease, hother⟩ := hlive i lease helected j hj
        exact h.elected_alone helected hj hlease hother
      exact (hself j hj).trans (hself k hk).symm
    · have hkeeps := keepsLeaders_step ht (fun i lease h => helected ⟨i, lease, h⟩)
      exact hone.leader j k (hkeeps j hj) (hkeeps k hk)
  · intro hall i lease helected j hj
    obtain ⟨u, hu, hleaders⟩ := leader_of_elected instance_id helected
    have hij : i = j := (hall u hu).leader i j ((hleaders i).mpr (.inr rfl))
      ((hleaders j).mpr (.inl hj))
    have hfollower := (h.settled i).follower (.inr (.inl ⟨lease, helected.2.1⟩))
    rw [← hij, hfollower] at hj
    cases hj

omit [DecidableEq ι] in
theorem electionInv_initial : ElectionInv ({} : Election ι) := by
  have hnone : ∀ i lease, ¬ Uses ({} : Election ι) i lease := by
    intro i lease h
    cases h with
    | leader h => cases h
    | competing h => cases h
    | granted h => cases h
    | asked h => cases h
    | answered h => cases h
  exact ⟨fun i lease h => (hnone i lease h).elim, fun i _ lease h => (hnone i lease h).elim,
    fun _ h => (nomatch h), fun _ _ _ h => (List.not_mem_nil h).elim,
    fun _ => ⟨fun _ => rfl, fun h => (nomatch h)⟩⟩

/-- In every run: there is never more than one leader, and never more than one sweep, if
and only if whoever is elected, and whoever is leader then, has a lease that lives. -/
theorem one_leader_iff (instance_id : ι → Bytes) (acts : List (ElectionAct ι)) :
    Along (electionStep instance_id) LeasesLive {} acts ↔
      Along (electionStep instance_id)
        (fun s a => ∀ t, electionStep instance_id s a = some t → AtMostOne t) {} acts := by
  have hinitial : AtMostOne ({} : Election ι) :=
    electionInv_initial.atMostOne (fun _ _ h => nomatch h)
  refine Along.congr_of (fun s => ElectionInv s ∧ AtMostOne s) (fun s a t h hlive ht => ?_)
    (fun s a h => leasesLive_iff_atMostOne h.1 h.2 a) ⟨electionInv_initial, hinitial⟩
  exact ⟨h.1.step ht, (leasesLive_iff_atMostOne h.1 h.2 a).mp hlive t ht⟩

end Election

/-- An instance becomes leader. -/
def candidacy (i call : Nat) (lease : Int) : List (ElectionAct Nat) :=
  [.electionTick i, .execute i call .leaseGrant, .answer i (.granted lease),
   .execute i (call + 1) (.txn lease), .answer i (.txn true)]

/-- The leader is paused until its lease has run out, and another instance is elected. -/
theorem two_leaders :
    ¬ ∀ acts : List (ElectionAct Nat), Along (electionStep (fun _ => []))
      (fun s a => ∀ t, electionStep (fun _ => []) s a = some t → AtMostOne t) {} acts := by
  intro h
  obtain ⟨s, hs, hlast⟩ := Option.bind_eq_some_iff.mp
    (show (exec (electionStep (fun _ => [])) ({} : Election Nat)
        (candidacy 0 1 1 ++ .expire 1 :: (candidacy 1 1 2).dropLast)).bind (fun s =>
      (electionStep (fun _ => []) s (.answer 1 (.txn true))).map (fun t =>
        ((t.electors 0).is_leader, (t.electors 1).is_leader))) = some (true, true) by
      decide +kernel)
  obtain ⟨t, ht, hview⟩ := Option.map_eq_some_iff.mp hlast
  obtain ⟨hzero, hone⟩ := Prod.mk.inj hview
  cases ((h (_ ++ [.answer 1 (.txn true)])).last hs t ht).leader 0 1 hzero hone

end LyqtRpc
