import LyqtRpc.DiscoverCache

/-!
Agreement of the client's cached hosts with the registry's. A client that
handled every message on its way, and installed responses at once, would end up
with the registry's hosts; orderly steps leave what it would end up with alone.
-/

set_option autoImplicit false

namespace LyqtRpc

open StepRun WriterLog

/-- What an entry made of these hosts says about `x`; no entry is made of none. -/
def heldView (x : HostInfo) (hosts : List HostInfo) : Option Bool :=
  if hosts = [] then none else some (decide (x ∈ hosts))

/-- What the cache says about `x` after a message; `none`: there is no entry. -/
def clientView (x : HostInfo) : Option Bool → ServiceMsg → Option Bool
  | none, .ONLINE host => some (decide (x = host))
  | some b, .ONLINE host => some (b || decide (x = host))
  | none, .OFFLINE _ => none
  | some b, .OFFLINE host => some (b && decide (x ≠ host))
  | none, .response details => heldView x (hostsOf details)
  | some b, .response _ => some b

def DiscoverState.view (s : DiscoverState) (x : HostInfo) : Option Bool :=
  match s.cache, s.inHand with
  | some m, _ => some (decide (x ∈ m.hosts))
  | none, some hosts => heldView x hosts
  | none, none => none

/-- Messages on their way, in the order in which they will be delivered. -/
def DiscoverState.messages (s : DiscoverState) : List ServiceMsg :=
  s.channel ++ s.pending.map (·.2)

def Agreed (s : DiscoverState) : Prop :=
  ∀ x, (s.messages.foldl (clientView x) (s.view x)).getD false = decide (x ∈ hostsOf s.providers)

/-- No DISCOVER request was served. -/
structure Unknown (s : DiscoverState) : Prop where
  discoverer : s.discoverer = false
  answering : s.answering = false
  cache : s.cache = none
  inHand : s.inHand = none
  channel : s.channel = []
  pending : ∀ e ∈ s.pending, e.2.isResponse = false

/-- The first DISCOVER request is being served: all the client can hear of by
now is hosts that went offline, and it has none. -/
structure Blank (s : DiscoverState) : Prop where
  discoverer : s.discoverer = true
  answering : s.answering = true
  cache : s.cache = none
  inHand : s.inHand = none
  offline : ∀ m ∈ s.messages, ∃ host, m = .OFFLINE host

def responses (messages : List ServiceMsg) : Nat := messages.countP (·.isResponse)

/-- The user thread waits for one answer, or for none. -/
def DiscoverPc.owed : DiscoverPc → Nat
  | .waiting => 1
  | _ => 0

/-- The sweep thread only takes hosts offline. -/
def SweepsOffline (pending : List (RegistryThread × ServiceMsg)) : Prop :=
  ∀ e ∈ pending, e.1 = .sweep → ∃ host, e.2 = .OFFLINE host

structure DiscoverInv (s : DiscoverState) : Prop where
  sweeps : SweepsOffline s.pending
  built : ∀ m, s.user = .built m → m.hosts ≠ []
  outstanding : s.request.toNat + s.answering.toNat + responses s.messages = s.user.owed
  phase : Unknown s ∨ Blank s ∨ (s.discoverer = true ∧ Agreed s)

@[simp] theorem heldView_getD (x : HostInfo) (hosts : List HostInfo) :
    (heldView x hosts).getD false = decide (x ∈ hosts) := by
  unfold heldView
  split
  · simp_all
  · rfl

theorem heldView_congr {x : HostInfo} {hosts hosts' : List HostInfo}
    (h : ∀ y, y ∈ hosts ↔ y ∈ hosts') : heldView x hosts = heldView x hosts' := by
  have hnil : hosts = [] ↔ hosts' = [] := by
    simp only [List.eq_nil_iff_forall_not_mem, h]
  simp only [heldView, hnil, h]

theorem heldView_online {x host : HostInfo} {hosts : List HostInfo}
    (h : ∀ y ∈ hosts, y = host) :
    clientView x (heldView x hosts) (.ONLINE host) = some (decide (x = host)) := by
  by_cases hnil : hosts = []
  · simp only [heldView, if_pos hnil, clientView]
  · simp only [heldView, if_neg hnil, clientView, Option.some.injEq]
    by_cases hx : x = host
    · simp [hx]
    · have hnot : x ∉ hosts := fun hmem => hx (h x hmem)
      simp [hx, hnot]

theorem heldView_offline {x host : HostInfo} {hosts : List HostInfo} (h : host ∉ hosts) :
    clientView x (heldView x hosts) (.OFFLINE host) = heldView x hosts := by
  by_cases hnil : hosts = []
  · simp only [heldView, if_pos hnil, clientView]
  · simp only [heldView, if_neg hnil, clientView, Option.some.injEq]
    by_cases hx : x = host
    · simp [hx, h]
    · simp [hx]

theorem clientView_online (x host : HostInfo) (v : Option Bool) :
    (clientView x v (.ONLINE host)).getD false = (v.getD false || decide (x = host)) := by
  cases v <;> simp [clientView]

theorem clientView_offline (x host : HostInfo) (v : Option Bool) :
    (clientView x v (.OFFLINE host)).getD false = (v.getD false && decide (x ≠ host)) := by
  cases v <;> simp [clientView]

theorem clientView_isSome {x : HostInfo} {v : Option Bool} (m : ServiceMsg)
    (h : v.isSome = true) : (clientView x v m).isSome = true := by
  cases v with
  | none => cases h
  | some b => cases m <;> rfl

theorem foldl_isSome {x : HostInfo} {v : Option Bool} (messages : List ServiceMsg)
    (h : v.isSome = true) : (messages.foldl (clientView x) v).isSome = true := by
  induction messages generalizing v with
  | nil => exact h
  | cons m messages ih => exact ih (clientView_isSome m h)

/-- An `OFFLINE` may change places with a message it neither contradicts nor
outdates; an installed entry is not outdated by anything. -/
theorem clientView_commutes {x host : HostInfo} {v : Option Bool} {m : ServiceMsg}
    (hopposes : m.opposes (.OFFLINE host) = false)
    (houtdates : v.isSome = false → m.outdates (.OFFLINE host) = false) :
    CommutesAt (clientView x) v m (.OFFLINE host) := by
  cases m with
  | ONLINE host' =>
      have hne : host' ≠ host := by simpa [ServiceMsg.opposes] using hopposes
      cases v with
      | none =>
          simp only [CommutesAt, clientView, Option.some.injEq]
          by_cases hx : x = host' <;> simp [hx, hne]
      | some b =>
          simp only [CommutesAt, clientView, Option.some.injEq]
          by_cases hx : x = host' <;> simp [hx, hne]
  | OFFLINE host' => cases v <;> simp [CommutesAt, clientView, Bool.and_right_comm]
  | response details =>
      cases v with
      | some b => rfl
      | none =>
          have hnot : host ∉ hostsOf details := by
            simpa [ServiceMsg.outdates] using houtdates rfl
          exact heldView_offline hnot

theorem foldl_offline (x : HostInfo) (t : RegistryThread) (offline : List HostInfo)
    (v : Option Bool) :
    (((offlineNotify t offline).map (·.2)).foldl (clientView x) v).getD false =
      (v.getD false && decide (x ∉ offline)) := by
  induction offline generalizing v with
  | nil => simp [offlineNotify]
  | cons host offline ih =>
      simp only [offlineNotify, List.map_cons, List.foldl_cons] at ih ⊢
      rw [ih, clientView_offline, Bool.and_assoc]
      simp

theorem foldl_none_of_offline (x : HostInfo) {messages : List ServiceMsg}
    (h : ∀ m ∈ messages, ∃ host, m = .OFFLINE host) :
    messages.foldl (clientView x) none = none := by
  induction messages with
  | nil => rfl
  | cons m messages ih =>
      obtain ⟨host, rfl⟩ := h m List.mem_cons_self
      exact ih (fun m' hm' => h m' (List.mem_cons_of_mem _ hm'))

@[simp] theorem mem_removeProviders {providers : List HostDetail} {offline : List HostInfo}
    {x : HostInfo} :
    x ∈ hostsOf (removeProviders providers offline) ↔ x ∈ hostsOf providers ∧ x ∉ offline := by
  simp only [hostsOf, removeProviders, List.mem_map, List.mem_filter, decide_eq_true_eq]
  constructor
  · rintro ⟨detail, ⟨hmem, hnot⟩, rfl⟩
    exact ⟨⟨detail, hmem, rfl⟩, hnot⟩
  · rintro ⟨⟨detail, hmem, rfl⟩, hnot⟩
    exact ⟨detail, ⟨hmem, hnot⟩, rfl⟩

theorem ioFree_iff {s : DiscoverState} :
    s.ioFree = true ↔ s.answering = false ∧ ∀ e ∈ s.pending, e.1 ≠ .io := by
  simp [DiscoverState.ioFree, DiscoverState.quiet]

theorem orderlySend_spec {s : DiscoverState} {t : RegistryThread} {m : ServiceMsg}
    {ahead rest : List (RegistryThread × ServiceMsg)} (hok : orderlySend s t = true)
    (htake : takeFirst t s.pending = some (ahead, m, rest)) (hdisc : s.discoverer = true) :
    ∀ e ∈ ahead, e.2.opposes m = false ∧ (s.cache.isSome = false → e.2.outdates m = false) := by
  simp only [orderlySend, htake, hdisc, Bool.not_true, Bool.false_or, List.all_eq_true,
    Bool.and_eq_true, Bool.or_eq_true, Bool.not_eq_true'] at hok
  intro e he
  refine ⟨(hok e he).1, fun hcache => ?_⟩
  rcases (hok e he).2 with hsome | hnot
  · rw [hcache] at hsome
    cases hsome
  · exact hnot

theorem view_isSome {s : DiscoverState} {x : HostInfo} (h : s.cache.isSome = true) :
    (s.view x).isSome = true := by
  obtain ⟨m, hm⟩ := Option.isSome_iff_exists.mp h
  simp [DiscoverState.view, hm]

theorem ServiceMsg.opposes_comm (m m' : ServiceMsg) : m.opposes m' = m'.opposes m := by
  cases m <;> cases m' <;> simp [ServiceMsg.opposes, eq_comm]

theorem ServiceMsg.outdates_comm (m m' : ServiceMsg) : m.outdates m' = m'.outdates m := by
  cases m <;> cases m' <;> rfl

/-- One of two entries of different threads is an `OFFLINE` of the sweep thread. -/
theorem commutes_of_threads {s : DiscoverState} {t t' : RegistryThread} {m m' : ServiceMsg}
    {x : HostInfo} {v : Option Bool}
    (hsweeps : SweepsOffline s.pending)
    (hm : (t, m) ∈ s.pending) (hm' : (t', m') ∈ s.pending) (hne : t' ≠ t)
    (hopposes : m'.opposes m = false)
    (houtdates : v.isSome = false → m'.outdates m = false) :
    CommutesAt (clientView x) v m' m := by
  cases t with
  | sweep =>
      obtain ⟨host, rfl⟩ := hsweeps _ hm rfl
      exact clientView_commutes hopposes houtdates
  | io =>
      have ht' : t' = .sweep := by
        cases t' with
        | io => exact absurd rfl hne
        | sweep => rfl
      subst ht'
      obtain ⟨host, rfl⟩ := hsweeps _ hm' rfl
      rw [ServiceMsg.opposes_comm] at hopposes
      rw [ServiceMsg.outdates_comm] at houtdates
      exact (clientView_commutes hopposes houtdates).symm

theorem send_view {s : DiscoverState} {t : RegistryThread} {m : ServiceMsg}
    {ahead rest : List (RegistryThread × ServiceMsg)}
    (hsweeps : SweepsOffline s.pending)
    (hok : orderlySend s t = true) (htake : takeFirst t s.pending = some (ahead, m, rest))
    (hdisc : s.discoverer = true) (x : HostInfo) :
    (s.channel ++ [m] ++ rest.map (·.2)).foldl (clientView x) (s.view x) =
      s.messages.foldl (clientView x) (s.view x) := by
  obtain ⟨hahead, tail, hpending, rfl⟩ := takeFirst_eq htake
  have hspec := orderlySend_spec hok htake hdisc
  simp only [DiscoverState.messages, hpending, List.map_append, List.map_cons, List.append_assoc,
    List.foldl_append (l := s.channel)]
  rw [List.singleton_append]
  refine (foldl_move_front (P := fun v : Option Bool => s.cache.isSome = true → v.isSome = true)
    ?_ ?_ ?_ _).symm
  · exact fun v m' hv hcache => clientView_isSome m' (hv hcache)
  · intro m' hm' v hv
    obtain ⟨e, he, rfl⟩ := List.mem_map.mp hm'
    have hm : (t, m) ∈ s.pending := by simp [hpending]
    have he' : (e.1, e.2) ∈ s.pending := by simp [hpending, he]
    refine commutes_of_threads hsweeps hm he' (hahead e he) (hspec e he).1 ?_
    · intro hnone
      refine (hspec e he).2 (Bool.eq_false_iff.mpr fun hcache => ?_)
      rw [hv hcache] at hnone
      cases hnone
  · exact fun hcache => foldl_isSome s.channel (view_isSome hcache)

theorem received_view {s : DiscoverState} {m : ServiceMsg} {channel : List ServiceMsg}
    (hok : orderlyDeliver { s with channel := m :: channel } = true)
    (hwaiting : m.isResponse = true → s.user = .waiting) (x : HostInfo) :
    (s.received m).view x = clientView x (s.view x) m := by
  have hhand' : { s with channel := m :: channel }.inHand = s.inHand := rfl
  simp only [orderlyDeliver, hhand'] at hok
  cases hcache : s.cache with
  | some mh =>
      cases m with
      | response details =>
          simp [DiscoverState.received, DiscoverState.view, hcache, hwaiting rfl, clientView]
      | _ => simp [DiscoverState.received, DiscoverState.view, hcache, clientView]
  | none =>
      cases m with
      | ONLINE host =>
          have hview : (s.received (.ONLINE host)).view x = some (decide (x = host)) := by
            simp [DiscoverState.received, DiscoverState.view, hcache]
          rw [hview]
          cases hhand : s.inHand with
          | none => simp [DiscoverState.view, hcache, hhand, clientView]
          | some hosts =>
              have hall : ∀ y ∈ hosts, y = host := by
                simpa [hcache, hhand] using hok
              simp only [DiscoverState.view, hcache, hhand, heldView_online hall]
      | OFFLINE host =>
          have hignored : s.received (.OFFLINE host) = s := by
            simp [DiscoverState.received, hcache]
          rw [hignored]
          cases hhand : s.inHand with
          | none => simp [DiscoverState.view, hcache, hhand, clientView]
          | some hosts =>
              have hnot : host ∉ hosts := by
                simpa [hcache, hhand] using hok
              simp only [DiscoverState.view, hcache, hhand, heldView_offline hnot]
      | response details =>
          simp [DiscoverState.received, DiscoverState.view, DiscoverState.inHand, hcache,
            hwaiting rfl, clientView]

@[simp] theorem received_providers (s : DiscoverState) (m : ServiceMsg) :
    (s.received m).providers = s.providers := by
  cases m <;> simp only [DiscoverState.received] <;> split <;> rfl

@[simp] theorem received_discoverer (s : DiscoverState) (m : ServiceMsg) :
    (s.received m).discoverer = s.discoverer := by
  cases m <;> simp only [DiscoverState.received] <;> split <;> rfl

@[simp] theorem received_answering (s : DiscoverState) (m : ServiceMsg) :
    (s.received m).answering = s.answering := by
  cases m <;> simp only [DiscoverState.received] <;> split <;> rfl

@[simp] theorem received_pending (s : DiscoverState) (m : ServiceMsg) :
    (s.received m).pending = s.pending := by
  cases m <;> simp only [DiscoverState.received] <;> split <;> rfl

@[simp] theorem received_channel (s : DiscoverState) (m : ServiceMsg) :
    (s.received m).channel = s.channel := by
  cases m <;> simp only [DiscoverState.received] <;> split <;> rfl

@[simp] theorem received_request (s : DiscoverState) (m : ServiceMsg) :
    (s.received m).request = s.request := by
  cases m <;> simp only [DiscoverState.received] <;> split <;> rfl

@[simp] theorem received_messages (s : DiscoverState) (m : ServiceMsg) :
    (s.received m).messages = s.messages := by
  simp [DiscoverState.messages]

theorem received_user (s : DiscoverState) (m : ServiceMsg) :
    (s.received m).user =
      match m, s.user with
      | .response details, .waiting => .woken details
      | _, user => user := by
  cases m with
  | response details =>
      simp only [DiscoverState.received]
      split <;> simp_all
  | _ =>
      simp only [DiscoverState.received]
      split <;> rfl

@[simp] theorem responses_append (l l' : List ServiceMsg) :
    responses (l ++ l') = responses l + responses l' := List.countP_append

@[simp] theorem responses_cons (m : ServiceMsg) (l : List ServiceMsg) :
    responses (m :: l) = responses l + m.isResponse.toNat := by
  rw [responses, List.countP_cons, responses]
  cases m <;> rfl

@[simp] theorem responses_nil : responses [] = 0 := rfl

@[simp] theorem responses_offlineNotify (t : RegistryThread) (offline : List HostInfo) :
    responses ((offlineNotify t offline).map (·.2)) = 0 := by
  rw [responses, List.countP_eq_zero]
  simp [offlineNotify, ServiceMsg.isResponse]

/-- New entries of `pending` come last among the messages. -/
theorem messages_append (s : DiscoverState) (new : List (RegistryThread × ServiceMsg)) :
    s.channel ++ (s.pending ++ new).map (·.2) = s.messages ++ new.map (·.2) := by
  simp [DiscoverState.messages]

theorem messages_send {s : DiscoverState} {t : RegistryThread} {m : ServiceMsg}
    {ahead rest : List (RegistryThread × ServiceMsg)}
    (htake : takeFirst t s.pending = some (ahead, m, rest)) :
    (s.channel ++ [m] ++ rest.map (·.2)).Perm s.messages := by
  rw [List.append_assoc, List.singleton_append]
  exact ((takeFirst_perm htake).append_left s.channel).symm

theorem responses_send {s : DiscoverState} {t : RegistryThread} {m : ServiceMsg}
    {ahead rest : List (RegistryThread × ServiceMsg)}
    (htake : takeFirst t s.pending = some (ahead, m, rest)) :
    responses (s.channel ++ [m] ++ rest.map (·.2)) = responses s.messages :=
  (messages_send htake).countP_eq _

/-- What a step does, branch by branch. -/
inductive DiscoverMove (s : DiscoverState) : DiscoverAct → DiscoverState → Prop where
  | register {host : HostInfo} {load : Int32} (hfree : s.ioFree = true) :
      DiscoverMove s (.register host load)
        { s with
          providers := upsert s.providers host load
          pending := s.pending ++ [(.io, .ONLINE host)] }
  | disconnect {offline : List HostInfo} (hfree : s.ioFree = true) :
      DiscoverMove s (.disconnect offline)
        { s with
          providers := removeProviders s.providers offline
          pending := s.pending ++ offlineNotify .io offline }
  | sweep {expired : List HostInfo} (hquiet : s.quiet .sweep = true) :
      DiscoverMove s (.sweep expired)
        { s with
          providers := removeProviders s.providers expired
          pending := s.pending ++ offlineNotify .sweep expired }
  | send {u : RegistryThread} {m : ServiceMsg} {ahead rest : List (RegistryThread × ServiceMsg)}
      (htake : takeFirst u s.pending = some (ahead, m, rest))
      (hsent : s.discoverer = true ∨ m.isResponse = true) :
      DiscoverMove s (.send u) { s with pending := rest, channel := s.channel ++ [m] }
  | drop {u : RegistryThread} {m : ServiceMsg} {ahead rest : List (RegistryThread × ServiceMsg)}
      (htake : takeFirst u s.pending = some (ahead, m, rest)) (hdisc : s.discoverer = false)
      (hpush : m.isResponse = false) : DiscoverMove s (.send u) { s with pending := rest }
  | addDiscoverer (hrequest : s.request = true) (hfree : s.ioFree = true) :
      DiscoverMove s .addDiscoverer
        { s with request := false, discoverer := true, answering := true }
  | methodHostDetails (hanswering : s.answering = true) :
      DiscoverMove s .methodHostDetails
        { s with
          answering := false
          pending := s.pending ++ [(.io, .response s.providers)] }
  | cached {force : Bool} : DiscoverMove s (.serviceDiscover force) s
  | request {force : Bool} (huser : s.user = .idle) :
      DiscoverMove s (.serviceDiscover force) { s with user := .waiting, request := true }
  | deliver {m : ServiceMsg} {channel : List ServiceMsg} (hchannel : s.channel = m :: channel) :
      DiscoverMove s .deliver ({ s with channel }.received m)
  | empty (huser : s.user = .woken []) : DiscoverMove s .build { s with user := .idle }
  | build {details : List HostDetail} (huser : s.user = .woken details) (hne : details ≠ []) :
      DiscoverMove s .build { s with user := .built (.ofResponse details) }
  | install {m : MethodHost} (huser : s.user = .built m) (hcache : s.cache = none) :
      DiscoverMove s .install { s with user := .idle, cache := some m }
  | discard {m c : MethodHost} (huser : s.user = .built m) (hcache : s.cache = some c) :
      DiscoverMove s .install { s with user := .idle }

theorem DiscoverMove.of_step {s t : DiscoverState} {a : DiscoverAct}
    (hstep : discoverStep s a = some t) : DiscoverMove s a t := by
  cases a with
  | register host load =>
      simp only [discoverStep] at hstep
      split at hstep <;> cases hstep
      exact .register (by assumption)
  | disconnect offline =>
      simp only [discoverStep] at hstep
      split at hstep <;> cases hstep
      exact .disconnect (by assumption)
  | sweep expired =>
      simp only [discoverStep] at hstep
      split at hstep <;> cases hstep
      rename_i hquiet
      exact .sweep hquiet.1
  | send u =>
      simp only [discoverStep] at hstep
      split at hstep
      · cases hstep
      · rename_i htake
        split at hstep <;> cases hstep
        · rename_i hsent
          exact .send htake (Bool.or_eq_true_iff.mp hsent)
        · rename_i hdropped
          simp only [Bool.or_eq_true, not_or, Bool.not_eq_true] at hdropped
          exact .drop htake hdropped.1 hdropped.2
  | addDiscoverer =>
      simp only [discoverStep] at hstep
      split at hstep <;> cases hstep
      rename_i hreq
      exact .addDiscoverer hreq.1 hreq.2
  | methodHostDetails =>
      simp only [discoverStep] at hstep
      split at hstep <;> cases hstep
      exact .methodHostDetails (by assumption)
  | serviceDiscover force =>
      simp only [discoverStep] at hstep
      split at hstep
      · split at hstep <;> cases hstep
        · exact .cached
        · exact .request (by assumption)
      · cases hstep
  | deliver =>
      simp only [discoverStep] at hstep
      split at hstep <;> cases hstep
      exact .deliver (by assumption)
  | build =>
      simp only [discoverStep] at hstep
      split at hstep
      · cases hstep
        exact .empty (by assumption)
      · rename_i hne huser
        cases hstep
        exact .build huser hne
      · cases hstep
  | install =>
      simp only [discoverStep] at hstep
      split at hstep
      · cases hstep
        exact .install (by assumption) (by assumption)
      · cases hstep
        exact .discard (by assumption) (by assumption)
      · cases hstep

theorem DiscoverMove.outstanding {s t : DiscoverState} {a : DiscoverAct}
    (hmove : DiscoverMove s a t)
    (h : s.request.toNat + s.answering.toNat + responses s.messages = s.user.owed) :
    t.request.toNat + t.answering.toNat + responses t.messages = t.user.owed := by
  cases hmove with
  | register hfree =>
      simp only [DiscoverState.messages]
      rw [messages_append]
      simpa [ServiceMsg.isResponse] using h
  | disconnect hfree =>
      simp only [DiscoverState.messages]
      rw [messages_append, responses_append, responses_offlineNotify]
      exact h
  | sweep hquiet =>
      simp only [DiscoverState.messages]
      rw [messages_append, responses_append, responses_offlineNotify]
      exact h
  | send htake _ =>
      rw [← responses_send htake] at h
      exact h
  | drop htake _ hpush =>
      rw [← responses_send htake] at h
      simpa [DiscoverState.messages, hpush] using h
  | addDiscoverer hrequest hfree =>
      rw [← h, hrequest, (ioFree_iff.mp hfree).1]
      rfl
  | methodHostDetails hanswering =>
      rw [hanswering] at h
      simp only [DiscoverState.messages]
      rw [messages_append]
      simp only [List.map_cons, List.map_nil, responses_append, responses_cons, responses_nil,
        ServiceMsg.isResponse, Bool.toNat_true, Bool.toNat_false] at h ⊢
      omega
  | cached => exact h
  | request huser =>
      have hnone : s.request.toNat + s.answering.toNat + responses s.messages = 0 := by
        rw [h, huser]
        rfl
      have hsame : responses { s with user := .waiting, request := true }.messages =
          responses s.messages := rfl
      rw [hsame]
      simp only [Bool.toNat_true, DiscoverPc.owed]
      omega
  | @deliver m channel hchannel =>
      have hmessages : responses s.messages =
          responses { s with channel }.messages + m.isResponse.toNat := by
        simp only [DiscoverState.messages, hchannel, List.cons_append, responses_cons]
      rw [hmessages] at h
      simp only [received_request, received_answering, received_messages, received_user]
      cases m with
      | response details =>
          simp only [ServiceMsg.isResponse, Bool.toNat_true] at h
          cases huser : s.user with
          | waiting =>
              rw [huser] at h
              simp only [DiscoverPc.owed] at h ⊢
              omega
          | _ =>
              rw [huser] at h
              simp only [DiscoverPc.owed] at h
              omega
      | _ => exact h
  | empty huser =>
      rw [huser] at h
      exact h
  | build huser hne =>
      rw [huser] at h
      exact h
  | install huser hcache =>
      rw [huser] at h
      exact h
  | discard huser hcache =>
      rw [huser] at h
      exact h

theorem DiscoverMove.built {s t : DiscoverState} {a : DiscoverAct} (hmove : DiscoverMove s a t)
    (h : ∀ m, s.user = .built m → m.hosts ≠ []) :
    ∀ m, t.user = .built m → m.hosts ≠ [] := by
  cases hmove with
  | deliver hchannel =>
      intro m hm
      rw [received_user] at hm
      split at hm
      · cases hm
      · exact h m hm
  | @build details huser hne =>
      intro m hm
      cases hm
      obtain ⟨detail, hdetail⟩ := List.exists_mem_of_ne_nil details hne
      have hlisted : detail.host ∈ (MethodHost.ofResponse details).hosts :=
        MethodHost.mem_ofResponse.mpr (List.mem_map_of_mem hdetail)
      exact List.ne_nil_of_mem hlisted
  | request huser => exact fun m hm => nomatch hm
  | empty huser => exact fun m hm => nomatch hm
  | install huser hcache => exact fun m hm => nomatch hm
  | discard huser hcache => exact fun m hm => nomatch hm
  | _ => exact h

theorem SweepsOffline.append {l new : List (RegistryThread × ServiceMsg)} (h : SweepsOffline l)
    (hnew : SweepsOffline new) : SweepsOffline (l ++ new) := by
  intro e he
  rcases List.mem_append.mp he with he | he
  · exact h e he
  · exact hnew e he

theorem sweepsOffline_io {m : ServiceMsg} : SweepsOffline [(.io, m)] := by
  intro e he hsweep
  rw [List.mem_singleton.mp he] at hsweep
  cases hsweep

theorem sweepsOffline_notify (t : RegistryThread) (offline : List HostInfo) :
    SweepsOffline (offlineNotify t offline) := by
  intro e he _
  obtain ⟨host, _, rfl⟩ := List.mem_map.mp he
  exact ⟨host, rfl⟩

theorem mem_of_takeFirst {t : RegistryThread} {m : ServiceMsg}
    {pending ahead rest : List (RegistryThread × ServiceMsg)}
    (htake : takeFirst t pending = some (ahead, m, rest)) :
    (t, m) ∈ pending ∧ ∀ e ∈ rest, e ∈ pending := by
  obtain ⟨_, tail, rfl, rfl⟩ := takeFirst_eq htake
  refine ⟨by simp, fun e he => ?_⟩
  simp only [List.mem_append, List.mem_cons] at he ⊢
  tauto

theorem DiscoverMove.sweeps {s t : DiscoverState} {a : DiscoverAct} (hmove : DiscoverMove s a t)
    (h : SweepsOffline s.pending) : SweepsOffline t.pending := by
  cases hmove with
  | register hfree => exact h.append sweepsOffline_io
  | disconnect hfree => exact h.append (sweepsOffline_notify .io _)
  | sweep hquiet => exact h.append (sweepsOffline_notify .sweep _)
  | send htake _ => exact fun e he => h e ((mem_of_takeFirst htake).2 e he)
  | drop htake _ _ => exact fun e he => h e ((mem_of_takeFirst htake).2 e he)
  | methodHostDetails hanswering => exact h.append sweepsOffline_io
  | deliver hchannel => simpa using h
  | _ => exact h

def Phase (s : DiscoverState) : Prop :=
  Unknown s ∨ Blank s ∨ (s.discoverer = true ∧ Agreed s)

theorem offline_of_sweep {s : DiscoverState}
    (hsweeps : SweepsOffline s.pending)
    (hio : ∀ e ∈ s.pending, e.1 ≠ .io) : ∀ m ∈ s.pending.map (·.2), ∃ host, m = .OFFLINE host := by
  intro m hm
  obtain ⟨e, he, rfl⟩ := List.mem_map.mp hm
  apply hsweeps e he
  cases ht : e.1 with
  | io => exact absurd ht (hio e he)
  | sweep => rfl

theorem Unknown.step {s t : DiscoverState} {a : DiscoverAct} (h : Unknown s)
    (hsweeps : SweepsOffline s.pending) (hmove : DiscoverMove s a t) : Phase t := by
  obtain ⟨hdisc, hanswering, hcache, hhand, hchannel, hpending⟩ := h
  have hnotify : ∀ (t : RegistryThread) (offline : List HostInfo),
      ∀ e ∈ s.pending ++ offlineNotify t offline, e.2.isResponse = false := by
    intro t offline e he
    rcases List.mem_append.mp he with he | he
    · exact hpending e he
    · obtain ⟨host, _, rfl⟩ := List.mem_map.mp he
      rfl
  have hbusy : s.inHand ≠ none → Phase t := fun hsome => absurd hhand hsome
  cases hmove with
  | register hfree =>
      refine .inl ⟨hdisc, hanswering, hcache, hhand, hchannel, fun e he => ?_⟩
      rcases List.mem_append.mp he with he | he
      · exact hpending e he
      · rw [List.mem_singleton.mp he]
        rfl
  | disconnect hfree => exact .inl ⟨hdisc, hanswering, hcache, hhand, hchannel, hnotify .io _⟩
  | sweep hquiet => exact .inl ⟨hdisc, hanswering, hcache, hhand, hchannel, hnotify .sweep _⟩
  | send htake hsent =>
      have hpush := hpending _ (mem_of_takeFirst htake).1
      rcases hsent with hknown | hresponse
      · rw [hdisc] at hknown
        cases hknown
      · rw [hpush] at hresponse
        cases hresponse
  | drop htake _ _ =>
      exact .inl ⟨hdisc, hanswering, hcache, hhand, hchannel,
        fun e he => hpending e ((mem_of_takeFirst htake).2 e he)⟩
  | addDiscoverer hrequest hfree =>
      refine .inr (.inl ⟨rfl, rfl, hcache, hhand, ?_⟩)
      simp only [DiscoverState.messages, hchannel, List.nil_append]
      exact offline_of_sweep hsweeps (ioFree_iff.mp hfree).2
  | methodHostDetails hserving =>
      rw [hanswering] at hserving
      cases hserving
  | cached => exact .inl ⟨hdisc, hanswering, hcache, hhand, hchannel, hpending⟩
  | request huser => exact .inl ⟨hdisc, hanswering, hcache, rfl, hchannel, hpending⟩
  | deliver hnext =>
      rw [hchannel] at hnext
      cases hnext
  | empty huser => exact hbusy (by simp [DiscoverState.inHand, huser])
  | build huser hne => exact hbusy (by simp [DiscoverState.inHand, huser])
  | install huser _ => exact hbusy (by simp [DiscoverState.inHand, huser])
  | discard huser _ => exact hbusy (by simp [DiscoverState.inHand, huser])

theorem agreed_of_announced {s t : DiscoverState} {new : List ServiceMsg}
    (hmessages : t.messages = s.messages ++ new) (hview : ∀ x, t.view x = s.view x)
    (hnew : ∀ x,
      (new.foldl (clientView x) (s.messages.foldl (clientView x) (s.view x))).getD false =
        decide (x ∈ hostsOf t.providers)) : Agreed t := by
  intro x
  rw [hmessages, hview, List.foldl_append]
  exact hnew x

theorem Blank.step {s t : DiscoverState} {a : DiscoverAct} (h : Blank s)
    (hmove : DiscoverMove s a t) : Phase t := by
  obtain ⟨hdisc, hanswering, hcache, hhand, hoffline⟩ := h
  have hfree : s.ioFree = true → Phase t := by
    intro hfree
    rw [(ioFree_iff.mp hfree).1] at hanswering
    cases hanswering
  have hbusy : s.inHand ≠ none → Phase t := fun hsome => absurd hhand hsome
  cases hmove with
  | register hidle => exact hfree hidle
  | disconnect hidle => exact hfree hidle
  | addDiscoverer _ hidle => exact hfree hidle
  | sweep hquiet =>
      refine .inr (.inl ⟨hdisc, hanswering, hcache, hhand, ?_⟩)
      simp only [DiscoverState.messages]
      rw [messages_append]
      intro m hm
      rcases List.mem_append.mp hm with hm | hm
      · exact hoffline m hm
      · simp only [offlineNotify, List.map_map, List.mem_map, Function.comp_apply] at hm
        obtain ⟨host, _, rfl⟩ := hm
        exact ⟨host, rfl⟩
  | send htake _ =>
      exact .inr (.inl ⟨hdisc, hanswering, hcache, hhand, fun m' hm' =>
        hoffline m' ((messages_send htake).mem_iff.mp hm')⟩)
  | drop _ hnot _ =>
      rw [hdisc] at hnot
      cases hnot
  | methodHostDetails _ =>
      refine .inr (.inr ⟨hdisc, agreed_of_announced (messages_append s _) (fun _ => rfl) ?_⟩)
      intro x
      have hview : s.view x = none := by simp [DiscoverState.view, hcache, hhand]
      rw [hview, foldl_none_of_offline x hoffline]
      exact heldView_getD x _
  | cached => exact .inr (.inl ⟨hdisc, hanswering, hcache, hhand, hoffline⟩)
  | request huser => exact .inr (.inl ⟨hdisc, hanswering, hcache, rfl, hoffline⟩)
  | @deliver m channel hchannel =>
      obtain ⟨host, rfl⟩ := hoffline m (by simp [DiscoverState.messages, hchannel])
      have hignored : { s with channel }.received (.OFFLINE host) = { s with channel } := by
        simp [DiscoverState.received, hcache]
      rw [hignored]
      refine .inr (.inl ⟨hdisc, hanswering, hcache, hhand, fun m' hm' => hoffline m' ?_⟩)
      simp only [DiscoverState.messages, hchannel, List.cons_append] at hm' ⊢
      exact List.mem_cons_of_mem _ hm'
  | empty huser => exact hbusy (by simp [DiscoverState.inHand, huser])
  | build huser hne => exact hbusy (by simp [DiscoverState.inHand, huser])
  | install huser _ => exact hbusy (by simp [DiscoverState.inHand, huser])
  | discard huser _ => exact hbusy (by simp [DiscoverState.inHand, huser])

theorem Agreed.removed {s : DiscoverState} (h : Agreed s) (t : RegistryThread)
    (offline : List HostInfo) :
    Agreed { s with
             providers := removeProviders s.providers offline
             pending := s.pending ++ offlineNotify t offline } := by
  refine agreed_of_announced (messages_append s _) (fun _ => rfl) (fun x => ?_)
  rw [foldl_offline, h x, ← Bool.decide_and]
  exact decide_eq_decide.mpr mem_removeProviders.symm

theorem Agreed.step {s t : DiscoverState} {a : DiscoverAct} (h : Agreed s)
    (hinv : DiscoverInv s) (hok : orderly s a = true) (hdisc : s.discoverer = true)
    (hmove : DiscoverMove s a t) : t.discoverer = true ∧ Agreed t := by
  cases hmove with
  | register hfree =>
      refine ⟨hdisc, agreed_of_announced (messages_append s _) (fun _ => rfl) (fun x => ?_)⟩
      simp only [List.map_cons, List.map_nil, List.foldl_cons, List.foldl_nil]
      rw [clientView_online, h x, ← Bool.decide_or]
      exact decide_eq_decide.mpr mem_hostsOf_upsert.symm
  | disconnect hfree => exact ⟨hdisc, h.removed .io _⟩
  | sweep hquiet => exact ⟨hdisc, h.removed .sweep _⟩
  | send htake _ =>
      refine ⟨hdisc, fun x => ?_⟩
      rw [← h x]
      exact congrArg (·.getD false) (send_view hinv.sweeps hok htake hdisc x)
  | drop _ hnot _ =>
      rw [hdisc] at hnot
      cases hnot
  | addDiscoverer hrequest hfree => exact ⟨rfl, h⟩
  | methodHostDetails hanswering =>
      refine ⟨hdisc, agreed_of_announced (messages_append s _) (fun _ => rfl) (fun x => ?_)⟩
      have hx := h x
      simp only [List.map_cons, List.map_nil, List.foldl_cons, List.foldl_nil]
      cases hv : s.messages.foldl (clientView x) (s.view x) with
      | none => exact heldView_getD x _
      | some b =>
          rw [hv] at hx
          exact hx
  | cached => exact ⟨hdisc, h⟩
  | request huser =>
      refine ⟨hdisc, fun x => ?_⟩
      rw [← h x]
      simp [DiscoverState.messages, DiscoverState.view, DiscoverState.inHand, huser]
  | @deliver m channel hchannel =>
      have hsame : { s with channel := m :: channel } = s := by rw [← hchannel]
      have hwaiting : m.isResponse = true → s.user = .waiting := by
        intro hm
        have hone := hinv.outstanding
        simp only [DiscoverState.messages, hchannel, List.cons_append, responses_cons, hm,
          Bool.toNat_true] at hone
        cases huser : s.user with
        | waiting => rfl
        | _ =>
            rw [huser] at hone
            simp only [DiscoverPc.owed] at hone
            omega
      refine ⟨by simpa using hdisc, fun x => ?_⟩
      have hview := @received_view { s with channel } m channel (by rw [hsame]; exact hok)
        hwaiting x
      rw [hview, received_messages, received_providers, ← h x]
      simp only [DiscoverState.messages, hchannel, List.cons_append, List.foldl_cons]
      rfl
  | empty huser =>
      refine ⟨hdisc, fun x => ?_⟩
      rw [← h x]
      cases hcache : s.cache <;>
        simp [DiscoverState.messages, DiscoverState.view, DiscoverState.inHand, huser, hcache,
          heldView, hostsOf]
  | @build details huser hne =>
      refine ⟨hdisc, fun x => ?_⟩
      rw [← h x]
      have hheld : heldView x (MethodHost.ofResponse details).hosts =
          heldView x (hostsOf details) := heldView_congr (fun y => MethodHost.mem_ofResponse)
      cases hcache : s.cache <;>
        simp [DiscoverState.messages, DiscoverState.view, DiscoverState.inHand, huser, hcache,
          hheld]
  | @install m huser hcache =>
      refine ⟨hdisc, fun x => ?_⟩
      rw [← h x]
      have hne := hinv.built m huser
      simp [DiscoverState.messages, DiscoverState.view, DiscoverState.inHand, huser, hcache,
        heldView, hne]
  | discard huser hcache =>
      refine ⟨hdisc, fun x => ?_⟩
      rw [← h x]
      simp [DiscoverState.messages, DiscoverState.view, hcache]

theorem discoverStep_inv {s t : DiscoverState} {a : DiscoverAct} (h : DiscoverInv s)
    (hok : orderly s a = true) (hstep : discoverStep s a = some t) : DiscoverInv t := by
  have hmove := DiscoverMove.of_step hstep
  refine ⟨hmove.sweeps h.sweeps, hmove.built h.built, hmove.outstanding h.outstanding, ?_⟩
  rcases h.phase with hunknown | hblank | ⟨hdisc, hagreed⟩
  · exact hunknown.step h.sweeps hmove
  · exact hblank.step hmove
  · exact .inr (.inr (hagreed.step h hok hdisc hmove))

theorem discoverInitial_inv : DiscoverInv discoverInitial where
  sweeps := by simp [SweepsOffline, discoverInitial]
  built := by simp [discoverInitial]
  outstanding := rfl
  phase := .inl ⟨rfl, rfl, rfl, rfl, rfl, by simp [discoverInitial]⟩

/-- In an orderly run: once a DISCOVER request was served, every message was
sent and delivered and the user thread has returned, the cached hosts are the
registry's. -/
theorem discover_cache_agrees {s : DiscoverState}
    (h : Run discoverStep (fun s a => orderly s a = true) discoverInitial s)
    (hdisc : s.discoverer = true) (hpending : s.pending = []) (hchannel : s.channel = [])
    (huser : s.user = .idle) : ∀ x, x ∈ s.cachedHosts ↔ x ∈ hostsOf s.providers := by
  have hinv : DiscoverInv s := h.invariant DiscoverInv discoverInitial_inv
    (fun _ _ _ hi hok hstep => discoverStep_inv hi hok hstep)
  intro x
  rcases hinv.phase with hunknown | hblank | ⟨_, hagreed⟩
  · rw [hunknown.discoverer] at hdisc
    cases hdisc
  · have hone := hinv.outstanding
    rw [hblank.answering, huser] at hone
    simp [DiscoverPc.owed] at hone
  · have hx := hagreed x
    rw [DiscoverState.messages, hpending, hchannel] at hx
    simp only [List.map_nil, List.append_nil, List.foldl_nil, DiscoverState.view,
      DiscoverState.inHand, huser] at hx
    cases hcache : s.cache with
    | none => simpa [hcache, DiscoverState.cachedHosts] using hx
    | some m =>
        rw [hcache] at hx
        simpa [hcache, DiscoverState.cachedHosts] using hx

/-- The premises of `discover_cache_agrees`, to be evaluated. -/
def DiscoverState.settled (s : DiscoverState) : Bool :=
  s.discoverer && s.pending.isEmpty && s.channel.isEmpty && s.user.isIdle

theorem DiscoverState.settled_iff {s : DiscoverState} :
    s.settled = true ↔
      s.discoverer = true ∧ s.pending = [] ∧ s.channel = [] ∧ s.user = .idle := by
  cases huser : s.user <;>
    simp [DiscoverState.settled, DiscoverPc.isIdle, huser, List.isEmpty_iff, and_assoc]

def hostA : HostInfo := ⟨str "10.0.0.1", 1111⟩

def hostB : HostInfo := ⟨str "10.0.0.2", 2222⟩

/-- Two providers are discovered; one is swept and registers again. -/
def discoverRun : List DiscoverAct :=
  [.register hostA 1, .send .io, .register hostB 2, .send .io, .serviceDiscover false,
    .addDiscoverer, .methodHostDetails, .send .io, .deliver, .build, .install,
    .sweep [hostA], .send .sweep, .register hostA 3, .send .io, .deliver, .deliver]

theorem discover_cache_agrees_discoverRun :
    ∃ s, exec (guarded discoverStep (fun s a => orderly s a = true)) discoverInitial discoverRun =
        some s ∧
      s.cachedHosts = [hostB, hostA] ∧ ∀ x, x ∈ s.cachedHosts ↔ x ∈ hostsOf s.providers := by
  obtain ⟨s, hs, hview⟩ := Option.map_eq_some_iff.mp
    (show (exec (guarded discoverStep (fun s a => orderly s a = true)) discoverInitial
      discoverRun).map (fun s => (s.settled, s.cachedHosts)) = some (true, [hostB, hostA]) by
        decide +kernel)
  obtain ⟨hsettled, hhosts⟩ := Prod.mk.inj hview
  obtain ⟨hdisc, hpending, hchannel, huser⟩ := DiscoverState.settled_iff.mp hsettled
  exact ⟨s, hs, hhosts, discover_cache_agrees (Run.of_guarded hs) hdisc hpending hchannel huser⟩

/-- The provider disconnects after the snapshot, and its `OFFLINE` is delivered
before the response is installed. -/
def staleRun : List DiscoverAct :=
  [.register hostA 1, .send .io, .serviceDiscover false, .addDiscoverer, .methodHostDetails,
    .send .io, .disconnect [hostA], .send .io, .deliver, .deliver, .build, .install]

theorem discover_installs_stale :
    ¬ ∀ s : DiscoverState, Reachable discoverStep discoverInitial s →
      s.discoverer = true → s.pending = [] → s.channel = [] → s.user = .idle →
      ∀ x, x ∈ s.cachedHosts ↔ x ∈ hostsOf s.providers := by
  intro h
  obtain ⟨s, hs, hview⟩ := Option.map_eq_some_iff.mp
    (show (exec discoverStep discoverInitial staleRun).map
        (fun s => (s.settled, s.cachedHosts, hostsOf s.providers)) = some (true, [hostA], []) by
      decide +kernel)
  obtain ⟨hsettled, hview⟩ := Prod.mk.inj hview
  obtain ⟨hhosts, hproviders⟩ := Prod.mk.inj hview
  obtain ⟨hdisc, hpending, hchannel, huser⟩ := DiscoverState.settled_iff.mp hsettled
  have hstale := h s (Reachable.of_exec hs) hdisc hpending hchannel huser hostA
  rw [hhosts, hproviders] at hstale
  simp at hstale

end LyqtRpc
