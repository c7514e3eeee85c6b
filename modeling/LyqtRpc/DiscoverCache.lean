import LyqtRpc.Fields
import LyqtRpc.Lib.StepRun
import LyqtRpc.Lib.WriterLog
import Mathlib.Data.List.Nodup

/-!
Service discovery of one method: the registry and its two threads, the ordered
connection to one client, the client's IO thread (`Discover::onserviceRequest`)
and its user thread (`Discover::serviceDiscover`).
-/

set_option autoImplicit false

namespace LyqtRpc

open WriterLog

def hostsOf (details : List HostDetail) : List HostInfo := details.map (·.host)

/-- The host list of one method; no host is listed twice. -/
structure MethodHost where
  details : List HostDetail := []
  nodup : (hostsOf details).Nodup := by exact List.nodup_nil

def MethodHost.hosts (m : MethodHost) : List HostInfo := hostsOf m.details

/-- Update the load of a listed host, or list it last. -/
def upsert (details : List HostDetail) (host : HostInfo) (load : Int32) : List HostDetail :=
  if host ∈ hostsOf details then
    details.map (fun detail => if detail.host = host then { detail with load } else detail)
  else details ++ [⟨host, load⟩]

theorem hostsOf_upsert (details : List HostDetail) (host : HostInfo) (load : Int32) :
    hostsOf (upsert details host load) =
      if host ∈ hostsOf details then hostsOf details else hostsOf details ++ [host] := by
  unfold upsert
  split
  · rw [hostsOf, List.map_map]
    apply List.map_congr_left
    intro detail _
    simp only [Function.comp_apply]
    split <;> rfl
  · simp [hostsOf]

theorem mem_hostsOf_upsert {details : List HostDetail} {host x : HostInfo} {load : Int32} :
    x ∈ hostsOf (upsert details host load) ↔ x ∈ hostsOf details ∨ x = host := by
  rw [hostsOf_upsert]
  split
  · constructor
    · exact .inl
    · rintro (h | rfl) <;> assumption
  · simp

def MethodHost.appendHost (m : MethodHost) (host : HostInfo) (load : Int32) : MethodHost where
  details := upsert m.details host load
  nodup := by
    rw [hostsOf_upsert]
    split
    · exact m.nodup
    · rename_i hnew
      rw [← List.concat_eq_append]
      exact m.nodup.concat hnew

/-- `find_if` and `erase`: the first entry of the host. -/
def MethodHost.removeHost (m : MethodHost) (host : HostInfo) : MethodHost where
  details := m.details.eraseP (fun detail => detail.host = host)
  nodup := m.nodup.sublist (List.eraseP_sublist.map _)

/-- The host list `serviceDiscover` builds from a response. -/
def MethodHost.ofResponse (details : List HostDetail) : MethodHost :=
  details.foldl (fun m detail => m.appendHost detail.host detail.load) {}

@[simp] theorem MethodHost.mem_appendHost {m : MethodHost} {host x : HostInfo} {load : Int32} :
    x ∈ (m.appendHost host load).hosts ↔ x ∈ m.hosts ∨ x = host := mem_hostsOf_upsert

theorem MethodHost.hosts_removeHost (m : MethodHost) (host : HostInfo) :
    (m.removeHost host).hosts = m.hosts.erase host := by
  simp only [MethodHost.hosts, MethodHost.removeHost, hostsOf]
  induction m.details with
  | nil => rfl
  | cons detail details ih =>
      by_cases h : detail.host = host
      · simp [h]
      · simp [h, ih]

@[simp] theorem MethodHost.mem_removeHost {m : MethodHost} {host x : HostInfo} :
    x ∈ (m.removeHost host).hosts ↔ x ∈ m.hosts ∧ x ≠ host := by
  have hnodup : m.hosts.Nodup := m.nodup
  rw [m.hosts_removeHost, hnodup.mem_erase_iff, and_comm]

@[simp] theorem MethodHost.not_mem_empty (x : HostInfo) : x ∉ MethodHost.hosts {} := by
  simp [hosts, hostsOf]

theorem MethodHost.mem_foldl_appendHost (details : List HostDetail) (m : MethodHost)
    {x : HostInfo} :
    x ∈ (details.foldl (fun m detail => m.appendHost detail.host detail.load) m).hosts ↔
      x ∈ m.hosts ∨ x ∈ hostsOf details := by
  induction details generalizing m with
  | nil => simp [hostsOf]
  | cons detail details ih =>
      simp only [List.foldl_cons, ih, mem_appendHost, hostsOf, List.map_cons, List.mem_cons]
      tauto

@[simp] theorem MethodHost.mem_ofResponse {details : List HostDetail} {x : HostInfo} :
    x ∈ (MethodHost.ofResponse details).hosts ↔ x ∈ hostsOf details := by
  simp [ofResponse, mem_foldl_appendHost]

inductive RegistryThread where
  | io | sweep
  deriving DecidableEq, Repr

/-- What the registry sends the client about the method. -/
inductive ServiceMsg where
  | ONLINE (host : HostInfo)
  | OFFLINE (host : HostInfo)
  /-- The DISCOVER response. -/
  | response (details : List HostDetail)
  deriving DecidableEq, Repr

def ServiceMsg.isResponse : ServiceMsg → Bool
  | .response _ => true
  | _ => false

/-- `serviceDiscover` on the user thread. -/
inductive DiscoverPc where
  | idle
  /-- In `_requestor->send`. -/
  | waiting
  | woken (details : List HostDetail)
  | built (methodHost : MethodHost)

def DiscoverPc.isIdle : DiscoverPc → Bool
  | .idle => true
  | _ => false

/-- `pending`: broadcasts and the response that a registry thread has yet to
send, in the order in which the host set changed. -/
structure DiscoverState where
  providers : List HostDetail := []
  /-- The client is in `_methodwithdiscoverer`. -/
  discoverer : Bool := false
  /-- The IO thread is between `addDiscoverer` and `methodHostDetails`. -/
  answering : Bool := false
  pending : List (RegistryThread × ServiceMsg) := []
  channel : List ServiceMsg := []
  /-- A DISCOVER request is on its way. -/
  request : Bool := false
  cache : Option MethodHost := none
  user : DiscoverPc := .idle

inductive DiscoverAct where
  | register (host : HostInfo) (load : Int32)
  | disconnect (offline : List HostInfo)
  | sweep (expired : List HostInfo)
  | send (t : RegistryThread)
  | addDiscoverer
  | methodHostDetails
  | serviceDiscover (force_remote : Bool)
  | deliver
  | build
  | install

def removeProviders (providers : List HostDetail) (offline : List HostInfo) : List HostDetail :=
  providers.filter (fun detail => detail.host ∉ offline)

def DiscoverState.quiet (s : DiscoverState) (t : RegistryThread) : Bool :=
  s.pending.all (fun e => e.1 ≠ t)

/-- The IO thread is between two requests. -/
def DiscoverState.ioFree (s : DiscoverState) : Bool := !s.answering && s.quiet .io

def offlineNotify (t : RegistryThread) (offline : List HostInfo) :
    List (RegistryThread × ServiceMsg) :=
  offline.map (fun host => (t, .OFFLINE host))

/-- The connection's IO thread at the client: pushes go to `onserviceRequest`,
the response wakes the waiting user thread. -/
def DiscoverState.received (s : DiscoverState) : ServiceMsg → DiscoverState
  | .ONLINE host =>
    match s.cache with
    | some m => { s with cache := some (m.appendHost host 0) }
    | none => { s with cache := some (MethodHost.appendHost {} host 0) }
  | .OFFLINE host =>
    match s.cache with
    | some m => { s with cache := some (m.removeHost host) }
    | none => s
  | .response details =>
    match s.user with
    | .waiting => { s with user := .woken details }
    | _ => s

def discoverStep (s : DiscoverState) : DiscoverAct → Option DiscoverState
  | .register host load =>
    if s.ioFree then
      some { s with
             providers := upsert s.providers host load
             pending := s.pending ++ [(.io, .ONLINE host)] }
    else none
  | .disconnect offline =>
    if s.ioFree then
      some { s with
             providers := removeProviders s.providers offline
             pending := s.pending ++ offlineNotify .io offline }
    else none
  | .sweep expired =>
    if s.quiet .sweep ∧ ∀ host ∈ expired, host ∈ hostsOf s.providers then
      some { s with
             providers := removeProviders s.providers expired
             pending := s.pending ++ offlineNotify .sweep expired }
    else none
  | .send t =>
    match takeFirst t s.pending with
    | none => none
    | some (_, m, rest) =>
      -- a push goes to the discoverers, the response to the connection that asked
      if s.discoverer || m.isResponse then
        some { s with pending := rest, channel := s.channel ++ [m] }
      else some { s with pending := rest }
  | .addDiscoverer =>
    if s.request ∧ s.ioFree then
      some { s with request := false, discoverer := true, answering := true }
    else none
  | .methodHostDetails =>
    if s.answering then
      some { s with
             answering := false
             pending := s.pending ++ [(.io, .response s.providers)] }
    else none
  | .serviceDiscover force_remote =>
    match s.user with
    | .idle =>
      -- a cached method is answered from the cache
      if !force_remote && s.cache.isSome then some s
      else some { s with user := .waiting, request := true }
    | _ => none
  | .deliver =>
    match s.channel with
    | [] => none
    | m :: channel => some ({ s with channel }.received m)
  | .build =>
    match s.user with
    | .woken [] => some { s with user := .idle }
    | .woken details => some { s with user := .built (.ofResponse details) }
    | _ => none
  | .install =>
    match s.user, s.cache with
    | .built m, none => some { s with user := .idle, cache := some m }
    | .built _, some _ => some { s with user := .idle }
    | _, _ => none

def discoverInitial : DiscoverState := {}

/-- The hosts `selectHosts` chooses among. -/
def DiscoverState.cachedHosts (s : DiscoverState) : List HostInfo :=
  match s.cache with
  | some m => m.hosts
  | none => []

/-- The hosts of a response the user thread has and has not installed. -/
def DiscoverState.inHand (s : DiscoverState) : Option (List HostInfo) :=
  match s.user with
  | .woken details => some (hostsOf details)
  | .built m => some m.hosts
  | _ => none

/-- The messages say the opposite about some host. -/
def ServiceMsg.opposes : ServiceMsg → ServiceMsg → Bool
  | .ONLINE host, .OFFLINE host' => host = host'
  | .OFFLINE host, .ONLINE host' => host = host'
  | _, _ => false

/-- One message is a response that lists a host the other takes offline. -/
def ServiceMsg.outdates : ServiceMsg → ServiceMsg → Bool
  | .response details, .OFFLINE host => host ∈ hostsOf details
  | .OFFLINE host, .response details => host ∈ hostsOf details
  | _, _ => false

/-- Neither registry thread sends the client a message ahead of an older one of
the other thread that says the opposite. -/
def orderlySend (s : DiscoverState) (t : RegistryThread) : Bool :=
  match takeFirst t s.pending with
  | none => true
  | some (ahead, m, _) =>
    !s.discoverer || ahead.all (fun e =>
      !e.2.opposes m && (s.cache.isSome || !e.2.outdates m))

/-- While the response in hand is all the client has, no push changes what it
says. -/
def orderlyDeliver (s : DiscoverState) : Bool :=
  match s.cache, s.inHand, s.channel with
  | none, some hosts, .ONLINE host :: _ => hosts.all (fun x => x = host)
  | none, some hosts, .OFFLINE host :: _ => host ∉ hosts
  | _, _, _ => true

def orderly (s : DiscoverState) : DiscoverAct → Bool
  | .send t => orderlySend s t
  | .deliver => orderlyDeliver s
  | _ => true

end LyqtRpc
