import LyqtRpc.DiscoverCache
import Mathlib.Data.List.Induction

/-!
`Discover::serviceDiscover` with nothing else going on: what a call answers, and
what it leaves in the cache. The health check of `ClientDiscover` calls it with
`force_remote` to make up for lost pushes.
-/

set_option autoImplicit false

namespace LyqtRpc

open StepRun

/-- The load that is listed for a host; a later entry updates an earlier one. -/
def loadOf : List HostDetail → HostInfo → Option Int32
  | [], _ => none
  | detail :: details, host =>
    match loadOf details host with
    | some load => some load
    | none => if detail.host = host then some detail.load else none

/-- `MethodHost::selectHosts`; `arrange` is the strategy's order of the hosts. -/
def MethodHost.selectHosts (arrange : List HostDetail → List HostDetail) (m : MethodHost) :
    List HostDetail :=
  match m.details with
  | [] => []
  | detail :: details => arrange (detail :: details)

/-- What a call of `serviceDiscover` comes to; no `details` for false. -/
structure Discovery where
  details : Option (List HostDetail)
  cache : Option MethodHost
  /-- The registry was asked. -/
  asked : Bool

def candidates (arrange : List HostDetail → List HostDetail) (m : MethodHost) :
    Option (List HostDetail) :=
  match m.selectHosts arrange with
  | [] => none
  | details => some details

/-- `response`: the hosts of a successful answer of the registry, if there is one. -/
def serviceDiscover (arrange : List HostDetail → List HostDetail) (cache : Option MethodHost)
    (force_remote : Bool) (response : Option (List HostDetail)) : Discovery :=
  match force_remote, cache with
  | false, some m => ⟨candidates arrange m, some m, false⟩
  | _, _ =>
    match response with
    | none | some [] => ⟨none, cache, true⟩
    | some (detail :: details) =>
      -- an entry that is there is used as it is
      let cached := cache.getD (.ofResponse (detail :: details))
      ⟨candidates arrange cached, some cached, true⟩

/-- The cached hosts and loads are those of the response. -/
def Refreshed (cache : Option MethodHost) (response : List HostDetail) : Prop :=
  ∃ m, cache = some m ∧ ∀ host, loadOf m.details host = loadOf response host

/-- All hosts of the entry were taken offline. -/
def Emptied (cache : Option MethodHost) : Prop := ∃ m, cache = some m ∧ m.details = []

theorem loadOf_append (details : List HostDetail) (detail : HostDetail) (x : HostInfo) :
    loadOf (details ++ [detail]) x =
      if x = detail.host then some detail.load else loadOf details x := by
  induction details with
  | nil => simp only [List.nil_append, loadOf, eq_comm]
  | cons d details ih =>
      simp only [List.cons_append, loadOf, ih]
      by_cases hx : x = detail.host
      · simp only [if_pos hx]
      · simp only [if_neg hx]

theorem loadOf_unlisted {details : List HostDetail} {x : HostInfo} (h : x ∉ hostsOf details) :
    loadOf details x = none := by
  induction details with
  | nil => rfl
  | cons d details ih =>
      simp only [hostsOf, List.map_cons, List.mem_cons, not_or] at h
      simp only [loadOf, ih h.2, if_neg (Ne.symm h.1)]

theorem loadOf_update (details : List HostDetail) (host x : HostInfo) (load : Int32) :
    loadOf (details.map fun d => if d.host = host then { d with load } else d) x =
      if x = host ∧ x ∈ hostsOf details then some load else loadOf details x := by
  induction details with
  | nil => simp [hostsOf, loadOf]
  | cons d details ih =>
      have hhost : (if d.host = host then { d with load } else d).host = d.host := by
        split <;> rfl
      have hcons : x ∈ hostsOf (d :: details) ↔ x = d.host ∨ x ∈ hostsOf details :=
        List.mem_cons
      simp only [List.map_cons, loadOf, ih, hhost, hcons]
      by_cases hx : x = host
      · subst hx
        by_cases hmem : x ∈ hostsOf details
        · simp only [hmem, or_true, and_self, if_true]
        · simp only [hmem, or_false, and_false, if_false, loadOf_unlisted hmem, true_and,
            eq_comm (a := x)]
          by_cases hd : d.host = x
          · simp only [hd, if_true]
          · simp only [hd, if_false]
      · simp only [hx, false_and, if_false]
        by_cases hd : d.host = host
        · have hdx : d.host ≠ x := fun heq => hx (heq.symm.trans hd)
          simp only [hdx, if_false]
        · simp only [hd, if_false]

theorem loadOf_upsert (details : List HostDetail) (host x : HostInfo) (load : Int32) :
    loadOf (upsert details host load) x = if x = host then some load else loadOf details x := by
  unfold upsert
  split
  · rename_i hmem
    rw [loadOf_update]
    by_cases hx : x = host
    · simp only [hx, hmem, and_self, if_true]
    · simp only [hx, false_and]
  · exact loadOf_append details ⟨host, load⟩ x

theorem loadOf_ofResponse (details : List HostDetail) (x : HostInfo) :
    loadOf (MethodHost.ofResponse details).details x = loadOf details x := by
  induction details using List.reverseRecOn with
  | nil => rfl
  | append_singleton details d ih =>
      rw [loadOf_append, ← ih, MethodHost.ofResponse, List.foldl_concat]
      exact loadOf_upsert _ d.host x d.load

/-- Nothing delivered but the response, the machine's cache is the call's. -/
theorem serviceDiscover_run (arrange : List HostDetail → List HostDetail) {s : DiscoverState}
    {detail : HostDetail} {details : List HostDetail} {channel : List ServiceMsg}
    (hwaiting : s.user = .waiting)
    (hchannel : s.channel = .response (detail :: details) :: channel) :
    ∃ t, exec discoverStep s [.deliver, .build, .install] = some t ∧
      t.user = .idle ∧ t.channel = channel ∧
      t.cache = (serviceDiscover arrange s.cache true (some (detail :: details))).cache := by
  cases hcache : s.cache with
  | none =>
      simp [exec, discoverStep, DiscoverState.received, hwaiting, hchannel, hcache,
        serviceDiscover]
  | some m =>
      simp [exec, discoverStep, DiscoverState.received, hwaiting, hchannel, hcache,
        serviceDiscover]

theorem Refreshed.not_emptied {cache : Option MethodHost} {detail : HostDetail}
    {details : List HostDetail} (h : Refreshed cache (detail :: details)) : ¬ Emptied cache := by
  rintro ⟨m, rfl, hempty⟩
  obtain ⟨m', hm', hloads⟩ := h
  cases hm'
  have hnone := hloads detail.host
  rw [hempty, loadOf, loadOf, if_pos rfl] at hnone
  cases hload : loadOf details detail.host with
  | none => simp [hload] at hnone
  | some load => simp [hload] at hnone

/-- A forced refresh makes the cache equal to the response only if there was no
entry, or an equal one; and a call that is not forced answers 'no host' without
asking whenever the entry is empty. -/
theorem serviceDiscover_repairs_iff (arrange : List HostDetail → List HostDetail)
    (cache : Option MethodHost) (detail : HostDetail) (details : List HostDetail) :
    (Refreshed (serviceDiscover arrange cache true (some (detail :: details))).cache
        (detail :: details) ∧
      ∀ response, (serviceDiscover arrange cache false response).details = none →
        Emptied cache → (serviceDiscover arrange cache false response).asked = true) ↔
    cache = none ∨ Refreshed cache (detail :: details) := by
  constructor
  · rintro ⟨hforced, _⟩
    cases cache with
    | none => exact .inl rfl
    | some m => exact .inr hforced
  · rintro (rfl | h)
    · refine ⟨⟨_, rfl, loadOf_ofResponse (detail :: details)⟩, ?_⟩
      rintro response _ ⟨m, hm, _⟩
      cases hm
    · have hnot := h.not_emptied
      obtain ⟨m, rfl, hm⟩ := h
      exact ⟨⟨m, rfl, hm⟩, fun _ _ hempty => absurd hempty hnot⟩

/-- Answering 'no host' from the cache is what happens to every empty entry. -/
theorem serviceDiscover_emptied (arrange : List HostDetail → List HostDetail)
    {cache : Option MethodHost} (h : Emptied cache) (response : Option (List HostDetail)) :
    serviceDiscover arrange cache false response = ⟨none, cache, false⟩ := by
  obtain ⟨m, rfl, hempty⟩ := h
  simp only [serviceDiscover, candidates, MethodHost.selectHosts, hempty]

def staleHost : HostInfo := ⟨str "10.0.0.1", 9000⟩

def freshHost : HostInfo := ⟨str "10.0.0.2", 9000⟩

/-- The entry lists a host that is gone, and the refresh keeps it; an empty entry
answers 'no host' although the registry has one. -/
theorem serviceDiscover_keeps_stale :
    ¬ Refreshed (serviceDiscover id (some (MethodHost.appendHost {} staleHost 3)) true
      (some [⟨freshHost, 0⟩])).cache [⟨freshHost, 0⟩] ∧
    serviceDiscover id (some {}) false (some [⟨freshHost, 0⟩]) = ⟨none, some {}, false⟩ := by
  refine ⟨?_, rfl⟩
  rintro ⟨m, hm, hloads⟩
  have hload := hloads freshHost
  cases hm
  revert hload
  decide

end LyqtRpc
