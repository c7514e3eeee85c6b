import LyqtRpc.DiscoverCache
import LyqtRpc.DiscoverManager
import LyqtRpc.RegistryOffline
import Mathlib.Data.List.Induction

/-!
A registry with its providers and its discoverers: what each connection that has asked
for a method is sent about it, and what that adds up to.
-/

set_option autoImplicit false

namespace LyqtRpc

open StepRun

variable {γ : Type}

/-- What a client that follows the messages holds of the host `x`. -/
def follow (x : HostInfo) : Bool → ServiceMsg → Bool
  | b, .ONLINE host => b || decide (host = x)
  | b, .OFFLINE host => b && decide (host ≠ x)
  | _, .response details => decide (x ∈ hostsOf details)

def Notice.message (n : Notice) : ServiceMsg :=
  if n.service_type = .ONLINE then .ONLINE n.host else .OFFLINE n.host

/-- Whom a message goes to, which method it is about, and what it says. -/
structure Told (γ : Type) where
  conn : γ
  method : Bytes
  message : ServiceMsg

namespace DiscoverManager

/-- What one call of `notify` sends. -/
def notified (s : DiscoverManager γ) (n : Notice) : List (Told γ) :=
  (s.notify n.method).map fun conn => ⟨conn, n.method, n.message⟩

end DiscoverManager

inductive ServingAct (γ : Type) where
  | discover (conn : γ) (method : Bytes) (fresh : Nat)
  /-- Any other request, a connection that closes, or a sweep. -/
  | registry (a : RegistryAct γ)

structure RegistryServing (γ : Type) where
  pd : PwithDManager γ := {}
  discoverer : DiscoverManager γ := {}
  sent : List (Told γ) := []
  /-- What has been served. -/
  log : List (ServingAct γ) := []

variable [DecidableEq γ]

/-- `PwithDManager::onconnShoutdown` forgets the discoverer last of all. -/
def DiscoverManager.after (s : DiscoverManager γ) : RegistryAct γ → DiscoverManager γ
  | .onconnShoutdown conn => s.delProvider conn
  | _ => s

def servingStep (s : RegistryServing γ) (a : ServingAct γ) : Option (RegistryServing γ) :=
  match a with
  | .discover conn method fresh =>
    if (s.discoverer.objects fresh).isNone then
      some { s with
             discoverer := s.discoverer.addDiscoverer conn method fresh
             sent := s.sent ++
               [⟨conn, method, .response (s.pd.rstore.methodHostDetails method)⟩]
             log := s.log ++ [a] }
    else none
  | .registry b =>
    (registryStep s.pd b).map fun pd =>
      { pd
        discoverer := s.discoverer.after b
        sent := s.sent ++
          (pd.notified.drop s.pd.notified.length).flatMap s.discoverer.notified
        log := s.log ++ [a] }

/-- The connection has asked for the method and has not closed since. -/
def Asked (conn : γ) (method : Bytes) (log : List (ServingAct γ)) : Prop :=
  ∃ before since fresh, log = before ++ .discover conn method fresh :: since ∧
    .registry (.onconnShoutdown conn) ∉ since

/-- What the connection was told of the method, in the order in which it was sent. -/
def toldOf (conn : γ) (method : Bytes) (sent : List (Told γ)) : List ServiceMsg :=
  sent.filterMap fun e => if e.conn = conn ∧ e.method = method then some e.message else none

/-- A client that has followed these messages holds the host. -/
def Holds (messages : List ServiceMsg) (host : HostInfo) : Prop :=
  messages.foldl (follow host) false = true

/-- Withdrawals are clean, and a connection registers at one host only. -/
def InStep (s : RegistryServing γ) : ServingAct γ → Prop
  | .discover .. => True
  | .registry b => CleanStep s.pd b ∧ ∀ conn host method load now fresh,
      b = .register conn host method load now fresh → ∀ p x,
        s.pd.rstore.connwithp.lookup conn = some p → s.pd.rstore.objects p = some x →
          x.address = host

section Asked
variable {conn : γ} {method : Bytes} {log : List (ServingAct γ)} {a : ServingAct γ}

omit [DecidableEq γ] in
theorem asked_append_singleton : Asked conn method (log ++ [a]) ↔
    (Asked conn method log ∧ a ≠ .registry (.onconnShoutdown conn)) ∨
      ∃ fresh, a = .discover conn method fresh := by
  constructor
  · intro h
    obtain ⟨before, since, fresh, heq, hsince⟩ := h
    cases since using List.reverseRecOn with
    | nil =>
      obtain ⟨_, hlast⟩ := List.append_inj' heq rfl
      exact .inr ⟨fresh, List.singleton_inj.mp hlast⟩
    | append_singleton since b _ =>
      rw [← List.cons_append, ← List.append_assoc] at heq
      obtain ⟨rfl, hlast⟩ := List.append_inj' heq rfl
      rw [List.singleton_inj.mp hlast]
      refine .inl ⟨⟨before, since, fresh, rfl, fun h => hsince (List.mem_append_left _ h)⟩, ?_⟩
      exact fun h => hsince (List.mem_append_right _ (List.mem_singleton.mpr h.symm))
  · intro h
    rcases h with ⟨⟨before, since, fresh, rfl, hsince⟩, hstays⟩ | ⟨fresh, rfl⟩
    · refine ⟨before, since ++ [a], fresh, by simp, fun h => ?_⟩
      rcases List.mem_append.mp h with hold | hnew
      · exact hsince hold
      · exact hstays (List.mem_singleton.mp hnew).symm
    · exact ⟨log, [], fresh, rfl, List.not_mem_nil⟩

end Asked

section Told
variable {conn : γ} {method : Bytes} {d : DiscoverManager γ}

theorem toldOf_append (sent sent' : List (Told γ)) :
    toldOf conn method (sent ++ sent') = toldOf conn method sent ++ toldOf conn method sent' :=
  List.filterMap_append

/-- A notice comes once to who watches its method. -/
theorem toldOf_notified (hd : d.Linked) (hwatches : d.Watches conn method) (n : Notice) :
    toldOf conn method (d.notified n) = if n.method = method then [n.message] else [] := by
  unfold toldOf DiscoverManager.notified
  rw [List.filterMap_map]
  split
  · rename_i hmethod
    have hmem : conn ∈ d.notify n.method := (hd.mem_notify ..).mpr (hmethod ▸ hwatches)
    have hnodup := hd.nodup_notify n.method
    obtain ⟨before, after, heq⟩ := List.append_of_mem hmem
    rw [heq] at hnodup ⊢
    obtain ⟨_, hafter, hapart⟩ := List.nodup_append.mp hnodup
    have hother : ∀ c ∈ before ++ after, c ≠ conn := by
      intro c hc hcc
      rcases List.mem_append.mp hc with hb | ha
      · exact hapart c hb conn (List.mem_cons_self ..) hcc
      · exact (List.nodup_cons.mp hafter).1 (hcc ▸ ha)
    have hnone : ∀ cs ⊆ before ++ after, cs.filterMap (fun c =>
        if c = conn ∧ n.method = method then some n.message else none) = [] := fun cs hcs =>
      List.filterMap_eq_nil_iff.mpr fun c hc => if_neg fun h => hother c (hcs hc) h.1
    change (before ++ conn :: after).filterMap (fun c =>
      if c = conn ∧ n.method = method then some n.message else none) = _
    rw [List.filterMap_append, hnone before (List.subset_append_left ..), List.filterMap_cons,
      if_pos ⟨rfl, hmethod⟩, hnone after (List.subset_append_right ..)]
    rfl
  · rename_i hmethod
    exact List.filterMap_eq_nil_iff.mpr fun c _ => if_neg fun h => hmethod h.2

theorem toldOf_notices (hd : d.Linked) (hwatches : d.Watches conn method) (ns : List Notice) :
    toldOf conn method (ns.flatMap d.notified) =
      (ns.filter (·.method = method)).map Notice.message := by
  induction ns with
  | nil => rfl
  | cons n ns ih =>
    rw [List.flatMap_cons, toldOf_append, toldOf_notified hd hwatches, ih]
    by_cases hmethod : n.method = method
    · rw [if_pos hmethod, List.filter_cons_of_pos (by simpa using hmethod)]
      rfl
    · rw [if_neg hmethod, List.filter_cons_of_neg (by simpa using hmethod)]
      rfl

omit [DecidableEq γ] in
theorem foldl_follow_offline (x : HostInfo) (b : Bool) (ns : List Notice)
    (h : ∀ n ∈ ns, n.service_type = .OFFLINE) :
    (ns.map Notice.message).foldl (follow x) b = (b && decide (∀ n ∈ ns, n.host ≠ x)) := by
  induction ns generalizing b with
  | nil => simp
  | cons n ns ih =>
    have hfirst : n.message = .OFFLINE n.host := by
      rw [Notice.message, h n (List.mem_cons_self ..)]
      rfl
    rw [List.map_cons, List.foldl_cons, hfirst, ih _ fun m hm => h m (List.mem_cons_of_mem _ hm)]
    simp only [follow, List.forall_mem_cons, Bool.decide_and, Bool.and_assoc]

end Told

section Registered
variable {s t : PwithDManager γ} {conn : γ} {host : HostInfo} {method : Bytes} {load : Int32}
  {now : Int} {fresh : Nat}

/-- A REGISTER of a connection at its own host makes that host discoverable, and no other. -/
theorem register_discoverable (h : s.rstore.Allocated)
    (hown : ∀ p x, s.rstore.connwithp.lookup conn = some p → s.rstore.objects p = some x →
      x.address = host)
    (hs : registryStep s (.register conn host method load now fresh) = some t)
    (method' : Bytes) (x : HostInfo) :
    Discoverable t method' x ↔ Discoverable s method' x ∨ (method' = method ∧ host = x) := by
  have ht := (register_exact h hs).2
  rw [discoverable_iff h, discoverable_iff ht, List.mem_map, List.mem_map]
  simp only [registryStep] at hs
  split at hs
  · rename_i hfresh
    obtain rfl := Option.some.inj hs
    obtain ⟨_, hadds⟩ := ProviderManager.addProvider_adds h hfresh conn host method load now
    obtain ⟨p, base, hobject, hreg⟩ :=
      ProviderManager.addProvider_registers h.connected hfresh conn host method load now
    have hbase : base.address = host := by
      cases hobject with
      | new => rfl
      | old hlookup hbase => exact hown p base hlookup hbase
    have hat : (s.rstore.addProvider conn host method load now fresh).addressOf p = host := by
      rw [ProviderManager.addressOf, hreg.object]
      exact hbase
    constructor
    · intro hlisted
      obtain ⟨q, hq, hx⟩ := hlisted
      rcases (hreg.mem_keys method' q).mp hq with hold | ⟨hmethod, rfl⟩
      · exact .inl ⟨q, hold, (hadds.address q (h.offered method' q hold)).symm.trans hx⟩
      · exact .inr ⟨hmethod, hat.symm.trans hx⟩
    · intro hlisted
      rcases hlisted with ⟨q, hq, hx⟩ | ⟨hmethod, rfl⟩
      · exact ⟨q, (hreg.mem_keys method' q).mpr (.inl hq),
          (hadds.address q (h.offered method' q hq)).trans hx⟩
      · exact ⟨p, (hreg.mem_keys method' p).mpr (.inr ⟨hmethod, rfl⟩), hat⟩
  · cases hs

/-- A step that registers nothing adds OFFLINE notices only. -/
theorem notices_offline {a : RegistryAct γ}
    (ha : ∀ conn host method load now fresh, a ≠ .register conn host method load now fresh)
    (hs : registryStep s a = some t) :
    ∃ ns, t.notified = s.notified ++ ns ∧ ∀ n ∈ ns, n.service_type = .OFFLINE := by
  have hoffline : ∀ offline : List (Bytes × HostInfo), ∀ n ∈ offlineNotices offline,
      n.service_type = .OFFLINE := by
    intro offline n hn
    obtain ⟨e, _, rfl⟩ := List.mem_map.mp hn
    rfl
  cases a with
  | register conn host method load now fresh =>
    exact absurd rfl (ha conn host method load now fresh)
  | loadReport host method load now =>
    cases hs
    exact ⟨[], (List.append_nil _).symm, fun n hn => absurd hn List.not_mem_nil⟩
  | heartbeatProvider host method now =>
    cases hs
    exact ⟨[], (List.append_nil _).symm, fun n hn => absurd hn List.not_mem_nil⟩
  | onconnShoutdown conn =>
    cases hs
    exact ⟨_, rfl, hoffline _⟩
  | sweepAndNotify idle_timeout_sec now =>
    cases hs
    exact ⟨_, rfl, hoffline _⟩

/-- A clean one announces just what it makes undiscoverable. -/
theorem discoverable_notices {a : RegistryAct γ} {ns : List Notice} (h : s.rstore.Allocated)
    (hclean : CleanStep s a)
    (ha : ∀ conn host method load now fresh, a ≠ .register conn host method load now fresh)
    (hs : registryStep s a = some t) (hnotified : t.notified = s.notified ++ ns)
    (method : Bytes) (x : HostInfo) :
    Discoverable t method x ↔ Discoverable s method x ∧ ⟨.OFFLINE, method, x⟩ ∉ ns := by
  have hexact := (cleanStep_iff_exact h a).mp hclean t hs
  have hcount := hexact.offline method x
  rw [hnotified, List.count_append, Nat.add_left_cancel_iff] at hcount
  have honline : Discoverable t method x → Discoverable s method x := by
    intro hafter
    by_contra hbefore
    obtain ⟨conn, at', load, now, fresh, rfl⟩ := hexact.online method x hbefore hafter
    exact ha _ _ _ _ _ _ rfl
  constructor
  · intro hafter
    refine ⟨honline hafter, fun hmem => ?_⟩
    rw [if_neg fun hlost => hlost.2 hafter] at hcount
    exact absurd (List.count_pos_iff.mpr hmem) (by omega)
  · intro hstays
    by_contra hafter
    rw [if_pos ⟨hstays.1, hafter⟩] at hcount
    exact hstays.2 (List.count_pos_iff.mp (by omega))

end Registered

/-- Who watches a method is who has asked for it. -/
structure WatchInv (s : RegistryServing γ) : Prop where
  linked : s.discoverer.Linked
  allocated : s.pd.rstore.Allocated
  asked : ∀ conn method, s.discoverer.Watches conn method ↔ Asked conn method s.log

/-- What each watcher was told adds up to what is listed. -/
def Informed (s : RegistryServing γ) : Prop :=
  ∀ conn method, s.discoverer.Watches conn method →
    ∀ host, Holds (toldOf conn method s.sent) host ↔ Discoverable s.pd method host

section Step
variable {s t : RegistryServing γ}

theorem watchInv_init : WatchInv ({} : RegistryServing γ) where
  linked := DiscoverManager.linked_init
  allocated := ⟨fun _ _ hp => (List.not_mem_nil hp).elim, fun _ _ hp => by cases hp⟩
  asked conn method := by
    constructor
    · intro h
      obtain ⟨d, x, hlookup, _⟩ := h
      cases hlookup
    · intro h
      obtain ⟨before, since, fresh, heq, _⟩ := h
      exact absurd heq (by simp)

/-- The discoverers after a step that is not a DISCOVER. -/
theorem watches_after (h : s.discoverer.Linked) (b : RegistryAct γ) :
    (s.discoverer.after b).Linked ∧ ∀ conn method,
      (s.discoverer.after b).Watches conn method ↔
        s.discoverer.Watches conn method ∧ b ≠ .onconnShoutdown conn := by
  cases b with
  | onconnShoutdown conn =>
    refine ⟨(h.delProvider conn).1, fun conn' method => ?_⟩
    rw [DiscoverManager.after, (h.delProvider conn).2]
    simp only [ne_eq, RegistryAct.onconnShoutdown.injEq, eq_comm]
  | register => exact ⟨h, fun _ _ => (and_iff_left fun heq => by cases heq).symm⟩
  | loadReport => exact ⟨h, fun _ _ => (and_iff_left fun heq => by cases heq).symm⟩
  | heartbeatProvider => exact ⟨h, fun _ _ => (and_iff_left fun heq => by cases heq).symm⟩
  | sweepAndNotify => exact ⟨h, fun _ _ => (and_iff_left fun heq => by cases heq).symm⟩

theorem WatchInv.step {a : ServingAct γ} (h : WatchInv s) (hs : servingStep s a = some t) :
    WatchInv t := by
  cases a with
  | discover conn method fresh =>
    simp only [servingStep] at hs
    split at hs
    · rename_i hfresh
      cases hs
      obtain ⟨d, base, hadds⟩ :=
        h.linked.adds conn method (Option.isNone_iff_eq_none.mp hfresh)
      refine ⟨hadds.linked h.linked, h.allocated, fun conn' method' => ?_⟩
      rw [hadds.watches h.linked, h.asked, asked_append_singleton]
      refine or_congr (and_iff_left fun heq => by cases heq).symm
        ⟨fun hsame => ⟨fresh, ?_⟩, fun hsame => ?_⟩
      · rw [hsame.1, hsame.2]
      · obtain ⟨_, hsame⟩ := hsame
        cases hsame
        exact ⟨rfl, rfl⟩
    · cases hs
  | registry b =>
    obtain ⟨pd, hpd, rfl⟩ := Option.map_eq_some_iff.mp hs
    obtain ⟨hlinked, hwatches⟩ := watches_after h.linked b
    refine ⟨hlinked, registryStep_allocated h.allocated hpd, fun conn method => ?_⟩
    rw [hwatches, h.asked, asked_append_singleton]
    constructor
    · intro hold
      exact .inl ⟨hold.1, fun heq => hold.2 (ServingAct.registry.inj heq)⟩
    · intro hnew
      rcases hnew with hold | ⟨_, hdiscover⟩
      · exact ⟨hold.1, fun heq => hold.2 (congrArg _ heq)⟩
      · cases hdiscover

/-- A DISCOVER tells the connection what is listed. -/
theorem Informed.discover {conn : γ} {method : Bytes} {fresh : Nat} (h : WatchInv s)
    (hinf : Informed s) (hs : servingStep s (.discover conn method fresh) = some t) :
    Informed t := by
  simp only [servingStep] at hs
  split at hs
  · rename_i hfresh
    cases hs
    obtain ⟨d, base, hadds⟩ :=
      h.linked.adds conn method (Option.isNone_iff_eq_none.mp hfresh)
    intro conn' method' hwatches x
    rw [toldOf_append]
    by_cases hsame : conn = conn' ∧ method = method'
    · have htold : toldOf conn' method'
          [⟨conn, method, .response (s.pd.rstore.methodHostDetails method)⟩] =
            [.response (s.pd.rstore.methodHostDetails method)] := by
        rw [toldOf, List.filterMap_cons, if_pos hsame]
        rfl
      rw [htold, Holds, List.foldl_append]
      simp only [List.foldl_cons, List.foldl_nil, follow, decide_eq_true_eq]
      rw [hostsOf, ProviderManager.map_host_methodHostDetails, hsame.2]
      rfl
    · have htold : toldOf conn' method'
          [⟨conn, method, .response (s.pd.rstore.methodHostDetails method)⟩] = [] := by
        rw [toldOf, List.filterMap_cons, if_neg hsame]
        rfl
      rw [htold, List.append_nil]
      rcases (hadds.watches h.linked conn' method').mp hwatches with hold | hnew
      · exact hinf conn' method' hold x
      · exact absurd ⟨hnew.1.symm, hnew.2.symm⟩ hsame
  · cases hs

/-- What a watcher of the method has been told when the notices have gone out. -/
theorem toldOf_after {conn : γ} {method : Bytes} {pd : PwithDManager γ} {ns : List Notice}
    (h : WatchInv s) (hwatched : s.discoverer.Watches conn method)
    (hns : pd.notified = s.pd.notified ++ ns) :
    toldOf conn method (s.sent ++
        (pd.notified.drop s.pd.notified.length).flatMap s.discoverer.notified) =
      toldOf conn method s.sent ++ (ns.filter (·.method = method)).map Notice.message := by
  rw [hns, List.drop_left, toldOf_append, toldOf_notices h.linked hwatched]

theorem register_notified {s t : PwithDManager γ} {conn : γ} {host : HostInfo} {method : Bytes}
    {load : Int32} {now : Int} {fresh : Nat}
    (hs : registryStep s (.register conn host method load now fresh) = some t) :
    t.notified = s.notified ++ [⟨.ONLINE, method, host⟩] := by
  simp only [registryStep] at hs
  split at hs
  · cases hs
    rfl
  · cases hs

/-- The ONLINE notice of a REGISTER tells the watchers what it adds. -/
theorem Informed.register {conn : γ} {host : HostInfo} {method : Bytes} {load : Int32}
    {now : Int} {fresh : Nat} (h : WatchInv s) (hinf : Informed s)
    (hin : InStep s (.registry (.register conn host method load now fresh)))
    (hs : servingStep s (.registry (.register conn host method load now fresh)) = some t) :
    Informed t := by
  obtain ⟨pd, hpd, rfl⟩ := Option.map_eq_some_iff.mp hs
  intro conn' method' hwatches x
  have hbefore := hinf conn' method' hwatches x
  have hlisted := register_discoverable h.allocated (hin.2 _ _ _ _ _ _ rfl) hpd method' x
  rw [hlisted, toldOf_after h hwatches (register_notified hpd), Holds, List.foldl_append]
  by_cases hmethod : method = method'
  · rw [List.filter_cons_of_pos (by simpa using hmethod)]
    simp only [List.filter_nil, List.map_cons, List.map_nil, Notice.message, if_true,
      List.foldl_cons, List.foldl_nil, follow, Bool.or_eq_true, decide_eq_true_eq,
      hmethod, true_and]
    exact or_congr_left hbefore
  · rw [List.filter_cons_of_neg (by simpa using hmethod)]
    have hne : ¬ method' = method := fun heq => hmethod heq.symm
    simp only [List.filter_nil, List.map_nil, List.foldl_nil, hne, false_and, or_false]
    exact hbefore

/-- The OFFLINE notices of any other step tell the watchers what it takes away. -/
theorem Informed.withdraw {b : RegistryAct γ} (h : WatchInv s) (hinf : Informed s)
    (hin : InStep s (.registry b))
    (hb : ∀ conn host method load now fresh, b ≠ .register conn host method load now fresh)
    (hs : servingStep s (.registry b) = some t) : Informed t := by
  obtain ⟨pd, hpd, rfl⟩ := Option.map_eq_some_iff.mp hs
  obtain ⟨ns, hns, hoffline⟩ := notices_offline hb hpd
  intro conn method hwatches x
  have hwatched := (((watches_after h.linked b).2 conn method).mp hwatches).1
  rw [discoverable_notices h.allocated hin.1 hb hpd hns, toldOf_after h hwatched hns, Holds,
    List.foldl_append,
    foldl_follow_offline x _ _ fun n hn => hoffline n (List.mem_filter.mp hn).1,
    Bool.and_eq_true, decide_eq_true_eq]
  refine and_congr (hinf conn method hwatched x)
    ⟨fun hnone hmem => ?_, fun hnone n hn hx => ?_⟩
  · exact hnone ⟨.OFFLINE, method, x⟩ (List.mem_filter.mpr ⟨hmem, by simp⟩) rfl
  · obtain ⟨hmem, hmethod⟩ := List.mem_filter.mp hn
    obtain ⟨service_type, method', host⟩ := n
    obtain rfl : method' = method := by simpa using hmethod
    obtain rfl : service_type = .OFFLINE := hoffline _ hmem
    exact hnone (hx ▸ hmem)

theorem Informed.step {a : ServingAct γ} (h : WatchInv s) (hinf : Informed s)
    (hin : InStep s a) (hs : servingStep s a = some t) : Informed t := by
  cases a with
  | discover conn method fresh => exact hinf.discover h hs
  | registry b =>
    by_cases hregister : ∃ conn host method load now fresh,
        b = .register conn host method load now fresh
    · obtain ⟨conn, host, method, load, now, fresh, rfl⟩ := hregister
      exact hinf.register h hin hs
    · exact hinf.withdraw h hin
        (fun _ _ _ _ _ _ heq => hregister ⟨_, _, _, _, _, _, heq⟩) hs

end Step

/-- Each notice goes once to every connection that has asked for its method and is still
there, and to nobody else. While withdrawals are clean and a connection registers at one
host, what such a connection was told adds up to what the registry lists. -/
theorem registry_tells {s : RegistryServing γ} (h : Reachable servingStep {} s) :
    (∀ method, (s.discoverer.notify method).Nodup ∧
      ∀ conn, conn ∈ s.discoverer.notify method ↔ Asked conn method s.log) ∧
    (Run servingStep InStep {} s → ∀ conn method, Asked conn method s.log →
      ∀ host, Holds (toldOf conn method s.sent) host ↔ Discoverable s.pd method host) := by
  have hinv : WatchInv s := h.invariant WatchInv watchInv_init fun _ _ _ hi _ hs => hi.step hs
  refine ⟨fun method => ⟨hinv.linked.nodup_notify method, fun conn => ?_⟩, fun hrun => ?_⟩
  · rw [hinv.linked.mem_notify, hinv.asked]
  · have hboth : WatchInv s ∧ Informed s := by
      refine hrun.invariant (fun s => WatchInv s ∧ Informed s) ⟨watchInv_init, ?_⟩ ?_
      · intro conn method hwatches
        obtain ⟨before, since, fresh, heq, _⟩ := (watchInv_init.asked conn method).mp hwatches
        exact absurd heq (by simp)
      · intro s a t hi hin hs
        exact ⟨hi.1.step hs, hi.2.step hi.1 hin hs⟩
    intro conn method hasked
    exact hboth.2 conn method ((hboth.1.asked conn method).mpr hasked)

/-- A provider is there before the client asks, another comes, and the first one goes. -/
def tellRun : List (ServingAct Nat) :=
  [.registry (.register 1 ⟨str "10.0.0.1", 80⟩ (str "add") 3 0 0),
   .discover 5 (str "add") 0,
   .registry (.register 2 ⟨str "10.0.0.2", 80⟩ (str "add") 4 1 1),
   .registry (.onconnShoutdown 1)]

theorem registry_tells_leave : ∃ s : RegistryServing Nat, exec servingStep {} tellRun = some s ∧
    toldOf 5 (str "add") s.sent = [.response [⟨⟨str "10.0.0.1", 80⟩, 3⟩],
      .ONLINE ⟨str "10.0.0.2", 80⟩, .OFFLINE ⟨str "10.0.0.1", 80⟩] ∧
    5 ∈ s.discoverer.notify (str "add") ∧
    ∀ host, Holds (toldOf 5 (str "add") s.sent) host ↔ Discoverable s.pd (str "add") host := by
  have hview : (exec servingStep {} tellRun).map (fun s => toldOf 5 (str "add") s.sent) =
      some [.response [⟨⟨str "10.0.0.1", 80⟩, 3⟩], .ONLINE ⟨str "10.0.0.2", 80⟩,
        .OFFLINE ⟨str "10.0.0.1", 80⟩] := by decide +kernel
  obtain ⟨s, hs, htold⟩ := Option.map_eq_some_iff.mp hview
  have hin : Along servingStep InStep {} tellRun := by
    refine ⟨⟨trivial, ?_⟩, fun s₁ hs₁ => ⟨trivial, fun s₂ hs₂ => ⟨⟨trivial, ?_⟩, fun s₃ hs₃ =>
      ⟨⟨?_, ?_⟩, fun _ _ => trivial⟩⟩⟩⟩
    · intro conn host method load now fresh heq p x hp
      cases heq
      cases hp
    · intro conn host method load now fresh heq p x hp
      cases heq
      cases hs₁
      cases hs₂
      cases (show (none : Option Nat) = some p from hp)
    · intro p x hp hx
      cases hs₁
      cases hs₂
      cases hs₃
      cases (show some 0 = some p from hp)
      cases (show some (⟨1, ⟨str "10.0.0.1", 80⟩, 3, [str "add"], 0⟩ : Provider Nat) = some x
        from hx)
      refine ⟨List.nodup_singleton _, fun method hmethod => ?_⟩
      cases List.mem_singleton.mp hmethod
      exact ⟨by decide +kernel, by decide +kernel⟩
    · intro conn host method load now fresh heq
      cases heq
  have htells := registry_tells (.of_exec hs)
  have hasked : Asked 5 (str "add") s.log := by
    have hlogs : (exec servingStep {} tellRun).map (·.log) = some tellRun := rfl
    rw [hs] at hlogs
    have hlog : s.log = tellRun := Option.some.inj hlogs
    rw [hlog]
    exact ⟨[_], [_, _], 0, rfl, by simp⟩
  exact ⟨s, hs, htold, ((htells.1 _).2 5).mpr hasked, htells.2 (hin.run hs) 5 _ hasked⟩

end LyqtRpc
