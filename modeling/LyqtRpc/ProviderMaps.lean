import LyqtRpc.ProviderView

/-!
The two maps of `ProviderManager` over every sequence of calls, the sweep too,
which takes a provider out of the sets alone.
-/

set_option autoImplicit false

namespace LyqtRpc

open StepRun

/-- `now` is what `steady_clock` says; `fresh` is where a new object would be. -/
inductive ProviderAct (γ : Type) where
  | addProvider (conn : γ) (host : HostInfo) (method : Bytes) (load : Int32) (now : Int)
      (fresh : Nat)
  | delProvider (conn : γ)
  | updateProviderLoad (method : Bytes) (host : HostInfo) (load : Int32) (now : Int)
  | updateProviderLastHeartbeat (method : Bytes) (host : HostInfo) (now : Int)
  | sweepExpired (idle_timeout now : Int)

section Maps
variable {γ : Type} [DecidableEq γ]

def providerStep (s : ProviderManager γ) : ProviderAct γ → Option (ProviderManager γ)
  | .addProvider conn host method load now fresh =>
    if (s.objects fresh).isNone then some (s.addProvider conn host method load now fresh)
    else none
  | .delProvider conn => some (s.delProvider conn)
  | .updateProviderLoad method host load now =>
    some (s.updateProviderLoad method host load now).2
  | .updateProviderLastHeartbeat method host now =>
    some (s.updateProviderLastHeartbeat method host now).2
  | .sweepExpired idle_timeout now => some (s.sweepExpired idle_timeout now).2

namespace ProviderManager

/-- Every provider in a set is the one its connection has, and lists the method. -/
structure Represented (s : ProviderManager γ) : Prop where
  connected : ∀ conn p, s.connwithp.lookup conn = some p →
    ∃ x, s.objects p = some x ∧ x.conn = conn
  offered : ∀ method, ∀ p ∈ (s.providers method).keys,
    ∃ x, s.objects p = some x ∧ s.connwithp.lookup x.conn = some p ∧ method ∈ x.methods

variable {s t : ProviderManager γ} {conn : γ} {p : Nat}

theorem empty_represented : ({} : ProviderManager γ).Represented where
  connected conn p hp := absurd hp (by simp)
  offered method p hp := absurd hp List.not_mem_nil

theorem addProvider_represented (h : s.Represented) {fresh : Nat}
    (hfresh : (s.objects fresh).isNone) (conn : γ) (host : HostInfo) (method : Bytes)
    (load : Int32) (now : Int) :
    (s.addProvider conn host method load now fresh).Represented := by
  obtain ⟨p, base, hobject, hreg⟩ :=
    addProvider_registers (Served.isSome h.connected) hfresh conn host method load now
  have hconn : base.conn = conn := hobject.conn_eq h.connected
  refine ⟨hreg.served hobject h.connected rfl, fun method' q hq => ?_⟩
  have hkeys := (hreg.mem_keys method' q).mp hq
  by_cases hqp : q = p
  · subst hqp
    refine ⟨_, hreg.object, (hreg.conns _).trans (if_pos hconn), ?_⟩
    cases hkeys with
    | inl hold =>
      obtain ⟨x, hx, _, hmethod⟩ := h.offered method' q hold
      exact List.mem_append_left _ (hobject.same hx ▸ hmethod)
    | inr hnew => exact List.mem_append_right _ (List.mem_singleton.mpr hnew.1)
  · obtain ⟨x, hx, hlookup, hmethod⟩ :=
      h.offered method' q (hkeys.resolve_right (fun hnew => hqp hnew.2))
    have hne : x.conn ≠ conn := fun hc => hqp (hobject.only (hc ▸ hlookup))
    exact ⟨x, hreg.kept hobject h.connected hx hne,
      (hreg.conns x.conn).trans ((if_neg hne).trans hlookup), hmethod⟩

/-- A step that keeps the connections and, of each object, its connection and its
methods, and puts nobody into a set. -/
theorem Represented.of_objects (h : s.Represented) (hconns : t.connwithp = s.connwithp)
    (hobjects : ∀ q x, s.objects q = some x →
      ∃ y, t.objects q = some y ∧ y.conn = x.conn ∧ y.methods = x.methods)
    (hsets : ∀ method, ∀ q ∈ (t.providers method).keys, q ∈ (s.providers method).keys) :
    t.Represented where
  connected conn q hq := by
    obtain ⟨x, hx, hconn⟩ := h.connected conn q (hconns ▸ hq)
    obtain ⟨y, hy, hyconn, _⟩ := hobjects q x hx
    exact ⟨y, hy, hyconn.trans hconn⟩
  offered method q hq := by
    obtain ⟨x, hx, hlookup, hmethod⟩ := h.offered method q (hsets method q hq)
    obtain ⟨y, hy, hyconn, hymethods⟩ := hobjects q x hx
    refine ⟨y, hy, ?_, hymethods ▸ hmethod⟩
    rw [hconns, hyconn]
    exact hlookup

theorem updateFirst_represented (h : s.Represented) (method : Bytes) (host : HostInfo)
    {f : Provider γ → Provider γ} (hconn : ∀ x, (f x).conn = x.conn)
    (hmethods : ∀ x, (f x).methods = x.methods) :
    (s.updateFirst method host f).2.Represented := by
  unfold updateFirst
  split
  · exact h
  · refine h.of_objects rfl (fun q x hx => ?_) (fun _ _ hq => hq)
    rw [objects_update]
    split
    · rename_i p _ hq
      exact ⟨f x, by rw [← hq, hx]; rfl, hconn x, hmethods x⟩
    · exact ⟨x, hx, rfl, rfl⟩

theorem sweepExpired_represented (h : s.Represented) (idle_timeout now : Int) :
    (s.sweepExpired idle_timeout now).2.Represented := by
  have hremoves := sweepExpired_removes s idle_timeout now
  refine h.of_objects rfl (fun q x hx => ⟨x, hx, rfl, rfl⟩) (fun method q hq => ?_)
  exact ((hremoves.leaves method q).mp hq).1

/-- What is left of the sets when a connection goes. -/
structure Departed (s t : ProviderManager γ) (conn : γ) : Prop where
  gone : ∀ method, ∀ p ∈ (t.providers method).keys, ∀ x, t.objects p = some x → x.conn ≠ conn
  absent : t.getProvider conn = none
  others : ∀ c ≠ conn, t.getProvider c = s.getProvider c
  objects : t.objects = s.objects
  offered : ∀ method p x, s.objects p = some x → x.conn ≠ conn →
    (p ∈ (t.providers method).keys ↔ p ∈ (s.providers method).keys)

theorem delProvider_departed (h : s.Represented) (conn : γ) :
    Departed s (s.delProvider conn) conn := by
  cases hlookup : s.connwithp.lookup conn with
  | none =>
    have hdel : s.delProvider conn = s := by rw [delProvider, hlookup]
    rw [hdel]
    refine ⟨fun method p hp x hx hconn => ?_, hlookup, fun _ _ => rfl, rfl,
      fun _ _ _ _ _ => Iff.rfl⟩
    obtain ⟨x', hx', hp', _⟩ := h.offered method p hp
    obtain rfl := Option.some.inj (hx.symm.trans hx')
    rw [hconn, hlookup] at hp'
    cases hp'
  | some p =>
    obtain ⟨x, hx, hconn⟩ := h.connected conn p hlookup
    obtain ⟨hsets, hobjects, hconns⟩ := delProvider_sets s hlookup hx
    refine ⟨fun method q hq y hy hyconn => ?_, ?_, fun c hc => ?_, hobjects,
      fun method q y hy hyconn => ?_⟩
    · obtain ⟨hq, hkeep⟩ := (hsets method q).mp hq
      rw [hobjects] at hy
      obtain ⟨y', hy', hq', hmethod⟩ := h.offered method q hq
      obtain rfl := Option.some.inj (hy.symm.trans hy')
      -- it is the one object of the connection, which lists the method
      rw [hyconn, hlookup] at hq'
      obtain rfl := Option.some.inj hq'
      obtain rfl := Option.some.inj (hx.symm.trans hy)
      exact hkeep ⟨hmethod, rfl⟩
    · rw [getProvider, hconns]
      exact AList.lookup_erase _ _
    · rw [getProvider, hconns]
      exact AList.lookup_erase_ne hc
    · refine (hsets method q).trans (and_iff_left ?_)
      intro hgone
      obtain ⟨_, rfl⟩ := hgone
      exact hyconn (Option.some.inj (hx.symm.trans hy) ▸ hconn)

theorem delProvider_represented (h : s.Represented) (conn : γ) :
    (s.delProvider conn).Represented := by
  have hdeparted := delProvider_departed h conn
  refine ⟨fun c q hq => ?_, fun method q hq => ?_⟩
  · by_cases hc : c = conn
    · rw [hc] at hq
      cases hdeparted.absent.symm.trans hq
    · obtain ⟨x, hx, hconn⟩ := h.connected c q ((hdeparted.others c hc).symm.trans hq)
      exact ⟨x, (congrFun hdeparted.objects q).trans hx, hconn⟩
  · have hq' := ((delProvider_removes s conn).leaves method q).mp hq
    obtain ⟨x, hx, hlookup, hmethod⟩ := h.offered method q hq'.1
    have hx' : (s.delProvider conn).objects q = some x := (congrFun hdeparted.objects q).trans hx
    have hne := hdeparted.gone method q hq x hx'
    exact ⟨x, hx', (hdeparted.others x.conn hne).trans hlookup, hmethod⟩

end ProviderManager

open ProviderManager

theorem providerStep_represented {s t : ProviderManager γ} {a : ProviderAct γ}
    (h : s.Represented) (hs : providerStep s a = some t) : t.Represented := by
  cases a with
  | addProvider conn host method load now fresh =>
    simp only [providerStep] at hs
    split at hs
    · rename_i hfresh
      obtain rfl := Option.some.inj hs
      exact addProvider_represented h hfresh conn host method load now
    · cases hs
  | delProvider conn =>
    obtain rfl := Option.some.inj hs
    exact delProvider_represented h conn
  | updateProviderLoad method host load now =>
    obtain rfl := Option.some.inj hs
    exact updateFirst_represented h method host (fun _ => rfl) (fun _ => rfl)
  | updateProviderLastHeartbeat method host now =>
    obtain rfl := Option.some.inj hs
    exact updateFirst_represented h method host (fun _ => rfl) (fun _ => rfl)
  | sweepExpired idle_timeout now =>
    obtain rfl := Option.some.inj hs
    exact sweepExpired_represented h idle_timeout now

theorem providers_represented {s : ProviderManager γ} (h : Reachable providerStep {} s) :
    s.Represented :=
  h.invariant Represented empty_represented (fun _ _ _ hi _ hs => providerStep_represented hi hs)

/-- In every state the sets hold what the connections say, and a connection that
goes takes its provider out of all of them, and nobody else's. -/
theorem provider_maps {s : ProviderManager γ} (h : Reachable providerStep {} s) :
    (∀ method, ∀ p ∈ (s.providers method).keys, ∃ x, s.objects p = some x ∧
      s.connwithp.lookup x.conn = some p ∧ method ∈ x.methods) ∧
    ∀ conn, Departed s (s.delProvider conn) conn :=
  have hrepresented := providers_represented h
  ⟨hrepresented.offered, delProvider_departed hrepresented⟩

end Maps

def sweptRun : List (ProviderAct Nat) :=
  [.addProvider 0 ⟨str "10.0.0.1", 8080⟩ (str "add") 3 0 7,
    .addProvider 1 ⟨str "10.0.0.2", 8080⟩ (str "add") 1 0 9, .sweepExpired 1 2000000000,
    .addProvider 0 ⟨str "10.0.0.1", 8080⟩ (str "add") 3 2000000000 11,
    .addProvider 1 ⟨str "10.0.0.2", 8080⟩ (str "add") 2 2000000000 12]

/-- Swept, registered again, and gone: the other connection's provider is left. -/
theorem provider_maps_swept : ∃ s, exec providerStep {} sweptRun = some s ∧
    (s.delProvider 0).methodHostDetails (str "add") = [⟨⟨str "10.0.0.2", 8080⟩, 2⟩] ∧
    (∀ p ∈ ((s.delProvider 0).providers (str "add")).keys, ∀ x,
      (s.delProvider 0).objects p = some x → x.conn ≠ 0) := by
  refine ⟨_, rfl, by decide, ?_⟩
  have hreach := Reachable.of_exec (show exec providerStep {} sweptRun = some _ from rfl)
  exact ((provider_maps hreach).2 0).gone (str "add")

end LyqtRpc
