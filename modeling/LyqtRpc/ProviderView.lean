import LyqtRpc.RegistryOffline

/-!
`ProviderManager` seen through its connections: the one provider a connection
has says all that the sets of the methods hold.
-/

set_option autoImplicit false

namespace LyqtRpc

namespace ProviderManager
variable {γ : Type} [DecidableEq γ]

def providerOf (s : ProviderManager γ) (conn : γ) : Option (Provider γ) :=
  (s.getProvider conn).bind s.objects

/-- Every object in a map is the one its connection has, and is in the sets of
the methods it lists. -/
structure Connected (s : ProviderManager γ) : Prop where
  connected : ∀ conn p, s.connwithp.lookup conn = some p →
    ∃ x, s.objects p = some x ∧ x.conn = conn
  offered : ∀ method p, p ∈ (s.providers method).keys ↔
    ∃ x, s.objects p = some x ∧ s.connwithp.lookup x.conn = some p ∧ method ∈ x.methods

variable {s t : ProviderManager γ} {conn : γ} {x : Provider γ} {p : Nat}

theorem providerOf_eq_some :
    s.providerOf conn = some x ↔ ∃ p, s.connwithp.lookup conn = some p ∧ s.objects p = some x :=
  Option.bind_eq_some_iff

theorem Connected.conn_eq (h : s.Connected) (hx : s.providerOf conn = some x) : x.conn = conn := by
  obtain ⟨p, hp, hobj⟩ := providerOf_eq_some.mp hx
  obtain ⟨x', hx', hconn⟩ := h.connected conn p hp
  rw [hobj] at hx'
  cases hx'
  exact hconn

/-- A provider in the set of a method, by its connection. -/
theorem Connected.offered_iff (h : s.Connected) {method : Bytes} {f : Provider γ → Prop} :
    (∃ p ∈ (s.providers method).keys, ∃ x, s.objects p = some x ∧ f x) ↔
      ∃ conn x, s.providerOf conn = some x ∧ method ∈ x.methods ∧ f x := by
  constructor
  · intro hoffer
    obtain ⟨p, hp, x, hx, hf⟩ := hoffer
    obtain ⟨x', hx', hconn, hmethod⟩ := (h.offered method p).mp hp
    rw [hx] at hx'
    cases hx'
    exact ⟨x.conn, x, providerOf_eq_some.mpr ⟨p, hconn, hx⟩, hmethod, hf⟩
  · intro hoffer
    obtain ⟨conn, x, hx, hmethod, hf⟩ := hoffer
    have hconn := h.conn_eq hx
    obtain ⟨p, hp, hobj⟩ := providerOf_eq_some.mp hx
    refine ⟨p, (h.offered method p).mpr ⟨x, hobj, ?_, hmethod⟩, x, hobj, hf⟩
    rw [hconn]
    exact hp

theorem Connected.mem_methodHostDetails (h : s.Connected) {method : Bytes} {d : HostDetail} :
    d ∈ s.methodHostDetails method ↔
      ∃ conn x, s.providerOf conn = some x ∧ method ∈ x.methods ∧ ⟨x.address, x.load⟩ = d := by
  rw [← h.offered_iff, methodHostDetails, List.mem_filterMap]
  simp only [Option.map_eq_some_iff]

theorem Connected.mem_methodHost (h : s.Connected) {method : Bytes} {host : HostInfo} :
    host ∈ s.methodHost method ↔
      ∃ conn x, s.providerOf conn = some x ∧ method ∈ x.methods ∧ x.address = host := by
  rw [← h.offered_iff, methodHost, List.mem_filterMap]
  simp only [Option.map_eq_some_iff]

/-- Two connections do not share an object. -/
theorem Connected.lookup_inj (h : s.Connected) {conn' : γ}
    (hp : s.connwithp.lookup conn = some p) (hp' : s.connwithp.lookup conn' = some p) :
    conn = conn' := by
  obtain ⟨x, hx, hconn⟩ := h.connected conn p hp
  obtain ⟨x', hx', hconn'⟩ := h.connected conn' p hp'
  rw [hx] at hx'
  cases hx'
  exact hconn.symm.trans hconn'

/-- Changing an object changes what its connection has. -/
theorem Connected.providerOf_update (h : s.Connected) {f : Provider γ → Provider γ}
    (hp : s.connwithp.lookup conn = some p) (hx : s.objects p = some x) (c : γ) :
    (s.update p f).providerOf c = if c = conn then some (f x) else s.providerOf c := by
  by_cases hc : c = conn
  · subst hc
    rw [if_pos rfl]
    refine providerOf_eq_some.mpr ⟨p, hp, ?_⟩
    rw [objects_update, if_pos rfl, hx]
    rfl
  · rw [if_neg hc]
    show (s.connwithp.lookup c).bind (s.update p f).objects = (s.connwithp.lookup c).bind s.objects
    cases hq : s.connwithp.lookup c with
    | none => rfl
    | some q =>
        have hne : q ≠ p := fun heq => hc (h.lookup_inj (heq ▸ hq) hp)
        simp only [Option.bind_some, objects_update, if_neg hne]

/-- An update that keeps the connection and the methods of an object. -/
theorem Connected.update (h : s.Connected) {f : Provider γ → Provider γ}
    (hconn : ∀ x, (f x).conn = x.conn) (hmethods : ∀ x, (f x).methods = x.methods) :
    (s.update p f).Connected := by
  have hobjects : ∀ q y, (s.update p f).objects q = some y →
      ∃ x, s.objects q = some x ∧ y.conn = x.conn ∧ y.methods = x.methods := by
    intro q y hy
    rw [objects_update] at hy
    split at hy
    · rename_i heq
      subst heq
      obtain ⟨x, hx, rfl⟩ := Option.map_eq_some_iff.mp hy
      exact ⟨x, hx, hconn x, hmethods x⟩
    · exact ⟨y, hy, rfl, rfl⟩
  have hback : ∀ q x, s.objects q = some x →
      ∃ y, (s.update p f).objects q = some y ∧ y.conn = x.conn ∧ y.methods = x.methods := by
    intro q x hx
    rw [objects_update]
    split
    · rename_i heq
      subst heq
      exact ⟨f x, by rw [hx]; rfl, hconn x, hmethods x⟩
    · exact ⟨x, hx, rfl, rfl⟩
  refine ⟨fun conn q hq => ?_, fun method q => (h.offered method q).trans ?_⟩
  · obtain ⟨x, hx, hxc⟩ := h.connected conn q hq
    obtain ⟨y, hy, hyc, _⟩ := hback q x hx
    exact ⟨y, hy, hyc.trans hxc⟩
  · constructor
    · intro hlisted
      obtain ⟨x, hx, hlookup, hmethod⟩ := hlisted
      obtain ⟨y, hy, hyc, hym⟩ := hback q x hx
      exact ⟨y, hy, hyc ▸ hlookup, hym ▸ hmethod⟩
    · intro hlisted
      obtain ⟨y, hy, hlookup, hmethod⟩ := hlisted
      obtain ⟨x, hx, hyc, hym⟩ := hobjects q y hy
      exact ⟨x, hx, hyc ▸ hlookup, hym ▸ hmethod⟩

/-- A change of one provider: what the first at `host` gets, or nobody. -/
theorem Connected.updateFirst_spec (h : s.Connected) (method : Bytes) (host : HostInfo)
    {f : Provider γ → Provider γ} (hconn : ∀ x, (f x).conn = x.conn)
    (hmethods : ∀ x, (f x).methods = x.methods) :
    (s.updateFirst method host f).2.Connected ∧
      (((s.updateFirst method host f).1 = false ∧ (s.updateFirst method host f).2 = s ∧
          ∀ conn x, s.providerOf conn = some x → method ∈ x.methods → x.address ≠ host) ∨
        ((s.updateFirst method host f).1 = true ∧ ∃ conn x, s.providerOf conn = some x ∧
          method ∈ x.methods ∧ x.address = host ∧
          ∀ c, (s.updateFirst method host f).2.providerOf c =
            if c = conn then some (f x) else s.providerOf c)) := by
  unfold updateFirst
  cases hfind : (s.providers method).keys.find?
      (fun p => (s.objects p).any (fun x => x.address = host)) with
  | none =>
      refine ⟨h, .inl ⟨rfl, rfl, fun conn x hx hmethod haddress => ?_⟩⟩
      obtain ⟨p, hp, x', hx', hat⟩ :=
        (h.offered_iff (f := fun x => x.address = host)).mpr ⟨conn, x, hx, hmethod, haddress⟩
      refine List.find?_eq_none.mp hfind p hp ?_
      rw [hx', Option.any_some, decide_eq_true_eq]
      exact hat
  | some p =>
      have hp := List.mem_of_find?_eq_some hfind
      obtain ⟨x, hx, hlookup, hmethod⟩ := (h.offered method p).mp hp
      have hat := List.find?_some hfind
      rw [hx, Option.any_some, decide_eq_true_eq] at hat
      exact ⟨h.update hconn hmethods, .inr ⟨rfl, x.conn, x,
        providerOf_eq_some.mpr ⟨p, hlookup, hx⟩, hmethod, hat, h.providerOf_update hlookup hx⟩⟩

section Served
variable {method : Bytes} {y : Provider γ} {host : HostInfo} {now : Int} {base : Provider γ}

theorem ObjectOf.getD_providerOf (h : ObjectOf s conn host now p base) :
    (s.providerOf conn).getD { conn, address := host, lastheartbeat := now } = base := by
  cases h with
  | new hnone =>
    rw [providerOf, getProvider, hnone]
    rfl
  | old hlookup hbase =>
    rw [providerOf_eq_some.mpr ⟨p, hlookup, hbase⟩]
    rfl

/-- Every connection in the map has an object of its own. -/
def Served (s : ProviderManager γ) : Prop :=
  ∀ c q, s.connwithp.lookup c = some q → ∃ x, s.objects q = some x ∧ x.conn = c

theorem Served.isSome (h : s.Served) (c : γ) (q : Nat) (hq : s.connwithp.lookup c = some q) :
    (s.objects q).isSome := by
  obtain ⟨x, hx, _⟩ := h c q hq
  rw [hx]
  rfl

theorem ObjectOf.conn_eq (h : ObjectOf s conn host now p base) (hserved : s.Served) :
    base.conn = conn := by
  cases h with
  | new => rfl
  | old hlookup hbase =>
    obtain ⟨x, hx, hconn⟩ := hserved conn p hlookup
    exact Option.some.inj (hx.symm.trans hbase) ▸ hconn

/-- The object of another connection is not written to. -/
theorem Registers.kept (h : Registers s t conn method p y)
    (hobject : ObjectOf s conn host now p base) (hserved : s.Served) {q : Nat}
    (hx : s.objects q = some x) (hne : x.conn ≠ conn) : t.objects q = some x := by
  refine (h.others q ?_).trans hx
  rintro rfl
  exact hne (hobject.same hx ▸ hobject.conn_eq hserved)

theorem Registers.served (h : Registers s t conn method p y)
    (hobject : ObjectOf s conn host now p base) (hserved : s.Served) (hy : y.conn = base.conn) :
    t.Served := by
  intro c q hq
  rw [h.conns] at hq
  split at hq
  · rename_i hc
    obtain rfl := Option.some.inj hq
    exact ⟨y, h.object, (hy.trans (hobject.conn_eq hserved)).trans hc.symm⟩
  · rename_i hc
    obtain ⟨x, hx, hxc⟩ := hserved c q hq
    exact ⟨x, h.kept hobject hserved hx (hxc ▸ hc), hxc⟩

end Served

theorem Connected.addProvider_spec (h : s.Connected) {fresh : Nat}
    (hfresh : (s.objects fresh).isNone) (conn : γ) (host : HostInfo) (method : Bytes)
    (load : Int32) (now : Int) :
    (s.addProvider conn host method load now fresh).Connected ∧
      ∀ c, (s.addProvider conn host method load now fresh).providerOf c =
        if c = conn then some (Provider.extended ((s.providerOf conn).getD
          { conn, address := host, lastheartbeat := now }) method load now)
        else s.providerOf c := by
  obtain ⟨p, base, hobject, hreg⟩ :=
    addProvider_registers (Served.isSome h.connected) hfresh conn host method load now
  generalize s.addProvider conn host method load now fresh = t at hreg ⊢
  have hconn : base.conn = conn := hobject.conn_eq h.connected
  refine ⟨⟨hreg.served hobject h.connected rfl, fun method' q => ?_⟩, fun c => ?_⟩
  · rw [hreg.mem_keys, h.offered]
    by_cases hq : q = p
    · subst hq
      -- the object lists what it listed before, and the method
      have hbefore : (∃ x, s.objects q = some x ∧ s.connwithp.lookup x.conn = some q ∧
          method' ∈ x.methods) ↔ method' ∈ base.methods := by
        cases hobject with
        | new _ hnone => simp [hnone]
        | old hlookup hbase =>
          subst hconn
          simp [hbase, hlookup]
      have hlookup : t.connwithp.lookup base.conn = some q :=
        (hreg.conns _).trans (if_pos hconn)
      rw [hbefore, hreg.object]
      simp only [Option.some.injEq, exists_eq_left', Provider.extended, hlookup, true_and,
        List.mem_append, List.mem_singleton, and_true]
    · rw [hreg.others q hq]
      simp only [hq, and_false, or_false, hreg.conns]
      refine exists_congr (fun x => and_congr_right (fun hx => and_congr_left (fun _ => ?_)))
      split
      · rename_i hc
        rw [hc]
        exact iff_of_false (fun hlookup => hq (hobject.only hlookup))
          (fun heq => hq (Option.some.inj heq).symm)
      · exact Iff.rfl
  · show (t.connwithp.lookup c).bind t.objects = _
    rw [hreg.conns, hobject.getD_providerOf]
    split
    · exact hreg.object
    · rename_i hc
      show _ = (s.connwithp.lookup c).bind s.objects
      cases hlookup : s.connwithp.lookup c with
      | none => rfl
      | some q =>
        obtain ⟨x, hx, hxc⟩ := h.connected c q hlookup
        exact (hreg.kept hobject h.connected hx (hxc ▸ hc)).trans hx.symm

theorem delProvider_sets (s : ProviderManager γ) {x : Provider γ}
    (hlookup : s.connwithp.lookup conn = some p) (hx : s.objects p = some x) :
    (∀ method q, q ∈ ((s.delProvider conn).providers method).keys ↔
      q ∈ (s.providers method).keys ∧ ¬ (method ∈ x.methods ∧ q = p)) ∧
    (s.delProvider conn).objects = s.objects ∧
    (s.delProvider conn).connwithp = s.connwithp.erase conn := by
  obtain ⟨hsets, hobjects, _⟩ := eraseAll_spec s p x.methods
  unfold delProvider
  rw [hlookup]
  dsimp only
  rw [hx]
  exact ⟨hsets, hobjects, rfl⟩

theorem disconnectProvider_eq (s : ProviderManager γ) (conn : γ) :
    s.disconnectProvider conn =
      match s.providerOf conn with
      | none => ([], s)
      | some x => (x.methods.map (fun method => (method, x.address)), s.delProvider conn) := rfl

theorem Connected.disconnectProvider_spec (h : s.Connected) (conn : γ) :
    (s.disconnectProvider conn).2.Connected ∧
      (s.disconnectProvider conn).1 =
        ((s.providerOf conn).map (fun x => x.methods.map (·, x.address))).getD [] ∧
      ∀ c, (s.disconnectProvider conn).2.providerOf c =
        if c = conn then none else s.providerOf c := by
  rw [disconnectProvider_eq]
  cases hx : s.providerOf conn with
  | none =>
      refine ⟨h, rfl, fun c => ?_⟩
      show s.providerOf c = _
      split
      · rename_i hc
        exact hc ▸ hx
      · rfl
  | some x =>
      obtain ⟨p, hlookup, hobject⟩ := providerOf_eq_some.mp hx
      obtain ⟨hsets, hobjects, hconns⟩ := delProvider_sets s hlookup hobject
      have hkept : ∀ c q, (s.delProvider conn).connwithp.lookup c = some q ↔
          c ≠ conn ∧ s.connwithp.lookup c = some q := by
        intro c q
        rw [hconns]
        by_cases hc : c = conn
        · subst hc
          rw [AList.lookup_erase]
          simp
        · rw [AList.lookup_erase_ne hc]
          simp [hc]
      refine ⟨⟨fun c q hq => ?_, fun method q => ?_⟩, rfl, fun c => ?_⟩
      · obtain ⟨y, hy, hyc⟩ := h.connected c q ((hkept c q).mp hq).2
        exact ⟨y, (congrFun hobjects q).trans hy, hyc⟩
      · refine (hsets method q).trans ?_
        rw [h.offered method q]
        simp only [hkept, hobjects]
        constructor
        · intro hleft
          obtain ⟨⟨y, hy, hyq, hmethod⟩, hkeep⟩ := hleft
          refine ⟨y, hy, ⟨fun heq => hkeep ?_, hyq⟩, hmethod⟩
          rw [heq, hlookup] at hyq
          obtain rfl := Option.some.inj hyq
          obtain rfl := Option.some.inj (hobject.symm.trans hy)
          exact ⟨hmethod, rfl⟩
        · intro hleft
          obtain ⟨y, hy, ⟨hne, hyq⟩, hmethod⟩ := hleft
          refine ⟨⟨y, hy, hyq, hmethod⟩, fun hgone => hne ?_⟩
          obtain rfl := hgone.2
          obtain rfl := Option.some.inj (hobject.symm.trans hy)
          exact h.conn_eq hx
      · show ((s.delProvider conn).connwithp.lookup c).bind (s.delProvider conn).objects = _
        rw [hobjects, hconns]
        split
        · rename_i hc
          rw [hc, AList.lookup_erase]
          rfl
        · rename_i hc
          rw [AList.lookup_erase_ne hc]
          rfl

end ProviderManager

end LyqtRpc
