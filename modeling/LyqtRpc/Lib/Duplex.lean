import LyqtRpc.Lib.OrderedLink

/-!
A connection of two links, and the queues at its ends: what came for the one end and was
not yet looked at, and what that end still has to send back.
-/

set_option autoImplicit false

namespace LyqtRpc

variable {I O I' O' : Type}

/-- The last five fields are histories that no operation reads. -/
structure Duplex (up : Link I O) (down : Link I' O') where
  up : up.State := up.init
  down : down.State := down.init
  incoming : List O := []
  outbox : List I' := []
  inbox : List O' := []
  /-- What was sent up, and what of it was looked at. -/
  asked : List I := []
  arrived : List O := []
  /-- What was put into the outbox, what of it was sent, and what was looked at. -/
  posted : List I' := []
  replied : List I' := []
  dispatched : List O' := []

namespace Duplex
variable {up : Link I O} {down : Link I' O'}

def ask (k : Duplex up down) (m : I) : Option (Duplex up down) :=
  (up.take k.up m).map fun s => { k with up := s, asked := k.asked ++ [m] }

def moveUp (k : Duplex up down) (a : up.Act) : Option (Duplex up down) :=
  (up.move k.up a).map fun r => { k with up := r.1, incoming := k.incoming ++ r.2 }

def arrive (k : Duplex up down) : Option (O × Duplex up down) :=
  match k.incoming with
  | [] => none
  | m :: rest => some (m, { k with incoming := rest, arrived := k.arrived ++ [m] })

def post (k : Duplex up down) (ms : List I') : Duplex up down :=
  { k with outbox := k.outbox ++ ms, posted := k.posted ++ ms }

def reply (k : Duplex up down) : Option (Duplex up down) :=
  match k.outbox with
  | [] => none
  | m :: rest =>
    (down.take k.down m).map fun s =>
      { k with down := s, outbox := rest, replied := k.replied ++ [m] }

/-- The send failed, and nobody looks. -/
def drop (k : Duplex up down) : Option (Duplex up down) :=
  match k.outbox with
  | [] => none
  | _ :: rest => some { k with outbox := rest }

def moveDown (k : Duplex up down) (a : down.Act) : Option (Duplex up down) :=
  (down.move k.down a).map fun r => { k with down := r.1, inbox := k.inbox ++ r.2 }

def dispatch (k : Duplex up down) : Option (O' × Duplex up down) :=
  match k.inbox with
  | [] => none
  | m :: rest => some (m, { k with inbox := rest, dispatched := k.dispatched ++ [m] })

/-- The steps that have nothing to do with what the messages are. -/
inductive Act (up : Link I O) (down : Link I' O') where
  | up (a : up.Act)
  | reply
  | drop
  | down (a : down.Act)

def step (k : Duplex up down) : Act up down → Option (Duplex up down)
  | .up a => k.moveUp a
  | .reply => k.reply
  | .drop => k.drop
  | .down a => k.moveDown a

variable {becomes : I → O → Prop} {becomes' : I' → O' → Prop}

/-- Of what was asked the first have come, in order; of what was posted some were sent, and
of these the first have come back. -/
structure Inv (hup : up.Ordered becomes) (hdown : down.Ordered becomes') (k : Duplex up down) :
    Prop where
  up : hup.Passes k.up k.asked (k.arrived ++ k.incoming)
  down : hdown.Passes k.down k.replied (k.dispatched ++ k.inbox)
  posted : (k.replied ++ k.outbox).Sublist k.posted

variable {hup : up.Ordered becomes} {hdown : down.Ordered becomes'} {k k' : Duplex up down}

theorem inv_init : Inv hup hdown ({} : Duplex up down) :=
  ⟨hup.passes_init, hdown.passes_init, .refl _⟩

theorem Inv.ask (h : Inv hup hdown k) {m : I} (hfits : ∃ o, becomes m o)
    (hstep : k.ask m = some k') : Inv hup hdown k' := by
  obtain ⟨s, htake, rfl⟩ := Option.map_eq_some_iff.mp hstep
  exact ⟨h.up.take htake hfits, h.down, h.posted⟩

theorem Inv.arrive (h : Inv hup hdown k) {m : O} (hstep : k.arrive = some (m, k')) :
    Inv hup hdown k' := by
  unfold Duplex.arrive at hstep
  split at hstep
  · cases hstep
  · rename_i m' rest hincoming
    cases hstep
    refine ⟨?_, h.down, h.posted⟩
    have hpasses := h.up
    rw [hincoming, List.append_cons] at hpasses
    exact hpasses

theorem Inv.post (h : Inv hup hdown k) (ms : List I') : Inv hup hdown (k.post ms) := by
  refine ⟨h.up, h.down, ?_⟩
  show (k.replied ++ (k.outbox ++ ms)).Sublist (k.posted ++ ms)
  rw [← List.append_assoc]
  exact h.posted.append (.refl _)

theorem Inv.dispatch (h : Inv hup hdown k) {m : O'} (hstep : k.dispatch = some (m, k')) :
    Inv hup hdown k' := by
  unfold Duplex.dispatch at hstep
  split at hstep
  · cases hstep
  · rename_i m' rest hinbox
    cases hstep
    refine ⟨h.up, ?_, h.posted⟩
    have hpasses := h.down
    rw [hinbox, List.append_cons] at hpasses
    exact hpasses

theorem Inv.step (h : Inv hup hdown k) {a : Act up down}
    (hfits : ∀ m rest, a = .reply → k.outbox = m :: rest → ∃ o, becomes' m o)
    (hstep : k.step a = some k') : Inv hup hdown k' := by
  cases a with
  | up a =>
      obtain ⟨r, hmove, rfl⟩ := Option.map_eq_some_iff.mp hstep
      refine ⟨?_, h.down, h.posted⟩
      have hpasses := h.up.move hmove
      rw [List.append_assoc] at hpasses
      exact hpasses
  | reply =>
      simp only [Duplex.step, Duplex.reply] at hstep
      split at hstep
      · cases hstep
      · rename_i m rest houtbox
        obtain ⟨s, htake, rfl⟩ := Option.map_eq_some_iff.mp hstep
        refine ⟨h.up, h.down.take htake (hfits m rest rfl houtbox), ?_⟩
        have hposted := h.posted
        rw [houtbox, List.append_cons] at hposted
        exact hposted
  | drop =>
      simp only [Duplex.step, Duplex.drop] at hstep
      split at hstep
      · cases hstep
      · rename_i m rest houtbox
        cases hstep
        refine ⟨h.up, h.down, ?_⟩
        have hposted := h.posted
        rw [houtbox] at hposted
        exact ((List.Sublist.refl _).append (List.sublist_cons_self _ _)).trans hposted
  | down a =>
      obtain ⟨r, hmove, rfl⟩ := Option.map_eq_some_iff.mp hstep
      refine ⟨h.up, ?_, h.posted⟩
      have hpasses := h.down.move hmove
      rw [List.append_assoc] at hpasses
      exact hpasses

/-- What such a step leaves alone. -/
theorem step_frame {a : Act up down} (hstep : k.step a = some k') :
    k'.asked = k.asked ∧ k'.arrived = k.arrived ∧ k'.posted = k.posted ∧
      k'.dispatched = k.dispatched := by
  cases a with
  | up a =>
      obtain ⟨r, _, rfl⟩ := Option.map_eq_some_iff.mp hstep
      exact ⟨rfl, rfl, rfl, rfl⟩
  | reply =>
      simp only [Duplex.step, Duplex.reply] at hstep
      split at hstep
      · cases hstep
      · obtain ⟨s, _, rfl⟩ := Option.map_eq_some_iff.mp hstep
        exact ⟨rfl, rfl, rfl, rfl⟩
  | drop =>
      simp only [Duplex.step, Duplex.drop] at hstep
      split at hstep <;> cases hstep
      exact ⟨rfl, rfl, rfl, rfl⟩
  | down a =>
      obtain ⟨r, _, rfl⟩ := Option.map_eq_some_iff.mp hstep
      exact ⟨rfl, rfl, rfl, rfl⟩

theorem ask_frame {m : I} (hstep : k.ask m = some k') :
    (k'.arrived = k.arrived ∧ k'.posted = k.posted ∧ k'.dispatched = k.dispatched) ∧
      k'.asked = k.asked ++ [m] := by
  obtain ⟨s, _, rfl⟩ := Option.map_eq_some_iff.mp hstep
  exact ⟨⟨rfl, rfl, rfl⟩, rfl⟩

theorem arrive_frame {m : O} (hstep : k.arrive = some (m, k')) :
    (k'.asked = k.asked ∧ k'.posted = k.posted ∧ k'.dispatched = k.dispatched) ∧
      k'.arrived = k.arrived ++ [m] := by
  unfold Duplex.arrive at hstep
  split at hstep <;> cases hstep
  exact ⟨⟨rfl, rfl, rfl⟩, rfl⟩

theorem incoming_of_arrive {m : O} (hstep : k.arrive = some (m, k')) :
    ∃ rest, k.incoming = m :: rest := by
  unfold Duplex.arrive at hstep
  split at hstep
  · cases hstep
  · rename_i m' rest hincoming
    cases hstep
    exact ⟨rest, hincoming⟩

theorem dispatch_frame {m : O'} (hstep : k.dispatch = some (m, k')) :
    (k'.asked = k.asked ∧ k'.posted = k.posted ∧ k'.arrived = k.arrived) ∧
      k'.dispatched = k.dispatched ++ [m] := by
  unfold Duplex.dispatch at hstep
  split at hstep <;> cases hstep
  exact ⟨⟨rfl, rfl, rfl⟩, rfl⟩

theorem mem_inbox_of_dispatch {m : O'} (hstep : k.dispatch = some (m, k')) : m ∈ k.inbox := by
  unfold Duplex.dispatch at hstep
  split at hstep
  · cases hstep
  · rename_i m' rest hinbox
    cases hstep
    rw [hinbox]
    exact List.mem_cons_self ..

/-- None of what was posted was dropped. -/
def Kept (k : Duplex up down) : Prop := k.replied ++ k.outbox = k.posted

theorem kept_init : ({} : Duplex up down).Kept := rfl

theorem Kept.post (h : k.Kept) (ms : List I') : (k.post ms).Kept := by
  show k.replied ++ (k.outbox ++ ms) = k.posted ++ ms
  rw [← List.append_assoc, h]

theorem Kept.ask (h : k.Kept) {m : I} (hstep : k.ask m = some k') : k'.Kept := by
  obtain ⟨s, _, rfl⟩ := Option.map_eq_some_iff.mp hstep
  exact h

theorem Kept.arrive (h : k.Kept) {m : O} (hstep : k.arrive = some (m, k')) : k'.Kept := by
  unfold Duplex.arrive at hstep
  split at hstep <;> cases hstep
  exact h

theorem Kept.dispatch (h : k.Kept) {m : O'} (hstep : k.dispatch = some (m, k')) : k'.Kept := by
  unfold Duplex.dispatch at hstep
  split at hstep <;> cases hstep
  exact h

theorem Kept.step (h : k.Kept) {a : Act up down} (ha : a ≠ .drop) (hstep : k.step a = some k') :
    k'.Kept := by
  cases a with
  | up a =>
      obtain ⟨r, _, rfl⟩ := Option.map_eq_some_iff.mp hstep
      exact h
  | reply =>
      simp only [Duplex.step, Duplex.reply] at hstep
      split at hstep
      · cases hstep
      · rename_i m rest houtbox
        obtain ⟨s, _, rfl⟩ := Option.map_eq_some_iff.mp hstep
        rw [Kept, houtbox, List.append_cons] at h
        exact h
  | drop => exact absurd rfl ha
  | down a =>
      obtain ⟨r, _, rfl⟩ := Option.map_eq_some_iff.mp hstep
      exact h

/-- What was looked at came from what was asked: the first of it, in order. -/
theorem Inv.arrived_forall₂ (h : Inv hup hdown k) :
    ∃ done, done <+: k.asked ∧ List.Forall₂ becomes done k.arrived := by
  obtain ⟨done, hdone, harrived⟩ := h.up.exists_prefix
  exact ⟨_, (List.take_prefix _ done).trans hdone, List.forall₂_take_append _ _ _ harrived⟩

/-- What came back was posted, in order. -/
theorem Inv.came_forall₂ (h : Inv hup hdown k) :
    ∃ done, done.Sublist k.posted ∧ List.Forall₂ becomes' done (k.dispatched ++ k.inbox) := by
  obtain ⟨done, hdone, hcame⟩ := h.down.exists_prefix
  exact ⟨done, hdone.sublist.trans ((List.sublist_append_left _ _).trans h.posted), hcame⟩

theorem Inv.dispatched_forall₂ (h : Inv hup hdown k) :
    ∃ done, done.Sublist k.posted ∧ List.Forall₂ becomes' done k.dispatched := by
  obtain ⟨done, hdone, hcame⟩ := h.came_forall₂
  exact ⟨_, (List.take_sublist _ done).trans hdone, List.forall₂_take_append _ _ _ hcame⟩

/-- Where the link up is empty too, all that was asked was looked at. -/
theorem Inv.all_arrived (h : Inv hup hdown k) (hlink : ∀ queue, hup.Holds k.up queue → queue = [])
    (hincoming : k.incoming = []) : List.Forall₂ becomes k.asked k.arrived := by
  obtain ⟨done, queue, hasked, hdone, hholds⟩ := h.up
  rw [hlink queue hholds, List.append_nil] at hasked
  rw [hincoming, List.append_nil] at hdone
  rw [hasked]
  exact hdone

/-- Nothing is left of what was posted. -/
structure Drained (hdown : down.Ordered becomes') (k : Duplex up down) : Prop where
  down : ∀ queue, hdown.Holds k.down queue → queue = []
  outbox : k.outbox = []
  inbox : k.inbox = []

/-- Then all of it was looked at. -/
theorem Inv.all_dispatched (h : Inv hup hdown k) (hkept : k.Kept) (hd : k.Drained hdown) :
    List.Forall₂ becomes' k.posted k.dispatched := by
  obtain ⟨done, queue, hreplied, hdone, hholds⟩ := h.down
  rw [hd.down queue hholds, List.append_nil] at hreplied
  rw [Kept, hd.outbox, List.append_nil] at hkept
  rw [hd.inbox, List.append_nil] at hdone
  rw [← hkept, hreplied]
  exact hdone

end Duplex

end LyqtRpc
