import Mathlib.Data.List.Forall2

/-!
A link carries messages one way, in steps of its own. It is ordered if a queue
simulates it: what it takes goes in at one end, and what comes out at the other is
what those messages become on the way.
-/

set_option autoImplicit false

namespace LyqtRpc

/-- `take` is the step in which the link takes the message over; `move` is any other,
with what it hands out. -/
structure Link (I O : Type) where
  State : Type
  Act : Type
  init : State
  take : State → I → Option State
  move : State → Act → Option (State × List O)

namespace Link
variable {I O F : Type}

/-- The queue that simulates the link, as long as every message it takes becomes
something. -/
structure Ordered (L : Link I O) (becomes : I → O → Prop) where
  Holds : L.State → List I → Prop
  init : Holds L.init []
  take : ∀ {s t m queue}, Holds s queue → L.take s m = some t → (∃ o, becomes m o) →
    Holds t (queue ++ [m])
  move : ∀ {s t a os queue}, Holds s queue → L.move s a = some (t, os) →
    ∃ ms queue', queue = ms ++ queue' ∧ List.Forall₂ becomes ms os ∧ Holds t queue'

namespace Ordered
variable {L : Link I O} {becomes : I → O → Prop} (h : L.Ordered becomes)

/-- Of all the messages taken so far, the first have been given; the rest are on their
way. -/
def Passes (s : L.State) (taken : List I) (given : List O) : Prop :=
  ∃ done queue, taken = done ++ queue ∧ List.Forall₂ becomes done given ∧ h.Holds s queue

theorem passes_init : h.Passes L.init [] [] := ⟨[], [], rfl, .nil, h.init⟩

variable {h} {s t : L.State} {taken : List I} {given : List O}

theorem Passes.take {m : I} (hs : h.Passes s taken given) (hstep : L.take s m = some t)
    (hfits : ∃ o, becomes m o) : h.Passes t (taken ++ [m]) given := by
  obtain ⟨done, queue, rfl, hdone, hholds⟩ := hs
  exact ⟨done, queue ++ [m], List.append_assoc .., hdone, h.take hholds hstep hfits⟩

theorem Passes.move {a : L.Act} {os : List O} (hs : h.Passes s taken given)
    (hstep : L.move s a = some (t, os)) : h.Passes t taken (given ++ os) := by
  obtain ⟨done, queue, rfl, hdone, hholds⟩ := hs
  obtain ⟨ms, queue', rfl, hms, hholds'⟩ := h.move hholds hstep
  exact ⟨done ++ ms, queue', (List.append_assoc ..).symm, List.rel_append hdone hms, hholds'⟩

theorem Passes.exists_prefix (hs : h.Passes s taken given) :
    ∃ done, done <+: taken ∧ List.Forall₂ becomes done given := by
  obtain ⟨done, queue, htaken, hdone, _⟩ := hs
  exact ⟨done, ⟨queue, htaken.symm⟩, hdone⟩

end Ordered

/-- If a message becomes one thing only, what is known of it when it is taken is known of
what comes out. -/
def Ordered.restrict {L : Link I O} {becomes : I → O → Prop} (h : L.Ordered becomes)
    (kept : I → O → Prop) (unique : ∀ {m o o'}, becomes m o → becomes m o' → o = o') :
    L.Ordered fun m o => becomes m o ∧ kept m o where
  Holds s queue := h.Holds s queue ∧ ∀ m ∈ queue, ∃ o, becomes m o ∧ kept m o
  init := ⟨h.init, fun m hm => nomatch hm⟩
  take := by
    intro s t m queue hs hstep hfits
    refine ⟨h.take hs.1 hstep (hfits.imp fun o ho => ho.1), ?_⟩
    intro m' hmem
    rcases List.mem_append.mp hmem with hold | hnew
    · exact hs.2 m' hold
    · rw [List.mem_singleton.mp hnew]
      exact hfits
  move := by
    intro s t a os queue hs hstep
    obtain ⟨ms, queue', rfl, hms, hholds⟩ := h.move hs.1 hstep
    refine ⟨ms, queue', rfl, ?_, hholds, fun m hm => hs.2 m (List.mem_append_right _ hm)⟩
    have hkept : ∀ m ∈ ms, ∃ o, becomes m o ∧ kept m o :=
      fun m hm => hs.2 m (List.mem_append_left _ hm)
    clear hs hstep hholds
    induction hms with
    | nil => exact .nil
    | cons hm _ ih =>
        obtain ⟨o, ho, hko⟩ := hkept _ (List.mem_cons_self ..)
        obtain rfl := unique hm ho
        exact .cons ⟨hm, hko⟩ (ih fun m' hm' => hkept m' (List.mem_cons_of_mem _ hm'))

/-- A link for messages, over one for frames. A message without a frame is not taken, and a
frame that is no message is passed over. -/
def coded (L : Link F F) (encode : I → Option F) (decode : F → Option O) : Link I O where
  State := L.State
  Act := L.Act
  init := L.init
  take s m :=
    match encode m with
    | some f => L.take s f
    | none => none
  move s a := (L.move s a).map fun r => (r.1, r.2.filterMap decode)

/-- The frame of a message that can be read. -/
def IsFrame (encode : I → Option F) (decode : F → Option O) (m : I) (f : F) : Prop :=
  encode m = some f ∧ ∃ o, decode f = some o

theorem forall₂_filterMap {encode : I → Option F} {decode : F → Option O} {ms : List I}
    {fs : List F} (h : List.Forall₂ (IsFrame encode decode) ms fs) :
    List.Forall₂ (fun m o => (encode m).bind decode = some o) ms (fs.filterMap decode) := by
  induction h with
  | nil => exact .nil
  | cons hframe _ ih =>
      obtain ⟨hf, o, ho⟩ := hframe
      rw [List.filterMap_cons, ho]
      exact .cons (by rw [hf, Option.bind_some, ho]) ih

/-- If the frames come in order, so do the messages whose frames decode. -/
def Ordered.coded {L : Link F F} (h : L.Ordered Eq) (encode : I → Option F)
    (decode : F → Option O) :
    (L.coded encode decode).Ordered fun m o => (encode m).bind decode = some o where
  Holds s queue := ∃ fs, h.Holds s fs ∧ List.Forall₂ (IsFrame encode decode) queue fs
  init := ⟨[], h.init, .nil⟩
  take := by
    intro s t m queue hs hstep hfits
    obtain ⟨fs, hholds, hframes⟩ := hs
    obtain ⟨o, ho⟩ := hfits
    obtain ⟨f, hf, hdecode⟩ := Option.bind_eq_some_iff.mp ho
    simp only [Link.coded, hf] at hstep
    exact ⟨fs ++ [f], h.take hholds hstep ⟨_, rfl⟩,
      List.rel_append hframes (.cons ⟨hf, o, hdecode⟩ .nil)⟩
  move := by
    intro s t a os queue hs hstep
    obtain ⟨fs, hholds, hframes⟩ := hs
    obtain ⟨⟨u, given⟩, hmove, heq⟩ := Option.map_eq_some_iff.mp hstep
    cases heq
    obtain ⟨first, later, rfl, hgiven, hholds'⟩ := h.move hholds hmove
    obtain rfl := List.forall₂_eq_eq_eq ▸ hgiven
    refine ⟨queue.take first.length, queue.drop first.length, (List.take_append_drop ..).symm,
      forall₂_filterMap ?_, later, hholds', ?_⟩
    · exact List.forall₂_take_append _ _ _ hframes
    · exact List.forall₂_drop_append _ _ _ hframes

end Link

theorem forall₂_trans {α β γ : Type} {r : α → β → Prop} {r' : β → γ → Prop} {r'' : α → γ → Prop}
    (htrans : ∀ a b c, r a b → r' b c → r'' a c) {as : List α} {bs : List β} {cs : List γ}
    (h : List.Forall₂ r as bs) (h' : List.Forall₂ r' bs cs) : List.Forall₂ r'' as cs := by
  induction h generalizing cs with
  | nil =>
      cases h'
      exact .nil
  | cons hab _ ih =>
      cases h' with
      | cons hbc hrest => exact .cons (htrans _ _ _ hab hbc) (ih hrest)

theorem map_eq_of_forall₂ {α β γ : Type} {r : α → β → Prop} (f : α → γ) (g : β → γ)
    (hr : ∀ a b, r a b → g b = f a) {as : List α} {bs : List β} (h : List.Forall₂ r as bs) :
    bs.map g = as.map f := by
  induction h with
  | nil => rfl
  | cons hab _ ih => rw [List.map_cons, List.map_cons, hr _ _ hab, ih]

/-- What is related to some of a list is some of what is related to it. -/
theorem exists_sublist_of_forall₂ {α β : Type} {r : α → β → Prop} {as : List α}
    {bs bs' : List β} (h : List.Forall₂ r as bs) (hsub : bs'.Sublist bs) :
    ∃ as', as'.Sublist as ∧ List.Forall₂ r as' bs' := by
  induction hsub generalizing as with
  | slnil => exact ⟨[], List.nil_sublist _, .nil⟩
  | cons b _ ih =>
      cases h with
      | cons hab hrest =>
          obtain ⟨as', hsub, has'⟩ := ih hrest
          exact ⟨as', hsub.cons _, has'⟩
  | cons_cons b _ ih =>
      cases h with
      | cons hab hrest =>
          obtain ⟨as', hsub, has'⟩ := ih hrest
          exact ⟨_ :: as', hsub.cons_cons _, .cons hab has'⟩

end LyqtRpc
