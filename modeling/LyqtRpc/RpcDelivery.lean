import LyqtRpc.RpcSystem

/-!
What a caller can count on when nothing goes wrong: no response is dropped, no callback
throws, nobody gives up waiting. Once nothing is on its way, every request that was sent
has its answer.
-/

set_option autoImplicit false

namespace LyqtRpc

variable {ι B : Type} {sys : RpcSystem ι B}

/-- The server answers, `conn->send` of the response succeeds, and there are no timeouts. -/
def RpcSystem.Lossless (h : sys.Orders) (s : RpcState sys) : RpcAct sys → Prop
  | .client (.timerFires ..) | .client (.waitTimeout ..) | .client .callbackThrows => False
  | .connection _ .dropReply => False
  | .connection c (.handle limiter) => ∀ req rest, (s.conns c).incoming = req :: rest →
      (sys.serve c limiter req).sent ≠ []
  | a => RpcSystem.Carried h s a

/-- Nothing of the connection is on its way. -/
structure RpcConnection.Drained (h : sys.Orders) (k : RpcConnection sys) : Prop where
  asked : ∀ queue, h.up.Holds k.up queue → queue = []
  incoming : k.incoming = []
  posted : k.toDuplex.Drained h.down

/-- Each request handled has its response, and none of them is lost. -/
structure ConnFull (k : RpcConnection sys) : Prop where
  kept : k.toDuplex.Kept
  each : (k.handled.flatMap fun e => e.2.sent).map BaseMessage.rid = k.handled.map fun e => e.1.rid

theorem RpcSystem.Lossless.carried {h : sys.Orders} {s : RpcState sys} {a : RpcAct sys}
    (ha : RpcSystem.Lossless h s a) : RpcSystem.Carried h s a := by
  cases a with
  | client a => trivial
  | send c req => exact ha
  | dispatch c => trivial
  | connection c a =>
      cases a with
      | reply => exact ha
      | _ => trivial

theorem ConnFull.step (h : sys.Orders) {c : ι} {k k' : RpcConnection sys}
    {a : ConnectionAct sys} (hk : ConnFull k) (hdrop : a ≠ .dropReply)
    (hanswers : ∀ limiter req rest, a = .handle limiter → k.incoming = req :: rest →
      (sys.serve c limiter req).sent ≠ [])
    (hstep : sys.connectionStep c k a = some k') : ConnFull k' := by
  cases a with
  | up a =>
      obtain ⟨link, hlink, rfl⟩ := Option.map_eq_some_iff.mp hstep
      exact ⟨hk.kept.step (a := .up a) (fun hdrop => by cases hdrop) hlink, hk.each⟩
  | handle limiter =>
      simp only [RpcSystem.connectionStep] at hstep
      split at hstep
      · rename_i req link harrive _ _
        cases hstep
        obtain ⟨rest, hincoming⟩ := Duplex.incoming_of_arrive harrive
        refine ⟨(hk.kept.arrive harrive).post _, ?_⟩
        rcases h.serve_once c limiter req with hnone | ⟨resp, hone, hrid, _⟩
        · exact absurd hnone (hanswers limiter req rest rfl hincoming)
        · simp only [List.flatMap_append, List.flatMap_singleton, List.map_append, hk.each, hone,
            List.map_singleton, hrid]
      · cases hstep
  | reply =>
      simp only [RpcSystem.connectionStep] at hstep
      split at hstep
      · cases hstep
      · obtain ⟨link, hlink, rfl⟩ := Option.map_eq_some_iff.mp hstep
        exact ⟨hk.kept.step (a := .reply) (fun hdrop => by cases hdrop) hlink, hk.each⟩
  | dropReply => exact absurd rfl hdrop
  | down a =>
      obtain ⟨link, hlink, rfl⟩ := Option.map_eq_some_iff.mp hstep
      exact ⟨hk.kept.step (a := .down a) (fun hdrop => by cases hdrop) hlink, hk.each⟩

/-- With nothing on its way, the ids of what was dispatched are those of what was asked. -/
theorem ConnFull.drained {h : sys.Orders} {c : ι} {k : RpcConnection sys} (hk : ConnFull k)
    (hinv : ConnInv h c k) (hd : k.Drained h) :
    k.dispatched.map BaseMessage.rid = k.asked.map BaseMessage.rid := by
  have hcame := hinv.link.all_dispatched hk.kept hd.posted
  have hhandled := hinv.link.all_arrived hd.asked hd.incoming
  rw [map_eq_of_forall₂ BaseMessage.rid BaseMessage.rid (fun _ _ => h.down_rid) hcame,
    ← map_eq_of_forall₂ BaseMessage.rid BaseMessage.rid (fun _ _ => h.up_rid) hhandled,
    hinv.posted, hk.each, hinv.arrived, List.map_map]
  rfl

/-- A request that is sent, or about to be. -/
def SendPc.live (pc : SendPc) : Bool :=
  pc = .runAfter ∨ pc = .connSend ∨ pc = .sent ∨ pc = .timedOut

/-- As long as nothing times out, a live request waits for its message, which `onResponse`
then hands on. `came`: the calls of `onResponse` for the request. -/
structure KeptAt {M : Type} (s : RequestorState M) (rid : Bytes) (came : List M) : Prop where
  flag : (s.requests rid).desc.timeoutTriggered = false
  waiting : came = [] ∨ s.io.held rid ≠ [] →
    (s.requests rid).pending = true ∧ (s.requests rid).desc.response = none
  handedOn : ∀ msg ∈ came, msg ∈ s.io.held rid ∨ msg ∈ (s.requests rid).calledBack ∨
    (s.requests rid).desc.response = some (.response msg)

section Kept
variable {M : Type} {s t : RequestorState M} {rid : Bytes} {came : List M}

/-- A step about another request. -/
theorem KeptAt.of_other (h : KeptAt s rid came) (hrequest : t.requests rid = s.requests rid)
    (hheld : t.io.held rid = s.io.held rid) : KeptAt t rid came where
  flag := hrequest ▸ h.flag
  waiting := by
    rw [hrequest, hheld]
    exact h.waiting
  handedOn := by
    rw [hrequest, hheld]
    exact h.handedOn

theorem ResponsePc.held_of_rid {pc : ResponsePc M} (h : pc.rid ≠ some rid) : pc.held rid = [] := by
  cases pc with
  | idle => rfl
  | delDesc rid' => rfl
  | getDesc rid' msg late => exact if_neg fun heq => h (congrArg some heq)
  | checkTimeout rid' msg late => exact if_neg fun heq => h (congrArg some heq)
  | settle rid' msg late => exact if_neg fun heq => h (congrArg some heq)

/-- `onResponse` goes on; nothing came but what it holds. -/
theorem ioStep_keptAt (h : KeptAt s rid came) (hcame : ∀ msg ∈ s.io.held rid, came = [msg])
    (herasing : s.io = .delDesc rid → came ≠ []) (hstep : ioStep s = some t) :
    KeptAt t rid came := by
  obtain ⟨rid', hrid', hframe, _, hio', _⟩ := ioStep_frame hstep
  by_cases hrid : rid = rid'
  · subst hrid
    cases hio : s.io with
    | idle => simp [ioStep, hio] at hstep
    | getDesc rid' msg late =>
        obtain rfl : rid' = rid := by simpa [hio, ResponsePc.rid] using hrid'
        have hheld : s.io.held rid' = [msg] := by simp [hio, ResponsePc.held]
        obtain ⟨hpending, hnone⟩ := h.waiting (.inr (by simp [hheld]))
        simp only [ioStep, hio, hpending, if_true] at hstep
        cases hstep
        simp only [RequestorState.found, RequestorState.modify]
        constructor <;> simp only [Function.update_self, ResponsePc.held, if_true]
        · exact h.flag
        · exact fun _ => ⟨hpending, hnone⟩
        · intro m hm
          rw [hcame msg (by simp [hheld])] at hm
          exact .inl hm
    | checkTimeout rid' msg late =>
        obtain rfl : rid' = rid := by simpa [hio, ResponsePc.rid] using hrid'
        have hheld : s.io.held rid' = [msg] := by simp [hio, ResponsePc.held]
        simp only [ioStep, hio, h.flag, Bool.false_eq_true, if_false] at hstep
        cases hstep
        exact h.of_other rfl (by rw [hheld]; exact if_pos rfl)
    | settle rid' msg late =>
        obtain rfl : rid' = rid := by simpa [hio, ResponsePc.rid] using hrid'
        have hheld : s.io.held rid' = [msg] := by simp [hio, ResponsePc.held]
        have honly := hcame msg (by simp [hheld])
        obtain ⟨hpending, hnone⟩ := h.waiting (.inr (by simp [hheld]))
        simp only [ioStep, hio, hnone, Option.isSome_none, Bool.false_eq_true, if_false] at hstep
        split at hstep <;> cases hstep <;>
          simp only [RequestorState.setValue, RequestorState.modify] <;>
          constructor <;> simp only [Function.update_self, ResponsePc.held, honly]
        · exact h.flag
        · simp
        · simp
        · exact h.flag
        · simp
        · simp
    | delDesc rid' =>
        obtain rfl : rid' = rid := by simpa [hio, ResponsePc.rid] using hrid'
        have hne := herasing hio
        simp only [ioStep, hio] at hstep
        cases hstep
        simp only [RequestorState.delDesc, RequestorState.modify]
        constructor <;> simp only [Function.update_self, ResponsePc.held]
        · exact h.flag
        · simp [hne]
        · intro m hm
          rcases h.handedOn m hm with hmem | hrest
          · simp [hio, ResponsePc.held] at hmem
          · exact .inr hrest
  · have hs : s.io.rid ≠ some rid := by
      rw [hrid']
      exact fun heq => hrid (Option.some.inj heq).symm
    have ht : t.io.rid ≠ some rid := fun heq => hrid (hio' rid heq).symm
    refine h.of_other (hframe rid hrid) ?_
    rw [ResponsePc.held_of_rid hs, ResponsePc.held_of_rid ht]

end Kept

/-- `came` for every request, where no call of `onTimeout` is running. -/
structure ClientKept {M : Type} (client : PendingState M) (came : Bytes → List M) : Prop where
  idle : ∀ i, client.core.timeouts i = .idle
  kept : ∀ rid, (client.calls rid).pc.live = true → KeptAt client.core rid (came rid)
  erasing : ∀ rid, client.core.io = .delDesc rid → came rid ≠ []

/-- Not the step of a timer, of a sender that gives up, or of a callback that throws. -/
def inTime {M : Type} : PendingAct M → Bool
  | .timerFires .. | .waitTimeout .. | .callbackThrows => false
  | _ => true

section Client
variable {M : Type} {s t : PendingState M} {came : Bytes → List M}

theorem ClientKept.of_core (h : ClientKept s came) (hcore : t.core = s.core)
    (hlive : ∀ rid, (t.calls rid).pc.live = true → (s.calls rid).pc.live = true) :
    ClientKept t came where
  idle := hcore ▸ h.idle
  kept rid hl := hcore ▸ h.kept rid (hlive rid hl)
  erasing := hcore ▸ h.erasing

theorem live_update {calls : Bytes → SendCall} {rid rid' : Bytes} {c : SendCall}
    (h : (Function.update calls rid' c rid).pc.live = true)
    (hc : c.pc.live = true → (calls rid').pc.live = true) : (calls rid).pc.live = true := by
  by_cases hrid : rid = rid'
  · subst hrid
    rw [Function.update_self] at h
    exact hc h
  · rwa [Function.update_of_ne hrid] at h

theorem ClientKept.ioRun (h : ClientKept s came)
    (hheld : ∀ rid, ∀ msg ∈ s.core.io.held rid, came rid = [msg]) {core : RequestorState M}
    (hstep : ioStep s.core = some core) : ClientKept (s.afterHandler .ioRun core) came := by
  have hcalls : ∀ rid, ((s.afterHandler .ioRun core).calls rid).pc = (s.calls rid).pc := by
    intro rid
    unfold PendingState.afterHandler
    split
    · rename_i rid' _
      simp only [PendingState.cancel, PendingState.setCall, Function.update_apply]
      split
      · rename_i hrid
        rw [hrid]
      · rfl
    · rfl
  constructor
  · rw [afterHandler_core]
    obtain ⟨_, _, _, _, _, htimeouts⟩ := ioStep_frame hstep
    rw [htimeouts]
    exact h.idle
  · intro rid hl
    rw [afterHandler_core]
    rw [hcalls] at hl
    exact ioStep_keptAt (h.kept rid hl) (hheld rid) (h.erasing rid) hstep
  · intro rid hio
    rw [afterHandler_core] at hio
    -- only `settle` goes on to `delDesc`, and it holds the message
    cases hs : s.core.io with
    | settle rid' msg late =>
        obtain ⟨r, hr, _, _, hlast, _⟩ := ioStep_frame hstep
        have hrid : r = rid := hlast rid (by rw [hio]; rfl)
        have hrid' : rid' = rid := by
          rw [hs] at hr
          exact (Option.some.inj hr).trans hrid
        rw [hheld rid msg (by simp [hs, ResponsePc.held, hrid'])]
        simp
    | idle => simp [ioStep, hs] at hstep
    | getDesc rid' msg late =>
        simp only [ioStep, hs] at hstep
        split at hstep <;> cases hstep <;> cases hio
    | checkTimeout rid' msg late =>
        simp only [ioStep, hs] at hstep
        split at hstep <;> cases hstep <;> cases hio
    | delDesc rid' =>
        simp only [ioStep, hs] at hstep
        cases hstep
        cases hio

/-- A new request waits from the start; nothing came for it. -/
theorem ClientKept.newDesc {rid : Bytes} {mode : CallMode} {proto : Bool} (h : ClientKept s came)
    (hunused : ∀ rid, (s.calls rid).pc = .unused → came rid = [])
    (hstep : pendingStep s (.newDesc rid mode proto) = some t) : ClientKept t came := by
  simp only [pendingStep] at hstep
  split at hstep
  · rename_i hpc
    cases hstep
    refine ⟨h.idle, ?_, h.erasing⟩
    intro rid' hl
    have hcame := hunused rid hpc
    by_cases hrid : rid' = rid
    · subst hrid
      simp only [RequestorState.modify]
      constructor <;> simp only [Function.update_self]
      · exact fun _ => ⟨trivial, trivial⟩
      · rw [hcame]
        exact fun msg hmsg => absurd hmsg List.not_mem_nil
    · simp only [Function.update_of_ne hrid] at hl
      exact (h.kept rid' hl).of_other (Function.update_of_ne hrid ..) rfl
  · cases hstep

theorem ClientKept.delDesc {rid : Bytes} (h : ClientKept s came)
    (hstep : pendingStep s (.delDesc rid) = some t) : ClientKept t came := by
  simp only [pendingStep] at hstep
  split at hstep
  · cases hstep
    refine ⟨h.idle, ?_, h.erasing⟩
    intro rid' hl
    by_cases hrid : rid' = rid
    · subst hrid
      simp only [PendingState.setPc, PendingState.setCall, Function.update_self] at hl
      cases hl
    · simp only [PendingState.setPc, PendingState.cancel, PendingState.setCall,
        Function.update_of_ne hrid] at hl
      exact (h.kept rid' hl).of_other (Function.update_of_ne hrid ..) rfl
  · cases hstep

theorem ClientKept.step {a : PendingAct M} (h : ClientKept s came)
    (hunused : ∀ rid, (s.calls rid).pc = .unused → came rid = [])
    (hheld : ∀ rid, ∀ msg ∈ s.core.io.held rid, came rid = [msg]) (hok : inTime a = true)
    (ha : ∀ rid msg, a ≠ .onResponse rid msg) (hstep : pendingStep s a = some t) :
    ClientKept t came := by
  cases a with
  | newDesc rid mode proto => exact h.newDesc hunused hstep
  | runAfter rid =>
      simp only [pendingStep] at hstep
      split at hstep <;> cases hstep
      rename_i hpc
      exact h.of_core rfl fun rid' hl => live_update hl fun _ => by rw [hpc]; rfl
  | connSend rid sent =>
      simp only [pendingStep] at hstep
      split at hstep <;> cases hstep
      rename_i hpc
      exact h.of_core rfl fun rid' hl => live_update hl fun _ => by rw [hpc]; rfl
  | delDesc rid => exact h.delDesc hstep
  | timerFires i rid => cases hok
  | waitTimeout i rid => cases hok
  | elapse rid =>
      simp only [pendingStep] at hstep
      split at hstep <;> cases hstep <;>
        exact h.of_core rfl fun rid' hl => live_update hl id
  | onResponse rid msg => exact absurd rfl (ha rid msg)
  | ioRun =>
      obtain ⟨core, hcore, rfl⟩ := Option.map_eq_some_iff.mp hstep
      exact h.ioRun hheld hcore
  | callbackThrows => cases hok
  | timeoutRun i =>
      obtain ⟨core, hcore, rfl⟩ := Option.map_eq_some_iff.mp hstep
      simp [timeoutStep, h.idle i] at hcore

/-- The first message for a request is called with. -/
theorem ClientKept.onResponse {rid : Bytes} {msg : M} (h : ClientKept s came)
    (hnew : came rid = []) (hstep : pendingStep s (.onResponse rid msg) = some t) :
    ClientKept t fun rid' => if rid = rid' then came rid' ++ [msg] else came rid' := by
  simp only [pendingStep] at hstep
  split at hstep
  · rename_i hio
    cases hstep
    refine ⟨h.idle, ?_, fun rid' heq => by cases heq⟩
    intro rid' hl
    have hkept := h.kept rid' (live_update hl id)
    by_cases hrid : rid = rid'
    · subst hrid
      simp only [RequestorState.started, RequestorState.modify, if_true, hnew, List.nil_append]
      constructor <;> simp only [Function.update_self, ResponsePc.held, if_true]
      · exact hkept.flag
      · exact fun _ => hkept.waiting (.inl hnew)
      · exact fun m hm => .inl hm
    · have hne : rid' ≠ rid := fun heq => hrid heq.symm
      simp only [if_neg hrid]
      refine hkept.of_other (Function.update_of_ne hne ..) ?_
      rw [hio]
      exact if_neg hrid
  · cases hstep

end Client

/-- The invariant of a run in which nothing goes wrong. -/
structure DeliveryInv (h : sys.Orders) (s : RpcState sys) : Prop where
  inv : RpcInv h s
  full : ∀ c, ConnFull (s.conns c)
  all : ∀ c, ∀ msg ∈ (s.conns c).dispatched, (c, msg) ∈ s.delivered
  kept : ClientKept s.client s.came

namespace RpcInv
variable {h : sys.Orders} {s : RpcState sys}

/-- Nothing has come for a request that was not sent. -/
theorem came_unused (hs : RpcInv h s) {rid : Bytes} (hpc : (s.client.calls rid).pc = .unused) :
    s.came rid = [] := by
  by_contra hne
  obtain ⟨msg, hmsg⟩ := List.exists_mem_of_ne_nil _ hne
  rw [RpcState.came, List.mem_filter, decide_eq_true_eq] at hmsg
  obtain ⟨⟨c, msg'⟩, hd, rfl⟩ := List.mem_map.mp hmsg.1
  have hasked := (hs.conn c).rid_asked (List.mem_append_left _ (hs.delivered _ hd))
  obtain ⟨req, hreq, hrid⟩ := List.mem_map.mp hasked
  have hhanded := hs.handed c req hreq
  rw [hrid, hmsg.2, hpc] at hhanded
  cases hhanded

theorem came_held (hs : RpcInv h s) (rid : Bytes) :
    ∀ msg ∈ s.client.core.io.held rid, s.came rid = [msg] :=
  fun _ hmsg => hs.came_unique ((hs.traced rid).called.subset (List.mem_append_right _ hmsg))

end RpcInv

namespace DeliveryInv
variable {h : sys.Orders} {s t : RpcState sys}

theorem initial : DeliveryInv h sys.initial where
  inv := .initial
  full _ := ⟨rfl, rfl⟩
  all _ _ hmsg := nomatch hmsg
  kept := ⟨fun _ => rfl, fun _ hl => absurd hl Bool.false_ne_true, fun _ hio => nomatch hio⟩

theorem inTime_of_lossless {a : PendingAct (BaseMessage B)}
    (ha : RpcSystem.Lossless h s (.client a)) : inTime a = true := by
  cases a with
  | timerFires i rid => exact ha.elim
  | waitTimeout i rid => exact ha.elim
  | callbackThrows => exact ha.elim
  | _ => rfl

theorem client {a : PendingAct (BaseMessage B)} {client : PendingState (BaseMessage B)}
    (hs : DeliveryInv h s) (hok : inTime a = true) (ha : ∀ rid msg, a ≠ .onResponse rid msg)
    (hstep : pendingStep s.client a = some client) : ClientKept client s.came :=
  hs.kept.step (fun _ => hs.inv.came_unused) hs.inv.came_held hok ha hstep

/-- On a connection with nothing on its way, every request has its answer. -/
theorem receives {c : ι} (hs : DeliveryInv h s) (hd : (s.conns c).Drained h)
    (hio : s.client.core.io = .idle) {req : BaseMessage B} (hreq : req ∈ (s.conns c).asked) :
    ∃ msg, s.Receives req.rid msg ∧ AnsweredBy h c (s.conns c) req.rid msg := by
  have hrids := (hs.full c).drained (hs.inv.conn c) hd
  have hmem : req.rid ∈ (s.conns c).dispatched.map BaseMessage.rid :=
    hrids ▸ List.mem_map_of_mem hreq
  obtain ⟨msg, hmsg, hrid⟩ := List.mem_map.mp hmem
  have hcame : msg ∈ s.came req.rid := by
    rw [RpcState.came, List.mem_filter, decide_eq_true_eq]
    exact ⟨List.mem_map.mpr ⟨_, hs.all c msg hmsg, rfl⟩, hrid⟩
  have hlive : (s.client.calls req.rid).pc.live = true := by
    have hhanded := hs.inv.handed c req hreq
    simp only [SendPc.handed, SendPc.live, decide_eq_true_eq] at hhanded ⊢
    exact .inr (.inr hhanded)
  refine ⟨msg, ?_, hrid ▸ (hs.inv.conn c).answeredBy (List.mem_append_left _ hmsg)⟩
  rcases (hs.kept.kept req.rid hlive).handedOn msg hcame with hheld | hreceived
  · rw [hio] at hheld
    cases hheld
  · exact hreceived

variable [DecidableEq ι]

theorem connection {c : ι} {a : ConnectionAct sys} (hs : DeliveryInv h s)
    (hok : RpcSystem.Lossless h s (.connection c a))
    (hstep : sys.step s (.connection c a) = some t) : DeliveryInv h t := by
  have hinv := hs.inv.step hok.carried hstep
  obtain ⟨k, hk, rfl⟩ := Option.map_eq_some_iff.mp hstep
  have hfull : ConnFull k := by
    refine (hs.full c).step h ?_ ?_ hk
    · intro ha
      subst ha
      exact hok.elim
    · intro limiter req rest ha hincoming
      subst ha
      exact hok req rest hincoming
  refine ⟨hinv, ?_, ?_, hs.kept⟩
  · intro c'
    rw [RpcInv.conns_setConn]
    split
    · exact hfull
    · exact hs.full c'
  · intro c' msg hmsg
    rw [RpcInv.conns_setConn] at hmsg
    split at hmsg
    · rename_i hc
      rw [(RpcSystem.connectionStep_frame hk).2.1] at hmsg
      exact hc ▸ hs.all c msg hmsg
    · exact hs.all c' msg hmsg

theorem deliver {c : ι} {msg : BaseMessage B} {link : Duplex sys.up sys.down}
    {client : PendingState (BaseMessage B)} (hs : DeliveryInv h s)
    (hdispatch : (s.conns c).toDuplex.dispatch = some (msg, link))
    (hclient : pendingStep s.client (.onResponse msg.rid msg) = some client) :
    DeliveryInv h { s.setConn c { s.conns c with toDuplex := link } with
      client, delivered := s.delivered ++ [(c, msg)] } := by
  refine ⟨hs.inv.deliver hdispatch hclient, ?_, ?_, ?_⟩
  · intro c'
    show ConnFull ((s.setConn c _).conns c')
    rw [RpcInv.conns_setConn]
    split
    · exact ⟨(hs.full c).kept.dispatch hdispatch, (hs.full c).each⟩
    · exact hs.full c'
  · intro c' msg' hmsg'
    have hmem : msg' ∈ ((s.setConn c { s.conns c with toDuplex := link }).conns c').dispatched :=
      hmsg'
    rw [RpcInv.conns_setConn] at hmem
    show (c', msg') ∈ s.delivered ++ [(c, msg)]
    split at hmem
    · rename_i hc
      subst hc
      have hdispatched : link.dispatched = _ := (Duplex.dispatch_frame hdispatch).2
      rcases List.mem_append.mp (hdispatched ▸ hmem) with hold | hnew
      · exact List.mem_append_left _ (hs.all c' msg' hold)
      · rw [List.mem_singleton.mp hnew]
        exact List.mem_append_right _ (List.mem_singleton_self _)
    · exact List.mem_append_left _ (hs.all c' msg' hmem)
  · have hmem := Duplex.mem_inbox_of_dispatch hdispatch
    have hnew : s.came msg.rid = [] := by
      rw [RpcState.came, List.filter_eq_nil_iff]
      intro msg' hmsg' hrid
      obtain ⟨d, hd, rfl⟩ := List.mem_map.mp hmsg'
      apply hs.inv.not_delivered hmem
      exact List.mem_map.mpr ⟨d, hd, of_decide_eq_true hrid⟩
    have hkept := hs.kept.onResponse hnew hclient
    have hcame : ∀ rid, (RpcState.came { s.setConn c { s.conns c with toDuplex := link } with
        client, delivered := s.delivered ++ [(c, msg)] } rid) =
        if msg.rid = rid then s.came rid ++ [msg] else s.came rid := by
      intro rid
      by_cases hrid : msg.rid = rid <;> simp [RpcState.came, hrid]
    rw [← funext hcame] at hkept
    exact hkept

theorem step {a : RpcAct sys} (hs : DeliveryInv h s) (hok : RpcSystem.Lossless h s a)
    (hstep : sys.step s a = some t) : DeliveryInv h t := by
  have hinv := hs.inv.step hok.carried hstep
  cases a with
  | client a =>
      simp only [RpcSystem.step] at hstep
      split at hstep
      · cases hstep
      · rename_i hnot
        obtain ⟨client, hclient, rfl⟩ := Option.map_eq_some_iff.mp hstep
        exact ⟨hinv, hs.full, hs.all, hs.client (inTime_of_lossless hok) hnot hclient⟩
  | send c req =>
      simp only [RpcSystem.step] at hstep
      split at hstep
      · rename_i client link _ hclient hask
        cases hstep
        refine ⟨hinv, ?_, ?_, hs.client rfl (by simp) hclient⟩
        · intro c'
          show ConnFull ((s.setConn c _).conns c')
          rw [RpcInv.conns_setConn]
          split
          · exact ⟨(hs.full c).kept.ask hask, (hs.full c).each⟩
          · exact hs.full c'
        · intro c' msg hmsg
          have hmem : msg ∈
              ((s.setConn c { s.conns c with toDuplex := link }).conns c').dispatched := hmsg
          rw [RpcInv.conns_setConn] at hmem
          split at hmem
          · rename_i hc
            have hdispatched : link.dispatched = _ := (Duplex.ask_frame hask).1.2.2
            exact hc ▸ hs.all c msg (hdispatched ▸ hmem)
          · exact hs.all c' msg hmem
      · cases hstep
  | connection c a => exact hs.connection hok hstep
  | dispatch c =>
      simp only [RpcSystem.step] at hstep
      split at hstep
      · cases hstep
      · rename_i msg link hdispatch
        split at hstep
        · obtain ⟨client, hclient, rfl⟩ := Option.map_eq_some_iff.mp hstep
          exact hs.deliver hdispatch hclient
        · rename_i hnot
          have hmem : msg ∈ (s.conns c).dispatched ++ (s.conns c).inbox :=
            List.mem_append_right _ (Duplex.mem_inbox_of_dispatch hdispatch)
          exact absurd ((hs.inv.conn c).expects hmem) hnot

end DeliveryInv

theorem RpcSystem.run_delivers [DecidableEq ι] {sys : RpcSystem ι B} (h : sys.Orders)
    {s : RpcState sys} (hrun : StepRun.Run sys.step (RpcSystem.Lossless h) sys.initial s) :
    DeliveryInv h s :=
  hrun.invariant (DeliveryInv h) .initial fun _ _ _ hi hok hstep => hi.step hok hstep

end LyqtRpc
