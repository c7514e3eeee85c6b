import LyqtRpc.GatewaySafety

/-!
The gateway as its client sees it: a well-formed request, sent on a connection of its own,
and the bytes that come back.
-/

set_option autoImplicit false

namespace LyqtRpc

open StepRun HttpServer

/-- The request is the first thing heard of, where no chunk ends inside it. -/
theorem HttpRequest.firstEvent_wire (r : HttpRequest) {buf : Bytes} {chunks : List Bytes}
    (hcat : buf ++ chunks.flatten = r.wire) (hbuf : buf.length < r.requestLine.length + 2)
    (h : r.Unbroken buf chunks) : firstEvent (effects buf chunks) = some (.callback r.req) := by
  induction chunks generalizing buf with
  | nil =>
    have hlen := r.le_length_wire
    rw [← hcat, List.flatten_nil, List.append_nil] at hlen
    omega
  | cons chunk chunks ih =>
    rw [r.unbroken_cons hbuf] at h
    rw [List.flatten_cons, ← List.append_assoc] at hcat
    rcases r.onMessage_wire hcat with
      ⟨hlen, hcall⟩ | ⟨hlen, hrest, buf', hcall, -⟩ | ⟨-, hcall⟩
    · simp only [effects, hcall]
      exact ih hcat hlen h
    · exact absurd ((r.unbroken_iff_of_le hlen).mp h) hrest
    · simp only [effects, hcall]
      rfl

/-- Whatever the backend and the files of the registry hold, the head of a response is text. -/
theorem Exchange.plain_due (util : JsonUtil) (e : Exchange) : (e.due util).Plain := by
  have hjson : ∀ (status : Int32) (body : Bytes), 0 ≤ status.toInt →
      ({ jsonResp with status }.setBody body).Plain := by
    intro status body hstatus
    have hentries : jsonResp.headers.entries =
        [(str "Content-Type", str "application/json")] := rfl
    refine ⟨hstatus, List.not_mem_nil, ?_, ?_⟩ <;> intro f hf
    · obtain rfl := List.mem_singleton.mp (hentries ▸ hf)
      exact ⟨⟨by decide, by decide +kernel⟩, by decide⟩
    · obtain rfl := List.mem_singleton.mp (hentries ▸ hf)
      exact ⟨by decide, by decide⟩
  have hok : ∀ body, (jsonResp.setBody body).Plain := fun body => hjson 200 body (by decide)
  unfold Exchange.due
  split
  · exact hjson 429 _ (by decide)
  · split
    · exact hjson 404 _ (by decide)
    · exact hok _
    · exact hok _
    · split
      · exact hjson 400 _ (by decide)
      · exact hok _
      · exact hjson 502 _ (by decide)
    · split
      · exact hjson 400 _ (by decide)
      · exact hok _
      · exact hjson 502 _ (by decide)

/-- A request of its own on a connection, in chunks none of which ends between the end of
the request line and the end of the request, is answered when its callback has returned:
with the response that is due, which the client reads when it has all of the bytes. -/
theorem gateway_answers (util : JsonUtil) (start : ℚ) {s : GatewayState}
    (h : Reachable (gatewayStep util) (gatewayInit start) s) (r : HttpRequest) (c : Nat)
    (hchunks : (s.conns c).chunks.flatten = r.wire) (hunbroken : r.Unbroken [] (s.conns c).chunks)
    (hreturned : (s.conns c).waiting = none) :
    ∃ e, s.ofConn c = [e] ∧ e.req = r.req ∧ e.Right util ∧
      (s.conns c).sent = [sendResponse e.resp] ∧
      ∀ arrived rest, arrived ++ rest = sendResponse e.resp →
        HttpAnswer.read arrived = if rest = [] then some ((e.due util).answer, []) else none := by
  have hsafe := (gatewayInv_of_reachable h).safe
  have hcat : ([] : Bytes) ++ (s.conns c).chunks.flatten = r.wire := hchunks
  have hbuf : ([] : Bytes).length < r.requestLine.length + 2 := by simp
  have hreqs := hsafe.requests c
  rw [(r.deliver_wire hcat hbuf).1 hunbroken, hreturned, Option.map_none, Option.toList_none,
    List.append_nil] at hreqs
  obtain ⟨e, he, hreq⟩ := List.map_eq_singleton_iff.mp hreqs.symm
  have hmem : e ∈ s.exchanges := by
    have hown : e ∈ s.ofConn c := he ▸ List.mem_singleton_self e
    exact (List.mem_filter.mp hown).1
  have hright := hsafe.right e hmem
  have hsent := hsafe.answered c
  rw [r.firstEvent_wire hcat hbuf hunbroken, he] at hsent
  refine ⟨e, he, hreq, hright, hsent, fun arrived rest harrived => ?_⟩
  rw [hright.answer] at harrived
  exact HttpResp.read_sendResponse (e.plain_due util) harrived

/-- `POST /api/echo` in two chunks. -/
def echoed : List GatewayAct :=
  [.receive 0 (str "POST /a") ⟨1, {}⟩, .receive 0 (echo.wire.drop 7) ⟨1, {}⟩,
    .backend 0 (.echo ⟨str "hi"⟩)]

theorem gateway_answers_echo : ∃ s,
    exec (gatewayStep hiJson) (gatewayInit 0) echoed = some s ∧
      ∃ e, s.ofConn 0 = [e] ∧ e.req = echo.req ∧ e.Right hiJson ∧
        (s.conns 0).sent = [sendResponse e.resp] ∧
        ∀ arrived rest, arrived ++ rest = sendResponse e.resp →
          HttpAnswer.read arrived =
            if rest = [] then some ((e.due hiJson).answer, []) else none := by
  have hview : (exec (gatewayStep hiJson) (gatewayInit 0) echoed).map (fun s =>
      ((s.conns 0).chunks, (s.conns 0).waiting.isNone)) =
      some ([str "POST /a", echo.wire.drop 7], true) := by decide +kernel
  obtain ⟨s, hs, hs'⟩ := Option.map_eq_some_iff.mp hview
  obtain ⟨hchunks, hwaiting⟩ := Prod.mk.inj hs'
  refine ⟨s, hs, gateway_answers hiJson 0 (.of_exec hs) echo 0 ?_ ?_ (by simpa using hwaiting)⟩
  · rw [hchunks]
    decide +kernel
  · rw [hchunks, echo.unbroken_cons (by simp), echo.unbroken_cons (by decide +kernel)]
    exact echo.unbroken_nil _

end LyqtRpc
