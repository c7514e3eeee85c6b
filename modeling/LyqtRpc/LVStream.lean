import LyqtRpc.LVProtocol

/-!
What `LVProtocol::serialize` writes, `LVProtocol::onMessage` reads back, and
the server's loop dispatches it however the network cuts the stream.
-/

set_option autoImplicit false

namespace LyqtRpc

open ChunkStream

@[simp] theorem putInt32_length (x : Int32) : (putInt32 x).length = 4 := beBytes_length _ _

theorem peekInt32_putInt32 (x : Int32) (rest : Bytes) : peekInt32 (putInt32 x ++ rest) = x := by
  have htake : (putInt32 x ++ rest).take 4 = putInt32 x := by simp
  rw [peekInt32, htake, putInt32, ofBe_beBytes_of_lt (Int32.word_lt x), Int32.ofWord_word]

theorem readInt32_putInt32 (x : Int32) (rest : Bytes) :
    readInt32 (putInt32 x ++ rest) = some (x, rest) := by
  have hlen : ¬ (putInt32 x ++ rest).length < 4 := by simp
  have hdrop : (putInt32 x ++ rest).drop 4 = rest := by simp
  rw [readInt32, if_neg hlen, peekInt32_putInt32, hdrop]

theorem retrieveAsString_append (a rest : Bytes) :
    retrieveAsString a.length (a ++ rest) = some (a, rest) := by
  simp [retrieveAsString]

theorem Serializer.encoded_of_encode {B : Type} {ser : Serializer B} {m : BaseMessage B}
    {data : Bytes} (h : ser.encode m = .ok data) : ser.encoded m = data := by
  rw [encoded, h]
  rfl

namespace LVProtocol
variable {B : Type} (ser : Serializer B) (m : BaseMessage B)

/-- `total_len`, when nothing overflows. -/
def totalLen : Nat := 8 + m.rid.length + (ser.encoded m).length

/-- What the codec has to do for one message: a body that is not empty and
decodes, into a fresh message of the type, to an equal body. -/
structure CodecOk : Prop where
  nonempty : ser.encoded m ≠ []
  decodes : ∃ fresh d, ser.create m.msgType = some fresh ∧
    ser.decode (ser.encoded m) fresh = .ok (some d) ∧ d.body = m.body

variable {ser m}

theorem encode_eq_of_encoded (hne : ser.encoded m ≠ []) :
    ser.encode m = .ok (ser.encoded m) := by
  unfold Serializer.encoded at hne ⊢
  cases hencode : ser.encode m with
  | error e => simp [hencode, Except.toOption] at hne
  | ok data => rfl

theorem ofWord_totalLen : Int32.ofWord (totalLen ser m) =
    4 + 4 + Int32.ofWord m.rid.length + Int32.ofWord (ser.encoded m).length := by
  rw [totalLen, Int32.ofWord_add, Int32.ofWord_add]
  rfl

/-- With something to write, only the length can stop it. -/
theorem serialize_eq_ite (hne : ser.encoded m ≠ []) :
    serialize ser m =
      if Int32.ofWord (totalLen ser m) < 0 then .error (.other (str "length_error"))
      else .ok (putInt32 (Int32.ofWord (totalLen ser m)) ++
        (putInt32 m.msgType.toInt32 ++ (putInt32 (Int32.ofWord m.rid.length) ++
          (m.rid ++ ser.encoded m)))) := by
  rw [serialize, encode_eq_of_encoded hne, ok_bind, if_neg hne, ofWord_totalLen]
  rfl

theorem serialize_eq (hne : ser.encoded m ≠ []) (hsize : totalLen ser m < 2 ^ 31) :
    serialize ser m = .ok (putInt32 (Int32.ofWord (totalLen ser m)) ++
      (putInt32 m.msgType.toInt32 ++ (putInt32 (Int32.ofWord m.rid.length) ++
        (m.rid ++ ser.encoded m)))) := by
  have hpos : ¬ Int32.ofWord (totalLen ser m) < 0 := by
    rw [Int32.lt_iff_toInt_lt, Int32.toInt_ofWord hsize]
    show ¬ (totalLen ser m : Int) < 0
    omega
  rw [serialize_eq_ite hne, if_neg hpos]

theorem serialize_of_encoded_nil {bytes : Bytes} (hnil : ser.encoded m = [])
    (h : serialize ser m = .ok bytes) : bytes = [] := by
  obtain ⟨data, hencode, h⟩ := bind_eq_ok.mp h
  rw [if_pos ((Serializer.encoded_of_encode hencode).symm.trans hnil)] at h
  exact (Except.ok.inj h).symm

/-- Whatever the length field says, all of the message follows it. -/
theorem serialize_length {bytes : Bytes} (hne : ser.encoded m ≠ [])
    (h : serialize ser m = .ok bytes) : bytes.length = 4 + totalLen ser m := by
  rw [serialize_eq_ite hne] at h
  split at h <;> cases h
  simp only [List.length_append, putInt32_length, totalLen]
  omega

theorem frame_of_serialize {bytes : Bytes} (h : serialize ser m = .ok bytes) :
    frame ser m = bytes := by
  rw [frame, h]
  rfl

theorem frame_eq (hne : ser.encoded m ≠ []) (hsize : totalLen ser m < 2 ^ 31) :
    frame ser m = putInt32 (Int32.ofWord (totalLen ser m)) ++
      (putInt32 m.msgType.toInt32 ++ (putInt32 (Int32.ofWord m.rid.length) ++
        (m.rid ++ ser.encoded m))) := frame_of_serialize (serialize_eq hne hsize)

theorem serialize_eq_frame (hne : ser.encoded m ≠ []) (hsize : totalLen ser m < 2 ^ 31) :
    serialize ser m = .ok (frame ser m) := by
  rw [frame_eq hne hsize, serialize_eq hne hsize]

theorem frame_length (hne : ser.encoded m ≠ []) (hsize : totalLen ser m < 2 ^ 31) :
    (frame ser m).length = 4 + totalLen ser m :=
  serialize_length hne (serialize_eq_frame hne hsize)

theorem canProcessed_append {n : Nat} (hn : n < 2 ^ 31) (rest : Bytes) :
    canProcessed (putInt32 (Int32.ofWord n) ++ rest) = decide (n ≤ rest.length) := by
  have hint := Int32.toInt_ofWord hn
  have hpos : ¬ Int32.ofWord n < 0 := by
    rw [Int32.lt_iff_toInt_lt, hint]
    show ¬ (n : Int) < 0
    omega
  have hlen : ¬ (putInt32 (Int32.ofWord n) ++ rest).length < 4 := by simp
  rw [canProcessed, if_neg hlen, peekInt32_putInt32, if_neg hpos, hint]
  simp only [List.length_append, putInt32_length, Int.toNat_natCast, Nat.add_sub_cancel_left]
  by_cases hle : n ≤ rest.length
  · rw [if_neg (by omega), decide_eq_true hle]
  · rw [if_pos (by omega), decide_eq_false hle]

theorem canProcessed_frame (hne : ser.encoded m ≠ []) (hsize : totalLen ser m < 2 ^ 31)
    (rest : Bytes) : canProcessed (frame ser m ++ rest) = true := by
  rw [frame_eq hne hsize, List.append_assoc, canProcessed_append hsize, decide_eq_true_iff]
  simp only [List.length_append, putInt32_length, totalLen]
  omega

theorem parseBody_append {msgtype : EnumValue MsgType} {id data rest : Bytes}
    {fresh d : BaseMessage B} (hcreate : ser.create msgtype = some fresh)
    (hdecode : ser.decode data fresh = .ok (some d)) :
    parseBody ser msgtype id.length data.length (id ++ (data ++ rest)) =
      .ok ((d.setId id).setMsgType msgtype) rest := by
  simp only [parseBody, retrieveAsString_append, hcreate, hdecode]

/-- A serialized message at the front of the buffer is read whole, and nothing
after it is touched. -/
theorem onMessage_frame {fresh d : BaseMessage B} (hne : ser.encoded m ≠ [])
    (hsize : totalLen ser m < 2 ^ 31) (hcreate : ser.create m.msgType = some fresh)
    (hdecode : ser.decode (ser.encoded m) fresh = .ok (some d)) (rest : Bytes) :
    onMessage ser (frame ser m ++ rest) =
      .ok ((d.setId m.rid).setMsgType m.msgType) rest := by
  have htotal := Int32.toInt_ofWord hsize
  have hidlt : m.rid.length < 2 ^ 31 := by
    unfold totalLen at hsize
    omega
  have hid := Int32.toInt_ofWord hidlt
  have hcan := canProcessed_frame hne hsize rest
  have hnonneg : ¬ (Int32.ofWord (totalLen ser m) < 0 ∨ Int32.ofWord m.rid.length < 0) := by
    rw [Int32.lt_iff_toInt_lt, Int32.lt_iff_toInt_lt, htotal, hid]
    show ¬ ((totalLen ser m : Int) < 0 ∨ (m.rid.length : Int) < 0)
    omega
  have hdata : ((totalLen ser m : Int) - 4 - 4 - m.rid.length) = (ser.encoded m).length := by
    unfold totalLen
    omega
  rw [onMessage, if_neg (by simp [hcan]), frame_eq hne hsize]
  simp only [List.append_assoc, readInt32_putInt32, if_neg hnonneg]
  rw [htotal, hid, hdata, if_neg (by omega)]
  simp only [Int.toNat_natCast, EnumValue.ofInt32_toInt32]
  exact parseBody_append hcreate hdecode

theorem CodecOk.onMessage (h : CodecOk ser m) (hsize : totalLen ser m < 2 ^ 31)
    (rest : Bytes) : LVProtocol.onMessage ser (frame ser m ++ rest) = .ok m rest := by
  obtain ⟨fresh, d, hcreate, hdecode, hbody⟩ := h.decodes
  rw [onMessage_frame h.nonempty hsize hcreate hdecode]
  have heq : (d.setId m.rid).setMsgType m.msgType = m := by
    cases m
    cases d
    cases hbody
    rfl
  rw [heq]

/-- The front of a serialized message is not processed before the rest of it. -/
theorem canProcessed_incomplete {p q : Bytes} (hne : ser.encoded m ≠ [])
    (hsize : totalLen ser m < 2 ^ 31) (hpq : p ++ q = frame ser m) (hq : q ≠ []) :
    canProcessed p = false := by
  have hqlen : 0 < q.length := List.length_pos_of_ne_nil hq
  have hlen := congrArg List.length hpq
  rw [List.length_append, frame_length hne hsize] at hlen
  by_cases h4 : p.length < 4
  · rw [canProcessed, if_pos h4]
  · rw [frame_eq hne hsize] at hpq
    have hp : p = putInt32 (Int32.ofWord (totalLen ser m)) ++ p.drop 4 := by
      have htake := congrArg (List.take 4) hpq
      rw [List.take_append_of_le_length (by omega)] at htake
      simp only [List.take_left' (putInt32_length _)] at htake
      rw [← htake, List.take_append_drop]
    rw [hp, canProcessed_append hsize, decide_eq_false_iff_not]
    simp only [List.length_drop]
    omega

theorem readInt32_length {buf rest : Bytes} {x : Int32} (h : readInt32 buf = some (x, rest)) :
    buf.length = 4 + rest.length := by
  unfold readInt32 at h
  split at h
  · cases h
  · cases h
    simp only [List.length_drop]
    omega

theorem retrieveAsString_length {buf a rest : Bytes} {n : Nat}
    (h : retrieveAsString n buf = some (a, rest)) : buf.length = n + rest.length := by
  unfold retrieveAsString at h
  split at h
  · cases h
  · cases h
    simp only [List.length_drop]
    omega

theorem parseBody_length {msgtype : EnumValue MsgType} {idLen dataLen : Nat}
    {buf rest : Bytes} {m : BaseMessage B}
    (h : parseBody ser msgtype idLen dataLen buf = .ok m rest) :
    buf.length = idLen + dataLen + rest.length := by
  unfold parseBody at h
  split at h
  · cases h
  · rename_i id buf₁ hid
    split at h
    · cases h
    · rename_i data buf₂ hdata
      have h1 := retrieveAsString_length hid
      have h2 := retrieveAsString_length hdata
      split at h
      · cases h
      · split at h <;> cases h
        omega

/-- A message takes its length field and as many bytes as that says, the two
other fields among them. -/
theorem onMessage_length {buf rest : Bytes} {m : BaseMessage B}
    (h : onMessage ser buf = .ok m rest) :
    rest.length < buf.length ∧ buf.length < 4 + 2 ^ 31 + rest.length := by
  unfold onMessage at h
  split at h
  · cases h
  · split at h
    · cases h
    · rename_i total buf₁ h1
      split at h
      · cases h
      · rename_i msgtype buf₂ h2
        split at h
        · cases h
        · rename_i idLen buf₃ h3
          have h1 := readInt32_length h1
          have h2 := readInt32_length h2
          have h3 := readInt32_length h3
          have htotal := total.toInt_lt
          split at h
          · cases h
          · rename_i hnonneg
            simp only [Int32.lt_iff_toInt_lt, not_or] at hnonneg
            split at h
            · cases h
            · have h4 := parseBody_length h
              have hzero : (0 : Int32).toInt = 0 := rfl
              omega

end LVProtocol

namespace MuduoServer
open LVProtocol
variable {B : Type} {ser : Serializer B} {m : BaseMessage B}

theorem nextMessage_progress (registered : Bool) : Progress (nextMessage ser registered) := by
  intro buf m rest h
  unfold nextMessage at h
  split at h
  · split at h <;> cases h
  · split at h
    · cases h
    · cases h
    · cases h
    · rename_i hm
      split at h
      · cases h
        exact (onMessage_length hm).1
      · cases h

theorem totalLen_of_fits (hne : ser.encoded m ≠ []) (hfits : fits ser m = true) :
    4 + totalLen ser m ≤ maxDataLen := by
  unfold fits at hfits
  split at hfits
  · rename_i bytes hserialize
    rw [← serialize_length hne hserialize]
    exact of_decide_eq_true hfits
  · cases hfits

theorem nextMessage_framed (h : CodecOk ser m) (hfits : fits ser m = true) :
    Framed (nextMessage ser true) (frame ser) m := by
  have hlen := totalLen_of_fits h.nonempty hfits
  have hmax : maxDataLen = 10485760 := rfl
  have hsmall : totalLen ser m < 2 ^ 31 := by omega
  constructor
  · intro rest
    rw [nextMessage, if_neg (by simp [canProcessed_frame h.nonempty hsmall rest]),
      h.onMessage hsmall rest]
    rfl
  · intro p q hpq hq
    have hp := congrArg List.length hpq
    rw [List.length_append, frame_length h.nonempty hsmall] at hp
    rw [nextMessage, if_pos (canProcessed_incomplete h.nonempty hsmall hpq hq), if_neg (by omega)]

/-- One chunk of a good stream: whole messages are dispatched, and the buffer
keeps the front of the rest. -/
theorem onMessage_front {c : Connection B} {chunk future : Bytes} {ms : List (BaseMessage B)}
    (hframed : ∀ m ∈ ms, Framed (nextMessage ser true) (frame ser) m)
    (hbuf : c.buffer ++ (chunk ++ future) = ms.flatMap (frame ser)) :
    ∃ done later rest, ms = done ++ later ∧
      onMessage ser true c chunk =
        { c with buffer := rest, dispatched := c.dispatched ++ done } ∧
      rest ++ future = later.flatMap (frame ser) ∧ nextMessage ser true rest = .more := by
  rw [← List.append_assoc] at hbuf
  obtain ⟨done, later, rest, hms, hdrain, hstay, hmore⟩ :=
    drain_front (n := (c.buffer ++ chunk).length + ms.length + 1) rfl hframed hbuf (by omega)
  refine ⟨done, later, rest, hms, ?_, hstay, hmore⟩
  rw [drain_bound (k := (c.buffer ++ chunk).length + 1) (nextMessage_progress true) (by omega)
    (by omega)] at hdrain
  simp only [onMessage, hdrain]

theorem onMessage_chunks {c : Connection B} {chunks : List Bytes} {ms : List (BaseMessage B)}
    (hframed : ∀ m ∈ ms, Framed (nextMessage ser true) (frame ser) m)
    (hbuf : c.buffer ++ chunks.flatten = ms.flatMap (frame ser))
    (hmore : nextMessage ser true c.buffer = .more) :
    chunks.foldl (onMessage ser true) c =
      { c with buffer := [], dispatched := c.dispatched ++ ms } := by
  induction chunks generalizing c ms with
  | nil =>
      rw [List.flatten_nil, List.append_nil] at hbuf
      have hnil := eq_nil_of_more hframed hbuf hmore
      subst hnil
      rw [List.flatMap_nil] at hbuf
      rw [List.foldl_nil, ← hbuf, List.append_nil]
  | cons chunk chunks ih =>
      rw [List.flatten_cons] at hbuf
      obtain ⟨done, later, rest, hms, hstep, hstay, hmore'⟩ := onMessage_front hframed hbuf
      subst hms
      rw [List.foldl_cons, hstep, ih (fun m hm => hframed m (List.mem_append_right _ hm))
        hstay hmore']
      simp only [List.append_assoc]

/-- However the network cuts a stream of serialized messages, the loop
dispatches exactly those messages, in order, keeps nothing back and never
closes the connection. -/
theorem onMessage_stream (ser : Serializer B) (ms : List (BaseMessage B)) (chunks : List Bytes)
    (hcodec : ∀ m ∈ ms, CodecOk ser m)
    (hfits : ∀ m ∈ ms, fits ser m = true)
    (hchunks : chunks.flatten = ms.flatMap (frame ser)) :
    chunks.foldl (onMessage ser true) {} =
      { buffer := [], dispatched := ms, closed := [] } := by
  have hframed : ∀ m ∈ ms, Framed (nextMessage ser true) (frame ser) m :=
    fun m hm => nextMessage_framed (hcodec m hm) (hfits m hm)
  exact onMessage_chunks (c := {}) hframed hchunks rfl

/-- The codec that sends the body as it is. -/
def plainSerializer : Serializer Bytes where
  create t := some { msgType := t, body := [] }
  encode m := .ok m.body
  decode data m := .ok (some { m with body := data })

theorem plainSerializer_codecOk {m : BaseMessage Bytes} (h : m.body ≠ []) :
    CodecOk plainSerializer m :=
  ⟨h, _, _, rfl, rfl, rfl⟩

/-- Two messages, cut inside the first length field and inside the second body. -/
theorem onMessage_stream_cut :
    let ms : List (BaseMessage Bytes) :=
      [⟨str "a1", .named .REQ_RPC, str "x"⟩, ⟨[], .named .RSP_TOPIC, str "yz"⟩]
    let stream := ms.flatMap (frame plainSerializer)
    ([stream.take 2, (stream.drop 2).take 26, stream.drop 28].foldl
      (onMessage plainSerializer true) {}).dispatched = ms := by
  intro ms stream
  have hcodec : ∀ m ∈ ms, CodecOk plainSerializer m := by
    intro m hm
    apply plainSerializer_codecOk
    revert m
    decide
  have h := onMessage_stream plainSerializer ms
    [stream.take 2, (stream.drop 2).take 26, stream.drop 28] hcodec (by decide +kernel)
    (by decide +kernel)
  rw [h]

end MuduoServer

end LyqtRpc
