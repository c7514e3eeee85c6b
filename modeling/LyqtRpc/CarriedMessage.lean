import LyqtRpc.Dispacher

/-!
What a message is at the other end of a TCP connection: a copy that no reader can tell from
it. And a JSON library for runs on a few messages.
-/

set_option autoImplicit false

namespace LyqtRpc

/-- Two copies of a message that no reader can tell apart. -/
structure SameMessage (json : Jsoncpp) (m o : BaseMessage MessageBody) : Prop where
  rid : o.rid = m.rid
  msgType : o.msgType = m.msgType
  type : o.body.type = m.body.type
  readings : o.body.readings json = m.body.readings json

/-- What a handler for the class is called with. -/
def messageAs (cls : JsonClass) (m : BaseMessage MessageBody) : Option (BaseMessage JsonValue) :=
  if m.msgType = .named cls.type then (m.body.asJson cls).map fun data => m.mapBody fun _ => data
  else none

theorem messageAs_msgType {cls : JsonClass} {m : BaseMessage MessageBody}
    {req : BaseMessage JsonValue} (h : messageAs cls m = some req) :
    req.msgType = m.msgType ∧ m.msgType = .named cls.type := by
  unfold messageAs at h
  split at h
  · rename_i htype
    obtain ⟨data, _, rfl⟩ := Option.map_eq_some_iff.mp h
    exact ⟨rfl, htype⟩
  · cases h

theorem messageAs_of_ne {cls : JsonClass} {m : BaseMessage MessageBody}
    (h : m.msgType ≠ .named cls.type) : messageAs cls m = none := if_neg h

theorem messageAs_eq_callbackType {R : Type} (cls : JsonClass) {m : BaseMessage MessageBody}
    (handler : BaseMessage JsonValue → R) (h : m.msgType = .named cls.type) :
    Dispacher.callbackType (MessageBody.asJson cls) handler m = (messageAs cls m).map handler := by
  rw [messageAs, if_pos h, Option.map_map]
  rfl

theorem messageAs_mapBody {cls : JsonClass} {m : BaseMessage JsonValue}
    (h : m.msgType = .named cls.type) : messageAs cls (m.mapBody (.json cls)) = some m := by
  have hcast : (MessageBody.json cls m.body).asJson cls = some m.body := if_pos rfl
  refine (if_pos h).trans ?_
  rw [BaseMessage.mapBody, hcast]
  rfl

/-- Two copies of a message of the class that no reader can tell apart. -/
structure SameAs (cls : JsonClass) (json : Jsoncpp) (q r : BaseMessage JsonValue) : Prop where
  rid : r.rid = q.rid
  readings : cls.readings json r.body = cls.readings json q.body

theorem MessageBody.asJson_eq {cls : JsonClass} {body : MessageBody} :
    (∃ data, body = .json cls data) ↔ body.type = cls.type := by
  constructor
  · intro h
    obtain ⟨data, rfl⟩ := h
    rfl
  · intro h
    cases body with
    | json cls' data => cases cls' <;> cases cls <;> first | exact ⟨data, rfl⟩ | cases h
    | _ => cases cls <;> cases h

/-- Copies of a message come to the same handler, as copies. -/
theorem SameMessage.messageAs {json : Jsoncpp} {m o : BaseMessage MessageBody} (cls : JsonClass)
    (h : SameMessage json m o) :
    Option.Rel (SameAs cls json) (messageAs cls m) (messageAs cls o) := by
  unfold LyqtRpc.messageAs
  rw [h.msgType]
  split
  · by_cases htype : m.body.type = cls.type
    · obtain ⟨data, hm⟩ := MessageBody.asJson_eq.mpr htype
      obtain ⟨data', ho⟩ := MessageBody.asJson_eq.mpr (h.type.trans htype)
      have hself : ∀ x : JsonValue, (MessageBody.json cls x).asJson cls = some x :=
        fun _ => if_pos rfl
      have hreadings := h.readings
      rw [hm, ho] at hreadings
      rw [hm, ho, hself, hself]
      exact .some ⟨h.rid, hreadings⟩
    · have hm : ∀ body : MessageBody, body.type ≠ cls.type → body.asJson cls = none := by
        intro body hbody
        cases body with
        | json cls' data => exact if_neg fun hcls => hbody (congrArg JsonClass.type hcls)
        | _ => rfl
      rw [hm _ htype, hm _ (h.type.symm ▸ htype)]
      exact .none
  · exact .none

theorem SameMessage.messagesAs {json : Jsoncpp} (cls : JsonClass)
    {becomes : BaseMessage MessageBody → BaseMessage MessageBody → Prop}
    (hsame : ∀ {m o}, becomes m o → SameMessage json m o) {ms os : List (BaseMessage MessageBody)}
    (h : List.Forall₂ becomes ms os) :
    List.Forall₂ (SameAs cls json) (ms.filterMap (LyqtRpc.messageAs cls))
      (os.filterMap (LyqtRpc.messageAs cls)) :=
  List.rel_filterMap (R := becomes) (fun _ _ hb => (hsame hb).messageAs cls) h

theorem LVProtocol.Carries.unique {B : Type} {ser : Serializer B} {m o o' : BaseMessage B}
    (h : Carries ser m o) (h' : Carries ser m o') : o = o' := by
  obtain ⟨fresh, d, hcreate, hdecode, rfl⟩ := h.reads
  obtain ⟨fresh', d', hcreate', hdecode', rfl⟩ := h'.reads
  obtain rfl := Option.some.inj (hcreate.symm.trans hcreate')
  obtain rfl := Option.some.inj (Except.ok.inj (hdecode.symm.trans hdecode'))
  rfl

/-- The body of the message comes back as one of its class that reads the same. -/
def SameBody (json : Jsoncpp) (m o : BaseMessage MessageBody) : Prop :=
  o.body.type = m.body.type ∧ o.body.readings json = m.body.readings json

section Carries
variable (json : Jsoncpp) (proto : Protobuf)

def MessageCarries (m o : BaseMessage MessageBody) : Prop :=
  LVProtocol.Carries (protobufSerializer json proto) m o ∧ SameBody json m o

variable {json proto} in
theorem MessageCarries.same {m o : BaseMessage MessageBody} (h : MessageCarries json proto m o) :
    SameMessage json m o where
  rid := h.1.rid
  msgType := h.1.msgType
  type := h.2.1
  readings := h.2.2

variable {json proto}

/-- What a JSON message with an id takes to be carried, also one that came over the wire
itself. -/
theorem MessageCarries.of_json {rid : Bytes} {cls : JsonClass} {data : JsonValue}
    (hrid : rid ≠ []) (htable : data.isTable = true)
    (hlib : LibraryRoundTrips json proto ⟨rid, .named cls.type, .json cls data⟩)
    (hsize : MuduoServer.fits (protobufSerializer json proto)
      ⟨rid, .named cls.type, .json cls data⟩ = true) :
    ∃ o, MessageCarries json proto ⟨rid, .named cls.type, .json cls data⟩ o := by
  obtain ⟨text, hencoded, hparse, hne⟩ := encoded_json hlib
  have hcreate : (protobufSerializer json proto).create (.named cls.type) =
      some ⟨[], .named cls.type, .json cls .null⟩ := by
    cases cls <;> rfl
  refine ⟨⟨rid, .named cls.type, .json cls (JsonMessage.written rid data)⟩, ⟨?_, hsize, ?_⟩, ?_⟩
  · rw [hencoded]
    exact hne
  · refine ⟨_, ⟨rid, .named cls.type, .json cls (JsonMessage.written rid data)⟩, hcreate, ?_, rfl⟩
    rw [hencoded]
    simp only [protobufSerializer, ProtobufSerializer.decode,
      JsonMessage.unserialize_written_of_rid hrid htable hparse]
    rfl
  · exact ⟨rfl, cls.readings_written htable rid⟩

end Carries

/-- A member whose value is a text or a number. -/
abbrev FlatMember := Bytes × (Bytes ⊕ Int64)

def FlatMember.value (x : FlatMember) : Bytes × JsonValue :=
  (x.1, match x.2 with
    | .inl s => .string s
    | .inr i => .int i)

def flatMember : Bytes × JsonValue → Option FlatMember
  | (key, .string s) => some (key, .inl s)
  | (key, .int i) => some (key, .inr i)
  | _ => none

def flatMembers : JsonValue → Option (List FlatMember)
  | .object members => members.mapM flatMember
  | _ => none

/-- As `StreamWriterBuilder` has it by default; no key or text here has to be escaped. -/
def FlatMember.text (x : FlatMember) : Bytes :=
  str "\n\t\"" ++ x.1 ++ str "\" : " ++
    match x.2 with
    | .inl s => str "\"" ++ s ++ str "\""
    | .inr i => str (toString i.toInt)

def flatText (members : List FlatMember) : Bytes :=
  str "\x7b" ++ (str ",").intercalate (members.map FlatMember.text) ++ str "\n\x7d"

/-- The library on some values. -/
def flatLibrary (values : List (List FlatMember)) : Jsoncpp where
  realText _ := []
  parse text :=
    .ok ((values.find? fun e => flatText e = text).map fun e => .object (e.map FlatMember.value))
  write value := (flatMembers value).map flatText

theorem flatMember_value {x : Bytes × JsonValue} {y : FlatMember} (h : flatMember x = some y) :
    y.value = x := by
  obtain ⟨key, value⟩ := x
  cases value <;> cases h <;> rfl

theorem flatMembers_value {value : JsonValue} {members : List FlatMember}
    (h : flatMembers value = some members) : .object (members.map FlatMember.value) = value := by
  cases value with
  | object ms =>
      refine congrArg JsonValue.object ?_
      rw [flatMembers] at h
      induction ms generalizing members with
      | nil =>
          cases h
          rfl
      | cons x rest ih =>
          rw [List.mapM_cons] at h
          obtain ⟨y, hy, h⟩ := Option.bind_eq_some_iff.mp h
          obtain ⟨ys, hys, h⟩ := Option.bind_eq_some_iff.mp h
          cases h
          rw [List.map_cons, flatMember_value hy, ih hys]
  | _ => cases h

/-- The value is one of them, under a text of its own. -/
def flatReads (values : List (List FlatMember)) (value : JsonValue) : Bool :=
  match flatMembers value with
  | none => false
  | some members => (values.find? fun e => flatText e = flatText members) = some members

theorem flatText_ne_nil (members : List FlatMember) : flatText members ≠ [] := by
  have hbrace : str "\x7b" ≠ [] := by decide
  simp [flatText, hbrace]

theorem flatLibrary_roundTrips {values : List (List FlatMember)} {value : JsonValue}
    (h : flatReads values value = true) : (flatLibrary values).RoundTrips value := by
  unfold flatReads at h
  split at h
  · cases h
  · rename_i members hmembers
    refine ⟨flatText members, ?_, ?_, flatText_ne_nil members⟩
    · simp only [flatLibrary, hmembers, Option.map_some]
    · simp only [flatLibrary, of_decide_eq_true h, Option.map_some, flatMembers_value hmembers]

end LyqtRpc
