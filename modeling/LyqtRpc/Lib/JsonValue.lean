import LyqtRpc.Lib.CppException
import Mathlib.Data.Rat.Floor

/-!
`Json::Value` as jsoncpp documents it: which accesses convert, which throw
`Json::LogicError`. The text form of a `double`, the reader and the writer are
parameters.
-/

set_option autoImplicit false

namespace LyqtRpc

/-- The values of a `double`, up to the sign of zero and what a NaN carries. -/
inductive Double where
  | finite (q : ℚ)
  | infinite (negative : Bool)
  | nan (negative : Bool)
  deriving DecidableEq

namespace Double

/-- `lo <= d && d <= hi` -/
def inRange (d : Double) (lo hi : ℚ) : Bool :=
  match d with
  | .finite q => lo ≤ q ∧ q ≤ hi
  | _ => false

/-- `modf` leaves no fraction. -/
def isIntegral : Double → Bool
  | .finite q => q.den = 1
  | .infinite _ => true
  | .nan _ => false

/-- `static_cast` to an integer type that holds the result. -/
def truncate : Double → Int
  | .finite q => if q < 0 then ⌈q⌉ else ⌊q⌋
  | _ => 0

end Double

inductive JsonValue where
  | null
  | bool (b : Bool)
  | int (i : Int64)
  | uint (n : UInt64)
  | real (d : Double)
  | string (s : Bytes)
  | array (items : List JsonValue)
  | object (members : List (Bytes × JsonValue))

/-- `parse` may throw; `write` is `none` when the stream failed. -/
structure Jsoncpp where
  realText : Double → Bytes
  parse : Bytes → Except CppException (Option JsonValue)
  write : JsonValue → Option Bytes

/-- For messages that are neither read nor written. -/
def Jsoncpp.unused : Jsoncpp where
  realText _ := []
  parse _ := .ok none
  write _ := none

/-- Members stay in the order of their names. -/
def JsonValue.setMember (key : Bytes) (w : JsonValue) :
    List (Bytes × JsonValue) → List (Bytes × JsonValue)
  | [] => [(key, w)]
  | (k, v) :: members =>
    if k = key then (key, w) :: members
    else if key < k then (key, w) :: (k, v) :: members
    else (k, v) :: setMember key w members

/-- A value whose members can be set: an object, or null, which becomes one. -/
inductive JsonTable where
  | null
  | object (members : List (Bytes × JsonValue))

namespace JsonTable

@[coe] def value : JsonTable → JsonValue
  | .null => .null
  | .object members => .object members

instance : Coe JsonTable JsonValue := ⟨value⟩

/-- `t[key] = w` -/
def set (t : JsonTable) (key : Bytes) (w : JsonValue) : JsonTable :=
  match t with
  | .null => .object [(key, w)]
  | .object members => .object (JsonValue.setMember key w members)

end JsonTable

namespace JsonValue

def isNull : JsonValue → Bool
  | .null => true
  | _ => false

def isBool : JsonValue → Bool
  | .bool _ => true
  | _ => false

def isString : JsonValue → Bool
  | .string _ => true
  | _ => false

def isArray : JsonValue → Bool
  | .array _ => true
  | _ => false

def isObject : JsonValue → Bool
  | .object _ => true
  | _ => false

def isIntegral : JsonValue → Bool
  | .int _ | .uint _ => true
  | .real (.finite q) =>
    (-2 ^ 63 ≤ q ∧ q < 2 ^ 64) && (Double.finite q).isIntegral
  | _ => false

def isNumeric : JsonValue → Bool
  | .int _ | .uint _ | .real _ => true
  | _ => false

/-- Member lookup: only on an object, or on null, which has no members. -/
def find (v : JsonValue) (key : Bytes) : Except CppException (Option JsonValue) :=
  match v with
  | .null => .ok none
  | .object members => .ok (members.lookup key)
  | _ => .error .jsonLogicError

def isMember (v : JsonValue) (key : Bytes) : Except CppException Bool :=
  return (← v.find key).isSome

/-- `operator[]` with a key: null where there is no such member. -/
def index (v : JsonValue) (key : Bytes) : Except CppException JsonValue :=
  return (← v.find key).getD .null

/-- `get(key, defaultValue)` -/
def get (v : JsonValue) (key : Bytes) (defaultValue : JsonValue) :
    Except CppException JsonValue :=
  return (← v.find key).getD defaultValue

def hasMember (v : JsonValue) (key : Bytes) : Bool :=
  match v with
  | .object members => (members.lookup key).isSome
  | _ => false

def asTable : JsonValue → Option JsonTable
  | .null => some .null
  | .object members => some (.object members)
  | _ => none

/-- `v[key] = w` -/
def set (v : JsonValue) (key : Bytes) (w : JsonValue) : Except CppException JsonValue :=
  match v.asTable with
  | some t => .ok (t.set key w)
  | none => .error .jsonLogicError

/-- The strings among the elements of a list; what is not a list has none. -/
def strings : JsonValue → List Bytes
  | .array items => items.filterMap (fun | .string s => some s | _ => none)
  | _ => []

/-- The elements read by position from 0 up to `size()`. -/
def items : JsonValue → Except CppException (List JsonValue)
  | .array items => .ok items
  | .object (_ :: _) => .error .jsonLogicError
  | _ => .ok []

/-- What a loop over the value passes through. -/
def elements : JsonValue → List JsonValue
  | .array items => items
  | .object members => members.map (·.2)
  | _ => []

def asString (json : Jsoncpp) : JsonValue → Except CppException Bytes
  | .null => .ok []
  | .bool b => .ok (str (if b then "true" else "false"))
  | .int i => .ok (str (toString i.toInt))
  | .uint n => .ok (str (toString n.toNat))
  | .real d => .ok (json.realText d)
  | .string s => .ok s
  | .array _ | .object _ => .error .jsonLogicError

def asInt : JsonValue → Except CppException Int32
  | .null => .ok 0
  | .bool b => .ok (if b then 1 else 0)
  | .int i =>
    if -2 ^ 31 ≤ i.toInt ∧ i.toInt < 2 ^ 31 then .ok (Int32.ofInt i.toInt)
    else .error .jsonLogicError
  | .uint n => if n.toNat < 2 ^ 31 then .ok (Int32.ofNat n.toNat) else .error .jsonLogicError
  | .real d =>
    if d.inRange (-2 ^ 31) (2 ^ 31 - 1) then .ok (Int32.ofInt d.truncate)
    else .error .jsonLogicError
  | .string _ | .array _ | .object _ => .error .jsonLogicError

def asInt64 : JsonValue → Except CppException Int64
  | .null => .ok 0
  | .bool b => .ok (if b then 1 else 0)
  | .int i => .ok i
  | .uint n => if n.toNat < 2 ^ 63 then .ok (Int64.ofNat n.toNat) else .error .jsonLogicError
  | .real d =>
    if d.inRange (-2 ^ 63) (2 ^ 63) then .ok (Int64.ofInt d.truncate)
    else .error .jsonLogicError
  | .string _ | .array _ | .object _ => .error .jsonLogicError

def asBool : JsonValue → Except CppException Bool
  | .null => .ok false
  | .bool b => .ok b
  | .int i => .ok (decide (i ≠ 0))
  | .uint n => .ok (decide (n ≠ 0))
  | .real (.finite q) => .ok (decide (q ≠ 0))
  | .real (.infinite _) => .ok true
  | .real (.nan _) => .ok false
  | .string _ | .array _ | .object _ => .error .jsonLogicError

/-- What string-keyed access is possible on. -/
def isTable : JsonValue → Bool
  | .null | .object _ => true
  | _ => false

/-- What converts to a string. -/
def isText : JsonValue → Bool
  | .array _ | .object _ => false
  | _ => true

/-- What converts to an `int`. -/
def fitsInt : JsonValue → Bool
  | .null | .bool _ => true
  | .int i => -2 ^ 31 ≤ i.toInt ∧ i.toInt < 2 ^ 31
  | .uint n => n.toNat < 2 ^ 31
  | .real d => d.inRange (-2 ^ 31) (2 ^ 31 - 1)
  | _ => false

/-- The member of a table, null where there is none. -/
def field (v : JsonValue) (key : Bytes) : JsonValue :=
  match v with
  | .object members => (members.lookup key).getD .null
  | _ => .null

theorem find_returns_iff {v : JsonValue} {key : Bytes} :
    Returns (v.find key) ↔ v.isTable = true := by
  cases v <;> simp [find, isTable]

theorem index_eq {v : JsonValue} (h : v.isTable = true) (key : Bytes) :
    v.index key = .ok (v.field key) := by
  cases v with
  | null => rfl
  | object members => rfl
  | _ => cases h

theorem index_returns_iff {v : JsonValue} {key : Bytes} :
    Returns (v.index key) ↔ v.isTable = true := by
  cases v <;> simp [index, find, isTable]

theorem isMember_eq {v : JsonValue} (h : v.isTable = true) (key : Bytes) :
    v.isMember key = .ok (v.hasMember key) := by
  cases v with
  | null => rfl
  | object members => rfl
  | _ => cases h

theorem isMember_returns_iff {v : JsonValue} {key : Bytes} :
    Returns (v.isMember key) ↔ v.isTable = true := by
  cases v <;> simp [isMember, find, isTable]

theorem isMember_throws {v : JsonValue} (h : v.isTable = false) (key : Bytes) (b : Bool) :
    v.isMember key ≠ .ok b := by
  intro hb
  have htable := isMember_returns_iff.mp ⟨b, hb⟩
  rw [h] at htable
  cases htable

theorem field_of_not_hasMember {v : JsonValue} {key : Bytes} (h : v.hasMember key = false) :
    v.field key = .null := by
  cases v with
  | object members =>
      have hlookup : members.lookup key = none := by simpa [hasMember] using h
      simp [field, hlookup]
  | _ => rfl

theorem lookup_setMember (members : List (Bytes × JsonValue)) (key : Bytes) (w : JsonValue)
    (k : Bytes) :
    (setMember key w members).lookup k = if k = key then some w else members.lookup k := by
  induction members with
  | nil =>
      by_cases hk : k = key
      · simp [setMember, hk]
      · have hbeq : (k == key) = false := by simpa using hk
        simp [setMember, List.lookup_cons, hbeq, hk]
  | cons member members ih =>
      obtain ⟨name, v⟩ := member
      by_cases hname : name = key
      · subst hname
        by_cases hk : k = name
        · simp [setMember, hk]
        · have hbeq : (k == name) = false := by simpa using hk
          simp [setMember, List.lookup_cons, hbeq, hk]
      · rw [setMember, if_neg hname]
        split
        · by_cases hk : k = key
          · simp [hk]
          · have hbeq : (k == key) = false := by simpa using hk
            simp [List.lookup_cons, hbeq, hk]
        · by_cases hk : k = name
          · subst hk
            simp [hname]
          · have hbeq : (k == name) = false := by simpa using hk
            simp only [List.lookup_cons, hbeq, ih]

theorem eq_value_of_isTable {v : JsonValue} (h : v.isTable = true) : ∃ t : JsonTable, v = t := by
  cases v with
  | null => exact ⟨.null, rfl⟩
  | object members => exact ⟨.object members, rfl⟩
  | _ => cases h

theorem asTable_eq_some {v : JsonValue} {t : JsonTable} : v.asTable = some t ↔ v = t := by
  constructor
  · intro h
    cases v <;> cases h <;> rfl
  · rintro rfl
    cases t <;> rfl

@[simp] theorem asTable_value (t : JsonTable) : t.value.asTable = some t := asTable_eq_some.mpr rfl

@[simp] theorem set_value (t : JsonTable) (key : Bytes) (w : JsonValue) :
    t.value.set key w = .ok (t.set key w) := by rw [set, asTable_value]

section Set
variable {t : JsonTable} {key k : Bytes} {w : JsonValue}

@[simp] theorem isTable_value (t : JsonTable) : t.value.isTable = true := by cases t <;> rfl

theorem isObject_set (t : JsonTable) (key : Bytes) (w : JsonValue) :
    (t.set key w).value.isObject = true := by cases t <;> rfl

theorem field_set (t : JsonTable) (key k : Bytes) (w : JsonValue) :
    (t.set key w).value.field k = if k = key then w else t.value.field k := by
  cases t with
  | null =>
      have hlookup := lookup_setMember [] key w k
      simp only [JsonTable.set, JsonTable.value, field]
      simp only [setMember] at hlookup
      rw [hlookup]
      split <;> rfl
  | object members =>
      simp only [JsonTable.set, JsonTable.value, field, lookup_setMember]
      split <;> rfl

@[simp] theorem field_set_self (t : JsonTable) (key : Bytes) (w : JsonValue) :
    (t.set key w).value.field key = w := by simp [field_set]

theorem field_set_of_ne (h : k ≠ key) : (t.set key w).value.field k = t.value.field k := by
  simp [field_set, h]

theorem find_set_of_ne (h : k ≠ key) : (t.set key w).value.find k = t.value.find k := by
  cases t with
  | null =>
      have hlookup := lookup_setMember [] key w k
      rw [if_neg h] at hlookup
      exact congrArg Except.ok hlookup
  | object members =>
      have hlookup := lookup_setMember members key w k
      rw [if_neg h] at hlookup
      exact congrArg Except.ok hlookup

theorem index_set_of_ne (h : k ≠ key) : (t.set key w).value.index k = t.value.index k := by
  simp only [index, find_set_of_ne h]

theorem get_set_of_ne (h : k ≠ key) (defaultValue : JsonValue) :
    (t.set key w).value.get k defaultValue = t.value.get k defaultValue := by
  simp only [get, find_set_of_ne h]

theorem hasMember_set_of_ne (h : k ≠ key) :
    (t.set key w).value.hasMember k = t.value.hasMember k := by
  have hmember : (t.set key w).value.isMember k = t.value.isMember k := by
    simp only [isMember, find_set_of_ne h]
  rw [isMember_eq (isTable_value _), isMember_eq (isTable_value _)] at hmember
  exact Except.ok.inj hmember

end Set

/-- A default that is used as null is used cannot be told from null. -/
theorem get_bind {α : Type} {v : JsonValue} (h : v.isTable = true) (key : Bytes)
    {defaultValue : JsonValue} {f : JsonValue → Except CppException α}
    (hdefault : f defaultValue = f .null) : v.get key defaultValue >>= f = f (v.field key) := by
  cases v with
  | null => exact hdefault
  | object members =>
      cases hlookup : members.lookup key with
      | none => simp [get, find, field, hlookup, hdefault]
      | some w => simp [get, find, field, hlookup]
  | _ => cases h

theorem field_of_not_isTable {v : JsonValue} (h : v.isTable = false) (key : Bytes) :
    v.field key = .null := by
  cases v with
  | null => cases h
  | object members => cases h
  | _ => rfl

section GetBind
variable {α : Type} {v : JsonValue} {key : Bytes} {defaultValue : JsonValue}
  {f : JsonValue → Except CppException α} {a : α}

/-- `get` of such a default, when something is read of what it gives. -/
theorem get_bind_eq_ok (hdefault : f defaultValue = f .null) :
    v.get key defaultValue >>= f = .ok a ↔ v.isTable = true ∧ f (v.field key) = .ok a := by
  cases htable : v.isTable with
  | true => rw [get_bind htable key hdefault, eq_self_iff_true, true_and]
  | false =>
    have hthrows : ∀ w, v.get key defaultValue ≠ .ok w := by
      intro w hw
      cases v with
      | null => cases htable
      | object members => cases htable
      | _ => cases hw
    simp [bind_eq_ok, hthrows]

/-- Where null does not give it, the members need not be asked for. -/
theorem get_bind_eq_ok_field (hdefault : f defaultValue = f .null) (hnull : f .null ≠ .ok a) :
    v.get key defaultValue >>= f = .ok a ↔ f (v.field key) = .ok a := by
  rw [get_bind_eq_ok hdefault, and_iff_right_iff_imp]
  intro hread
  by_contra htable
  rw [field_of_not_isTable (Bool.eq_false_of_not_eq_true htable)] at hread
  exact hnull hread

theorem get_bind_returns (hdefault : f defaultValue = f .null) :
    Returns (v.get key defaultValue >>= f) ↔ v.isTable = true ∧ Returns (f (v.field key)) := by
  simp only [Returns, get_bind_eq_ok hdefault, exists_and_left]

theorem index_bind_returns :
    Returns (v.index key >>= f) ↔ v.isTable = true ∧ Returns (f (v.field key)) :=
  @get_bind_returns α v key .null f rfl

end GetBind

@[simp] theorem asString_returns_iff (json : Jsoncpp) {v : JsonValue} :
    Returns (v.asString json) ↔ v.isText = true := by
  cases v <;> simp [asString, isText]

@[simp] theorem asInt_returns_iff {v : JsonValue} : Returns v.asInt ↔ v.fitsInt = true := by
  cases v <;> simp [asInt, fitsInt]

/-- An `int` is stored and read back. -/
@[simp] theorem asInt_int (c : Int32) : asInt (.int c.toInt64) = .ok c := by
  have hlo := c.le_toInt
  have hhi := c.toInt_lt
  simp only [asInt, Int32.toInt_toInt64, Int32.ofInt_toInt]
  rw [if_pos ⟨by omega, by omega⟩]

theorem asInt_cases (v : JsonValue) :
    (∃ e, v.asInt = .error e ∧ v.fitsInt = false) ∨
      ∃ code, v.asInt = .ok code ∧ v.fitsInt = true := by
  cases hasInt : v.asInt with
  | error e =>
      refine .inl ⟨e, rfl, Bool.eq_false_iff.mpr fun hfits => ?_⟩
      obtain ⟨code, hcode⟩ := asInt_returns_iff.mpr hfits
      rw [hasInt] at hcode
      cases hcode
  | ok code => exact .inr ⟨code, rfl, asInt_returns_iff.mp ⟨code, hasInt⟩⟩

/-- The check for null after the check of the type adds nothing. -/
@[simp] theorem not_isString_or_isNull (v : JsonValue) :
    (!v.isString || v.isNull) = !v.isString := by
  cases v <;> rfl

@[simp] theorem not_isObject_or_isNull (v : JsonValue) :
    (!v.isObject || v.isNull) = !v.isObject := by
  cases v <;> rfl

@[simp] theorem not_isArray_or_isNull (v : JsonValue) :
    (!v.isArray || v.isNull) = !v.isArray := by
  cases v <;> rfl

@[simp] theorem not_isIntegral_or_isNull (v : JsonValue) :
    (!v.isIntegral || v.isNull) = !v.isIntegral := by
  cases v <;> simp [isNull, isIntegral]

theorem isTable_of_isObject {v : JsonValue} (h : v.isObject = true) : v.isTable = true := by
  cases v with
  | object members => rfl
  | _ => cases h

end JsonValue

end LyqtRpc
