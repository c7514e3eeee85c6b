import LyqtRpc.Lib.ChunkStream
import LyqtRpc.Lib.CppException
import LyqtRpc.Fields
import Mathlib.Data.Int.Cast.Basic

/-!
`abstract.hpp` and `net.hpp`: messages, the `LVProtocol` framing over a muduo
buffer, and the server's receive loop.
-/

set_option autoImplicit false

namespace LyqtRpc

open ChunkStream

/-- `B` is what a concrete message class adds to the base class. -/
structure BaseMessage (B : Type) where
  rid : Bytes := []
  msgType : EnumValue MsgType
  body : B
  deriving DecidableEq

namespace BaseMessage
variable {B : Type}

def setId (m : BaseMessage B) (id : Bytes) : BaseMessage B := { m with rid := id }

def setMsgType (m : BaseMessage B) (t : EnumValue MsgType) : BaseMessage B :=
  { m with msgType := t }

end BaseMessage

/-- `ISerializer` with `MessageFactory`: `decode` fills a fresh message, or
returns false (`none`), or throws. -/
structure Serializer (B : Type) where
  create : EnumValue MsgType → Option (BaseMessage B)
  encode : BaseMessage B → Except CppException Bytes
  decode : Bytes → BaseMessage B → Except CppException (Option (BaseMessage B))

/-- What `encode` returns; nothing where it throws. -/
def Serializer.encoded {B : Type} (ser : Serializer B) (m : BaseMessage B) : Bytes :=
  (ser.encode m).toOption.getD []

def putInt32 (x : Int32) : Bytes := beBytes 4 (Int32.word x)

def peekInt32 (buf : Bytes) : Int32 := Int32.ofWord (ofBe (buf.take 4))

/-- `none`: muduo requires the bytes to be there. -/
def retrieveAsString (n : Nat) (buf : Bytes) : Option (Bytes × Bytes) :=
  if buf.length < n then none else some (buf.take n, buf.drop n)

def readInt32 (buf : Bytes) : Option (Int32 × Bytes) :=
  if buf.length < 4 then none else some (peekInt32 buf, buf.drop 4)

inductive ReadResult (B : Type) where
  | ok (m : BaseMessage B) (rest : Bytes)
  | fail (rest : Bytes)
  | threw (e : CppException) (rest : Bytes)
  /-- A buffer operation asked for more bytes than there are. -/
  | underflow

namespace LVProtocol
variable {B : Type}

def canProcessed (buf : Bytes) : Bool :=
  if buf.length < 4 then false
  else if peekInt32 buf < 0 then false
  else if buf.length - 4 < (peekInt32 buf).toInt.toNat then false
  else true

/-- The part of `onMessage` after the lengths have been checked. -/
def parseBody (ser : Serializer B) (msgtype : EnumValue MsgType) (idLen dataLen : Nat)
    (buf : Bytes) : ReadResult B :=
  match retrieveAsString idLen buf with
  | none => .underflow
  | some (id, buf) =>
    match retrieveAsString dataLen buf with
    | none => .underflow
    | some (data, buf) =>
      match ser.create msgtype with
      | none => .fail buf
      | some msg =>
        match ser.decode data msg with
        | .error e => .threw e buf
        | .ok none => .fail buf
        | .ok (some msg) => .ok ((msg.setId id).setMsgType msgtype) buf

def onMessage (ser : Serializer B) (buf : Bytes) : ReadResult B :=
  if canProcessed buf = false then .fail buf
  else
    match readInt32 buf with
    | none => .underflow
    | some (totalLen, buf) =>
      match readInt32 buf with
      | none => .underflow
      | some (msgtype, buf) =>
        match readInt32 buf with
        | none => .underflow
        | some (idLen, buf) =>
          if totalLen < 0 ∨ idLen < 0 then .fail buf
          else if totalLen.toInt - 4 - 4 - idLen.toInt < 0 then .fail buf
          else parseBody ser (.ofInt32 msgtype) idLen.toInt.toNat
            (totalLen.toInt - 4 - 4 - idLen.toInt).toNat buf

/-- The length fields are computed in `int32_t`. -/
def serialize (ser : Serializer B) (m : BaseMessage B) : Except CppException Bytes := do
  let data ← ser.encode m
  if data = [] then pure []
  else
    let idLen := Int32.ofWord m.rid.length
    let dataLen := Int32.ofWord data.length
    let totalLen := 4 + 4 + idLen + dataLen
    -- `output.reserve(total_len)`: as a `size_t`, a negative length is more than any string holds
    if totalLen < 0 then .error (.other (str "length_error"))
    else pure (putInt32 totalLen ++
      (putInt32 m.msgType.toInt32 ++ (putInt32 idLen ++ (m.rid ++ data))))

/-- What `serialize` returns; nothing where it throws. -/
def frame (ser : Serializer B) (m : BaseMessage B) : Bytes := (serialize ser m).toOption.getD []

end LVProtocol

namespace MuduoServer
variable {B : Type}

def maxDataLen : Nat := 1024 * 1024 * 10

/-- `serialize` returns a frame that is under the limit. -/
def fits (ser : Serializer B) (m : BaseMessage B) : Bool :=
  match LVProtocol.serialize ser m with
  | .ok bytes => bytes.length ≤ maxDataLen
  | .error _ => false

/-- Why the loop left the connection. -/
inductive Close where
  /-- `shutdown()` was called; the loop returned. -/
  | shutdown
  /-- An exception left the callback. -/
  | threw (e : CppException)
  /-- A buffer assertion failed. -/
  | abort
  deriving DecidableEq, Repr

structure Connection (B : Type) where
  buffer : Bytes := []
  /-- Messages handed to `_cb_message`, oldest first. -/
  dispatched : List (BaseMessage B) := []
  closed : List Close := []

/-- One turn of the receive loop; `registered`: the connection is in
`_connections`. -/
def nextMessage (ser : Serializer B) (registered : Bool) (buf : Bytes) :
    Next (BaseMessage B) (Close × Bytes) :=
  if LVProtocol.canProcessed buf = false then
    if maxDataLen < buf.length then .fault (.shutdown, buf) else .more
  else
    match LVProtocol.onMessage ser buf with
    | .fail rest => .fault (.shutdown, rest)
    | .threw e rest => .fault (.threw e, rest)
    | .underflow => .fault (.abort, [])
    | .ok m rest => if registered then .item m rest else .fault (.shutdown, rest)

/-- The network delivers a chunk. -/
def onMessage (ser : Serializer B) (registered : Bool) (c : Connection B) (chunk : Bytes) :
    Connection B :=
  let buf := c.buffer ++ chunk
  let r := drain (nextMessage ser registered) (buf.length + 1) buf
  match r.2 with
  | .pending rest => { c with buffer := rest, dispatched := c.dispatched ++ r.1 }
  | .stopped (e, rest) =>
    { buffer := rest, dispatched := c.dispatched ++ r.1, closed := c.closed ++ [e] }

end MuduoServer

end LyqtRpc
