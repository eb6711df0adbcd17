import Cofferwire.Crypto.Request
import Cofferwire.Python.Cbor

namespace Cofferwire.Python

def version : UInt8 := 1
def maxAuthBytes : Nat := 1024
def maxMessageBytes : Nat := 64374

-- The text `cofferwire relay request v1` and a zero byte.
def authDomain : Bytes :=
  [99, 111, 102, 102, 101, 114, 119, 105, 114, 101, 32, 114, 101, 108, 97, 121, 32, 114, 101,
   113, 117, 101, 115, 116, 32, 118, 49, 0]

def createQueue : Nat := 1
def send        : Nat := 2
def fetch       : Nat := 3
def ack         : Nat := 4
def deleteQueue : Nat := 5

namespace Code

def ok                 : Nat := 0
def unsupportedVersion : Nat := 1
def malformedFrame     : Nat := 2
def frameTooLarge      : Nat := 3
def unknownCommand     : Nat := 4
def queueNotFound      : Nat := 5
def unauthorized       : Nat := 6
def queueIdConflict    : Nat := 7
def messageIdConflict  : Nat := 8
def messageTooLarge    : Nat := 9
def queueFull          : Nat := 10
def expiryOverflow     : Nat := 11
def ackMismatch        : Nat := 12
def notDelivered       : Nat := 13
def authInvalid        : Nat := 14
def limitOutOfRange    : Nat := 15
def authReplay         : Nat := 16

end Code

def id : Value → Except Error (ByteVec 32)
  | .bytes value =>
    if h : value.length = 32 then
      .ok ⟨value, h⟩
    else
      .error (.valueError "identifier must be 32 bytes")
  | _ => .error (.valueError "identifier must be 32 bytes")

-- The item of a list at an index, i.e. `body[i]`.
def index (body : List Value) (i : Nat) : Except Error Value :=
  body[i]?.elim (.error .indexError) .ok

def idAt (body : List Value) (i : Nat) : Except Error (ByteVec 32) := do
  id (← index body i)

def Value.isInt : Value → Bool
  | .int _ => true
  | _      => false

-- The number of items in the bodies of the known commands.
def size (command : Nat) : Option Nat :=
  if command = createQueue then some 5
  else if command = send then some 5
  else if command = fetch then some 2
  else if command = ack then some 3
  else if command = deleteQueue then some 2
  else none

def validateBody (command : Nat) : Value → Except Error (List Value)
  | .list body =>
    match size command with
    | none => .error (.protocolError Code.unknownCommand)
    | some size => do
      if body.length ≠ size then
        .error (.valueError "wrong command body length")
      else if command = createQueue then
        let _ ← idAt body 0
        let _ ← idAt body 1
        let _ ← idAt body 2
        if ¬(body.drop 3).all Value.isInt then
          .error (.valueError "limits must be integers")
        else
          return body
      else if command = send then
        let _ ← idAt body 0
        let _ ← idAt body 1
        let _ ← idAt body 2
        match ← index body 3 with
        | .bytes payload =>
          if payload.length > maxMessageBytes then
            .error (.valueError "invalid message payload")
          else if ¬(← index body 4).isInt then
            .error (.valueError "ttl must be an integer")
          else
            return body
        | _ => .error (.valueError "invalid message payload")
      else
        let _ ← idAt body 0
        let _ ← idAt body 1
        if command = ack then
          let _ ← idAt body 2
          return body
        else
          return body
  | _ => .error (.valueError "body must be an array")

structure RequestFrame where
  requestId     : ByteVec 16
  command       : Nat
  body          : List Value
  auth          : Bytes
  authenticated : Bytes
  encoded       : Bytes

def discriminate : List Value → Except Error (Nat × Value)
  | [.int 0, .int command, body] => .ok (command, body)
  | _                            => .error (.valueError "invalid request discriminator")

def decodeRequest (stack : Stack) (frame : Bytes) : Except Error RequestFrame :=
  if frame.length > maxFrameBytes then
    .error (.protocolError Code.frameTooLarge)
  else if h : frame.length < 17 then
    .error (.valueError "truncated preamble")
  else if frame.head? ≠ some version then
    .error (.protocolError Code.unsupportedVersion)
  else do
    let items := Decoder.array (some 3) (Decoder.item stack frame.length 0)
    let (payload, decoder) ← items.run ⟨frame, 17⟩
    let (command, body) ← discriminate payload
    let body ← validateBody command body
    let authenticatedEnd := decoder.offset
    let (auth, decoder) ← (Decoder.byteString maxAuthBytes).run decoder
    if decoder.offset ≠ frame.length then
      .error (.valueError "trailing frame bytes")
    else
      return {
        requestId     := ⟨slice frame 1 17, slice_length (by omega)⟩
        command       := command
        body          := body
        auth          := auth
        authenticated := frame.take authenticatedEnd
        encoded       := frame
      }

-- The type of the request identifier ensures that it has 16 bytes.
def encodeResponse (requestId : ByteVec 16) (command status : Nat) (body : List Value) :
    Except Error Bytes :=
  if ¬status ≤ Code.authReplay then
    .error (.valueError "invalid response metadata")
  else if status ≠ Code.ok ∧ ¬body.isEmpty then
    .error (.valueError "error responses have empty bodies")
  else do
    let payload ← cbor (.list [.int 1, .int command, .int status, .list body])
    return version :: requestId.toBytes ++ payload

structure ResponseFrame where
  requestId : ByteVec 16
  command   : Nat
  status    : Nat
  body      : List Value

def decodeResponse (stack : Stack) (frame : Bytes) : Except Error ResponseFrame :=
  if h : frame.length > maxFrameBytes ∨ frame.length < 17 ∨ frame.head? ≠ some version then
    .error (.valueError "invalid response preamble")
  else do
    let items := Decoder.array (some 4) (Decoder.item stack frame.length 0)
    let (payload, decoder) ← items.run ⟨frame, 17⟩
    if decoder.offset ≠ frame.length then
      .error (.valueError "invalid response")
    else
      match payload with
      | [.int 1, .int command, .int status, .list body] =>
        if ¬status ≤ Code.authReplay ∨ (status ≠ Code.ok ∧ ¬body.isEmpty) then
          .error (.valueError "invalid response status/body")
        else
          return ⟨⟨slice frame 1 17, slice_length (by omega)⟩, command, status, body⟩
      | .int 1 :: _ => .error (.valueError "invalid response fields")
      | _           => .error (.valueError "invalid response")

-- Whatever the library raises for a key or a signature, it counts as invalid.
def verifyRequest [Ed25519] (request : RequestFrame) (principal : ByteVec 32) : Except Error Unit :=
  if request.auth.length ≠ 68 ∨ request.auth.take 4 ≠ [0, 1, 0, 1] then
    .error (.protocolError Code.authInvalid)
  else
    match Ed25519.fromBytes principal, ByteVec.tryFrom 64 (request.auth.drop 4) with
    | some key, some signature =>
      if Ed25519.verifyStrict key (authDomain ++ request.authenticated) signature then
        .ok ()
      else
        .error (.protocolError Code.authInvalid)
    | _, _ => .error (.protocolError Code.authInvalid)

end Cofferwire.Python
