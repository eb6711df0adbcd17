import Cofferwire.Library.Reader
import Cofferwire.Types.Basic

namespace Cofferwire.Python

-- The exceptions which the modelled code can raise.
inductive Error
  | protocolError (status : Nat)
  | valueError (message : String)
  | typeError
  | indexError
  | recursionError
  | overflowError
  | integrityError
  | operationalError
deriving DecidableEq, Repr

-- The objects which the codec produces and consumes. It never handles negative numbers.
inductive Value
  | int (value : Nat)
  | bytes (value : Bytes)
  | list (items : List Value)

def maxFrameBytes : Nat := 65536

def argument (major : UInt8) (value : Nat) : Except Error Bytes :=
  if value < 24 then
    .ok [major <<< 5 ||| .ofNat value]
  else if value ≤ 0xff then
    .ok [major <<< 5 ||| 24, .ofNat value]
  else if value ≤ 0xffff then
    .ok ((major <<< 5 ||| 25) :: BigEndian.encode 2 value)
  else if value ≤ 0xffffffff then
    .ok ((major <<< 5 ||| 26) :: BigEndian.encode 4 value)
  else if value ≤ 0xffffffffffffffff then
    .ok ((major <<< 5 ||| 27) :: BigEndian.encode 8 value)
  else
    .error (.valueError "CBOR integer exceeds uint64")

mutual

def cbor : Value → Except Error Bytes
  | .int value   => argument 0 value
  | .bytes value => return (← argument 2 value.length) ++ value
  | .list items  => return (← argument 4 items.length) ++ (← join items)

-- The encodings of all items of a list.
def join : List Value → Except Error Bytes
  | []            => return []
  | item :: items => return (← cbor item) ++ (← join items)

end

-- How much room the interpreter's stack has: whether an item which is nested in `n` arrays can be
-- entered and, if so, whether its head can be read. There is room for what the protocol needs.
structure Stack where
  enters : Nat → Bool
  reads  : Nat → Bool
  roomy  : ∀ n ≤ 1, enters n ∧ reads n

def Stack.unbounded : Stack where
  enters _ := true
  reads _  := true
  roomy    := by simp

abbrev Decode := Reader Error UInt8

namespace Decoder

-- A call for which the stack may lack the room.
def call (room : Bool) (r : Decode α) : Decode α :=
  if room then r else throw .recursionError

-- The number of bytes which the additional information of a lead byte announces.
def width (additional : UInt8) : Nat :=
  if additional = 24 then 1 else if additional = 25 then 2 else if additional = 26 then 4 else 8

def minimum (width : Nat) : Nat :=
  if width = 1 then 24 else if width = 2 then 256 else if width = 4 then 65536 else 4294967296

def head (expectedMajor : UInt8) : Decode Nat := do
  let initial ← Reader.item fun _ => .valueError "truncated CBOR"
  let major := initial >>> 5
  let additional := initial &&& 31
  if major ≠ expectedMajor ∨ additional ≥ 28 then
    throw (.valueError "forbidden CBOR type")
  else if additional < 24 then
    return additional.toNat
  else
    let width := width additional
    let value := BigEndian.decode <|
      ← Reader.take width fun _ => .valueError "truncated CBOR argument"
    if value < minimum width then
      throw (.valueError "non-canonical CBOR argument")
    else
      return value

def uint : Decode Nat :=
  head 0

def byteString (maximum : Nat) : Decode Bytes := do
  let length ← head 2
  if length > maximum then
    throw (.valueError "invalid byte string length")
  else
    Reader.take length fun _ => .valueError "invalid byte string length"

-- An array of a given length, if there is one, whose items are read by `item`.
def array (length : Option Nat) (item : Decode Value) : Decode (List Value) := do
  let actual ← head 4
  if length.any (actual ≠ ·) then
    throw (.valueError "wrong array length")
  else
    Reader.times actual item

-- An item which is nested in `level` arrays. Every array has a lead byte, so the length of the input
-- is enough fuel and running out of it amounts to a truncated input.
def item (stack : Stack) : (fuel level : Nat) → Decode Value
  | 0, _ => throw (.valueError "truncated CBOR item")
  | fuel + 1, level => call (stack.enters level) do
    let initial ← Reader.peek (.valueError "truncated CBOR item")
    let major := initial >>> 5
    if major = 0 then
      call (stack.reads level) do return .int (← uint)
    else if major = 2 then
      call (stack.reads level) do return .bytes (← byteString maxFrameBytes)
    else if major = 4 then
      call (stack.reads level) do return .list (← array none (item stack fuel (level + 1)))
    else
      throw (.valueError "forbidden CBOR item")

end Decoder
end Cofferwire.Python
