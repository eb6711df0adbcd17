import Cofferwire.Codec.Frame

namespace Cofferwire.Codec

structure RequestFrame where
  requestId : RequestId
  request   : Request
  auth      : Auth
deriving DecidableEq, Repr

-- A decoded request with the exact bytes which its proof binds.
structure DecodedRequest where
  frame              : RequestFrame
  authenticatedBytes : Bytes
deriving DecidableEq, Repr

structure ResponseFrame where
  requestId : RequestId
  response  : Response
deriving DecidableEq, Repr

def encodeRequestBody : Request → Bytes
  | .createQueue value =>
    encodeArray 5 ++
    encodeId value.queueId.asBytes ++
    encodeId value.sender.asBytes ++
    encodeId value.recipient.asBytes ++
    encodeUnsigned value.limits.maxMessages ++
    encodeUnsigned value.limits.maxMessageBytes
  | .send value =>
    encodeArray 5 ++
    encodeId value.queueId.asBytes ++
    encodeId value.sender.asBytes ++
    encodeId value.messageId.asBytes ++
    encodeBytes value.payload.asBytes ++
    encodeUnsigned value.ttl
  | .fetch value =>
    encodeArray 2 ++
    encodeId value.queueId.asBytes ++
    encodeId value.recipient.asBytes
  | .ack value =>
    encodeArray 3 ++
    encodeId value.queueId.asBytes ++
    encodeId value.recipient.asBytes ++
    encodeId value.messageId.asBytes
  | .deleteQueue value =>
    encodeArray 2 ++
    encodeId value.queueId.asBytes ++
    encodeId value.recipient.asBytes

def encodeRequestPayload (request : Request) : Bytes :=
  encodeArray 3 ++
  encodeUnsigned 0 ++
  encodeUnsigned request.command.asU8.toUInt64 ++
  encodeRequestBody request

def encodeAuthenticatedRequest (requestId : RequestId) (request : Request) : Bytes :=
  encodePreamble requestId ++ encodeRequestPayload request

def encodeRequest (frame : RequestFrame) : Bytes :=
  encodeAuthenticatedRequest frame.requestId frame.request ++ encodeBytes frame.auth.asBytes

def encodeSuccessBody : ResponseBody → Bytes
  | .createQueue outcome => encodeArray 1 ++ encodeUnsigned outcome.asU8.toUInt64
  | .send outcome        => encodeArray 1 ++ encodeUnsigned outcome.asU8.toUInt64
  | .fetch none          => encodeArray 1 ++ encodeUnsigned 0
  | .fetch (some delivery) =>
    encodeArray 4 ++
    encodeUnsigned 1 ++
    encodeId delivery.messageId.asBytes ++
    encodeBytes delivery.payload.asBytes ++
    encodeUnsigned delivery.expiresAt
  | .ack | .deleteQueue => encodeArray 0

def encodeResponsePayload (response : Response) : Bytes :=
  encodeArray 4 ++
  encodeUnsigned 1 ++
  encodeUnsigned (response.command.elim 0 (·.asU8.toUInt64)) ++
  encodeUnsigned response.status.asU8.toUInt64 ++
  match response with
  | .error _      => encodeArray 0
  | .success body => encodeSuccessBody body

def encodeResponse (frame : ResponseFrame) : Bytes :=
  encodePreamble frame.requestId ++ encodeResponsePayload frame.response

def decodePreamble (bytes : Bytes) : Except DecodeError RequestId :=
  decodePreambleWithin maxFrameBytes bytes

def commandFromU64 (value : UInt64) : Decode Command :=
  match u8TryFrom value with
  | some byte => validate (Command.tryFrom byte)
  | none      => throw (.invalidValue "command" value)

def decodeCommand : Decode Command := do
  commandFromU64 (← Decoder.unsigned "command")

def decodeStatus : Decode Status := do
  let value ← Decoder.unsigned "status"
  match u8TryFrom value with
  | some byte => validate (Status.tryFrom byte)
  | none      => throw (.invalidValue "status" value)

def smallU8 (field : String) : Decode UInt8 := do
  let value ← Decoder.unsigned field
  match u8TryFrom value with
  | some byte => return byte
  | none      => throw (.invalidValue field value)

def queueId : Decode QueueId :=
  return ⟨← fixedBytes 32 "queue-id"⟩

def principal : Decode Principal :=
  return ⟨← fixedBytes 32 "principal"⟩

def messageId : Decode MessageId :=
  return ⟨← fixedBytes 32 "message-id"⟩

def payload : Decode Payload := do
  validate (Payload.new (← Decoder.bytes "payload" maxMessageBytes))

def decodeRequestBody : Command → Decode Request
  | .createQueue => do
    Decoder.array "CREATE_QUEUE request body" 5
    let queue ← queueId
    let sender ← principal
    let recipient ← principal
    let maxMessages ← Decoder.unsigned "max-messages"
    let maxMessageBytes ← Decoder.unsigned "max-message-bytes"
    let limits ← validate (QueueLimits.new maxMessages maxMessageBytes)
    return .createQueue ⟨queue, sender, recipient, limits⟩
  | .send => do
    Decoder.array "SEND request body" 5
    let queue ← queueId
    let sender ← principal
    let message ← messageId
    let payload ← payload
    let ttl ← Decoder.unsigned "ttl"
    return .send ⟨queue, sender, message, payload, ttl⟩
  | .fetch => do
    Decoder.array "FETCH request body" 2
    let queue ← queueId
    let recipient ← principal
    return .fetch ⟨queue, recipient⟩
  | .ack => do
    Decoder.array "ACK request body" 3
    let queue ← queueId
    let recipient ← principal
    let message ← messageId
    return .ack ⟨queue, recipient, message⟩
  | .deleteQueue => do
    Decoder.array "DELETE_QUEUE request body" 2
    let queue ← queueId
    let recipient ← principal
    return .deleteQueue ⟨queue, recipient⟩

def decodeResponseBody : Command → Decode ResponseBody
  | .createQueue => do
    Decoder.array "CREATE_QUEUE response body" 1
    let value ← smallU8 "CREATE_QUEUE outcome"
    return .createQueue (← validate (CreateQueueOutcome.tryFrom value))
  | .send => do
    Decoder.array "SEND response body" 1
    let value ← smallU8 "SEND outcome"
    return .send (← validate (SendOutcome.tryFrom value))
  | .fetch => do
    let actual ← Decoder.arrayLength
    if actual = 1 then
      expectValue "FETCH availability" 0
      return .fetch none
    else if actual = 4 then
      expectValue "FETCH availability" 1
      let message ← messageId
      let payload ← payload
      let expiresAt ← Decoder.unsigned "expires-at"
      return .fetch (some ⟨message, payload, expiresAt⟩)
    else
      throw (.invalidValue "FETCH response body length" actual)
  | .ack => do
    Decoder.array "ACK response body" 0
    return .ack
  | .deleteQueue => do
    Decoder.array "DELETE_QUEUE response body" 0
    return .deleteQueue

def decodeRequestPayload : Decode Request := do
  Decoder.array "request payload" 3
  expectValue "request direction" 0
  let command ← decodeCommand
  decodeRequestBody command

def decodeAuth : Decode Auth := do
  validate (Auth.new (← Decoder.bytes "auth" maxAuthBytes))

def decodeRequest (bytes : Bytes) : Except DecodeError DecodedRequest := do
  let requestId ← decodePreamble bytes
  let (request, decoder) ← decodeRequestPayload.run ⟨bytes, preambleBytes⟩
  let authenticatedEnd := decoder.offset
  let (auth, decoder) ← decodeAuth.run decoder
  finish decoder bytes
  return ⟨⟨requestId, request, auth⟩, bytes.take authenticatedEnd⟩

def optionalCommand (commandCode : UInt64) : Decode (Option Command) :=
  if commandCode = 0 then return none else return some (← commandFromU64 commandCode)

def decodeResponsePayload : Decode Response := do
  Decoder.array "response payload" 4
  expectValue "response direction" 1
  let commandCode ← Decoder.unsigned "response command"
  let status ← decodeStatus
  if status.isOk then
    let command ← commandFromU64 commandCode
    return .success (← decodeResponseBody command)
  else
    Decoder.array "error response body" 0
    let command ← optionalCommand commandCode
    return .error (← validate (ErrorResponse.new command status))

def decodeResponse (bytes : Bytes) : Except DecodeError ResponseFrame := do
  let requestId ← decodePreamble bytes
  let (response, decoder) ← decodeResponsePayload.run ⟨bytes, preambleBytes⟩
  finish decoder bytes
  return ⟨requestId, response⟩

end Cofferwire.Codec
