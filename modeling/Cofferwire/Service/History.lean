import Cofferwire.Relay.History
import Cofferwire.Relay.Theorems.Durable
import Cofferwire.Service.Exchange

namespace Cofferwire.RelayService

open DurableRelay (executeQueueRequest BlobTables)

variable [Profile] [Ed25519] [Sha256]

-- The queue operation which takes effect when the service receives an input. Requests which are
-- replayed or rejected have no effect.
def event (input : Input) (service : RelayService) : Option (Relay.Operation × Relay.Reply) :=
  match input with
  | .exchange bytes now false =>
    match (service.screen bytes now).fst with
    | .error _    => none
    | .ok decoded =>
      let call    := queueCall bytes now decoded
      let request := decoded.frame.request
      if (Replay.lookup service.relay call.ns call.subject call.requestId).isSome then
        none
      else
        match executeQueueRequest request now service.relay.store.queue with
        | .error _       => none
        | .ok (body, _)  => (request.operation now).map fun op => (op, .ok body.outcome)
  | _ => none

-- The endpoint at which a frame is presented, the frame and the current time.
def Input.frame : Input → Option (Replay.Namespace × Bytes × Timestamp)
  | exchange bytes now _     => some (.queue, bytes, now)
  | exchangeBlob bytes now _ => some (.blob, bytes, now)
  | restart                  => none

section Run

variable (inputs : Nat → Input)

def history : Relay.History where
  relay t := (machine.state inputs t).relay.store.queue.relay
  event t := event (inputs t) (machine.state inputs t)

def blobTables (n : Nat) : BlobTables :=
  (machine.state inputs n).relay.store.blob

structure Answers (n : Nat) (ns : Replay.Namespace) (bytes : Bytes) (now : Timestamp)
    (response : Bytes) : Prop where
  input  : (inputs n).frame = some (ns, bytes, now)
  output : machine.output inputs n = some (.ok response)

-- The frame has not been answered before.
structure FirstAnswers (n : Nat) (ns : Replay.Namespace) (bytes : Bytes) (now : Timestamp)
    (response : Bytes) : Prop extends Answers inputs n ns bytes now response where
  first : ∀ k < n, ∀ now' response', ¬Answers inputs k ns bytes now' response'

end Run
end Cofferwire.RelayService
