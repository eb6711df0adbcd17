import Cofferwire.Relay.Theorems.Exchange
import Cofferwire.Service.History

namespace Cofferwire.RelayService

open Codec (DecodedRequest encodeResponse decodeRequest)
open Codec.Blob (DecodedBlobRequest encodeBlobResponse decodeBlobRequest)
open DurableRelay (Store)
open Replay (Call Database Answered Rejects)

-- An error response of the respective profile.
def Refusal (response : Bytes) : Prop :=
  ∃ requestId error, response = encodeResponse ⟨requestId, .error error⟩

def BlobRefusal (response : Bytes) : Prop :=
  ∃ requestId command status, status ≠ .ok ∧
    response = encodeBlobResponse ⟨requestId, { command, status, body := none }⟩

theorem decodeErrorResponse_refusal : Refusal (decodeErrorResponse bytes error) := by
  unfold decodeErrorResponse
  split <;> exact ⟨_, _, rfl⟩

theorem blobDecodeErrorResponse_refusal : BlobRefusal (blobDecodeErrorResponse bytes error) := by
  unfold blobDecodeErrorResponse
  split <;> exact ⟨_, _, _, by decide, rfl⟩

-- What decides whether a frame is let through, apart from the rate limit.
structure Admissible [Ed25519] (bytes : Bytes) (decoded : DecodedRequest) : Prop where
  decode   : decodeRequest bytes = .ok decoded
  verify   : verifyRequest (requestPrincipal decoded.frame.request) decoded.authenticatedBytes
    decoded.frame.auth = .ok ()
  validate : validateQueueRequest decoded.frame.request = .ok ()

structure AdmissibleBlob [Ed25519] (bytes : Bytes) (decoded : DecodedBlobRequest) : Prop where
  decode : decodeBlobRequest bytes = .ok decoded
  verify : verifyBlobRequest decoded.frame.request.capability decoded.authenticatedBytes
    decoded.frame.auth = .ok ()

-- A frame is refused because of its content, or because of the rate limit, or let through.
inductive Screened (Refusal : Bytes → Prop) (Admissible : α → Prop) :
    Except (Except ExchangeError Bytes) α → Prop
  | refuse (hr : Refusal response) (ha : ∀ a, ¬Admissible a) :
    Screened Refusal Admissible (.error (.ok response))
  | limit : Screened Refusal Admissible (.error (.error e))
  | pass (ha : Admissible a) : Screened Refusal Admissible (.ok a)

section Screen

variable [Profile] [Ed25519] (service : RelayService) (bytes : Bytes) (now : Timestamp)

theorem screen_screened : Screened Refusal (Admissible bytes) (service.screen bytes now).fst := by
  unfold screen
  split
  case h_1 hd =>
    refine .refuse decodeErrorResponse_refusal fun _ ha => ?_
    cases hd.symm.trans ha.decode
  case h_2 decoded hd =>
    dsimp only
    split
    case h_1 hv =>
      refine .refuse ⟨_, _, rfl⟩ fun _ ha => ?_
      cases hd.symm.trans ha.decode
      cases hv.symm.trans ha.verify
    case h_2 hv =>
      split
      case h_1 => exact .limit
      case h_2 => exact .limit
      case h_3 =>
        split
        case h_1 hq => exact .pass ⟨hd, hv, hq⟩
        case h_2 hq =>
          refine .refuse ⟨_, _, rfl⟩ fun _ ha => ?_
          cases hd.symm.trans ha.decode
          cases hq.symm.trans ha.validate

theorem screen_relay : (service.screen bytes now).snd.relay = service.relay := by
  unfold screen
  split
  case h_1 => rfl
  case h_2 =>
    dsimp only
    split
    case h_1 => rfl
    case h_2 =>
      split <;> try rfl
      split <;> rfl

theorem screenBlob_screened :
    Screened BlobRefusal (AdmissibleBlob bytes) (service.screenBlob bytes now).fst := by
  unfold screenBlob
  split
  case h_1 hd =>
    refine .refuse blobDecodeErrorResponse_refusal fun _ ha => ?_
    cases hd.symm.trans ha.decode
  case h_2 decoded hd =>
    dsimp only
    split
    case h_1 hv =>
      refine .refuse ⟨_, _, _, by decide, rfl⟩ fun _ ha => ?_
      cases hd.symm.trans ha.decode
      cases hv.symm.trans ha.verify
    case h_2 hv =>
      split
      case h_1 => exact .limit
      case h_2 => exact .limit
      case h_3 => exact .pass ⟨hd, hv⟩

theorem screenBlob_relay : (service.screenBlob bytes now).snd.relay = service.relay := by
  unfold screenBlob
  split
  case h_1 => rfl
  case h_2 =>
    dsimp only
    split
    case h_1 => rfl
    case h_2 => split <;> rfl

end Screen

-- What becomes of a call.
inductive Serves (call : Call Store) (conflict : Bytes) (database : Database Store) :
    Except ExchangeError Bytes → Database Store → Prop
  | fail : Serves call conflict database (.error e) database
  | replay (hm : call.row response ∈ database.replays call.ns) :
    Serves call conflict database (.ok response) database
  | conflict (hm : row ∈ database.replays call.ns) (hk : row.key = call.key) :
    Serves call conflict database (.ok conflict) database
  | perform (hf : database.Fresh call)
    (ha : Answered (Rejects database) database call response transaction) :
    Serves call conflict database (.ok response) (transaction.record call response)

theorem submit_serves (service : RelayService) (call : Call Store) (conflict : Bytes) (fault : Bool) :
    Serves call conflict service.relay (service.submit call conflict fault).fst
      (service.submit call conflict fault).snd.relay := by
  unfold submit
  split
  case isTrue => exact .fail
  case isFalse =>
    split
    case h_1 row hl =>
      have hk := Table.key_of_lookup hl
      split
      case isTrue hr  => exact .replay (Replay.eq_row hk hr ▸ Table.mem_of_lookup hl)
      case isFalse => exact .conflict (Table.mem_of_lookup hl) hk
    case h_2 hl =>
      have hf := Replay.lookup_eq_none.mp hl
      obtain ⟨error, _, he⟩ | ⟨response, transaction, ha, he⟩ := Replay.exchange_fresh hf
      · rw [he]
        exact .fail
      · rw [he]
        exact .perform hf ha

variable [Ed25519] [Sha256]

-- The call which a frame makes if it is let through, and the response to a conflicting call.
inductive Calls : Input → Call Store → Bytes → Prop
  | queue (ha : Admissible bytes decoded) :
    Calls (.exchange bytes now fault) (queueCall bytes now decoded)
      (errorResponse decoded.frame.requestId decoded.frame.request.command .authReplay)
  | blob (ha : AdmissibleBlob bytes decoded) :
    Calls (.exchangeBlob bytes now fault) (blobCall bytes now decoded)
      (blobErrorResponse decoded.frame.requestId decoded.frame.request.command .authReplay)

theorem Calls.frame_eq (hc : Calls input call conflict) :
    ∃ now, input.frame = some (call.ns, call.request, now) := by
  cases hc <;> exact ⟨_, rfl⟩

-- A frame makes the same call at any time.
theorem Calls.of_frame (hc : Calls input call conflict)
    (hf : input'.frame = some (call.ns, call.request, now)) :
    ∃ call', Calls input' call' conflict ∧ call'.ns = call.ns ∧ call'.key = call.key ∧
      call'.request = call.request := by
  cases hc <;> cases input' <;> cases hf
  case queue.exchange ha _    => exact ⟨_, .queue ha, rfl, rfl, rfl⟩
  case blob.exchangeBlob ha _ => exact ⟨_, .blob ha, rfl, rfl, rfl⟩

theorem Calls.unique (hc : Calls input call conflict) (hc' : Calls input call' conflict') :
    call = call' ∧ conflict = conflict' := by
  cases hc <;> cases hc'
  case queue.queue ha _ ha' => cases ha.decode.symm.trans ha'.decode; exact ⟨rfl, rfl⟩
  case blob.blob ha _ ha'   => cases ha.decode.symm.trans ha'.decode; exact ⟨rfl, rfl⟩

def Input.Refusal : Input → Bytes → Prop
  | exchange .., response     => RelayService.Refusal response
  | exchangeBlob .., response => BlobRefusal response
  | restart, _                => False

theorem Calls.refusal (hc : Calls input call conflict) : input.Refusal conflict := by
  cases hc
  case queue => exact ⟨_, _, rfl⟩
  case blob  => exact ⟨_, _, _, by decide, rfl⟩

-- All that an input can do to the database.
inductive Step (input : Input) (database : Database Store) :
    Option (Except ExchangeError Bytes) → Database Store → Prop
  | restart : Step input database none database
  | limit : Step input database (some (.error e)) database
  | refuse (hr : input.Refusal response) (hc : ∀ call conflict, ¬Calls input call conflict) :
    Step input database (some (.ok response)) database
  | serve (hc : Calls input call conflict) (hs : Serves call conflict database answer database') :
    Step input database (some answer) database'

variable [Profile]

theorem step_step (input : Input) (service : RelayService) :
    Step input service.relay (step input service).fst (step input service).snd.relay := by
  cases input
  case restart => exact .restart
  case exchange bytes now fault =>
    have hs := screen_screened service bytes now
    have hr := screen_relay service bytes now
    simp only [step, exchangeAt]
    generalize service.screen bytes now = result at hs hr
    obtain ⟨_, service'⟩ := result
    cases hs
    case refuse hf ha =>
      refine hr ▸ .refuse hf fun call conflict hc => ?_
      cases hc
      exact ha _ ‹_›
    case limit => exact hr ▸ .limit
    case pass decoded ha =>
      have hs := submit_serves service' (queueCall bytes now decoded)
        (errorResponse decoded.frame.requestId decoded.frame.request.command .authReplay) fault
      exact .serve (.queue ha) (hr ▸ hs)
  case exchangeBlob bytes now fault =>
    have hs := screenBlob_screened service bytes now
    have hr := screenBlob_relay service bytes now
    simp only [step, exchangeBlobAt]
    generalize service.screenBlob bytes now = result at hs hr
    obtain ⟨_, service'⟩ := result
    cases hs
    case refuse hf ha =>
      refine hr ▸ .refuse hf fun call conflict hc => ?_
      cases hc
      exact ha _ ‹_›
    case limit => exact hr ▸ .limit
    case pass decoded ha =>
      have hs := submit_serves service' (blobCall bytes now decoded)
        (blobErrorResponse decoded.frame.requestId decoded.frame.request.command .authReplay) fault
      exact .serve (.blob ha) (hr ▸ hs)

section Run

variable (inputs : Nat → Input)

def database (n : Nat) : Database Store :=
  (machine.state inputs n).relay

-- The call of the `n`-th frame is executed and its response is recorded.
structure Performs (n : Nat) (call : Call Store) (response : Bytes) : Prop where
  calls    : ∃ conflict, Calls (inputs n) call conflict
  fresh    : (database inputs n).Fresh call
  output   : machine.output inputs n = some (.ok response)
  answered : ∃ transaction,
    Answered (Rejects (database inputs n)) (database inputs n) call response transaction ∧
    database inputs (n + 1) = transaction.record call response

theorem machine_step (n : Nat) :
    Step (inputs n) (database inputs n) (machine.output inputs n) (database inputs (n + 1)) :=
  step_step _ _

-- The database only changes when a call is executed.
theorem database_cases (n : Nat) :
    database inputs (n + 1) = database inputs n ∨ ∃ call response, Performs inputs n call response := by
  have hs := machine_step inputs n
  generalize hd : database inputs (n + 1) = database' at hs
  generalize ho : machine.output inputs n = output at hs
  cases hs
  case restart => exact .inl rfl
  case limit   => exact .inl rfl
  case refuse  => exact .inl rfl
  case serve hc hs =>
    cases hs
    case fail          => exact .inl rfl
    case replay        => exact .inl rfl
    case conflict      => exact .inl rfl
    case perform hf ha => exact .inr ⟨_, _, ⟨_, hc⟩, hf, ho, _, ha, hd⟩

variable {inputs}

theorem Performs.extends (hp : Performs inputs n call response) :
    (database inputs n).Extends (database inputs (n + 1)) := by
  have ⟨transaction, ha, hd⟩ := hp.answered
  rw [hd]
  intro ns
  exact ha.replays_eq ▸ Database.extends_record ns

theorem database_extends (h : n ≤ k) : (database inputs n).Extends (database inputs k) := by
  induction h
  case refl => exact fun _ => List.prefix_rfl
  case step k _ hi =>
    intro ns
    obtain he | ⟨_, _, hp⟩ := database_cases inputs k
    · exact he ▸ hi ns
    · exact (hi ns).trans (hp.extends ns)

theorem Performs.mem (hp : Performs inputs n call response) (h : n < k) :
    call.row response ∈ (database inputs k).replays call.ns := by
  have ⟨transaction, _, hd⟩ := hp.answered
  exact (database_extends h call.ns).subset (hd ▸ Database.mem_record)

-- Every record stems from a call which was executed.
theorem performs_of_mem (h : row ∈ (database inputs n).replays ns) :
    ∃ m < n, ∃ call response, Performs inputs m call response ∧ ns = call.ns ∧
      row = call.row response := by
  induction n
  case zero => cases h
  case succ n hi =>
    obtain he | ⟨call, response, hp⟩ := database_cases inputs n
    · have ⟨m, hm, h⟩ := hi (he ▸ h)
      exact ⟨m, by omega, h⟩
    · obtain ⟨transaction, ha, hd⟩ := hp.answered
      rw [hd, Database.mem_record_iff, ha.replays_eq] at h
      obtain h | ⟨hn, hr⟩ := h
      · have ⟨m, hm, h⟩ := hi h
        exact ⟨m, by omega, h⟩
      · exact ⟨n, by omega, call, response, hp, hn, hr⟩

-- Once a call is answered, there is a record for its key.
theorem exists_record (hc : Calls (inputs k) call conflict)
    (ho : machine.output inputs k = some (.ok response)) (h : k < n) :
    ∃ row ∈ (database inputs n).replays call.ns, row.key = call.key := by
  have he : (database inputs k).Extends (database inputs n) := database_extends (Nat.le_of_lt h)
  have hs := machine_step inputs k
  generalize hd : database inputs (k + 1) = database' at hs
  rw [ho] at hs
  cases hs
  case refuse hn _ => exact absurd hc (hn _ _)
  case serve hc' hs =>
    obtain ⟨rfl, rfl⟩ := hc.unique hc'
    cases hs
    case replay hm        => exact ⟨_, (he _).subset hm, rfl⟩
    case conflict row hm hk => exact ⟨row, (he _).subset hm, hk⟩
    case perform hf ha    =>
      have hp : Performs inputs k _ response := ⟨⟨_, hc⟩, hf, ho, _, ha, hd⟩
      exact ⟨_, hp.mem h, rfl⟩

-- No frame is answered before its call is executed.
theorem Performs.firstAnswers (hp : Performs inputs n call response)
    (hf : (inputs n).frame = some (call.ns, call.request, now)) :
    FirstAnswers inputs n call.ns call.request now response where
  input  := hf
  output := hp.output
  first k hk now' response' := by
    intro ⟨hf', ho⟩
    obtain ⟨conflict, hc⟩ := hp.calls
    obtain ⟨call', hc, hn, hk', _⟩ := hc.of_frame hf'
    obtain ⟨row, hm, hr⟩ := exists_record hc ho hk
    exact hp.fresh row (hn ▸ hm) (hr.trans hk')

-- Every answer is a refusal or goes back to the execution of a call of the same frame.
theorem Answers.exists_performs (ha : Answers inputs n ns bytes now response) :
    (inputs n).Refusal response ∨ ∃ m ≤ n, ∃ call t, Performs inputs m call response ∧
      FirstAnswers inputs m ns bytes t response ∧ call.ns = ns ∧ call.request = bytes := by
  have ⟨hf, ho⟩ := ha
  have hs := machine_step inputs n
  generalize hd : database inputs (n + 1) = database' at hs
  rw [ho] at hs
  cases hs
  case refuse hr => exact .inl hr
  case serve hc hs =>
    have ⟨_, hf'⟩ := hc.frame_eq
    cases hf.symm.trans hf'
    cases hs
    case conflict => exact .inl hc.refusal
    case perform hf' ha =>
      have hp : Performs inputs n _ response := ⟨⟨_, hc⟩, hf', ho, _, ha, hd⟩
      exact .inr ⟨n, le_refl _, _, _, hp, hp.firstAnswers hf, rfl, rfl⟩
    case replay hm =>
      obtain ⟨m, hm, call', response', hp, hn, hr⟩ := performs_of_mem hm
      obtain ⟨_, hc'⟩ := hp.calls
      obtain ⟨t, hf'⟩ := hc'.frame_eq
      have hq := congrArg Replay.Row.request hr
      obtain rfl : response = response' := congrArg Replay.Row.response hr
      simp only [Call.row] at hq
      rw [hn, hq]
      exact .inr ⟨m, Nat.le_of_lt hm, call', t, hp, hp.firstAnswers hf', rfl, rfl⟩

end Run
end Cofferwire.RelayService
