import Cofferwire.Relay.Theorems.Interference
import Cofferwire.Service.Theorems.Execution
import Cofferwire.Service.Theorems.RateLimit
import Cofferwire.Service.Theorems.Reuse

namespace Cofferwire

open Codec (DecodedRequest decodeRequest)
open DurableRelay (Store)
open Relay (QueueConfig)
open Replay (Database)

namespace Relay

-- The principal is the sender or the recipient of a queue.
def QueueConfig.IsParty (config : QueueConfig) (principal : Principal) : Prop :=
  principal = config.sender ∨ principal = config.recipient

instance {config : QueueConfig} : DecidablePred config.IsParty :=
  fun _ => inferInstanceAs (Decidable (_ ∨ _))

variable {relay : Relay} {config : QueueConfig} {op : Operation}

-- Others cannot change a queue which exists.
theorem undoError_queues (hc : relay.config q = some config) (hp : ¬config.IsParty op.principal) :
    (Machine.undoError relay (apply op relay)).snd.queues q = relay.queues q := by
  have ha : (apply op relay).snd.queues q = relay.queues q := by
    by_contra h
    obtain ⟨queue, hq, rfl⟩ := config_eq_some.mp hc
    cases authorized_of_ne h
    case createQueue hn   => cases hn.symm.trans hq
    case send hq'        => cases hq'.symm.trans hq; exact hp (.inl rfl)
    case fetch hq'       => cases hq'.symm.trans hq; exact hp (.inr rfl)
    case acknowledge hq' => cases hq'.symm.trans hq; exact hp (.inr rfl)
    case deleteQueue hq' => cases hq'.symm.trans hq; exact hp (.inr rfl)
  generalize apply op relay = result at ha
  obtain ⟨_ | _, _⟩ := result
  case error => rfl
  case ok    => exact ha

-- Only the recipient can delete a queue.
theorem undoError_config (hc : relay.config q = some config) (ho : op ≠ .deleteQueue q config.recipient) :
    (Machine.undoError relay (apply op relay)).snd.config q = some config := by
  have hr := reconfigures relay op q
  rw [hc] at hr
  cases he : apply op relay
  case mk reply relay' =>
    rw [he] at hr
    cases reply
    case error => exact hc
    case ok outcome =>
      dsimp only at hr
      generalize hc' : relay'.config q = config' at hr
      cases hr
      case keep => exact hc'
      case delete recipient ho' _ =>
        subst ho'
        have hd := congrArg Prod.fst he
        simp only [apply, answer, deleteQueue] at hd
        split at hd
        case h_1 => cases hd
        case h_2 hr =>
          obtain ⟨hq, rfl⟩ := recipientQueue_eq_ok.mp hr
          obtain ⟨_, hq', rfl⟩ := config_eq_some.mp hc
          cases hq.symm.trans hq'
          exact absurd rfl ho

end Relay

theorem RateLimiter.Agree.symm {limiter limiter' : RateLimiter κ} [DecidableEq κ]
    (h : Agree w a limiter limiter') : Agree w a limiter' limiter :=
  have ⟨window, hl, hl'⟩ := h.window
  ⟨h.right, h.left, h.maxRequests.symm, window, hl', hl⟩

namespace RelayService

section Requests

variable [Ed25519]

def Input.request : Input → Option DecodedRequest
  | exchange bytes _ _           => verified bytes
  | exchangeBlob _ _ _ | restart => none

-- The input is a frame which has been signed by the sender or the recipient of a queue.
def Input.isFrom (config : QueueConfig) (input : Input) : Bool :=
  input.request.any fun decoded =>
    config.IsParty (requestPrincipal decoded.frame.request)

-- The input is such a frame with a request on a queue.
def Input.concerns (config : QueueConfig) (q : QueueId) (input : Input) : Bool :=
  input.isFrom config && input.request.any (·.frame.request.queueId = q)

-- The recipient asks for the queue to be deleted.
def Input.deletes (config : QueueConfig) (q : QueueId) (input : Input) : Prop :=
  ∃ decoded ∈ input.request, decoded.frame.request = .deleteQueue ⟨q, config.recipient⟩

end Requests

section Alike

-- Two records of the same request. Its response is the same if the request is on the queue.
structure SameRecord (q : QueueId) (row row' : Replay.Row) : Prop where
  request  : row.request = row'.request
  response : ∀ decoded, decodeRequest row.request = .ok decoded → decoded.frame.request.queueId = q →
    row.response = row'.response

-- The state of two services is the same as far as the sender and the recipient of a queue can tell by
-- their requests on that queue.
structure Alike (config : QueueConfig) (q : QueueId) (service service' : RelayService) : Prop where
  left    : Sound service.relay
  right   : Sound service'.relay
  queue   : service.relay.store.queue.relay.queues q = service'.relay.store.queue.relay.queues q
  found   : service.relay.store.queue.relay.config q = some config
  replays : ∀ p, config.IsParty p → ∀ requestId,
    Option.Rel (SameRecord q) (Replay.lookup service.relay .queue p.asBytes requestId)
      (Replay.lookup service'.relay .queue p.asBytes requestId)
  limiter : ∀ p, config.IsParty p →
    RateLimiter.Agree queueRateLimitWindowSecs p service.queueRateLimiter service'.queueRateLimiter

variable {config : QueueConfig} {service service' service'' : RelayService}

-- A service whose tables and limits for the queue are left as they are.
theorem Alike.congr (h : Alike config q service service')
    (hq : service''.relay.store.queue = service.relay.store.queue)
    (hr : service''.relay.replays .queue = service.relay.replays .queue)
    (hl : ∀ p, config.IsParty p → RateLimiter.Agree queueRateLimitWindowSecs p
      service''.queueRateLimiter service'.queueRateLimiter) :
    Alike config q service'' service' where
  left    := ⟨hq ▸ h.left.queue, hq ▸ h.left.bounded⟩
  right   := h.right
  queue   := hq ▸ h.queue
  found   := hq ▸ h.found
  replays := by
    intro p hp requestId
    have := h.replays p hp requestId
    unfold Replay.lookup at this ⊢
    rwa [hr]
  limiter := hl

section Skip

variable (h : Alike config q service service')
include h

-- A request of somebody else cannot be observed.
theorem Alike.submit (hp : ¬config.IsParty (requestPrincipal decoded.frame.request))
    (hq : validateQueueRequest decoded.frame.request = .ok ()) (conflict : Bytes) (fault : Bool) :
    Alike config q (service.submit (queueCall bytes now decoded) conflict fault).snd service' := by
  cases fault
  case true => exact h
  case false =>
    cases hl : Replay.lookup service.relay .queue (requestPrincipal decoded.frame.request).asBytes
      decoded.frame.requestId
    case some =>
      rw [submit_replayed hl]
      exact h
    case none =>
      obtain ⟨op, ho⟩ := exists_operation hq now
      obtain ⟨result, queue, he, _, hr, hv, hb⟩ := submit_fresh h.left ho hl bytes conflict
      rw [operation_principal ho] at hp
      have hs : queue.relay.queues q = service.relay.store.queue.relay.queues q := by
        rw [hr]
        exact Relay.undoError_queues h.found hp
      rw [he]
      refine ⟨⟨hv, hb⟩, h.right, hs.trans h.queue, ?_, fun p hp' requestId => ?_, h.limiter⟩
      · exact (congrArg (Option.map Relay.Queue.config) hs).trans h.found
      · have hk : (p.asBytes, requestId.asBytes) ≠ (queueCall bytes now decoded).key := by
          intro hk
          have hk : p = requestPrincipal decoded.frame.request :=
            congrArg Principal.fromBytes (congrArg Prod.fst hk)
          rw [hk, operation_principal ho] at hp'
          exact hp hp'
        rw [recorded, Replay.lookup_record_of_ne hk]
        exact h.replays p hp' requestId

end Skip

section Both

variable (h : Alike config q service service')
include h

-- Both services record a response to the same request.
theorem Alike.recorded (hd : decodeRequest bytes = .ok decoded)
    (hl : Replay.lookup service.relay .queue (requestPrincipal decoded.frame.request).asBytes
      decoded.frame.requestId = none)
    (hl' : Replay.lookup service'.relay .queue (requestPrincipal decoded.frame.request).asBytes
      decoded.frame.requestId = none)
    (hv : tables.Valid) (hb : tables.relay.Bounded) (hv' : tables'.Valid) (hb' : tables'.relay.Bounded)
    (hq : tables.relay.queues q = tables'.relay.queues q) (hc : tables.relay.config q = some config)
    (hr : decoded.frame.request.queueId = q → response = response') :
    Alike config q (service.recorded (queueCall bytes now decoded) tables response)
      (service'.recorded (queueCall bytes now decoded) tables' response') := by
  refine ⟨⟨hv, hb⟩, ⟨hv', hb'⟩, hq, hc, fun p hp requestId => ?_, h.limiter⟩
  simp only [RelayService.recorded]
  by_cases hk : (p.asBytes, requestId.asBytes) = (queueCall bytes now decoded).key
  case neg =>
    rw [Replay.lookup_record_of_ne hk, Replay.lookup_record_of_ne hk]
    exact h.replays p hp requestId
  case pos =>
    obtain ⟨hp, hi⟩ := Prod.mk.inj hk
    obtain rfl : p = requestPrincipal decoded.frame.request := congrArg Principal.fromBytes hp
    obtain rfl : requestId = decoded.frame.requestId := congrArg RequestId.fromBytes hi
    have hs (database : Database Store) (response : Bytes)
        (hl : Replay.lookup database .queue (requestPrincipal decoded.frame.request).asBytes
          decoded.frame.requestId = none) :
        Replay.lookup (database.record (queueCall bytes now decoded) response) .queue
          (requestPrincipal decoded.frame.request).asBytes decoded.frame.requestId =
            some ((queueCall bytes now decoded).row response) :=
      Replay.lookup_record_self hl
    have hx : SameRecord q ((queueCall bytes now decoded).row response)
        ((queueCall bytes now decoded).row response') := by
      refine ⟨rfl, fun decoded' hd' hq => hr ?_⟩
      cases hd.symm.trans hd'
      exact hq
    exact (hs _ _ hl).symm ▸ (hs _ _ hl').symm ▸ .some hx

-- A request of a party has the same effect on the queue, and the same response if it is on the queue.
theorem Alike.submit_both (hp : config.IsParty (requestPrincipal decoded.frame.request))
    (hq : validateQueueRequest decoded.frame.request = .ok ()) (hd : decodeRequest bytes = .ok decoded)
    (hn : decoded.frame.request ≠ .deleteQueue ⟨q, config.recipient⟩) (conflict : Bytes) (fault : Bool) :
    (decoded.frame.request.queueId = q →
      (service.submit (queueCall bytes now decoded) conflict fault).fst =
        (service'.submit (queueCall bytes now decoded) conflict fault).fst) ∧
    Alike config q (service.submit (queueCall bytes now decoded) conflict fault).snd
      (service'.submit (queueCall bytes now decoded) conflict fault).snd := by
  cases fault
  case true => exact ⟨fun _ => rfl, h⟩
  case false =>
    have hr := h.replays _ hp decoded.frame.requestId
    generalize hl : Replay.lookup service.relay .queue (requestPrincipal decoded.frame.request).asBytes
      decoded.frame.requestId = row at hr
    generalize hl' : Replay.lookup service'.relay .queue (requestPrincipal decoded.frame.request).asBytes
      decoded.frame.requestId = row' at hr
    cases hr
    case some hr =>
      rw [submit_replayed hl, submit_replayed hl', hr.request]
      refine ⟨fun hq => ?_, h⟩
      split
      case isTrue hb => rw [hr.response decoded (hr.request ▸ hb ▸ hd) hq]
      case isFalse   => rfl
    case none =>
      obtain ⟨op, ho⟩ := exists_operation hq now
      obtain ⟨result, queue, he, hr, hs, hv, hb⟩ := submit_fresh h.left ho hl bytes conflict
      obtain ⟨result', queue', he', hr', hs', hv', hb'⟩ := submit_fresh h.right ho hl' bytes conflict
      have hi := operation_queueId ho
      -- Requests on other queues are executed as well, but their responses may differ.
      have hx : decoded.frame.request.queueId = q →
          encodeQueueOutcome decoded.frame.requestId decoded.frame.request.command result =
            encodeQueueOutcome decoded.frame.requestId decoded.frame.request.command result' := by
        rintro rfl
        refine encodeQueueOutcome_congr ?_
        rw [hr, hr', (Relay.apply_congr (hi ▸ h.queue)).left]
      have hq' : queue.relay.queues q = queue'.relay.queues q := by
        rw [hs, hs']
        by_cases hi' : op.queueId = q
        case pos =>
          subst hi'
          exact (Relay.rollback_congr h.queue).right
        case neg =>
          exact (Relay.rollback_queues_of_ne hi').trans
            (h.queue.trans (Relay.rollback_queues_of_ne hi').symm)
      have hc : queue.relay.config q = some config := by
        refine (congrArg (Relay.config · q) hs).trans (Relay.undoError_config h.found ?_)
        rintro rfl
        exact hn (operation_eq_deleteQueue ho)
      rw [he, he']
      exact ⟨fun hq => congrArg Except.ok (hx hq), h.recorded hd hl hl' hv hb hv' hb' hq' hc hx⟩

end Both
end Alike

section Step

variable [Profile] [Ed25519] {config : QueueConfig} {service service' : RelayService}

-- The time of an input is not within the last window that times can represent.
def Input.Timely (input : Input) : Prop :=
  ∀ ns bytes now, input.frame = some (ns, bytes, now) →
    now.toNat + queueRateLimitWindowSecs.toNat < 2 ^ 64

omit [Profile] [Ed25519] in
theorem submit_limiter : (service.submit call conflict fault).snd.queueRateLimiter =
    service.queueRateLimiter := by
  unfold submit
  split
  case isTrue => rfl
  case isFalse =>
    split
    case h_1 => rfl
    case h_2 => split <;> rfl

theorem exchangeBlobAt_limiter [Sha256] :
    (service.exchangeBlobAt bytes now fault).snd.queueRateLimiter = service.queueRateLimiter := by
  have hs : (service.screenBlob bytes now).snd.queueRateLimiter = service.queueRateLimiter := by
    unfold screenBlob
    split
    case h_1 => rfl
    case h_2 =>
      dsimp only
      split
      case h_1 => rfl
      case h_2 => split <;> rfl
  unfold exchangeBlobAt
  generalize service.screenBlob bytes now = result at hs
  obtain ⟨_ | _, _⟩ := result
  case error => exact hs
  case ok    => exact submit_limiter.trans hs

theorem exchangeBlobAt_replays [Sha256] :
    (service.exchangeBlobAt bytes now fault).snd.relay.replays .queue = service.relay.replays .queue := by
  have hs := step_step (.exchangeBlob bytes now fault) service
  simp only [step] at hs
  generalize some (service.exchangeBlobAt bytes now fault).fst = output at hs
  generalize (service.exchangeBlobAt bytes now fault).snd.relay = database at hs
  cases hs
  case restart => rfl
  case limit   => rfl
  case refuse  => rfl
  case serve hc hs =>
    cases hs
    case fail     => rfl
    case replay   => rfl
    case conflict => rfl
    case perform ha =>
      cases hc
      simp only [Database.record, ha.replays_eq]
      rfl

omit [Ed25519] in
-- The rate limit of the parties does not depend on others.
theorem Alike.counted (h : Alike config q service service') (hn : now.toNat +
    queueRateLimitWindowSecs.toNat < 2 ^ 64) (hp : ¬config.IsParty (requestPrincipal decoded.frame.request)) :
    Alike config q (service.counted decoded now) service' :=
  h.congr rfl rfl fun p hp' => (h.limiter p hp').skip hn fun he => hp (he ▸ hp')

theorem Alike.skip [Sha256] (h : Alike config q service service') (hn : ¬input.isFrom config)
    (ht : input.Timely) (hr : input ≠ .restart) : Alike config q (step input service).snd service' := by
  cases input
  case restart => exact absurd rfl hr
  case exchangeBlob bytes now fault =>
    refine h.congr (exchangeBlobAt_queue ..) exchangeBlobAt_replays fun p hp => ?_
    rw [show (step (.exchangeBlob bytes now fault) service).snd.queueRateLimiter = _ from
      exchangeBlobAt_limiter]
    exact h.limiter p hp
  case exchange bytes now fault =>
    have ht := ht _ _ _ rfl
    simp only [step]
    cases hv : verified bytes
    case none =>
      obtain ⟨_, he⟩ := exchangeAt_of_unverified hv now fault
      rw [he]
      exact h
    case some decoded =>
      have hp : ¬config.IsParty (requestPrincipal decoded.frame.request) := by
        simpa [Input.isFrom, Input.request, hv] using hn
      have hc := h.counted ht hp
      by_cases hl : (service.queueRateLimiter.admits (requestPrincipal decoded.frame.request) now).fst =
        some true
      case neg =>
        rw [exchangeAt_of_refused hv rfl hl]
        exact hc
      case pos =>
        cases hq : validateQueueRequest decoded.frame.request
        case error =>
          rw [exchangeAt_of_invalid hv hl hq]
          exact hc
        case ok =>
          rw [exchangeAt_of_valid hv hl hq]
          exact hc.submit hp hq _ _

omit [Ed25519] in
theorem Alike.counted_both (h : Alike config q service service') (hn : now.toNat +
    queueRateLimitWindowSecs.toNat < 2 ^ 64) :
    Alike config q (service.counted decoded now) (service'.counted decoded now) := by
  refine { h with limiter := fun p hp => ?_ }
  by_cases he : requestPrincipal decoded.frame.request = p
  case pos =>
    subst he
    exact ((h.limiter _ hp).step hn).right
  case neg => exact (((h.limiter p hp).skip hn he).symm.skip hn he).symm

theorem Alike.step [Sha256] (h : Alike config q service service') (hp : input.isFrom config)
    (ht : input.Timely) (hd : ¬input.deletes config q) :
    (input.concerns config q → (step input service).fst = (step input service').fst) ∧
      Alike config q (step input service).snd (step input service').snd := by
  cases input
  case restart      => cases hp
  case exchangeBlob => cases hp
  case exchange bytes now fault =>
    have ht := ht _ _ _ rfl
    simp only [RelayService.step]
    cases hv : verified bytes
    case none => simp [Input.isFrom, Input.request, hv] at hp
    case some decoded =>
      simp only [Input.isFrom, Input.request, hv, Option.any_some, decide_eq_true_eq] at hp
      have hn : decoded.frame.request ≠ .deleteQueue ⟨q, config.recipient⟩ :=
        fun hn => hd ⟨decoded, hv, hn⟩
      have hc : Alike config q (service.counted decoded now) (service'.counted decoded now) :=
        h.counted_both ht
      have hl := ((h.limiter _ hp).step ht).left
      by_cases ha : (service.queueRateLimiter.admits (requestPrincipal decoded.frame.request) now).fst =
        some true
      case neg =>
        rw [exchangeAt_of_refused hv rfl ha, exchangeAt_of_refused hv hl.symm ha]
        exact ⟨fun _ => rfl, hc⟩
      case pos =>
        have ha' := hl.symm.trans ha
        cases hq : validateQueueRequest decoded.frame.request
        case error =>
          rw [exchangeAt_of_invalid hv ha hq, exchangeAt_of_invalid hv ha' hq]
          exact ⟨fun _ => rfl, hc⟩
        case ok =>
          rw [exchangeAt_of_valid hv ha hq, exchangeAt_of_valid hv ha' hq]
          obtain ⟨hs, hr⟩ := hc.submit_both hp hq (verified_eq_some.mp hv).left hn _ fault
          refine ⟨fun hx => ?_, hr⟩
          simp only [Input.concerns, Input.isFrom, Input.request, hv, Option.any_some, Bool.and_eq_true,
            decide_eq_true_eq] at hx
          exact congrArg some (hs hx.right)

theorem exchangeAt_limiter (service : RelayService) (bytes : Bytes) (now : Timestamp) (fault : Bool) :
    (service.exchangeAt bytes now fault).snd.queueRateLimiter = service.queueRateLimiter ∨
    ∃ p, (service.exchangeAt bytes now fault).snd.queueRateLimiter =
      (service.queueRateLimiter.admits p now).snd := by
  cases hv : verified bytes
  case none =>
    obtain ⟨_, he⟩ := exchangeAt_of_unverified hv now fault
    exact .inl (by rw [he])
  case some decoded =>
    refine .inr ⟨requestPrincipal decoded.frame.request, ?_⟩
    by_cases hl : (service.queueRateLimiter.admits (requestPrincipal decoded.frame.request) now).fst =
      some true
    case neg => rw [exchangeAt_of_refused hv rfl hl]; rfl
    case pos =>
      cases hq : validateQueueRequest decoded.frame.request
      case error => rw [exchangeAt_of_invalid hv hl hq]; rfl
      case ok    => rw [exchangeAt_of_valid hv hl hq, submit_limiter]; rfl

variable [Sha256] {inputs : Nat → Input}

theorem limiter_fit (ht : ∀ k < n, (inputs k).Timely) :
    (machine.state inputs n).queueRateLimiter.Fit queueRateLimitWindowSecs := by
  have hn (relay : Database Store) : (new relay).queueRateLimiter.Fit queueRateLimitWindowSecs :=
    ⟨rfl, rfl, nofun⟩
  induction n
  case zero => exact hn _
  case succ n hi =>
    have hi := hi fun k hk => ht k (by omega)
    have ht := ht n (by omega)
    simp only [Machine.state, machine]
    generalize inputs n = input at ht
    cases input
    case restart      => exact hn _
    case exchangeBlob =>
      exact (show _ = (machine.state inputs n).queueRateLimiter from exchangeBlobAt_limiter) ▸ hi
    case exchange bytes now fault =>
      simp only [RelayService.step]
      obtain he | ⟨p, he⟩ := exchangeAt_limiter (machine.state inputs n) bytes now fault
      · exact he ▸ hi
      · exact he ▸ (hi.admits (ht _ _ _ rfl) p).left

end Step

-- Once a queue exists and its sender and recipient are known to the rate limiter, the answers to their
-- requests on the queue are the same as if there were no frames from anybody else, unless the recipient
-- deletes the queue.
theorem strangers_cannot_interfere [Profile] [Ed25519] [Sha256] (inputs : Nat → Input) (n : Nat)
    (ht : ∀ k < n, (inputs k).Timely) (q : QueueId) (config : QueueConfig)
    (hc : ((history inputs).relay n).config q = some config)
    (hk : ∀ p, config.IsParty p → p ∈ (machine.state inputs n).queueRateLimiter.tracked)
    (later : List Input)
    (hl : ∀ input ∈ later, input.Timely ∧ input ≠ .restart ∧ ¬input.deletes config q) :
    (machine.replies (machine.state inputs n) later).filter (·.fst.concerns config q) =
      (machine.replies (machine.state inputs n) (later.filter (·.isFrom config))).filter
        (·.fst.concerns config q) := by
  have ho (input : Input) (h : input.concerns config q) : input.isFrom config := by
    simp only [Input.concerns, Bool.and_eq_true] at h
    exact h.left
  refine Machine.filter_replies_of_observed ho (R := Alike config q) (fun input hi _ _ hp h => ?_)
    (fun input hi _ _ hp h => ?_) ?_
  · obtain ⟨ht, hr, _⟩ := hl input hi
    exact h.skip hp ht hr
  · obtain ⟨ht, _, hd⟩ := hl input hi
    exact h.step hp ht hd
  · have hs := database_sound inputs n
    have hf := limiter_fit ht
    refine ⟨hs, hs, rfl, hc, fun p _ requestId => ?_, fun p hp => ?_⟩
    · cases Replay.lookup (machine.state inputs n).relay .queue p.asBytes requestId
      case none => exact .none
      case some => exact .some ⟨rfl, fun _ _ _ => rfl⟩
    · obtain ⟨window, hw, hp⟩ := RateLimiter.mem_tracked.mp (hk p hp)
      cases hl : Table.lookup RateLimiter.Window.key p (machine.state inputs n).queueRateLimiter.windows
      case none        => exact absurd hp (Table.lookup_eq_none.mp hl window hw)
      case some window => exact ⟨hf, hf, rfl, window, hl, hl⟩

-- Somebody else tries to fetch from the queue of two parties before its recipient does.
namespace Crowded

attribute [local instance] Toy.profile Toy.sha256 Toy.ed25519

def key (b : UInt8) : ByteVec 32 := .replicate 32 b

def queueId : QueueId := ⟨key 0⟩

def config : QueueConfig :=
  ⟨⟨key 1⟩, ⟨key 2⟩, ⟨12, 600, by decide, by decide⟩⟩

def decoded (b : UInt8) (request : Request) : DecodedRequest :=
  let requestId          := ⟨.replicate 16 b⟩
  let authenticatedBytes := Codec.encodeAuthenticatedRequest requestId request
  ⟨⟨requestId, request, signRequest (key b) authenticatedBytes⟩, authenticatedBytes⟩

def frame (b : UInt8) (request : Request) : Bytes :=
  Codec.encodeRequest (decoded b request).frame

def create : Request :=
  .createQueue ⟨queueId, ⟨key 1⟩, ⟨key 2⟩, 12, 600, by decide, by decide, by decide⟩

def fetch (b : UInt8) : Input :=
  .exchange (frame b (.fetch ⟨queueId, ⟨key b⟩⟩)) 0 false

def inputs : Nat → Input
  | 0 => .exchange (frame 1 create) 0 false
  | _ => fetch 2

theorem timely {input : Input} (h : input.frame = some (ns, bytes, 0)) : input.Timely := by
  intro _ _ _ hf
  cases h.symm.trans hf
  exact (by decide : (0 : Timestamp).toNat + queueRateLimitWindowSecs.toNat < 2 ^ 64)

theorem later_admissible : ∀ input ∈ [fetch 3, fetch 2], input.Timely ∧ input ≠ .restart ∧
    ¬input.deletes config queueId := by
  have hd (b : UInt8) : ¬(fetch b).deletes config queueId := by
    rintro ⟨_, hd, hr⟩
    obtain ⟨hd, _⟩ := verified_eq_some.mp hd
    have hf : decodeRequest (frame b (.fetch ⟨queueId, ⟨key b⟩⟩)) = .ok (decoded b _) :=
      Codec.decodeRequest_eq_ok.mpr ⟨rfl, rfl⟩
    cases hd.symm.trans hf
    cases hr
  have hf (b : UInt8) : (fetch b).Timely ∧ fetch b ≠ .restart ∧ ¬(fetch b).deletes config queueId :=
    ⟨timely rfl, nofun, hd b⟩
  simp [hf]

theorem parties_tracked (p : Principal) (h : config.IsParty p) :
    p ∈ (machine.state inputs 2).queueRateLimiter.tracked := by
  have hs : config.sender ∈ (machine.state inputs 2).queueRateLimiter.tracked := by decide +kernel
  have hr : config.recipient ∈ (machine.state inputs 2).queueRateLimiter.tracked := by decide +kernel
  rcases h with rfl | rfl
  · exact hs
  · exact hr

theorem foreign_fetch_unnoticed :
    [fetch 3, fetch 2].filter (·.isFrom config) = [fetch 2] ∧
    (machine.replies (machine.state inputs 2) [fetch 3, fetch 2]).filter
        (·.fst.concerns config queueId) =
      (machine.replies (machine.state inputs 2) ([fetch 3, fetch 2].filter (·.isFrom config))).filter
        (·.fst.concerns config queueId) := by
  refine ⟨by decide +kernel, strangers_cannot_interfere inputs 2 (fun k _ => ?_) queueId config
    (by decide +kernel) parties_tracked _ later_admissible⟩
  match k with
  | 0     => exact timely rfl
  | _ + 1 => exact timely rfl

end Crowded
end RelayService
end Cofferwire
