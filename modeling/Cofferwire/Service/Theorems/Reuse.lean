import Cofferwire.Codec.Theorems.Queue
import Cofferwire.Service.Theorems.Exchange
import Cofferwire.Toy

namespace Cofferwire.RelayService

open Codec (DecodedRequest decodeRequest encodeResponse decodeResponse_eq_ok)

-- A frame and the response to it.
structure Exchange where
  bytes    : Bytes
  decoded  : DecodedRequest
  response : Bytes

namespace Exchange

variable (exchange : Exchange)

def key : Principal × RequestId :=
  (requestPrincipal exchange.decoded.frame.request, exchange.decoded.frame.requestId)

-- The key under which the response is recorded.
def rowKey : ByteVec 32 × ByteVec 16 :=
  (exchange.key.fst.asBytes, exchange.key.snd.asBytes)

theorem rowKey_inj {exchange exchange' : Exchange} (h : exchange.rowKey = exchange'.rowKey) :
    exchange.key = exchange'.key := by
  have ⟨hp, hr⟩ := Prod.mk.inj h
  exact Prod.ext (congrArg Principal.fromBytes hp) (congrArg RequestId.fromBytes hr)

theorem rowKey_congr {exchange exchange' : Exchange} (h : exchange.key = exchange'.key) :
    exchange.rowKey = exchange'.rowKey := by
  rw [rowKey, rowKey, h]

def error (status : Status) (failed : status ≠ .ok := by decide) : Bytes :=
  errorResponse exchange.decoded.frame.requestId exchange.decoded.frame.request.command status failed

def Valid : Prop :=
  validateQueueRequest exchange.decoded.frame.request = .ok ()

end Exchange

theorem errorResponse_inj
    (h : errorResponse requestId command status hs = errorResponse requestId' command' status' hs') :
    status = status' := by
  have hd := decodeResponse_eq_ok.mpr h
  cases hd.symm.trans (decodeResponse_eq_ok.mpr rfl)
  rfl

theorem encodeQueueOutcome_ne_authReplay :
    encodeQueueOutcome requestId command result ≠ errorResponse requestId' command' .authReplay := by
  intro h
  cases result
  case ok =>
    have hd := decodeResponse_eq_ok.mpr h
    cases hd.symm.trans (decodeResponse_eq_ok.mpr rfl)
  case error error =>
    have := errorResponse_inj h
    cases error <;> cases this

theorem of_validateQueueRequest_eq_error (h : validateQueueRequest request = .error status) :
    status = .limitOutOfRange := by
  unfold validateQueueRequest at h
  split at h <;> try split at h
  all_goals cases h
  rfl

theorem submit_recorded {service : RelayService} {call : Replay.Call DurableRelay.Store}
    (h : Replay.lookup service.relay call.ns call.subject call.requestId = some row) :
    service.submit call conflict false =
      (.ok (if row.request = call.request then row.response else conflict), service) := by
  simp [submit, h]

section Run

variable [Profile] [Ed25519] [Sha256] (inputs : Nat → Input)

-- The `n`-th frame decodes, verifies and is answered.
structure Accepts (n : Nat) (exchange : Exchange) : Prop where
  input  : ∃ now fault, inputs n = .exchange exchange.bytes now fault
  decode : decodeRequest exchange.bytes = .ok exchange.decoded
  verify : verifyRequest (requestPrincipal exchange.decoded.frame.request)
    exchange.decoded.authenticatedBytes exchange.decoded.frame.auth = .ok ()
  output : machine.output inputs n = some (.ok exchange.response)

-- The `n`-th frame is the first one with a given property.
structure First (P : Exchange → Prop) (n : Nat) (exchange : Exchange) : Prop where
  accepts : Accepts inputs n exchange
  holds   : P exchange
  first   : ∀ k < n, ∀ exchange', Accepts inputs k exchange' → ¬P exchange'

-- If the `n`-th frame has the key of the `m`-th one, which was the first one to use it, then the
-- answer is the same or an error, and nothing changes.
def ReuseDetected (m n : Nat) : Prop :=
  ∀ original exchange, m < n → First inputs (·.key = original.key) m original →
    Accepts inputs n exchange → exchange.key = original.key →
    (exchange.bytes = original.bytes → exchange.response = original.response) ∧
    (exchange.bytes ≠ original.bytes →
      exchange.response = exchange.error .authReplay authReplay_ne_ok) ∧
    database inputs (n + 1) = database inputs n

variable {inputs} {exchange exchange' : Exchange}

namespace Accepts

theorem unique (h : Accepts inputs n exchange) (h' : Accepts inputs n exchange') :
    exchange = exchange' := by
  have ⟨_, _, hi⟩ := h.input
  have ⟨_, _, hi'⟩ := h'.input
  have hd := h.decode
  have ho := h.output.symm.trans h'.output
  cases exchange
  cases exchange'
  cases hi.symm.trans hi'
  cases hd.symm.trans h'.decode
  cases ho
  rfl

theorem decoded_eq (h : Accepts inputs n exchange) (h' : Accepts inputs k exchange')
    (hb : exchange.bytes = exchange'.bytes) : exchange.decoded = exchange'.decoded := by
  have hd := h.decode
  rw [hb] at hd
  exact Except.ok.inj (hd.symm.trans h'.decode)

theorem calls (h : Accepts inputs n exchange) (hv : exchange.Valid) :
    ∃ now, Calls (inputs n) (queueCall exchange.bytes now exchange.decoded)
      (exchange.error .authReplay) := by
  have ⟨now, _, hi⟩ := h.input
  exact ⟨now, hi ▸ .queue ⟨h.decode, h.verify, hv⟩⟩

-- A frame which cannot be valid is refused before its key is looked up.
theorem of_not_valid (h : Accepts inputs n exchange) (hv : ¬exchange.Valid) :
    exchange.response = exchange.error .limitOutOfRange ∧
      database inputs (n + 1) = database inputs n := by
  have ⟨now, fault, hi⟩ := h.input
  have ho := h.output
  have hr := screen_relay (machine.state inputs n) exchange.bytes now
  simp only [Machine.output, database, Machine.state, machine, hi, step, exchangeAt] at ho hr ⊢
  generalize hs : screen _ _ _ = result at ho hr
  simp only [screen, h.decode, h.verify] at hs
  split at hs
  case h_1 => subst hs; cases ho
  case h_2 => subst hs; cases ho
  case h_3 =>
    split at hs
    case h_1 hq => exact absurd hq hv
    case h_2 status hq =>
      subst hs
      obtain rfl := of_validateQueueRequest_eq_error hq
      exact ⟨(Except.ok.inj (Option.some.inj ho)).symm, rfl⟩

-- A valid frame is answered from the records if there is one for its key.
theorem of_valid (h : Accepts inputs n exchange) (hv : exchange.Valid) :
    (∃ row ∈ (database inputs n).replays .queue,
      row.key = exchange.rowKey ∧
      exchange.response =
        (if row.request = exchange.bytes then row.response else exchange.error .authReplay) ∧
      database inputs (n + 1) = database inputs n) ∨
    ∃ now, Performs inputs n (queueCall exchange.bytes now exchange.decoded) exchange.response := by
  have ⟨now, hc⟩ := h.calls hv
  cases hl : Replay.lookup (database inputs n) .queue exchange.key.fst.asBytes exchange.key.snd
  case some row =>
    refine .inl ⟨row, Table.mem_of_lookup hl, Table.key_of_lookup hl, ?_⟩
    have ⟨now, fault, hi⟩ := h.input
    have ho := h.output
    have hr := screen_relay (machine.state inputs n) exchange.bytes now
    have hs := screen_screened (machine.state inputs n) exchange.bytes now
    simp only [Machine.output, database, Machine.state, machine, hi, step, exchangeAt] at ho hl ⊢
    simp only [machine] at hr hs
    generalize screen _ _ _ = result at hr hs ho
    obtain ⟨_, service⟩ := result
    cases hs
    case refuse ha => exact absurd ⟨h.decode, h.verify, hv⟩ (ha _)
    case limit     => cases ho
    case pass ha =>
      cases h.decode.symm.trans ha.decode
      cases fault
      case true => cases ho
      case false =>
        have hs : service.submit (queueCall exchange.bytes now exchange.decoded)
            (exchange.error .authReplay) false = (.ok _, service) := submit_recorded (hr ▸ hl)
        simp only [Exchange.error] at hs
        dsimp only at ho ⊢
        rw [hs] at ho ⊢
        exact ⟨(Except.ok.inj (Option.some.inj ho)).symm, hr⟩
  case none =>
    have hf : (database inputs n).Fresh (queueCall exchange.bytes now exchange.decoded) :=
      Table.lookup_eq_none.mp hl
    have hs := machine_step inputs n
    generalize hd : database inputs (n + 1) = database' at hs
    have ho := h.output
    rw [ho] at hs
    generalize exchange.response = response at ho hs
    cases hs
    case refuse hn _ => exact absurd hc (hn _ _)
    case serve hc' hs =>
      obtain ⟨rfl, rfl⟩ := hc.unique hc'
      cases hs
      case replay hm      => exact absurd rfl (hf _ hm)
      case conflict hm hk => exact absurd hk (hf _ hm)
      case perform ha     => exact .inr ⟨now, ⟨_, hc⟩, hf, ho, _, ha, hd⟩

end Accepts

theorem Performs.accepts (hp : Performs inputs n call response) (hn : call.ns = .queue) :
    ∃ exchange, Accepts inputs n exchange ∧ exchange.Valid ∧
      call.key = exchange.rowKey ∧ call.request = exchange.bytes ∧ response = exchange.response ∧
      ∀ other : Exchange, response ≠ other.error .authReplay := by
  have ho := hp.output
  obtain ⟨⟨conflict, hc⟩, -, -, transaction, ha, -⟩ := hp
  generalize hi : inputs n = input at hc
  cases hc
  case blob => cases hn
  case queue bytes decoded now fault hq =>
    have he (result) (other : Exchange) : encodeQueueOutcome decoded.frame.requestId
        decoded.frame.request.command result ≠ other.error .authReplay :=
      encodeQueueOutcome_ne_authReplay
    refine ⟨⟨bytes, decoded, response⟩, ⟨⟨now, fault, hi⟩, hq.decode, hq.verify, ho⟩, hq.validate,
      rfl, rfl, rfl, ?_⟩
    cases ha
    case success value _ _ => exact he (.ok value)
    case rejection hr =>
      obtain ⟨error, _, rfl⟩ := hr
      exact he (.error error)

theorem First.unique (h : First inputs P n exchange) (h' : First inputs P k exchange') :
    n = k ∧ exchange = exchange' := by
  have hn : n = k := by
    rcases Nat.lt_trichotomy n k with hk | hk | hk
    · exact absurd h.holds (h'.first n hk _ h.accepts)
    · exact hk
    · exact absurd h'.holds (h.first k hk _ h'.accepts)
  subst hn
  exact ⟨rfl, h.accepts.unique h'.accepts⟩

-- The records are those of the first valid frames.
theorem first_of_record (h : row ∈ (database inputs n).replays .queue)
    (hk : row.key = exchange.rowKey) :
    ∃ k < n, ∃ first,
      First inputs (fun other => other.key = exchange.key ∧ other.Valid) k first ∧
      row.request = first.bytes ∧ row.response = first.response ∧
      ∀ other : Exchange, first.response ≠ other.error .authReplay := by
  obtain ⟨k, hlt, call, response, hp, hn, rfl⟩ := performs_of_mem h
  obtain ⟨first, ha, hv, hc, hb, rfl, he⟩ := hp.accepts hn.symm
  have hf := Exchange.rowKey_inj (hc.symm.trans hk)
  refine ⟨k, hlt, first, ⟨ha, ⟨hf, hv⟩, fun j hj other ha' ⟨hk', hv'⟩ => ?_⟩, hb, rfl, he⟩
  have ⟨_, hc'⟩ := ha'.calls hv'
  have ⟨row, hm, hr⟩ := exists_record hc' ha'.output hj
  have hk' := Exchange.rowKey_congr (hk'.trans hf.symm)
  exact hp.fresh row (hn ▸ hm) (hr.trans (hk'.trans hc.symm))

theorem Accepts.not_fresh (ha : Accepts inputs k exchange') (hv : exchange'.Valid)
    (hk : exchange'.key = exchange.key) (hlt : k < n) :
    ¬(database inputs n).Fresh (queueCall exchange.bytes now exchange.decoded) := by
  intro hf
  have ⟨_, hc⟩ := ha.calls hv
  have ⟨row, hm, hr⟩ := exists_record hc ha.output hlt
  exact hf row hm (hr.trans (Exchange.rowKey_congr hk))

-- A reuse is only noticed by frames which get as far as the records.
theorem Accepts.authReplay_iff (he : Accepts inputs n exchange) :
    exchange.response = exchange.error .authReplay ∧ database inputs (n + 1) = database inputs n ↔
      exchange.Valid ∧ ∃ k < n, ∃ first,
        First inputs (fun other => other.key = exchange.key ∧ other.Valid) k first ∧
        first.bytes ≠ exchange.bytes := by
  constructor
  · intro ⟨hr, _⟩
    have hv : exchange.Valid := by
      by_contra hv
      have hl := (he.of_not_valid hv).left
      cases errorResponse_inj (hl.symm.trans hr)
    refine ⟨hv, ?_⟩
    obtain ⟨row, hm, hk, hx, _⟩ | ⟨_, hp⟩ := he.of_valid hv
    · obtain ⟨k, hlt, first, hf, hq, hs, hn⟩ := first_of_record hm hk
      refine ⟨k, hlt, first, hf, fun hb => ?_⟩
      rw [if_pos (hq.trans hb), hs] at hx
      exact absurd (hx.symm.trans hr) (hn _)
    · obtain ⟨_, _, _, _, _, _, hn⟩ := hp.accepts rfl
      exact absurd hr (hn _)
  · intro ⟨hv, k, hlt, first, hf, hb⟩
    obtain ⟨row, hm, hr, hx, hs⟩ | ⟨_, hp⟩ := he.of_valid hv
    · obtain ⟨_, _, _, hf', hq, _⟩ := first_of_record hm hr
      obtain ⟨rfl, rfl⟩ := hf.unique hf'
      exact ⟨by rw [hx, if_neg (hq ▸ hb)], hs⟩
    · exact absurd hp.fresh (hf.accepts.not_fresh hf.holds.right hf.holds.left hlt)

section Reuse

variable {original : Exchange} (ho : First inputs (·.key = original.key) m original)
  (hk : exchange.key = original.key)
include ho hk

-- If the original is valid, it is the first valid frame.
theorem First.valid (hv : original.Valid) :
    First inputs (fun other => other.key = exchange.key ∧ other.Valid) m original :=
  ⟨ho.accepts, ⟨hk.symm, hv⟩, fun k hlt other ha h => ho.first k hlt other ha (h.left.trans hk)⟩

theorem First.retry (hlt : m < n) (he : Accepts inputs n exchange)
    (hb : exchange.bytes = original.bytes) :
    exchange.response = original.response ∧ database inputs (n + 1) = database inputs n := by
  have hd := he.decoded_eq ho.accepts hb
  by_cases hv : exchange.Valid
  case pos =>
    have hv' : original.Valid := by rwa [Exchange.Valid, ←hd]
    obtain ⟨row, hm, hr, hx, hs⟩ | ⟨_, hp⟩ := he.of_valid hv
    · obtain ⟨_, _, first, hf, hq, hp, _⟩ := first_of_record hm hr
      obtain ⟨rfl, rfl⟩ := hf.unique (ho.valid hk hv')
      rw [if_pos (hq.trans hb.symm), hp] at hx
      exact ⟨hx, hs⟩
    · exact absurd hp.fresh (ho.accepts.not_fresh hv' hk.symm hlt)
  case neg =>
    have hv' : ¬original.Valid := by rwa [Exchange.Valid, ←hd]
    have ⟨hr, hs⟩ := he.of_not_valid hv
    have ⟨hr', _⟩ := ho.accepts.of_not_valid hv'
    refine ⟨?_, hs⟩
    simp only [hr, hr', Exchange.error, hd]

end Reuse

-- Reuse is detected among valid frames. A request with a lifetime of zero is refused before its key
-- is looked up and leaves no record.
theorem reuse_detected_iff (inputs : Nat → Input) (m n : Nat) :
    ReuseDetected inputs m n ↔
      ∀ original exchange, m < n → First inputs (·.key = original.key) m original →
        Accepts inputs n exchange → exchange.key = original.key →
        exchange.bytes = original.bytes ∨
        exchange.Valid ∧ ∃ k < n, ∃ first,
          First inputs (fun other => other.key = exchange.key ∧ other.Valid) k first ∧
          first.bytes ≠ exchange.bytes := by
  constructor
  · intro h original exchange hlt ho he hk
    obtain ⟨_, hr, hs⟩ := h original exchange hlt ho he hk
    by_cases hb : exchange.bytes = original.bytes
    case pos => exact .inl hb
    case neg => exact .inr <| he.authReplay_iff.mp ⟨hr hb, hs⟩
  · intro h original exchange hlt ho he hk
    by_cases hb : exchange.bytes = original.bytes
    case pos =>
      obtain ⟨hr, hs⟩ := ho.retry hk hlt he hb
      exact ⟨fun _ => hr, fun h => absurd hb h, hs⟩
    case neg =>
      obtain ⟨hr, hs⟩ := he.authReplay_iff.mpr <| (h original exchange hlt ho he hk).resolve_left hb
      exact ⟨fun h => absurd h hb, fun _ => hr, hs⟩

end Run

-- A queue is created, and then the same request id is used for a message with a lifetime of zero.
namespace Reused

attribute [local instance] Toy.profile Toy.sha256 Toy.ed25519

def key : ByteVec 32 := .replicate 32 1

def principal : Principal := ⟨key⟩
def requestId : RequestId := ⟨.replicate 16 0⟩
def queueId   : QueueId   := ⟨.replicate 32 3⟩

def create : Request :=
  .createQueue ⟨queueId, principal, principal, 8, 512, by decide, by decide, by decide⟩

def send : Request :=
  .send ⟨queueId, principal, ⟨.replicate 32 4⟩, ⟨[7], by decide⟩, 0⟩

def decoded (request : Request) : DecodedRequest :=
  let authenticatedBytes := Codec.encodeAuthenticatedRequest requestId request
  ⟨⟨requestId, request, signRequest key authenticatedBytes⟩, authenticatedBytes⟩

def frame (request : Request) : Bytes :=
  Codec.encodeRequest (decoded request).frame

def inputs : Nat → Input
  | 0 => .exchange (frame create) 0 false
  | _ => .exchange (frame send) 0 false

theorem accepts (hi : ∃ now fault, inputs n = .exchange (frame request) now fault)
    (hv : verifyRequest (requestPrincipal request) (decoded request).authenticatedBytes
      (decoded request).frame.auth = .ok ())
    (ho : machine.output inputs n = some (.ok response)) :
    Accepts inputs n ⟨frame request, decoded request, response⟩ :=
  ⟨hi, Codec.decodeRequest_eq_ok.mpr ⟨rfl, rfl⟩, hv, ho⟩

def original : Exchange :=
  ⟨frame create, decoded create, encodeResponse ⟨requestId, .success (.createQueue .created)⟩⟩

def conflicting : Exchange :=
  ⟨frame send, decoded send, errorResponse requestId (some .send) .limitOutOfRange⟩

theorem accepts_original : Accepts inputs 0 original :=
  accepts ⟨0, false, rfl⟩ (by decide +kernel) (by decide +kernel)

theorem accepts_conflicting : Accepts inputs 1 conflicting :=
  accepts ⟨0, false, rfl⟩ (by decide +kernel) (by decide +kernel)

theorem conflicting_request_not_detected : ¬ReuseDetected inputs 0 1 := by
  intro h
  have hf : First inputs (·.key = original.key) 0 original := ⟨accepts_original, rfl, nofun⟩
  obtain ⟨_, hr, _⟩ := h original conflicting Nat.zero_lt_one hf accepts_conflicting rfl
  have hb : conflicting.bytes ≠ original.bytes := by decide +kernel
  cases errorResponse_inj (hr hb)

end Reused
end Cofferwire.RelayService
