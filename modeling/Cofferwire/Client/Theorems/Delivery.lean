import Cofferwire.Client.Delivery
import Cofferwire.Client.Theorems.Poll
import Cofferwire.Relay.Theorems.Authorization
import Cofferwire.Service.Theorems.Execution
import Cofferwire.Service.Theorems.History
import Cofferwire.Toy

namespace Cofferwire.Client

open Codec (decodeRequest decodeResponse)
open Relay (Operation)

theorem Commits.cases (h : Commits inbox m plaintext result inbox') :
    inbox' = inbox ∨
      inbox' = inbox ++ [(m, plaintext)] ∧ ∀ message ∈ inbox, message.fst ≠ m := by
  cases h
  case applied h        => exact .inr ⟨rfl, h⟩
  case alreadyCommitted => exact .inl rfl
  case failed           => exact .inl rfl
  case lost h           => exact .inr ⟨rfl, h⟩

-- After a success the message is in the inbox.
theorem Commits.mem (h : Commits inbox m plaintext (.ok outcome) inbox') :
    ∃ message ∈ inbox', message.fst = m := by
  cases h
  case applied            => exact ⟨_, List.mem_append_right _ List.mem_cons_self, rfl⟩
  case alreadyCommitted h => exact h

variable [Ed25519] [Hpke] {parties : Parties} {κ : Type}

namespace System

variable {s s' : System parties κ}

-- Messages are only added to the outbox and to the inbox.
structure Extends (s s' : System parties κ) : Prop where
  outbox : s.outbox ⊆ s'.outbox
  inbox  : s.inbox ⊆ s'.inbox

-- The operations on the queue for which the parties have signed requests.
def Permits (s : System parties κ) : Operation → Prop
  | .createQueue id config =>
    id = parties.queueId → config.sender = parties.sender.sender →
    config.recipient = parties.sender.recipient
  | .send id sender messageId payload .. =>
    id = parties.queueId → sender = parties.sender.sender → s.Prepared messageId payload
  | .acknowledge id recipient messageId _ =>
    id = parties.queueId → recipient = parties.sender.recipient → s.Committed messageId
  | _ => True

-- The events of a poll are consistent with the state of the system.
structure Backs (s : System parties κ) (past : List interface.Event) : Prop where
  commit  : ∀ m plaintext outcome, ⟨.commit m plaintext, .ok outcome⟩ ∈ past → s.Committed m
  respond : ∀ request bytes, ⟨.exchange request, .ok bytes⟩ ∈ past → s.Authentic bytes

namespace Extends

variable (h : s.Extends s')
include h

theorem committed (hc : s.Committed m) : s'.Committed m :=
  have ⟨message, hm, he⟩ := hc
  ⟨message, h.inbox hm, he⟩

theorem prepared (hp : s.Prepared m bytes) : s'.Prepared m bytes :=
  have ⟨message, hm, he⟩ := hp
  ⟨message, h.outbox hm, he⟩

theorem permits (hp : s.Permits op) : s'.Permits op := by
  cases op
  case createQueue => exact hp
  case send        => exact fun hq hs => h.prepared (hp hq hs)
  case acknowledge => exact fun hq hr => h.committed (hp hq hr)
  case fetch       => trivial
  case deleteQueue => trivial

theorem authentic (ha : s.Authentic bytes) : s'.Authentic bytes := by
  intro requestId delivery plaintext hd ho
  have ⟨message, hm, h'⟩ := ha requestId delivery plaintext hd ho
  exact ⟨message, h.outbox hm, h'⟩

theorem backs (hb : s.Backs past) : s'.Backs past where
  commit _ _ _ he := h.committed (hb.commit _ _ _ he)
  respond _ _ he  := h.authentic (hb.respond _ _ he)

end Extends

-- The frame carries a request for a permitted operation, if at all.
def PermitsFrame (s : System parties κ) (frame : Bytes) : Prop :=
  ∀ decoded, decodeRequest frame = .ok decoded →
    ∀ now op, decoded.frame.request.operation now = some op → s.Permits op

theorem permitsFrame_signedFrame
    (h : ∀ now op, request.operation now = some op → s.Permits op) :
    s.PermitsFrame (signedFrame key requestId request) := by
  intro decoded hd now op ho
  cases decodeRequest_signedFrame.mp hd
  exact h now op ho

theorem permitsFrame_issue (h : parties.Issuable request) :
    s.PermitsFrame (signedFrame key requestId request) := by
  refine permitsFrame_signedFrame fun now op ho => ?_
  cases request <;> simp only [Request.operation] at ho
  case createQueue =>
    obtain ⟨_, _, ho⟩ := Option.bind_eq_some_iff.mp ho
    cases ho
    exact fun hq _ => h hq
  case send =>
    obtain ⟨_, _, ho⟩ := Option.bind_eq_some_iff.mp ho
    cases ho
    exact fun hq => absurd hq h
  case ack =>
    cases ho
    exact fun hq => absurd hq h
  case fetch       => cases ho; trivial
  case deleteQueue => cases ho; trivial

theorem permitsFrame_prepared {message : parties.Outgoing} (hm : message ∈ s.outbox) :
    s.PermitsFrame message.prepared.frame := by
  have hp := message.isPrepared
  unfold Sender.prepare at hp
  split at hp
  case h_1 => cases hp
  case h_2 payload hs =>
    rw [←Except.ok.inj hp]
    refine permitsFrame_signedFrame fun now op ho => ?_
    obtain ⟨_, _, ho⟩ := Option.bind_eq_some_iff.mp ho
    cases ho
    exact fun _ _ => ⟨message, hm, rfl, payload, hs, rfl⟩

-- A poll sends an acknowledgement only after the message has been committed.
theorem permitsFrame_poll (hb : s.Backs past)
    (hj : parties.recipient.Justified past (.exchange frame)) : s.PermitsFrame frame := by
  generalize hc : Call.exchange frame = c at hj
  cases hj <;> cases hc
  case fetch =>
    refine permitsFrame_signedFrame fun now op ho => ?_
    cases ho
    trivial
  case ack hc =>
    refine permitsFrame_signedFrame fun now op ho => ?_
    cases ho
    exact fun _ _ => hb.commit _ _ _ hc

theorem Extends.permitsFrame (h : s.Extends s') (hp : s.PermitsFrame frame) : s'.PermitsFrame frame :=
  fun decoded hd now op ho => h.permits (hp decoded hd now op ho)

section Invariant

-- A poll which is in progress.
def Polls (s : System parties κ) (p : Program interface ClientError PollOutcome) : Prop :=
  ∃ past, p.Guarantees parties.recipient.Justified parties.recipient.Reported past ∧ s.Backs past

def relayQueues (s : System parties κ) : Relay :=
  s.relay.relay.store.queue.relay

structure Invariant [Sha256] (s : System parties κ) : Prop where
  store   : RelayService.Store.Valid s.relay.relay.store
  config  : ∀ c, s.relayQueues.config parties.queueId = some c →
    c.sender = parties.sender.sender → c.recipient = parties.sender.recipient
  frames  : ∀ frame ∈ s.frames, s.PermitsFrame frame
  polls   : ∀ k p, s.polls k = some p → s.Polls p
  outbox  : s.outbox.Pairwise (·.messageId ≠ ·.messageId)
  inbox   : s.inbox.Pairwise (·.fst ≠ ·.fst)
  applied : ∀ message ∈ s.inbox, ∃ m ∈ s.outbox,
    m.messageId = message.fst ∧ m.plaintext = message.snd

theorem Extends.polls (h : s.Extends s') (hp : s.Polls p) : s'.Polls p :=
  have ⟨past, hg, hb⟩ := hp
  ⟨past, hg, h.backs hb⟩

theorem polls_poll (s : System parties κ) : s.Polls parties.recipient.poll :=
  ⟨[], parties.recipient.poll_guarantees, ⟨by simp, by simp⟩⟩

theorem Backs.append (hb : s.Backs past)
    (hc : ∀ m plaintext outcome, e = ⟨.commit m plaintext, .ok outcome⟩ → s.Committed m)
    (hr : ∀ request bytes, e = ⟨.exchange request, .ok bytes⟩ → s.Authentic bytes) :
    s.Backs (past ++ [e]) where
  commit m plaintext outcome h := by
    rcases List.mem_append.mp h with h | h
    · exact hb.commit m plaintext outcome h
    · exact hc m plaintext outcome (List.mem_singleton.mp h).symm
  respond request bytes h := by
    rcases List.mem_append.mp h with h | h
    · exact hb.respond request bytes h
    · exact hr request bytes (List.mem_singleton.mp h).symm

-- A poll continues with the result of its call.
theorem Polls.resume {next : interface.Result c → Program interface ClientError PollOutcome}
    (hp : s.Polls (.call c next))
    (hc : ∀ m plaintext outcome, ⟨c, r⟩ = (⟨.commit m plaintext, .ok outcome⟩ : interface.Event) →
      s.Committed m)
    (hr : ∀ request bytes, ⟨c, r⟩ = (⟨.exchange request, .ok bytes⟩ : interface.Event) →
      s.Authentic bytes) :
    s.Polls (next r) :=
  have ⟨past, ⟨_, hg⟩, hb⟩ := hp
  ⟨past ++ [⟨c, r⟩], hg r, hb.append hc hr⟩

-- What a poll commits has been prepared by the sender.
theorem Polls.exists_outgoing [LawfulHpke] (hp : s.Polls (.call (.commit m plaintext) next)) :
    ∃ message ∈ s.outbox, message.messageId = m ∧ message.plaintext = plaintext := by
  obtain ⟨past, ⟨hj, -⟩, hb⟩ := hp
  cases hj
  case commit delivery _ hr hd ho =>
    obtain ⟨message, hm, hi, hs⟩ := hb.respond _ _ hr _ _ _ hd ho
    have hc : parties.sender.context message.messageId =
        parties.recipient.context delivery.messageId := by
      simp only [Sender.context, Recipient.context, hi, parties.queueId_eq, parties.sender_eq,
        parties.recipient_eq]
    rw [Parties.Outgoing.Carries, parties.recipientKey_eq, hc] at hs
    rw [parties.senderKey_eq, openMessage_sealMessage hs] at ho
    exact ⟨message, hm, hi, Except.ok.inj ho⟩

theorem forall_setPoll [DecidableEq κ] {P : Program interface ClientError PollOutcome → Prop}
    (hf : ∀ k p, s.polls k = some p → P p) (hp : ∀ p, poll = some p → P p) :
    ∀ k' p, (s.setPoll k poll).polls k' = some p → P p := by
  intro k' p h
  simp only [setPoll, Function.update_apply] at h
  split at h
  case isTrue  => exact hp p h
  case isFalse => exact hf k' p h

variable [Profile] [Sha256]

-- Requests which take effect on behalf of the parties are those which they have signed.
theorem Invariant.permits (hi : s.Invariant) (hu : s.Unforged input)
    (he : RelayService.event input s.relay = some (op, reply))
    (hp : op.principal = parties.sender.sender ∨ op.principal = parties.sender.recipient) :
    s.Permits op := by
  obtain ⟨bytes, now, decoded, rfl, ha, ho⟩ := RelayService.of_event_eq_some he
  rw [←operation_principal ho] at hp
  obtain ⟨frame, hf, decoded', hd, hb⟩ := hu decoded ha.decode hp ha.verify
  have ⟨_, hb'⟩ := Codec.decodeRequest_eq_ok.mp hd
  have ⟨_, hb''⟩ := Codec.decodeRequest_eq_ok.mp ha.decode
  rw [hb', hb''] at hb
  have ⟨_, hr⟩ := Codec.encodeAuthenticatedRequest_inj hb
  exact hi.frames frame hf decoded' hd now op (hr ▸ ho)

-- Only the sender can create the queue, and does so for the recipient.
theorem Invariant.relay_config (hi : s.Invariant) (hu : s.Unforged input)
    (hs : s'.relay = (RelayService.step input s.relay).snd)
    (hc : s'.relayQueues.config parties.queueId = some c)
    (hp : c.sender = parties.sender.sender) : c.recipient = parties.sender.recipient := by
  have he := RelayService.event_effect hi.store.queue input
  generalize hv : RelayService.event input s.relay = event at he
  rw [relayQueues, hs] at hc
  cases he
  case none h => exact hi.config c (by rwa [relayQueues, ←h]) hp
  case some op reply h =>
    have hr := Relay.reconfigures s.relayQueues op parties.queueId
    rw [show Relay.apply op s.relayQueues = _ from h, hc] at hr
    generalize ho : s.relayQueues.config parties.queueId = config at hr
    cases hr
    case keep => exact hi.config c ho hp
    case create h => subst h; exact hi.permits hu hv (.inl hp) rfl hp

theorem init_invariant : (init : System parties κ).Invariant where
  store   := RelayService.empty_valid
  config  := nofun
  frames  := nofun
  polls   := nofun
  outbox  := .nil
  inbox   := .nil
  applied := nofun

variable [DecidableEq κ]

theorem Step.extends (hs : s.Step input s') : s.Extends s' := by
  cases hs
  case prepare => exact ⟨List.subset_append_left .., List.Subset.refl _⟩
  case commit hc =>
    obtain rfl | ⟨rfl, _⟩ := hc.cases
    · exact ⟨List.Subset.refl _, List.Subset.refl _⟩
    · exact ⟨List.Subset.refl _, List.subset_append_left ..⟩
  all_goals exact ⟨List.Subset.refl _, List.Subset.refl _⟩

theorem Invariant.frames_step (hi : s.Invariant) (hs : s.Step input s') :
    ∀ frame ∈ s'.frames, s'.PermitsFrame frame := by
  have he := hs.extends
  have hf (frame) (h : frame ∈ s.frames) : s'.PermitsFrame frame :=
    he.permitsFrame (hi.frames frame h)
  cases hs
  case prepare message _ =>
    refine List.forall_mem_append.mpr ⟨hf, List.forall_mem_singleton.mpr ?_⟩
    exact permitsFrame_prepared (List.mem_append_right _ List.mem_cons_self)
  case issue h =>
    exact List.forall_mem_append.mpr ⟨hf, List.forall_mem_singleton.mpr (permitsFrame_issue h)⟩
  case transmit k frame next h =>
    obtain ⟨past, ⟨hj, -⟩, hb⟩ := hi.polls k _ h
    have hp := he.permitsFrame (permitsFrame_poll hb hj)
    exact List.forall_mem_append.mpr ⟨hf, List.forall_mem_singleton.mpr hp⟩
  all_goals exact hf

theorem Invariant.polls_step (hi : s.Invariant) (hs : s.Step input s') :
    ∀ k p, s'.polls k = some p → s'.Polls p := by
  have he := hs.extends
  have hf (k p) (h : s.polls k = some p) : s'.Polls p := he.polls (hi.polls k p h)
  cases hs
  case prepare  => exact hf
  case issue    => exact hf
  case relay    => exact hf
  case transmit => exact hf
  case start    => exact forall_setPoll hf fun | _, rfl => polls_poll _
  case crash    => exact forall_setPoll hf nofun
  case requestId h =>
    exact forall_setPoll hf fun | _, rfl => (hf _ _ h).resume nofun nofun
  case fail h =>
    exact forall_setPoll hf fun | _, rfl => (hf _ _ h).resume nofun nofun
  case respond h ha =>
    exact forall_setPoll hf fun | _, rfl => (hf _ _ h).resume nofun fun | _, _, rfl => ha
  case commit h hc =>
    refine forall_setPoll hf fun | _, rfl => (hf _ _ h).resume (fun m plaintext outcome he => ?_) nofun
    cases he
    exact hc.mem

theorem Invariant.step [LawfulHpke] (hi : s.Invariant) (hs : s.Step input s') : s'.Invariant where
  frames := hi.frames_step hs
  polls  := hi.polls_step hs
  store  := by
    cases hs
    case relay => exact RelayService.step_valid hi.store _
    all_goals exact hi.store
  config := by
    cases hs
    case relay h => exact fun c hc => hi.relay_config h rfl hc
    all_goals exact hi.config
  outbox := by
    cases hs
    case prepare message h =>
      refine List.pairwise_append.mpr ⟨hi.outbox, List.pairwise_singleton .., ?_⟩
      simpa using h
    all_goals exact hi.outbox
  inbox := by
    cases hs
    case commit hc =>
      obtain rfl | ⟨rfl, h⟩ := hc.cases
      · exact hi.inbox
      · refine List.pairwise_append.mpr ⟨hi.inbox, List.pairwise_singleton .., ?_⟩
        simpa using h
    all_goals exact hi.inbox
  applied := by
    cases hs
    case prepare =>
      intro message hm
      obtain ⟨m, hm, h⟩ := hi.applied message hm
      exact ⟨m, List.mem_append_left _ hm, h⟩
    case commit k m plaintext next result inbox' h hc =>
      obtain rfl | ⟨rfl, _⟩ := hc.cases
      · exact hi.applied
      · have hm := (hi.polls k _ h).exists_outgoing
        exact List.forall_mem_append.mpr ⟨hi.applied, List.forall_mem_singleton.mpr hm⟩
    all_goals exact hi.applied

end Invariant

end System

namespace Run

variable [Profile] [Sha256] [DecidableEq κ] (run : Run parties κ)

theorem invariant [LawfulHpke] (t : Nat) : (run.state t).Invariant := by
  induction t
  case zero      => exact run.init ▸ System.init_invariant
  case succ t hi => exact hi.step (run.step t)

theorem state_extends (h : t ≤ t') : (run.state t).Extends (run.state t') := by
  induction h
  case refl => exact ⟨List.Subset.refl _, List.Subset.refl _⟩
  case step t' _ hi =>
    have hs := (run.step t').extends
    exact ⟨List.Subset.trans hi.outbox hs.outbox, List.Subset.trans hi.inbox hs.inbox⟩

theorem advances [LawfulHpke] (t : Nat) :
    Relay.Advances (run.history.relay t) (run.history.relay (t + 1)) (run.history.event t) := by
  have hv := (run.invariant t).store
  have hs := run.step t
  simp only [history]
  generalize run.input t = input, run.state (t + 1) = s' at hs
  cases hs
  case relay => exact RelayService.advances hv _
  all_goals rfl

theorem history_valid [LawfulHpke] : run.history.Valid :=
  .of_advances (congrArg System.relayQueues run.init) run.advances

variable {run}

theorem permits [LawfulHpke] (he : run.history.event t = some (op, reply))
    (hp : op.principal = parties.sender.sender ∨ op.principal = parties.sender.recipient) :
    (run.state t).Permits op := by
  obtain ⟨i, hi, he⟩ := Option.bind_eq_some_iff.mp he
  have hs := run.step t
  rw [hi] at hs
  generalize run.state (t + 1) = s' at hs
  cases hs
  case relay hu => exact (run.invariant t).permits hu he hp

-- As long as a message of the sender is in the queue, the queue belongs to the sender.
theorem sender_of_queued [LawfulHpke] (ha : run.Accepted i m)
    (hq : run.history.Queued t parties.queueId i m) :
    ∃ c, (run.history.relay t).config parties.queueId = some c ∧
      c.sender = parties.sender.sender := by
  induction t
  case zero => exact absurd hq.lt (Nat.not_lt_zero _)
  case succ t hi =>
    have hs := run.advances t
    obtain ⟨c, hc, hp⟩ : ∃ c, (run.history.relay t).config parties.queueId = some c ∧
        c.sender = parties.sender.sender := by
      rcases Relay.History.queued_succ.mp hq with ⟨rfl, _⟩ | ⟨hq, _⟩
      · obtain ⟨⟨op, reply, he, ho⟩, now, ttl, _, he'⟩ := ha
        cases he.symm.trans he'
        obtain ⟨_, _, _, _, rfl, _⟩ := ho
        rw [he] at hs
        exact Relay.sender_of_accepted hs
      · exact hi hq
    cases he : run.history.event t
    case none =>
      rw [he] at hs
      exact ⟨c, hs.symm ▸ hc, hp⟩
    case some event =>
      obtain ⟨op, reply⟩ := event
      rw [he] at hs
      have hr := Relay.reconfigures (run.history.relay t) op parties.queueId
      rw [show Relay.apply op (run.history.relay t) = _ from hs, hc] at hr
      generalize hc' : (run.history.relay (t + 1)).config parties.queueId = config at hr
      cases hr
      case keep => exact ⟨c, rfl, hp⟩
      case delete ho ho' =>
        have hr : run.history.Removes t parties.queueId m := ⟨op, reply, he, .delete ho ho'⟩
        rcases Relay.History.queued_succ.mp hq with ⟨_, _, _, he', ha⟩ | ⟨_, hn⟩
        · cases he.symm.trans he'
          obtain ⟨_, _, _, h, _⟩ := ha
          cases ho.symm.trans h
        · exact absurd hr hn

theorem recipient_of_queued [LawfulHpke] (ha : run.Accepted i m)
    (hq : run.history.Queued t parties.queueId i m)
    (hr : (run.history.relay t).queues parties.queueId = some queue) :
    queue.config.recipient = parties.sender.recipient := by
  obtain ⟨c, hc, hp⟩ := sender_of_queued ha hq
  obtain ⟨queue', hq', rfl⟩ := Relay.config_eq_some.mp hc
  cases hr.symm.trans hq'
  exact (run.invariant t).config _ hc hp

theorem committed_of_acknowledged [LawfulHpke] (ha : run.Accepted i m)
    (hq : run.history.Queued t parties.queueId i m)
    (he : run.history.event t =
      some (.acknowledge parties.queueId recipient m.id now, .ok .acknowledge)) :
    (run.state t).Committed m.id := by
  have hs := run.advances t
  rw [he] at hs
  have hf := congrArg Prod.fst (show Relay.apply _ _ = _ from hs)
  obtain ⟨_, hf, _⟩ := Except.map_eq_ok.mp hf
  obtain ⟨queue, hr, rfl, _⟩ := Relay.of_acknowledge_eq_ok hf
  have hr := recipient_of_queued ha hq hr
  exact permits he (.inr hr) rfl hr

-- What becomes of an accepted message.
theorem fate [LawfulHpke] (ha : run.Accepted i m) (h : i < t) :
    run.history.Queued t parties.queueId i m ∨ (run.state t).Committed m.id ∨ run.Expired t i m ∨
      run.Deleted t i := by
  induction t, h using Nat.le_induction
  case base => exact .inl <| Relay.History.queued_succ.mpr <| .inl ⟨rfl, ha.left⟩
  case succ t hl hi =>
    have he := (run.step t).extends
    rcases hi with hq | hc | ⟨j, op, reply, now, h₁, h₂, h⟩ | ⟨j, recipient, h₁, h₂, h⟩
    · by_cases hr : run.history.Removes t parties.queueId m
      case neg => exact .inl <| Relay.History.queued_succ.mpr <| .inr ⟨hq, hr⟩
      case pos =>
        obtain ⟨op, reply, hv, hr⟩ := hr
        cases hr
        case acknowledge ho hr =>
          subst ho hr
          exact .inr <| .inl <| he.committed <| committed_of_acknowledged ha hq hv
        case expire now ho hx =>
          exact .inr <| .inr <| .inl ⟨t, op, reply, now, hl, by omega, hv, ho, hx⟩
        case delete recipient ho hr =>
          subst ho hr
          exact .inr <| .inr <| .inr ⟨t, recipient, hl, by omega, hv⟩
    · exact .inr <| .inl <| he.committed hc
    · exact .inr <| .inr <| .inl ⟨j, op, reply, now, h₁, by omega, h⟩
    · exact .inr <| .inr <| .inr ⟨j, recipient, h₁, by omega, h⟩

theorem mem_messages_of_queued [LawfulHpke] (hq : run.history.Queued t q i m) :
    ∃ message ∈ (run.history.relay t).messages q, message.toDelivery = m := by
  obtain ⟨accepted, _, hm, ha⟩ := run.history_valid.messages_queued t q
  have hm' : m ∈ accepted.map Prod.snd := List.mem_map.mpr ⟨(i, m), (ha i m).mpr hq, rfl⟩
  exact List.mem_map.mp (hm ▸ hm')

theorem delivery_safety [LawfulHpke] (run : Run parties κ) (t : Nat) :
    -- Messages are acknowledged only after they have been committed.
    (∀ i m recipient now, run.Accepted i m → run.history.Queued t parties.queueId i m →
      run.history.event t = some (.acknowledge parties.queueId recipient m.id now, .ok .acknowledge) →
      (run.state t).Committed m.id) ∧
    -- Messages are applied at most once, and as they were prepared.
    (run.state t).inbox.Pairwise (·.fst ≠ ·.fst) ∧
    (run.state t).outbox.Pairwise (·.messageId ≠ ·.messageId) ∧
    (∀ messageId plaintext, (messageId, plaintext) ∈ (run.state t).inbox →
      ∃ message ∈ (run.state t).outbox,
        message.messageId = messageId ∧ message.plaintext = plaintext) ∧
    -- Messages are not lost.
    (∀ i < t, ∀ m, run.Accepted i m →
      (run.state t).Prepared m.id m.payload ∧
      ((∃ message ∈ (run.history.relay t).messages parties.queueId, message.toDelivery = m) ∨
        (run.state t).Committed m.id ∨ run.Expired t i m ∨ run.Deleted t i)) := by
  have hi := run.invariant t
  refine ⟨fun _ _ _ _ => committed_of_acknowledged, hi.inbox, hi.outbox, ?_, ?_⟩
  · exact fun messageId plaintext => hi.applied (messageId, plaintext)
  · intro i h m ha
    constructor
    · have ⟨_, _, _, _, he⟩ := ha
      exact (run.state_extends (Nat.le_of_lt h)).prepared (permits he (.inl rfl) rfl rfl)
    · rcases fate ha h with hq | h
      · exact .inl (mem_messages_of_queued hq)
      · exact .inr h

end Run
end Cofferwire.Client

-- Two messages on their way from the sender to the inbox of the recipient.
namespace Cofferwire.Client.Transfer

open Codec (ResponseFrame encodeResponse decodeResponse)

attribute [local instance] Toy.profile Toy.sha256 Toy.ed25519 Toy.hpke

def senderKey    : ByteVec 32 := .replicate 32 1
def recipientKey : ByteVec 32 := .replicate 32 2
def queue        : QueueId    := ⟨.replicate 32 3⟩

def requestId (byte : UInt8) : RequestId := ⟨.replicate 16 byte⟩
def messageId (byte : UInt8) : MessageId := ⟨.replicate 32 byte⟩

def parties : Parties where
  sender := {
    queueId                := queue
    sender                 := ⟨senderKey⟩
    recipient              := ⟨recipientKey⟩
    signingKey             := senderKey
    encryptionKey          := ⟨senderKey⟩
    recipientEncryptionKey := ⟨recipientKey⟩
    principal              := rfl }
  recipient := {
    queueId             := queue
    sender              := ⟨senderKey⟩
    recipient           := ⟨recipientKey⟩
    signingKey          := recipientKey
    encryptionKey       := ⟨recipientKey⟩
    senderEncryptionKey := ⟨senderKey⟩
    principal           := rfl }
  queueId_eq      := rfl
  sender_eq       := rfl
  recipient_eq    := rfl
  senderKey_eq    := rfl
  recipientKey_eq := rfl

def payload (byte : UInt8) : Payload where
  asBytes := envelopeHeader ++ senderKey.toBytes ++ byte :: Toy.tag
  bounded := (by decide : 57 ≤ maxMessageBytes)

def sendFrame (byte : UInt8) : Bytes :=
  signedFrame senderKey (requestId byte)
    (.send ⟨queue, ⟨senderKey⟩, messageId byte, payload byte, 60⟩)

def message (byte : UInt8) : parties.Outgoing where
  requestId  := requestId byte
  messageId  := messageId byte
  plaintext  := [byte]
  ttl        := 60
  rng        := ()
  prepared   := ⟨requestId byte, messageId byte, sendFrame byte⟩
  isPrepared := rfl

def create : Request :=
  .createQueue ⟨queue, ⟨senderKey⟩, ⟨recipientKey⟩, 10, 1000, by decide, by decide, by decide⟩

def createFrame : Bytes :=
  signedFrame senderKey (requestId 0) create

def fetched (byte : UInt8) : Response :=
  .success (.fetch (some ⟨messageId byte, payload byte, 60⟩))

-- What happens in a step of the system.
inductive Action
  | issue
  | prepare (byte : UInt8)
  | receive (frame : Bytes)
  | start
  | requestId (id : RequestId)
  | transmit (frame : Bytes)
  | respond (frame : Bytes) (response : ResponseFrame)
  | commit (byte : UInt8)
  | crash

namespace Action

def input : Action → Option RelayService.Input
  | receive frame => some (.exchange frame 0 false)
  | _             => none

-- The response which a poll gets to its frame.
def response : Action → Option (Bytes × Bytes)
  | respond frame response => some (frame, encodeResponse response)
  | _                      => none

end Action

-- The call which a poll is waiting for.
def pending : Option (Program interface ClientError PollOutcome) → Option Call
  | some (.call c _) => some c
  | _                => none

def resume (results : ∀ c : Call, c.Result) :
    Option (Program interface ClientError PollOutcome) →
    Option (Program interface ClientError PollOutcome)
  | some (.call c next) => some (next (results c))
  | poll                => poll

def results (id : RequestId) (bytes : Bytes) : ∀ c : Call, c.Result
  | .nextRequestId => id
  | .exchange _    => .ok bytes
  | .commit _ _    => .ok .applied

theorem of_pending_eq_some (h : pending poll = some c) (results : ∀ c : Call, c.Result) :
    ∃ next, poll = some (.call c next) ∧ resume results poll = some (next (results c)) := by
  match poll, h with
  | some (.call _ next), rfl => exact ⟨next, rfl, rfl⟩

def delivered : Response → Option Delivery
  | .success (.fetch delivery) => delivery
  | _                          => none

section

variable (s : System parties Unit)

def resumed (id : RequestId) (bytes : Bytes) : System parties Unit :=
  s.setPoll () (resume (results id bytes) (s.polls ()))

def perform : Action → System parties Unit
  | .issue              => { s with frames := s.frames ++ [createFrame] }
  | .prepare byte       => { s with
    outbox := s.outbox ++ [message byte]
    frames := s.frames ++ [sendFrame byte] }
  | .receive frame      => { s with relay := (RelayService.step (.exchange frame 0 false) s.relay).snd }
  | .start              => s.setPoll () (some parties.recipient.poll)
  | .requestId id       => resumed s id []
  | .transmit frame     => { s with frames := s.frames ++ [frame] }
  | .respond _ response => resumed s (requestId 0) (encodeResponse response)
  | .commit byte        => { resumed s (requestId 0) [] with
    inbox := s.inbox ++ [(messageId byte, [byte])] }
  | .crash              => s.setPoll () none

-- A message which is delivered has been prepared.
def FromOutbox (response : Response) : Prop :=
  ∀ delivery ∈ delivered response,
    ∃ message ∈ s.outbox, message.messageId = delivery.messageId ∧
      sealMessage parties.sender.encryptionKey parties.sender.recipientEncryptionKey
        (parties.sender.context message.messageId) message.plaintext message.rng = .ok delivery.payload

def Enabled : Action → Prop
  | .issue                  => True
  | .prepare byte           => ∀ m ∈ s.outbox, m.messageId ≠ messageId byte
  | .receive frame          => frame ∈ s.frames
  | .start                  => True
  | .requestId _            => pending (s.polls ()) = some .nextRequestId
  | .transmit frame         => pending (s.polls ()) = some (.exchange frame)
  | .respond frame response => pending (s.polls ()) = some (.exchange frame) ∧
    FromOutbox s response.response
  | .commit byte            => pending (s.polls ()) = some (.commit (messageId byte) [byte]) ∧
    ∀ m ∈ s.inbox, m.fst ≠ messageId byte
  | .crash                  => True

end

deriving instance DecidableEq for Call, Relay.Operation

instance (s : System parties Unit) : DecidablePred (FromOutbox s) :=
  fun _ => inferInstanceAs (Decidable (∀ _ ∈ _, ∃ _ ∈ _, _ ∧ _ = _))

instance (s : System parties Unit) : DecidablePred (Enabled s)
  | .issue       => inferInstanceAs (Decidable True)
  | .prepare _   => inferInstanceAs (Decidable (∀ _ ∈ _, _ ≠ _))
  | .receive _   => inferInstanceAs (Decidable (_ ∈ _))
  | .start       => inferInstanceAs (Decidable True)
  | .requestId _ => inferInstanceAs (Decidable (_ = _))
  | .transmit _  => inferInstanceAs (Decidable (_ = _))
  | .respond _ _ => inferInstanceAs (Decidable (_ = _ ∧ FromOutbox _ _))
  | .commit _    => inferInstanceAs (Decidable (_ = _ ∧ ∀ _ ∈ _, _ ≠ _))
  | .crash       => inferInstanceAs (Decidable True)

theorem FromOutbox.authentic {s : System parties Unit} (h : FromOutbox s response.response) :
    s.Authentic (encodeResponse response) := by
  intro id delivery plaintext hd _
  have hr : decodeResponse (encodeResponse response) = .ok response :=
    Codec.decodeResponse_eq_ok.mpr rfl
  cases hd.symm.trans hr
  exact h delivery rfl

theorem step_of_enabled {s : System parties Unit} (h : Enabled s action) :
    s.Step action.input (perform s action) := by
  cases action
  case issue           =>
    have hi : parties.Issuable create := fun _ => rfl
    exact .issue hi
  case prepare byte    => exact .prepare (message byte) h
  case receive frame   => exact .relay fun decoded hd _ _ => ⟨frame, h, decoded, hd, rfl⟩
  case start           => exact .start ()
  case crash           => exact .crash ()
  case requestId id    =>
    obtain ⟨next, hp, hr⟩ := of_pending_eq_some h (results id [])
    rw [perform, resumed, hr]
    exact .requestId hp
  case transmit frame  =>
    obtain ⟨next, hp, _⟩ := of_pending_eq_some h (results (requestId 0) [])
    exact .transmit hp
  case respond frame r =>
    obtain ⟨next, hp, hr⟩ := of_pending_eq_some h.left (results (requestId 0) (encodeResponse r))
    rw [perform, resumed, hr]
    exact .respond hp h.right.authentic
  case commit byte     =>
    obtain ⟨next, hp, hr⟩ := of_pending_eq_some h.left (results (requestId 0) [])
    rw [perform, resumed, hr]
    exact .commit hp (.applied h.right)

-- A poll which gets the message with the given byte and acknowledges it.
def poll (fetchId ackId byte : UInt8) : List Action :=
  let fetchFrame := parties.recipient.fetchFrame (requestId fetchId)
  let ackFrame   := parties.recipient.ackFrame (requestId ackId) (messageId byte)
  [ .start, .requestId (requestId fetchId), .transmit fetchFrame, .receive fetchFrame,
    .respond fetchFrame ⟨requestId fetchId, fetched byte⟩, .commit byte, .requestId (requestId ackId),
    .transmit ackFrame, .receive ackFrame, .respond ackFrame ⟨requestId ackId, .success .ack⟩ ]

def lastFrame : Bytes :=
  parties.recipient.fetchFrame (requestId 14)

-- After both messages have been received, there is nothing left to fetch.
def actions : List Action :=
  [ .issue, .receive createFrame, .prepare 4, .prepare 5, .receive (sendFrame 4),
    .receive (sendFrame 5) ] ++
  poll 10 11 4 ++ poll 12 13 5 ++
  [ .start, .requestId (requestId 14), .transmit lastFrame, .receive lastFrame,
    .respond lastFrame ⟨requestId 14, .success (.fetch none)⟩ ]

def script (n : Nat) : Action :=
  actions.getD n .crash

def state : Nat → System parties Unit
  | 0     => .init
  | n + 1 => perform (state n) (script n)

theorem script_crash (h : 31 ≤ n) : script n = .crash := by
  rw [script, List.getD_eq_getElem?_getD, List.getElem?_eq_none h]
  rfl

theorem script_enabled (n : Nat) : Enabled (state n) (script n) := by
  have h : ∀ n < 31, Enabled (state n) (script n) := by decide +kernel
  by_cases hn : n < 31
  case pos => exact h n hn
  case neg =>
    rw [script_crash (Nat.not_lt.mp hn)]
    trivial

def run : Run parties Unit where
  state   := state
  input n := (script n).input
  init    := rfl
  step n  := step_of_enabled (script_enabled n)

def delivery (byte : UInt8) : Relay.Delivery :=
  ⟨messageId byte, (payload byte).asBytes, 60⟩

theorem ttl_pos : (60 : UInt64) ≠ 0 := by
  decide

def sends (byte : UInt8) : Relay.Operation :=
  .send queue ⟨senderKey⟩ (messageId byte) (payload byte).asBytes 0 ⟨60, ttl_pos⟩

theorem accepted_of_event (h : run.history.event t = some (sends byte, .ok (.send .accepted))) :
    run.Accepted t (delivery byte) :=
  ⟨⟨_, _, h, _, _, _, rfl, rfl, rfl⟩, _, _, _, h⟩

theorem event₄ : run.history.event 4 = some (sends 4, .ok (.send .accepted)) := by
  decide +kernel

theorem event₅ : run.history.event 5 = some (sends 5, .ok (.send .accepted)) := by
  decide +kernel

theorem event₁₄ : run.history.event 14 =
    some (.acknowledge queue ⟨recipientKey⟩ (messageId 4) 0, .ok .acknowledge) := by
  decide +kernel

-- Neither the second message nor the fetch removes the first message.
theorem queued : run.history.Queued 14 queue 4 (delivery 4) where
  accepted := (accepted_of_event event₄).left
  lt       := by decide
  kept j h₁ h₂ := by
    rintro ⟨op, reply, he, hr⟩
    have hn : ∀ j < 14, 4 < j → ∀ event ∈ run.history.event j,
        event.fst.timestamp = some 0 ∧ event.snd ≠ .ok .acknowledge := by
      decide +kernel
    obtain ⟨ht, ha⟩ := hn j h₂ h₁ _ he
    cases hr
    case acknowledge h => exact ha h
    case delete h _    => rw [h] at ht; cases ht
    case expire ho hx  =>
      cases ho <;> subst op <;> cases ht
      all_goals exact absurd hx (by decide)

-- The acknowledgement is received once the message is in the inbox.
attribute [local instance] Toy.lawfulHpke in
theorem acknowledged_message_committed :
    run.Accepted 4 (delivery 4) ∧
    run.history.event 14 =
      some (.acknowledge queue ⟨recipientKey⟩ (messageId 4) 0, .ok .acknowledge) ∧
    (run.state 14).Committed (messageId 4) := by
  have ha := accepted_of_event event₄
  exact ⟨ha, event₁₄, (run.delivery_safety 14).left 4 (delivery 4) ⟨recipientKey⟩ 0 ha queued event₁₄⟩

end Cofferwire.Client.Transfer
