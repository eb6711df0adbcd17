import Cofferwire.Client.Theorems.Delivery

namespace Cofferwire.Client

open Codec (decodeRequest decodeResponse)
open RelayService (Answers Input)

variable [Profile] [Ed25519] [Sha256] [Hpke] {parties : Parties} {κ : Type} [DecidableEq κ]

namespace Run

section Definitions

variable (run : Run parties κ)

-- The relay has answered a frame.
def Answered (t : Nat) (frame bytes : Bytes) : Prop :=
  ∃ now fault, run.input t = some (.exchange frame now fault) ∧
    (RelayService.step (.exchange frame now fault) (run.state t).relay).fst = some (.ok bytes)

-- Polls get no other responses than those of the relay to their frames.
def Honest : Prop :=
  ∀ t k frame next, (run.state t).polls k = some (.call (.exchange frame) next) →
    (run.state (t + 1)).polls k = (run.state t).polls k ∨
    (run.state (t + 1)).polls k = none ∨
    (run.state (t + 1)).polls k = some parties.recipient.poll ∨
    ∃ result, (run.state (t + 1)).polls k = some (next result) ∧
      ∀ bytes, result = .ok bytes → ∃ n < t, run.Answered n frame bytes

-- The queue is never created by anybody else than the sender.
def Owned : Prop :=
  ∀ t c, (run.history.relay t).config parties.queueId = some c → c.sender = parties.sender.sender

-- All that the relay receives, where an empty frame stands for nothing.
def inputs (t : Nat) : Input :=
  (run.input t).getD (.exchange [] 0 false)

end Definitions

omit [Hpke] in
theorem exchange_nil (service : RelayService) :
    (RelayService.step (.exchange [] 0 false) service).snd = service := by
  have hv : RelayService.verified [] = none := rfl
  obtain ⟨_, he⟩ := RelayService.exchangeAt_of_unverified hv 0 false
  simp only [RelayService.step, he]

omit [Sha256] [Hpke] in
theorem event_nil (service : RelayService) : RelayService.event (.exchange [] 0 false) service = none :=
  rfl

variable {run : Run parties κ}

theorem relay_eq (t : Nat) : (run.state t).relay = RelayService.machine.state run.inputs t := by
  induction t
  case zero => rw [run.init]; rfl
  case succ t hi =>
    have hs := run.step t
    simp only [Machine.state, RelayService.machine] at hi ⊢
    rw [←hi]
    unfold inputs
    generalize run.input t = input, run.state (t + 1) = s' at hs
    cases hs
    case relay => rfl
    all_goals exact (exchange_nil _).symm

theorem history_eq : run.history = RelayService.history run.inputs := by
  have he (t : Nat) : (run.input t).bind (RelayService.event · (run.state t).relay) =
      RelayService.event (run.inputs t) (RelayService.machine.state run.inputs t) := by
    rw [←relay_eq, inputs]
    cases run.input t
    case none => exact (event_nil _).symm
    case some => rfl
  simp only [history, RelayService.history, he]
  simp only [relay_eq]

theorem Answered.answers (h : run.Answered n frame bytes) :
    ∃ now, Answers run.inputs n .queue frame now bytes := by
  obtain ⟨now, fault, hi, ho⟩ := h
  have hi : run.inputs n = .exchange frame now fault := by rw [inputs, hi]; rfl
  refine ⟨now, by rw [hi]; rfl, ?_⟩
  rw [Machine.output, hi, ←relay_eq]
  exact ho

end Run

namespace System

-- The sender's requests to send on the queue are those which have been prepared.
def SendsOutbox (s : System parties κ) : Prop :=
  ∀ frame ∈ s.frames, ∀ decoded send, decodeRequest frame = .ok decoded →
    decoded.frame.request = .send send → send.queueId = parties.queueId →
    ∃ message ∈ s.outbox, message.messageId = send.messageId ∧
      message.requestId = decoded.frame.requestId

theorem SendsOutbox.step {s s' : System parties κ} (h : s.SendsOutbox) (hi : s.Invariant)
    (hs : s.Step input s') : s'.SendsOutbox := by
  have hf (frame) (hm : frame ∈ s.frames) (decoded send) (hd : decodeRequest frame = .ok decoded)
      (hr : decoded.frame.request = .send send) (hq : send.queueId = parties.queueId) :
      ∃ message ∈ s'.outbox, message.messageId = send.messageId ∧
        message.requestId = decoded.frame.requestId := by
    obtain ⟨message, hm, he⟩ := h frame hm decoded send hd hr hq
    exact ⟨message, hs.extends.outbox hm, he⟩
  cases hs
  case prepare message _ =>
    refine List.forall_mem_append.mpr ⟨hf, List.forall_mem_singleton.mpr fun decoded send hd hr _ => ?_⟩
    have hp := message.isPrepared
    unfold Sender.prepare at hp
    split at hp
    case h_1 => cases hp
    case h_2 =>
      rw [←Except.ok.inj hp] at hd
      cases decodeRequest_signedFrame.mp hd
      cases hr
      exact ⟨message, List.mem_append_right _ List.mem_cons_self, rfl, rfl⟩
  case issue hr =>
    refine List.forall_mem_append.mpr ⟨hf, List.forall_mem_singleton.mpr fun decoded send hd hs hq => ?_⟩
    cases decodeRequest_signedFrame.mp hd
    subst hs
    exact absurd hq hr
  case transmit k frame next hk =>
    refine List.forall_mem_append.mpr ⟨hf, List.forall_mem_singleton.mpr fun decoded send hd hs _ => ?_⟩
    obtain ⟨past, ⟨hj, -⟩, _⟩ := hi.polls k _ hk
    generalize hc : Call.exchange frame = c at hj
    cases hj <;> cases hc
    case fetch => cases decodeRequest_signedFrame.mp hd; cases hs
    case ack   => cases decodeRequest_signedFrame.mp hd; cases hs
  all_goals exact hf

end System

namespace Run

variable {run : Run parties κ}

theorem Expired.mono (h : run.Expired t i m) (ht : t ≤ t') : run.Expired t' i m := by
  obtain ⟨j, op, reply, now, hi, hj, he⟩ := h
  exact ⟨j, op, reply, now, hi, by omega, he⟩

theorem Deleted.mono (h : run.Deleted t i) (ht : t ≤ t') : run.Deleted t' i := by
  obtain ⟨j, recipient, hi, hj, he⟩ := h
  exact ⟨j, recipient, hi, by omega, he⟩

-- The events of a poll if responses only come from the relay.
structure Backs (run : Run parties κ) (t : Nat) (past : List interface.Event) : Prop where
  frames  : ∀ frame result, ⟨.exchange frame, result⟩ ∈ past →
    (∃ fetchId, frame = parties.recipient.fetchFrame fetchId) ∨
    ∃ ackId m, frame = parties.recipient.ackFrame ackId m
  respond : ∀ frame bytes, ⟨.exchange frame, .ok bytes⟩ ∈ past → ∃ n < t, run.Answered n frame bytes

def Polls (run : Run parties κ) (t : Nat) (p : Program interface ClientError PollOutcome) : Prop :=
  ∃ past, p.Guarantees parties.recipient.Justified parties.recipient.Reported past ∧ run.Backs t past

theorem Polls.succ (h : run.Polls t p) : run.Polls (t + 1) p := by
  obtain ⟨past, hg, hf, hr⟩ := h
  refine ⟨past, hg, hf, fun frame bytes he => ?_⟩
  obtain ⟨n, hn, ha⟩ := hr frame bytes he
  exact ⟨n, Nat.lt_succ_of_lt hn, ha⟩

theorem polls_poll (run : Run parties κ) (t : Nat) : run.Polls t parties.recipient.poll :=
  ⟨[], parties.recipient.poll_guarantees, ⟨by simp, by simp⟩⟩

theorem Polls.resume {next : interface.Result c → Program interface ClientError PollOutcome}
    (h : run.Polls t (.call c next))
    (hr : ∀ frame bytes, ⟨c, r⟩ = (⟨.exchange frame, .ok bytes⟩ : interface.Event) →
      ∃ n < t, run.Answered n frame bytes) : run.Polls t (next r) := by
  obtain ⟨past, ⟨hj, hg⟩, hf, hb⟩ := h
  refine ⟨past ++ [⟨c, r⟩], hg r, fun frame result he => ?_, fun frame bytes he => ?_⟩
  · rcases List.mem_append.mp he with he | he
    · exact hf frame result he
    · obtain rfl : Call.exchange frame = c := congrArg Sigma.fst (List.mem_singleton.mp he)
      cases hj
      case fetch => exact .inl ⟨_, rfl⟩
      case ack   => exact .inr ⟨_, _, rfl⟩
  · rcases List.mem_append.mp he with he | he
    · exact hb frame bytes he
    · exact hr frame bytes (List.mem_singleton.mp he).symm

theorem polls (hr : run.Honest) (t : Nat) : ∀ k p, (run.state t).polls k = some p → run.Polls t p := by
  induction t
  case zero =>
    rw [run.init]
    rintro _ _ ⟨⟩
  case succ t hi =>
    have hf (k p) (h : (run.state t).polls k = some p) : run.Polls (t + 1) p := (hi k p h).succ
    intro k p hp
    -- A poll which waits for a response continues as the relay has answered.
    by_cases hw : ∃ frame next, (run.state t).polls k = some (.call (.exchange frame) next)
    case pos =>
      obtain ⟨frame, next, hw⟩ := hw
      obtain he | he | he | ⟨result, he, ha⟩ := hr t k frame next hw
      · exact hf k p (he ▸ hp)
      · cases he.symm.trans hp
      · cases he.symm.trans hp
        exact run.polls_poll _
      · cases he.symm.trans hp
        refine ((hi k _ hw).resume fun frame' bytes he => ?_).succ
        cases he
        exact ha bytes rfl
    case neg =>
      have hs := run.step t
      generalize run.state (t + 1) = s' at hs hp
      generalize run.input t = input at hs
      have hk {k' poll} (hp : ((run.state t).setPoll k' poll).polls k = some p)
          (hq : k = k' → ∀ p, poll = some p → run.Polls (t + 1) p) : run.Polls (t + 1) p := by
        simp only [System.setPoll, Function.update_apply] at hp
        split at hp
        case isTrue he => exact hq he p hp
        case isFalse   => exact hf k p hp
      cases hs
      case prepare  => exact hf k p hp
      case issue    => exact hf k p hp
      case relay    => exact hf k p hp
      case transmit => exact hf k p hp
      case crash    =>
        refine hk hp ?_
        rintro _ _ ⟨⟩
      case start =>
        refine hk hp fun _ p hp => ?_
        cases hp
        exact run.polls_poll _
      case requestId h =>
        refine hk hp fun he p hp => ?_
        cases hp
        refine ((hi _ _ h).resume ?_).succ
        rintro _ _ ⟨⟩
      case fail h       => exact hk hp fun he => absurd ⟨_, _, he ▸ h⟩ hw
      case respond h _  => exact hk hp fun he => absurd ⟨_, _, he ▸ h⟩ hw
      case commit h _   =>
        refine hk hp fun he p hp => ?_
        cases hp
        refine ((hi _ _ h).resume ?_).succ
        rintro _ _ ⟨⟩

variable [LawfulHpke]

theorem sendsOutbox (run : Run parties κ) (t : Nat) : (run.state t).SendsOutbox := by
  induction t
  case zero      => rw [run.init]; exact nofun
  case succ t hi => exact hi.step (run.invariant t) (run.step t)

-- An accepted message is one of the sender's, which determines its request.
theorem Accepted.exists_outgoing (h : run.Accepted i m) :
    ∃ bytes now fault decoded, run.inputs i = .exchange bytes now fault ∧
      decodeRequest bytes = .ok decoded ∧
      requestPrincipal decoded.frame.request = parties.sender.sender ∧
      ∃ message ∈ (run.state i).outbox, message.messageId = m.id ∧
        message.requestId = decoded.frame.requestId := by
  obtain ⟨_, now, ttl, reply, he⟩ := h
  have he' := he
  rw [history_eq] at he'
  obtain ⟨bytes, now', decoded, response, hi, ha, ho, _⟩ := RelayService.performs_of_event he'
  have hp := operation_principal ho
  refine ⟨bytes, now', false, decoded, hi, ha.decode, hp, ?_⟩
  have hs := run.step i
  have hx : run.input i = some (.exchange bytes now' false) := by
    cases hx : run.input i
    case none => simp [history, hx] at he
    case some => simpa [inputs, hx] using hi
  rw [hx] at hs
  generalize run.state (i + 1) = s' at hs
  cases hs
  case relay hu =>
    obtain ⟨frame, hf, decoded', hd, hb⟩ := hu decoded ha.decode (.inl hp) ha.verify
    obtain ⟨_, hb'⟩ := Codec.decodeRequest_eq_ok.mp hd
    obtain ⟨_, hb''⟩ := Codec.decodeRequest_eq_ok.mp ha.decode
    rw [hb', hb''] at hb
    obtain ⟨hr, hq⟩ := Codec.encodeAuthenticatedRequest_inj hb
    generalize hr' : decoded.frame.request = request at ho hq
    cases request <;> simp only [Request.operation] at ho
    case createQueue => obtain ⟨_, _, ho⟩ := Option.bind_eq_some_iff.mp ho; cases ho
    case send send =>
      obtain ⟨_, _, ho⟩ := Option.bind_eq_some_iff.mp ho
      obtain ⟨hi, _, hm, _⟩ := Relay.Operation.send.inj (Option.some.inj ho)
      exact hr ▸ hm ▸ run.sendsOutbox i frame hf decoded' send hd hq hi
    all_goals cases ho

-- A message is accepted at most once.
theorem Accepted.unique (h : run.Accepted i m) (h' : run.Accepted i' m') (hm : m.id = m'.id) : i = i' := by
  obtain ⟨bytes, now, fault, decoded, hi, hd, hp, message, ho, he, hr⟩ := h.exists_outgoing
  obtain ⟨bytes', now', fault', decoded', hi', hd', hp', message', ho', he', hr'⟩ := h'.exists_outgoing
  obtain ⟨_, _, _, _, hv⟩ := h
  obtain ⟨_, _, _, _, hv'⟩ := h'
  have hq : message.messageId = message'.messageId := by rw [he, he', hm]
  obtain rfl : message = message' := by
    have ho := (run.state_extends (Nat.le_max_left i i')).outbox ho
    have ho' := (run.state_extends (Nat.le_max_right i i')).outbox ho'
    have hn : ((run.state (max i i')).outbox.map (·.messageId)).Nodup :=
      List.pairwise_map.mpr (run.invariant _).outbox
    exact List.inj_on_of_nodup_map hn ho ho' hq
  rw [history_eq] at hv hv'
  exact RelayService.event_unique hv hv' hi hd hi' hd' (hp.trans hp'.symm) (hr.symm.trans hr')

-- Whatever is committed has been fetched before.
theorem exists_fetch (hr : run.Honest)
    (h : (run.state t).polls k = some (.call (.commit m plaintext) next)) :
    ∃ n < t, ∃ recipient now d, d.id = m ∧
      run.history.event n = some (.fetch parties.queueId recipient now, .ok (.fetch (some d))) := by
  obtain ⟨past, ⟨hj, -⟩, hf, ha⟩ := run.polls hr t k _ h
  cases hj
  case commit hx hd _ =>
    obtain ⟨n, hn, ha⟩ := ha _ _ hx
    obtain ⟨now, ha⟩ := ha.answers
    have hb := Codec.decodeResponse_eq_ok.mp hd
    obtain hr | ⟨n', hn', call, _, hp, _, hc, rfl⟩ := ha.exists_performs
    · have hi := ha.input
      generalize run.inputs n = input at hr hi
      cases input <;> cases hi
      obtain ⟨_, _, he⟩ := hr
      cases hd.symm.trans (Codec.decodeResponse_eq_ok.mpr he)
    · obtain ⟨now', decoded, op, hi, ha', ho, he⟩ := hp.event hc hb
      refine ⟨n', by omega, ?_⟩
      rw [←history_eq] at he
      obtain ⟨fetchId, hf⟩ | ⟨ackId, m, hf⟩ := hf _ _ hx
      all_goals
        have hd := ha'.decode
        rw [hf] at hd
        cases decodeRequest_signedFrame.mp hd
        cases ho
      · exact ⟨_, _, _, rfl, parties.queueId_eq ▸ he⟩
      · have hs := run.advances n'
        rw [he] at hs
        have hs := congrArg Prod.fst (show Relay.apply _ _ = _ from hs)
        obtain ⟨_, _, hs⟩ := Except.map_eq_ok.mp hs
        cases hs

-- At the time when a message was applied, the inbox consisted of the messages before it.
theorem exists_commit (hr : run.Honest) (h : (run.state t).inbox = past ++ (m, plaintext) :: future) :
    ∃ t' < t, (run.state t').inbox = past ∧ ∃ n < t', ∃ recipient now d, d.id = m ∧
      run.history.event n = some (.fetch parties.queueId recipient now, .ok (.fetch (some d))) := by
  induction t generalizing future
  case zero => rw [run.init] at h; simp [System.init] at h
  case succ t hi =>
    have hn {future} (h : (run.state t).inbox = past ++ (m, plaintext) :: future) :
        ∃ t' < t + 1, (run.state t').inbox = past ∧ ∃ n < t', ∃ recipient now d, d.id = m ∧
          run.history.event n = some (.fetch parties.queueId recipient now, .ok (.fetch (some d))) := by
      obtain ⟨t', ht, he⟩ := hi h
      exact ⟨t', Nat.lt_succ_of_lt ht, he⟩
    have hs := run.step t
    generalize run.state (t + 1) = s' at hs h
    generalize run.input t = input at hs
    cases hs
    case commit hp hc =>
      obtain rfl | ⟨rfl, _⟩ := hc.cases
      · exact hn h
      · obtain rfl | ⟨future, last, rfl⟩ := future.eq_nil_or_concat'
        · obtain ⟨rfl, hl⟩ := List.append_inj' h rfl
          cases hl
          exact ⟨t, Nat.lt_succ_self t, rfl, exists_fetch hr hp⟩
        · rw [←List.cons_append, ←List.append_assoc] at h
          exact hn (List.append_inj' h rfl).left
    all_goals exact hn h

section Fetch

variable (he : run.history.event n =
  some (.fetch parties.queueId recipient now, .ok (.fetch delivery)))
include he

theorem fetch_eq : ((run.history.relay n).fetch parties.queueId recipient now).fst = .ok delivery := by
  have hs := run.advances n
  rw [he] at hs
  obtain ⟨_, hf, hd⟩ := Except.map_eq_ok.mp (congrArg Prod.fst (show Relay.apply _ _ = _ from hs))
  cases hd
  exact hf

-- A fetch discards the messages which have expired.
theorem expired_of_fetch (hi : i < n) (hn : n < t) (hx : m.expiresAt ≤ now) : run.Expired t i m := by
  obtain ⟨queue, hq, rfl, _⟩ := Relay.fetch_eq_ok.mp (fetch_eq he)
  exact ⟨n, _, _, now, hi, hn, he, .fetch hq rfl, hx⟩

-- What is fetched has been sent by the sender.
theorem exists_accepted (ho : run.Owned) (hd : delivery = some d) :
    ∃ i, run.Accepted i d ∧ run.history.Current n parties.queueId now i d := by
  obtain ⟨i, _, hd', hc⟩ | ⟨hn, _⟩ := run.history_valid.fetch_current n (fetch_eq he)
  case inr => cases hn.symm.trans hd
  case inl =>
    cases hd.symm.trans hd'
    refine ⟨i, ⟨hc.queued.accepted, ?_⟩, hc⟩
    obtain ⟨op, reply, he, sender, now, ttl, rfl, rfl, _⟩ := hc.queued.accepted
    have hs := run.advances i
    rw [he] at hs
    obtain ⟨c, hc, rfl⟩ := Relay.sender_of_accepted hs
    exact ho i c hc ▸ ⟨now, ttl, _, he⟩

end Fetch

-- Messages are applied in the order in which they were accepted, except for those which are not applied
-- at all. When the relay reports that the queue is empty, there is nothing left to be applied.
theorem in_order_delivery (run : Run parties κ) (hr : run.Honest) (ho : run.Owned) (t : Nat) :
    (∀ i m i' m' past plaintext future, run.Accepted i m → run.Accepted i' m' → i < i' →
      (run.state t).inbox = past ++ (m'.id, plaintext) :: future →
      (∃ message ∈ past, message.fst = m.id) ∨ run.Expired t i m ∨ run.Deleted t i) ∧
    (∀ recipient now, run.history.event t =
        some (.fetch parties.queueId recipient now, .ok (.fetch none)) →
      ∀ i < t, ∀ m, run.Accepted i m →
        (run.state t).Committed m.id ∨ run.Expired (t + 1) i m ∨ run.Deleted t i) := by
  constructor
  · intro i m i' m' past plaintext future ha ha' hl hi
    obtain ⟨t', ht, rfl, n, hn, recipient, now, d, hd, he⟩ := exists_commit hr hi
    obtain ⟨i'', ha'', hc⟩ := exists_accepted he ho rfl
    obtain rfl := ha''.unique ha' hd
    have hl' : i < n := Nat.lt_trans hl hc.queued.lt
    rcases fate ha hl' with hq | hm | hx | hx
    · refine .inr (.inl (expired_of_fetch he hl' (by omega) ?_))
      by_contra hx
      exact absurd (hc.earliest i m hq (UInt64.not_le.mp hx)) (by omega)
    · exact .inl ((run.state_extends (Nat.le_of_lt hn)).committed hm)
    · exact .inr (.inl (hx.mono (by omega)))
    · exact .inr (.inr (hx.mono (by omega)))
  · intro recipient now he i hl m ha
    rcases fate ha hl with hq | hm | hx | hx
    · obtain ⟨_, _, hd, _⟩ | ⟨_, hx⟩ := run.history_valid.fetch_current t (fetch_eq he)
      case inl => cases hd
      case inr => exact .inr (.inl (expired_of_fetch he hl (Nat.lt_succ_self t) (hx i m hq)))
    · exact .inl hm
    · exact .inr (.inl (hx.mono (Nat.le_succ t)))
    · exact .inr (.inr hx)

end Run
end Cofferwire.Client

namespace Cofferwire.Client.Transfer

open Codec (encodeResponse)

attribute [local instance] Toy.profile Toy.sha256 Toy.ed25519 Toy.hpke

-- A poll which waits for the response to a frame only goes on with a response to it.
theorem perform_polls {s : System parties Unit} {rest : Call.Result (.exchange frame) → _}
    (he : Enabled s action) (h : s.polls k = some (.call (.exchange frame) rest)) :
    (perform s action).polls k = s.polls k ∨ (perform s action).polls k = none ∨
    (perform s action).polls k = some parties.recipient.poll ∨
    ∃ bytes, action.response = some (frame, bytes) ∧
      (perform s action).polls k = some (rest (.ok bytes)) := by
  have hp : pending (s.polls ()) = some (.exchange frame) := by
    show pending (s.polls k) = _
    rw [h]
    rfl
  cases action
  case start        => exact .inr (.inr (.inl rfl))
  case crash        => exact .inr (.inl rfl)
  case requestId id => cases hp.symm.trans he
  case commit byte  => cases hp.symm.trans he.left
  case respond r    =>
    cases hp.symm.trans he.left
    refine .inr (.inr (.inr ⟨encodeResponse r, rfl, ?_⟩))
    show resume _ (s.polls k) = _
    rw [h]
    rfl
  all_goals exact .inl rfl

theorem honest : run.Honest := by
  have ha : ∀ t < 31, ∀ r ∈ (script t).response, ∃ n < t,
      (script n).input = some (.exchange r.fst 0 false) ∧
      (RelayService.step (.exchange r.fst 0 false) (state n).relay).fst = some (.ok r.snd) := by
    decide +kernel
  intro t k frame rest h
  obtain he | he | he | ⟨bytes, hb, he⟩ := perform_polls (script_enabled t) h
  · exact .inl he
  · exact .inr (.inl he)
  · exact .inr (.inr (.inl he))
  · refine .inr (.inr (.inr ⟨.ok bytes, he, fun _ hr => ?_⟩))
    cases hr
    have ht : t < 31 := by
      by_contra ht
      rw [script_crash (Nat.not_lt.mp ht)] at hb
      cases hb
    obtain ⟨n, hn, hi, ho⟩ := ha t ht _ hb
    exact ⟨n, hn, 0, false, hi, ho⟩

-- Nothing reaches the relay any more.
theorem relay_constant (n : Nat) : (state (n + 31)).relay = (state 31).relay := by
  induction n
  case zero => rfl
  case succ n hi =>
    have hs : state (n + 1 + 31) = perform (state (n + 31)) (script (n + 31)) :=
      congrArg state (by omega : n + 1 + 31 = n + 31 + 1)
    rw [hs, script_crash (by omega)]
    exact hi

theorem owned : run.Owned := by
  have hc : ∀ t ≤ 31, (((state t).relay.relay.store.queue.relay).config queue).all
      (·.sender = ⟨senderKey⟩) := by
    decide +kernel
  intro t c h
  have hr : (state t).relay = (state (min t 31)).relay := by
    by_cases ht : t ≤ 31
    case pos => rw [min_eq_left ht]
    case neg =>
      obtain ⟨n, rfl⟩ := Nat.exists_eq_add_of_le' (Nat.le_of_not_le ht)
      rw [min_eq_right (Nat.le_add_left ..), relay_constant]
  have hs := hc (min t 31) (min_le_right ..)
  rw [←hr, show ((state t).relay.relay.store.queue.relay).config queue = some c from h] at hs
  exact of_decide_eq_true hs

theorem event₂₉ :
    run.history.event 29 = some (.fetch queue ⟨recipientKey⟩ 0, .ok (.fetch none)) := by
  decide +kernel

theorem inbox : (run.state 31).inbox = [(messageId 4, [4]), (messageId 5, [5])] := by
  decide +kernel

attribute [local instance] Toy.lawfulHpke in
-- Both messages are applied one after the other, and the last fetch comes after that.
theorem transfer_in_order :
    run.Honest ∧ run.Owned ∧ run.Accepted 4 (delivery 4) ∧ run.Accepted 5 (delivery 5) ∧
    (run.state 31).inbox = [(messageId 4, [4])] ++ (messageId 5, [5]) :: [] ∧
    ((∃ message ∈ [(messageId 4, ([4] : Bytes))], message.fst = messageId 4) ∨
      run.Expired 31 4 (delivery 4) ∨ run.Deleted 31 4) ∧
    run.history.event 29 = some (.fetch queue ⟨recipientKey⟩ 0, .ok (.fetch none)) ∧
    ((run.state 29).Committed (messageId 5) ∨ run.Expired 30 5 (delivery 5) ∨ run.Deleted 29 5) := by
  have ha := accepted_of_event event₄
  have ha' := accepted_of_event event₅
  obtain ⟨ho, _⟩ := run.in_order_delivery honest owned 31
  obtain ⟨_, hf⟩ := run.in_order_delivery honest owned 29
  refine ⟨honest, owned, ha, ha', inbox, ?_, event₂₉, ?_⟩
  · exact ho 4 (delivery 4) 5 (delivery 5) _ _ _ ha ha' (by decide) inbox
  · exact hf _ _ event₂₉ 5 (by decide) (delivery 5) ha'

end Cofferwire.Client.Transfer
