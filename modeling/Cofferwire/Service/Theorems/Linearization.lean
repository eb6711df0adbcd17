import Cofferwire.Library.Log
import Cofferwire.Service.Theorems.Exchange
import Cofferwire.Service.Theorems.Permits

namespace Cofferwire

open Codec (decodeRequest)
open Codec.Blob (decodeBlobRequest)
open DurableRelay (Store)
open Replay (Database)

-- A limiter which has just been started admits everything.
theorem RateLimiter.admits_new [Profile] [DecidableEq κ] {key : κ} {window : UInt64}
    {requests keys : Nat} (h : 0 < keys) :
    ((new window requests keys).admits key now).fst = some true := by
  simp [admits, new, Table.lookup, Nat.ne_of_gt h]

namespace RelayService

variable {service service' : RelayService} {relay : Database Store}

-- A call only depends on the database.
theorem submit_congr (h : service.relay = service'.relay) (call conflict fault) :
    (service.submit call conflict fault).fst = (service'.submit call conflict fault).fst ∧
    (service.submit call conflict fault).snd.relay =
      (service'.submit call conflict fault).snd.relay := by
  unfold submit
  rw [h]
  split
  case isTrue => exact ⟨rfl, h⟩
  case isFalse =>
    split
    case h_1 => exact ⟨rfl, h⟩
    case h_2 => split <;> exact ⟨rfl, rfl⟩

variable [Profile] [Ed25519]

-- What a frame gets from the screening apart from the rate limit does not depend on the service.
theorem screen_new (hr : ∀ e, (service.screen bytes now).fst ≠ .error (.error e)) :
    ((new relay).screen bytes now).fst = (service.screen bytes now).fst := by
  have hl (key) : ((new relay).queueRateLimiter.admits key now).fst = some true :=
    RateLimiter.admits_new (by decide)
  revert hr
  simp only [screen]
  cases decodeRequest bytes
  case error => exact fun _ => rfl
  case ok decoded =>
    dsimp only
    cases verifyRequest (requestPrincipal decoded.frame.request) decoded.authenticatedBytes
      decoded.frame.auth
    case error => exact fun _ => rfl
    case ok =>
      dsimp only
      rw [hl]
      generalize (service.queueRateLimiter.admits _ now).fst = verdict
      obtain _ | _ | _ := verdict
      case none       => exact fun hr => absurd rfl (hr _)
      case some.false => exact fun hr => absurd rfl (hr _)
      case some.true  =>
        intro _
        dsimp only
        split <;> rfl

theorem screenBlob_new (hr : ∀ e, (service.screenBlob bytes now).fst ≠ .error (.error e)) :
    ((new relay).screenBlob bytes now).fst = (service.screenBlob bytes now).fst := by
  have hl (key) : ((new relay).blobRateLimiter.admits key now).fst = some true :=
    RateLimiter.admits_new (by decide)
  revert hr
  simp only [screenBlob]
  cases decodeBlobRequest bytes
  case error => exact fun _ => rfl
  case ok decoded =>
    dsimp only
    cases verifyBlobRequest decoded.frame.request.capability decoded.authenticatedBytes
      decoded.frame.auth
    case error => exact fun _ => rfl
    case ok =>
      dsimp only
      rw [hl]
      generalize (service.blobRateLimiter.admits _ now).fst = verdict
      obtain _ | _ | _ := verdict
      case none       => exact fun hr => absurd rfl (hr _)
      case some.false => exact fun hr => absurd rfl (hr _)
      case some.true  => exact fun _ => rfl

-- The rate limit is the only reason not to answer a frame.
theorem screen_limit (h : (service.screen bytes now).fst = .error (.error e)) :
    ∃ key, (service.queueRateLimiter.admits key now).fst ≠ some true := by
  by_contra hn
  simp only [not_exists, not_not] at hn
  unfold screen at h
  split at h
  case h_1 => cases h
  case h_2 =>
    dsimp only at h
    split at h
    case h_1 => cases h
    case h_2 =>
      rw [hn] at h
      dsimp only at h
      split at h <;> cases h

theorem screenBlob_limit (h : (service.screenBlob bytes now).fst = .error (.error e)) :
    ∃ key, (service.blobRateLimiter.admits key now).fst ≠ some true := by
  by_contra hn
  simp only [not_exists, not_not] at hn
  unfold screenBlob at h
  split at h
  case h_1 => cases h
  case h_2 =>
    dsimp only at h
    split at h
    case h_1 => cases h
    case h_2 =>
      rw [hn] at h
      cases h

theorem screen_new_of_admissible (ha : Admissible bytes decoded) :
    ((new relay).screen bytes now).fst = .ok decoded := by
  have hs := screen_screened (new relay) bytes now
  generalize hr : ((new relay).screen bytes now).fst = result at hs
  cases hs
  case refuse hn  => exact absurd ha (hn _)
  case pass ha'   => cases ha.decode.symm.trans ha'.decode; rfl
  case limit      =>
    obtain ⟨key, hk⟩ := screen_limit hr
    exact absurd (RateLimiter.admits_new (by decide)) hk

theorem screenBlob_new_of_admissible (ha : AdmissibleBlob bytes decoded) :
    ((new relay).screenBlob bytes now).fst = .ok decoded := by
  have hs := screenBlob_screened (new relay) bytes now
  generalize hr : ((new relay).screenBlob bytes now).fst = result at hs
  cases hs
  case refuse hn  => exact absurd ha (hn _)
  case pass ha'   => cases ha.decode.symm.trans ha'.decode; rfl
  case limit      =>
    obtain ⟨key, hk⟩ := screenBlob_limit hr
    exact absurd (RateLimiter.admits_new (by decide)) hk

variable [Sha256]

-- An exchange with a service which has just been started.
theorem Calls.step_new (hc : Calls (Daemon.input ns bytes now fault) call conflict)
    (h : relay = service.relay) :
    (step (Daemon.input ns bytes now fault) (new relay)).fst =
      some (service.submit call conflict fault).fst ∧
    (step (Daemon.input ns bytes now fault) (new relay)).snd.relay =
      (service.submit call conflict fault).snd.relay := by
  cases ns <;> cases hc
  case queue.queue decoded ha =>
    have hs : ((new relay).screen bytes now).fst = .ok decoded := screen_new_of_admissible ha
    have hr := screen_relay (new relay) bytes now
    simp only [Daemon.input, step, exchangeAt]
    generalize (new relay).screen bytes now = result at hs hr
    obtain ⟨_, service'⟩ := result
    cases hs
    obtain ⟨ha, hd⟩ := submit_congr (hr.trans h) (queueCall bytes now decoded)
      (errorResponse decoded.frame.requestId decoded.frame.request.command .authReplay) fault
    exact ⟨congrArg some ha, hd⟩
  case blob.blob decoded ha =>
    have hs : ((new relay).screenBlob bytes now).fst = .ok decoded := screenBlob_new_of_admissible ha
    have hr := screenBlob_relay (new relay) bytes now
    simp only [Daemon.input, step, exchangeBlobAt]
    generalize (new relay).screenBlob bytes now = result at hs hr
    obtain ⟨_, service'⟩ := result
    cases hs
    obtain ⟨ha, hd⟩ := submit_congr (hr.trans h) (blobCall bytes now decoded)
      (blobErrorResponse decoded.frame.requestId decoded.frame.request.command .authReplay) fault
    exact ⟨congrArg some ha, hd⟩

end RelayService

namespace Daemon

open RelayService (Answers Calls Input)

variable [Profile] [Ed25519] [Sha256] {service : RelayService} {relay : Database Store}

theorem screen_relay (service : RelayService) (ns : Replay.Namespace) (bytes : Bytes)
    (now : Timestamp) : (screen service ns bytes now).snd.relay = service.relay := by
  cases ns
  case queue =>
    have hr := RelayService.screen_relay service bytes now
    simp only [screen]
    generalize service.screen bytes now = result at hr ⊢
    obtain ⟨_ | _, _⟩ := result <;> exact hr
  case blob =>
    have hr := RelayService.screenBlob_relay service bytes now
    simp only [screen]
    generalize service.screenBlob bytes now = result at hr ⊢
    obtain ⟨_ | _, _⟩ := result <;> exact hr

-- A frame passes if it is admissible.
theorem screen_cases (service : RelayService) (ns : Replay.Namespace) (bytes : Bytes)
    (now : Timestamp) :
    (∃ call conflict, (screen service ns bytes now).fst = .passed now call conflict ∧
      ∀ fault, Calls (input ns bytes now fault) call conflict) ∨
    ∃ answer, (screen service ns bytes now).fst = .finished answer := by
  cases ns
  case queue =>
    have hs := RelayService.screen_screened service bytes now
    simp only [screen]
    generalize service.screen bytes now = result at hs ⊢
    obtain ⟨_, _⟩ := result
    cases hs
    case pass ha => exact .inl ⟨_, _, rfl, fun _ => .queue ha⟩
    all_goals exact .inr ⟨_, rfl⟩
  case blob =>
    have hs := RelayService.screenBlob_screened service bytes now
    simp only [screen]
    generalize service.screenBlob bytes now = result at hs ⊢
    obtain ⟨_, _⟩ := result
    cases hs
    case pass ha => exact .inl ⟨_, _, rfl, fun _ => .blob ha⟩
    all_goals exact .inr ⟨_, rfl⟩

-- A frame which is refused because of its content is refused by all services.
theorem step_new_of_refused (h : (screen service ns bytes now).fst = .finished (.ok response)) :
    (RelayService.step (input ns bytes now fault) (.new relay)).fst = some (.ok response) ∧
    (RelayService.step (input ns bytes now fault) (.new relay)).snd.relay = relay := by
  cases ns
  case queue =>
    have hs := RelayService.screen_relay (.new relay) bytes now
    have hf : (service.screen bytes now).fst = .error (.ok response) := by
      simp only [screen] at h
      generalize service.screen bytes now = result at h ⊢
      obtain ⟨_ | _, _⟩ := result <;> cases h
      rfl
    have hn : ((RelayService.new relay).screen bytes now).fst = .error (.ok response) :=
      (RelayService.screen_new fun e he => by cases hf.symm.trans he).trans hf
    simp only [input, RelayService.step, RelayService.exchangeAt]
    generalize (RelayService.new relay).screen bytes now = result at hs hn ⊢
    obtain ⟨_, _⟩ := result
    cases hn
    exact ⟨rfl, hs⟩
  case blob =>
    have hs := RelayService.screenBlob_relay (.new relay) bytes now
    have hf : (service.screenBlob bytes now).fst = .error (.ok response) := by
      simp only [screen] at h
      generalize service.screenBlob bytes now = result at h ⊢
      obtain ⟨_ | _, _⟩ := result <;> cases h
      rfl
    have hn : ((RelayService.new relay).screenBlob bytes now).fst = .error (.ok response) :=
      (RelayService.screenBlob_new fun e he => by cases hf.symm.trans he).trans hf
    simp only [input, RelayService.step, RelayService.exchangeBlobAt]
    generalize (RelayService.new relay).screenBlob bytes now = result at hs hn ⊢
    obtain ⟨_, _⟩ := result
    cases hn
    exact ⟨rfl, hs⟩

-- The call of an exchange which has passed is that of its frame.
def Exchange.Proper (exchange : Exchange) : Prop :=
  ∀ now call conflict fault, exchange.phase = .passed now call conflict →
    Calls (input exchange.ns exchange.bytes now fault) call conflict

-- The time which an unfinished exchange has read.
def Phase.now : Phase → Option Timestamp
  | .clocked now | .passed now _ _ => some now
  | .spawned | .finished _         => none

-- An exchange which ends with a response has emitted its frame with the time which it has read.
inductive Exchange.Emitted (exchange : Exchange) (relay : Database Store) (response : Bytes) :
    List Input → Prop
  | mk (hn : exchange.phase.now = some now)
    (h : (RelayService.step (input exchange.ns exchange.bytes now fault) (.new relay)).fst =
      some (.ok response)) :
    Emitted exchange relay response [.restart, input exchange.ns exchange.bytes now fault]

-- What the sequential service does in a step of an exchange.
structure Exchange.Follows (exchange : Exchange) (service : RelayService) (phase : Phase)
    (service' : RelayService) (emitted : List Input) : Prop where
  proper  : { exchange with phase }.Proper
  relay   : ∀ t : RelayService, t.relay = service.relay →
    (RelayService.machine.run t emitted).relay = service'.relay
  emitted : ∀ response, phase = .finished (.ok response) →
    exchange.Emitted service.relay response emitted

theorem screen_follows (service : RelayService) (ns : Replay.Namespace) (bytes : Bytes)
    (now : Timestamp) : Exchange.Follows ⟨ns, bytes, .clocked now⟩ service
      (screen service ns bytes now).fst (screen service ns bytes now).snd
      (Exchange.emits ⟨ns, bytes, .clocked now⟩ service .screen) := by
  have hr := screen_relay service ns bytes now
  obtain ⟨call, conflict, hp, hc⟩ | ⟨_ | response, hp⟩ := screen_cases service ns bytes now
  all_goals simp only [Exchange.emits, hp]
  case inl =>
    constructor
    case proper  => rintro _ _ _ fault ⟨⟩; exact hc fault
    case relay   => exact fun t ht => ht.trans hr.symm
    case emitted => rintro _ ⟨⟩
  case inr.error =>
    constructor
    case proper  => rintro _ _ _ _ ⟨⟩
    case relay   => exact fun t ht => ht.trans hr.symm
    case emitted => rintro _ ⟨⟩
  case inr.ok =>
    constructor
    case proper  => rintro _ _ _ _ ⟨⟩
    case relay   => exact fun t ht => (step_new_of_refused hp).right.trans (ht.trans hr.symm)
    case emitted => rintro _ ⟨⟩; exact .mk rfl (step_new_of_refused hp).left

theorem advance_follows {exchange : Exchange} {service service' : RelayService} (hp : exchange.Proper)
    (ha : exchange.advance service action = some (phase, service')) :
    exchange.Follows service phase service' (exchange.emits service action) := by
  obtain ⟨ns, bytes, phase'⟩ := exchange
  cases action
  case clock now =>
    simp only [Exchange.advance] at ha
    split at ha <;> cases ha
    constructor
    case proper  => rintro _ _ _ _ ⟨⟩
    case relay   => exact fun t ht => ht
    case emitted => rintro _ ⟨⟩
  case screen =>
    simp only [Exchange.advance] at ha
    split at ha
    case h_2 => cases ha
    case h_1 _ now =>
      have hs := screen_follows service ns bytes now
      rw [Option.some.inj ha] at hs
      exact hs
  case submit fault =>
    simp only [Exchange.advance] at ha
    split at ha
    case h_2 => cases ha
    case h_1 _ now call conflict =>
      cases ha
      have hc := hp now call conflict fault rfl
      constructor
      case proper  => rintro _ _ _ _ ⟨⟩
      case relay   => exact fun t ht => (hc.step_new ht).right
      case emitted =>
        rintro response hf
        exact .mk rfl ((hc.step_new rfl).left.trans (congrArg some (Phase.finished.inj hf)))

-- An exchange emits its frame when it ends, unless it is refused by the rate limiter.
theorem Exchange.emits_cases (exchange : Exchange) (service : RelayService) (action : Action) :
    exchange.emits service action = [] ∨
    ∃ now fault, exchange.phase.now = some now ∧
      exchange.emits service action = [.restart, input exchange.ns exchange.bytes now fault] ∧
      ∃ answer service', exchange.advance service action = some (.finished answer, service') := by
  obtain ⟨ns, bytes, phase⟩ := exchange
  cases action
  case clock => exact .inl rfl
  case screen =>
    cases phase
    case clocked now =>
      simp only [emits, advance]
      split
      case h_2 => exact .inl rfl
      case h_1 response hs =>
        exact .inr ⟨now, false, rfl, rfl, .ok response, _, congrArg some (Prod.ext hs rfl)⟩
    all_goals exact .inl rfl
  case submit fault =>
    cases phase
    case passed now call conflict => exact .inr ⟨now, fault, rfl, rfl, _, _, rfl⟩
    all_goals exact .inl rfl

-- An exchange reads the clock only once.
theorem Exchange.now_of_advance {exchange : Exchange} {service service' : RelayService} {p : Phase}
    (ha : exchange.advance service action = some (p, service')) (hn : p.now = some now) :
    exchange.phase = .spawned ∧ action = .clock now ∨ exchange.phase.now = some now := by
  obtain ⟨ns, bytes, phase⟩ := exchange
  cases action
  case clock =>
    cases phase <;> cases ha
    cases hn
    exact .inl ⟨rfl, rfl⟩
  case submit =>
    cases phase <;> cases ha
    cases hn
  case screen =>
    cases phase
    case clocked t =>
      have he : (screen service ns bytes t).fst = p := congrArg Prod.fst (Option.some.inj ha)
      obtain ⟨call, conflict, hp, _⟩ | ⟨answer, hp⟩ := screen_cases service ns bytes t
      all_goals
        rw [←he, hp] at hn
        cases hn
      exact .inr rfl
    all_goals cases ha

theorem emits_of_advance_eq_none {exchange : Exchange} {service : RelayService}
    (h : exchange.advance service action = none) : exchange.emits service action = [] := by
  cases action <;> simp only [Exchange.advance, Exchange.emits] at h ⊢
  case screen => split at h <;> simp_all
  case submit => split at h <;> simp_all

-- All that an event can do to the service and the tasks, together with what the sequential service
-- receives and which response is given.
inductive Change (daemon : Daemon) (event : Event) :
    List Input → Option (Nat × Bytes) → RelayService → List Task → Prop
  | keep : Change daemon event [] none daemon.service daemon.tasks
  | request : Change daemon event [] none daemon.service
    (daemon.tasks ++ [.request ⟨ns, bytes, .spawned⟩])
  | session : Change daemon event [] none daemon.service (daemon.tasks ++ [.session c ns none])
  | take (ht : daemon.tasks[i]? = some (.session c ns none)) :
    Change daemon event [] none daemon.service
      (daemon.tasks.set i (.session c ns (some ⟨ns, bytes, .spawned⟩)))
  | finish (ht : daemon.tasks[i]? = some task) :
    Change daemon event [] none daemon.service (daemon.tasks.set i .ended)
  | detach (ht : daemon.tasks[i]? = some (.request exchange)) :
    Change daemon event [] none daemon.service (daemon.tasks.set i (.detached exchange))
  | respond (ht : daemon.tasks[i]? = some (.request ⟨ns, bytes, .finished (.ok response)⟩)) :
    Change daemon event [] (some (i, response)) daemon.service (daemon.tasks.set i .ended)
  | send (ht : daemon.tasks[i]? = some (.session c ns (some ⟨ns', bytes, .finished (.ok response)⟩))) :
    Change daemon event [] (some (i, response)) daemon.service
      (daemon.tasks.set i (.session c ns none))
  | advance (he : event = .proceed i action) (ht : daemon.tasks[i]? = some task)
    (hx : task.exchange = some exchange)
    (ha : exchange.advance daemon.service action = some (phase, service')) :
    Change daemon event (exchange.emits daemon.service action) none service'
      (daemon.tasks.set i (task.enter phase))
  | restart : Change daemon event [.restart] none (.new daemon.service.relay)
    (daemon.tasks.map fun _ => .ended)

section Step

variable {daemon : Daemon}

theorem endSession_change (ht : daemon.tasks[i]? = some task) :
    Change daemon event [] none (daemon.endSession i c).service (daemon.endSession i c).tasks := by
  have hs : (daemon.endSession i c).service = daemon.service := dropReference_service ..
  have hts : (daemon.endSession i c).tasks = daemon.tasks.set i .ended := dropReference_tasks ..
  rw [hs, hts]
  exact .finish ht

theorem receive_change : Change daemon event [] none (daemon.receive i message).service
    (daemon.receive i message).tasks := by
  unfold receive
  split
  case h_2 => exact .keep
  case h_1 c ns ht =>
    have he : Change daemon event [] none _ (daemon.endSession i c).tasks := endSession_change ht
    cases message
    case binary bytes =>
      dsimp only
      split
      case isTrue => exact he
      case isFalse =>
        split
        case h_1 => exact he
        case h_2 hs =>
          obtain ⟨commands, _, rfl, rfl⟩ := spawn_eq_some hs
          exact .take ht
    case text    => exact he
    case close   => exact he
    case failure => exact he
    case ping    => exact .keep
    case pong    => exact .keep

theorem deliver_change : Change daemon event []
    (delivered (.deliver i sent) (daemon.deliver i sent).fst) (daemon.deliver i sent).snd.service
    (daemon.deliver i sent).snd.tasks := by
  unfold deliver
  split
  case h_3 => exact .keep
  case h_1 ns bytes answer ht =>
    cases answer
    case error => exact .finish ht
    case ok    => exact .respond ht
  case h_2 c ns ns' bytes answer ht =>
    cases answer
    case error => exact endSession_change ht
    case ok response =>
      dsimp only
      split
      case isTrue  => exact .send ht
      case isFalse => exact endSession_change ht

theorem proceed_change : Change daemon (.proceed i action) (emits (.proceed i action) daemon) none
    (daemon.proceed i action).service (daemon.proceed i action).tasks := by
  simp only [proceed, emits, exchangeAt]
  cases ht : daemon.tasks[i]?
  case none => exact .keep
  case some task =>
    simp only [Option.bind]
    cases hx : task.exchange
    case none => exact .keep
    case some exchange =>
      dsimp only
      cases ha : exchange.advance daemon.service action
      case none =>
        rw [emits_of_advance_eq_none ha]
        exact .keep
      case some result =>
        obtain ⟨phase, service⟩ := result
        have hs : (daemon.enter i task service phase).service = service := by
          unfold enter
          split <;> rfl
        have hts : (daemon.enter i task service phase).tasks =
            daemon.tasks.set i (task.enter phase) := by
          unfold enter
          split <;> rfl
        dsimp only
        rw [hs, hts]
        exact .advance rfl ht hx ha

theorem step_change (daemon : Daemon) (event : Event) :
    Change daemon event (emits event daemon) (delivered event (step event daemon).fst)
      (step event daemon).snd.service (step event daemon).snd.tasks := by
  cases event
  case receive => exact receive_change
  case deliver => exact deliver_change
  case proceed => exact proceed_change
  case restart => exact .restart
  case accept  =>
    simp only [step, accept]
    split <;> exact .keep
  case drop c  =>
    simp only [step, drop]
    split
    case h_2 => exact .keep
    case h_1 =>
      unfold dropReference
      split <;> exact .keep
  case cancel i =>
    simp only [step, cancel]
    split
    case h_2 => exact .keep
    case h_1 ht =>
      dsimp only
      split
      case isTrue  => exact .detach ht
      case isFalse => exact .finish ht
  case post =>
    simp only [step, postFrame]
    split
    case isFalse => exact .keep
    case isTrue =>
      split
      case isTrue => exact .keep
      case isFalse =>
        split
        case isTrue => exact .keep
        case isFalse =>
          split
          case h_1 => exact .keep
          case h_2 hs =>
            obtain ⟨commands, _, rfl, rfl⟩ := spawn_eq_some hs
            exact .request
  case upgrade =>
    simp only [step, upgradeWebsocket]
    split
    case isFalse => exact .keep
    case isTrue =>
      split
      case h_1 => exact .keep
      case h_2 =>
        unfold addReference
        split <;> exact .session

end Step

-- The phases of all exchanges are those of their frames.
def Proper (daemon : Daemon) : Prop :=
  ∀ task ∈ daemon.tasks, ∀ exchange ∈ task.exchange, exchange.Proper

theorem Change.proper {daemon : Daemon} (h : Change daemon event emitted response service' tasks')
    (hp : daemon.Proper) : ∀ task ∈ tasks', ∀ exchange ∈ task.exchange, exchange.Proper := by
  have hs {ns bytes} : Exchange.Proper ⟨ns, bytes, .spawned⟩ := by rintro _ _ _ _ ⟨⟩
  have ha {task'} (ht : ∀ exchange ∈ task'.exchange, exchange.Proper) :
      ∀ task ∈ daemon.tasks ++ [task'], ∀ exchange ∈ task.exchange, exchange.Proper := by
    intro task hm
    rcases List.mem_append.mp hm with hm | hm
    · exact hp task hm
    · exact List.mem_singleton.mp hm ▸ ht
  have hu {i task'} (ht : ∀ exchange ∈ task'.exchange, exchange.Proper) :
      ∀ task ∈ daemon.tasks.set i task', ∀ exchange ∈ task.exchange, exchange.Proper := by
    intro task hm
    rcases List.mem_or_eq_of_mem_set hm with hm | rfl
    · exact hp task hm
    · exact ht
  cases h
  case keep     => exact hp
  case request  => exact ha (by rintro _ ⟨⟩; exact hs)
  case session  => exact ha (by rintro _ ⟨⟩)
  case take     => exact hu (by rintro _ ⟨⟩; exact hs)
  case finish   => exact hu (by rintro _ ⟨⟩)
  case detach ht => exact hu fun exchange => hp (.request _) (List.mem_of_getElem? ht) exchange
  case respond  => exact hu (by rintro _ ⟨⟩)
  case send     => exact hu (by rintro _ ⟨⟩)
  case restart  =>
    intro task hm
    obtain ⟨_, _, rfl⟩ := List.mem_map.mp hm
    rintro _ ⟨⟩
  case advance ht hx hx' =>
    refine hu fun exchange' he => ?_
    have hf := advance_follows (hp _ (List.mem_of_getElem? ht) _ hx) hx'
    obtain h | h := Task.enter_exchange _ _ hx
    · cases he.symm.trans h
      exact hf.proper
    · rw [h] at he
      cases he

theorem Change.run_relay {daemon : Daemon} (h : Change daemon event emitted response service' tasks')
    (hp : daemon.Proper) {t : RelayService} (ht : t.relay = daemon.service.relay) :
    (RelayService.machine.run t emitted).relay = service'.relay := by
  cases h
  case advance ht' hx ha =>
    exact (advance_follows (hp _ (List.mem_of_getElem? ht') _ hx) ha).relay t ht
  all_goals exact ht

section Run

variable (events : Nat → Event) (inputs : Nat → Input)

-- The number of inputs which the sequential service has received before the `n`-th event.
def received (n : Nat) : Nat :=
  (machine.log emits events n).length

-- The task has not been busy with anything but a frame since it took the frame.
def Current (i : Nat) (frame : Frame) (n : Nat) : Prop :=
  ∀ k, frame.time < k → k ≤ n →
    ∃ phase, (machine.state events k).exchangeAt i = some ⟨frame.ns, frame.bytes, phase⟩

-- The clock was read for the exchange of a frame before the `n`-th event.
def Clocked (i : Nat) (frame : Frame) (now : Timestamp) (n : Nat) : Prop :=
  ∃ c, frame.time < c ∧ c < n ∧ events c = .proceed i (.clock now) ∧
    (machine.state events c).exchangeAt i = some ⟨frame.ns, frame.bytes, .spawned⟩

-- At the `n`-th event, the sequential service is restarted, which empties its rate limiters, and then
-- receives a frame of the task at the time which was read for it.
structure Executes (i : Nat) (frame : Frame) (n : Nat) (now : Timestamp) (fault : Bool) : Prop where
  current   : Current events i frame n
  clocked   : Clocked events i frame now n
  event     : ∃ action, events n = .proceed i action
  emitted   : received events (n + 1) = received events n + 2
  restarted : inputs (received events n) = .restart
  executed  : inputs (received events n + 1) = input frame.ns frame.bytes now fault

-- A response to a frame is the answer of the sequential service when it executes the frame.
def Linearized (i : Nat) (frame : Frame) (response : Response) : Prop :=
  ∃ n now fault, n < response.time ∧ Executes events inputs i frame n now fault ∧
    Answers inputs (received events n + 1) frame.ns frame.bytes now response.bytes

-- The inputs are those which the daemon emits.
def Emitted : Prop :=
  ∀ k n, ∀ i ∈ (machine.log emits events n)[k]?, inputs k = i

variable {events inputs}

theorem machine_change (events : Nat → Event) (n : Nat) :
    Change (machine.state events n) (events n) (emits (events n) (machine.state events n))
      (delivered (events n) (machine.output events n)) (machine.state events (n + 1)).service
      (machine.state events (n + 1)).tasks :=
  step_change ..

theorem run_log (events : Nat → Event) (n : Nat) :
    (RelayService.machine.run RelayService.machine.init (machine.log emits events n)).relay =
      (machine.state events n).service.relay ∧ (machine.state events n).Proper := by
  let R (daemon : Daemon) (t : RelayService) := t.relay = daemon.service.relay ∧ daemon.Proper
  have hi : R machine.init RelayService.machine.init := ⟨rfl, by simp [Proper, machine, new]⟩
  refine Machine.log_simulation (R := R) hi (fun event daemon t h => ?_) n
  obtain ⟨hr, hp⟩ := h
  have hc := step_change daemon event
  exact ⟨hc.run_relay hp hr, hc.proper hp⟩

theorem Emitted.relay_eq (he : Emitted events inputs) (n : Nat) :
    (RelayService.machine.state inputs (received events n)).relay =
      (machine.state events n).service.relay := by
  have hs : RelayService.machine.state inputs (0 + received events n) = _ :=
    Machine.state_add fun k i hi => (Nat.zero_add k).symm ▸ he k n i hi
  rw [Nat.zero_add] at hs
  rw [hs]
  exact (run_log events n).left

theorem Emitted.eq (he : Emitted events inputs)
    (hi : i ∈ (emits (events n) (machine.state events n))[k]?) :
    inputs (received events n + k) = i := by
  refine he _ (n + 1) i ?_
  rw [Machine.log, received, List.getElem?_append_right (Nat.le_add_right ..), Nat.add_sub_cancel_left]
  exact hi

theorem received_succ :
    received events (n + 1) = received events n + (emits (events n) (machine.state events n)).length :=
  List.length_append

-- A frame which is emitted is executed.
theorem Emitted.executes (he : Emitted events inputs) (hv : events n = .proceed i action)
    (hc : Current events i frame n) (hk : Clocked events i frame now n)
    (hl : emits (events n) (machine.state events n) =
      [.restart, input frame.ns frame.bytes now fault]) :
    Executes events inputs i frame n now fault where
  current   := hc
  clocked   := hk
  event     := ⟨action, hv⟩
  emitted   := by rw [received_succ, hl]; rfl
  restarted := he.eq (k := 0) (by rw [hl]; rfl)
  executed  := he.eq (by rw [hl]; rfl)

-- The answer of the sequential service to a frame only depends on the database.
theorem Executes.answers (h : Executes events inputs i frame n now fault) (he : Emitted events inputs)
    (ho : (RelayService.step (input frame.ns frame.bytes now fault)
      (.new (machine.state events n).service.relay)).fst = some (.ok response)) :
    Answers inputs (received events n + 1) frame.ns frame.bytes now response where
  input  := by
    rw [h.executed]
    cases frame.ns <;> rfl
  output := by
    simp only [Machine.output, Machine.state, h.restarted, h.executed]
    rw [←he.relay_eq] at ho
    exact ho

-- What is known about an exchange for a frame.
structure Busy (events : Nat → Event) (inputs : Nat → Input) (i n : Nat) (frame : Frame)
    (phase : Phase) : Prop where
  current    : Current events i frame n
  taken      : frame.time < n
  responses  : ∀ response ∈ responses events i n, response.time < frame.time
  clocked    : ∀ now, phase.now = some now → Clocked events i frame now n
  linearized : ∀ response, phase = .finished (.ok response) →
    Linearized events inputs i frame ⟨n, response⟩

-- How far the dialogue of a task has come.
inductive Awaits (events : Nat → Event) (inputs : Nat → Input) (i n : Nat) :
    List Frame → Option Task → Prop
  | idle (h : task.bind Task.exchange = none) : Awaits events inputs i n [] task
  | lost (h : pending.length ≤ 1) : Awaits events inputs i n pending (some .ended)
  | busy (hx : task.exchange = some ⟨frame.ns, frame.bytes, phase⟩)
    (h : Busy events inputs i n frame phase) : Awaits events inputs i n [frame] (some task)

theorem Awaits.length_le (h : Awaits events inputs i n pending task) : pending.length ≤ 1 := by
  cases h
  case idle   => exact Nat.zero_le _
  case lost h => exact h
  case busy   => exact Nat.le_refl _

-- What is new at an event.
section Succ

theorem frames_succ_of_kept (h : (machine.state events n).exchangeAt i ≠ none ∨
    (machine.state events (n + 1)).exchangeAt i = none) :
    frames events i (n + 1) = frames events i n := by
  rw [frames]
  split
  case h_2 => rfl
  case h_1 hb ha =>
    rcases h with h | h
    · exact absurd hb h
    · cases h.symm.trans ha

theorem frames_succ_of_taken (hb : (machine.state events n).exchangeAt i = none)
    (ha : (machine.state events (n + 1)).exchangeAt i = some exchange) :
    frames events i (n + 1) = frames events i n ++ [⟨n, exchange.ns, exchange.bytes⟩] := by
  rw [frames, hb, ha]

theorem responses_succ_of_other
    (h : ∀ body, delivered (events n) (machine.output events n) ≠ some (i, body)) :
    responses events i (n + 1) = responses events i n := by
  rw [responses]
  split
  case h_2 => rfl
  case h_1 j body hd =>
    refine if_neg fun hj => ?_
    exact h body (hj ▸ hd)

theorem responses_succ_of_delivered
    (h : delivered (events n) (machine.output events n) = some (i, body)) :
    responses events i (n + 1) = responses events i n ++ [⟨n, body⟩] := by
  simp [responses, h]

end Succ

theorem Current.succ (h : Current events i frame n)
    (hx : (machine.state events (n + 1)).exchangeAt i = some ⟨frame.ns, frame.bytes, phase⟩) :
    Current events i frame (n + 1) := by
  intro k hl hk
  rcases Nat.le_succ_iff.mp hk with hk | rfl
  · exact h k hl hk
  · exact ⟨phase, hx⟩

theorem Clocked.succ (h : Clocked events i frame now n) : Clocked events i frame now (n + 1) := by
  obtain ⟨c, hl, hc, h⟩ := h
  exact ⟨c, hl, Nat.lt_succ_of_lt hc, h⟩

theorem Busy.succ (h : Busy events inputs i n frame phase)
    (hx : (machine.state events (n + 1)).exchangeAt i = some ⟨frame.ns, frame.bytes, phase⟩)
    (hr : Daemon.responses events i (n + 1) = Daemon.responses events i n) :
    Busy events inputs i (n + 1) frame phase where
  current              := h.current.succ hx
  taken                := Nat.lt_succ_of_lt h.taken
  responses            := hr ▸ h.responses
  clocked now hn       := (h.clocked now hn).succ
  linearized response hf := by
    obtain ⟨m, now, fault, hm, hx⟩ := h.linearized response hf
    exact ⟨m, now, fault, Nat.lt_succ_of_lt hm, hx⟩

-- The exchange has moved on.
theorem Busy.advance (h : Busy events inputs i n frame phase) (he : Emitted events inputs)
    (hv : events n = .proceed i action)
    (hx : (machine.state events n).exchangeAt i = some ⟨frame.ns, frame.bytes, phase⟩)
    (hf : Exchange.Follows ⟨frame.ns, frame.bytes, phase⟩ (machine.state events n).service phase'
      service' (Exchange.emits ⟨frame.ns, frame.bytes, phase⟩ (machine.state events n).service action))
    (ha : Exchange.advance ⟨frame.ns, frame.bytes, phase⟩ (machine.state events n).service action =
      some (phase', service'))
    (hx' : (machine.state events (n + 1)).exchangeAt i = some ⟨frame.ns, frame.bytes, phase'⟩)
    (hr : Daemon.responses events i (n + 1) = Daemon.responses events i n) :
    Busy events inputs i (n + 1) frame phase' where
  current   := h.current.succ hx'
  taken     := Nat.lt_succ_of_lt h.taken
  responses := hr ▸ h.responses
  clocked now hn := by
    obtain ⟨rfl, rfl⟩ | hp := Exchange.now_of_advance ha hn
    · exact ⟨n, h.taken, Nat.lt_succ_self n, hv, hx⟩
    · exact (h.clocked now hp).succ
  linearized response hp := by
    have hm : emits (events n) (machine.state events n) = Exchange.emits
        ⟨frame.ns, frame.bytes, phase⟩ (machine.state events n).service action := by
      simp only [hv, emits, hx]
    have hs := hf.emitted response hp
    rw [←hm] at hs
    generalize hl : emits (events n) (machine.state events n) = emitted at hs
    cases hs
    case mk now fault hn ho =>
      have hx := he.executes hv h.current (h.clocked now hn) hl
      exact ⟨n, now, fault, Nat.lt_succ_self n, hx, hx.answers he ho⟩

theorem Awaits.succ (h : Awaits events inputs i n pending task)
    (hx : (machine.state events (n + 1)).exchangeAt i = task.bind Task.exchange)
    (hr : responses events i (n + 1) = responses events i n) :
    Awaits events inputs i (n + 1) pending task := by
  cases h
  case idle h    => exact .idle h
  case lost h    => exact .lost h
  case busy he h => exact .busy he (h.succ (hx.trans he) hr)

-- The dialogue of a task before the `n`-th event.
structure Converses (events : Nat → Event) (inputs : Nat → Input) (i n : Nat) (task : Option Task) :
    Prop where
  dialogue : ∃ answered pending, frames events i n = answered ++ pending ∧
    Dialogue (Linearized events inputs i) answered (responses events i n) ∧
    Awaits events inputs i n pending task
  earlier  : ∀ response ∈ responses events i n, response.time < n

namespace Converses

-- The task has neither taken a frame nor responded.
theorem quiet (hc : Converses events inputs i n task)
    (hf : frames events i (n + 1) = frames events i n)
    (hr : responses events i (n + 1) = responses events i n)
    (ha : ∀ pending, Awaits events inputs i n pending task →
      Awaits events inputs i (n + 1) pending task') :
    Converses events inputs i (n + 1) task' where
  dialogue := by
    obtain ⟨answered, pending, hd, hl, ht⟩ := hc.dialogue
    exact ⟨answered, pending, hf.trans hd, hr ▸ hl, ha pending ht⟩
  earlier response hm := Nat.lt_succ_of_lt (hc.earlier response (hr ▸ hm))

-- The task has taken a frame.
theorem take (hc : Converses events inputs i n (machine.state events n).tasks[i]?)
    (hb : (machine.state events n).exchangeAt i = none)
    (hn : (machine.state events n).tasks[i]? ≠ some .ended)
    (ht : (machine.state events (n + 1)).tasks[i]? = some task)
    (hx : task.exchange = some ⟨ns, bytes, .spawned⟩)
    (hr : ∀ body, delivered (events n) (machine.output events n) ≠ some (i, body)) :
    Converses events inputs i (n + 1) (some task) where
  dialogue := by
    obtain ⟨answered, pending, hd, hl, ha⟩ := hc.dialogue
    have hf : frames events i (n + 1) = frames events i n ++ [⟨n, ns, bytes⟩] :=
      frames_succ_of_taken hb (by rw [exchangeAt, ht]; exact hx)
    have hr := responses_succ_of_other hr
    simp only [exchangeAt] at hb
    generalize (machine.state events n).tasks[i]? = task₀ at hb hn ha
    cases ha
    case lost       => exact absurd rfl hn
    case busy hx' _ => cases hx'.symm.trans hb
    case idle =>
      refine ⟨answered, [⟨n, ns, bytes⟩], by rw [hf, hd, List.append_nil], hr ▸ hl, ?_⟩
      refine .busy hx ⟨fun k hk hk' => ?_, Nat.lt_succ_self n, hr ▸ hc.earlier, ?_, ?_⟩
      · obtain rfl : k = n + 1 := Nat.le_antisymm hk' hk
        exact ⟨.spawned, by rw [exchangeAt, ht]; exact hx⟩
      · rintro now ⟨⟩
      · rintro response ⟨⟩
  earlier response hm :=
    Nat.lt_succ_of_lt (hc.earlier response (responses_succ_of_other hr ▸ hm))

-- The task has given a response.
theorem respond (hc : Converses events inputs i n (machine.state events n).tasks[i]?)
    (ht : (machine.state events n).tasks[i]? = some task)
    (hx : task.exchange = some ⟨ns, bytes, .finished (.ok response)⟩)
    (ht' : (machine.state events (n + 1)).tasks[i]? = some task') (hn : task'.exchange = none)
    (hr : delivered (events n) (machine.output events n) = some (i, response)) :
    Converses events inputs i (n + 1) (some task') where
  dialogue := by
    obtain ⟨answered, pending, hd, hl, ha⟩ := hc.dialogue
    have hf : frames events i (n + 1) = frames events i n :=
      frames_succ_of_kept (.inr (by rw [exchangeAt, ht']; exact hn))
    rw [ht] at ha
    cases ha
    case lost => cases hx
    case idle h => cases hx.symm.trans h
    case busy hb hx' =>
      cases hx.symm.trans hx'
      have he := Dialogue.exchange hl (hb.linearized response rfl) hb.responses
      refine ⟨_, [], by rw [hf, hd, List.append_nil], ?_, .idle hn⟩
      exact responses_succ_of_delivered hr ▸ he
  earlier response hm := by
    rw [responses_succ_of_delivered hr] at hm
    rcases List.mem_append.mp hm with hm | hm
    · exact Nat.lt_succ_of_lt (hc.earlier response hm)
    · cases List.mem_singleton.mp hm
      exact Nat.lt_succ_self n

-- Nothing has happened to the task.
theorem keep (hc : Converses events inputs i n (machine.state events n).tasks[i]?)
    (ht : (machine.state events (n + 1)).tasks[i]? = (machine.state events n).tasks[i]?)
    (hr : ∀ body, delivered (events n) (machine.output events n) ≠ some (i, body)) :
    Converses events inputs i (n + 1) (machine.state events (n + 1)).tasks[i]? := by
  have hr := responses_succ_of_other hr
  have hf : frames events i (n + 1) = frames events i n := by
    refine frames_succ_of_kept ?_
    simp only [exchangeAt, ht]
    exact (em _).symm
  exact hc.quiet hf hr fun _ ha => ht ▸ ha.succ (congrArg (·.bind Task.exchange) ht) hr

-- The task has ended without a response.
theorem finish (hc : Converses events inputs i n (machine.state events n).tasks[i]?)
    (ht : (machine.state events (n + 1)).tasks[i]? = some .ended)
    (hr : ∀ body, delivered (events n) (machine.output events n) ≠ some (i, body)) :
    Converses events inputs i (n + 1) (some .ended) := by
  refine hc.quiet (frames_succ_of_kept (.inr ?_)) (responses_succ_of_other hr) fun _ ha =>
    .lost ha.length_le
  simp [exchangeAt, ht, Task.exchange]

-- The exchange of the task has moved on.
theorem advance (he : Emitted events inputs)
    (hc : Converses events inputs i n (machine.state events n).tasks[i]?)
    (hv : events n = .proceed i action) (ht : (machine.state events n).tasks[i]? = some task)
    (hx : task.exchange = some exchange)
    (ha : exchange.advance (machine.state events n).service action = some (phase, service'))
    (ht' : (machine.state events (n + 1)).tasks[i]? = some (task.enter phase))
    (hr : ∀ body, delivered (events n) (machine.output events n) ≠ some (i, body)) :
    Converses events inputs i (n + 1) (some (task.enter phase)) := by
  obtain hx' | hx' := task.enter_exchange phase hx
  case inr => exact hx' ▸ hc.finish (hx' ▸ ht') hr
  case inl =>
    have hr := responses_succ_of_other hr
    have hp := (run_log events n).right task (List.mem_of_getElem? ht) exchange hx
    have hf := advance_follows hp ha
    refine hc.quiet (frames_succ_of_kept (.inl ?_)) hr fun pending hw => ?_
    · simp [exchangeAt, ht, hx]
    · rw [ht] at hw
      cases hw
      case idle h => cases hx.symm.trans h
      case lost   => cases hx
      case busy frame phase₀ hb hx'' =>
        cases hx.symm.trans hx''
        have hb' := hb.advance he hv (by rw [exchangeAt, ht]; exact hx) hf ha
          (by rw [exchangeAt, ht']; exact hx') hr
        exact .busy hx' hb'

-- Another task has been created.
theorem append (hc : Converses events inputs i n (machine.state events n).tasks[i]?)
    (ht : (machine.state events (n + 1)).tasks = (machine.state events n).tasks ++ [task])
    (hi : i ≠ (machine.state events n).tasks.length)
    (hr : ∀ body, delivered (events n) (machine.output events n) ≠ some (i, body)) :
    Converses events inputs i (n + 1) (machine.state events (n + 1)).tasks[i]? := by
  refine hc.keep ?_ hr
  rw [ht]
  rcases Nat.lt_or_gt_of_ne hi with hi | hi
  · exact List.getElem?_append_left hi
  · rw [List.getElem?_eq_none (Nat.le_of_lt hi), List.getElem?_eq_none]
    simpa using Nat.succ_le_of_lt hi

-- Another task has changed.
theorem set (hc : Converses events inputs i n (machine.state events n).tasks[i]?)
    (ht : (machine.state events (n + 1)).tasks = (machine.state events n).tasks.set j task)
    (hi : j ≠ i) (hr : ∀ body, delivered (events n) (machine.output events n) ≠ some (i, body)) :
    Converses events inputs i (n + 1) (machine.state events (n + 1)).tasks[i]? := by
  refine hc.keep ?_ hr
  rw [ht]
  exact List.getElem?_set_ne hi

theorem succ (he : Emitted events inputs)
    (hc : Converses events inputs i n (machine.state events n).tasks[i]?) :
    Converses events inputs i (n + 1) (machine.state events (n + 1)).tasks[i]? := by
  have hch := machine_change events n
  generalize hd : delivered (events n) (machine.output events n) = response at hch
  generalize hs : (machine.state events (n + 1)).service = service' at hch
  generalize ht : (machine.state events (n + 1)).tasks = tasks' at hch
  generalize hm : emits (events n) (machine.state events n) = emitted at hch
  -- The changed task, if there is one.
  have hg {j task task'} (hj : (machine.state events n).tasks[j]? = some task)
      (ht : (machine.state events (n + 1)).tasks = (machine.state events n).tasks.set j task') :
      (machine.state events (n + 1)).tasks[j]? = some task' := by
    have := (List.getElem?_eq_some_iff.mp hj).fst
    simp [ht, this]
  have ha {task} (hi : i = (machine.state events n).tasks.length)
      (ht : (machine.state events (n + 1)).tasks = (machine.state events n).tasks ++ [task]) :
      (machine.state events n).tasks[i]? = none ∧
      (machine.state events (n + 1)).tasks[i]? = some task := by
    simp [ht, hi]
  cases hch <;> rw [←ht]
  case keep => exact hc.keep (by rw [ht]) (by simp [hd])
  case request ns bytes =>
    by_cases hi : i = (machine.state events n).tasks.length
    case neg => exact hc.append ht hi (by simp [hd])
    case pos =>
      obtain ⟨hb, hx⟩ := ha hi ht
      rw [hx]
      exact hc.take (by simp [exchangeAt, hb]) (by simp [hb]) hx rfl (by simp [hd])
  case session c ns =>
    by_cases hi : i = (machine.state events n).tasks.length
    case neg => exact hc.append ht hi (by simp [hd])
    case pos =>
      obtain ⟨hb, hx⟩ := ha hi ht
      refine hc.quiet (frames_succ_of_kept (.inr ?_)) (responses_succ_of_other (by simp [hd]))
        fun pending hw => ?_
      · simp [exchangeAt, hx, Task.exchange]
      · rw [hb] at hw
        cases hw
        exact .idle (by simp [hx, Task.exchange])
  case take j c ns bytes hj =>
    by_cases hi : j = i
    case neg => exact hc.set ht hi (by simp [hd])
    case pos =>
      subst hi
      rw [hg hj ht]
      exact hc.take (by simp [exchangeAt, hj, Task.exchange]) (by simp [hj]) (hg hj ht) rfl
        (by simp [hd])
  case finish j task hj =>
    by_cases hi : j = i
    case neg => exact hc.set ht hi (by simp [hd])
    case pos =>
      subst hi
      rw [hg hj ht]
      exact hc.finish (hg hj ht) (by simp [hd])
  case detach j exchange hj =>
    by_cases hi : j = i
    case neg => exact hc.set ht hi (by simp [hd])
    case pos =>
      subst hi
      rw [hg hj ht]
      have hr : responses events j (n + 1) = responses events j n :=
        responses_succ_of_other (by simp [hd])
      refine hc.quiet (frames_succ_of_kept (.inl ?_)) hr fun pending hw => ?_
      · simp [exchangeAt, hj, Task.exchange]
      · have hx : (machine.state events (n + 1)).exchangeAt j = some exchange := by
          rw [exchangeAt, hg hj ht]
          rfl
        rw [hj] at hw
        have hw := hw.succ hx hr
        cases hw
        case idle h    => cases h
        case busy h hx => exact .busy hx h
  case respond j ns bytes response hj =>
    by_cases hi : j = i
    case neg => exact hc.set ht hi (by simp [hd, hi])
    case pos =>
      subst hi
      rw [hg hj ht]
      exact hc.respond hj rfl (hg hj ht) rfl hd
  case send j c ns ns' bytes response hj =>
    by_cases hi : j = i
    case neg => exact hc.set ht hi (by simp [hd, hi])
    case pos =>
      subst hi
      rw [hg hj ht]
      exact hc.respond hj rfl (hg hj ht) rfl hd
  case advance j action task exchange phase hv hj hx hp =>
    by_cases hi : j = i
    case neg => exact hc.set ht hi (by simp [hd])
    case pos =>
      subst hi
      rw [hg hj ht]
      exact hc.advance he hv hj hx hp (hg hj ht) (by simp [hd])
  case restart =>
    cases hj : (machine.state events n).tasks[i]?
    case none =>
      exact hc.keep (by rw [ht, List.getElem?_map, hj]; rfl) (by simp [hd])
    case some task =>
      have hx : (machine.state events (n + 1)).tasks[i]? = some .ended := by
        rw [ht, List.getElem?_map, hj]
        rfl
      rw [hx]
      exact hc.finish hx (by simp [hd])

end Converses

theorem converses (he : Emitted events inputs) (i n : Nat) :
    Converses events inputs i n (machine.state events n).tasks[i]? := by
  induction n
  case succ hi => exact hi.succ he
  case zero =>
    refine ⟨⟨[], [], rfl, .nil, .idle rfl⟩, ?_⟩
    rintro response ⟨⟩

-- What the sequential service receives at an event.
theorem emits_cases (events : Nat → Event) (n : Nat) :
    emits (events n) (machine.state events n) = [] ∨
    emits (events n) (machine.state events n) = [.restart] ∨
    ∃ i action exchange now fault, events n = .proceed i action ∧
      (machine.state events n).exchangeAt i = some exchange ∧ exchange.phase.now = some now ∧
      emits (events n) (machine.state events n) =
        [.restart, input exchange.ns exchange.bytes now fault] ∧
      ∀ exchange', (machine.state events (n + 1)).exchangeAt i = some exchange' →
        ∃ answer, exchange'.phase = .finished answer := by
  have hc := machine_change events n
  generalize delivered (events n) (machine.output events n) = response at hc
  generalize (machine.state events (n + 1)).service = service' at hc
  generalize ht : (machine.state events (n + 1)).tasks = tasks' at hc
  generalize hm : emits (events n) (machine.state events n) = emitted at hc
  cases hc
  case restart => exact .inr (.inl rfl)
  case advance i action task exchange phase hv hj hx ha =>
    obtain he | ⟨now, fault, hn, he, answer, _, ha'⟩ :=
      exchange.emits_cases (machine.state events n).service action
    · exact .inl he
    · refine .inr (.inr ⟨i, action, exchange, now, fault, hv, ?_, hn, he, fun exchange' hx' => ?_⟩)
      · rw [exchangeAt, hj]
        exact hx
      · cases ha.symm.trans ha'
        have hl := (List.getElem?_eq_some_iff.mp hj).fst
        rw [exchangeAt, ht, List.getElem?_set_self hl] at hx'
        obtain h | h := task.enter_exchange (.finished answer) hx
        · cases h.symm.trans hx'
          exact ⟨answer, rfl⟩
        · rw [h] at hx'
          cases hx'
  all_goals exact .inl rfl

-- Whatever the sequential service receives is a restart or a frame which is executed.
theorem Emitted.input_cases (he : Emitted events inputs) (hl : received events n ≤ k)
    (hk : k < received events (n + 1)) :
    inputs k = .restart ∨ ∃ i, ∃ frame ∈ frames events i n, ∃ now fault,
      Executes events inputs i frame n now fault ∧ k = received events n + 1 := by
  rw [received_succ] at hk
  obtain hm | hm | ⟨i, action, exchange, now, fault, hv, hx, hn, hm, _⟩ := emits_cases events n
  all_goals rw [hm] at hk
  · exact absurd hk (Nat.not_lt.mpr hl)
  · obtain rfl : k = received events n := Nat.le_antisymm (Nat.le_of_lt_succ hk) hl
    exact .inl (he.eq (k := 0) (by rw [hm]; rfl))
  · rcases Nat.eq_or_lt_of_le hl with rfl | hl
    · exact .inl (he.eq (k := 0) (by rw [hm]; rfl))
    · obtain rfl : k = received events n + 1 := Nat.le_antisymm (Nat.le_of_lt_succ hk) hl
      obtain ⟨answered, pending, hf, _, ha⟩ := (converses he i n).dialogue
      rw [exchangeAt] at hx
      generalize (machine.state events n).tasks[i]? = task at hx ha
      cases ha
      case idle h => cases hx.symm.trans h
      case lost   => cases hx
      case busy frame phase task hx' hb =>
        cases hx.symm.trans hx'
        refine .inr ⟨i, frame, ?_, now, fault, he.executes hv hb.current (hb.clocked now hn) hm, rfl⟩
        exact hf ▸ List.mem_append_right _ (.head _)

-- As long as a task is busy, only its own steps change its exchange.
theorem exchangeAt_succ (hx : (machine.state events n).exchangeAt i = some exchange)
    (hx' : (machine.state events (n + 1)).exchangeAt i = some exchange') :
    exchange' = exchange ∨ ∃ action phase service', events n = .proceed i action ∧
      exchange.advance (machine.state events n).service action = some (phase, service') := by
  have hc := machine_change events n
  rw [exchangeAt] at hx hx'
  generalize delivered (events n) (machine.output events n) = response at hc
  generalize (machine.state events (n + 1)).service = service' at hc
  generalize (machine.state events (n + 1)).tasks = tasks' at hc hx'
  generalize emits (events n) (machine.state events n) = emitted at hc
  have hk (h : (machine.state events n).tasks[i]?.bind Task.exchange = some exchange') :
      exchange' = exchange := Option.some.inj (h.symm.trans hx)
  have ha {task} (h : ((machine.state events n).tasks ++ [task])[i]?.bind Task.exchange =
      some exchange') : exchange' = exchange := by
    obtain ⟨_, hj, _⟩ := Option.bind_eq_some_iff.mp hx
    rw [List.getElem?_append_left (List.getElem?_eq_some_iff.mp hj).fst] at h
    exact hk h
  have hs {j task} (h : ((machine.state events n).tasks.set j task)[i]?.bind Task.exchange =
      some exchange') : exchange' = exchange ∨ j = i ∧ task.exchange = some exchange' := by
    rw [List.getElem?_set] at h
    split at h
    case isFalse => exact .inl (hk h)
    case isTrue hj =>
      split at h
      case isTrue  => exact .inr ⟨hj, h⟩
      case isFalse => cases h
  cases hc
  case keep    => exact .inl (hk hx')
  case request => exact .inl (ha hx')
  case session => exact .inl (ha hx')
  case take hj =>
    refine (hs hx').imp_right ?_
    rintro ⟨rfl, _⟩
    rw [hj] at hx
    cases hx
  case finish =>
    refine (hs hx').imp_right ?_
    rintro ⟨_, ⟨⟩⟩
  case detach hj =>
    refine .inl ((hs hx').elim id ?_)
    rintro ⟨rfl, h⟩
    rw [hj] at hx
    exact Option.some.inj (h.symm.trans hx)
  case respond =>
    refine (hs hx').imp_right ?_
    rintro ⟨_, ⟨⟩⟩
  case send =>
    refine (hs hx').imp_right ?_
    rintro ⟨_, ⟨⟩⟩
  case advance action _ _ phase hv hj hx₀ ha' =>
    refine (hs hx').imp_right ?_
    rintro ⟨rfl, _⟩
    rw [hj] at hx
    cases hx₀.symm.trans hx
    exact ⟨action, phase, service', hv, ha'⟩
  case restart =>
    obtain ⟨_, ht, he⟩ := Option.bind_eq_some_iff.mp hx'
    obtain ⟨_, _, rfl⟩ := List.mem_map.mp (List.mem_of_getElem? ht)
    cases he

theorem Current.finished (hc : Current events i frame k) (hl : frame.time < n) (hn : n ≤ k)
    (hx : (machine.state events n).exchangeAt i = some ⟨frame.ns, frame.bytes, .finished answer⟩) :
    (machine.state events k).exchangeAt i = some ⟨frame.ns, frame.bytes, .finished answer⟩ := by
  induction hn
  case refl => exact hx
  case step k hn hi =>
    obtain ⟨phase, hx'⟩ := hc (k + 1) (Nat.lt_succ_of_lt (Nat.lt_of_lt_of_le hl hn)) (Nat.le_refl _)
    have hx := hi fun m hm hk => hc m hm (Nat.le_succ_of_le hk)
    obtain he | ⟨action, _, _, _, ha⟩ := exchangeAt_succ hx hx'
    · exact he ▸ hx'
    · cases action <;> cases ha

-- The sequential service does not receive anything for an exchange which has ended.
theorem Executes.exchange (h : Executes events inputs i frame n now fault) :
    ∃ phase, (machine.state events n).exchangeAt i = some ⟨frame.ns, frame.bytes, phase⟩ ∧
      (∀ answer, phase ≠ .finished answer) ∧
      ∀ exchange', (machine.state events (n + 1)).exchangeAt i = some exchange' →
        ∃ answer, exchange'.phase = .finished answer := by
  have hr := h.emitted
  rw [received_succ] at hr
  obtain ⟨action, hv⟩ := h.event
  obtain ⟨c, hl, hc, _⟩ := h.clocked
  obtain ⟨phase, hx⟩ := h.current n (by omega) (Nat.le_refl n)
  obtain hm | hm | ⟨j, _, exchange, now', _, hv', hx', hn, _, hf⟩ := emits_cases events n
  · simp [hm] at hr
  · simp [hm] at hr
  · cases hv.symm.trans hv'
    cases hx.symm.trans hx'
    refine ⟨phase, hx, ?_, hf⟩
    rintro answer rfl
    cases hn

-- A frame is executed at most once.
theorem Executes.unique (h : Executes events inputs i frame n now fault)
    (h' : Executes events inputs i frame k now' fault') : n = k := by
  -- The exchange ends with the first execution.
  have hlt {n k now now' fault fault'} (h : Executes events inputs i frame n now fault)
      (h' : Executes events inputs i frame k now' fault') : ¬n < k := by
    intro hn
    obtain ⟨c, hl, hc, _⟩ := h.clocked
    obtain ⟨phase, hx⟩ := h'.current (n + 1) (by omega) hn
    obtain ⟨_, _, _, hf⟩ := h.exchange
    obtain ⟨answer, rfl⟩ := hf _ hx
    obtain ⟨_, hx', hp, _⟩ := h'.exchange
    cases hx'.symm.trans (h'.current.finished (by omega) hn hx)
    exact hp answer rfl
  exact Nat.le_antisymm (Nat.not_lt.mp (hlt h' h)) (Nat.not_lt.mp (hlt h h'))

end Run

-- The daemon is linearizable: although exchanges run at the same time, the database and all responses
-- are those of a service without rate limits which executes one frame after another. It executes the
-- frames which the tasks have taken, each of them at most once, at the time which was read for it, and
-- between its arrival and its response. The responses of a task are in the order of its frames.
theorem daemon_linearizable (events : Nat → Event) :
    ∃ inputs : Nat → Input, Emitted events inputs ∧
      (∀ n, (RelayService.machine.state inputs (received events n)).relay =
        (machine.state events n).service.relay) ∧
      (∀ n k, received events n ≤ k → k < received events (n + 1) →
        inputs k = .restart ∨ ∃ i, ∃ frame ∈ frames events i n, ∃ now fault,
          Executes events inputs i frame n now fault ∧ k = received events n + 1) ∧
      (∀ i frame n k now now' fault fault', Executes events inputs i frame n now fault →
        Executes events inputs i frame k now' fault' → n = k) ∧
      ∀ i n, ∃ answered pending, frames events i n = answered ++ pending ∧ pending.length ≤ 1 ∧
        Dialogue (Linearized events inputs i) answered (responses events i n) := by
  have : Nonempty Input := ⟨.restart⟩
  obtain ⟨inputs, he⟩ := machine.exists_emitted emits events
  have he : Emitted events inputs := he
  refine ⟨inputs, he, he.relay_eq, fun _ _ => he.input_cases, fun _ _ _ _ _ _ _ _ h h' => h.unique h',
    fun i n => ?_⟩
  obtain ⟨answered, pending, hf, hd, ha⟩ := (converses he i n).dialogue
  exact ⟨answered, pending, hf, ha.length_le, hd⟩

end Daemon
end Cofferwire
