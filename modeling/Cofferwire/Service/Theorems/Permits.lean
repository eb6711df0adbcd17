import Cofferwire.Service.Daemon

namespace Cofferwire.Daemon

-- An exchange only affects the permits of its task by its end.
section Enter

variable (task : Task) (phase : Phase)

theorem Task.enter_isSession : (task.enter phase).isSession = task.isSession := by
  unfold enter
  split <;> rfl

theorem Task.enter_isOn (c : Nat) : (task.enter phase).isOn c = task.isOn c := by
  unfold enter
  split <;> rfl

theorem Task.enter_running {exchange : Exchange} (h : task.exchange = some exchange) :
    (task.enter phase).running = { exchange with phase }.running := by
  unfold enter
  split <;> simp_all [Task.exchange, running, Exchange.running]

theorem Task.enter_exchange {exchange : Exchange} (hx : task.exchange = some exchange) :
    (task.enter phase).exchange = some { exchange with phase } ∨ task.enter phase = .ended := by
  unfold enter
  split <;> simp_all [Task.exchange]

end Enter

theorem Exchange.running_of_advance [Profile] [Ed25519] [Sha256] (exchange : Exchange)
    {service : RelayService}
    (h : exchange.advance service action = some result) : exchange.running := by
  cases action <;> simp only [advance] at h
  all_goals
    split at h <;> cases h
    simp [Exchange.running, *]

-- A change of a task which affects at most the permit for a command.
structure Task.Same (task task' : Task) : Prop where
  isSession : task'.isSession = task.isSession
  isOn      : ∀ c, task'.isOn c = task.isOn c

theorem Task.enter_same (task : Task) (phase : Phase) : task.Same (task.enter phase) :=
  ⟨task.enter_isSession phase, task.enter_isOn phase⟩

theorem spawn_eq_some {daemon : Daemon} (h : daemon.spawn ns bytes = some (exchange, daemon')) :
    ∃ commands, daemon.commands.tryAcquire = some commands ∧ daemon' = { daemon with commands } ∧
      exchange = ⟨ns, bytes, .spawned⟩ := by
  obtain ⟨commands, hc, he⟩ := Option.map_eq_some_iff.mp h
  cases he
  exact ⟨commands, hc, rfl, rfl⟩

def sessionsOn (tasks : List Task) (c : Nat) : Nat :=
  tasks.countP (Task.isOn c)

theorem sessionsOn_set {tasks : List Task} (h : tasks[i]? = some task) (task' : Task) (c : Nat) :
    sessionsOn (tasks.set i task') c + (if task.isOn c then 1 else 0) =
      sessionsOn tasks c + if task'.isOn c then 1 else 0 :=
  Semaphore.countP_set h

theorem sessionsOn_append {tasks : List Task} (task : Task) (c : Nat) :
    sessionsOn (tasks ++ [task]) c = sessionsOn tasks c + if task.isOn c then 1 else 0 := by
  simp [sessionsOn, List.countP_append, List.countP_singleton]

-- The references to permits of connections are those of the server and `n c` other ones.
def References (n : Nat → Nat) (connections : List Connection) : Prop :=
  ∀ c, ∀ connection ∈ connections[c]?, connection.references =
    (if connection.serving then 1 else 0) + n c

namespace References

variable {connections : List Connection}

theorem set (h : References n connections) (hn : ∀ c' ≠ c, n' c' = n c')
    (hc : connection.references = (if connection.serving then 1 else 0) + n' c) :
    References n' (connections.set c connection) := by
  intro c' connection' hm
  rw [Option.mem_def, List.getElem?_set] at hm
  split at hm
  case isTrue hi =>
    obtain ⟨_, hm⟩ := Option.ite_none_right_eq_some.mp hm
    cases hm
    exact hi ▸ hc
  case isFalse hi => exact hn c' (Ne.symm hi) ▸ h c' connection' hm

theorem append (h : References n connections)
    (hc : connection.references = (if connection.serving then 1 else 0) + n connections.length) :
    References n (connections ++ [connection]) := by
  intro c' connection' hm
  rw [Option.mem_def, List.getElem?_append] at hm
  split at hm
  case isTrue => exact h c' connection' hm
  case isFalse hl =>
    obtain ⟨hi, rfl⟩ := List.getElem?_eq_some_iff.mp hm
    obtain rfl : c' = connections.length := by simp at hi; omega
    simpa using hc

end References

section DropReference

variable (daemon : Daemon) (c : Nat)

@[simp]
theorem dropReference_tasks : (daemon.dropReference c).tasks = daemon.tasks := by
  unfold dropReference
  split <;> rfl

@[simp]
theorem dropReference_service : (daemon.dropReference c).service = daemon.service := by
  unfold dropReference
  split <;> rfl

@[simp]
theorem dropReference_commands : (daemon.dropReference c).commands = daemon.commands := by
  unfold dropReference
  split <;> rfl

@[simp]
theorem dropReference_websocketConnections :
    (daemon.dropReference c).websocketConnections = daemon.websocketConnections := by
  unfold dropReference
  split <;> rfl

variable {daemon c}

theorem dropReference_connections (hc : daemon.connections[c]? = some connection) :
    (daemon.dropReference c).connections =
      daemon.connections.set c { connection with references := connection.references - 1 } := by
  simp only [dropReference, hc]

theorem dropReference_heldBy (hc : daemon.connections[c]? = some connection)
    (hh : daemon.connectionLimit.HeldBy capacity Connection.isHeld daemon.connections)
    (hr : connection.references ≠ 0) :
    (daemon.dropReference c).connectionLimit.HeldBy capacity Connection.isHeld
      (daemon.dropReference c).connections := by
  have hi : connection.isHeld := by simpa [Connection.isHeld] using hr
  simp only [dropReference, hc]
  split
  case isTrue h => exact hh.set_release hc hi (by simp [Connection.isHeld, h])
  case isFalse h => exact hh.set hc (by simp [Connection.isHeld, h, hr])

end DropReference

-- Every permit which is not available has exactly one holder. Those of connections are shared by the
-- server and the sessions on them.
structure Balanced (daemon : Daemon) : Prop where
  commands    : daemon.commands.HeldBy maxConcurrentCommands Task.running daemon.tasks
  sessions    : daemon.websocketConnections.HeldBy maxWebsocketConnections Task.isSession daemon.tasks
  connections : daemon.connectionLimit.HeldBy maxConnections Connection.isHeld daemon.connections
  references  : References (sessionsOn daemon.tasks) daemon.connections
  accepted    : ∀ c, ∀ task ∈ daemon.tasks, task.isOn c → c < daemon.connections.length

namespace Balanced

theorem new : (new relay).Balanced where
  commands    := .new (by simp [Daemon.new])
  sessions    := .new (by simp [Daemon.new])
  connections := .new (by simp [Daemon.new])
  references  := by simp [References, Daemon.new]
  accepted    := by simp [Daemon.new]

variable {daemon : Daemon} {i c : Nat}

theorem restart : daemon.restart.Balanced where
  commands    := .new (by simp [Daemon.restart, Task.running, Task.exchange])
  sessions    := .new (by simp [Daemon.restart, Task.isSession])
  connections := .new (by simp [Daemon.restart, Connection.isHeld])
  references c connection hc := by
    obtain ⟨_, _, rfl⟩ := List.mem_map.mp (List.mem_of_getElem? hc)
    simp [Daemon.restart, sessionsOn, List.countP_replicate, Task.isOn]
  accepted    := by simp [Daemon.restart, Task.isOn]

theorem setTask {commands : Semaphore} (hb : daemon.Balanced) (ht : daemon.tasks[i]? = some task)
    (hc : commands.HeldBy maxConcurrentCommands Task.running (daemon.tasks.set i task'))
    (hs : task.Same task') (service : RelayService) :
    ({ daemon with service, commands }.setTask i task').Balanced where
  commands    := hc
  sessions    := hb.sessions.set ht hs.isSession
  connections := hb.connections
  references c connection hc := by
    have hn := sessionsOn_set ht task' c
    have hr := hb.references c connection hc
    rw [hs.isOn] at hn
    simp only [Daemon.setTask]
    omega
  accepted c task'' hm ho := by
    rcases List.mem_or_eq_of_mem_set hm with hm | rfl
    · exact hb.accepted c _ hm ho
    · exact hb.accepted c _ (List.mem_of_getElem? ht) (hs.isOn c ▸ ho)

-- The permit of a session's connection is referred to.
theorem exists_connection (hb : daemon.Balanced) (ht : daemon.tasks[i]? = some (.session c ns e)) :
    ∃ connection, daemon.connections[c]? = some connection ∧ connection.references ≠ 0 := by
  have hm := List.mem_of_getElem? ht
  have hc := hb.accepted c _ hm (by simp [Task.isOn])
  have hp : 0 < sessionsOn daemon.tasks c := List.countP_pos_iff.mpr ⟨_, hm, by simp [Task.isOn]⟩
  have hr := hb.references c _ (List.getElem?_eq_getElem hc)
  exact ⟨_, List.getElem?_eq_getElem hc, by omega⟩

theorem endSession (hb : daemon.Balanced) (ht : daemon.tasks[i]? = some (.session c ns e))
    (he : ¬(Task.session c ns e).running) : (daemon.endSession i c).Balanced := by
  obtain ⟨connection, hc, hr⟩ := hb.exists_connection ht
  have hcs : (daemon.endSession i c).connections = _ := dropReference_connections hc
  have hts : (daemon.endSession i c).tasks = daemon.tasks.set i .ended := dropReference_tasks ..
  have hn := sessionsOn_set ht .ended
  constructor
  case commands    =>
    have hcm : (daemon.endSession i c).commands = daemon.commands := dropReference_commands ..
    exact hcm ▸ hts ▸ hb.commands.set ht (Bool.eq_false_of_not_eq_true he).symm
  case sessions    =>
    have hw : (daemon.endSession i c).websocketConnections = daemon.websocketConnections.release :=
      dropReference_websocketConnections ..
    exact hw ▸ hts ▸ hb.sessions.set_release ht rfl (by simp [Task.isSession])
  case connections => exact dropReference_heldBy hc hb.connections hr
  case references  =>
    rw [hcs, hts]
    refine hb.references.set (fun c' hne => ?_) ?_
    · simpa [Task.isOn, hne.symm] using hn c'
    · have hr := hb.references c connection hc
      have hn := hn c
      simp only [Task.isOn, decide_true, if_true, Bool.false_eq_true, if_false] at hn hr ⊢
      omega
  case accepted =>
    intro c' task hm hc'
    rw [hts] at hm
    rw [hcs, List.length_set]
    rcases List.mem_or_eq_of_mem_set hm with hm | rfl
    · exact hb.accepted c' _ hm hc'
    · cases hc'

theorem accept (hb : daemon.Balanced) : daemon.accept.snd.Balanced := by
  unfold Daemon.accept
  split
  case h_1 => exact hb
  case h_2 limit hl =>
    have hz : sessionsOn daemon.tasks daemon.connections.length = 0 :=
      List.countP_eq_zero.mpr fun task hm hc => Nat.lt_irrefl _ (hb.accepted _ task hm hc)
    constructor
    case commands    => exact hb.commands
    case sessions    => exact hb.sessions
    case connections => exact hb.connections.append_acquire hl (by simp [Connection.isHeld])
    case references  => exact hb.references.append (by simp [hz])
    case accepted    =>
      intro c task hm hc
      simpa using Nat.lt_succ_of_lt (hb.accepted c task hm hc)

theorem drop (hb : daemon.Balanced) : (daemon.drop c).Balanced := by
  unfold Daemon.drop
  split
  case h_2 => exact hb
  case h_1 references hc =>
    have hr := hb.references c _ hc
    have hl := (List.getElem?_eq_some_iff.mp hc).fst
    generalize hd : { daemon with
      connections := daemon.connections.set c ⟨false, references⟩ } = dropped
    have hc' : dropped.connections[c]? = some ⟨false, references⟩ := by
      simp [←hd, hl]
    have hh : dropped.connectionLimit.HeldBy maxConnections Connection.isHeld dropped.connections :=
      hd ▸ hb.connections.set hc rfl
    have ht : (dropped.dropReference c).tasks = daemon.tasks := by simp [←hd]
    constructor
    case commands    => simpa [←hd] using hb.commands
    case sessions    => simpa [←hd] using hb.sessions
    case connections => exact dropReference_heldBy hc' hh (by simp at hr ⊢; omega)
    case references  =>
      rw [dropReference_connections hc', ht, ←hd]
      simp only [List.set_set]
      refine hb.references.set (fun _ _ => rfl) ?_
      simp at hr ⊢
      omega
    case accepted =>
      intro c' task hm hc''
      rw [dropReference_connections hc', ←hd]
      simpa using hb.accepted c' task (ht ▸ hm) hc''

theorem upgradeWebsocket (hb : daemon.Balanced) (hs : daemon.isServing c) :
    (daemon.upgradeWebsocket c ns).snd.Balanced := by
  obtain ⟨connection, hc, hr⟩ := (Option.any_eq_true _ _).mp hs
  have hl := (List.getElem?_eq_some_iff.mp hc).fst
  have hh := hb.references c connection hc
  unfold Daemon.upgradeWebsocket
  split
  case h_1 => exact hb
  case h_2 hw =>
    simp only [addReference, hc]
    constructor
    case commands    => exact hb.commands.append Bool.false_ne_true
    case sessions    => exact hb.sessions.append_acquire hw rfl
    case connections =>
      refine hb.connections.set hc ?_
      simp only [hr, if_true] at hh
      simp [Connection.isHeld, hh]
    case references  =>
      refine hb.references.set (fun c' hne => ?_) ?_
      · simp [sessionsOn_append, Task.isOn, hne.symm]
      · simp only [sessionsOn_append, Task.isOn, decide_true, if_true]
        omega
    case accepted    =>
      intro c' task hm hc'
      rw [List.length_set]
      rcases List.mem_append.mp hm with hm | hm
      · exact hb.accepted c' task hm hc'
      · cases List.mem_singleton.mp hm
        exact of_decide_eq_true hc' ▸ hl

theorem postFrame (hb : daemon.Balanced) : (daemon.postFrame ns contentType body).snd.Balanced := by
  unfold Daemon.postFrame
  split
  case isTrue => exact hb
  case isFalse =>
    split
    case isTrue => exact hb
    case isFalse =>
      split
      case h_1 => exact hb
      case h_2 hs =>
        obtain ⟨commands, hc, rfl, rfl⟩ := spawn_eq_some hs
        constructor
        case commands    => exact hb.commands.append_acquire hc rfl
        case sessions    => exact hb.sessions.append Bool.false_ne_true
        case connections => exact hb.connections
        case references  =>
          intro c connection hc
          simpa [sessionsOn_append, Task.isOn] using hb.references c connection hc
        case accepted    =>
          intro c task hm hc
          rcases List.mem_append.mp hm with hm | hm
          · exact hb.accepted c task hm hc
          · cases List.mem_singleton.mp hm
            cases hc

theorem receive (hb : daemon.Balanced) : (daemon.receive i message).Balanced := by
  unfold Daemon.receive
  split
  case h_2 => exact hb
  case h_1 c ns ht =>
    have he : (daemon.endSession i c).Balanced := hb.endSession ht Bool.false_ne_true
    cases message
    case binary bytes =>
      dsimp only
      split
      case isTrue => exact he
      case isFalse =>
        split
        case h_1 => exact he
        case h_2 hs =>
          obtain ⟨commands, hc, rfl, rfl⟩ := spawn_eq_some hs
          have hc := hb.commands.set_acquire hc ht Bool.false_ne_true
            (b := .session c ns (some ⟨ns, bytes, .spawned⟩)) rfl
          exact hb.setTask ht hc ⟨rfl, fun _ => rfl⟩ daemon.service
    case text    => exact he
    case close   => exact he
    case failure => exact he
    case ping    => exact hb
    case pong    => exact hb

theorem deliver (hb : daemon.Balanced) : (daemon.deliver i sent).snd.Balanced := by
  unfold Daemon.deliver
  split
  case h_3 => exact hb
  case h_1 ns bytes answer ht =>
    have hc := hb.commands.set ht (b := .ended) rfl
    cases answer <;> exact hb.setTask ht hc ⟨rfl, fun _ => rfl⟩ daemon.service
  case h_2 c ns ns' bytes answer ht =>
    have he : (daemon.endSession i c).Balanced := hb.endSession ht Bool.false_ne_true
    cases answer
    case error => exact he
    case ok response =>
      dsimp only
      split
      case isTrue =>
        have hc := hb.commands.set ht (b := .session c ns none) rfl
        exact hb.setTask ht hc ⟨rfl, fun _ => rfl⟩ daemon.service
      case isFalse => exact he

theorem cancel (hb : daemon.Balanced) : (daemon.cancel i).snd.Balanced := by
  unfold Daemon.cancel
  split
  case h_2 => exact hb
  case h_1 exchange ht =>
    dsimp only
    split
    case isTrue =>
      have hc := hb.commands.set ht (b := .detached exchange) rfl
      exact hb.setTask ht hc ⟨rfl, fun _ => rfl⟩ daemon.service
    case isFalse hr =>
      have hr : Task.ended.running = exchange.running := (Bool.eq_false_of_not_eq_true hr).symm
      have hc := hb.commands.set ht hr
      exact hb.setTask ht hc ⟨rfl, fun _ => rfl⟩ daemon.service

section Proceed

variable [Profile] [Ed25519] [Sha256]

theorem proceed (hb : daemon.Balanced) : (daemon.proceed i action).Balanced := by
  unfold Daemon.proceed
  split
  case h_1 => exact hb
  case h_2 task ht =>
    split
    case h_1 => exact hb
    case h_2 exchange he =>
      split
      case h_1 => exact hb
      case h_2 phase service ha =>
        have hr : task.running := by simpa [Task.running, he] using exchange.running_of_advance ha
        have hr' := task.enter_running phase he
        cases phase
        case finished answer =>
          have hf : ¬(task.enter (.finished answer)).running := by simp [hr', Exchange.running]
          have hc := hb.commands.set_release ht hr hf
          exact hb.setTask ht hc (task.enter_same _) service
        all_goals
          have hc := hb.commands.set ht (hr'.trans hr.symm)
          exact hb.setTask ht hc (task.enter_same _) service

theorem step (hb : daemon.Balanced) (event : Event) : (Daemon.step event daemon).snd.Balanced := by
  cases event
  case accept  => exact hb.accept
  case drop    => exact hb.drop
  case receive => exact hb.receive
  case proceed => exact hb.proceed
  case deliver => exact hb.deliver
  case cancel  => exact hb.cancel
  case restart => exact .restart
  case post    =>
    simp only [Daemon.step]
    split
    · exact hb.postFrame
    · exact hb
  case upgrade =>
    simp only [Daemon.step]
    split
    · exact hb.upgradeWebsocket ‹_›
    · exact hb

theorem state (events : Nat → Event) (n : Nat) : (machine.state events n).Balanced :=
  machine.invariant .new (fun event _ hb => hb.step event) n

end Proceed
end Balanced

-- Over all interleavings no permit is lost or used twice, and the permit of a connection is kept as
-- long as the server or a session uses the connection.
theorem permits_conserved [Profile] [Ed25519] [Sha256] (events : Nat → Event) (n : Nat) :
    let daemon := machine.state events n
    daemon.commands.available + daemon.tasks.countP Task.running = maxConcurrentCommands ∧
    daemon.websocketConnections.available + daemon.tasks.countP Task.isSession =
      maxWebsocketConnections ∧
    daemon.connectionLimit.available + daemon.connections.countP Connection.isHeld =
      maxConnections ∧
    ∀ c, ∀ connection ∈ daemon.connections[c]?,
      connection.isHeld ↔ connection.serving ∨ ∃ task ∈ daemon.tasks, task.isOn c := by
  have hb := Balanced.state events n
  refine ⟨hb.commands, hb.sessions, hb.connections, fun c connection hc => ?_⟩
  have hr := hb.references c connection hc
  have hs := Nat.pos_iff_ne_zero.symm.trans
    (List.countP_pos_iff (p := Task.isOn c) (l := (machine.state events n).tasks))
  rw [←hs]
  cases hc : connection.serving
  all_goals simp [Connection.isHeld, hr, hc, sessionsOn]

end Cofferwire.Daemon
