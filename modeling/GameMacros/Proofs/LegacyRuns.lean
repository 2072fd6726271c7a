import GameMacros.Proofs.Operations
import GameMacros.Proofs.Rebasing
import GameMacros.Proofs.Run

/-!
# Machines with a legacy

A machine on top of a legacy makes every move that it makes without, at the time counted from the
start. So its runs are the runs of a machine whose time begins with the start, and the same is
shown on the way, only later.
-/

namespace GameMacros

variable {σ : Type}

/-- The move with the time counted from a start. -/
def Move.since (start : Nat) : Move σ → Move σ
  | .wait time => .wait (time - start)
  | .work => .work
  | .drift state => .drift state
  | .call library request => .call library request
  | .launch mode => .launch mode

/-- The move with the time counted from the beginning and not from a start. -/
def Move.after (start : Nat) : Move σ → Move σ
  | .wait time => .wait (start + time)
  | .work => .work
  | .drift state => .drift state
  | .call library request => .call library request
  | .launch mode => .launch mode

/-- Counting from the beginning and then from a start is counting from the start. -/
theorem Move.since_after (start : Nat) (move : Move σ) : (move.after start).since start = move := by
  cases move with
  | wait time => exact congrArg Move.wait (Nat.add_sub_cancel_left start time)
  | work | drift | call | launch => rfl

namespace Machine

/-- What is shown by a move: the observation that a call makes. -/
def shown (machine : Machine σ) : Move σ → List Observation
  | .call library request => [(machine.handle library request).2]
  | .work | .wait _ | .drift _ | .launch _ => []

/-- What is shown along moves, as far as they can be made. -/
def observations (host : Host σ) (moves : List (Move σ)) (machine : Machine σ) :
    List Observation :=
  (trail host moves machine).flatMap fun entry => entry.1.shown entry.2

/-- What is shown by a move and then by the others. -/
theorem observations_cons {host : Host σ} {machine next : Machine σ} {move : Move σ}
    (h : machine.move? host move = some next) (moves : List (Move σ)) :
    observations host (move :: moves) machine =
      machine.shown move ++ observations host moves next := by
  rw [observations, trail_cons h, List.flatMap_cons]
  rfl

end Machine

/-! ## Machines on top of a legacy -/

namespace Legacy

variable (legacy : Legacy)

/-- The command under way on top of the legacy. -/
def flight (flight : InFlight) : InFlight :=
  { flight with
    activation := legacy.activation flight.activation
    seen := legacy.stops + flight.seen }

/-- The task on top of the legacy. -/
def task : Task → Task
  | .suspended flight wakeAt => .suspended (legacy.flight flight) (legacy.start + wakeAt)
  | .ready => .ready
  | .parked => .parked
  | .ended => .ended

/-- The machine on top of the legacy. -/
def machine (machine : Machine σ) : Machine σ where
  engine := legacy.engine machine.engine
  world := legacy.world machine.world
  mode := machine.mode
  task := legacy.task machine.task

variable {legacy : Legacy}

/-- Where a piece of a command has led is put into effect on top of a legacy. -/
theorem settle_machine (host : Host σ) (machine : Machine σ) (activation : Activation)
    (command : Command) (callee : Option Program) (seen : Nat) (standing : Standing) :
    (legacy.machine machine).settle host (legacy.activation activation) command callee
        (legacy.stops + seen) standing =
      legacy.machine
        (machine.settle (host.since legacy.start) activation command callee seen standing) := by
  cases standing with
  | finished =>
    have hcommit : (legacy.machine machine).engine.commit (legacy.activation activation) callee =
        legacy.engine (machine.engine.commit activation callee) := commit_engine activation callee
    dsimp only [Machine.settle]
    rw [hcommit]
    rfl
  | failed failure =>
    have hreport : Machine.report host (legacy.machine machine).engine.settings
        (legacy.activation activation).name failure (legacy.machine machine).world =
        legacy.world (Machine.report (host.since legacy.start) machine.engine.settings
          activation.name failure machine.world) := report_world _ _ _
    dsimp only [Machine.settle]
    rw [hreport]
    rfl
  | asleep ms pause =>
    have hasleep : (legacy.machine machine).engine.noteAsleep =
        legacy.engine machine.engine.noteAsleep := noteAsleep_engine
    have htime : (legacy.machine machine).world.now + Sleep.granted ms =
        legacy.start + (machine.world.now + Sleep.granted ms) := Nat.add_assoc ..
    dsimp only [Machine.settle]
    rw [hasleep, htime]
    rfl

/-- A command starts on top of a legacy. -/
theorem begin_machine (host : Host σ) (machine : Machine σ) (activation : Activation) :
    (legacy.machine machine).begin host (legacy.activation activation) =
      legacy.machine (machine.begin (host.since legacy.start) activation) := by
  have hcurrent : (legacy.activation activation).current? = activation.current? := rfl
  unfold Machine.begin
  rw [hcurrent]
  cases activation.current? with
  | none => rfl
  | some command =>
    have hstart : Execution.start ((legacy.machine machine).scope host) command
        (legacy.activation activation) (legacy.machine machine).world =
        legacy.begun (Execution.start (machine.scope (host.since legacy.start)) command activation
          machine.world) := start_world command activation
    dsimp only
    rw [hstart]
    exact settle_machine host { machine with world := (Execution.start
      (machine.scope (host.since legacy.start)) command activation machine.world).world } _ _ _ _ _

/-- Nothing is done on top of a legacy. -/
theorem rest_machine (machine : Machine σ) :
    (legacy.machine machine).rest = legacy.machine machine.rest := by
  have hmode : (legacy.machine machine).mode = machine.mode := rfl
  have hwake : (legacy.machine machine).engine.wake = machine.engine.wake := rfl
  unfold Machine.rest
  rw [hmode, hwake]
  split <;> rfl

/-- A command is chosen and started on top of a legacy. -/
theorem choose_machine (host : Host σ) (machine : Machine σ) :
    (legacy.machine machine).choose host =
      legacy.machine (machine.choose (host.since legacy.start)) := by
  have hjob : (legacy.machine machine).engine.nextJob =
      (legacy.engine machine.engine.nextJob.1, legacy.job machine.engine.nextJob.2) :=
    nextJob_engine
  unfold Machine.choose
  rw [hjob]
  cases machine.engine.nextJob with
  | mk engine job =>
    cases job with
    | run front => exact begin_machine host { machine with engine } front
    | idle => exact rest_machine { machine with engine }
    | shutDown => rfl

/-- A command wakes on top of a legacy. -/
theorem wake_machine (host : Host σ) (machine : Machine σ) (flight : InFlight) :
    (legacy.machine machine).wake host (legacy.flight flight) =
      legacy.machine (machine.wake (host.since legacy.start) flight) := by
  have hseen : (legacy.machine machine).engine.signal.stoppedSince (legacy.flight flight).seen =
      machine.engine.signal.stoppedSince flight.seen := stoppedSince_engine flight.seen
  have hawake : (legacy.machine machine).engine.noteAwake =
      legacy.engine machine.engine.noteAwake := noteAwake_engine
  cases hstopped : machine.engine.signal.stoppedSince flight.seen with
  | true =>
    rw [Machine.wake_of_stopped hstopped, Machine.wake_of_stopped (hseen.trans hstopped), hawake]
    rfl
  | false =>
    have hresume : Execution.resume ((legacy.machine machine).scope host)
        (legacy.flight flight).command (legacy.flight flight).pause (legacy.machine machine).world =
        legacy.result (Execution.resume (machine.scope (host.since legacy.start)) flight.command
          flight.pause machine.world) := resume_world _ _
    rw [Machine.wake_of_live hstopped, Machine.wake_of_live (hseen.trans hstopped), hawake, hresume]
    exact settle_machine host
      { machine with
        engine := machine.engine.noteAwake
        task := .ready
        world := (Execution.resume (machine.scope (host.since legacy.start)) flight.command
          flight.pause machine.world).1 } _ _ _ _ _

/-- A machine takes the same steps on top of a legacy. -/
theorem step?_machine (host : Host σ) (machine : Machine σ) :
    (legacy.machine machine).step? host =
      (machine.step? (host.since legacy.start)).map legacy.machine := by
  have htasks : (legacy.machine machine).task = legacy.task machine.task := rfl
  unfold Machine.step?
  rw [htasks]
  cases machine.task with
  | ready => exact congrArg some (choose_machine host machine)
  | suspended flight wakeAt =>
    have hseen : (legacy.machine machine).engine.signal.stoppedSince (legacy.flight flight).seen =
        machine.engine.signal.stoppedSince flight.seen := stoppedSince_engine flight.seen
    have htime : (legacy.start + wakeAt ≤ (legacy.machine machine).world.now) =
        (wakeAt ≤ machine.world.now) := propext Nat.add_le_add_iff_left
    dsimp only [Legacy.task]
    simp only [hseen, htime, wake_machine]
    split <;> rfl
  | parked =>
    have hwake : (legacy.machine machine).engine.wake = machine.engine.wake := rfl
    dsimp only [Legacy.task]
    rw [hwake]
    split <;> rfl
  | ended => rfl

/-- A call has the same outcome on top of a legacy, and the same is observed, later. -/
theorem handle_machine (machine : Machine σ) (library : Library) (call : Call) :
    (legacy.machine machine).handle library call =
      (legacy.machine (machine.handle library call).1,
        (machine.handle library call).2.after legacy.start) := by
  have hcall : (legacy.machine machine).engine.handle library call =
      (legacy.engine (machine.engine.handle library call).1,
        (machine.engine.handle library call).2) := handle_engine library call
  have hobserve : (legacy.engine (machine.engine.handle library call).1).observe
      (machine.engine.handle library call).2 (legacy.machine machine).world.now =
      ((machine.engine.handle library call).1.observe (machine.engine.handle library call).2
        machine.world.now).after legacy.start := observe_engine _ _
  unfold Machine.handle
  rw [hcall]
  dsimp only
  rw [hobserve]
  rfl

/-- The queue is being executed on top of a legacy or not at all. -/
theorem task_machine_eq_ended_iff {machine : Machine σ} :
    (legacy.machine machine).task = .ended ↔ machine.task = .ended := by
  have htasks : (legacy.machine machine).task = legacy.task machine.task := rfl
  rw [htasks]
  cases machine.task <;> simp [Legacy.task]

/-- A machine makes the same moves on top of a legacy, later. -/
theorem move?_machine (host : Host σ) (machine : Machine σ) (move : Move σ) :
    (legacy.machine machine).move? host move =
      (machine.move? (host.since legacy.start) (move.since legacy.start)).map legacy.machine := by
  cases move with
  | work => exact step?_machine host machine
  | wait time =>
    have hworld : (legacy.machine machine).world.waitUntil time =
        legacy.world (machine.world.waitUntil (time - legacy.start)) := waitUntil_world time
    dsimp only [Machine.move?, Machine.waitUntil, Move.since]
    rw [hworld]
    rfl
  | drift state => rfl
  | call library call =>
    dsimp only [Machine.move?, Move.since]
    rw [handle_machine]
    rfl
  | launch mode =>
    dsimp only [Machine.move?, Move.since]
    simp only [task_machine_eq_ended_iff]
    split <;> rfl

/-- A machine makes the same moves one after the other on top of a legacy, later. -/
theorem follow?_machine (host : Host σ) (machine : Machine σ) (moves : List (Move σ)) :
    Machine.follow? host moves (legacy.machine machine) =
      (Machine.follow? (host.since legacy.start) (moves.map (Move.since legacy.start)) machine).map
        legacy.machine := by
  induction moves generalizing machine with
  | nil => rfl
  | cons move moves ih =>
    rw [Machine.follow?, List.map_cons, Machine.follow?, move?_machine]
    cases machine.move? (host.since legacy.start) (move.since legacy.start) with
    | none => rfl
    | some next => exact ih next

/-- The same is shown by a move on top of a legacy, later. -/
theorem shown_machine (machine : Machine σ) (move : Move σ) :
    (legacy.machine machine).shown move =
      (machine.shown (move.since legacy.start)).map (Observation.after legacy.start) := by
  cases move with
  | call library call => exact congrArg (fun handled => [handled.2]) (handle_machine machine _ _)
  | work | wait | drift | launch => rfl

/-- The same is shown along moves on top of a legacy, later. -/
theorem observations_machine (host : Host σ) (machine : Machine σ) (moves : List (Move σ)) :
    Machine.observations host moves (legacy.machine machine) =
      (Machine.observations (host.since legacy.start) (moves.map (Move.since legacy.start))
        machine).map (Observation.after legacy.start) := by
  unfold Machine.observations
  induction moves generalizing machine with
  | nil => rfl
  | cons move moves ih =>
    rw [Machine.trail, List.map_cons, Machine.trail, List.flatMap_cons, List.flatMap_cons,
      List.map_append, shown_machine, move?_machine]
    cases machine.move? (host.since legacy.start) (move.since legacy.start) with
    | none => rfl
    | some next => exact congrArg (_ ++ ·) (ih next)

end Legacy

end GameMacros
