import GameMacros.Host.DryRun
import GameMacros.Proofs.Pieces
import GameMacros.Proofs.Soundness

/-!
# The queue as an evaluation

The queue of the engine is at the same time the list of macros that are to come and the stack of
macros that called one another. Left alone, the machine that works on it does what the evaluation of
its activations does, one after the other: the same commands in the same worlds.
-/

namespace GameMacros

open Execution

/-- An activation of a program that stands at a place. -/
def Activation.placed (id : Nat) (program : Program) (place : Nat) (counters : Counters) :
    Activation where
  id
  name := program.name
  commands := program.commands
  step := place
  counters

/-- An activation is finished when it stands past its last command. -/
theorem Activation.isFinished_placed (id : Nat) (program : Program) (place : Nat)
    (counters : Counters) :
    (placed id program place counters).isFinished = decide (program.commands.length ≤ place) :=
  rfl

namespace Engine

variable {engine : Engine}

/-- Nothing keeps the engine from executing its queue. -/
structure Unhindered (engine : Engine) : Prop where
  running : engine.runState = .running
  loggedIn : engine.loggedIn = true
  up : engine.isShutDown = false
  stopAtLoop_eq : engine.stopAtLoop = false
  pauseAtLoop_eq : engine.pauseAtLoop = false
  undropped : engine.signal.dropped = false

/-- A sound engine that runs is unhindered but for the login and the loop latches. -/
theorem Sound.unhindered (h : engine.Sound) (hrunning : engine.runState = .running)
    (hloggedIn : engine.loggedIn = true) (hstop : engine.stopAtLoop = false)
    (hpause : engine.pauseAtLoop = false) : engine.Unhindered := by
  have hup : engine.isShutDown = false := by
    rw [Bool.eq_false_iff]
    intro hdown
    have hstopped := h.queue_eq_nil_iff.mp (h.queue_eq_nil_of_shutDown hdown)
    cases hrunning.symm.trans hstopped
  exact ⟨hrunning, hloggedIn, hup, hstop, hpause, h.undropped⟩

/-- An unhindered engine stays so with another queue. -/
theorem Unhindered.with_queue (h : engine.Unhindered) (queue : List Activation) (nextId : Nat) :
    { engine with queue, nextId }.Unhindered :=
  ⟨h.running, h.loggedIn, h.up, h.stopAtLoop_eq, h.pauseAtLoop_eq, h.undropped⟩

/-- An unhindered engine with nothing left to execute stops. -/
theorem Unhindered.nextJob_nil (h : engine.Unhindered) (hqueue : engine.dropFinished.queue = []) :
    engine.nextJob = (engine.halt, .idle) := by
  have hstate : engine.dropFinished.runState ≠ .stopped := by simp [h.running]
  simp only [nextJob, h.up, h.loggedIn, Bool.false_eq_true, if_false, Bool.not_true, hqueue,
    if_neg hstate]
  rfl

/-- An unhindered engine executes the first activation that is not finished. -/
theorem Unhindered.nextJob_cons (h : engine.Unhindered) {front : Activation}
    {others : List Activation} (hqueue : engine.dropFinished.queue = front :: others) :
    engine.nextJob = (engine.dropFinished, .run front) := by
  have hstate : engine.dropFinished.runState = .running := h.running
  have hstop : engine.dropFinished.stopAtLoop = false := h.stopAtLoop_eq
  have hpause : engine.dropFinished.pauseAtLoop = false := h.pauseAtLoop_eq
  simp only [nextJob, h.up, h.loggedIn, Bool.false_eq_true, if_false, Bool.not_true, hqueue,
    hstate, hstop, hpause, Bool.and_false, allowStart, reduceCtorEq]

/-- What is asleep and wakes again is as before. -/
theorem noteAwake_noteAsleep (h : engine.runState ≠ .waiting) :
    engine.noteAsleep.noteAwake = engine := by
  unfold noteAsleep
  split
  · next hrunning =>
    obtain ⟨settings, reader, queue, runState⟩ := engine
    cases hrunning
    rfl
  · rw [noteAwake, if_neg h]

/-- An unhindered engine does not wait. -/
theorem Unhindered.ne_waiting (h : engine.Unhindered) : engine.runState ≠ .waiting := by
  simp [h.running]

/-- No stop came since the engine had its present count. -/
theorem Unhindered.not_stoppedSince (h : engine.Unhindered) :
    engine.signal.stoppedSince engine.signal.count = false := by
  simp [StopSignal.stoppedSince, h.undropped]

end Engine

namespace Machine

variable {σ : Type} {host : Host σ} {machine reached : Machine σ}

/-! ## Histories -/

/-- The command that starts with the next step, if one does. -/
def occurrence? (machine : Machine σ) : Option Occurrence :=
  machine.starting?.bind fun activation =>
    activation.current?.map fun command =>
      ⟨activation.name, activation.step, command, machine.world.now⟩

/-- The commands that start while a machine is left alone for a number of moves. -/
def history (host : Host σ) : (moves : Nat) → Machine σ → List Occurrence
  | 0, _ => []
  | moves + 1, machine => machine.occurrence?.toList ++ history host moves (machine.advance host)

/-- A history goes on where the drive goes on. -/
theorem history_add (moves more : Nat) (machine : Machine σ) :
    history host (moves + more) machine =
      history host moves machine ++ history host more (drive host moves machine) := by
  induction moves generalizing machine with
  | zero => rw [Nat.zero_add, drive, history, List.nil_append]
  | succ moves ih => rw [Nat.add_right_comm, history, ih, history, drive, List.append_assoc]

/-- Left alone, a machine starts exactly the listed commands on its way to another one. -/
def Works (host : Host σ) (machine : Machine σ) (log : List Occurrence) (reached : Machine σ) :
    Prop :=
  ∃ moves, drive host moves machine = reached ∧ history host moves machine = log

/-- A machine that makes no move starts nothing. -/
theorem works_refl (machine : Machine σ) : Works host machine [] machine :=
  ⟨0, rfl, rfl⟩

/-- What is done one after the other is done. -/
theorem Works.trans {middle : Machine σ} {log more : List Occurrence}
    (h : Works host machine log middle) (h' : Works host middle more reached) :
    Works host machine (log ++ more) reached := by
  obtain ⟨moves, rfl, rfl⟩ := h
  obtain ⟨others, rfl, rfl⟩ := h'
  exact ⟨moves + others, drive_add moves others machine, history_add moves others machine⟩

/-- One move starts at most one command. -/
theorem works_advance (machine : Machine σ) :
    Works host machine machine.occurrence?.toList (machine.advance host) :=
  ⟨1, rfl, by simp [history]⟩

/-- No command starts while one is under way. -/
theorem occurrence?_of_suspended {flight : InFlight} {wakeAt : Nat}
    (htask : machine.task = .suspended flight wakeAt) : machine.occurrence? = none := by
  simp [occurrence?, starting?, htask]

/-- A command that sleeps undisturbed wakes at its time. -/
theorem works_sleep (machine : Machine σ) {flight : InFlight} {wakeAt : Nat}
    (htask : machine.task = .suspended flight wakeAt)
    (hlive : machine.engine.signal.stoppedSince flight.seen = false) :
    Works host machine [] ((machine.waitUntil wakeAt).wake host flight) := by
  have hstep {later : Machine σ} (hlater : later = machine.waitUntil wakeAt)
      (hdue : wakeAt ≤ later.world.now) :
      Works host later [] (later.wake host flight) := by
    have hmove : Works host later _ _ := works_advance later
    have hsuspended : later.task = .suspended flight wakeAt := hlater ▸ htask
    have hadvance : later.advance host = later.wake host flight := by
      simp only [advance, step?, hsuspended, decide_eq_true hdue, Bool.or_true, if_true]
    rwa [occurrence?_of_suspended hsuspended, hadvance] at hmove
  by_cases hdue : wakeAt ≤ machine.world.now
  · have hsame : machine = machine.waitUntil wakeAt := by
      simp only [waitUntil, World.waitUntil, Nat.max_eq_left hdue]
    rw [← hsame]
    exact hstep hsame hdue
  · have hasleep : machine.advance host = machine.waitUntil wakeAt := by
      simp only [advance, step?, wakeTime?, htask, hlive, Bool.false_or, decide_eq_true_eq,
        if_neg hdue]
    have hmove : Works host machine _ _ := works_advance machine
    rw [occurrence?_of_suspended htask, hasleep] at hmove
    exact hmove.trans (hstep rfl (Nat.le_max_right _ _))

/-- Where a piece of a command leads does not depend on the task before. -/
theorem settle_task (machine : Machine σ) (task : Task) {world : World σ} (activation : Activation)
    (command : Command) (callee : Option Program) (seen : Nat) (standing : Standing) :
    settle { machine with world, task } host activation command callee seen standing =
      settle { machine with world } host activation command callee seen standing := by
  cases standing <;> rfl

/-- A command that goes to sleep and wakes undisturbed is settled as its next piece demands. -/
theorem wake_of_asleep (machine : Machine σ) (hwaiting : machine.engine.runState ≠ .waiting)
    (world : World σ) (ms : Nat) (task : Task) (flight : InFlight)
    (hlive : machine.engine.signal.stoppedSince flight.seen = false) :
    ({ machine with engine := machine.engine.noteAsleep, world := world.sleep ms, task } :
        Machine σ).wake host flight =
      settle
        { machine with
          world := (resume (machine.scope host) flight.command flight.pause (world.sleep ms)).1 }
        host flight.activation flight.command flight.callee flight.seen
        (resume (machine.scope host) flight.command flight.pause (world.sleep ms)).2 := by
  let later : Machine σ :=
    { machine with engine := machine.engine.noteAsleep, world := world.sleep ms, task }
  obtain ⟨runState, hasleep⟩ := machine.engine.exists_noteAsleep_eq
  have hlater : later.engine.signal.stoppedSince flight.seen = false := by
    simp only [later, hasleep, hlive]
  have hscope : later.scope host = machine.scope host := by
    simp only [later, scope, hasleep]
  have hawake : later.engine.noteAwake = machine.engine :=
    machine.engine.noteAwake_noteAsleep hwaiting
  rw [wake_of_live hlater, hawake, hscope]
  exact settle_task machine .ready _ _ _ _ _

/-- A command whose pieces lead to its end, or to a failure, ends or fails in the world that they
lead to, if no stop comes. -/
theorem works_settle (machine : Machine σ) (hwaiting : machine.engine.runState ≠ .waiting)
    {seen : Nat} (hlive : machine.engine.signal.stoppedSince seen = false) {command : Command}
    {begun : World σ × Standing} {last : World σ × Option CommandFailure}
    (hleads : Leads (machine.scope host) command begun last) (activation : Activation)
    (callee : Option Program) :
    Works host
      (settle { machine with world := begun.1 } host activation command callee seen begun.2) []
      (settle { machine with world := last.1 } host activation command callee seen
        (last.2.elim .finished .failed)) := by
  induction hleads with
  | finished | failed => exact works_refl _
  | @asleep world ms pause _ hnext ih =>
    let flight : InFlight := ⟨activation, command, callee, pause, seen⟩
    let asleep : Machine σ :=
      { machine with
        engine := machine.engine.noteAsleep
        world := world.drawn pause.draws
        task := .suspended flight (world.now + Sleep.granted ms) }
    obtain ⟨runState, hasleep⟩ := machine.engine.exists_noteAsleep_eq
    have hsleeps : asleep.engine.signal.stoppedSince flight.seen = false := by
      simp only [asleep, flight, hasleep, hlive]
    have hsleep : Works host asleep [] ((asleep.waitUntil _).wake host flight) :=
      works_sleep asleep rfl hsleeps
    have hwake : (asleep.waitUntil (world.now + Sleep.granted ms)).wake host flight = _ :=
      wake_of_asleep machine hwaiting (world.drawn pause.draws) ms _ flight hlive
    rw [hwake] at hsleep
    exact hsleep.trans ih

/-- A machine with nothing in its way executes the command of the activation in front. -/
theorem advance_of_front {front : Activation} {others : List Activation}
    (hready : machine.task = .ready) (hengine : machine.engine.Unhindered)
    (hqueue : machine.engine.dropFinished.queue = front :: others) :
    machine.advance host =
      ({ machine with engine := machine.engine.dropFinished } : Machine σ).begin host front := by
  simp only [advance, step?, hready, choose, hengine.nextJob_cons hqueue]

/-! ## From one command to the next -/

/-- The machine is about to execute a queue in a world until it is empty, and nothing keeps it from
that. What is finished at the front of the queue does not matter. -/
structure Poised (scope : Scope σ) (world : World σ) (queue : List Activation)
    (machine : Machine σ) : Prop where
  task_eq : machine.task = .ready
  mode_eq : machine.mode = .untilIdle
  engine : machine.engine.Unhindered
  scope_eq : machine.scope scope.host = scope
  world_eq : machine.world = world
  queue_eq : machine.engine.dropFinished.queue = queue.dropWhile Activation.isFinished

/-- A finished activation in front does not matter. -/
theorem Poised.skip {scope : Scope σ} {world : World σ} {front : Activation}
    {others : List Activation} (h : machine.Poised scope world (front :: others))
    (hfinished : front.isFinished = true) : machine.Poised scope world others := by
  refine ⟨h.task_eq, h.mode_eq, h.engine, h.scope_eq, h.world_eq, ?_⟩
  rw [h.queue_eq, List.dropWhile_cons_of_pos hfinished]

/-- A machine that is poised executes the command of the activation in front, and is poised for what
follows: the program that the command calls, then the activation itself, then the others. -/
theorem Poised.command {scope : Scope σ} {world last : World σ} {front : Activation}
    {others : List Activation} {command : Command}
    (h : machine.Poised scope world (front :: others)) (hcurrent : front.current? = some command)
    {started : Start σ} (hstart : start scope command front world = started)
    (hleads : Leads scope command (started.world, started.standing) (last, none)) :
    ∃ reached id, Works scope.host machine [⟨front.name, front.step, command, world.now⟩] reached ∧
      reached.Poised scope last
        ((started.callee.map (.ofProgram id)).toList ++ started.activation.advance :: others) := by
  have hunfinished : front.isFinished = false := by
    have hstep := Activation.step_lt_of_current? hcurrent
    simp only [Activation.isFinished, (Activation.current?_eq_some hcurrent).1, Bool.false_or,
      decide_eq_false_iff_not]
    omega
  have hqueue : machine.engine.dropFinished.queue = front :: others := by
    rw [h.queue_eq, List.dropWhile_cons_of_neg (by simp [hunfinished])]
  have hjob := h.engine.nextJob_cons hqueue
  let chosen : Machine σ := { machine with engine := machine.engine.dropFinished }
  have hchosen : chosen.engine.Unhindered := h.engine.with_queue _ _
  have hscope : chosen.scope scope.host = scope := h.scope_eq
  have hworld : chosen.world = world := h.world_eq
  have hbegin : machine.advance scope.host =
      settle { chosen with world := started.world } scope.host started.activation command
        started.callee chosen.engine.signal.count started.standing := by
    rw [advance_of_front h.task_eq h.engine hqueue, begin_of_current? hcurrent, hscope, hworld,
      hstart]
  have hoccurrence : machine.occurrence? = some ⟨front.name, front.step, command, world.now⟩ := by
    simp only [occurrence?, starting?, h.task_eq, hjob, Option.bind_some, hcurrent, Option.map_some,
      h.world_eq]
  have hfirst : Works scope.host machine _ _ := works_advance machine
  rw [hoccurrence, hbegin] at hfirst
  have hsettle := works_settle chosen hchosen.ne_waiting hchosen.not_stoppedSince
    (hscope.symm ▸ hleads) started.activation started.callee
  simp only [Option.elim_none, settle] at hsettle
  have hid : front.id = started.activation.id := by
    rw [← hstart]
    exact (course_start scope command front world).id_eq.symm
  have hcommit := chosen.engine.commit_of_front hqueue hid started.callee
  refine ⟨_, machine.engine.nextId, hfirst.trans hsettle, rfl, h.mode_eq, ?_, ?_, rfl, ?_⟩
  · rw [hcommit]
    exact hchosen.with_queue _ _
  · rw [hcommit]
    exact hscope
  · rw [hcommit]
    rfl

/-- A machine that is poised carries out a command that does not steer, and is poised for the next
place. -/
theorem Poised.plain {scope : Scope σ} {program : Program} {place id : Nat} {counters : Counters}
    {world after : World σ} {others : List Activation} {command : Command}
    (h : machine.Poised scope world (.placed id program place counters :: others))
    (hcommand : program.commands[place]? = some command) (hplain : command.steers = false)
    (hafter : carryOut scope command world = (after, none)) :
    ∃ reached, Works scope.host machine [⟨program.name, place, command, world.now⟩] reached ∧
      reached.Poised scope after (.placed id program (place + 1) counters :: others) := by
  obtain ⟨hactivation, hcallee, hleads⟩ :=
    leads_carryOut (.placed id program place counters) world hplain
  rw [hafter] at hleads
  obtain ⟨reached, _, hworks, hreached⟩ := h.command hcommand rfl hleads
  rw [hactivation, hcallee] at hreached
  exact ⟨reached, hworks, hreached⟩

/-! ## Commands that steer -/

section Steering

variable {scope : Scope σ} {command : Command} {id place : Nat} {program : Program}
  {counters : Counters} {world : World σ}

/-- The pause before a rewind is followed by the wait of the line. -/
theorem leads_rewind (world : World σ) :
    Leads scope command (world, .asleep rewindPause .beforeRewind)
      (rested scope command (world.sleep rewindPause), none) :=
  .asleep (leads_trailingWait _)

/-- A loop without a count rewinds. -/
theorem start_loop_none (hkind : command.kind = .loop none) :
    start scope command (.placed id program place counters) world =
      rewind (.placed id program place counters) (echo scope command "Looping" world) := by
  simp only [start, hkind, loop]

/-- A loop with passes left counts one of them and rewinds. -/
theorem start_loop_succ {count left : Nat} (hkind : command.kind = .loop (some count))
    (hleft : counters.remaining place (initialRepeats scope.settings count) = left + 1) :
    start scope command (.placed id program place counters) world =
      rewind (.placed id program place (counters.set place left))
        (echo scope command (remainder "loop" (left + 1)) world) := by
  have hremaining : (Activation.placed id program place counters).remaining place
      (initialRepeats scope.settings count) = left + 1 := hleft
  have hstep : (Activation.placed id program place counters).step = place := rfl
  simp only [start, hkind, loop, hstep, hremaining, if_neg (Nat.succ_ne_zero left)]
  rfl

/-- A loop with no passes left forgets its count. -/
theorem start_loop_zero {count : Nat} (hkind : command.kind = .loop (some count))
    (hleft : counters.remaining place (initialRepeats scope.settings count) = 0) :
    start scope command (.placed id program place counters) world =
      { world := echo scope command (remainder "loop" 0) world
        activation := .placed id program place (counters.erase place)
        standing := .finished } := by
  have hremaining : (Activation.placed id program place counters).remaining place
      (initialRepeats scope.settings count) = 0 := hleft
  have hstep : (Activation.placed id program place counters).step = place := rfl
  simp only [start, hkind, loop, hstep, hremaining, if_true]
  rfl

/-- A craft gate with passes left counts one of them and rests. -/
theorem start_craft_succ {count left : Nat} (hkind : command.kind = .craft count)
    (hleft : counters.remaining place count = left + 1) :
    start scope command (.placed id program place counters) world =
      { world := echo scope command (remainder "craft" (left + 1)) world
        activation := .placed id program place (counters.set place left)
        standing := trailingWait scope command
          (echo scope command (remainder "craft" (left + 1)) world) } := by
  have hremaining : (Activation.placed id program place counters).remaining place count =
      left + 1 := hleft
  have hstep : (Activation.placed id program place counters).step = place := rfl
  simp only [start, hkind, craft, hstep, hremaining, if_neg (Nat.succ_ne_zero left)]
  rfl

/-- A craft gate with no passes left ends its activation. -/
theorem start_craft_zero {count : Nat} (hkind : command.kind = .craft count)
    (hleft : counters.remaining place count = 0) :
    start scope command (.placed id program place counters) world =
      { world := echo scope command (remainder "craft" 0) world
        activation := (Activation.placed id program place (counters.erase place)).finish
        standing := .finished } := by
  have hremaining : (Activation.placed id program place counters).remaining place count = 0 :=
    hleft
  have hstep : (Activation.placed id program place counters).step = place := rfl
  simp only [start, hkind, craft, hstep, hremaining, if_true]
  rfl

/-- A call prepares the program that it calls, and rests. -/
theorem start_runMacro {name : String} {saved : SavedMacro} {callee : Program}
    (hkind : command.kind = .runMacro name)
    (hsaved : world.ask scope.host.findMacro name = .ok saved)
    (hcallee : saved.program scope.settings scope.reader none = .ok callee) :
    start scope command (.placed id program place counters) world =
      { world
        activation := .placed id program place counters
        callee := some callee
        standing := trailingWait scope command world } := by
  simp only [start, hkind, runMacro, hsaved, hcallee]

end Steering

/-! ## Whole macros -/

/-- A machine that is poised does what the evaluation of the activation in front does, and is poised
for the others. -/
theorem Poised.evaluates {scope : Scope σ} {program : Program} {place : Nat} {counters : Counters}
    {world last : World σ} {log : List Occurrence}
    (heval : Evaluates scope program place counters world log last) {machine : Machine σ} {id : Nat}
    {others : List Activation}
    (h : machine.Poised scope world (.placed id program place counters :: others)) :
    ∃ reached, Works scope.host machine log reached ∧ reached.Poised scope last others := by
  induction heval generalizing machine id others with
  | pastEnd hplace =>
    exact ⟨machine, works_refl machine,
      h.skip (by rw [Activation.isFinished_placed, decide_eq_true hplace])⟩
  | plain hcommand hplain hafter _ ih =>
    obtain ⟨next, hfirst, hnext⟩ := h.plain hcommand hplain hafter
    obtain ⟨reached, hrest, hreached⟩ := ih hnext
    exact ⟨reached, hfirst.trans hrest, hreached⟩
  | loopsForever hcommand hkind _ ih =>
    obtain ⟨next, _, hfirst, hnext⟩ := h.command hcommand (start_loop_none hkind) (leads_rewind _)
    obtain ⟨reached, hrest, hreached⟩ := ih hnext
    exact ⟨reached, hfirst.trans hrest, hreached⟩
  | loops hcommand hkind hleft _ ih =>
    obtain ⟨next, _, hfirst, hnext⟩ :=
      h.command hcommand (start_loop_succ hkind hleft) (leads_rewind _)
    obtain ⟨reached, hrest, hreached⟩ := ih hnext
    exact ⟨reached, hfirst.trans hrest, hreached⟩
  | leavesLoop hcommand hkind hleft _ ih =>
    obtain ⟨next, _, hfirst, hnext⟩ :=
      h.command hcommand (start_loop_zero hkind hleft) (.finished _)
    obtain ⟨reached, hrest, hreached⟩ := ih hnext
    exact ⟨reached, hfirst.trans hrest, hreached⟩
  | passesGate hcommand hkind hleft _ ih =>
    obtain ⟨next, _, hfirst, hnext⟩ :=
      h.command hcommand (start_craft_succ hkind hleft) (leads_trailingWait _)
    obtain ⟨reached, hrest, hreached⟩ := ih hnext
    exact ⟨reached, hfirst.trans hrest, hreached⟩
  | endsAtGate hcommand hkind hleft =>
    obtain ⟨reached, _, hfirst, hreached⟩ :=
      h.command hcommand (start_craft_zero hkind hleft) (.finished _)
    exact ⟨reached, hfirst, hreached.skip rfl⟩
  | calls hcommand hkind hsaved hcallee _ _ ihinner ih =>
    -- The callee comes in front of its caller, which stands at its next command already.
    obtain ⟨next, _, hfirst, hnext⟩ :=
      h.command hcommand (start_runMacro hkind hsaved hcallee) (leads_trailingWait _)
    obtain ⟨middle, hinner, hmiddle⟩ := ihinner hnext
    obtain ⟨reached, hrest, hreached⟩ := ih hmiddle
    exact ⟨reached, (hfirst.trans hinner).trans hrest, hreached⟩

/-- A machine that is poised does what the evaluation of its whole queue does. -/
theorem Poised.evaluatesAll {scope : Scope σ} {queue : List Activation} {world last : World σ}
    {log : List Occurrence} (heval : EvaluatesAll scope queue world log last)
    (hqueue : ∀ activation ∈ queue, activation.nextStep = none) {machine : Machine σ}
    (h : machine.Poised scope world queue) :
    ∃ reached, Works scope.host machine log reached ∧ reached.Poised scope last [] := by
  induction heval generalizing machine with
  | nil => exact ⟨machine, works_refl machine, h⟩
  | finished hfinished _ ih =>
    have hothers := h.skip (by rw [Activation.isFinished, hfinished, Bool.true_or])
    exact ih (fun activation hmem => hqueue activation (List.mem_cons_of_mem _ hmem)) hothers
  | @cons front others world middle last log more hfinished hfirst _ ih =>
    have hplaced : front = .placed front.id ⟨front.name, front.commands⟩ front.step
        front.counters := by
      have hnextStep := hqueue front List.mem_cons_self
      cases front
      cases hfinished
      cases hnextStep
      rfl
    rw [hplaced] at h
    obtain ⟨next, hworks, hnext⟩ := h.evaluates hfirst
    obtain ⟨reached, hrest, hreached⟩ :=
      ih (fun activation hmem => hqueue activation (List.mem_cons_of_mem _ hmem)) hnext
    exact ⟨reached, hworks.trans hrest, hreached⟩

/-- A machine that is poised for nothing comes to an end. -/
theorem Poised.ends {scope : Scope σ} {world : World σ} (h : machine.Poised scope world []) :
    Works scope.host machine []
      { machine with engine := machine.engine.halt, task := .ended } := by
  have hjob := h.engine.nextJob_nil h.queue_eq
  have hadvance : machine.advance scope.host =
      { machine with engine := machine.engine.halt, task := .ended } := by
    simp only [advance, step?, h.task_eq, choose, hjob, rest, h.mode_eq]
  have hoccurrence : machine.occurrence? = none := by
    simp only [occurrence?, starting?, h.task_eq, hjob, Option.bind_none]
  have hlast : Works scope.host machine _ _ := works_advance machine
  rwa [hadvance, hoccurrence] at hlast

/-- A machine that is poised for nothing when it has started the listed commands is at rest soon,
with an empty queue. -/
theorem Works.ends {scope : Scope σ} {last : World σ} {log : List Occurrence}
    (h : Works scope.host machine log reached) (hreached : reached.Poised scope last []) :
    ∃ final, Works scope.host machine log final ∧ final.AtRest scope.host ∧ final.world = last ∧
      final.engine.queue = [] ∧ final.engine.runState = .stopped := by
  have hends := h.trans hreached.ends
  rw [List.append_nil] at hends
  exact ⟨_, hends, ⟨rfl, rfl⟩, hreached.world_eq, rfl, rfl⟩

/-- Launched with nothing in the way, a machine does what the evaluation of its queue does, and is
at rest at the end. -/
theorem works_launch {machine : Machine σ} {last : World σ} {log : List Occurrence}
    (hengine : machine.engine.Unhindered)
    (hqueue : ∀ activation ∈ machine.engine.queue, activation.nextStep = none)
    (heval : EvaluatesAll (machine.scope host) machine.engine.queue machine.world log last) :
    ∃ reached, Works host (machine.launch .untilIdle) log reached ∧ reached.AtRest host ∧
      reached.world = last ∧ reached.engine.queue = [] ∧ reached.engine.runState = .stopped := by
  have hpoised : (machine.launch .untilIdle).Poised (machine.scope host) machine.world
      machine.engine.queue := ⟨rfl, rfl, hengine, rfl, rfl, rfl⟩
  obtain ⟨idle, hworks, hidle⟩ := hpoised.evaluatesAll heval hqueue
  exact hworks.ends hidle

/-- Execution of the queue refines evaluation. If the queue of a reachable engine that runs, with no
loop latch set, has an evaluation, then executing it until there is nothing to do executes the same
commands at the same times, leaves the same world, with the same effects at the same times, and ends
stopped with an empty queue. -/
theorem untilIdle_refines_evaluation {machine : Machine σ} {last : World σ} {log : List Occurrence}
    (library : Library) (hmachine : machine.Reachable host)
    (hrunning : machine.engine.runState = .running) (hloggedIn : machine.engine.loggedIn = true)
    (hstop : machine.engine.stopAtLoop = false) (hpause : machine.engine.pauseAtLoop = false)
    (heval : EvaluatesAll (machine.scope host) machine.engine.queue machine.world log last) :
    ∃ moves final,
      runUntilIdle? host library (moves + 1) [] machine = some (final, []) ∧
        drive host moves (machine.launch .untilIdle) = final ∧
        history host moves (machine.launch .untilIdle) = log ∧
        final.world = last ∧ final.engine.queue = [] ∧ final.engine.runState = .stopped := by
  have hsound := (sound_of_reachable hmachine).engine
  have hengine := hsound.unhindered hrunning hloggedIn hstop hpause
  obtain ⟨final, ⟨moves, hdrive, hhistory⟩, hrest, hworld, hqueue, hstate⟩ :=
    works_launch hengine (fun activation hmem => (hsound.queued activation hmem).nextStep_eq) heval
  subst hdrive
  exact ⟨moves, _, run?_of_drive hrest, rfl, hhistory, hworld, hqueue, hstate⟩

/-- A macro that calls another one in a loop has an evaluation, and executing it refines that. -/
theorem untilIdle_refines_evaluation_of_calls :
    ∃ (machine : Machine DryRun) (log : List Occurrence) (last : World DryRun) (moves : Nat)
      (final : Machine DryRun),
      log.map (fun occurrence => (occurrence.name, occurrence.place)) =
        [("outer", 0), ("inner", 0), ("outer", 1), ("outer", 0), ("inner", 0), ("outer", 1)] ∧
      runUntilIdle? DryRun.host {} (moves + 1) [] machine = some (final, []) ∧
        drive DryRun.host moves (machine.launch .untilIdle) = final ∧
        history DryRun.host moves (machine.launch .untilIdle) = log ∧
        final.world = last ∧ final.engine.queue = [] ∧ final.engine.runState = .stopped := by
  let inner : SavedMacro := { name := "inner", contents := "/wait 1" }
  let outer : SavedMacro := { name := "outer", contents := "/runmacro inner\n/loop 1" }
  let pause : Program := ⟨"inner", [{ text := "/wait 1", kind := .wait, wait := .fixed 1000 }]⟩
  let twice : Program :=
    ⟨"outer", [{ text := "/runmacro inner", kind := .runMacro "inner" },
      { text := "/loop 1", kind := .loop (some 1) }]⟩
  have hread {saved : SavedMacro} {program : Program}
      (h : (saved.program {} (.ofSettings {}) none).toOption = some program) :
      saved.program {} (.ofSettings {}) none = .ok program := by
    cases hprogram : saved.program {} (.ofSettings {}) none with
    | error error => simp [hprogram, Except.toOption] at h
    | ok found => simpa [hprogram, Except.toOption] using h
  have hpause : inner.program {} (.ofSettings {}) none = .ok pause := hread (by decide +kernel)
  have htwice : outer.program {} (.ofSettings {}) none = .ok twice := hread (by decide +kernel)
  let world : World DryRun := { host := { library := { macros := [inner] } } }
  let machine : Machine DryRun := { engine := ((Engine.ofSettings {}).push twice).notify, world }
  have hmove : Machine.move? { engine := .ofSettings {}, world } DryRun.host
      (.call {} (.enqueue outer none)) = some machine := by
    have hqueued : (Engine.ofSettings {}).enqueue outer none =
        .ok ((Engine.ofSettings {}).push twice).notify := by
      simp only [Engine.enqueue]
      rw [show outer.program (Engine.ofSettings {}).settings (Engine.ofSettings {}).reader none =
        .ok twice from htwice]
      rfl
    simp only [move?, handle, Engine.handle, hqueued, machine]
  have hreachable : machine.Reachable DryRun.host := ⟨{}, world, _, .cons hmove (.nil _)⟩
  have hwait {world : World DryRun} : Evaluates (machine.scope DryRun.host) pause 0 [] world
      [⟨"inner", 0, { text := "/wait 1", kind := .wait, wait := .fixed 1000 }, world.now⟩]
      ((world.drawn 1).sleep 1000) :=
    .plain rfl rfl rfl (.pastEnd (by decide))
  obtain ⟨log, last, heval, hlog⟩ : ∃ log last,
      EvaluatesAll (machine.scope DryRun.host) machine.engine.queue machine.world log last ∧
        log.map (fun occurrence => (occurrence.name, occurrence.place)) =
          [("outer", 0), ("inner", 0), ("outer", 1), ("outer", 0), ("inner", 0), ("outer", 1)] :=
    ⟨_, _, .cons rfl (.calls rfl rfl rfl hpause hwait (.loops rfl rfl rfl
      (.calls rfl rfl rfl hpause hwait (.leavesLoop rfl rfl rfl (.pastEnd (by decide)))))) (.nil _),
      rfl⟩
  obtain ⟨moves, final, hfinal⟩ :=
    untilIdle_refines_evaluation {} hreachable rfl rfl rfl rfl heval
  exact ⟨machine, log, last, moves, final, hlog, hfinal⟩

end Machine

end GameMacros
