import GameMacros.Engine.Schedule

/-!
# Commands and engines with a legacy

What has been at work brings something along: the time, the effects so far, the numbers that were
given to activations and the stops that were counted. None of it matters for what comes next. On
top of a legacy, commands and engines do what they do without, only later, after other effects, and
with other numbers.
-/

namespace GameMacros

open Execution

variable {σ : Type}

/-- What there is already when a machine starts: the time, the effects so far, how many activations
were given a number, and how many stops were counted. -/
structure Legacy where
  start : Nat
  past : List (Nat × Effect)
  numbers : Nat
  stops : Nat

/-- The host with its time counted from a start. -/
def Host.since (host : Host σ) (start : Nat) : Host σ where
  perform state now := host.perform state (start + now)
  clickRefusal state now := host.clickRefusal state (start + now)
  itemRefusal state now := host.itemRefusal state (start + now)
  isAddonVisible state now := host.isAddonVisible state (start + now)
  isAddonReady state now := host.isAddonReady state (start + now)
  findTarget state now := host.findTarget state (start + now)
  recipesNamed state now := host.recipesNamed state (start + now)
  classJob state now := host.classJob state (start + now)
  isAcknowledged state now := host.isAcknowledged state (start + now)
  isCraftComplete state now := host.isCraftComplete state (start + now)
  isCraftAction state now := host.isCraftAction state (start + now)
  isQualityAction state now := host.isQualityAction state (start + now)
  isCrafting state now := host.isCrafting state (start + now)
  condition state now := host.condition state (start + now)
  hqChance state now := host.hqChance state (start + now)
  quality state now := host.quality state (start + now)
  stats state now := host.stats state (start + now)
  hasStatus state now := host.hasStatus state (start + now)
  needsRepair state now := host.needsRepair state (start + now)
  needsExtraction state now := host.needsExtraction state (start + now)
  findMacro state now := host.findMacro state (start + now)
  roll state now := host.roll state (start + now)

/-- The scope with the time of its host counted from a start. -/
def Execution.Scope.since (scope : Scope σ) (start : Nat) : Scope σ :=
  { scope with host := scope.host.since start }

/-- The observation at a time that is counted from the beginning and not from a start. -/
def Observation.after (start : Nat) (observation : Observation) : Observation :=
  { observation with time := start + observation.time }

namespace Legacy

variable (legacy : Legacy)

/-! ## What is put on top -/

/-- The world on top of the legacy. -/
def world (world : World σ) : World σ where
  host := world.host
  now := legacy.start + world.now
  past := world.past.map (fun (time, effect) => (legacy.start + time, effect)) ++ legacy.past
  draws := world.draws

/-- A world with something else on top of the legacy. -/
def result {α : Type} (result : World σ × α) : World σ × α :=
  (legacy.world result.1, result.2)

/-- The activation with its number after those of the legacy. -/
def activation (activation : Activation) : Activation :=
  { activation with id := legacy.numbers + activation.id }

/-- The beginning of a command on top of the legacy. -/
def begun (begun : Start σ) : Start σ where
  world := legacy.world begun.world
  activation := legacy.activation begun.activation
  callee := begun.callee
  standing := begun.standing

/-- The engine on top of the legacy. -/
def engine (engine : Engine) : Engine :=
  { engine with
    queue := engine.queue.map legacy.activation
    signal := { engine.signal with count := legacy.stops + engine.signal.count }
    nextId := legacy.numbers + engine.nextId }

variable {legacy : Legacy} {host : Host σ} {scope : Scope σ} {world : World σ}

/-! ## The world -/

/-- The clock runs on top of a legacy. -/
theorem waitUntil_world (time : Nat) :
    (legacy.world world).waitUntil time = legacy.world (world.waitUntil (time - legacy.start)) := by
  have hnow : max (legacy.start + world.now) time =
      legacy.start + max world.now (time - legacy.start) := by omega
  simp only [World.waitUntil, Legacy.world, hnow]

/-! ## Pieces of commands -/

/-- The same requirements are met on top of a legacy. -/
theorem isMet_world (requirement : Requirement) :
    isMet host (legacy.world world) requirement =
      isMet (host.since legacy.start) world requirement := by
  cases requirement <;> rfl

/-- The same goals are reached on top of a legacy. -/
theorem isReached_world (goal : Goal) :
    isReached scope (legacy.world world) goal =
      isReached (scope.since legacy.start) world goal := by
  cases goal with
  | requirement requirement => exact isMet_world requirement
  | response | addon => rfl

/-- What follows a goal that is reached is the same on top of a legacy. -/
theorem reached_world (command : Command) (goal : Goal) :
    reached scope command (legacy.world world) goal =
      reached (scope.since legacy.start) command world goal := by
  cases goal <;> rfl

/-- A poll leads to the same place on top of a legacy if what follows a time-out does. -/
theorem pursue_world_of {goal : Goal} {command : Command}
    (hlate : ∀ world : World σ, afterTimeout scope command (legacy.world world) goal =
      legacy.result (afterTimeout (scope.since legacy.start) command world goal))
    (poll : Poll) (world : World σ) :
    pursue scope command goal poll (legacy.world world) =
      legacy.result (pursue (scope.since legacy.start) command goal poll world) := by
  unfold pursue ask
  rw [isReached_world]
  cases poll.next (if isReached (scope.since legacy.start) world goal then some () else none) with
  | ready answer => exact congrArg (legacy.world world, ·) (reached_world command goal)
  | asleep later => rfl
  | timedOut => exact hlate world

/-- Attempts at an action lead to the same place on top of a legacy. -/
theorem attempt_world (command : Command) (name : String) (left : Nat) (world : World σ) :
    attempt scope command name left (legacy.world world) =
      legacy.result (attempt (scope.since legacy.start) command name left world) := by
  induction left generalizing world with
  | zero => rfl
  | succ left ih =>
    have hlate (world : World σ) :
        afterTimeout scope command (legacy.world world) (.response name left) =
          legacy.result (afterTimeout (scope.since legacy.start) command world
            (.response name left)) := ih world
    exact pursue_world_of hlate (freshPoll command (.response name left))
      (world.perform (scope.host.since legacy.start) (.useAction name))

/-- A poll leads to the same place on top of a legacy. -/
theorem pursue_world (command : Command) (goal : Goal) (poll : Poll) (world : World σ) :
    pursue scope command goal poll (legacy.world world) =
      legacy.result (pursue (scope.since legacy.start) command goal poll world) := by
  refine pursue_world_of (fun world => ?_) poll world
  cases goal with
  | response name left => exact attempt_world command name left world
  | requirement | addon => rfl

/-- An effect that may be refused leads to the same place on top of a legacy. -/
theorem performUnlessRefused_world (command : Command) (effect : Effect)
    (refusal : Option Refusal) (missing : CommandFailure) :
    performUnlessRefused scope command (legacy.world world) effect refusal missing =
      legacy.result
        (performUnlessRefused (scope.since legacy.start) command world effect refusal missing) := by
  cases refusal with
  | none => rfl
  | some refusal => cases refusal <;> rfl

/-- The same actions are left out on top of a legacy. -/
theorem isSkipped_world (name : String) (condition : Option Condition) :
    isSkipped scope name condition (legacy.world world) =
      isSkipped (scope.since legacy.start) name condition world := rfl

/-- An action leads to the same place on top of a legacy. -/
theorem action_world (command : Command) (name : String) (unsafeAction : Bool)
    (condition : Option Condition) :
    action scope command name unsafeAction condition (legacy.world world) =
      legacy.result
        (action (scope.since legacy.start) command name unsafeAction condition world) := by
  have hcraft : (legacy.world world).ask scope.host.isCraftAction name =
      world.ask (scope.since legacy.start).host.isCraftAction name := rfl
  have hsettings : (scope.since legacy.start).settings = scope.settings := rfl
  unfold action
  rw [hcraft, isSkipped_world, hsettings]
  split
  · rfl
  · split
    · rfl
    · split
      · rfl
      · exact attempt_world command name _ world

/-- Selecting a target leads to the same place on top of a legacy. -/
theorem target_world (command : Command) (name : String) :
    target scope command name (legacy.world world) =
      legacy.result (target (scope.since legacy.start) command name world) := by
  have hfind : (legacy.world world).ask scope.host.findTarget name command.index =
      world.ask (scope.since legacy.start).host.findTarget name command.index := rfl
  have hsettings : (scope.since legacy.start).settings = scope.settings := rfl
  unfold target
  rw [hfind, hsettings]
  split
  · rfl
  · cases world.ask (scope.since legacy.start).host.findTarget name command.index with
    | some id => rfl
    | none =>
      dsimp only
      split <;> rfl

/-- Opening a recipe leads to the same place on top of a legacy. -/
theorem recipe_world (command : Command) (name : String) :
    recipe scope command name (legacy.world world) =
      legacy.result (recipe (scope.since legacy.start) command name world) := by
  have hvisible : (legacy.world world).ask scope.host.isAddonVisible "Synthesis" =
      world.ask (scope.since legacy.start).host.isAddonVisible "Synthesis" := rfl
  have hchosen :
      choose ((legacy.world world).ask scope.host.classJob)
          ((legacy.world world).ask scope.host.recipesNamed name) =
        choose (world.ask (scope.since legacy.start).host.classJob)
          (world.ask (scope.since legacy.start).host.recipesNamed name) := rfl
  unfold recipe
  rw [hvisible, hchosen]
  split
  · rfl
  · split <;> rfl

/-- A message is printed on top of a legacy or not at all. -/
theorem echo_world (command : Command) (message : String) :
    echo scope command message (legacy.world world) =
      legacy.world (echo (scope.since legacy.start) command message world) := by
  have hsettings : (scope.since legacy.start).settings = scope.settings := rfl
  unfold echo
  rw [hsettings]
  split <;> rfl

/-- A loop leads to the same place on top of a legacy. -/
theorem loop_world (command : Command) (count : Option Nat) (activation : Activation) :
    loop scope command count (legacy.activation activation) (legacy.world world) =
      legacy.begun (loop (scope.since legacy.start) command count activation world) := by
  cases count with
  | none => exact congrArg (rewind _) (echo_world command _)
  | some count =>
    have hremaining : (legacy.activation activation).remaining (legacy.activation activation).step
        (initialRepeats scope.settings count) =
        activation.remaining activation.step
          (initialRepeats (scope.since legacy.start).settings count) := rfl
    dsimp only [loop]
    rw [hremaining, echo_world]
    split <;> rfl

/-- A craft gate leads to the same place on top of a legacy. -/
theorem craft_world (command : Command) (count : Nat) (activation : Activation) :
    craft scope command count (legacy.activation activation) (legacy.world world) =
      legacy.begun (craft (scope.since legacy.start) command count activation world) := by
  have hremaining : (legacy.activation activation).remaining (legacy.activation activation).step
      count = activation.remaining activation.step count := rfl
  dsimp only [craft]
  rw [hremaining, echo_world]
  split <;> rfl

/-- A call prepares the same program on top of a legacy. -/
theorem runMacro_world (command : Command) (name : String) (activation : Activation) :
    runMacro scope command name (legacy.activation activation) (legacy.world world) =
      legacy.begun (runMacro (scope.since legacy.start) command name activation world) := by
  have hfind : (legacy.world world).ask scope.host.findMacro name =
      world.ask (scope.since legacy.start).host.findMacro name := rfl
  unfold runMacro
  rw [hfind]
  cases world.ask (scope.since legacy.start).host.findMacro name with
  | error error => rfl
  | ok saved =>
    have hprogram : saved.program scope.settings scope.reader none =
        saved.program (scope.since legacy.start).settings (scope.since legacy.start).reader none :=
      rfl
    dsimp only
    rw [hprogram]
    cases saved.program (scope.since legacy.start).settings (scope.since legacy.start).reader none
      with
    | error error => rfl
    | ok program => rfl

/-- A command starts in the same way on top of a legacy. -/
theorem start_world (command : Command) (activation : Activation) :
    Execution.start scope command (legacy.activation activation) (legacy.world world) =
      legacy.begun (Execution.start (scope.since legacy.start) command activation world) := by
  have hunchanged {result : World σ × Standing} {other : World σ × Standing}
      (hresult : result = legacy.result other) :
      ({ world := result.1, activation := legacy.activation activation, standing := result.2 } :
          Start σ) =
        legacy.begun { world := other.1, activation, standing := other.2 } := by
    rw [hresult]
    rfl
  unfold Execution.start
  cases command.kind with
  | action name unsafeAction condition =>
    exact hunchanged (action_world command name unsafeAction condition)
  | click name => exact hunchanged (performUnlessRefused_world command _ _ _)
  | target name => exact hunchanged (target_world command name)
  | recipe name => exact hunchanged (recipe_world command name)
  | item name hq => exact hunchanged (performUnlessRefused_world command _ _ _)
  | require requirement => exact hunchanged (pursue_world command _ _ world)
  | loop count => exact loop_world command count activation
  | craft count => exact craft_world command count activation
  | runMacro name => exact runMacro_world command name activation
  | waitAddon name => exact hunchanged (pursue_world command _ _ world)
  | keys | wait | native => rfl

/-- A command goes on in the same way on top of a legacy. -/
theorem resume_world (command : Command) (pause : Pause) :
    resume scope command pause (legacy.world world) =
      legacy.result (resume (scope.since legacy.start) command pause world) := by
  cases pause with
  | polling goal poll => exact pursue_world command goal poll world
  | trailing | beforeRewind => rfl

/-- A failure is reported in the same way on top of a legacy. -/
theorem report_world (settings : Settings) (name : String) (failure : CommandFailure) :
    Machine.report host settings name failure (legacy.world world) =
      legacy.world (Machine.report (host.since legacy.start) settings name failure world) := by
  have hall (effects : List Effect) (world : World σ) :
      effects.foldl (fun world effect => world.perform host effect) (legacy.world world) =
        legacy.world (effects.foldl
          (fun world effect => world.perform (host.since legacy.start) effect) world) := by
    induction effects generalizing world with
    | nil => rfl
    | cons effect effects ih => exact ih (world.perform (host.since legacy.start) effect)
  exact hall _
    (world.perform (host.since legacy.start) (.reportError s!"{name}: {failure.message}"))

/-! ## The engine -/

section Engine

variable {engine : Engine}

/-- What is finished is dropped on top of a legacy. -/
theorem dropFinished_engine :
    (legacy.engine engine).dropFinished = legacy.engine engine.dropFinished := by
  have hfinished : Activation.isFinished ∘ legacy.activation = Activation.isFinished := rfl
  unfold Engine.dropFinished Legacy.engine
  rw [List.dropWhile_map, hfinished]

/-- What an engine does next on top of a legacy. -/
def job : Engine.Job → Engine.Job
  | .run activation => .run (legacy.activation activation)
  | .idle => .idle
  | .shutDown => .shutDown

/-- A command is allowed to start on top of a legacy or not at all. -/
theorem allowStart_engine (engine : Engine) (front : Activation) :
    (legacy.engine engine).allowStart (legacy.activation front) =
      (legacy.engine (engine.allowStart front).1, legacy.job (engine.allowStart front).2) := by
  have hstate : (legacy.engine engine).runState = engine.runState := rfl
  have hstep : (legacy.engine engine).stepPending = engine.stepPending := rfl
  unfold Engine.allowStart
  rw [hstate, hstep]
  split
  · split <;> rfl
  · rfl

/-- The same command is chosen on top of a legacy. -/
theorem nextJob_engine :
    (legacy.engine engine).nextJob =
      (legacy.engine engine.nextJob.1, legacy.job engine.nextJob.2) := by
  have hdown : (legacy.engine engine).isShutDown = engine.isShutDown := rfl
  have hlogin : (legacy.engine engine).loggedIn = engine.loggedIn := rfl
  unfold Engine.nextJob
  rw [hdown, hlogin, dropFinished_engine]
  split
  · rfl
  split
  · rfl
  generalize engine.dropFinished = dropped
  have hqueue : (legacy.engine dropped).queue = dropped.queue.map legacy.activation := rfl
  have hstate : (legacy.engine dropped).runState = dropped.runState := rfl
  dsimp only
  rw [hqueue, hstate]
  cases dropped.queue with
  | nil =>
    rw [List.map_nil]
    dsimp only
    split <;> rfl
  | cons front others =>
    have hloop : (legacy.activation front).atLoopBoundary = front.atLoopBoundary := rfl
    have hstop : (legacy.engine dropped).stopAtLoop = dropped.stopAtLoop := rfl
    have hpause : (legacy.engine dropped).pauseAtLoop = dropped.pauseAtLoop := rfl
    rw [List.map_cons]
    dsimp only
    rw [hloop, hstop, hpause]
    split
    · rfl
    split
    · rfl
    split
    · exact allowStart_engine dropped.latchPause front
    · exact allowStart_engine dropped front

/-- A program is queued on top of a legacy. -/
theorem push_engine (program : Program) :
    (legacy.engine engine).push program = legacy.engine (engine.push program) := by
  have hstate : (legacy.engine engine).runState = engine.runState := rfl
  have hqueue : (legacy.engine engine).queue ++
      [Activation.ofProgram (legacy.engine engine).nextId program] =
      (engine.queue ++ [Activation.ofProgram engine.nextId program]).map legacy.activation := by
    rw [List.map_append]
    rfl
  unfold Engine.push
  rw [hstate, hqueue]
  split <;> rfl

/-- A macro is queued or refused on top of a legacy. -/
theorem handle_enqueue_engine (library : Library) (saved : SavedMacro) (loops : Option Nat) :
    (legacy.engine engine).handle library (.enqueue saved loops) =
      (legacy.engine (engine.handle library (.enqueue saved loops)).1,
        (engine.handle library (.enqueue saved loops)).2) := by
  have hsettings : (legacy.engine engine).settings = engine.settings := rfl
  have hreader : (legacy.engine engine).reader = engine.reader := rfl
  have hdown : (legacy.engine engine).isShutDown = engine.isShutDown := rfl
  simp only [Engine.handle, Engine.enqueue, hsettings, hreader, hdown]
  cases saved.program engine.settings engine.reader loops with
  | error error => rfl
  | ok program =>
    cases engine.isShutDown with
    | true => rfl
    | false =>
      exact congrArg (fun queued => (queued.notify, Call.Answer.queued)) (push_engine program)

/-- A call has the same answer and the same outcome on top of a legacy. -/
theorem handle_engine (library : Library) (call : Call) :
    (legacy.engine engine).handle library call =
      (legacy.engine (engine.handle library call).1, (engine.handle library call).2) := by
  have hstate : (legacy.engine engine).runState = engine.runState := rfl
  have hlogin : (legacy.engine engine).loggedIn = engine.loggedIn := rfl
  have htrigger : (legacy.engine engine).signal.trigger =
      { engine.signal.trigger with count := legacy.stops + engine.signal.trigger.count } := by
    have hdropped : (legacy.engine engine).signal.dropped = engine.signal.dropped := rfl
    unfold StopSignal.trigger
    rw [hdropped]
    split <;> rfl
  cases call with
  | enqueue saved loops => exact handle_enqueue_engine library saved loops
  | enqueueByName name loops =>
    have hsaved (saved : SavedMacro) :
        (legacy.engine engine).handle library (.enqueue saved loops) =
          (legacy.engine (engine.handle library (.enqueue saved loops)).1,
            (engine.handle library (.enqueue saved loops)).2) :=
      handle_enqueue_engine library saved loops
    simp only [Engine.handle, Engine.enqueueByName] at hsaved ⊢
    cases library.find name with
    | error error => rfl
    | ok saved => exact hsaved saved
  | pause atLoop =>
    cases atLoop with
    | true => rfl
    | false =>
      dsimp only [Engine.handle, Engine.pause]
      rw [hstate]
      cases engine.runState <;> rfl
  | resume =>
    dsimp only [Engine.handle, Engine.resume]
    rw [hstate]
    split <;> rfl
  | stepOnce =>
    dsimp only [Engine.handle, Engine.stepOnce]
    rw [hstate]
    split <;> rfl
  | stop atLoop =>
    cases atLoop with
    | true => rfl
    | false =>
      dsimp only [Engine.handle, Engine.stop]
      rw [htrigger]
      rfl
  | shutDown =>
    dsimp only [Engine.handle, Engine.shutDown]
    rw [htrigger]
    rfl
  | login | logout =>
    dsimp only [Engine.handle, Engine.setLoggedIn]
    rw [hlogin]
    split <;> rfl
  | look | summary => rfl

/-- The same is shown of an engine on top of a legacy, later. -/
theorem observe_engine (answer : Call.Answer) (time : Nat) :
    (legacy.engine engine).observe answer (legacy.start + time) =
      (engine.observe answer time).after legacy.start := by
  have hqueue : (legacy.engine engine).queue = engine.queue.map legacy.activation := rfl
  unfold Engine.observe
  rw [hqueue, List.map_map]
  rfl

/-- The end of a command has the same outcome on top of a legacy. -/
theorem commit_engine (activation : Activation) (callee : Option Program) :
    (legacy.engine engine).commit (legacy.activation activation) callee =
      legacy.engine (engine.commit activation callee) := by
  have hqueue : (legacy.engine engine).queue = engine.queue.map legacy.activation := rfl
  unfold Engine.commit
  rw [hqueue]
  cases engine.queue with
  | nil => rfl
  | cons front others =>
    have hid : (legacy.activation front).id = (legacy.activation activation).id ↔
        front.id = activation.id := Nat.add_left_cancel_iff
    rw [List.map_cons]
    dsimp only
    simp only [hid]
    split
    · cases callee <;> rfl
    · rfl

/-- Going to sleep is noted on top of a legacy. -/
theorem noteAsleep_engine :
    (legacy.engine engine).noteAsleep = legacy.engine engine.noteAsleep := by
  have hstate : (legacy.engine engine).runState = engine.runState := rfl
  unfold Engine.noteAsleep
  rw [hstate]
  split <;> rfl

/-- Waking is noted on top of a legacy. -/
theorem noteAwake_engine : (legacy.engine engine).noteAwake = legacy.engine engine.noteAwake := by
  have hstate : (legacy.engine engine).runState = engine.runState := rfl
  unfold Engine.noteAwake
  rw [hstate]
  split <;> rfl

/-- The same stops are seen on top of a legacy. -/
theorem stoppedSince_engine (seen : Nat) :
    (legacy.engine engine).signal.stoppedSince (legacy.stops + seen) =
      engine.signal.stoppedSince seen := by
  simp [StopSignal.stoppedSince, Legacy.engine]

end Engine

end Legacy

end GameMacros
