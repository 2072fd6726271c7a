import GameMacros.Engine.Execution
import GameMacros.Engine.Sleep

/-!
# Evaluation of macros

What a macro does when nothing comes in between, without an engine and without a queue: its commands
are carried out from the first to the last, a loop goes back to the first, a spent craft gate ends
the macro, and a macro that is called is evaluated to its end before the caller goes on. A command
is carried out in one go, however often it sleeps.
-/

namespace GameMacros

/-- Lets the clock run as long as a sleep is granted. -/
def World.sleep {σ : Type} (world : World σ) (ms : Nat) : World σ :=
  world.waitUntil (world.now + Sleep.granted ms)

/-- The command decides where its macro goes on. -/
def Command.steers (command : Command) : Bool :=
  match command.kind with
  | .loop _ | .craft _ | .runMacro _ => true
  | _ => false

namespace Execution

variable {σ : Type}

/-! ## Commands -/

/-- The world after the wait of the line. -/
def rested (scope : Scope σ) (command : Command) (world : World σ) : World σ :=
  if command.wait.isZero then world
  else (world.drawn 1).sleep (command.wait.draw (world.roll scope.host))

/-- Asks for a goal until it is reached, at most `more` times after the first. Gives the world after
the last question and whether the goal was reached. -/
def await (scope : Scope σ) (goal : Goal) : (more : Nat) → World σ → World σ × Bool
  | 0, world => (world, isReached scope world goal)
  | more + 1, world =>
    if isReached scope world goal then (world, true)
    else await scope goal more (world.sleep goal.interval)

/-- Asks for a goal as long as the line allows. -/
def awaitInTime (scope : Scope σ) (command : Command) (goal : Goal) (world : World σ) :
    World σ × Bool :=
  await scope goal (command.maxWait / goal.interval) world

/-- Uses an action until the host responds, at most `left` times. -/
def insist (scope : Scope σ) (command : Command) (name : String) :
    (left : Nat) → World σ → World σ × Option CommandFailure
  | 0, world => (world, some (.actionTimeout name (attempts scope.settings)))
  | left + 1, world =>
    match awaitInTime scope command (.response name left)
        (world.perform scope.host (.useAction name)) with
    | (world, true) =>
      (if scope.settings.smartWait then world else rested scope command world, none)
    | (world, false) => insist scope command name left world

/-- Performs an effect and rests. -/
def act (scope : Scope σ) (command : Command) (world : World σ) (effect : Effect) :
    World σ × Option CommandFailure :=
  (rested scope command (world.perform scope.host effect), none)

/-- Performs an effect, and rests unless the host refuses it. -/
def actUnlessRefused (scope : Scope σ) (command : Command) (world : World σ) (effect : Effect)
    (missing : CommandFailure) : Option Refusal → World σ × Option CommandFailure
  | none => act scope command world effect
  | some .notFound => (world.perform scope.host effect, some missing)
  | some (.failed reason) => (world.perform scope.host effect, some (.refused reason))

/-- Rests when the goal is reached in time. -/
def restWhenReached (scope : Scope σ) (command : Command) (world : World σ) (goal : Goal)
    (late : CommandFailure) : World σ × Option CommandFailure :=
  match awaitInTime scope command goal world with
  | (world, true) => (rested scope command world, none)
  | (world, false) => (world, some late)

/-- Carries out a command that does not steer: the world after it, and why it failed if it did. -/
def carryOut (scope : Scope σ) (command : Command) (world : World σ) :
    World σ × Option CommandFailure :=
  match command.kind with
  | .action name unsafeAction condition =>
    if !world.ask scope.host.isCraftAction name then act scope command world (.useAction name)
    else if isSkipped scope name condition world then (world, none)
    else if unsafeAction && !scope.settings.smartWait then
      act scope command world (.useAction name)
    else insist scope command name (attempts scope.settings) world
  | .click name =>
    let lowercaseName := Text.lowercase name
    actUnlessRefused scope command world (.click lowercaseName) (.clickNotFound name)
      (world.ask scope.host.clickRefusal lowercaseName)
  | .keys motion combo => act scope command world (.keys motion combo)
  | .target name =>
    if !scope.settings.useEngineTargeting then
      act scope command world (.chat s!"/target {name}")
    else
      match world.ask scope.host.findTarget name command.index with
      | some id => act scope command world (.target id)
      | none =>
        if scope.settings.stopMacroIfTargetNotFound then (world, some (.targetNotFound name))
        else act scope command world (.reportError s!"Could not find target: {name}")
  | .recipe name =>
    if world.ask scope.host.isAddonVisible "Synthesis" then (world, some .synthesisOpen)
    else
      match choose (world.ask scope.host.classJob) (world.ask scope.host.recipesNamed name) with
      | some chosen => act scope command world (.openRecipe chosen.id)
      | none => (world, some (.recipeNotFound name))
  | .item name hq =>
    actUnlessRefused scope command world (.useItem name hq) (.itemNotFound name)
      (world.ask scope.host.itemRefusal name hq)
  | .require requirement =>
    restWhenReached scope command world (.requirement requirement)
      (.requirementTimeout requirement command.maxWait)
  | .waitAddon name =>
    restWhenReached scope command world (.addon name) (.addonTimeout name command.maxWait)
  | .native line => act scope command world (.chat line)
  | .wait | .loop _ | .craft _ | .runMacro _ => (rested scope command world, none)

end Execution

open Execution

/-! ## Macros -/

/-- A command that is executed: of which macro, at which place, and at what time. -/
structure Occurrence where
  name : String
  place : Nat
  command : Command
  time : Nat
  deriving DecidableEq, Repr

/-- What remains at a place that starts with `initial`. -/
def Counters.remaining (counters : Counters) (place initial : Nat) : Nat :=
  (counters.get? place).getD initial

/-- A program is evaluated from a place on, with these counters, in a world: it executes the listed
commands and leaves another world. There is no evaluation when it goes on forever or a command
fails. -/
inductive Evaluates {σ : Type} (scope : Scope σ) :
    Program → (place : Nat) → Counters → World σ → List Occurrence → World σ → Prop
  | pastEnd {program : Program} {place : Nat} {counters : Counters} {world : World σ}
      (hplace : program.commands.length ≤ place) :
      Evaluates scope program place counters world [] world
  | plain {program : Program} {place : Nat} {counters : Counters} {world after last : World σ}
      {command : Command} {log : List Occurrence}
      (hcommand : program.commands[place]? = some command) (hplain : command.steers = false)
      (hafter : carryOut scope command world = (after, none))
      (hrest : Evaluates scope program (place + 1) counters after log last) :
      Evaluates scope program place counters world
        (⟨program.name, place, command, world.now⟩ :: log) last
  | loopsForever {program : Program} {place : Nat} {counters : Counters} {world last : World σ}
      {command : Command} {log : List Occurrence}
      (hcommand : program.commands[place]? = some command) (hkind : command.kind = .loop none)
      (hrest : Evaluates scope program 0 counters
        (rested scope command ((echo scope command "Looping" world).sleep rewindPause)) log last) :
      Evaluates scope program place counters world
        (⟨program.name, place, command, world.now⟩ :: log) last
  | loops {program : Program} {place : Nat} {counters : Counters} {world last : World σ}
      {command : Command} {log : List Occurrence} {count left : Nat}
      (hcommand : program.commands[place]? = some command)
      (hkind : command.kind = .loop (some count))
      (hleft : counters.remaining place (initialRepeats scope.settings count) = left + 1)
      (hrest : Evaluates scope program 0 (counters.set place left)
        (rested scope command ((echo scope command (remainder "loop" (left + 1)) world).sleep
          rewindPause)) log last) :
      Evaluates scope program place counters world
        (⟨program.name, place, command, world.now⟩ :: log) last
  | leavesLoop {program : Program} {place : Nat} {counters : Counters} {world last : World σ}
      {command : Command} {log : List Occurrence} {count : Nat}
      (hcommand : program.commands[place]? = some command)
      (hkind : command.kind = .loop (some count))
      (hleft : counters.remaining place (initialRepeats scope.settings count) = 0)
      (hrest : Evaluates scope program (place + 1) (counters.erase place)
        (echo scope command (remainder "loop" 0) world) log last) :
      Evaluates scope program place counters world
        (⟨program.name, place, command, world.now⟩ :: log) last
  | passesGate {program : Program} {place : Nat} {counters : Counters} {world last : World σ}
      {command : Command} {log : List Occurrence} {count left : Nat}
      (hcommand : program.commands[place]? = some command) (hkind : command.kind = .craft count)
      (hleft : counters.remaining place count = left + 1)
      (hrest : Evaluates scope program (place + 1) (counters.set place left)
        (rested scope command (echo scope command (remainder "craft" (left + 1)) world)) log
        last) :
      Evaluates scope program place counters world
        (⟨program.name, place, command, world.now⟩ :: log) last
  | endsAtGate {program : Program} {place : Nat} {counters : Counters} {world : World σ}
      {command : Command} {count : Nat}
      (hcommand : program.commands[place]? = some command) (hkind : command.kind = .craft count)
      (hleft : counters.remaining place count = 0) :
      Evaluates scope program place counters world [⟨program.name, place, command, world.now⟩]
        (echo scope command (remainder "craft" 0) world)
  | calls {program callee : Program} {place : Nat} {counters : Counters}
      {world middle last : World σ} {command : Command} {inner log : List Occurrence}
      {name : String} {saved : SavedMacro} (hcommand : program.commands[place]? = some command)
      (hkind : command.kind = .runMacro name)
      (hsaved : world.ask scope.host.findMacro name = .ok saved)
      (hcallee : saved.program scope.settings scope.reader none = .ok callee)
      (hinner : Evaluates scope callee 0 [] (rested scope command world) inner middle)
      (hrest : Evaluates scope program (place + 1) counters middle log last) :
      Evaluates scope program place counters world
        (⟨program.name, place, command, world.now⟩ :: inner ++ log) last

/-- The activations of a queue are evaluated one after the other, each from where it stands. -/
inductive EvaluatesAll {σ : Type} (scope : Scope σ) :
    List Activation → World σ → List Occurrence → World σ → Prop
  | nil (world : World σ) : EvaluatesAll scope [] world [] world
  | finished {activation : Activation} {queue : List Activation} {world last : World σ}
      {log : List Occurrence} (hfinished : activation.finished = true)
      (hothers : EvaluatesAll scope queue world log last) :
      EvaluatesAll scope (activation :: queue) world log last
  | cons {activation : Activation} {queue : List Activation} {world middle last : World σ}
      {log others : List Occurrence} (hfinished : activation.finished = false)
      (hfirst : Evaluates scope ⟨activation.name, activation.commands⟩ activation.step
        activation.counters world log middle)
      (hothers : EvaluatesAll scope queue middle others last) :
      EvaluatesAll scope (activation :: queue) world (log ++ others) last

end GameMacros
