import GameMacros.Engine.Activation
import GameMacros.Engine.Failure
import GameMacros.Engine.Host
import GameMacros.Engine.Poll

/-!
# Executing a command

A command is executed in pieces. Each piece runs without time passing, until the command ends,
fails or goes to sleep; a sleeping command remembers what it does when it wakes. All effects of a
command go to the host, and what it changes about its activation is kept in a copy.
-/

namespace GameMacros

/-- What a command polls for. -/
inductive Goal where
  /-- The host responds to an action, which may be tried again `left` times. -/
  | response (name : String) (left : Nat)
  | requirement (requirement : Requirement)
  | addon (name : String)
  deriving DecidableEq, Repr

/-- Time between two questions, in milliseconds. -/
def Goal.interval : Goal → Nat
  | .response .. => 50
  | .requirement _ => 250
  | .addon _ => 100

/-- What a sleeping command does when it wakes. -/
inductive Pause where
  /-- It ends. -/
  | trailing
  /-- It waits as long as its line says, and then ends. -/
  | beforeRewind
  /-- It asks again. -/
  | polling (goal : Goal) (poll : Poll)
  deriving DecidableEq, Repr

/-- How many delays were drawn for the pause. -/
def Pause.draws : Pause → Nat
  | .trailing => 1
  | .beforeRewind | .polling .. => 0

/-- Where a piece of a command has led. -/
inductive Standing where
  | finished
  | failed (failure : CommandFailure)
  | asleep (ms : Nat) (pause : Pause)
  deriving DecidableEq, Repr

namespace Execution

/-- Pause before a loop starts again, in milliseconds. It keeps a loop from spinning. -/
def rewindPause : Nat := 10

/-- What a command is executed with. -/
structure Scope (σ : Type) where
  host : Host σ
  settings : Settings
  reader : LineReader

/-- The beginning of a command: the world and the activation after it, the program that it calls,
and where it has led. -/
structure Start (σ : Type) where
  world : World σ
  activation : Activation
  callee : Option Program := none
  standing : Standing

variable {σ : Type}

/-- Waits as long as the line says, and ends. -/
def trailingWait (scope : Scope σ) (command : Command) (world : World σ) : Standing :=
  if command.wait.isZero then .finished
  else .asleep (command.wait.draw (world.roll scope.host)) .trailing

/-- The requirement is met. -/
def isMet (host : Host σ) (world : World σ) : Requirement → Bool
  | .status name => world.ask host.hasStatus name
  | .quality least => least ≤ world.ask host.quality
  | .repair => !world.ask host.needsRepair
  | .spiritbond within => !world.ask host.needsExtraction within
  | .stats least => (world.ask host.stats).reach least

/-- What is polled for has come about. -/
def isReached (scope : Scope σ) (world : World σ) : Goal → Bool
  | .response .. =>
    if scope.settings.smartWait then world.ask scope.host.isCraftComplete
    else world.ask scope.host.isAcknowledged
  | .requirement requirement => isMet scope.host world requirement
  | .addon name => world.ask scope.host.isAddonReady name

/-- How often an action is tried. -/
def attempts (settings : Settings) : Nat :=
  min settings.maxTimeoutRetries Settings.retryLimit + 1

/-- Ends a command whose goal is reached. Waiting for crafting actions to complete replaces the
wait of their lines. -/
def reached (scope : Scope σ) (command : Command) (world : World σ) : Goal → Standing
  | .response .. =>
    if scope.settings.smartWait then .finished else trailingWait scope command world
  | .requirement _ | .addon _ => trailingWait scope command world

/-- Asks once, and ends, sleeps or times out. -/
def ask (scope : Scope σ) (goal : Goal) (poll : Poll) (world : World σ) : Poll.Outcome Unit :=
  poll.next (if isReached scope world goal then some () else none)

/-- A poll of the goal that is yet to ask for the first time. -/
def freshPoll (command : Command) (goal : Goal) : Poll where
  interval := goal.interval
  timeout := command.maxWait

/-- Uses an action and polls for the response, at most `left` times. -/
def attempt (scope : Scope σ) (command : Command) (name : String) :
    (left : Nat) → World σ → World σ × Standing
  | 0, world => (world, .failed (.actionTimeout name (attempts scope.settings)))
  | left + 1, world =>
    let world := world.perform scope.host (.useAction name)
    let goal := Goal.response name left
    let poll := freshPoll command goal
    match ask scope goal poll world with
    | .ready () => (world, reached scope command world goal)
    | .asleep later => (world, .asleep poll.interval (.polling goal later))
    | .timedOut => attempt scope command name left world

/-- What follows a poll that has timed out. -/
def afterTimeout (scope : Scope σ) (command : Command) (world : World σ) :
    Goal → World σ × Standing
  | .response name left => attempt scope command name left world
  | .requirement requirement =>
    (world, .failed (.requirementTimeout requirement command.maxWait))
  | .addon name => (world, .failed (.addonTimeout name command.maxWait))

/-- Asks for a goal, and goes on as the answer demands. -/
def pursue (scope : Scope σ) (command : Command) (goal : Goal) (poll : Poll) (world : World σ) :
    World σ × Standing :=
  match ask scope goal poll world with
  | .ready () => (world, reached scope command world goal)
  | .asleep later => (world, .asleep poll.interval (.polling goal later))
  | .timedOut => afterTimeout scope command world goal

/-- The crafting action is left out: nothing is being crafted, the condition is not met, or high
quality is certain already. -/
def isSkipped (scope : Scope σ) (name : String) (condition : Option Condition)
    (world : World σ) : Bool :=
  (scope.settings.craftSkip && !world.ask scope.host.isCrafting) ||
    condition.any (fun tied => !tied.holds ((world.ask scope.host.condition).getD "")) ||
    (scope.settings.qualitySkip && world.ask scope.host.isQualityAction name &&
      100 ≤ world.ask scope.host.hqChance)

/-- Performs an effect and waits as long as the line says. -/
def performAndWait (scope : Scope σ) (command : Command) (world : World σ) (effect : Effect) :
    World σ × Standing :=
  let world := world.perform scope.host effect
  (world, trailingWait scope command world)

/-- Uses an action. Only crafting actions are skipped, responded to and tried again. -/
def action (scope : Scope σ) (command : Command) (name : String) (unsafeAction : Bool)
    (condition : Option Condition) (world : World σ) : World σ × Standing :=
  if !world.ask scope.host.isCraftAction name then
    performAndWait scope command world (.useAction name)
  else if isSkipped scope name condition world then (world, .finished)
  else if unsafeAction && !scope.settings.smartWait then
    performAndWait scope command world (.useAction name)
  else attempt scope command name (attempts scope.settings) world

/-- Performs an effect that the host may refuse. -/
def performUnlessRefused (scope : Scope σ) (command : Command) (world : World σ) (effect : Effect)
    (refusal : Option Refusal) (missing : CommandFailure) : World σ × Standing :=
  let (world, standing) := performAndWait scope command world effect
  match refusal with
  | none => (world, standing)
  | some .notFound => (world, .failed missing)
  | some (.failed reason) => (world, .failed (.refused reason))

/-- Clicks, by the name in lower case. -/
def click (scope : Scope σ) (command : Command) (name : String) (world : World σ) :
    World σ × Standing :=
  let lowercaseName := Text.lowercase name
  performUnlessRefused scope command world (.click lowercaseName)
    (world.ask scope.host.clickRefusal lowercaseName) (.clickNotFound name)

/-- Uses an item. -/
def item (scope : Scope σ) (command : Command) (name : String) (hq : Bool) (world : World σ) :
    World σ × Standing :=
  performUnlessRefused scope command world (.useItem name hq)
    (world.ask scope.host.itemRefusal name hq) (.itemNotFound name)

/-- Selects a target, or leaves that to the game. -/
def target (scope : Scope σ) (command : Command) (name : String) (world : World σ) :
    World σ × Standing :=
  if !scope.settings.useEngineTargeting then
    performAndWait scope command world (.chat s!"/target {name}")
  else
    match world.ask scope.host.findTarget name command.index with
    | some id => performAndWait scope command world (.target id)
    | none =>
      if scope.settings.stopMacroIfTargetNotFound then (world, .failed (.targetNotFound name))
      else performAndWait scope command world (.reportError s!"Could not find target: {name}")

/-- Of several recipes the first one of the current class job, and otherwise the first one. -/
def choose (classJob : Option Nat) : List Recipe → Option Recipe
  | [] => none
  | [only] => some only
  | first :: others =>
    some (((first :: others).find? fun recipe => some recipe.classJob == classJob).getD first)

/-- Opens the recipe of an item, unless something is being synthesized. -/
def recipe (scope : Scope σ) (command : Command) (name : String) (world : World σ) :
    World σ × Standing :=
  if world.ask scope.host.isAddonVisible "Synthesis" then (world, .failed .synthesisOpen)
  else
    match choose (world.ask scope.host.classJob) (world.ask scope.host.recipesNamed name) with
    | some chosen => performAndWait scope command world (.openRecipe chosen.id)
    | none => (world, .failed (.recipeNotFound name))

/-- A count with its noun. -/
def counted (count : Nat) (noun : String) : String :=
  if count = 1 then s!"{count} {noun}" else s!"{count} {noun}s"

/-- What is said about what remains. -/
def remainder (noun : String) (remaining : Nat) : String :=
  if remaining = 0 then s!"No {noun}s remaining" else s!"{counted remaining noun} remaining"

/-- Prints a message if the line or the settings ask for it. -/
def echo (scope : Scope σ) (command : Command) (message : String) (world : World σ) : World σ :=
  if command.echo || scope.settings.loopEcho then world.perform scope.host (.print message)
  else world

/-- With how many repeats a loop starts. -/
def initialRepeats (settings : Settings) (count : Nat) : Nat :=
  if settings.loopTotal then count - 1 else count

/-- Starts the macro again after a pause. -/
def rewind (activation : Activation) (world : World σ) : Start σ where
  world
  activation := activation.jumpTo 0
  standing := .asleep rewindPause .beforeRewind

/-- Starts the macro again while repeats remain. A loop that has run out starts anew when it is met
the next time. -/
def loop (scope : Scope σ) (command : Command) (count : Option Nat) (activation : Activation)
    (world : World σ) : Start σ :=
  match count with
  | none => rewind activation (echo scope command "Looping" world)
  | some count =>
    let place := activation.step
    let remaining := activation.remaining place (initialRepeats scope.settings count)
    let world := echo scope command (remainder "loop" remaining) world
    if remaining = 0 then { world, activation := activation.forget place, standing := .finished }
    else rewind (activation.setRemaining place (remaining - 1)) world

/-- Lets the macro pass a number of times, and then ends it. -/
def craft (scope : Scope σ) (command : Command) (count : Nat) (activation : Activation)
    (world : World σ) : Start σ :=
  let place := activation.step
  let remaining := activation.remaining place count
  let world := echo scope command (remainder "craft" remaining) world
  if remaining = 0 then
    { world, activation := (activation.forget place).finish, standing := .finished }
  else
    { world
      activation := activation.setRemaining place (remaining - 1)
      standing := trailingWait scope command world }

/-- Prepares the program that is called. It starts when this command has ended. -/
def runMacro (scope : Scope σ) (command : Command) (name : String) (activation : Activation)
    (world : World σ) : Start σ :=
  match world.ask scope.host.findMacro name with
  | .error error => { world, activation, standing := .failed (.noSuchMacro error) }
  | .ok saved =>
    match saved.program scope.settings scope.reader none with
    | .error error => { world, activation, standing := .failed (.badMacro error) }
    | .ok program =>
      { world
        activation
        callee := some program
        standing := trailingWait scope command world }

/-- Starts a command. -/
def start (scope : Scope σ) (command : Command) (activation : Activation) (world : World σ) :
    Start σ :=
  let unchanged (result : World σ × Standing) : Start σ :=
    { world := result.1, activation, standing := result.2 }
  match command.kind with
  | .action name unsafeAction condition =>
    unchanged (action scope command name unsafeAction condition world)
  | .click name => unchanged (click scope command name world)
  | .keys motion combo => unchanged (performAndWait scope command world (.keys motion combo))
  | .target name => unchanged (target scope command name world)
  | .recipe name => unchanged (recipe scope command name world)
  | .item name hq => unchanged (item scope command name hq world)
  | .require requirement =>
    let goal := Goal.requirement requirement
    unchanged (pursue scope command goal (freshPoll command goal) world)
  | .loop count => loop scope command count activation world
  | .craft count => craft scope command count activation world
  | .wait => unchanged (world, trailingWait scope command world)
  | .runMacro name => runMacro scope command name activation world
  | .waitAddon name =>
    let goal := Goal.addon name
    unchanged (pursue scope command goal (freshPoll command goal) world)
  | .native line => unchanged (performAndWait scope command world (.chat line))

/-- Goes on with a command that has slept to the end of its pause. -/
def resume (scope : Scope σ) (command : Command) (pause : Pause) (world : World σ) :
    World σ × Standing :=
  match pause with
  | .trailing => (world, .finished)
  | .beforeRewind => (world, trailingWait scope command world)
  | .polling goal poll => pursue scope command goal poll world

end Execution

end GameMacros
