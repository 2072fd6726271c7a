import GameMacros.Engine.Host

/-!
# A scripted host

A host whose answers are laid down in advance. Answers may change at given times. Only one thing
depends on what the engine does: an action is acknowledged, and a crafting action complete, some
time after it was used.
-/

namespace GameMacros

/-- Something that can be targeted. -/
structure NamedTarget where
  name : String
  index : Option Nat
  id : Nat
  deriving DecidableEq, Repr

/-- A recipe for an item. -/
structure NamedRecipe where
  name : String
  recipe : Recipe
  deriving DecidableEq, Repr

/-- An item that is ready for extraction. -/
structure Extraction where
  /-- The spiritbond of the next item, or nothing if it reaches no bound at all. -/
  next : Option Binary32
  deriving DecidableEq, Repr

/-- Answers to some questions. A question without an answer here is answered elsewhere. -/
structure Answers where
  clickRefusals : Option (List (String × Refusal)) := none
  /-- Items are refused by their names, whatever their quality. -/
  itemRefusals : Option (List (String × Refusal)) := none
  visibleAddons : Option (List String) := none
  readyAddons : Option (List String) := none
  statuses : Option (List String) := none
  craftActions : Option (List String) := none
  qualityActions : Option (List String) := none
  targets : Option (List NamedTarget) := none
  recipes : Option (List NamedRecipe) := none
  classJob : Option (Option Nat) := none
  /-- After how long each action in turn is acknowledged, in milliseconds, or never. -/
  acknowledgements : Option (List (Option Nat)) := none
  /-- After how long each action in turn is complete, in milliseconds, or never. -/
  completions : Option (List (Option Nat)) := none
  crafting : Option Bool := none
  condition : Option (Option String) := none
  hqChance : Option Nat := none
  quality : Option Nat := none
  stats : Option CraftStats := none
  needsRepair : Option Bool := none
  extraction : Option (Option Extraction) := none
  deriving DecidableEq, Repr

/-- The first answers as far as they go, and then the second ones. -/
def Answers.orElse (first second : Answers) : Answers where
  clickRefusals := first.clickRefusals <|> second.clickRefusals
  itemRefusals := first.itemRefusals <|> second.itemRefusals
  visibleAddons := first.visibleAddons <|> second.visibleAddons
  readyAddons := first.readyAddons <|> second.readyAddons
  statuses := first.statuses <|> second.statuses
  craftActions := first.craftActions <|> second.craftActions
  qualityActions := first.qualityActions <|> second.qualityActions
  targets := first.targets <|> second.targets
  recipes := first.recipes <|> second.recipes
  classJob := first.classJob <|> second.classJob
  acknowledgements := first.acknowledgements <|> second.acknowledgements
  completions := first.completions <|> second.completions
  crafting := first.crafting <|> second.crafting
  condition := first.condition <|> second.condition
  hqChance := first.hqChance <|> second.hqChance
  quality := first.quality <|> second.quality
  stats := first.stats <|> second.stats
  needsRepair := first.needsRepair <|> second.needsRepair
  extraction := first.extraction <|> second.extraction

/-- The state of a scripted host. -/
structure ScriptedHost where
  answers : Answers := {}
  /-- Answers that hold from a time on. Later entries go before earlier ones. -/
  changes : List (Nat × Answers) := []
  library : Library := {}
  /-- How many actions were used. -/
  uses : Nat := 0
  /-- When the last action is acknowledged, if ever. -/
  acknowledgedAt : Option Nat := none
  /-- When the last action is complete, if ever. -/
  completeAt : Option Nat := none

namespace ScriptedHost

/-- The answer to a question at a time, or `fallback` where nothing is laid down. -/
def read {α : Type} (field : Answers → Option α) (fallback : α) (host : ScriptedHost)
    (now : Nat) : α :=
  match host.changes.reverse.findSome? fun (time, answers) =>
    if time ≤ now then field answers else none with
  | some answer => answer
  | none => (field host.answers).getD fallback

/-- When an action that is used now is responded to, if ever. Actions for which nothing is laid
down are responded to at once. -/
def responseTime (delays : List (Option Nat)) (host : ScriptedHost) (now : Nat) : Option Nat :=
  (delays[host.uses]?.getD (some 0)).map (now + ·)

/-- The state after an effect. -/
def perform (host : ScriptedHost) (now : Nat) : Effect → ScriptedHost
  | .useAction _ =>
    { host with
      uses := host.uses + 1
      acknowledgedAt := host.responseTime (host.read Answers.acknowledgements [] now) now
      completeAt := host.responseTime (host.read Answers.completions [] now) now }
  | _ => host

/-- A target with this name and, if one is asked for, this index. -/
def findTarget (host : ScriptedHost) (now : Nat) (name : String) (index : Option Nat) :
    Option Nat :=
  ((host.read Answers.targets [] now).find? fun target =>
    target.name == name && index.all fun wanted => target.index == some wanted).map (·.id)

/-- An item is ready for extraction, and no other item reaches the bound. -/
def needsExtraction (host : ScriptedHost) (now : Nat) (within : Option Binary32) : Bool :=
  match host.read Answers.extraction none now with
  | none => false
  | some extraction =>
    within.all fun bound => extraction.next.all fun next => next.bits < bound.bits

/-- A scripted host answers from its state. Random numbers are all zero. -/
def host : Host ScriptedHost where
  perform := perform
  clickRefusal host now name := (host.read Answers.clickRefusals [] now).lookup name
  itemRefusal host now name _hq := (host.read Answers.itemRefusals [] now).lookup name
  isAddonVisible host now name := (host.read Answers.visibleAddons [] now).contains name
  isAddonReady host now name := (host.read Answers.readyAddons [] now).contains name
  findTarget := findTarget
  recipesNamed host now name :=
    ((host.read Answers.recipes [] now).filter (·.name == name)).map NamedRecipe.recipe
  classJob host now := host.read Answers.classJob none now
  isAcknowledged host now := host.acknowledgedAt.any (· ≤ now)
  isCraftComplete host now := host.completeAt.any (· ≤ now)
  isCraftAction host now name := (host.read Answers.craftActions [] now).contains name
  isQualityAction host now name := (host.read Answers.qualityActions [] now).contains name
  isCrafting host now := host.read Answers.crafting false now
  condition host now := host.read Answers.condition none now
  hqChance host now := host.read Answers.hqChance 0 now
  quality host now := host.read Answers.quality 0 now
  stats host now := host.read Answers.stats {} now
  hasStatus host now name := (host.read Answers.statuses [] now).contains name
  needsRepair host now := host.read Answers.needsRepair false now
  needsExtraction := needsExtraction
  findMacro host _ name := host.library.find name
  roll _ _ _ := 0

end ScriptedHost

end GameMacros
