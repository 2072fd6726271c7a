import GameMacros.Engine.Effect
import GameMacros.Library.SavedMacro
import GameMacros.Script.Command

/-!
# Hosts

The host is the world outside the engine: the game, or something that stands in for it. It takes
effects and answers questions. What it answers may depend on the effects it took and on the time.
-/

namespace GameMacros

/-- A recipe for an item. There are eight crafts, numbered from zero. -/
structure Recipe where
  id : Nat
  craft : Nat
  deriving DecidableEq, Repr

/-- The class job of the craft. -/
def Recipe.classJob (recipe : Recipe) : Nat :=
  recipe.craft + 8

/-- Why the host does not do what it was asked to do. -/
inductive Refusal where
  | notFound
  | failed (reason : String)
  deriving DecidableEq, Repr

/-- A host with states `σ`. Questions are asked in a state and at a time in milliseconds. -/
structure Host (σ : Type) where
  /-- The state after an effect. -/
  perform : σ → (now : Nat) → Effect → σ
  /-- Why a click comes to nothing, if it does. -/
  clickRefusal : σ → (now : Nat) → (name : String) → Option Refusal
  /-- Why using an item of this quality comes to nothing, if it does. -/
  itemRefusal : σ → (now : Nat) → (name : String) → (hq : Bool) → Option Refusal
  isAddonVisible : σ → (now : Nat) → (name : String) → Bool
  isAddonReady : σ → (now : Nat) → (name : String) → Bool
  findTarget : σ → (now : Nat) → (name : String) → (index : Option Nat) → Option Nat
  /-- The recipes for an item whose name is given in lower case. -/
  recipesNamed : σ → (now : Nat) → (name : String) → List Recipe
  classJob : σ → (now : Nat) → Option Nat
  /-- The last action was acknowledged. -/
  isAcknowledged : σ → (now : Nat) → Bool
  /-- The last crafting action has come to its end. -/
  isCraftComplete : σ → (now : Nat) → Bool
  isCraftAction : σ → (now : Nat) → (name : String) → Bool
  isQualityAction : σ → (now : Nat) → (name : String) → Bool
  isCrafting : σ → (now : Nat) → Bool
  /-- The crafting condition, while there is one. -/
  condition : σ → (now : Nat) → Option String
  /-- The chance of high quality, in percent. -/
  hqChance : σ → (now : Nat) → Nat
  quality : σ → (now : Nat) → Nat
  stats : σ → (now : Nat) → CraftStats
  hasStatus : σ → (now : Nat) → (name : String) → Bool
  needsRepair : σ → (now : Nat) → Bool
  /-- An item is ready for extraction; with a bound, only when no other item reaches it. -/
  needsExtraction : σ → (now : Nat) → (within : Option Binary32) → Bool
  findMacro : σ → (now : Nat) → (name : String) → Except LookupError SavedMacro
  /-- A random number. The draws are numbered, so no draw decides what another one gives. -/
  roll : σ → (now : Nat) → (draw : Nat) → Nat

/-- A host in a state, the time, and the effects so far with their times, the latest first. -/
structure World (σ : Type) where
  host : σ
  now : Nat := 0
  past : List (Nat × Effect) := []
  /-- How many delays were drawn. -/
  draws : Nat := 0

namespace World

variable {σ : Type}

/-- Performs an effect. -/
def perform (world : World σ) (host : Host σ) (effect : Effect) : World σ :=
  { world with
    host := host.perform world.host world.now effect
    past := (world.now, effect) :: world.past }

/-- Asks the host a question. -/
def ask {α : Type} (world : World σ) (question : σ → Nat → α) : α :=
  question world.host world.now

/-- The random number for the next delay. -/
def roll (world : World σ) (host : Host σ) : Nat :=
  host.roll world.host world.now world.draws

/-- Counts delays that were drawn. -/
def drawn (world : World σ) (count : Nat) : World σ :=
  { world with draws := world.draws + count }

@[simp] theorem drawn_now (world : World σ) (count : Nat) : (world.drawn count).now = world.now :=
  rfl

/-- Lets the clock run to a time. The clock never runs backwards. -/
def waitUntil (world : World σ) (time : Nat) : World σ :=
  { world with now := max world.now time }

end World

end GameMacros
