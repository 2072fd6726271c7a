import GameMacros.Engine.Machine
import GameMacros.Host.DryRun

/-!
# Hosts that ignore the clock

What a host answers may depend on the effects it took and on nothing else. Under such a host two
worlds that took the same effects, at whatever times, lead every piece of a command to the same
place: only the lengths of sleeps and the clock may differ. This is proved for every relation
between worlds that the host respects, since the same argument shows that no effect is ever taken
back.
-/

namespace GameMacros

variable {σ : Type}

namespace Host

variable {host : Host σ}

/-- The state after effects that are performed at these times, the latest first. -/
def after (host : Host σ) (start : σ) (past : List (Nat × Effect)) : σ :=
  past.foldr (fun entry state => host.perform state entry.1 entry.2) start

/-- In two states, at two times, the host answers every question in the same way. Random numbers may
differ. -/
structure Agree (host : Host σ) (state : σ) (now : Nat) (other : σ) (later : Nat) : Prop where
  clickRefusal : ∀ name, host.clickRefusal state now name = host.clickRefusal other later name
  itemRefusal : ∀ name hq,
    host.itemRefusal state now name hq = host.itemRefusal other later name hq
  isAddonVisible : ∀ name, host.isAddonVisible state now name = host.isAddonVisible other later name
  isAddonReady : ∀ name, host.isAddonReady state now name = host.isAddonReady other later name
  findTarget : ∀ name index,
    host.findTarget state now name index = host.findTarget other later name index
  recipesNamed : ∀ name, host.recipesNamed state now name = host.recipesNamed other later name
  classJob : host.classJob state now = host.classJob other later
  isAcknowledged : host.isAcknowledged state now = host.isAcknowledged other later
  isCraftComplete : host.isCraftComplete state now = host.isCraftComplete other later
  isCraftAction : ∀ name, host.isCraftAction state now name = host.isCraftAction other later name
  isQualityAction : ∀ name,
    host.isQualityAction state now name = host.isQualityAction other later name
  isCrafting : host.isCrafting state now = host.isCrafting other later
  condition : host.condition state now = host.condition other later
  hqChance : host.hqChance state now = host.hqChance other later
  quality : host.quality state now = host.quality other later
  stats : host.stats state now = host.stats other later
  hasStatus : ∀ name, host.hasStatus state now name = host.hasStatus other later name
  needsRepair : host.needsRepair state now = host.needsRepair other later
  needsExtraction : ∀ within,
    host.needsExtraction state now within = host.needsExtraction other later within
  findMacro : ∀ name, host.findMacro state now name = host.findMacro other later name

/-- A host agrees with itself. -/
theorem agree_refl (host : Host σ) (state : σ) (now : Nat) : host.Agree state now state now := by
  constructor <;> intros <;> rfl

/-- What the host answers depends on the effects since a state, and not on the clock. -/
def IgnoresClock (host : Host σ) (start : σ) : Prop :=
  ∀ past others, past.map Prod.snd = others.map Prod.snd → ∀ now later,
    host.Agree (host.after start past) now (host.after start others) later

/-- In related worlds the host answers in the same way, and the same effect leaves them related. -/
structure Respects (host : Host σ) (R : World σ → World σ → Prop) : Prop where
  agree : ∀ {world other}, R world other →
    host.Agree world.host world.now other.host other.now
  perform : ∀ {world other} effect, R world other →
    R (world.perform host effect) (other.perform host effect)

/-- The same effects leave worlds related. -/
theorem Respects.performAll {R : World σ → World σ → Prop} (h : host.Respects R)
    {world other : World σ} (hrelated : R world other) (effects : List Effect) :
    R (effects.foldl (fun world effect => world.perform host effect) world)
      (effects.foldl (fun world effect => world.perform host effect) other) := by
  induction effects generalizing world other with
  | nil => exact hrelated
  | cons effect effects ih => exact ih (h.perform effect hrelated)

end Host

/-- The host of a dry run ignores the clock. -/
theorem DryRun.ignoresClock (start : DryRun) : DryRun.host.IgnoresClock start := by
  intro past others heq now later
  have hafter (entries : List (Nat × Effect)) : DryRun.host.after start entries =
      (entries.map Prod.snd).foldr (fun effect run => DryRun.perform run 0 effect) start := by
    rw [List.foldr_map]
    rfl
  rw [hafter, hafter, heq]
  constructor <;> intros <;> rfl

namespace World

variable {host : Host σ} {start world other : World σ}

/-- The effects so far without their times, the first one first. -/
def effects (world : World σ) : List Effect :=
  (world.past.map Prod.snd).reverse

/-- The world has come from another one by these effects, the latest first. -/
def Since (host : Host σ) (world start : World σ) (past : List (Nat × Effect)) : Prop :=
  world.past = past ++ start.past ∧ world.host = host.after start.host past

/-- The worlds have come from the same one by the same effects, at whatever times. -/
def Alike (host : Host σ) (start world other : World σ) : Prop :=
  ∃ past others, past.map Prod.snd = others.map Prod.snd ∧ world.Since host start past ∧
    other.Since host start others

/-- A world has come from itself. -/
theorem alike_refl (start : World σ) : Alike host start start start :=
  ⟨[], [], rfl, ⟨rfl, rfl⟩, ⟨rfl, rfl⟩⟩

/-- The effects after another one. -/
theorem effects_perform (world : World σ) (host : Host σ) (effect : Effect) :
    (world.perform host effect).effects = world.effects ++ [effect] := by
  simp only [effects, World.perform, List.map_cons, List.reverse_cons]

/-- A host that ignores the clock answers in the same way in worlds that have come about by the same
effects. -/
theorem respects_alike (hhost : host.IgnoresClock start.host) :
    host.Respects (Alike host start) where
  agree := by
    rintro world other ⟨past, others, heq, ⟨_, hworld⟩, ⟨_, hother⟩⟩
    rw [hworld, hother]
    exact hhost past others heq world.now other.now
  perform := by
    rintro world other effect ⟨past, others, heq, ⟨hpast, hworld⟩, ⟨hothers, hother⟩⟩
    refine ⟨(world.now, effect) :: past, (other.now, effect) :: others, ?_, ⟨?_, ?_⟩, ⟨?_, ?_⟩⟩
    · simp only [List.map_cons, heq]
    · simp only [World.perform, hpast, List.cons_append]
    · simp only [World.perform, hworld, Host.after, List.foldr_cons]
    · simp only [World.perform, hothers, List.cons_append]
    · simp only [World.perform, hother, Host.after, List.foldr_cons]

/-- Every host answers in the same way in the same world, and takes back no effect. -/
theorem respects_grown (host : Host σ) (effects : List Effect) :
    host.Respects fun world other => world = other ∧ effects <+: world.effects where
  agree := by
    rintro world _ ⟨rfl, _⟩
    exact host.agree_refl world.host world.now
  perform := by
    rintro world _ effect ⟨rfl, hprefix⟩
    rw [effects_perform]
    exact ⟨rfl, hprefix.trans (List.prefix_append _ _)⟩

/-- The clocks do not matter. -/
theorem Alike.waitUntil (h : Alike host start world other) (time : Nat) :
    Alike host start world (other.waitUntil time) :=
  h

/-- Worlds that are alike have the same effects. -/
theorem Alike.effects_eq (h : Alike host start world other) : world.effects = other.effects := by
  obtain ⟨past, others, heq, ⟨hworld, _⟩, ⟨hother, _⟩⟩ := h
  simp only [effects, hworld, hother, List.map_append, heq]

/-- Of two worlds that are alike neither has done more. -/
theorem Alike.keeps_effects (h : Alike host start world other) :
    world.effects <+: other.effects :=
  h.effects_eq ▸ List.prefix_rfl

end World

/-- Where a piece of a command has led, apart from the length of the sleep. -/
def Standing.untimed : Standing → Standing
  | .asleep _ pause => .asleep 0 pause
  | .finished => .finished
  | .failed failure => .failed failure

namespace Execution

variable {scope : Scope σ} {R : World σ → World σ → Prop} {world other : World σ}
  {command : Command}

/-- Two pieces of a command have led to the same place in related worlds. -/
def Agree (R : World σ → World σ → Prop) (result other : World σ × Standing) : Prop :=
  R result.1 other.1 ∧ result.2.untimed = other.2.untimed

/-- Two beginnings of a command have led to the same place in related worlds. -/
structure Start.Agree (R : World σ → World σ → Prop) (begun other : Start σ) : Prop where
  world : R begun.world other.world
  activation_eq : begun.activation = other.activation
  callee_eq : begun.callee = other.callee
  standing_eq : begun.standing.untimed = other.standing.untimed

/-- The length of a trailing wait does not matter. -/
theorem untimed_trailingWait (scope : Scope σ) (command : Command) (world other : World σ) :
    (trailingWait scope command world).untimed = (trailingWait scope command other).untimed := by
  unfold trailingWait
  split <;> rfl

/-- The same effect is followed by the same wait. -/
theorem agree_performAndWait (hR : scope.host.Respects R) (h : R world other) (effect : Effect) :
    Agree R (performAndWait scope command world effect)
      (performAndWait scope command other effect) :=
  ⟨hR.perform effect h, untimed_trailingWait scope command _ _⟩

/-- An effect with the same refusal leads to the same place. -/
theorem agree_performUnlessRefused (hR : scope.host.Respects R) (h : R world other)
    (effect : Effect) (missing : CommandFailure) {refusal others : Option Refusal}
    (hrefusal : refusal = others) :
    Agree R (performUnlessRefused scope command world effect refusal missing)
      (performUnlessRefused scope command other effect others missing) := by
  subst hrefusal
  unfold performUnlessRefused
  cases refusal with
  | none => exact agree_performAndWait hR h effect
  | some refusal =>
    cases refusal with
    | notFound => exact ⟨hR.perform effect h, rfl⟩
    | failed reason => exact ⟨hR.perform effect h, rfl⟩

/-- A message is printed in both worlds or in none. -/
theorem related_echo (hR : scope.host.Respects R) (h : R world other) (message : String) :
    R (echo scope command message world) (echo scope command message other) := by
  unfold echo
  split
  · exact hR.perform _ h
  · exact h

/-! ## Polls -/

/-- The same requirements are met. -/
theorem isMet_eq {host : Host σ}
    (hagree : host.Agree world.host world.now other.host other.now) (requirement : Requirement) :
    isMet host world requirement = isMet host other requirement := by
  cases requirement with
  | status name => exact hagree.hasStatus name
  | quality least =>
    have hquality : world.ask host.quality = other.ask host.quality := hagree.quality
    dsimp only [isMet]
    rw [hquality]
  | repair => simp only [isMet, World.ask, hagree.needsRepair]
  | spiritbond within => simp only [isMet, World.ask, hagree.needsExtraction]
  | stats least => simp only [isMet, World.ask, hagree.stats]

/-- The same goals are reached. -/
theorem isReached_eq (hagree : scope.host.Agree world.host world.now other.host other.now)
    (goal : Goal) : isReached scope world goal = isReached scope other goal := by
  cases goal with
  | response name left =>
    simp only [isReached, World.ask, hagree.isCraftComplete, hagree.isAcknowledged]
  | requirement requirement => exact isMet_eq hagree requirement
  | addon name => exact hagree.isAddonReady name

/-- What follows a goal that is reached is the same. -/
theorem untimed_reached (scope : Scope σ) (command : Command) (world other : World σ)
    (goal : Goal) :
    (reached scope command world goal).untimed = (reached scope command other goal).untimed := by
  cases goal with
  | response name left =>
    dsimp only [reached]
    split
    · rfl
    · exact untimed_trailingWait scope command world other
  | requirement | addon => exact untimed_trailingWait scope command world other

/-- A poll leads to the same place if what follows a time-out does. -/
theorem agree_pursue_of (hR : scope.host.Respects R) {goal : Goal}
    (hlate : ∀ {world other}, R world other →
      Agree R (afterTimeout scope command world goal) (afterTimeout scope command other goal))
    (h : R world other) (poll : Poll) :
    Agree R (pursue scope command goal poll world) (pursue scope command goal poll other) := by
  have hreached := isReached_eq (hR.agree h) goal
  unfold pursue ask
  rw [hreached]
  cases poll.next (if isReached scope other goal then some () else none) with
  | ready answer => exact ⟨h, untimed_reached scope command world other goal⟩
  | asleep later => exact ⟨h, rfl⟩
  | timedOut => exact hlate h

/-- Attempts at an action lead to the same place. -/
theorem agree_attempt (hR : scope.host.Respects R) (name : String) (left : Nat)
    (h : R world other) :
    Agree R (attempt scope command name left world) (attempt scope command name left other) := by
  induction left generalizing world other with
  | zero => exact ⟨h, rfl⟩
  | succ left ih =>
    have hlate {world other : World σ} (h : R world other) :
        Agree R (afterTimeout scope command world (.response name left))
          (afterTimeout scope command other (.response name left)) := ih h
    exact agree_pursue_of hR hlate (hR.perform _ h) _

/-- A poll leads to the same place. -/
theorem agree_pursue (hR : scope.host.Respects R) (goal : Goal) (poll : Poll)
    (h : R world other) :
    Agree R (pursue scope command goal poll world) (pursue scope command goal poll other) := by
  refine agree_pursue_of hR (fun h => ?_) h poll
  cases goal with
  | response name left => exact agree_attempt hR name left h
  | requirement | addon => exact ⟨h, rfl⟩

/-! ## Whole commands -/

/-- The same actions are left out. -/
theorem isSkipped_eq (hagree : scope.host.Agree world.host world.now other.host other.now)
    (name : String) (condition : Option Condition) :
    isSkipped scope name condition world = isSkipped scope name condition other := by
  have hcrafting : world.ask scope.host.isCrafting = other.ask scope.host.isCrafting :=
    hagree.isCrafting
  have hcondition : world.ask scope.host.condition = other.ask scope.host.condition :=
    hagree.condition
  have hquality : world.ask scope.host.isQualityAction name =
      other.ask scope.host.isQualityAction name := hagree.isQualityAction name
  have hchance : world.ask scope.host.hqChance = other.ask scope.host.hqChance := hagree.hqChance
  unfold isSkipped
  rw [hcrafting, hcondition, hquality, hchance]

/-- An action leads to the same place. -/
theorem agree_action (hR : scope.host.Respects R) (name : String) (unsafeAction : Bool)
    (condition : Option Condition) (h : R world other) :
    Agree R (action scope command name unsafeAction condition world)
      (action scope command name unsafeAction condition other) := by
  have hagree := hR.agree h
  have hcraft : world.ask scope.host.isCraftAction name = other.ask scope.host.isCraftAction name :=
    hagree.isCraftAction name
  unfold action
  rw [hcraft, isSkipped_eq hagree]
  split
  · exact agree_performAndWait hR h _
  · split
    · exact ⟨h, rfl⟩
    · split
      · exact agree_performAndWait hR h _
      · exact agree_attempt hR name _ h

/-- Selecting a target leads to the same place. -/
theorem agree_target (hR : scope.host.Respects R) (name : String) (h : R world other) :
    Agree R (target scope command name world) (target scope command name other) := by
  have hfind : world.ask scope.host.findTarget name command.index =
      other.ask scope.host.findTarget name command.index :=
    (hR.agree h).findTarget name command.index
  unfold target
  rw [hfind]
  split
  · exact agree_performAndWait hR h _
  · cases other.ask scope.host.findTarget name command.index with
    | some id => exact agree_performAndWait hR h _
    | none =>
      dsimp only
      split
      · exact ⟨h, rfl⟩
      · exact agree_performAndWait hR h _

/-- Opening a recipe leads to the same place. -/
theorem agree_recipe (hR : scope.host.Respects R) (name : String) (h : R world other) :
    Agree R (recipe scope command name world) (recipe scope command name other) := by
  have hagree := hR.agree h
  have hvisible : world.ask scope.host.isAddonVisible "Synthesis" =
      other.ask scope.host.isAddonVisible "Synthesis" := hagree.isAddonVisible _
  have hclassJob : world.ask scope.host.classJob = other.ask scope.host.classJob := hagree.classJob
  have hrecipes : world.ask scope.host.recipesNamed name =
      other.ask scope.host.recipesNamed name := hagree.recipesNamed name
  unfold recipe
  rw [hvisible, hclassJob, hrecipes]
  split
  · exact ⟨h, rfl⟩
  · cases choose (other.ask scope.host.classJob) (other.ask scope.host.recipesNamed name) with
    | some chosen => exact agree_performAndWait hR h _
    | none => exact ⟨h, rfl⟩

/-- A rewind leads to the same place. -/
theorem agree_rewind (activation : Activation) (h : R world other) :
    (rewind activation world).Agree R (rewind activation other) :=
  ⟨h, rfl, rfl, rfl⟩

/-- A loop leads to the same place. -/
theorem agree_loop (hR : scope.host.Respects R) (count : Option Nat) (activation : Activation)
    (h : R world other) :
    (loop scope command count activation world).Agree R
      (loop scope command count activation other) := by
  cases count with
  | none => exact agree_rewind activation (related_echo hR h _)
  | some count =>
    dsimp only [loop]
    split
    · exact ⟨related_echo hR h _, rfl, rfl, rfl⟩
    · exact agree_rewind _ (related_echo hR h _)

/-- A craft gate leads to the same place. -/
theorem agree_craft (hR : scope.host.Respects R) (count : Nat) (activation : Activation)
    (h : R world other) :
    (craft scope command count activation world).Agree R
      (craft scope command count activation other) := by
  dsimp only [craft]
  split
  · exact ⟨related_echo hR h _, rfl, rfl, rfl⟩
  · exact ⟨related_echo hR h _, rfl, rfl, untimed_trailingWait scope command _ _⟩

/-- A call prepares the same program. -/
theorem agree_runMacro (hR : scope.host.Respects R) (name : String) (activation : Activation)
    (h : R world other) :
    (runMacro scope command name activation world).Agree R
      (runMacro scope command name activation other) := by
  have hfind : world.ask scope.host.findMacro name = other.ask scope.host.findMacro name :=
    (hR.agree h).findMacro name
  unfold runMacro
  rw [hfind]
  cases other.ask scope.host.findMacro name with
  | error error => exact ⟨h, rfl, rfl, rfl⟩
  | ok saved =>
    dsimp only
    cases saved.program scope.settings scope.reader none with
    | error error => exact ⟨h, rfl, rfl, rfl⟩
    | ok program => exact ⟨h, rfl, rfl, untimed_trailingWait scope command _ _⟩

/-- A command starts in the same way in related worlds. -/
theorem agree_start (hR : scope.host.Respects R) (command : Command) (activation : Activation)
    (h : R world other) :
    (start scope command activation world).Agree R (start scope command activation other) := by
  have hunchanged {result others : World σ × Standing} (hresult : Agree R result others) :
      Start.Agree R { world := result.1, activation, standing := result.2 }
        { world := others.1, activation, standing := others.2 } :=
    ⟨hresult.1, rfl, rfl, hresult.2⟩
  have hagree := hR.agree h
  unfold start
  cases command.kind with
  | action name unsafeAction condition =>
    exact hunchanged (agree_action hR name unsafeAction condition h)
  | click name =>
    exact hunchanged (agree_performUnlessRefused hR h _ _ (hagree.clickRefusal _))
  | keys motion combo => exact hunchanged (agree_performAndWait hR h _)
  | target name => exact hunchanged (agree_target hR name h)
  | recipe name => exact hunchanged (agree_recipe hR name h)
  | item name hq => exact hunchanged (agree_performUnlessRefused hR h _ _ (hagree.itemRefusal _ _))
  | require requirement => exact hunchanged (agree_pursue hR _ _ h)
  | loop count => exact agree_loop hR count activation h
  | craft count => exact agree_craft hR count activation h
  | wait =>
    have htrailing : Agree R (world, trailingWait scope command world)
        (other, trailingWait scope command other) :=
      ⟨h, untimed_trailingWait scope command _ _⟩
    exact hunchanged htrailing
  | runMacro name => exact agree_runMacro hR name activation h
  | waitAddon name => exact hunchanged (agree_pursue hR _ _ h)
  | native line => exact hunchanged (agree_performAndWait hR h _)

/-- A command goes on in the same way in related worlds. -/
theorem agree_resume (hR : scope.host.Respects R) (command : Command) (pause : Pause)
    (h : R world other) :
    Agree R (resume scope command pause world) (resume scope command pause other) := by
  cases pause with
  | trailing => exact ⟨h, rfl⟩
  | beforeRewind => exact ⟨h, untimed_trailingWait scope command _ _⟩
  | polling goal poll => exact agree_pursue hR goal poll h

end Execution

/-- A failure is reported in the same way in related worlds. -/
theorem Machine.related_report {host : Host σ} {R : World σ → World σ → Prop}
    {world other : World σ} (hR : host.Respects R) (settings : Settings) (name : String)
    (failure : CommandFailure) (h : R world other) :
    R (report host settings name failure world) (report host settings name failure other) :=
  hR.performAll (hR.perform _ h) _

end GameMacros
