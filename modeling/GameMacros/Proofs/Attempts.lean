import GameMacros.Host.Scripted
import GameMacros.Proofs.Gates

/-!
# Attempts at an action

A crafting action is used and the host asked for a response, at once and again at a fixed interval,
until the line allows no further question; then it is used once more. So the times of all uses and
questions are fixed from the start, and the first response ends the command. Whether an action is
tried in this way, used once or left out is decided before it is used.
-/

namespace GameMacros

/-- The world some time later, if nothing else happens. -/
def World.later {σ : Type} (world : World σ) (ms : Nat) : World σ :=
  { world with now := world.now + ms }

namespace Execution

variable {σ : Type} {scope : Scope σ} {command : Command} {name : String} {unsafeAction : Bool}
  {condition : Option Condition} {world : World σ}

/-! ## How a command ends that uses an action -/

/-- Time between two questions for a response, in milliseconds. -/
def responseInterval : Nat := 50

/-- The last question of an attempt, counted from zero. -/
def lastQuestion (command : Command) : Nat :=
  command.maxWait / responseInterval

/-- How long an attempt lasts to which the host does not respond. -/
def attemptSpan (command : Command) : Nat :=
  lastQuestion command * responseInterval

/-- How often an action may be tried again. -/
def retries (settings : Settings) : Nat :=
  min settings.maxTimeoutRetries 10

/-- The host responds: the action has come to its end or, unless these are waited for, it is
acknowledged. -/
def responds (scope : Scope σ) (world : World σ) : Bool :=
  if scope.settings.smartWait then world.ask scope.host.isCraftComplete
  else world.ask scope.host.isAcknowledged

/-- The world right after an action was used `again` times more, each time when the attempt before
was over. -/
def usedAgain (scope : Scope σ) (command : Command) (name : String) :
    (again : Nat) → World σ → World σ
  | 0, world => world.perform scope.host (.useAction name)
  | again + 1, world =>
    usedAgain scope command name again
      ((world.perform scope.host (.useAction name)).later (attemptSpan command))

/-- The world in which a question of an attempt is asked, both counted from zero. -/
def asking (scope : Scope σ) (command : Command) (name : String) (world : World σ)
    (attempt question : Nat) : World σ :=
  (usedAgain scope command name attempt world).later (question * responseInterval)

/-- The host responds to no question of an attempt. -/
def Misses (scope : Scope σ) (command : Command) (name : String) (world : World σ)
    (attempt : Nat) : Prop :=
  ∀ question ≤ lastQuestion command,
    responds scope (asking scope command name world attempt question) = false

/-- Of all questions of all attempts, this is the first one to which the host responds. -/
structure FirstResponse (scope : Scope σ) (command : Command) (name : String) (world : World σ)
    (attempt question : Nat) : Prop where
  inTime : question ≤ lastQuestion command
  answered : responds scope (asking scope command name world attempt question) = true
  unanswered : ∀ earlier < question,
    responds scope (asking scope command name world attempt earlier) = false
  missed : ∀ earlier < attempt, Misses scope command name world earlier

/-- The world after the response. Waiting for the end of the action replaces the wait of its
line. -/
def afterResponse (scope : Scope σ) (command : Command) (world : World σ) : World σ :=
  if scope.settings.smartWait then world else rested scope command world

/-- A crafting action is not used: nothing is being crafted, the condition is another one, or high
quality is certain already. -/
def HeldBack (scope : Scope σ) (name : String) (condition : Option Condition) (world : World σ) :
    Prop :=
  scope.settings.craftSkip = true ∧ world.ask scope.host.isCrafting = false ∨
    (∃ tied ∈ condition, tied.holds ((world.ask scope.host.condition).getD "") = false) ∨
    scope.settings.qualitySkip = true ∧ world.ask scope.host.isQualityAction name = true ∧
      100 ≤ world.ask scope.host.hqChance

/-- The host is asked for a response to the action. -/
structure IsPolled (scope : Scope σ) (name : String) (unsafeAction : Bool)
    (condition : Option Condition) (world : World σ) : Prop where
  crafts : world.ask scope.host.isCraftAction name = true
  used : ¬HeldBack scope name condition world
  awaited : unsafeAction = false ∨ scope.settings.smartWait = true

/-- How a command ends that uses an action: the times of the uses, the world at the end, and why the
command failed if it did. -/
inductive ActionEnds (scope : Scope σ) (command : Command) (name : String) (unsafeAction : Bool)
    (condition : Option Condition) (world : World σ) :
    List Nat → World σ × Option CommandFailure → Prop
  | plain (hplain : world.ask scope.host.isCraftAction name = false) :
      ActionEnds scope command name unsafeAction condition world [world.now]
        (rested scope command (world.perform scope.host (.useAction name)), none)
  | heldBack (hcrafts : world.ask scope.host.isCraftAction name = true)
      (hheld : HeldBack scope name condition world) :
      ActionEnds scope command name unsafeAction condition world [] (world, none)
  | unpolled (hcrafts : world.ask scope.host.isCraftAction name = true)
      (hused : ¬HeldBack scope name condition world) (hexempt : unsafeAction = true)
      (hplain : scope.settings.smartWait = false) :
      ActionEnds scope command name unsafeAction condition world [world.now]
        (rested scope command (world.perform scope.host (.useAction name)), none)
  | responded (hpolled : IsPolled scope name unsafeAction condition world) {attempt question : Nat}
      (hattempt : attempt ≤ retries scope.settings)
      (hfirst : FirstResponse scope command name world attempt question) :
      ActionEnds scope command name unsafeAction condition world
        (List.range' world.now (attempt + 1) (attemptSpan command))
        (afterResponse scope command (asking scope command name world attempt question), none)
  | timedOut (hpolled : IsPolled scope name unsafeAction condition world)
      (hmissed : ∀ attempt ≤ retries scope.settings, Misses scope command name world attempt) :
      ActionEnds scope command name unsafeAction condition world
        (List.range' world.now (retries scope.settings + 1) (attemptSpan command))
        (asking scope command name world (retries scope.settings) (lastQuestion command),
          some (.actionTimeout name (retries scope.settings + 1)))

/-! ## Questions -/

/-- A sleep between two questions is granted in full. -/
theorem sleep_responseInterval (world : World σ) :
    world.sleep responseInterval = world.later responseInterval := by
  have hgranted : Sleep.granted responseInterval = responseInterval :=
    Sleep.granted_of_le (by decide)
  rw [World.sleep, hgranted, World.waitUntil, Nat.max_eq_right (Nat.le_add_right _ _)]
  rfl

/-- Later and later still. -/
theorem later_later (world : World σ) (ms more : Nat) :
    (world.later ms).later more = world.later (ms + more) := by
  simp only [World.later, Nat.add_assoc]

/-- The first question is asked at once. -/
theorem later_zero_mul (world : World σ) : world.later (0 * responseInterval) = world := by
  rw [Nat.zero_mul]
  rfl

/-- The next question is asked an interval later. -/
theorem later_succ_mul (world : World σ) (question : Nat) :
    (world.later responseInterval).later (question * responseInterval) =
      world.later ((question + 1) * responseInterval) := by
  rw [later_later, Nat.add_one_mul question responseInterval, Nat.add_comm]

/-- Waiting for a response ends with the first one, or after the last question. -/
theorem await_cases (scope : Scope σ) (name : String) (left more : Nat) (world : World σ) :
    (∃ question ≤ more, responds scope (world.later (question * responseInterval)) = true ∧
        (∀ earlier < question,
          responds scope (world.later (earlier * responseInterval)) = false) ∧
        await scope (.response name left) more world =
          (world.later (question * responseInterval), true)) ∨
      (∀ question ≤ more, responds scope (world.later (question * responseInterval)) = false) ∧
        await scope (.response name left) more world =
          (world.later (more * responseInterval), false) := by
  induction more generalizing world with
  | zero =>
    cases hresponds : responds scope world with
    | true =>
      refine .inl ⟨0, Nat.le_refl 0, by rwa [later_zero_mul], fun earlier hlt => ?_, ?_⟩
      · exact absurd hlt (Nat.not_lt_zero earlier)
      · rw [later_zero_mul, ← hresponds]
        rfl
    | false =>
      refine .inr ⟨fun question hle => ?_, ?_⟩
      · rwa [Nat.le_zero.mp hle, later_zero_mul]
      · rw [later_zero_mul, ← hresponds]
        rfl
  | succ more ih =>
    have hreached : isReached scope world (.response name left) = responds scope world := rfl
    have hinterval : (Goal.response name left).interval = responseInterval := rfl
    rw [await, hreached, hinterval]
    cases hresponds : responds scope world with
    | true =>
      refine .inl ⟨0, Nat.zero_le _, by rwa [later_zero_mul], fun earlier hlt => ?_, ?_⟩
      · exact absurd hlt (Nat.not_lt_zero earlier)
      · rw [if_pos rfl, later_zero_mul]
    | false =>
      rw [if_neg Bool.false_ne_true, sleep_responseInterval]
      have hlater := ih (world.later responseInterval)
      simp only [later_succ_mul] at hlater
      rcases hlater with ⟨question, hle, hanswer, hbefore, hawait⟩ | ⟨hmissed, hawait⟩
      · refine .inl ⟨question + 1, Nat.succ_le_succ hle, hanswer, fun earlier hlt => ?_, hawait⟩
        cases earlier with
        | zero => rwa [later_zero_mul]
        | succ earlier => exact hbefore earlier (Nat.lt_of_succ_lt_succ hlt)
      · refine .inr ⟨fun question hle => ?_, hawait⟩
        cases question with
        | zero => rwa [later_zero_mul]
        | succ question => exact hmissed question (Nat.le_of_succ_le_succ hle)

/-! ## Attempts -/

/-- An attempt to which the host responds is the last one. -/
theorem insist_of_response {left : Nat} {answered : World σ}
    (h : await scope (.response name left) (lastQuestion command)
      (world.perform scope.host (.useAction name)) = (answered, true)) :
    insist scope command name (left + 1) world = (afterResponse scope command answered, none) := by
  have hawait : awaitInTime scope command (.response name left)
      (world.perform scope.host (.useAction name)) = (answered, true) := h
  rw [insist, hawait]
  rfl

/-- After an attempt without a response comes the next one. -/
theorem insist_of_silence {left : Nat} {silent : World σ}
    (h : await scope (.response name left) (lastQuestion command)
      (world.perform scope.host (.useAction name)) = (silent, false)) :
    insist scope command name (left + 1) world = insist scope command name left silent := by
  have hawait : awaitInTime scope command (.response name left)
      (world.perform scope.host (.useAction name)) = (silent, false) := h
  rw [insist, hawait]

/-- A response that comes after an attempt without one. -/
theorem FirstResponse.after {attempt question : Nat}
    (h : FirstResponse scope command name
      (asking scope command name world 0 (lastQuestion command)) attempt question)
    (hmissed : Misses scope command name world 0) :
    FirstResponse scope command name world (attempt + 1) question where
  inTime := h.inTime
  answered := h.answered
  unanswered := h.unanswered
  missed earlier hlt := by
    cases earlier with
    | zero => exact hmissed
    | succ earlier => exact h.missed earlier (Nat.lt_of_succ_lt_succ hlt)

/-- Insisting on an action ends with the first response, or after the last attempt. -/
theorem insist_cases (scope : Scope σ) (command : Command) (name : String) (left : Nat)
    (world : World σ) :
    (∃ attempt question, attempt ≤ left ∧
        FirstResponse scope command name world attempt question ∧
        insist scope command name (left + 1) world =
          (afterResponse scope command (asking scope command name world attempt question),
            none)) ∨
      (∀ attempt ≤ left, Misses scope command name world attempt) ∧
        insist scope command name (left + 1) world =
          (asking scope command name world left (lastQuestion command),
            some (.actionTimeout name (attempts scope.settings))) := by
  induction left generalizing world with
  | zero =>
    rcases await_cases scope name 0 (lastQuestion command)
        (world.perform scope.host (.useAction name)) with
      ⟨question, hle, hanswer, hbefore, hawait⟩ | ⟨hmissed, hawait⟩
    · refine .inl ⟨0, question, Nat.le_refl 0, ⟨hle, hanswer, hbefore, ?_⟩, ?_⟩
      · exact fun earlier hlt => absurd hlt (Nat.not_lt_zero earlier)
      · exact insist_of_response hawait
    · refine .inr ⟨fun attempt hle => ?_, insist_of_silence hawait⟩
      rw [Nat.le_zero.mp hle]
      exact hmissed
  | succ left ih =>
    rcases await_cases scope name (left + 1) (lastQuestion command)
        (world.perform scope.host (.useAction name)) with
      ⟨question, hle, hanswer, hbefore, hawait⟩ | ⟨hmissed, hawait⟩
    · refine .inl ⟨0, question, Nat.zero_le _, ⟨hle, hanswer, hbefore, ?_⟩, ?_⟩
      · exact fun earlier hlt => absurd hlt (Nat.not_lt_zero earlier)
      · exact insist_of_response hawait
    · rw [insist_of_silence hawait]
      rcases ih (asking scope command name world 0 (lastQuestion command)) with
        ⟨attempt, question, hle, hfirst, hinsist⟩ | ⟨hlater, hinsist⟩
      · exact .inl ⟨attempt + 1, question, Nat.succ_le_succ hle, hfirst.after hmissed, hinsist⟩
      · refine .inr ⟨fun attempt hle => ?_, hinsist⟩
        cases attempt with
        | zero => exact hmissed
        | succ attempt => exact hlater attempt (Nat.le_of_succ_le_succ hle)

/-- There is only one first response. -/
theorem FirstResponse.eq {attempt question other later : Nat}
    (h : FirstResponse scope command name world attempt question)
    (h' : FirstResponse scope command name world other later) :
    attempt = other ∧ question = later := by
  rcases Nat.lt_trichotomy attempt other with hlt | rfl | hlt
  · exact absurd h.answered (by simp [h'.missed attempt hlt question h.inTime])
  · rcases Nat.lt_trichotomy question later with hlt | rfl | hlt
    · exact absurd h.answered (by simp [h'.unanswered question hlt])
    · exact ⟨rfl, rfl⟩
    · exact absurd h'.answered (by simp [h.unanswered later hlt])
  · exact absurd h'.answered (by simp [h.missed other hlt later h'.inTime])

/-- An attempt with a response is not missed. -/
theorem FirstResponse.not_misses {attempt question : Nat}
    (h : FirstResponse scope command name world attempt question) :
    ¬Misses scope command name world attempt := by
  intro hmissed
  cases h.answered.symm.trans (hmissed question h.inTime)

/-! ## The command as a whole -/

/-- The gates of an action are those that hold it back. -/
theorem isSkipped_iff (scope : Scope σ) (name : String) (condition : Option Condition)
    (world : World σ) :
    isSkipped scope name condition world = true ↔ HeldBack scope name condition world := by
  cases condition <;> simp [isSkipped, HeldBack, or_assoc, and_assoc]

/-- An action ends in one of the ways in which it can end. -/
theorem exists_actionEnds (hkind : command.kind = .action name unsafeAction condition)
    (scope : Scope σ) (world : World σ) :
    ∃ uses, ActionEnds scope command name unsafeAction condition world uses
      (carryOut scope command world) := by
  simp only [carryOut, hkind]
  cases hcrafts : world.ask scope.host.isCraftAction name with
  | false => exact ⟨_, .plain hcrafts⟩
  | true =>
    rw [if_neg (by simp)]
    by_cases hheld : HeldBack scope name condition world
    · rw [if_pos ((isSkipped_iff scope name condition world).mpr hheld)]
      exact ⟨_, .heldBack hcrafts hheld⟩
    · rw [if_neg (mt (isSkipped_iff scope name condition world).mp hheld)]
      by_cases hunpolled : (unsafeAction && !scope.settings.smartWait) = true
      · rw [if_pos hunpolled]
        rw [Bool.and_eq_true, Bool.not_eq_true'] at hunpolled
        exact ⟨_, .unpolled hcrafts hheld hunpolled.1 hunpolled.2⟩
      · have hpolled : IsPolled scope name unsafeAction condition world :=
          ⟨hcrafts, hheld, by simpa [Decidable.imp_iff_not_or] using hunpolled⟩
        have hattempts : attempts scope.settings = retries scope.settings + 1 := rfl
        rw [if_neg hunpolled, hattempts]
        rcases insist_cases scope command name (retries scope.settings) world with
          ⟨attempt, question, hle, hfirst, hinsist⟩ | ⟨hmissed, hinsist⟩
        · rw [hinsist]
          exact ⟨_, .responded hpolled hle hfirst⟩
        · rw [hinsist]
          exact ⟨_, .timedOut hpolled hmissed⟩

/-- For an unsafe action the host is not asked for a response, unless its end is waited for. -/
theorem not_isPolled (hexempt : unsafeAction = true) (hplain : scope.settings.smartWait = false) :
    ¬IsPolled scope name unsafeAction condition world := by
  intro hpolled
  rcases hpolled.awaited with hsafe | hsmart
  · cases hsafe.symm.trans hexempt
  · cases hsmart.symm.trans hplain

/-- An action ends in only one way. -/
theorem ActionEnds.eq {uses others : List Nat} {last other : World σ × Option CommandFailure}
    (h : ActionEnds scope command name unsafeAction condition world uses last)
    (h' : ActionEnds scope command name unsafeAction condition world others other) :
    others = uses ∧ other = last := by
  cases h with
  | plain hplain =>
    cases h' with
    | plain => exact ⟨rfl, rfl⟩
    | heldBack hcrafts | unpolled hcrafts => cases hplain.symm.trans hcrafts
    | responded hpolled | timedOut hpolled => cases hplain.symm.trans hpolled.crafts
  | heldBack hcrafts hheld =>
    cases h' with
    | plain hplain => cases hplain.symm.trans hcrafts
    | heldBack => exact ⟨rfl, rfl⟩
    | unpolled _ hused => exact absurd hheld hused
    | responded hpolled | timedOut hpolled => exact absurd hheld hpolled.used
  | unpolled hcrafts hused hexempt hplain =>
    cases h' with
    | plain hother => cases hother.symm.trans hcrafts
    | heldBack _ hheld => exact absurd hheld hused
    | unpolled => exact ⟨rfl, rfl⟩
    | responded hpolled | timedOut hpolled => exact absurd hpolled (not_isPolled hexempt hplain)
  | @responded hpolled attempt question hle hfirst =>
    cases h' with
    | plain hplain => cases hplain.symm.trans hpolled.crafts
    | heldBack _ hheld => exact absurd hheld hpolled.used
    | unpolled _ _ hexempt hplain => exact absurd hpolled (not_isPolled hexempt hplain)
    | responded _ _ hother =>
      obtain ⟨rfl, rfl⟩ := hfirst.eq hother
      exact ⟨rfl, rfl⟩
    | timedOut _ hmissed => exact absurd (hmissed attempt hle) hfirst.not_misses
  | timedOut hpolled hmissed =>
    cases h' with
    | plain hplain => cases hplain.symm.trans hpolled.crafts
    | heldBack _ hheld => exact absurd hheld hpolled.used
    | unpolled _ _ hexempt hplain => exact absurd hpolled (not_isPolled hexempt hplain)
    | @responded _ attempt _ hle hfirst => exact absurd (hmissed attempt hle) hfirst.not_misses
    | timedOut => exact ⟨rfl, rfl⟩

/-- A rest does nothing to the host. -/
theorem rested_past (scope : Scope σ) (command : Command) (world : World σ) :
    (rested scope command world).past = world.past := by
  unfold rested
  split <;> rfl

/-- An action that is used again and again leaves its uses behind. -/
theorem usedAgain_past (scope : Scope σ) (command : Command) (name : String) (again : Nat)
    (world : World σ) :
    (usedAgain scope command name again world).past =
      ((List.range' world.now (again + 1) (attemptSpan command)).map
        (·, Effect.useAction name)).reverse ++ world.past := by
  induction again generalizing world with
  | zero => rfl
  | succ again ih =>
    have huses : List.range' world.now (again + 1 + 1) (attemptSpan command) =
        world.now :: List.range' (world.now + attemptSpan command) (again + 1)
          (attemptSpan command) := List.range'_succ
    rw [usedAgain, ih, huses, List.map_cons, List.reverse_cons, List.append_assoc]
    rfl

/-- How a command ends that uses an action says what is in its log. -/
theorem ActionEnds.past_eq {uses : List Nat} {last : World σ × Option CommandFailure}
    (h : ActionEnds scope command name unsafeAction condition world uses last) :
    last.1.past = (uses.map (·, Effect.useAction name)).reverse ++ world.past := by
  cases h with
  | plain | unpolled => exact rested_past scope command _
  | heldBack => rfl
  | @responded _ attempt question =>
    refine Eq.trans ?_ (usedAgain_past scope command name attempt world)
    unfold afterResponse
    split
    · rfl
    · exact rested_past scope command _
  | timedOut => exact usedAgain_past scope command name _ world

/-- No settings make an action be used more often than eleven times. -/
theorem ActionEnds.length_le {uses : List Nat} {last : World σ × Option CommandFailure}
    (h : ActionEnds scope command name unsafeAction condition world uses last) :
    uses.length ≤ retries scope.settings + 1 := by
  cases h with
  | plain | unpolled => exact Nat.succ_le_succ (Nat.zero_le _)
  | heldBack => exact Nat.zero_le _
  | responded _ hle => rwa [List.length_range', Nat.add_le_add_iff_right]
  | timedOut => rw [List.length_range']

/-- A command that uses an action fails only for want of a response, and says how often the action
was used. -/
theorem ActionEnds.failure_eq {uses : List Nat} {last : World σ × Option CommandFailure}
    (h : ActionEnds scope command name unsafeAction condition world uses last)
    {failure : CommandFailure} (hfails : last.2 = some failure) :
    failure = .actionTimeout name uses.length := by
  cases h with
  | plain | unpolled | heldBack | responded => cases hfails
  | timedOut =>
    cases hfails
    rw [List.length_range']

end Execution

open Execution

namespace Machine

variable {σ : Type} {host : Host σ} {machine : Machine σ}

/-! ## The command in a machine -/

/-- Left alone, the machine starts the command of the activation in front and goes on with it to its
end: the activation moves on or, if the command fails, that is reported and the queue is empty. -/
structure Completes (host : Host σ) (machine : Machine σ) (front : Activation)
    (last : World σ × Option CommandFailure) (next : Machine σ) (others : List Activation) :
    Prop where
  works : Works host machine machine.occurrence?.toList next
  dropped_eq : machine.engine.dropFinished.queue = front :: others
  ready : next.task = .ready
  succeeds : last.2 = none → next.world = last.1 ∧ next.engine.queue = front.advance :: others
  fails : ∀ failure, last.2 = some failure →
    next.world = report host machine.engine.settings front.name failure last.1 ∧
      next.engine.queue = []

/-- A command that does not steer is carried out. -/
theorem exists_completes (hmachine : machine.Reachable host) {front : Activation}
    {command : Command} (hstarting : machine.starting? = some front)
    (hcurrent : front.current? = some command) (hplain : command.steers = false) :
    ∃ next others, Completes host machine front
      (carryOut (machine.scope host) command machine.world) next others := by
  have hsound := sound_of_reachable hmachine
  obtain ⟨hsame, hcallee, hleads⟩ := leads_carryOut front machine.world hplain
  generalize carryOut (machine.scope host) command machine.world = last at hleads ⊢
  generalize hbegun : start (machine.scope host) command front machine.world = begun
    at hsame hcallee hleads
  obtain ⟨engine, others, hchoice, hdropped, hqueue, hstep⟩ :=
    exists_settle_of_starting? hstarting hcurrent hbegun
  rw [hsame, hcallee] at hstep
  let middle : Machine σ := { machine with engine }
  have hscope : middle.scope host = machine.scope host := scope_eq_of_frame hchoice.frame
  have hwaiting : engine.runState ≠ .waiting := by
    intro hwaits
    obtain ⟨flight, wakeAt, hasleep⟩ := hsound.suspended_of_waiting (hchoice.waiting hwaits)
    cases (nextJob_of_starting? hstarting).1.symm.trans hasleep
  have hlive : engine.signal.stoppedSince engine.signal.count = false := by
    have hundropped : engine.signal.dropped = false :=
      hchoice.frame.dropped_eq.trans hsound.engine.undropped
    simp [StopSignal.stoppedSince, hundropped]
  have hbegins : Works host machine _ _ := works_advance machine
  have hends := works_settle middle hwaiting hlive (hscope.symm ▸ hleads) front none
  rw [advance, hstep] at hbegins
  have hworks := hbegins.trans hends
  rw [List.append_nil] at hworks
  obtain ⟨after, failure?⟩ := last
  refine ⟨_, others, hworks, hdropped, ?_, fun hnone => ?_, fun failure hsome => ?_⟩
  · cases failure? <;> rfl
  · cases hnone
    exact ⟨rfl, by simp [settle, middle, Engine.commit_of_front hqueue rfl]⟩
  · cases hsome
    exact ⟨congrArg (report host · front.name failure after) (congrArg Scope.settings hscope), rfl⟩

/-- What is true of a command that uses an action: the times of the uses and the end. -/
structure ActionOutcome (scope : Scope σ) (command : Command) (name : String) (unsafeAction : Bool)
    (condition : Option Condition) (world : World σ) (uses : List Nat)
    (last : World σ × Option CommandFailure) : Prop where
  /-- It ends in only one way. -/
  ends_iff : ∀ others other,
    ActionEnds scope command name unsafeAction condition world others other ↔
      others = uses ∧ other = last
  /-- Nothing is done but using the action at these times. -/
  past_eq : last.1.past = (uses.map (·, Effect.useAction name)).reverse ++ world.past
  length_le : uses.length ≤ min scope.settings.maxTimeoutRetries 10 + 1
  /-- It reports how often the action was used. -/
  failure_eq : ∀ failure, last.2 = some failure → failure = .actionTimeout name uses.length
  /-- Piece by piece it comes to this end. -/
  leads : ∀ activation, Leads scope command
    ((start scope command activation world).world,
      (start scope command activation world).standing) last

/-- Whatever the line, the settings and the answers of the host are, an action is used at the times
and ends in the way that they determine, and so does the machine that starts it. -/
theorem attempts_of_action {scope : Scope σ} {command : Command} {name : String}
    {unsafeAction : Bool} {condition : Option Condition}
    (hkind : command.kind = .action name unsafeAction condition) (world : World σ) :
    ∃ uses last, ActionOutcome scope command name unsafeAction condition world uses last ∧
      ∀ (machine : Machine σ) (front : Activation), machine.Reachable scope.host →
        machine.scope scope.host = scope → machine.world = world →
        machine.starting? = some front → front.current? = some command →
        ∃ next others, Completes scope.host machine front last next others := by
  have hplain : command.steers = false := by simp only [Command.steers, hkind]
  obtain ⟨uses, hends⟩ := exists_actionEnds hkind scope world
  have hunique (others : List Nat) (other : World σ × Option CommandFailure) :
      ActionEnds scope command name unsafeAction condition world others other ↔
        others = uses ∧ other = carryOut scope command world := by
    constructor
    · exact hends.eq
    · rintro ⟨rfl, rfl⟩
      exact hends
  have hleads (activation : Activation) :
      Leads scope command
        ((start scope command activation world).world,
          (start scope command activation world).standing) (carryOut scope command world) :=
    (leads_carryOut activation world hplain).2.2
  refine ⟨uses, carryOut scope command world, ⟨hunique, hends.past_eq, hends.length_le,
    fun failure => hends.failure_eq, hleads⟩, ?_⟩
  intro machine front hmachine hscope hworld hstarting hcurrent
  have hcompletes := exists_completes hmachine hstarting hcurrent hplain
  rwa [hscope, hworld] at hcompletes

/-- An action to which the host does not respond is used again when the attempt is over, and the
response to the second use ends the command. -/
theorem attempts_of_action_twice :
    ∃ (machine next : Machine ScriptedHost) (front : Activation) (command : Command)
        (uses : List Nat) (last : World ScriptedHost × Option CommandFailure)
        (others : List Activation),
      machine.Reachable ScriptedHost.host ∧ machine.starting? = some front ∧
        front.current? = some command ∧ command.kind = .action "Groundwork" false none ∧
        ActionOutcome (machine.scope ScriptedHost.host) command "Groundwork" false none
          machine.world uses last ∧
        last.1.past = [(100, .useAction "Groundwork"), (0, .useAction "Groundwork")] ∧
        last.1.now = 150 ∧ last.2 = none ∧
        Completes ScriptedHost.host machine front last next others := by
  let saved : SavedMacro := { name := "craft", contents := "/action Groundwork <maxwait.0.12>" }
  let answers : Answers :=
    { craftActions := some ["Groundwork"]
      crafting := some true
      acknowledgements := some [none, some 30] }
  let world : World ScriptedHost := { host := { answers } }
  let settings : Settings := { maxTimeoutRetries := 2 }
  let start : Machine ScriptedHost := { engine := .ofSettings settings, world }
  let early : List (Move ScriptedHost) := [.call {} (.enqueue saved none), .launch .untilIdle]
  have hfollow : (follow? ScriptedHost.host early start).bind (fun machine =>
      machine.starting?.bind fun front => front.current?.map fun command =>
        let last := carryOut (machine.scope ScriptedHost.host) command machine.world
        decide (command.kind = .action "Groundwork" false none ∧
          last.1.past = [(100, .useAction "Groundwork"), (0, .useAction "Groundwork")] ∧
          last.1.now = 150 ∧ last.2 = none)) = some true := by decide +kernel
  obtain ⟨machine, hmachine, hrest⟩ := Option.bind_eq_some_iff.mp hfollow
  obtain ⟨front, hstarting, hrest⟩ := Option.bind_eq_some_iff.mp hrest
  obtain ⟨command, hcurrent, hseen⟩ := Option.map_eq_some_iff.mp hrest
  obtain ⟨hkind, hpast, hnow, hsucceeds⟩ := of_decide_eq_true hseen
  have hreachable : machine.Reachable ScriptedHost.host :=
    ⟨settings, world, early, run_of_follow? hmachine⟩
  have hcarries := exists_actionEnds hkind (machine.scope ScriptedHost.host) machine.world
  obtain ⟨uses, last, houtcome, hcompletes⟩ :=
    @attempts_of_action _ (machine.scope ScriptedHost.host) _ _ _ _ hkind machine.world
  obtain ⟨carried, hends⟩ := hcarries
  obtain ⟨-, rfl⟩ := (houtcome.ends_iff carried _).mp hends
  obtain ⟨next, others, hnext⟩ := hcompletes machine front hreachable rfl rfl hstarting hcurrent
  exact ⟨machine, next, front, command, uses, _, others, hreachable, hstarting, hcurrent, hkind,
    houtcome, hpast, hnow, hsucceeds, hnext⟩

end Machine

end GameMacros
