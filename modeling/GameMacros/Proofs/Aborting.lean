import GameMacros.Proofs.Holding

/-!
# Failing commands

A command that fails brings everything to a halt, once and for all: whether it fails at its start,
after an effect or at the end of a poll, the same thing happens. The failure is reported, the queue
is emptied with all that was asked for later, and the activations that were in it never work again.
Only what is queued from then on does.
-/

namespace GameMacros

/-- The effect reports a failure, or calls attention to one. -/
def Effect.isAlarm : Effect → Bool
  | .reportError _ | .beep .. => true
  | .print _ | .chat _ | .keys .. | .click _ | .target _ | .openRecipe _ | .useItem .. => false
  | .useAction _ => false

namespace World

variable {σ : Type} {host : Host σ} {world later : World σ}

/-- Performs effects one after the other. -/
def performAll (world : World σ) (host : Host σ) (effects : List Effect) : World σ :=
  effects.foldl (fun world effect => world.perform host effect) world

/-- Effects that are performed after others. -/
theorem performAll_append (world : World σ) (effects more : List Effect) :
    world.performAll host (effects ++ more) =
      (world.performAll host effects).performAll host more :=
  List.foldl_append

/-- No time passes while effects are performed. -/
theorem now_performAll (world : World σ) (effects : List Effect) :
    (world.performAll host effects).now = world.now := by
  induction effects generalizing world with
  | nil => rfl
  | cons effect effects ih => exact ih _

/-- From a world to a later one effects are performed, and none of them is an alarm. -/
def Silent (host : Host σ) (world later : World σ) : Prop :=
  ∃ effects, (∀ effect ∈ effects, effect.isAlarm = false) ∧ later = world.performAll host effects

/-- Where nothing is done, there is no alarm. -/
theorem silent_refl (world : World σ) : Silent host world world :=
  ⟨[], by simp, rfl⟩

/-- An effect that is no alarm may come first. -/
theorem Silent.of_perform {effect : Effect} (heffect : effect.isAlarm = false)
    (h : Silent host (world.perform host effect) later) : Silent host world later := by
  obtain ⟨effects, hsilent, rfl⟩ := h
  exact ⟨effect :: effects, List.forall_mem_cons.mpr ⟨heffect, hsilent⟩, rfl⟩

end World

/-! ## Pieces that fail -/

/-- The failure is that of a call: there is no such macro, or it cannot be read. -/
def CommandFailure.isOfCall : CommandFailure → Bool
  | .noSuchMacro _ | .badMacro _ => true
  | .clickNotFound _ | .targetNotFound _ | .recipeNotFound _ | .synthesisOpen => false
  | .itemNotFound _ | .actionTimeout .. | .requirementTimeout .. | .addonTimeout .. => false
  | .refused _ => false

namespace Execution

variable {σ : Type} {scope : Scope σ} {command : Command} {world : World σ}
  {failure : CommandFailure}

/-- A wait does not fail. -/
theorem trailingWait_ne_failed : trailingWait scope command world ≠ .failed failure := by
  unfold trailingWait
  split <;> simp

/-- A command whose goal is reached does not fail. -/
theorem reached_ne_failed (goal : Goal) : reached scope command world goal ≠ .failed failure := by
  cases goal with
  | response name left =>
    dsimp only [reached]
    split
    · simp
    · exact trailingWait_ne_failed
  | requirement | addon => exact trailingWait_ne_failed

/-- A piece of a command raises no alarm by itself if it fails, and it does not fail for a call. -/
def FailsPlainly (host : Host σ) (world : World σ) (result : World σ × Standing) : Prop :=
  ∀ failure, result.2 = .failed failure →
    failure.isOfCall = false ∧ World.Silent host world result.1

/-- A failure before anything is done is plain. -/
theorem failsPlainly_of_failed (h : failure.isOfCall = false) :
    FailsPlainly scope.host world (world, .failed failure) := by
  intro other hfailed
  cases hfailed
  exact ⟨h, World.silent_refl world⟩

/-- An effect and a wait do not fail. -/
theorem failsPlainly_performAndWait (effect : Effect) :
    FailsPlainly scope.host world (performAndWait scope command world effect) :=
  fun _ hfailed => absurd hfailed trailingWait_ne_failed

/-- An effect that the host refuses is no alarm. -/
theorem failsPlainly_performUnlessRefused {effect : Effect} (heffect : effect.isAlarm = false)
    (refusal : Option Refusal) {missing : CommandFailure} (hmissing : missing.isOfCall = false) :
    FailsPlainly scope.host world
      (performUnlessRefused scope command world effect refusal missing) := by
  have hperformed : World.Silent scope.host world (world.perform scope.host effect) :=
    .of_perform heffect (World.silent_refl _)
  unfold performUnlessRefused
  cases refusal with
  | none => exact failsPlainly_performAndWait effect
  | some refusal =>
    cases refusal with
    | notFound =>
      intro failure hfailed
      cases hfailed
      exact ⟨hmissing, hperformed⟩
    | failed reason =>
      intro failure hfailed
      cases hfailed
      exact ⟨rfl, hperformed⟩

/-- A poll fails plainly if what follows a time-out does. -/
theorem failsPlainly_pursue_of {goal : Goal} (poll : Poll)
    (hlate : FailsPlainly scope.host world (afterTimeout scope command world goal)) :
    FailsPlainly scope.host world (pursue scope command goal poll world) := by
  unfold pursue
  split
  · exact fun _ hfailed => absurd hfailed (reached_ne_failed goal)
  · exact fun _ hfailed => by cases hfailed
  · exact hlate

/-- Attempts at an action fail plainly. -/
theorem failsPlainly_attempt (name : String) (left : Nat) (world : World σ) :
    FailsPlainly scope.host world (attempt scope command name left world) := by
  induction left generalizing world with
  | zero => exact failsPlainly_of_failed rfl
  | succ left ih =>
    intro failure hfailed
    have hused : (Effect.useAction name).isAlarm = false := rfl
    obtain ⟨hcall, hsilent⟩ :=
      failsPlainly_pursue_of (freshPoll command (.response name left)) (ih _) failure hfailed
    exact ⟨hcall, .of_perform hused hsilent⟩

/-- A poll fails plainly. -/
theorem failsPlainly_pursue (goal : Goal) (poll : Poll) :
    FailsPlainly scope.host world (pursue scope command goal poll world) := by
  refine failsPlainly_pursue_of poll ?_
  cases goal with
  | response name left => exact failsPlainly_attempt name left world
  | requirement | addon => exact failsPlainly_of_failed rfl

/-- A command that is no call fails plainly at its start. -/
theorem failsPlainly_start (activation : Activation)
    (hcall : ∀ name, command.kind ≠ .runMacro name) :
    FailsPlainly scope.host world
      ((start scope command activation world).world,
        (start scope command activation world).standing) := by
  unfold start
  cases hkind : command.kind with
  | action name unsafeAction condition =>
    dsimp only [action]
    split
    · exact failsPlainly_performAndWait _
    · split
      · exact fun _ hfailed => by cases hfailed
      · split
        · exact failsPlainly_performAndWait _
        · exact failsPlainly_attempt name _ world
  | click | item => exact failsPlainly_performUnlessRefused rfl _ rfl
  | keys | native => exact failsPlainly_performAndWait _
  | target name =>
    dsimp only [target]
    split
    · exact failsPlainly_performAndWait _
    · split
      · exact failsPlainly_performAndWait _
      · split
        · exact failsPlainly_of_failed rfl
        · exact failsPlainly_performAndWait _
  | recipe name =>
    dsimp only [recipe]
    split
    · exact failsPlainly_of_failed rfl
    · split
      · exact failsPlainly_performAndWait _
      · exact failsPlainly_of_failed rfl
  | require | waitAddon => exact failsPlainly_pursue _ _
  | loop count =>
    intro failure hfailed
    cases count with
    | none => cases hfailed
    | some count =>
      dsimp only [loop] at hfailed
      split at hfailed <;> cases hfailed
  | craft count =>
    intro failure hfailed
    dsimp only [craft] at hfailed
    split at hfailed
    · cases hfailed
    · exact absurd hfailed trailingWait_ne_failed
  | wait => exact fun _ hfailed => absurd hfailed trailingWait_ne_failed
  | runMacro name => exact absurd hkind (hcall name)

/-- A call does nothing by itself. -/
theorem start_world_of_call {name : String} (hkind : command.kind = .runMacro name)
    (activation : Activation) : (start scope command activation world).world = world := by
  simp only [start, hkind, runMacro]
  split
  · rfl
  · split <;> rfl

/-- A command that fails at its start raises no alarm by itself. It fails for a call only if it is
one. -/
theorem silent_of_start_failed {activation : Activation}
    (hfailed : (start scope command activation world).standing = .failed failure) :
    (failure.isOfCall = true → ∃ name, command.kind = .runMacro name) ∧
      World.Silent scope.host world (start scope command activation world).world := by
  by_cases hcall : ∃ name, command.kind = .runMacro name
  · obtain ⟨name, hkind⟩ := hcall
    rw [start_world_of_call hkind]
    exact ⟨fun _ => ⟨name, hkind⟩, World.silent_refl world⟩
  · obtain ⟨hother, hsilent⟩ :=
      failsPlainly_start activation (not_exists.mp hcall) failure hfailed
    exact ⟨fun hcalls => absurd (hother.symm.trans hcalls) (by decide), hsilent⟩

/-- A command that fails after a sleep has slept in a poll, and fails plainly. -/
theorem polls_of_resume_failed {pause : Pause}
    (hfailed : (resume scope command pause world).2 = .failed failure) :
    (∃ goal poll, pause = .polling goal poll) ∧ failure.isOfCall = false ∧
      World.Silent scope.host world (resume scope command pause world).1 := by
  cases pause with
  | trailing => cases hfailed
  | beforeRewind => exact absurd hfailed trailingWait_ne_failed
  | polling goal poll => exact ⟨⟨goal, poll, rfl⟩, failsPlainly_pursue goal poll failure hfailed⟩

end Execution

/-! ## After a failure -/

/-- A macro that a halted engine takes starts with the next choice of a command. -/
theorem Engine.nextJob_of_enqueue_halt {engine queued : Engine} {saved : SavedMacro}
    {loops : Option Nat} (h : engine.halt.enqueue saved loops = .ok queued)
    (hlogin : engine.loggedIn = true) :
    ∃ program, saved.program engine.settings engine.reader loops = .ok program ∧
      (program.commands ≠ [] → queued.nextJob.2 = .run (.ofProgram engine.nextId program)) := by
  obtain ⟨program, hprogram, hup, rfl⟩ := enqueue_eq_ok h
  refine ⟨program, hprogram, fun hcommands => ?_⟩
  have hup : engine.isShutDown = false := hup
  simp [nextJob, notify, push, halt, dropFinished, allowStart, hup, hlogin, Activation.ofProgram,
    Activation.isFinished, Activation.size, hcommands]

namespace Machine

open Execution

variable {σ : Type} {host : Host σ} {machine next last : Machine σ} {moves : List (Move σ)}
  {failure : CommandFailure} {worker : Activation} {world : World σ}

/-- What is done about a failure: it is reported, and if the settings ask for it there are beeps. -/
def alarms (settings : Settings) (name : String) (failure : CommandFailure) : List Effect :=
  .reportError s!"{name}: {failure.message}" ::
    List.replicate (if settings.noisyErrors then settings.beepCount else 0)
      (.beep settings.beepFrequency settings.beepDuration)

/-- Reporting a failure performs these effects. -/
theorem report_eq (settings : Settings) (name : String) (failure : CommandFailure)
    (world : World σ) :
    report host settings name failure world =
      world.performAll host (alarms settings name failure) :=
  rfl

/-- A piece that fails works for the activation whose turn it is, after a poll if it has slept, and
raises no alarm by itself. -/
theorem Fails.worker?_eq (h : Fails host machine failure worker world) :
    machine.worker? = some worker ∧ World.Silent host machine.world world ∧
      ∀ flight wakeAt, machine.task = .suspended flight wakeAt →
        ∃ goal poll, flight.pause = .polling goal poll := by
  cases h with
  | starts hstarting _ hfailed =>
    have htask := (nextJob_of_starting? hstarting).1
    refine ⟨by simp only [worker?, htask, hstarting], (silent_of_start_failed hfailed).2, ?_⟩
    intro flight wakeAt hsuspended
    cases htask.symm.trans hsuspended
  | resumes htask _ _ hfailed =>
    obtain ⟨hpolls, _, hsilent⟩ := polls_of_resume_failed hfailed
    refine ⟨by simp only [worker?, htask], hsilent, fun flight wakeAt hsuspended => ?_⟩
    cases htask.symm.trans hsuspended
    exact hpolls

/-- The machine has to do only with activations whose numbers are not below a bound. -/
structure WorksFrom (bound : Nat) (machine : Machine σ) : Prop where
  bound_le : bound ≤ machine.engine.nextId
  queued_from : ∀ activation ∈ machine.engine.queue, bound ≤ activation.id
  flight_from : ∀ flight wakeAt, machine.task = .suspended flight wakeAt →
    bound ≤ flight.activation.id

/-- No move brings back an activation that is gone. -/
theorem WorksFrom.move {bound : Nat} (h : machine.WorksFrom bound) {move : Move σ}
    (hmove : machine.move? host move = some next) : next.WorksFrom bound := by
  have hproceeds := proceeds_of_move? hmove
  refine ⟨Nat.le_trans h.bound_le hproceeds.frame.nextId_le, fun activation hmem => ?_,
    fun flight wakeAt htask => ?_⟩
  · obtain ⟨old, hold, hid⟩ | hnew := hproceeds.renews activation hmem
    · exact hid ▸ h.queued_from old hold
    · exact Nat.le_trans h.bound_le hnew
  · obtain ⟨old, _, hold, hid⟩ | ⟨old, hold, hid⟩ := hproceeds.flight_id flight wakeAt htask
    · exact hid ▸ h.flight_from old _ hold
    · exact hid ▸ h.queued_from old hold

/-- What the machine works for has a number that is not below the bound. -/
theorem WorksFrom.le_of_worker? {bound : Nat} (h : machine.WorksFrom bound)
    (hworker : machine.worker? = some worker) : bound ≤ worker.id := by
  obtain ⟨flight, wakeAt, htask, rfl⟩ | hmem := worker?_cases hworker
  · exact h.flight_from flight wakeAt htask
  · exact h.queued_from worker hmem

/-- What a sound machine works for has a number that was given. -/
theorem Sound.id_lt_of_worker? (h : machine.Sound) (hworker : machine.worker? = some worker) :
    worker.id < machine.engine.nextId := by
  obtain ⟨flight, wakeAt, htask, rfl⟩ | hmem := worker?_cases hworker
  · exact (h.flight flight wakeAt htask).id_lt
  · exact h.engine.id_lt worker hmem

/-- The machine has nothing to work for, and has not done more than this. -/
structure Idles (past : List (Nat × Effect)) (machine : Machine σ) : Prop where
  queue_eq : machine.engine.queue = []
  awake : ∀ flight wakeAt, machine.task ≠ .suspended flight wakeAt
  past_eq : machine.world.past = past

/-- A machine that idles works for nothing. -/
theorem Idles.worker?_eq {past : List (Nat × Effect)} (h : machine.Idles past) :
    machine.worker? = none := by
  cases hworker : machine.worker? with
  | none => rfl
  | some worker =>
    obtain ⟨flight, wakeAt, htask, _⟩ | hmem := worker?_cases hworker
    · exact absurd htask (h.awake flight wakeAt)
    · simp [h.queue_eq] at hmem

/-- A machine idles on until something is queued. -/
theorem Idles.move {past : List (Nat × Effect)} (h : machine.Idles past) {move : Move σ}
    (hcalls : ∀ library call, move = .call library call → ¬call.Queues)
    (hmove : machine.move? host move = some next) : next.Idles past := by
  cases move with
  | work =>
    have hchosen {result : Engine × Engine.Job} (hjob : machine.engine.nextJob = result) :
        result.1.queue = [] :=
      List.sublist_nil.mp (h.queue_eq ▸ (Engine.choice_of_nextJob hjob).queue_sublist)
    cases step_of_step? hmove with
    | starts _ hjob =>
      have hmem := (Engine.choice_of_nextJob hjob).mem_of_run
      simp [h.queue_eq] at hmem
    | ends _ hjob => exact ⟨hchosen hjob, by simp, h.past_eq⟩
    | @rests engine htask hjob =>
      obtain ⟨wake, task, hrest, hawake⟩ := exists_rest_eq { machine with engine } htask
      rw [hrest]
      exact ⟨hchosen hjob, hawake, h.past_eq⟩
    | cancels htask => exact absurd htask (h.awake _ _)
    | resumes htask => exact absurd htask (h.awake _ _)
    | unparks => exact ⟨h.queue_eq, by simp, h.past_eq⟩
  | wait | drift =>
    cases hmove
    exact ⟨h.queue_eq, h.awake, h.past_eq⟩
  | call library call =>
    cases hmove
    refine ⟨?_, h.awake, h.past_eq⟩
    have hcontrol := machine.engine.control_handle library call
    obtain ⟨hqueue, _⟩ | ⟨hqueue, _⟩ := (hcontrol.of_not_queues (hcalls _ _ rfl)).2
    · exact hqueue.trans h.queue_eq
    · exact hqueue
  | launch mode =>
    simp only [move?] at hmove
    split at hmove
    · cases hmove
      exact ⟨h.queue_eq, by simp [launch], h.past_eq⟩
    · cases hmove

/-- What the failure of a command makes of a machine. -/
structure Aborted (host : Host σ) (failure : CommandFailure) (machine next : Machine σ) :
    Prop where
  /-- The queue is empty, the engine is stopped, and nothing is left of what was asked for. -/
  halted : next.engine.queue = [] ∧ next.engine.runState = .stopped ∧
    next.engine.pauseAtLoop = false ∧ next.engine.stopAtLoop = false ∧
    next.engine.stepPending = false
  /-- Nothing has been queued, so nothing was called. -/
  uncalled : next.engine.nextId = machine.engine.nextId
  /-- No time passes, and no wait follows. -/
  instant : next.world.now = machine.world.now ∧ next.task = .ready
  /-- The command has not waited before it failed, unless for what it polled for. -/
  unrested : ∀ flight wakeAt, machine.task = .suspended flight wakeAt →
    ∃ goal poll, flight.pause = .polling goal poll
  /-- The failure is reported once, with the name of the macro, after what the command has done.
  Then come the beeps, if the settings ask for them. Nothing else is reported. -/
  reported : ∃ worker done, machine.worker? = some worker ∧
    (∀ effect ∈ done, effect.isAlarm = false) ∧
    next.world =
      machine.world.performAll host (done ++ alarms machine.engine.settings worker.name failure)
  /-- What was queued, and what the command belonged to, have the numbers that were given before. -/
  numbered : (∀ activation ∈ machine.engine.queue, activation.id < machine.engine.nextId) ∧
    ∀ worker, machine.worker? = some worker → worker.id < machine.engine.nextId
  /-- None of these ever comes back to work, whatever follows. -/
  gone : ∀ moves last, Run host next moves last →
    (∀ activation ∈ last.engine.queue, machine.engine.nextId ≤ activation.id) ∧
      ∀ worker, last.worker? = some worker → machine.engine.nextId ≤ worker.id
  /-- Nothing is done until something is queued. -/
  idle : ∀ moves last, Run host next moves last →
    (∀ library call, Move.call library call ∈ moves → ¬call.Queues) →
    last.engine.queue = [] ∧ last.worker? = none ∧ last.world.past = next.world.past
  /-- What is queued then starts. -/
  restarts : ∀ saved loops queued, next.engine.enqueue saved loops = .ok queued →
    machine.engine.loggedIn = true →
    ∃ program,
      saved.program machine.engine.settings machine.engine.reader loops = .ok program ∧
        (program.commands ≠ [] →
          { next with engine := queued }.starting? =
            some (.ofProgram machine.engine.nextId program))

/-- A command that fails, at any depth and whatever else is queued, ends everything at once and for
all. -/
theorem aborted_of_failed (hmachine : machine.Reachable host)
    (hfailed : machine.outcome? host = some (.failed failure)) :
    ∃ next, machine.step? host = some next ∧ Aborted host failure machine next := by
  obtain ⟨worker, world, hfails⟩ := exists_fails hfailed
  obtain ⟨hworker, ⟨done, hdone, rfl⟩, hunrested⟩ := hfails.worker?_eq
  have hsound := sound_of_reachable hmachine
  refine ⟨_, hfails.step?_eq, ?_⟩
  rw [report_eq, ← World.performAll_append]
  refine {
    halted := ⟨rfl, rfl, rfl, rfl, rfl⟩
    uncalled := rfl
    instant := ⟨World.now_performAll _ _, rfl⟩
    unrested := hunrested
    reported := ⟨worker, done, hworker, hdone, rfl⟩
    numbered := ⟨hsound.engine.id_lt, fun _ => hsound.id_lt_of_worker?⟩
    gone := ?_
    idle := ?_
    restarts := ?_ }
  · intro moves last hrun
    have hfrom : last.WorksFrom machine.engine.nextId :=
      hrun.keeps (fun _ _ => fun hbefore hmove => hbefore.move hmove)
        ⟨Nat.le_refl _, by simp [Engine.halt], by simp⟩
    exact ⟨hfrom.queued_from, fun worker hworker => hfrom.le_of_worker? hworker⟩
  · intro moves last hrun hcalls
    have hidles := hrun.keeps
      (fun move hmem _ _ (hbefore : Idles _ _) hmove =>
        hbefore.move (fun library call heq => hcalls library call (heq ▸ hmem)) hmove)
      ⟨rfl, by simp, rfl⟩
    exact ⟨hidles.queue_eq, hidles.worker?_eq, hidles.past_eq⟩
  · intro saved loops queued hqueued hlogin
    obtain ⟨program, hprogram, hjob⟩ := Engine.nextJob_of_enqueue_halt hqueued hlogin
    refine ⟨program, hprogram, fun hcommands => ?_⟩
    simp only [starting?, hjob hcommands]

/-- A poll that comes to nothing in a macro that was called, while another macro was queued. -/
theorem aborted_of_failed_below_caller :
    ∃ (host : Host DryRun) (machine next : Machine DryRun),
      machine.Reachable host ∧
        machine.outcome? host = some (.failed (.addonTimeout "Synthesis" 1000)) ∧
        machine.engine.queue.map Activation.name = ["inner", "outer", "other"] ∧
        machine.engine.settings.noisyErrors = true ∧ machine.step? host = some next ∧
        Aborted host (.addonTimeout "Synthesis" 1000) machine next := by
  let host : Host DryRun := { DryRun.host with isAddonReady := fun _ _ _ => false }
  let inner : SavedMacro :=
    { name := "inner", contents := "/waitaddon Synthesis <maxwait.1> <wait.5>" }
  let library : Library := { macros := [inner] }
  let outer : SavedMacro := { name := "outer", contents := "/runmacro inner\n/loop" }
  let other : SavedMacro := { name := "other", contents := "/echo other" }
  let moves : List (Move DryRun) :=
    [.call library (.enqueue outer none), .launch .serving, .work, .work,
      .call library (.enqueue other none)] ++
      (List.range 9).flatMap (fun asked => [.wait (100 * (asked + 1)), .work]) ++ [.wait 1000]
  have hfollow : (follow? host moves
      { engine := .ofSettings { noisyErrors := true }, world := { host := { library } } }).map
        (fun machine => decide (
          machine.outcome? host = some (.failed (.addonTimeout "Synthesis" 1000)) ∧
            machine.engine.queue.map Activation.name = ["inner", "outer", "other"] ∧
            machine.engine.settings.noisyErrors = true)) = some true := by decide +kernel
  obtain ⟨machine, hmachine, hseen⟩ := Option.map_eq_some_iff.mp hfollow
  obtain ⟨hfailed, hqueue, hnoisy⟩ := of_decide_eq_true hseen
  have hreachable : machine.Reachable host := ⟨_, _, moves, run_of_follow? hmachine⟩
  obtain ⟨next, hnext, haborted⟩ := aborted_of_failed hreachable hfailed
  exact ⟨host, machine, next, hreachable, hfailed, hqueue, hnoisy, hnext, haborted⟩

end Machine

end GameMacros
