import GameMacros.Host.DryRun
import GameMacros.Proofs.Aborting
import GameMacros.Proofs.Elapsing
import GameMacros.Proofs.LoopLines
import GameMacros.Proofs.Origins

/-!
# Dry runs

A dry run rehearses every macro to its end, unless a macro is called that is not there or cannot be
read. No command waits for anything to come about: a line asks for amounts of 32 bits at most, and
the host has the greatest of these. So time passes only for the waits of the lines and for the
pauses before loops start again.
-/

namespace GameMacros

open Execution

/-! ## Amounts -/

/-- A count that is read fits in 32 bits. -/
theorem Numeral.le_max32_of_count? {s : List Char} {count : Nat} (h : count? s = some count) :
    count ≤ max32 := by
  unfold count? at h
  split at h
  · next hfits =>
    cases h
    simp only [Bool.and_eq_true, decide_eq_true_eq] at hfits
    exact hfits.2
  · cases h

/-- The requirement does not ask for more than there can be in 32 bits. -/
def Requirement.IsModest : Requirement → Prop
  | .quality least => least ≤ Numeral.max32
  | .stats least => DryRun.greatest.reach least = true
  | .status _ | .repair | .spiritbond _ => True

/-- Every requirement of the program is modest. -/
def Program.IsModest (program : Program) : Prop :=
  ∀ command ∈ program.commands, ∀ requirement, command.kind = .require requirement →
    requirement.IsModest

namespace Line

/-- Attributes that are read fit in 32 bits. -/
theorem reach_of_stats? {arguments : List Char} {least : CraftStats}
    (h : stats? arguments = some least) : DryRun.greatest.reach least = true := by
  unfold stats? at h
  split at h
  · simp only [Option.bind_eq_bind, Option.bind_eq_some_iff, Option.pure_def,
      Option.some.injEq] at h
    obtain ⟨craftsmanship, hcraftsmanship, control, hcontrol, cp, hcp, rfl⟩ := h
    simp [CraftStats.reach, DryRun.greatest, Numeral.le_max32_of_count? hcraftsmanship,
      Numeral.le_max32_of_count? hcontrol, Numeral.le_max32_of_count? hcp]
  · cases h

/-- A requirement that is read is modest. -/
theorem isModest_of_kindOf {verb : Verb} {line : String} {arguments : List Char}
    {modifiers : Modifiers} {requirement : Requirement}
    (h : kindOf verb line arguments modifiers = .ok (.require requirement)) :
    requirement.IsModest := by
  generalize hkind : Command.Kind.require requirement = kind at h
  cases makes_of_kindOf h with
  | quality hleast =>
    cases hkind
    exact Numeral.le_max32_of_count? hleast
  | stats hleast =>
    cases hkind
    exact reach_of_stats? hleast
  | repair | anySpiritbond | spiritbond =>
    cases hkind
    trivial
  | @named verb _ _ hnaming =>
    cases verb <;> cases hnaming <;> cases hkind
    trivial
  | keys | craft | endlessLoop | loop | bareWait | wait => cases hkind

end Line

/-- A requirement of a line is modest. -/
theorem LineReader.isModest_of_command {reader : LineReader} {line : List Char} {command : Command}
    (h : reader.command line = .ok (some command)) {requirement : Requirement}
    (hkind : command.kind = .require requirement) : requirement.IsModest := by
  obtain ⟨modifiers, rest, delay, _, hread, _⟩ := exists_of_command h
  rw [hkind] at hread
  obtain ⟨_, _, verb, _, _, hfound, _⟩ | ⟨hwait, _⟩ | ⟨_, hnative, _⟩ :=
    Line.kindAndDelay_cases hread
  · exact Line.isModest_of_kindOf hfound
  · cases hwait
  · cases hnative

/-- The requirements of all lines are modest. -/
theorem LineReader.Reads.isModest {reader : LineReader} {lines : List (List Char)}
    {commands : List Command} (h : Reads reader lines commands) (name : String) :
    Program.IsModest ⟨name, commands⟩ := by
  induction h with
  | nil => exact fun command hmem => absurd hmem List.not_mem_nil
  | cons hline _ ih =>
    intro command hmem requirement hkind
    obtain hfirst | hother := List.mem_append.mp hmem
    · obtain rfl := Option.mem_toList.mp hfirst
      exact isModest_of_command hline hkind
    · exact ih command hother requirement hkind

/-- A macro that can be read requires nothing but what is modest. -/
theorem SavedMacro.isModest_of_program {saved : SavedMacro} {settings : Settings}
    {reader : LineReader} {loops : Option Nat} {program : Program}
    (h : saved.program settings reader loops = .ok program) : program.IsModest := by
  obtain ⟨commands, hcommands, rfl⟩ := exists_of_map_eq_ok h
  exact (LineReader.commands_eq_ok_iff.mp hcommands).isModest saved.name

/-! ## Commands -/

/-- What the command waits for to come about, if it waits for anything. -/
def Command.goal? (command : Command) : Option Goal :=
  match command.kind with
  | .require requirement => some (.requirement requirement)
  | .waitAddon name => some (.addon name)
  | _ => none

/-- The sleeps of a command that waits for nothing to come about: the wait of its line, and before
it the pause of a loop that starts again. -/
inductive Command.Naps (command : Command) (activation : Activation) : Nat → Pause → Prop
  | rests {ms : Nat} (hwait : command.wait.isZero = false)
      (hallows : command.wait.allows ms = true) :
      Naps command activation ms .trailing
  | rewinds {count : Option Nat} (hkind : command.kind = .loop count)
      (hnext : activation.nextStep = some 0) : Naps command activation rewindPause .beforeRewind

/-- The command calls a macro that is not there or cannot be read, and fails for that. -/
inductive Command.Miscalls (library : Library) (settings : Settings) (reader : LineReader)
    (command : Command) : CommandFailure → Prop
  | missing {name : String} {error : LookupError} (hkind : command.kind = .runMacro name)
      (hfind : library.find name = .error error) :
      Miscalls library settings reader command (.noSuchMacro error)
  | unreadable {name : String} {saved : SavedMacro} {error : ScriptError}
      (hkind : command.kind = .runMacro name) (hfind : library.find name = .ok saved)
      (hprogram : saved.program settings reader none = .error error) :
      Miscalls library settings reader command (.badMacro error)

namespace Execution

variable {settings : Settings} {reader : LineReader} {command : Command} {activation : Activation}
  {world : World DryRun}

/-- Where a piece of a command leads in a dry run. -/
inductive Rehearsed (library : Library) (settings : Settings) (reader : LineReader)
    (command : Command) (activation : Activation) : Standing → Prop
  | finished : Rehearsed library settings reader command activation .finished
  | asleep {ms : Nat} {pause : Pause} (hnaps : command.Naps activation ms pause) :
      Rehearsed library settings reader command activation (.asleep ms pause)
  | failed {failure : CommandFailure}
      (hmiscalls : command.Miscalls library settings reader failure) :
      Rehearsed library settings reader command activation (.failed failure)

/-- A line waits as long as it says. -/
theorem rehearsed_trailingWait {σ : Type} {scope : Scope σ} {library : Library} (world : World σ) :
    Rehearsed library settings reader command activation (trailingWait scope command world) := by
  unfold trailingWait
  split
  · exact .finished
  · next hwait => exact .asleep (.rests (Bool.eq_false_iff.mpr hwait) (Wait.allows_draw _ _))

/-- In a dry run a modest requirement is met at once. -/
theorem isMet_of_isModest {requirement : Requirement} (h : requirement.IsModest) :
    isMet DryRun.host world requirement = true := by
  cases requirement with
  | status | repair | spiritbond => rfl
  | quality least => exact decide_eq_true h
  | stats least => exact h

/-- In a dry run what a command waits for has come about when it first asks. -/
theorem ask_eq_ready {goal : Goal} (hgoal : command.goal? = some goal)
    (hmodest : ∀ requirement, command.kind = .require requirement → requirement.IsModest)
    (poll : Poll) : ask ⟨DryRun.host, settings, reader⟩ goal poll world = .ready () := by
  have hreached : isReached ⟨DryRun.host, settings, reader⟩ world goal = true := by
    unfold Command.goal? at hgoal
    split at hgoal
    · next requirement hkind =>
      cases hgoal
      exact isMet_of_isModest (hmodest requirement hkind)
    · cases hgoal
      rfl
    · cases hgoal
  rw [ask, hreached]
  rfl

/-- A command of a dry run ends, naps, or calls what cannot be called. -/
theorem rehearsed_start
    (hmodest : ∀ requirement, command.kind = .require requirement → requirement.IsModest) :
    Rehearsed world.host.library settings reader command
      (start ⟨DryRun.host, settings, reader⟩ command activation world).activation
      (start ⟨DryRun.host, settings, reader⟩ command activation world).standing := by
  unfold start
  cases hkind : command.kind with
  | action | click | keys | recipe | item | wait | native => exact rehearsed_trailingWait _
  | target name =>
    dsimp only [target]
    split <;> exact rehearsed_trailingWait _
  | require requirement =>
    have hgoal : command.goal? = some (.requirement requirement) := by rw [Command.goal?, hkind]
    have hready (poll : Poll) :
        ask ⟨DryRun.host, settings, reader⟩ (.requirement requirement) poll world = .ready () :=
      ask_eq_ready hgoal hmodest poll
    simp only [pursue, hready]
    exact rehearsed_trailingWait _
  | waitAddon name =>
    exact rehearsed_trailingWait _
  | loop count =>
    cases count with
    | none => exact .asleep (.rewinds hkind rfl)
    | some count =>
      dsimp only [loop]
      split
      · exact .finished
      · exact .asleep (.rewinds hkind rfl)
  | craft count =>
    dsimp only [craft]
    split
    · exact .finished
    · exact rehearsed_trailingWait _
  | runMacro name =>
    have hfind : world.ask DryRun.host.findMacro name = world.host.library.find name := rfl
    simp only [runMacro, hfind]
    split
    · next error hmissing => exact .failed (.missing hkind hmissing)
    · next saved hsaved =>
      split
      · next error hunread => exact .failed (.unreadable hkind hsaved hunread)
      · exact rehearsed_trailingWait _

/-- At the end of a nap the command ends, or rests for the wait of its line. -/
theorem resume_of_naps {σ : Type} (scope : Scope σ) (world : World σ) {ms : Nat} {pause : Pause}
    (hnaps : command.Naps activation ms pause) :
    (resume scope command pause world).2 = .finished ∨
      pause = .beforeRewind ∧
        (resume scope command pause world).2 = trailingWait scope command world := by
  cases hnaps with
  | rests => exact .inl rfl
  | rewinds => exact .inr ⟨rfl, rfl⟩

/-- A command that calls what cannot be called fails for that. -/
theorem standing_of_miscalls {failure : CommandFailure}
    (h : command.Miscalls world.host.library settings reader failure) :
    (start ⟨DryRun.host, settings, reader⟩ command activation world).standing =
      .failed failure := by
  have hfind (name : String) :
      world.ask DryRun.host.findMacro name = world.host.library.find name := rfl
  cases h with
  | missing hkind hmissing => simp only [start, hkind, runMacro, hfind, hmissing]
  | unreadable hkind hsaved hunread => simp only [start, hkind, runMacro, hfind, hsaved, hunread]

end Execution

/-! ## Machines -/

namespace Machine

variable {machine next last : Machine DryRun} {moves : List (Move DryRun)} {flight : InFlight}
  {standing : Standing}

/-- The machine executes nothing but what is modest, and its command naps. -/
structure Rehearsing (machine : Machine DryRun) : Prop where
  modest : machine.RunsOnly Program.IsModest
  naps : ∀ flight wakeAt, machine.task = .suspended flight wakeAt →
    ∃ since ms, since ≤ machine.world.now ∧ wakeAt = since + Sleep.granted ms ∧
      flight.command.Naps flight.activation ms flight.pause

/-- What the next command of a queued activation requires is modest. -/
theorem RunsOnly.isModest_of_queued (h : machine.RunsOnly Program.IsModest) {front : Activation}
    {command : Command} (hfront : front ∈ machine.engine.queue)
    (hcurrent : front.current? = some command) {requirement : Requirement}
    (hkind : command.kind = .require requirement) : requirement.IsModest :=
  h.queued front hfront command (Activation.mem_program_of_current? hcurrent) requirement hkind

/-- A piece of a command ends it, lets it nap, or calls what cannot be called. -/
theorem Rehearsing.piece (h : machine.Rehearsing)
    (hpiece : Piece DryRun.host machine flight next standing) :
    Rehearsed machine.world.host.library machine.engine.settings machine.engine.reader
      flight.command flight.activation standing := by
  cases hpiece with
  | @starts engine front command _ _ hjob hcurrent hbegun =>
    have hchoice := Engine.choice_of_nextJob hjob
    have hframe : machine.engine.Frame engine := hchoice.frame
    subst hbegun
    rw [← hframe.settings_eq, ← hframe.reader_eq]
    exact rehearsed_start fun requirement =>
      h.modest.isModest_of_queued hchoice.mem_of_run hcurrent
  | resumes htask _ hreached =>
    obtain ⟨_, ms, _, _, hnaps⟩ := h.naps flight _ htask
    subst hreached
    obtain hfinished | ⟨_, hrests⟩ := resume_of_naps (machine.scope DryRun.host)
      machine.world hnaps
    · rw [hfinished]
      exact .finished
    · rw [hrests]
      exact rehearsed_trailingWait _

/-- A dry run goes on as one. -/
theorem Rehearsing.move (h : machine.Rehearsing) {move : Move DryRun}
    (hmove : machine.move? DryRun.host move = some next) : next.Rehearsing := by
  refine ⟨h.modest.move ?_ ?_ hmove, ?_⟩
  · intro _ _ _ _ _ _ _ _ _ _ callee hcallee
    exact SavedMacro.isModest_of_program hcallee
  · intro _ _ _ _ _ _ program hprogram
    exact SavedMacro.isModest_of_program hprogram
  · intro flight wakeAt htask
    cases move with
    | work =>
      obtain ⟨slept, after, standing, hpiece, _, _, rfl⟩ | ⟨_, _, hawake⟩ :=
        (step_of_step? hmove).piece_or_none
      · have hrehearsed := h.piece hpiece
        cases standing with
        | finished | failed => cases htask
        | asleep ms pause =>
          cases hrehearsed with
          | asleep hnaps =>
          cases htask
          exact ⟨after.world.now, ms, Nat.le_refl _, rfl, hnaps⟩
      · exact absurd htask (hawake flight wakeAt)
    | wait time =>
      cases hmove
      obtain ⟨since, ms, hsince, hwake⟩ := h.naps flight wakeAt htask
      exact ⟨since, ms, hsince.trans (Nat.le_max_left _ _), hwake⟩
    | drift | call =>
      cases hmove
      exact h.naps flight wakeAt htask
    | launch mode =>
      simp only [move?] at hmove
      split at hmove
      · cases hmove
        cases htask
      · cases hmove

/-- Every machine on a dry run executes nothing but what is modest, and its command naps. -/
theorem rehearsing_of_reachable (h : machine.Reachable DryRun.host) : machine.Rehearsing := by
  obtain ⟨settings, world, moves, hrun⟩ := h
  exact hrun.keeps (fun _ _ _ _ hbefore hmove => hbefore.move hmove)
    ⟨runsOnly_new settings world, by simp⟩

/-- A dry run does what is asked of it without waiting for anything. -/
structure Rehearses (machine : Machine DryRun) : Prop where
  /-- A command fails exactly if it calls a macro that is not there or cannot be read. -/
  failed_iff : ∀ failure, machine.outcome? DryRun.host = some (.failed failure) ↔
    ∃ front command, machine.starting? = some front ∧ front.current? = some command ∧
      command.Miscalls machine.world.host.library machine.engine.settings machine.engine.reader
        failure
  /-- What a command waits for has come about when it first asks, however long it may ask. -/
  ready : ∀ front command goal, machine.starting? = some front → front.current? = some command →
    command.goal? = some goal → ∀ poll,
    ask (machine.scope DryRun.host) goal poll machine.world = .ready ()
  /-- A command that goes to sleep does so for a nap. -/
  asleep : ∀ ms pause, machine.outcome? DryRun.host = some (.asleep ms pause) →
    ∃ next flight, machine.step? DryRun.host = some next ∧
      next.task = .suspended flight (machine.world.now + Sleep.granted ms) ∧
      flight.pause = pause ∧ flight.command.Naps flight.activation ms pause
  /-- A command under way naps. It never polls, and it wakes when what was granted is over. -/
  suspended : ∀ flight wakeAt, machine.task = .suspended flight wakeAt →
    ∃ since ms, since ≤ machine.world.now ∧ wakeAt = since + Sleep.granted ms ∧
      flight.command.Naps flight.activation ms flight.pause
  /-- At the end of its nap a command ends, unless it is a loop that rests before it starts
  again. -/
  wakes : ∀ flight wakeAt, machine.task = .suspended flight wakeAt → flight.Live machine.engine →
    wakeAt ≤ machine.world.now →
    machine.outcome? DryRun.host = some .finished ∨
      flight.pause = .beforeRewind ∧ ∃ ms,
        machine.outcome? DryRun.host = some (.asleep ms .trailing)
  /-- The time that passes while commands sleep is spent on what they were granted for naps. They
  sleep less if a stop cuts them off. -/
  spends : ∀ moves last, Run DryRun.host machine moves last →
    ((trail DryRun.host moves machine).map sleptIn).sum + last.restOf ≤
      machine.restOf + ((trail DryRun.host moves machine).map (grantedIn DryRun.host)).sum
  /-- While the machine is left alone, no other time passes. -/
  clock : ∀ moves,
    (drive DryRun.host moves machine).world.now + (drive DryRun.host moves machine).restOf =
      machine.world.now + machine.restOf + granted DryRun.host moves machine

/-- A piece that fails does so at the start of a command that calls what cannot be called. -/
theorem Rehearsing.exists_of_failed (h : machine.Rehearsing) {failure : CommandFailure}
    (hfailed : machine.outcome? DryRun.host = some (.failed failure)) :
    ∃ front command, machine.starting? = some front ∧ front.current? = some command ∧
      command.Miscalls machine.world.host.library machine.engine.settings machine.engine.reader
        failure := by
  obtain ⟨worker, world, hfails⟩ := exists_fails hfailed
  cases hfails with
  | @starts _ command hstarting hcurrent hstart =>
    let started := start (machine.scope DryRun.host) command worker machine.world
    have hrehearsed : Rehearsed machine.world.host.library machine.engine.settings
        machine.engine.reader command started.activation started.standing :=
      rehearsed_start fun requirement =>
        h.modest.isModest_of_queued (mem_queue_of_starting? hstarting) hcurrent
    have hstart : started.standing = .failed failure := hstart
    rw [hstart] at hrehearsed
    cases hrehearsed with
    | failed hmiscalls => exact ⟨worker, command, hstarting, hcurrent, hmiscalls⟩
  | resumes htask _ _ hresume =>
    obtain ⟨_, ms, _, _, hnaps⟩ := h.naps _ _ htask
    obtain hfinished | ⟨_, hrests⟩ := resume_of_naps (machine.scope DryRun.host)
      machine.world hnaps
    · cases hfinished.symm.trans hresume
    · exact absurd (hrests.symm.trans hresume) trailingWait_ne_failed

/-- Every machine on a dry run does what is asked of it, whatever is queued, and however the engine
is controlled. -/
theorem rehearses_of_reachable (hmachine : machine.Reachable DryRun.host) : machine.Rehearses := by
  have h := rehearsing_of_reachable hmachine
  have hdropped : machine.engine.signal.dropped = false := by
    obtain ⟨settings, world, moves, hrun⟩ := hmachine
    exact hrun.frame.dropped_eq
  refine ⟨fun failure => ⟨h.exists_of_failed, ?_⟩, ?_, ?_, h.naps, ?_,
    fun moves last hrun => hrun.slept_le hdropped, fun moves => clock_drive moves machine hdropped⟩
  · rintro ⟨front, command, hstarting, hcurrent, hmiscalls⟩
    have htask := (nextJob_of_starting? hstarting).1
    simp only [outcome?, htask, hstarting, Option.bind_some, hcurrent, Option.map_some]
    exact congrArg some (standing_of_miscalls hmiscalls)
  · intro front command goal hstarting hcurrent hgoal poll
    exact ask_eq_ready hgoal
      (fun requirement =>
        h.modest.isModest_of_queued (mem_queue_of_starting? hstarting) hcurrent) poll
  · intro ms pause houtcome
    obtain ⟨next, hstep⟩ := exists_step?_of_outcome? houtcome
    obtain ⟨flight, after, standing, hpiece, hstanding, _, rfl⟩ | ⟨hnone, _, _⟩ :=
      (step_of_step? hstep).piece_or_none
    · cases houtcome.symm.trans hstanding
      have hrehearsed := h.piece hpiece
      cases hrehearsed with
      | asleep hnaps =>
        refine ⟨_, { flight with pause }, hstep, ?_, rfl, hnaps⟩
        rw [← hpiece.now_eq]
        rfl
    · cases houtcome.symm.trans hnone
  · intro flight wakeAt htask hlive hdue
    obtain ⟨_, ms, _, _, hnaps⟩ := h.naps flight wakeAt htask
    have houtcome : machine.outcome? DryRun.host = some
        (resume (machine.scope DryRun.host) flight.command flight.pause machine.world).2 := by
      have hlive : machine.engine.signal.stoppedSince flight.seen = false := hlive
      simp only [outcome?, htask, hlive, Bool.false_eq_true, if_false, if_pos hdue]
    obtain hfinished | ⟨hpause, hrests⟩ := resume_of_naps (machine.scope DryRun.host)
      machine.world hnaps
    · exact .inl (houtcome.trans (congrArg some hfinished))
    · rw [hrests] at houtcome
      unfold trailingWait at houtcome
      split at houtcome
      · exact .inl houtcome
      · exact .inr ⟨hpause, _, houtcome⟩

/-- A machine that is about to start a macro again which requires the greatest amounts at once. -/
theorem rehearses_of_reachable_at_loop :
    ∃ machine : Machine DryRun, machine.Reachable DryRun.host ∧
      (machine.starting?.bind Activation.current?).map Command.kind = some (.loop none) ∧
      machine.outcome? DryRun.host = some (.asleep 10 .beforeRewind) ∧
      machine.world.now = 2000 ∧ machine.Rehearses := by
  let contents :=
    "/requirequality 4294967295 <maxwait.0>\n" ++
    "/requirestats 4294967295 4294967295 4294967295\n" ++
    "/waitaddon Synthesis\n/ac \"Basic Synthesis\" <wait.1-2>\n/loop"
  let saved : SavedMacro := { name := "outer", contents }
  let moves : List (Move DryRun) :=
    .call {} (.enqueue saved none) :: .launch .untilIdle :: List.replicate 4 .work ++
      [.wait 2000, .work]
  have hfollow : (follow? DryRun.host moves
        { engine := .ofSettings {}, world := { host := {} } }).map
      (fun machine => decide (
        (machine.starting?.bind Activation.current?).map Command.kind = some (.loop none) ∧
        machine.outcome? DryRun.host = some (.asleep 10 .beforeRewind) ∧
        machine.world.now = 2000)) = some true := by decide +kernel
  obtain ⟨machine, hmachine, hseen⟩ := Option.map_eq_some_iff.mp hfollow
  obtain ⟨hkind, houtcome, hnow⟩ := of_decide_eq_true hseen
  have hreachable : machine.Reachable DryRun.host := ⟨_, _, moves, run_of_follow? hmachine⟩
  exact ⟨machine, hreachable, hkind, houtcome, hnow, rehearses_of_reachable hreachable⟩

end Machine

end GameMacros
