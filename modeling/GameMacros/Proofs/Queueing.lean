import GameMacros.Proofs.Origins
import GameMacros.Proofs.Reading
import GameMacros.Proofs.Waking

/-!
# Queueing

A macro is queued as a whole or not at all. A call that is refused leaves everything as it was,
whatever the reason; a call that succeeds puts one activation at the end of the queue, and starts an
engine that is stopped. It may come at any time while a command is under way. The command works on a
copy of its activation and puts it back at its end: the activation is then still in front of the
queue, and what was queued meanwhile is still behind it.
-/

namespace GameMacros

open Execution

namespace LineReader

/-- The lines are read up to one that is no command, for this reason and with this number. -/
def FailsAt (reader : LineReader) (lines : List (List Char)) (error : ScriptError) : Prop :=
  ∃ before line after commands, lines = before ++ line :: after ∧
    reader.Reads before commands ∧ reader.command line = .error error.cause ∧
    error.lineNumber = before.length + 1

/-- Lines are refused because of the first one that is no command. -/
theorem exists_line_of_commandsFrom {reader : LineReader} {lineNumber : Nat}
    {lines : List (List Char)} {error : ScriptError}
    (h : reader.commandsFrom lineNumber lines = .error error) :
    ∃ before line after commands, lines = before ++ line :: after ∧
      reader.Reads before commands ∧ reader.command line = .error error.cause ∧
      error.lineNumber = lineNumber + before.length := by
  induction lines generalizing lineNumber with
  | nil => cases h
  | cons line rest ih =>
    rw [commandsFrom] at h
    cases hline : reader.command line with
    | error cause =>
      simp only [hline, Except.error.injEq] at h
      subst h
      exact ⟨[], line, rest, [], rfl, .nil, hline, rfl⟩
    | ok command =>
      cases hrest : reader.commandsFrom (lineNumber + 1) rest with
      | ok others => simp [hline, hrest, Except.map] at h
      | error later =>
        simp only [hline, hrest, Except.map, Except.error.injEq] at h
        subst h
        obtain ⟨before, bad, after, commands, rfl, hbefore, hbad, hnumber⟩ := ih hrest
        refine ⟨line :: before, bad, after, _, rfl, .cons hline hbefore, hbad, ?_⟩
        rw [hnumber, List.length_cons]
        omega

end LineReader

/-- The lines of a macro that is queued, with the count that is asked for. -/
def SavedMacro.lines (saved : SavedMacro) (settings : Settings) (loops : Option Nat) :
    List (List Char) :=
  Text.lines (Text.unifyBreaks (saved.source settings loops))

/-- A program holds all commands that its lines hold, and there is none if one line is wrong. -/
theorem SavedMacro.program_cases (saved : SavedMacro) (settings : Settings) (reader : LineReader)
    (loops : Option Nat) :
    (∃ commands, reader.Reads (saved.lines settings loops) commands ∧
      saved.program settings reader loops = .ok ⟨saved.name, commands⟩) ∨
    ∃ error, reader.FailsAt (saved.lines settings loops) error ∧
      saved.program settings reader loops = .error error := by
  unfold program
  cases hcommands : reader.commands (saved.source settings loops) with
  | ok commands => exact .inl ⟨commands, LineReader.commandsFrom_eq_ok_iff.mp hcommands, rfl⟩
  | error error =>
    obtain ⟨before, line, after, commands, hlines, hreads, hline, hnumber⟩ :=
      LineReader.exists_line_of_commandsFrom hcommands
    refine .inr ⟨error, ⟨before, line, after, commands, hlines, hreads, hline, ?_⟩, rfl⟩
    rw [hnumber, Nat.add_comm]

namespace Engine

variable {engine next : Engine} {library : Library} {call : Call}

/-! ## Answers -/

/-- The reasons for which a call is refused that asks for a macro to be queued. -/
inductive Refuses (engine : Engine) (library : Library) : Call → QueueFailure → Prop
  | missing {name : String} {error : LookupError} (hfind : library.find name = .error error)
      (loops : Option Nat) : Refuses engine library (.enqueueByName name loops) (.noSuchMacro error)
  | unreadable {call : Call} {saved : SavedMacro} {loops : Option Nat} {error : ScriptError}
      (hasks : call.AsksFor library saved loops)
      (hlines : engine.reader.FailsAt (saved.lines engine.settings loops) error) :
      Refuses engine library call (.badMacro saved.name error)
  | shutDown {call : Call} {saved : SavedMacro} {loops : Option Nat} {commands : List Command}
      (hasks : call.AsksFor library saved loops)
      (hlines : engine.reader.Reads (saved.lines engine.settings loops) commands)
      (hdown : engine.isShutDown = true) : Refuses engine library call .shutDown

/-- What queueing a program changes about an engine. -/
structure Enqueues (engine : Engine) (program : Program) (next : Engine) : Prop where
  /-- One activation of which nothing has happened yet comes to the end of the queue. -/
  queue_eq : next.queue = engine.queue ++ [.ofProgram engine.nextId program]
  /-- An engine that is stopped starts and forgets what was asked for at loops. -/
  starts : engine.runState = .stopped →
    next.runState = .running ∧ next.pauseAtLoop = false ∧ next.stopAtLoop = false
  /-- An engine that is not stopped keeps its state and what was asked for at loops. -/
  keeps : engine.runState ≠ .stopped →
    next.runState = engine.runState ∧ next.pauseAtLoop = engine.pauseAtLoop ∧
      next.stopAtLoop = engine.stopAtLoop
  /-- The server is woken, and the number is used up. -/
  wake_eq : next.wake = engine.wake.notify ∧ next.nextId = engine.nextId + 1
  /-- All else stays. -/
  others_eq : next.loggedIn = engine.loggedIn ∧ next.stepPending = engine.stepPending ∧
    next.isShutDown = engine.isShutDown ∧ next.signal = engine.signal ∧
    next.settings = engine.settings ∧ next.reader = engine.reader

/-- Queueing a program changes this about every engine. -/
theorem enqueues_push (engine : Engine) (program : Program) :
    engine.Enqueues program (engine.push program).notify := by
  unfold push
  split
  · next hstopped =>
    exact ⟨rfl, fun _ => ⟨rfl, rfl, rfl⟩, fun hlive => absurd hstopped hlive, ⟨rfl, rfl⟩,
      rfl, rfl, rfl, rfl, rfl, rfl⟩
  · next hlive =>
    exact ⟨rfl, fun hstopped => absurd hstopped hlive, fun _ => ⟨rfl, rfl, rfl⟩, ⟨rfl, rfl⟩,
      rfl, rfl, rfl, rfl, rfl, rfl⟩

/-- A call that finds its macro is answered as the macro is. -/
theorem handle_of_asksFor {saved : SavedMacro} {loops : Option Nat}
    (h : call.AsksFor library saved loops) :
    engine.handle library call =
      match engine.enqueue saved loops with
      | .ok queued => (queued, .queued)
      | .error failure => (engine, .refused failure) := by
  cases h with
  | enqueue => rfl
  | @byName name saved hfound loops =>
    have hfind : engine.enqueueByName library name loops = engine.enqueue saved loops := by
      simp only [enqueueByName, hfound]
    exact hfind ▸ rfl

/-- A call to queue a macro is refused for a reason and leaves the engine as it is, or queues all
commands of the macro. -/
theorem refuses_or_enqueues (engine : Engine) (library : Library) (hcall : call.Queues) :
    (∃ failure, engine.Refuses library call failure ∧
      engine.handle library call = (engine, .refused failure)) ∨
    ∃ saved loops commands next, call.AsksFor library saved loops ∧
      engine.reader.Reads (saved.lines engine.settings loops) commands ∧
      engine.isShutDown = false ∧ engine.Enqueues ⟨saved.name, commands⟩ next ∧
      engine.handle library call = (next, .queued) := by
  have hasked {saved : SavedMacro} {loops : Option Nat} (hasks : call.AsksFor library saved loops) :
      (∃ failure, engine.Refuses library call failure ∧
        engine.handle library call = (engine, .refused failure)) ∨
      ∃ saved loops commands next, call.AsksFor library saved loops ∧
        engine.reader.Reads (saved.lines engine.settings loops) commands ∧
        engine.isShutDown = false ∧ engine.Enqueues ⟨saved.name, commands⟩ next ∧
        engine.handle library call = (next, .queued) := by
    rw [handle_of_asksFor hasks, enqueue]
    obtain ⟨commands, hlines, hprogram⟩ | ⟨error, hlines, hprogram⟩ :=
      saved.program_cases engine.settings engine.reader loops
    · rw [hprogram]
      cases hdown : engine.isShutDown with
      | true => exact .inl ⟨_, .shutDown hasks hlines hdown, rfl⟩
      | false =>
        exact .inr ⟨saved, loops, commands, _, hasks, hlines, rfl, engine.enqueues_push _, rfl⟩
    · rw [hprogram]
      exact .inl ⟨_, .unreadable hasks hlines, rfl⟩
  cases call with
  | enqueue saved loops => exact hasked (.enqueue saved loops)
  | enqueueByName name loops =>
    cases hfind : library.find name with
    | ok saved => exact hasked (.byName hfind loops)
    | error error =>
      refine .inl ⟨_, .missing hfind loops, ?_⟩
      simp only [handle, enqueueByName, hfind]
  | pause | resume | stepOnce | stop | login | logout | shutDown | look | summary => cases hcall

end Engine

/-! ## The command under way and its activation -/

namespace InFlight

/-- What holds of a command under way however calls interleave with it. As long as no stop has come,
its activation is in front of the queue; after a stop the queue has nothing of it. -/
structure Placed (engine : Engine) (flight : InFlight) : Prop where
  sound : flight.Sound engine
  steady : flight.Steady engine
  gone : ¬flight.Live engine →
    ∀ activation ∈ engine.queue, activation.id ≠ flight.activation.id

variable {engine next : Engine} {flight : InFlight}

/-- What is gone from a queue stays gone where only new numbers come. -/
theorem Placed.gone_of_renews (h : flight.Placed engine) (hrenews : engine.Renews next)
    (hgone : ∀ activation ∈ engine.queue, activation.id ≠ flight.activation.id) :
    ∀ activation ∈ next.queue, activation.id ≠ flight.activation.id := by
  intro activation hmem
  rcases hrenews activation hmem with ⟨old, hold, hid⟩ | hnew
  · rw [← hid]
    exact hgone old hold
  · exact (Nat.ne_of_lt (Nat.lt_of_lt_of_le h.sound.id_lt hnew)).symm

/-- A command stays in its place when the queue and the stops stay. -/
theorem Placed.of_queue_eq (h : flight.Placed engine) (hframe : engine.Frame next)
    (hqueue : next.queue = engine.queue) (hsignal : next.signal = engine.signal) :
    flight.Placed next := by
  have happend : next.queue = engine.queue ++ [] := by rw [hqueue, List.append_nil]
  refine ⟨h.sound.of_queue_eq hframe hqueue,
    h.steady.of_queue_eq_append hframe.settings_eq happend hsignal, fun hstopped => ?_⟩
  rw [hqueue]
  apply h.gone
  rwa [Live, ← hsignal]

/-- A command stays in its place whatever is called. -/
theorem Placed.handle (h : flight.Placed engine) (library : Library) (call : Call) :
    flight.Placed (engine.handle library call).1 := by
  have hcontrol := engine.control_handle library call
  have hsound := h.sound.control hcontrol
  by_cases hcall : call.StopsAtOnce
  · obtain ⟨hempty, _, hsignal, _⟩ := engine.handle_of_stopsAtOnce hcall library
    have hstopped : ¬flight.Live (engine.handle library call).1 := by
      rw [Live, hsignal, Engine.stoppedSince_trigger h.sound.seen_le]
      decide
    refine ⟨hsound, ⟨h.steady.regular, fun hlive => absurd hlive hstopped⟩, fun _ => ?_⟩
    simp [hempty]
  · obtain ⟨hsignal, added, hqueue⟩ := hcontrol.queue_eq_append hcall
    refine ⟨hsound, h.steady.of_queue_eq_append hcontrol.frame.settings_eq hqueue hsignal, ?_⟩
    intro hstopped
    apply h.gone_of_renews hcontrol.renews
    apply h.gone
    rwa [Live, ← hsignal]

/-- A command whose activation is queued was not stopped, and the activation is in front. -/
theorem Placed.inFront (h : flight.Placed engine)
    (hqueued : ∃ activation ∈ engine.queue, activation.id = flight.activation.id) :
    flight.InFront engine := by
  apply h.steady.inFront
  by_cases hlive : flight.Live engine
  · exact hlive
  · obtain ⟨activation, hmem, hid⟩ := hqueued
    exact absurd hid (h.gone hlive activation hmem)

end InFlight

namespace Machine

variable {σ : Type} {host : Host σ} {machine next middle last : Machine σ} {moves : List (Move σ)}
  {flight : InFlight} {standing : Standing}

/-- The engine is sound and every command under way is in its place. -/
structure Orderly (machine : Machine σ) : Prop where
  engine : machine.engine.Sound
  flight : ∀ flight wakeAt, machine.task = .suspended flight wakeAt →
    flight.Placed machine.engine

/-- Without a command under way only the engine matters. -/
theorem orderly_of_not_suspended (hengine : machine.engine.Sound)
    (htask : ∀ flight wakeAt, machine.task ≠ .suspended flight wakeAt) : machine.Orderly :=
  ⟨hengine, fun flight wakeAt h => absurd h (htask flight wakeAt)⟩

/-- Where the outcome of a piece is put into effect, what sleeps is in its place. -/
theorem orderly_settle (machine : Machine σ) (hengine : machine.engine.Sound)
    (hflight : flight.Placed machine.engine) (hregular : standing.Regular) :
    (machine.settle host flight.activation flight.command flight.callee flight.seen
      standing).Orderly := by
  cases standing with
  | finished =>
    exact orderly_of_not_suspended (hengine.commit hflight.sound.underWay flight.callee)
      (by simp [settle])
  | failed failure => exact orderly_of_not_suspended hengine.halt (by simp [settle])
  | asleep ms pause =>
    refine ⟨hengine.noteAsleep, fun other wakeAt htask => ?_⟩
    have hsteady := steady_settle machine hflight.steady.inFront hregular htask
    cases htask
    obtain ⟨runState, hasleep⟩ := machine.engine.exists_noteAsleep_eq
    have hsame : flight.Placed machine.engine.noteAsleep := by
      rw [hasleep]
      exact hflight.of_queue_eq .same rfl rfl
    exact ⟨⟨hsame.sound.underWay, hsame.sound.id_lt, hsame.sound.front_or_gone,
      hsame.sound.seen_le⟩, hsteady, hsame.gone⟩

/-- A piece of a command leaves a sound engine, and its command is in its place. -/
theorem Orderly.piece (h : machine.Orderly) (hpiece : Piece host machine flight next standing) :
    next.engine.Sound ∧ flight.Placed next.engine ∧ next.task = .ready ∧ standing.Regular := by
  cases hpiece with
  | @starts engine front command begun htask hjob hcurrent hbegun =>
    have hchoice := Engine.choice_of_nextJob hjob
    have hsound : engine.Sound := h.engine.choice hchoice
    obtain ⟨_, others, _, hqueue⟩ := hchoice.of_run
    have hmem : front ∈ engine.queue := hqueue ▸ List.mem_cons_self
    have hcourse := course_start ({ machine with engine }.scope host) command front machine.world
    rw [hbegun] at hcourse
    have hregular : begun.standing.Regular := hbegun ▸ regular_start front
    refine ⟨hsound, ⟨⟨?_, ?_, .inl ⟨front, by simp [hqueue], hcourse.id_eq.symm⟩, Nat.le_refl _⟩,
      ⟨trivial, fun _ => ⟨front, others, hqueue, hcurrent, hcourse⟩⟩, fun hstopped => ?_⟩, htask,
      hregular⟩
    · exact (hsound.queued front hmem).underWay hcurrent hcourse
    · exact hcourse.id_eq ▸ hsound.id_lt front hmem
    · simp [InFlight.Live, StopSignal.stoppedSince, hsound.undropped] at hstopped
  | @resumes flight wakeAt reached htask htime hreached =>
    have hflight := h.flight flight wakeAt htask
    obtain ⟨runState, hawake⟩ := machine.engine.exists_noteAwake_eq
    have hsame : flight.Placed machine.engine.noteAwake := by
      rw [hawake]
      exact hflight.of_queue_eq .same rfl rfl
    exact ⟨h.engine.noteAwake, hsame, rfl, hreached ▸ regular_resume hflight.steady.regular⟩

/-- A step keeps a machine orderly. -/
theorem Orderly.step (h : machine.Orderly) (hstep : Step host machine next) : next.Orderly := by
  cases hstep with
  | @starts engine front htask hjob =>
    obtain ⟨command, hcurrent⟩ :=
      Activation.exists_current?_of_not_finished (Engine.choice_of_nextJob hjob).of_run.1
    have hpiece : Piece host machine _ _ _ := .starts htask hjob hcurrent rfl
    obtain ⟨hengine, hflight, _, hregular⟩ := h.piece hpiece
    rw [begin_of_current? hcurrent]
    exact orderly_settle _ hengine hflight hregular
  | ends _ hjob =>
    exact orderly_of_not_suspended (h.engine.choice (Engine.choice_of_nextJob hjob)) (by simp)
  | @rests engine htask hjob =>
    have hsound : engine.Sound := h.engine.choice (Engine.choice_of_nextJob hjob)
    obtain ⟨wake, task, hrest, hawake⟩ := exists_rest_eq { machine with engine } htask
    rw [hrest]
    exact orderly_of_not_suspended
      (hsound.of_state .same rfl .rfl hsound.paused_of_stepPending rfl) hawake
  | cancels => exact orderly_of_not_suspended h.engine.noteAwake (by simp)
  | resumes htask hlive htime =>
    have hpiece : Piece host machine _ _ _ := .resumes htask htime rfl
    obtain ⟨hengine, hflight, _, hregular⟩ := h.piece hpiece
    rw [wake_of_live hlive]
    exact orderly_settle _ hengine hflight hregular
  | unparks => exact orderly_of_not_suspended h.engine (by simp)

/-- Everything but a step leaves the engine as it is, or calls it. -/
theorem engine_eq_or_handle {move : Move σ} (hmove : machine.move? host move = some next)
    (hwork : move ≠ .work) :
    next.engine = machine.engine ∨ ∃ library call, move = .call library call ∧
      next.engine = (machine.engine.handle library call).1 := by
  cases move with
  | work => exact absurd rfl hwork
  | wait | drift =>
    cases hmove
    exact .inl rfl
  | call library call =>
    cases hmove
    exact .inr ⟨library, call, rfl, rfl⟩
  | launch mode =>
    simp only [move?] at hmove
    split at hmove
    · cases hmove
      exact .inl rfl
    · cases hmove

/-- Without a step the engine stays sound and the command in its place. -/
theorem Run.placed (hrun : Run host machine moves last) (hwork : Move.work ∉ moves)
    (hengine : machine.engine.Sound) (hflight : flight.Placed machine.engine) :
    last.engine.Sound ∧ flight.Placed last.engine := by
  refine hrun.keeps
    (P := fun machine => machine.engine.Sound ∧ flight.Placed machine.engine) ?_ ⟨hengine, hflight⟩
  intro move hmem before after hbefore hmove
  have hother : move ≠ .work := fun heq => hwork (heq ▸ hmem)
  obtain hsame | ⟨library, call, _, hcalled⟩ := engine_eq_or_handle hmove hother
  · rw [hsame]
    exact hbefore
  · rw [hcalled]
    exact ⟨hbefore.1.control (before.engine.control_handle library call),
      hbefore.2.handle library call⟩

/-- Everything but a step keeps a machine orderly. -/
theorem Orderly.move (h : machine.Orderly) {move : Move σ}
    (hmove : machine.move? host move = some next) (hwork : move ≠ .work) : next.Orderly := by
  have hengine : next.engine.Sound := by
    obtain hsame | ⟨library, call, _, hcalled⟩ := engine_eq_or_handle hmove hwork
    · exact hsame ▸ h.engine
    · exact hcalled ▸ h.engine.control (machine.engine.control_handle library call)
  refine ⟨hengine, fun flight wakeAt htask => ?_⟩
  cases move with
  | work => exact absurd rfl hwork
  | wait | drift =>
    cases hmove
    exact h.flight flight wakeAt htask
  | call library call =>
    cases hmove
    exact (h.flight flight wakeAt htask).handle library call
  | launch mode =>
    simp only [move?] at hmove
    split at hmove
    · cases hmove
      cases htask
    · cases hmove

/-- A machine that is about to choose the next command does so until it takes a step. -/
theorem Run.ready (hrun : Run host machine moves last) (hwork : Move.work ∉ moves)
    (htask : machine.task = .ready) : last.task = .ready := by
  refine hrun.keeps (P := fun machine => machine.task = .ready) ?_ htask
  intro move hmem before after hbefore hmove
  have hother : move ≠ .work := fun heq => hwork (heq ▸ hmem)
  exact (task_eq_of_move? hmove hother (by simp [hbefore])).trans hbefore

/-- A machine is orderly however calls interleave with its steps. -/
theorem orderly_of_served (h : Served host machine) : machine.Orderly := by
  induction h with
  | new settings world =>
    exact orderly_of_not_suspended (Engine.sound_ofSettings settings) (by simp)
  | @move machine next move _ hmove ih =>
    by_cases hwork : move = .work
    · subst hwork
      exact ih.step (step_of_step? hmove)
    · exact ih.move hmove hwork
  | @rests machine middle engine moves _ htask hjob hrun hwork ih =>
    have hchosen : ({ machine with engine } : Machine σ).Orderly :=
      orderly_of_not_suspended (ih.engine.choice (Engine.choice_of_nextJob hjob)) (by simp [htask])
    have hmiddle : middle.Orderly := by
      refine hrun.keeps (P := Orderly) ?_ hchosen
      intro move hmem before after hbefore hmove
      exact hbefore.move hmove fun heq => hwork (heq ▸ hmem)
    have hready := hrun.ready hwork htask
    obtain ⟨wake, task, hrest, hawake⟩ := exists_rest_eq middle hready
    rw [hrest]
    exact orderly_of_not_suspended
      (hmiddle.engine.of_state .same rfl .rfl hmiddle.engine.paused_of_stepPending rfl) hawake
  | settles _ hpiece hrun hwork ih =>
    obtain ⟨hafter, hflight, _, hregular⟩ := ih.piece hpiece
    obtain ⟨hengine, hplaced⟩ := hrun.placed hwork hafter hflight
    exact orderly_settle _ hengine hplaced hregular
  | breaksOff _ hpiece hrun hwork _ ih =>
    obtain ⟨hafter, hflight, hready, _⟩ := ih.piece hpiece
    have hstill := hrun.ready hwork hready
    exact orderly_of_not_suspended (hrun.placed hwork hafter hflight).1 (by simp [hstill])

/-! ## From a call to the end of the command under way -/

/-- The machine executes a command. Without an outcome the command sleeps. With an outcome a piece
of it has led there, which is yet to be put into effect, and calls may have come since. -/
inductive AtWork (host : Host σ) (flight : InFlight) : Option Standing → Machine σ → Prop
  | asleep {machine : Machine σ} {wakeAt : Nat} (hmachine : Served host machine)
      (htask : machine.task = .suspended flight wakeAt) : AtWork host flight none machine
  | awake {machine after middle : Machine σ} {standing : Standing} {moves : List (Move σ)}
      (hmachine : Served host machine) (hpiece : Piece host machine flight after standing)
      (hrun : Run host after moves middle) (hwork : Move.work ∉ moves) :
      AtWork host flight (some standing) middle

/-- The command that a machine executes is in its place. -/
theorem AtWork.placed {outcome : Option Standing} (h : AtWork host flight outcome machine) :
    flight.Placed machine.engine := by
  cases h with
  | asleep hmachine htask => exact (orderly_of_served hmachine).flight flight _ htask
  | awake hmachine hpiece hrun hwork =>
    obtain ⟨hengine, hplaced, _, _⟩ := (orderly_of_served hmachine).piece hpiece
    exact (hrun.placed hwork hengine hplaced).2

/-- How the machine goes on with a command: something happens that is no step, the command wakes and
leads to an outcome, or the outcome is that it sleeps again. The list has what is no step. -/
inductive GoesOn (host : Host σ) (flight : InFlight) :
    Option Standing → Machine σ → List (Move σ) → Option Standing → Machine σ → Prop
  | refl (outcome : Option Standing) (machine : Machine σ) :
      GoesOn host flight outcome machine [] outcome machine
  | meanwhile {outcome later : Option Standing} {machine next last : Machine σ} {move : Move σ}
      {moves : List (Move σ)} (hmove : machine.move? host move = some next) (hwork : move ≠ .work)
      (hrest : GoesOn host flight outcome next moves later last) :
      GoesOn host flight outcome machine (move :: moves) later last
  | wakes {later : Option Standing} {machine next last : Machine σ} {moves : List (Move σ)}
      {pause : Pause} {wakeAt : Nat} {standing : Standing}
      (htask : machine.task = .suspended { flight with pause } wakeAt)
      (hpiece : Piece host machine { flight with pause } next standing)
      (hrest : GoesOn host flight (some standing) next moves later last) :
      GoesOn host flight none machine moves later last
  | sleeps {later : Option Standing} {machine last : Machine σ} {moves : List (Move σ)} {ms : Nat}
      {pause : Pause}
      (hrest : GoesOn host flight none
        (machine.settle host flight.activation flight.command flight.callee flight.seen
          (.asleep ms pause)) moves later last) :
      GoesOn host flight (some (.asleep ms pause)) machine moves later last

/-- A command that wakes leaves the queue as it is until its outcome is put into effect. -/
theorem Piece.queue_eq {wakeAt : Nat} (h : Piece host machine flight next standing)
    (htask : machine.task = .suspended flight wakeAt) :
    next.engine.queue = machine.engine.queue := by
  cases h with
  | starts hready => cases hready.symm.trans htask
  | resumes => exact machine.engine.noteAwake_queue

/-- While the machine goes on with a command and no stop comes, the queue only grows at its end. -/
theorem GoesOn.queue_eq_append {outcome later : Option Standing}
    (h : GoesOn host flight outcome machine moves later last)
    (hcalls : ∀ library call, Move.call library call ∈ moves → ¬call.StopsAtOnce) :
    ∃ added, last.engine.queue = machine.engine.queue ++ added := by
  induction h with
  | refl => exact ⟨[], (List.append_nil _).symm⟩
  | @meanwhile _ _ machine next _ move moves hmove hwork _ ih =>
    obtain ⟨added, hlast⟩ := ih fun library call hmem =>
      hcalls library call (List.mem_cons_of_mem _ hmem)
    obtain hsame | ⟨library, call, rfl, hcalled⟩ := engine_eq_or_handle hmove hwork
    · exact ⟨added, by rw [hlast, hsame]⟩
    · obtain ⟨_, first, hfirst⟩ :=
        (machine.engine.control_handle library call).queue_eq_append
          (hcalls library call List.mem_cons_self)
      exact ⟨first ++ added, by rw [hlast, hcalled, hfirst, List.append_assoc]⟩
  | wakes htask hpiece _ ih =>
    obtain ⟨added, hlast⟩ := ih hcalls
    exact ⟨added, by rw [hlast, hpiece.queue_eq htask]⟩
  | @sleeps _ machine _ _ _ _ _ ih =>
    obtain ⟨added, hlast⟩ := ih hcalls
    exact ⟨added, hlast.trans (congrArg (· ++ added) machine.engine.noteAsleep_queue)⟩

/-- The command that the machine executes has its activation in front of the queue, as it was when
the command started. From the machine after something was queued it goes on, and unless it is
stopped or fails, its end puts the activation back there. The activation moves on, what it calls
comes in front of it, and all others stay behind it, with what was queued. -/
def PutsBack (host : Host σ) (flight : InFlight) (outcome : Option Standing)
    (machine : Machine σ) (queued : Activation) (next : Machine σ) : Prop :=
  ∃ front others, machine.engine.queue = front :: others ∧
    front.current? = some flight.command ∧
    Course machine.engine.settings flight.command front flight.activation ∧
    ∀ moves last, GoesOn host flight outcome next moves (some .finished) last →
      (∀ library call, Move.call library call ∈ moves → ¬call.StopsAtOnce) →
      ∃ more, last.engine.queue = front :: (others ++ queued :: more) ∧
        (last.settle host flight.activation flight.command flight.callee flight.seen
          .finished).engine.queue =
          (flight.callee.map (.ofProgram last.engine.nextId)).toList ++
            flight.activation.advance :: (others ++ queued :: more)

/-- A command whose activation is queued puts it back, whatever comes to the end of the queue. -/
theorem AtWork.putsBack {outcome : Option Standing} (h : AtWork host flight outcome machine)
    (hqueued : ∃ activation ∈ machine.engine.queue, activation.id = flight.activation.id)
    {queued : Activation} (hnext : next.engine.queue = machine.engine.queue ++ [queued]) :
    PutsBack host flight outcome machine queued next := by
  obtain ⟨front, others, hqueue, hcurrent, hcourse⟩ := h.placed.inFront hqueued
  refine ⟨front, others, hqueue, hcurrent, hcourse, fun moves last hgoes hcalls => ?_⟩
  obtain ⟨more, hlast⟩ := hgoes.queue_eq_append hcalls
  have hfront : last.engine.queue = front :: (others ++ queued :: more) := by
    rw [hlast, hnext, hqueue, List.append_assoc, List.cons_append, List.singleton_append]
  refine ⟨more, hfront, ?_⟩
  have hcommit := Engine.commit_of_front hfront hcourse.id_eq.symm flight.callee
  simp only [settle, hcommit]

/-! ## All or nothing -/

/-- What becomes of a machine, and what it answers, when a macro is to be queued. -/
inductive AllOrNothing (host : Host σ) (library : Library) (machine : Machine σ) (call : Call) :
    Machine σ × Call.Answer → Prop
  /-- There is a reason to refuse the call, and nothing changes. -/
  | refused {failure : QueueFailure} (hrefuses : machine.engine.Refuses library call failure) :
      AllOrNothing host library machine call (machine, .refused failure)
  /-- There is none, and all commands of the macro are queued. A command under way gets along with
  that, in whatever state it is, if its activation is still queued. -/
  | queued {saved : SavedMacro} {loops : Option Nat} {commands : List Command} {next : Engine}
      (hasks : call.AsksFor library saved loops)
      (hlines : machine.engine.reader.Reads (saved.lines machine.engine.settings loops) commands)
      (hup : machine.engine.isShutDown = false)
      (hnext : machine.engine.Enqueues ⟨saved.name, commands⟩ next)
      (hputsBack : ∀ flight outcome, AtWork host flight outcome machine →
        (∃ activation ∈ machine.engine.queue, activation.id = flight.activation.id) →
        PutsBack host flight outcome machine
          (.ofProgram machine.engine.nextId ⟨saved.name, commands⟩)
          { machine with engine := next }) :
      AllOrNothing host library machine call ({ machine with engine := next }, .queued)

/-- A macro is queued as a whole or not at all, whatever the machine is doing. -/
theorem all_or_nothing (host : Host σ) (library : Library) (machine : Machine σ) {call : Call}
    (hcall : call.Queues) :
    AllOrNothing host library machine call
      ((machine.handle library call).1, (machine.handle library call).2.answer) := by
  obtain ⟨failure, hrefuses, hhandle⟩ |
      ⟨saved, loops, commands, next, hasks, hlines, hup, hnext, hhandle⟩ :=
    machine.engine.refuses_or_enqueues library hcall
  · simp only [handle, hhandle]
    exact .refused hrefuses
  · simp only [handle, hhandle]
    exact .queued hasks hlines hup hnext fun flight outcome hwork hqueued =>
      hwork.putsBack hqueued hnext.queue_eq

/-- A macro is queued while a command sleeps that has called another macro. -/
theorem all_or_nothing_while_calling :
    ∃ (library : Library) (machine : Machine DryRun) (flight : InFlight) (wakeAt : Nat)
        (saved : SavedMacro),
      machine.Reachable DryRun.host ∧ machine.task = .suspended flight wakeAt ∧
        flight.callee.isSome = true ∧
        (∃ activation ∈ machine.engine.queue, activation.id = flight.activation.id) ∧
        (machine.handle library (.enqueue saved none)).2.answer = .queued ∧
        (Call.enqueue saved none).Queues ∧
        AllOrNothing DryRun.host library machine (.enqueue saved none)
          ((machine.handle library (.enqueue saved none)).1,
            (machine.handle library (.enqueue saved none)).2.answer) := by
  let inner : SavedMacro := { name := "inner", contents := "/echo a\n/loop" }
  let outer : SavedMacro := { name := "outer", contents := "/runmacro inner <wait.1>" }
  let library : Library := { macros := [inner] }
  let moves : List (Move DryRun) :=
    [.call library (.enqueue outer none), .launch .serving, .work]
  have hfollow : (follow? DryRun.host moves
      { engine := .ofSettings {}, world := { host := { library } } }).bind (fun machine =>
        machine.engine.queue.head?.bind fun front => front.current?.bind fun command =>
          (inner.program {} (.ofSettings {}) none).toOption.map fun callee =>
            decide (machine.task =
                .suspended ⟨front, command, some callee, .trailing, 0⟩ 1000 ∧
              (machine.handle library (.enqueue inner none)).2.answer = .queued)) =
      some true := by decide +kernel
  obtain ⟨machine, hmachine, hrest⟩ := Option.bind_eq_some_iff.mp hfollow
  obtain ⟨front, hfront, hrest⟩ := Option.bind_eq_some_iff.mp hrest
  obtain ⟨command, _, hrest⟩ := Option.bind_eq_some_iff.mp hrest
  obtain ⟨callee, _, hseen⟩ := Option.map_eq_some_iff.mp hrest
  obtain ⟨htask, hanswer⟩ := of_decide_eq_true hseen
  have hreachable : machine.Reachable DryRun.host := ⟨_, _, moves, run_of_follow? hmachine⟩
  exact ⟨library, machine, _, _, inner, hreachable, htask, rfl,
    ⟨front, List.mem_of_head? hfront, rfl⟩, hanswer, trivial,
    all_or_nothing DryRun.host library machine trivial⟩

end Machine

end GameMacros
