import GameMacros.Engine.Schedule

/-!
# What the operations of the engine do

Each operation that decides something is described once, case by case: which command is chosen,
what the end of a command does to the queue, what a call does to the engine, and what a command
does to the activation it belongs to. Invariants and simulations are proved from these cases.
-/

namespace GameMacros

namespace Activation

variable {activation : Activation}

/-- Nothing of the activation has happened yet. -/
def IsUnstarted (activation : Activation) : Prop :=
  activation = .ofProgram activation.id ⟨activation.name, activation.commands⟩

/-- A new activation is unstarted. -/
theorem isUnstarted_ofProgram (id : Nat) (program : Program) :
    (ofProgram id program).IsUnstarted := rfl

/-- Only what is not finished has a current command. -/
theorem current?_eq_some {command : Command} (h : activation.current? = some command) :
    activation.finished = false ∧ activation.commands[activation.step]? = some command := by
  unfold current? at h
  split at h
  · cases h
  · next hfinished => exact ⟨by simpa using hfinished, h⟩

/-- What has a current command has not passed its end. -/
theorem step_lt_of_current? {command : Command} (h : activation.current? = some command) :
    activation.step < activation.size :=
  (List.getElem?_eq_some_iff.mp (current?_eq_some h).2).1

/-- What is not finished has a current command. -/
theorem exists_current?_of_not_finished (h : activation.isFinished = false) :
    ∃ command, activation.current? = some command := by
  obtain ⟨hfinished, hsize⟩ := Bool.or_eq_false_iff.mp h
  have hlt : activation.step < activation.commands.length :=
    Nat.not_le.mp (of_decide_eq_false hsize)
  exact ⟨_, by rw [current?, hfinished, if_neg (by decide), List.getElem?_eq_getElem hlt]⟩

end Activation

/-- The call queues a macro. -/
def Call.Queues : Call → Prop
  | .enqueue .. | .enqueueByName .. => True
  | .pause _ | .resume | .stepOnce | .stop _ | .login | .logout | .shutDown => False
  | .look | .summary => False

namespace Engine

variable {engine : Engine}

/-! ## The next command -/

/-- Dropping what is finished does not start or stop an engine. -/
@[simp] theorem dropFinished_runState : engine.dropFinished.runState = engine.runState := rfl

/-- A loop latch has something to say about the activation. -/
def LatchActs (engine : Engine) (front : Activation) : Prop :=
  front.atLoopBoundary = true ∧ (engine.stopAtLoop = true ∨ engine.pauseAtLoop = true)

/-- The ways to choose the next command: the engine and the job afterwards. -/
inductive Choice (engine : Engine) : Engine × Job → Prop
  | shutDown (hdown : engine.isShutDown = true) : Choice engine (engine, .shutDown)
  | loggedOut (hup : engine.isShutDown = false) (hlogin : engine.loggedIn = false) :
      Choice engine (engine, .idle)
  | stopped (hup : engine.isShutDown = false) (hlogin : engine.loggedIn = true)
      (hstate : engine.runState = .stopped) : Choice engine (engine.dropFinished, .idle)
  | drained (hup : engine.isShutDown = false) (hlogin : engine.loggedIn = true)
      (hqueue : engine.dropFinished.queue = []) (hstate : engine.runState ≠ .stopped) :
      Choice engine (engine.halt, .idle)
  | stoppedAtLoop {front : Activation} {others : List Activation}
      (hup : engine.isShutDown = false) (hlogin : engine.loggedIn = true)
      (hqueue : engine.dropFinished.queue = front :: others) (hstate : engine.runState ≠ .stopped)
      (hloop : front.atLoopBoundary = true) (hlatch : engine.stopAtLoop = true) :
      Choice engine (engine.halt, .idle)
  | pausedAtLoop {front : Activation} {others : List Activation}
      (hup : engine.isShutDown = false) (hlogin : engine.loggedIn = true)
      (hqueue : engine.dropFinished.queue = front :: others) (hstate : engine.runState ≠ .stopped)
      (hloop : front.atLoopBoundary = true) (hstop : engine.stopAtLoop = false)
      (hlatch : engine.pauseAtLoop = true) (hstep : engine.stepPending = false) :
      Choice engine
        ({ engine.dropFinished with pauseAtLoop := false, runState := .paused }, .idle)
  | steppedOverLatch {front : Activation} {others : List Activation}
      (hup : engine.isShutDown = false) (hlogin : engine.loggedIn = true)
      (hqueue : engine.dropFinished.queue = front :: others) (hstate : engine.runState ≠ .stopped)
      (hloop : front.atLoopBoundary = true) (hstop : engine.stopAtLoop = false)
      (hlatch : engine.pauseAtLoop = true) (hstep : engine.stepPending = true) :
      Choice engine
        ({ engine.dropFinished with
            pauseAtLoop := false
            runState := .paused
            stepPending := false }, .run front)
  | held {front : Activation} {others : List Activation}
      (hup : engine.isShutDown = false) (hlogin : engine.loggedIn = true)
      (hqueue : engine.dropFinished.queue = front :: others) (hlatch : ¬engine.LatchActs front)
      (hstate : engine.runState = .paused) (hstep : engine.stepPending = false) :
      Choice engine (engine.dropFinished, .idle)
  | stepped {front : Activation} {others : List Activation}
      (hup : engine.isShutDown = false) (hlogin : engine.loggedIn = true)
      (hqueue : engine.dropFinished.queue = front :: others) (hlatch : ¬engine.LatchActs front)
      (hstate : engine.runState = .paused) (hstep : engine.stepPending = true) :
      Choice engine ({ engine.dropFinished with stepPending := false }, .run front)
  | started {front : Activation} {others : List Activation}
      (hup : engine.isShutDown = false) (hlogin : engine.loggedIn = true)
      (hqueue : engine.dropFinished.queue = front :: others) (hlatch : ¬engine.LatchActs front)
      (hstate : engine.runState = .running ∨ engine.runState = .waiting) :
      Choice engine (engine.dropFinished, .run front)

/-- A pause at a loop pauses every engine that is not stopped. -/
theorem latchPause_eq (hstate : engine.runState ≠ .stopped) :
    engine.latchPause = { engine with pauseAtLoop := false, runState := .paused } := by
  unfold latchPause
  cases h : engine.runState with
  | stopped => exact absurd h hstate
  | waiting | paused | running => rfl

/-- A paused engine starts nothing unless a step is allowed, and then the step is used up. -/
theorem allowStart_of_paused (front : Activation) (hstate : engine.runState = .paused) :
    engine.allowStart front =
      if engine.stepPending then ({ engine with stepPending := false }, .run front)
      else (engine, .idle) := by
  rw [allowStart, if_pos hstate]

/-- Every choice is made in one of these ways. -/
theorem choice_nextJob (engine : Engine) : Choice engine engine.nextJob := by
  unfold nextJob
  by_cases hdown : engine.isShutDown = true
  · rw [if_pos hdown]
    exact .shutDown hdown
  have hup : engine.isShutDown = false := by simpa using hdown
  rw [if_neg hdown]
  by_cases hout : engine.loggedIn = false
  · rw [if_pos (by simp [hout])]
    exact .loggedOut hup hout
  have hlogin : engine.loggedIn = true := by simpa using hout
  rw [if_neg (by simp [hlogin])]
  dsimp only
  split
  next hqueue =>
    split
    · next hstate => exact .stopped hup hlogin hstate
    · next hstate => exact .drained hup hlogin hqueue hstate
  next front others hqueue =>
    split
    · next hstate => exact .stopped hup hlogin hstate
    next hstate =>
    split
    · next hstop =>
      obtain ⟨hloop, hlatch⟩ := Bool.and_eq_true_iff.mp hstop
      exact .stoppedAtLoop hup hlogin hqueue hstate hloop hlatch
    next hstop =>
    split
    · next hpause =>
      obtain ⟨hloop, hlatch⟩ := Bool.and_eq_true_iff.mp hpause
      have hcontinue : engine.stopAtLoop = false := by simpa [hloop, dropFinished] using hstop
      rw [latchPause_eq hstate, allowStart_of_paused front rfl]
      split
      · next hstep => exact .steppedOverLatch hup hlogin hqueue hstate hloop hcontinue hlatch hstep
      · next hstep =>
        exact .pausedAtLoop hup hlogin hqueue hstate hloop hcontinue hlatch
          (Bool.eq_false_iff.mpr hstep)
    next hpause =>
    have hlatch : ¬engine.LatchActs front := by
      rintro ⟨hloop, hstopAtLoop | hpauseAtLoop⟩
      · exact hstop (Bool.and_eq_true_iff.mpr ⟨hloop, hstopAtLoop⟩)
      · exact hpause (Bool.and_eq_true_iff.mpr ⟨hloop, hpauseAtLoop⟩)
    cases hrun : engine.runState with
    | stopped => exact absurd hrun hstate
    | paused =>
      have hpaused : engine.dropFinished.runState = .paused := hrun
      rw [allowStart_of_paused front hpaused]
      split
      · next hstep => exact .stepped hup hlogin hqueue hlatch hrun hstep
      · next hstep => exact .held hup hlogin hqueue hlatch hrun (Bool.eq_false_iff.mpr hstep)
    | waiting =>
      rw [allowStart, if_neg (by simp [dropFinished, hrun])]
      exact .started hup hlogin hqueue hlatch (.inr hrun)
    | running =>
      rw [allowStart, if_neg (by simp [dropFinished, hrun])]
      exact .started hup hlogin hqueue hlatch (.inl hrun)

/-- The choice that was made was made in one of these ways. -/
theorem choice_of_nextJob {result : Engine × Job} (h : engine.nextJob = result) :
    Choice engine result :=
  h ▸ choice_nextJob engine

/-- A command starts for the first activation that is not finished. -/
theorem Choice.of_run {next : Engine} {front : Activation} (h : Choice engine (next, .run front)) :
    front.isFinished = false ∧
      ∃ others, engine.dropFinished.queue = front :: others ∧ next.queue = front :: others := by
  have hfront {others : List Activation} (hqueue : engine.dropFinished.queue = front :: others) :
      front.isFinished = false := by
    have hhead := List.head?_dropWhile_not Activation.isFinished engine.queue
    rw [show engine.queue.dropWhile Activation.isFinished = front :: others from hqueue] at hhead
    exact hhead
  cases h with
  | steppedOverLatch _ _ hqueue => exact ⟨hfront hqueue, _, hqueue, hqueue⟩
  | stepped _ _ hqueue => exact ⟨hfront hqueue, _, hqueue, hqueue⟩
  | started _ _ hqueue => exact ⟨hfront hqueue, _, hqueue, hqueue⟩

/-- A command starts only while there is a game to play and the engine is not shut down. -/
theorem Choice.open_of_run {next : Engine} {front : Activation}
    (h : Choice engine (next, .run front)) :
    engine.isShutDown = false ∧ engine.loggedIn = true := by
  cases h with
  | steppedOverLatch hup hlogin | stepped hup hlogin | started hup hlogin => exact ⟨hup, hlogin⟩

/-- A choice puts nothing into the queue. -/
theorem Choice.queue_sublist {result : Engine × Job} (h : Choice engine result) :
    result.1.queue.Sublist engine.queue := by
  have hdropped : engine.dropFinished.queue.Sublist engine.queue := List.dropWhile_sublist _
  cases h with
  | shutDown | loggedOut => exact .refl _
  | drained | stoppedAtLoop => exact List.nil_sublist _
  | stopped | pausedAtLoop | steppedOverLatch | held | stepped | started => exact hdropped

/-- What a choice changes is forgotten when the engine halts. -/
theorem Choice.halt_eq {result : Engine × Job} (h : Choice engine result) :
    result.1.halt = engine.halt := by
  cases h <;> rfl

/-- A choice does not make a command sleep. -/
theorem Choice.waiting {result : Engine × Job} (h : Choice engine result)
    (hwaiting : result.1.runState = .waiting) : engine.runState = .waiting := by
  cases h with
  | drained | stoppedAtLoop | pausedAtLoop | steppedOverLatch => cases hwaiting
  | shutDown | loggedOut | stopped | held | stepped | started => exact hwaiting

/-! ## The end of a command -/

/-- The end of a command of the activation in front. -/
theorem commit_of_front {front activation : Activation} {others : List Activation}
    (hqueue : engine.queue = front :: others) (hid : front.id = activation.id)
    (callee : Option Program) :
    engine.commit activation callee =
      { engine with
        queue := (callee.map (.ofProgram engine.nextId)).toList ++ activation.advance :: others
        nextId := engine.nextId + callee.toList.length } := by
  unfold commit
  cases callee <;> simp [hqueue, hid]

/-- The end of a command changes the queue only when its activation is still in front. Then the
activation moves on, and what it calls comes in front of it. -/
theorem commit_cases (engine : Engine) (activation : Activation) (callee : Option Program) :
    (engine.commit activation callee = engine ∧
      ∀ front ∈ engine.queue.head?, front.id ≠ activation.id) ∨
    ∃ front others, engine.queue = front :: others ∧ front.id = activation.id ∧
      engine.commit activation callee =
        { engine with
          queue := (callee.map (.ofProgram engine.nextId)).toList ++ activation.advance :: others
          nextId := engine.nextId + callee.toList.length } := by
  unfold commit
  cases hqueue : engine.queue with
  | nil => exact .inl ⟨rfl, by simp⟩
  | cons front others =>
    by_cases hid : front.id = activation.id
    · have hcommit := commit_of_front hqueue hid callee
      rw [commit, hqueue] at hcommit
      exact .inr ⟨front, others, rfl, hid, hcommit⟩
    · exact .inl ⟨by simp [hid], by simpa using hid⟩

/-! ## Calls -/

/-- What queueing a program changes: a stopped engine starts and forgets what was asked for. -/
theorem exists_push_eq (engine : Engine) (program : Program) :
    ∃ runState pauseAtLoop stopAtLoop, engine.push program =
        { engine with
          queue := engine.queue ++ [.ofProgram engine.nextId program]
          nextId := engine.nextId + 1
          runState, pauseAtLoop, stopAtLoop } ∧
      runState = if engine.runState = .stopped then .running else engine.runState := by
  unfold push
  split
  · next hstate => exact ⟨.running, false, false, rfl, rfl⟩
  · exact ⟨engine.runState, engine.pauseAtLoop, engine.stopAtLoop, rfl, rfl⟩

/-- The ways in which a call changes the engine. -/
inductive Control (engine : Engine) : Call → Engine → Prop
  | unchanged (call : Call) : Control engine call engine
  | queues {call : Call} (hqueues : call.Queues) (program : Program)
      (hup : engine.isShutDown = false) : Control engine call (engine.push program).notify
  | pausesAtLoop : Control engine (.pause true) { engine with pauseAtLoop := true }
  | pauses (hstate : engine.runState = .running ∨ engine.runState = .waiting) :
      Control engine (.pause false) { engine with runState := .paused, stepPending := false }
  | resumes (hstate : engine.runState = .paused) :
      Control engine .resume
        { engine with
          runState := .running
          pauseAtLoop := false
          stepPending := false
          wake := engine.wake.notify }
  | steps (hstate : engine.runState = .paused) :
      Control engine .stepOnce { engine with stepPending := true, wake := engine.wake.notify }
  | stopsAtLoop : Control engine (.stop true) { engine with stopAtLoop := true }
  | stops :
      Control engine (.stop false)
        { engine.halt with signal := engine.signal.trigger, wake := engine.wake.notify }
  | logsIn (hout : engine.loggedIn = false) :
      Control engine .login { engine with loggedIn := true, wake := engine.wake.notify }
  | logsOut (hin : engine.loggedIn = true) :
      Control engine .logout { engine with loggedIn := false, wake := engine.wake.notify }
  | shutsDown :
      Control engine .shutDown
        { engine.halt with
          isShutDown := true
          signal := engine.signal.trigger
          wake := engine.wake.notify }

/-- A macro that is queued comes to the end of the queue of an engine that is not shut down. -/
theorem enqueue_eq_ok {next : Engine} {saved : SavedMacro} {loops : Option Nat}
    (h : engine.enqueue saved loops = .ok next) :
    ∃ program, saved.program engine.settings engine.reader loops = .ok program ∧
      engine.isShutDown = false ∧ next = (engine.push program).notify := by
  unfold enqueue at h
  split at h
  · cases h
  · next program hprogram =>
    split at h
    · cases h
    · next hup => exact ⟨program, hprogram, Bool.eq_false_iff.mpr hup, (Except.ok.inj h).symm⟩

/-- Every call changes the engine in one of these ways. -/
theorem control_handle (engine : Engine) (library : Library) (call : Call) :
    Control engine call (engine.handle library call).1 := by
  have hqueued {call : Call} {next : Engine} {saved : SavedMacro} {loops : Option Nat}
      (hqueues : call.Queues) (h : engine.enqueue saved loops = .ok next) :
      Control engine call next := by
    obtain ⟨program, _, hup, rfl⟩ := enqueue_eq_ok h
    exact .queues hqueues program hup
  cases call with
  | enqueue saved loops =>
    dsimp only [handle]
    split
    · next queued h => exact hqueued trivial h
    · exact .unchanged _
  | enqueueByName name loops =>
    dsimp only [handle, enqueueByName]
    split
    · next queued h =>
      split at h
      · cases h
      · exact hqueued trivial h
    · exact .unchanged _
  | pause atLoop =>
    cases atLoop with
    | true => exact .pausesAtLoop
    | false =>
      simp only [handle, pause, Bool.false_eq_true, if_false]
      split
      · next hstate => exact .pauses (.inl hstate)
      · next hstate => exact .pauses (.inr hstate)
      · exact .unchanged _
      · exact .unchanged _
  | resume =>
    dsimp only [handle, resume]
    split
    · next hstate => exact .resumes hstate
    · exact .unchanged _
  | stepOnce =>
    dsimp only [handle, stepOnce]
    split
    · next hstate => exact .steps hstate
    · exact .unchanged _
  | stop atLoop =>
    cases atLoop with
    | true => exact .stopsAtLoop
    | false => exact .stops
  | login =>
    dsimp only [handle, setLoggedIn]
    split
    · exact .unchanged _
    · next hout => exact .logsIn (Bool.eq_false_iff.mpr hout)
  | logout =>
    dsimp only [handle, setLoggedIn]
    split
    · exact .unchanged _
    · next hin => exact .logsOut (by simpa using hin)
  | shutDown => exact .shutsDown
  | look | summary => exact .unchanged _

/-- No call makes a command sleep. -/
theorem Control.waiting {call : Call} {next : Engine} (h : Control engine call next)
    (hwaiting : next.runState = .waiting) : engine.runState = .waiting := by
  cases h with
  | queues _ program =>
    obtain ⟨runState, _, _, hpush, hstate⟩ := engine.exists_push_eq program
    rw [hpush] at hwaiting
    have hrunState : runState = .waiting := hwaiting
    rw [hstate] at hrunState
    split at hrunState
    · cases hrunState
    · exact hrunState
  | pauses | resumes | stops | shutsDown => cases hwaiting
  | unchanged | pausesAtLoop | steps | stopsAtLoop | logsIn | logsOut => exact hwaiting

/-- What a call does to the queue: nothing, empty it, or put something at its end. -/
theorem Control.queue_cases {call : Call} {next : Engine} (h : Control engine call next) :
    next.queue = engine.queue ∨ next.queue = [] ∨
      ∃ program, engine.isShutDown = false ∧ next.nextId = engine.nextId + 1 ∧
        next.queue = engine.queue ++ [.ofProgram engine.nextId program] := by
  cases h with
  | queues _ program hup =>
    obtain ⟨_, _, _, hpush, _⟩ := engine.exists_push_eq program
    rw [hpush]
    exact .inr (.inr ⟨program, hup, rfl, rfl⟩)
  | stops | shutsDown => exact .inr (.inl rfl)
  | unchanged | pausesAtLoop | pauses | resumes | steps | stopsAtLoop | logsIn | logsOut =>
    exact .inl rfl

/-- A call that queues nothing leaves the queue alone or discards it with a stop. -/
theorem Control.of_not_queues {call : Call} {next : Engine} (h : Control engine call next)
    (hcall : ¬call.Queues) :
    next.nextId = engine.nextId ∧
      (next.queue = engine.queue ∧ next.signal = engine.signal ∨
        next.queue = [] ∧ next.signal = engine.signal.trigger) := by
  cases h with
  | queues hqueues => exact absurd hqueues hcall
  | stops | shutsDown => exact ⟨rfl, .inr ⟨rfl, rfl⟩⟩
  | unchanged | pausesAtLoop | pauses | resumes | steps | stopsAtLoop | logsIn | logsOut =>
    exact ⟨rfl, .inl ⟨rfl, rfl⟩⟩

/-! ## What only grows -/

/-- From an engine to a later one the settings stay, no number is given twice, and stops are not
taken back. -/
structure Frame (engine later : Engine) : Prop where
  settings_eq : later.settings = engine.settings
  reader_eq : later.reader = engine.reader
  nextId_le : engine.nextId ≤ later.nextId
  count_le : engine.signal.count ≤ later.signal.count
  dropped_eq : later.signal.dropped = engine.signal.dropped
  down_of_down : engine.isShutDown = true → later.isShutDown = true

/-- An engine with another queue, in another state and with other wishes is later. -/
theorem Frame.same {queue : List Activation} {runState : RunState}
    {loggedIn pauseAtLoop stopAtLoop stepPending : Bool} {wake : Wake} :
    Frame engine
      { engine with
        queue, runState, loggedIn, pauseAtLoop, stopAtLoop, stepPending, wake } where
  settings_eq := rfl
  reader_eq := rfl
  nextId_le := Nat.le_refl _
  count_le := Nat.le_refl _
  dropped_eq := rfl
  down_of_down := id

/-- What is later than something later is later. -/
theorem Frame.trans {middle later : Engine} (h : Frame engine middle) (h' : Frame middle later) :
    Frame engine later :=
  ⟨h'.settings_eq.trans h.settings_eq, h'.reader_eq.trans h.reader_eq,
    Nat.le_trans h.nextId_le h'.nextId_le, Nat.le_trans h.count_le h'.count_le,
    h'.dropped_eq.trans h.dropped_eq, h'.down_of_down ∘ h.down_of_down⟩

/-- A stop that was seen to come stays. -/
theorem Frame.stoppedSince {later : Engine} (h : Frame engine later) {seen : Nat}
    (hstopped : engine.signal.stoppedSince seen = true) :
    later.signal.stoppedSince seen = true := by
  have hcount := h.count_le
  simp only [StopSignal.stoppedSince, Bool.or_eq_true, decide_eq_true_eq] at hstopped ⊢
  rcases hstopped with hdropped | hlt
  · exact .inl (h.dropped_eq.trans hdropped)
  · exact .inr (by omega)

/-- A trigger adds to the count of a signal that is not dropped. -/
theorem count_le_trigger (signal : StopSignal) :
    signal.count ≤ signal.trigger.count ∧ signal.trigger.dropped = signal.dropped := by
  unfold StopSignal.trigger
  split
  · exact ⟨Nat.le_refl _, rfl⟩
  · exact ⟨Nat.le_succ _, rfl⟩

/-- A stop is seen by all that started before. -/
theorem stoppedSince_trigger {signal : StopSignal} {seen : Nat} (hseen : seen ≤ signal.count) :
    signal.trigger.stoppedSince seen = true := by
  unfold StopSignal.trigger StopSignal.stoppedSince
  split
  · next hdropped => simp [hdropped]
  · simp only [Bool.or_eq_true, decide_eq_true_eq]
    right
    omega

/-- No call takes back what only grows. -/
theorem Control.frame {call : Call} {next : Engine} (h : Control engine call next) :
    Frame engine next := by
  obtain ⟨hcount, hdropped⟩ := count_le_trigger engine.signal
  cases h with
  | queues _ program =>
    obtain ⟨_, _, _, hpush, _⟩ := engine.exists_push_eq program
    rw [hpush]
    exact ⟨rfl, rfl, Nat.le_succ _, Nat.le_refl _, rfl, id⟩
  | stops => exact ⟨rfl, rfl, Nat.le_refl _, hcount, hdropped, id⟩
  | shutsDown => exact ⟨rfl, rfl, Nat.le_refl _, hcount, hdropped, fun _ => rfl⟩
  | unchanged | pausesAtLoop | pauses | resumes | steps | stopsAtLoop | logsIn | logsOut =>
    exact .same

/-- No choice of a command takes back what only grows. -/
theorem Choice.frame {result : Engine × Job} (h : Choice engine result) :
    Frame engine result.1 := by
  cases h <;> exact .same

/-- The end of a command takes back nothing of what only grows. -/
theorem frame_commit (engine : Engine) (activation : Activation) (callee : Option Program) :
    Frame engine (engine.commit activation callee) := by
  obtain ⟨heq, _⟩ | ⟨front, others, _, _, heq⟩ := commit_cases engine activation callee
  · rw [heq]; exact .same
  · rw [heq]; exact ⟨rfl, rfl, Nat.le_add_right _ _, Nat.le_refl _, rfl, id⟩

/-- An engine whose command goes to sleep is later. -/
theorem frame_noteAsleep (engine : Engine) : Frame engine engine.noteAsleep := by
  unfold noteAsleep; split <;> exact .same

/-- An engine whose command wakes is later. -/
theorem frame_noteAwake (engine : Engine) : Frame engine engine.noteAwake := by
  unfold noteAwake; split <;> exact .same

/-! ## Sleeping and waking -/

/-- Only the state changes when a command goes to sleep. -/
theorem exists_noteAsleep_eq (engine : Engine) :
    ∃ runState, engine.noteAsleep = { engine with runState } := by
  unfold noteAsleep
  split
  · exact ⟨_, rfl⟩
  · exact ⟨engine.runState, rfl⟩

/-- Only the state changes when a command wakes. -/
theorem exists_noteAwake_eq (engine : Engine) :
    ∃ runState, engine.noteAwake = { engine with runState } := by
  unfold noteAwake
  split
  · exact ⟨_, rfl⟩
  · exact ⟨engine.runState, rfl⟩

/-- The queue does not change when a command goes to sleep. -/
@[simp] theorem noteAsleep_queue (engine : Engine) : engine.noteAsleep.queue = engine.queue := by
  unfold noteAsleep
  split <;> rfl

/-- The queue does not change when a command wakes. -/
@[simp] theorem noteAwake_queue (engine : Engine) : engine.noteAwake.queue = engine.queue := by
  unfold noteAwake
  split <;> rfl

/-- No command sleeps when one has just woken. -/
theorem noteAwake_ne_waiting (engine : Engine) : engine.noteAwake.runState ≠ .waiting := by
  unfold noteAwake
  split
  · simp
  · next h => exact h

end Engine

namespace Execution

/-! ## The course of an activation -/

/-- What a command may do to the activation that it belongs to. -/
inductive Course (settings : Settings) (command : Command) (activation : Activation) :
    Activation → Prop
  | straight : Course settings command activation activation
  | rewinds (hkind : command.kind = .loop none) :
      Course settings command activation (activation.jumpTo 0)
  | repeats {count left : Nat} (hkind : command.kind = .loop (some count))
      (hleft : activation.remaining activation.step (initialRepeats settings count) = left + 1) :
      Course settings command activation ((activation.setRemaining activation.step left).jumpTo 0)
  | runsOut {count : Nat} (hkind : command.kind = .loop (some count))
      (hleft : activation.remaining activation.step (initialRepeats settings count) = 0) :
      Course settings command activation (activation.forget activation.step)
  | passes {count left : Nat} (hkind : command.kind = .craft count)
      (hleft : activation.remaining activation.step count = left + 1) :
      Course settings command activation (activation.setRemaining activation.step left)
  | ends {count : Nat} (hkind : command.kind = .craft count)
      (hleft : activation.remaining activation.step count = 0) :
      Course settings command activation (activation.forget activation.step).finish

/-- No command changes the number of its activation, nor its commands. -/
theorem Course.id_eq {settings : Settings} {command : Command} {activation later : Activation}
    (h : Course settings command activation later) : later.id = activation.id := by
  cases h <;> rfl

/-- No command changes the name of its activation. -/
theorem Course.name_eq {settings : Settings} {command : Command} {activation later : Activation}
    (h : Course settings command activation later) : later.name = activation.name := by
  cases h <;> rfl

variable {σ : Type}

/-- Every command does one of these things to its activation. -/
theorem course_start (scope : Scope σ) (command : Command) (activation : Activation)
    (world : World σ) :
    Course scope.settings command activation (start scope command activation world).activation := by
  unfold start
  cases hkind : command.kind with
  | loop count =>
    cases count with
    | none => exact .rewinds hkind
    | some count =>
      cases hleft : activation.remaining activation.step (initialRepeats scope.settings count) with
      | zero =>
        simp only [loop, hleft, if_pos]
        exact .runsOut hkind hleft
      | succ left =>
        simp only [loop, rewind, hleft, if_neg (Nat.succ_ne_zero left), Nat.add_sub_cancel]
        exact .repeats hkind hleft
  | craft count =>
    cases hleft : activation.remaining activation.step count with
    | zero =>
      simp only [craft, hleft, if_pos]
      exact .ends hkind hleft
    | succ left =>
      simp only [craft, hleft, if_neg (Nat.succ_ne_zero left), Nat.add_sub_cancel]
      exact .passes hkind hleft
  | runMacro name =>
    simp only [runMacro]
    split
    · exact .straight
    · split <;> exact .straight
  | action | click | keys | target | recipe | item | require | wait | waitAddon | native =>
    exact .straight

end Execution

namespace Machine

variable {σ : Type} {host : Host σ} {machine : Machine σ}

/-! ## Steps -/

/-- Later engines execute commands in the same way. -/
theorem scope_eq_of_frame {later : Machine σ} (h : machine.engine.Frame later.engine) :
    later.scope host = machine.scope host := by
  simp only [scope, h.settings_eq, h.reader_eq]

/-- A command that starts is settled as its first piece demands. -/
theorem begin_of_current? {activation : Activation} {command : Command}
    (h : activation.current? = some command) :
    machine.begin host activation =
      settle
        { machine with
          world := (Execution.start (machine.scope host) command activation machine.world).world }
        host (Execution.start (machine.scope host) command activation machine.world).activation
        command (Execution.start (machine.scope host) command activation machine.world).callee
        machine.engine.signal.count
        (Execution.start (machine.scope host) command activation machine.world).standing := by
  simp only [begin, h]

/-- A command that wakes after a stop comes to nothing. -/
theorem wake_of_stopped {flight : InFlight}
    (h : machine.engine.signal.stoppedSince flight.seen = true) :
    machine.wake host flight =
      { machine with engine := machine.engine.noteAwake, task := .ready } := by
  simp only [wake, h, if_true]

/-- A command that wakes in time is settled as its next piece demands. -/
theorem wake_of_live {flight : InFlight}
    (h : machine.engine.signal.stoppedSince flight.seen = false) :
    machine.wake host flight =
      settle
        { machine with
          engine := machine.engine.noteAwake
          task := .ready
          world := (Execution.resume (machine.scope host) flight.command flight.pause
            machine.world).1 }
        host flight.activation flight.command flight.callee flight.seen
        (Execution.resume (machine.scope host) flight.command flight.pause machine.world).2 := by
  have hscope : ({ machine with
      engine := machine.engine.noteAwake, task := Task.ready } : Machine σ).scope host =
      machine.scope host :=
    scope_eq_of_frame (Engine.frame_noteAwake machine.engine)
  simp only [wake, h, Bool.false_eq_true, if_false, hscope]

/-- A machine that rests changes its task and who is woken. -/
theorem exists_rest_eq (machine : Machine σ) (htask : machine.task = .ready) :
    ∃ wake task, machine.rest =
        { machine with engine := { machine.engine with wake }, task } ∧
      ∀ flight wakeAt, task ≠ .suspended flight wakeAt := by
  unfold rest
  split
  · exact ⟨machine.engine.wake, .ended, rfl, by simp⟩
  · exact ⟨.quiet, machine.task, rfl, by simp [htask]⟩
  · exact ⟨.parked, .parked, rfl, by simp⟩

/-- Nothing happens to the world while a machine rests. -/
theorem rest_world (machine : Machine σ) : machine.rest.world = machine.world := by
  unfold rest
  split <;> rfl

/-- The ways in which the machine takes a step. -/
inductive Step (host : Host σ) (machine : Machine σ) : Machine σ → Prop
  | starts {engine : Engine} {front : Activation} (htask : machine.task = .ready)
      (hjob : machine.engine.nextJob = (engine, .run front)) :
      Step host machine ({ machine with engine }.begin host front)
  | ends {engine : Engine} (htask : machine.task = .ready)
      (hjob : machine.engine.nextJob = (engine, .shutDown)) :
      Step host machine { machine with engine, task := .ended }
  | rests {engine : Engine} (htask : machine.task = .ready)
      (hjob : machine.engine.nextJob = (engine, .idle)) :
      Step host machine ({ machine with engine } : Machine σ).rest
  | cancels {flight : InFlight} {wakeAt : Nat} (htask : machine.task = .suspended flight wakeAt)
      (hstopped : machine.engine.signal.stoppedSince flight.seen = true) :
      Step host machine { machine with engine := machine.engine.noteAwake, task := .ready }
  | resumes {flight : InFlight} {wakeAt : Nat} (htask : machine.task = .suspended flight wakeAt)
      (hlive : machine.engine.signal.stoppedSince flight.seen = false)
      (htime : wakeAt ≤ machine.world.now) : Step host machine (machine.wake host flight)
  | unparks (htask : machine.task = .parked) (hwake : machine.engine.wake ≠ .parked) :
      Step host machine { machine with task := .ready }

/-- Every step of the machine is one of these. -/
theorem step_of_step? {next : Machine σ} (h : machine.step? host = some next) :
    Step host machine next := by
  unfold step? at h
  split at h
  next htask =>
    obtain rfl : machine.choose host = next := Option.some.inj h
    unfold choose
    cases hjob : machine.engine.nextJob with
    | mk engine job =>
      cases job with
      | run front => exact .starts htask hjob
      | idle => exact .rests htask hjob
      | shutDown => exact .ends htask hjob
  next flight wakeAt htask =>
    split at h
    · next hdue =>
      obtain rfl : machine.wake host flight = next := Option.some.inj h
      cases hstopped : machine.engine.signal.stoppedSince flight.seen with
      | true =>
        rw [wake_of_stopped hstopped]
        exact .cancels htask hstopped
      | false => exact .resumes htask hstopped (by simpa [hstopped] using hdue)
    · cases h
  next htask =>
    split at h
    · cases h
    · next hwake =>
      cases h
      exact .unparks htask hwake
  next => cases h

end Machine

end GameMacros
