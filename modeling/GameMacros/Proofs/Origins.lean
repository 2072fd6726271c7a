import GameMacros.Proofs.Cancellation

/-!
# Where programs come from

Whatever a machine executes was either queued by a call that controls it, or called by a command of
something that it executed. So a property holds of all programs that a run executes if it holds of
those that are queued and is handed down from a program to those it calls.
-/

namespace GameMacros

open Execution

/-- The program that the activation executes. -/
def Activation.program (activation : Activation) : Program :=
  ⟨activation.name, activation.commands⟩

/-- A command executes the program of its activation, whatever it does to the activation. -/
theorem Execution.Course.program_eq {settings : Settings} {command : Command}
    {activation later : Activation} (h : Course settings command activation later) :
    later.program = activation.program := by
  cases h <;> rfl

/-- The current command is one of the program. -/
theorem Activation.mem_program_of_current? {activation : Activation} {command : Command}
    (h : activation.current? = some command) : command ∈ activation.program.commands :=
  List.mem_of_getElem? (current?_eq_some h).2

/-- The call asks for a macro to be queued, with this count for its last loop if there is one. -/
inductive Call.AsksFor (library : Library) : Call → SavedMacro → Option Nat → Prop
  | enqueue (saved : SavedMacro) (loops : Option Nat) :
      AsksFor library (.enqueue saved loops) saved loops
  | byName {name : String} {saved : SavedMacro} (hfound : library.find name = .ok saved)
      (loops : Option Nat) : AsksFor library (.enqueueByName name loops) saved loops

/-- A call leaves the queue alone, empties it, or queues the program of the macro it asks for. -/
theorem Engine.queue_handle (engine : Engine) (library : Library) (call : Call) :
    (engine.handle library call).1.queue = engine.queue ∨
      (engine.handle library call).1.queue = [] ∨
      ∃ saved loops program, call.AsksFor library saved loops ∧
        saved.program engine.settings engine.reader loops = .ok program ∧
        (engine.handle library call).1.queue =
          engine.queue ++ [.ofProgram engine.nextId program] := by
  have hpushed {next : Engine} {saved : SavedMacro} {loops : Option Nat}
      (h : engine.enqueue saved loops = .ok next) :
      ∃ program, saved.program engine.settings engine.reader loops = .ok program ∧
        next.queue = engine.queue ++ [.ofProgram engine.nextId program] := by
    obtain ⟨program, hprogram, _, rfl⟩ := enqueue_eq_ok h
    obtain ⟨_, _, _, hpush, _⟩ := engine.exists_push_eq program
    exact ⟨program, hprogram, by rw [hpush]; rfl⟩
  have hcontrol := engine.control_handle library call
  cases call with
  | enqueue saved loops =>
    dsimp only [handle]
    split
    · next queued h =>
      obtain ⟨program, hprogram, hqueue⟩ := hpushed h
      exact .inr (.inr ⟨saved, loops, program, .enqueue saved loops, hprogram, hqueue⟩)
    · exact .inl rfl
  | enqueueByName name loops =>
    dsimp only [handle, enqueueByName]
    cases hfound : library.find name with
    | error error => exact .inl rfl
    | ok saved =>
      dsimp only
      split
      · next queued h =>
        obtain ⟨program, hprogram, hqueue⟩ := hpushed h
        exact .inr (.inr ⟨saved, loops, program, .byName hfound loops, hprogram, hqueue⟩)
      · exact .inl rfl
  | pause | resume | stepOnce | stop | login | logout | shutDown | look | summary =>
    obtain ⟨hsame, _⟩ | ⟨hempty, _⟩ := (hcontrol.of_not_queues id).2
    · exact .inl hsame
    · exact .inr (.inl hempty)

/-- Only a call has a callee: the program of the macro that the host finds. -/
theorem Execution.exists_of_callee_start {σ : Type} {scope : Scope σ} {command : Command}
    {activation : Activation} {world : World σ} {callee : Program}
    (h : (start scope command activation world).callee = some callee) :
    ∃ name saved, command.kind = .runMacro name ∧
      world.ask scope.host.findMacro name = .ok saved ∧
      saved.program scope.settings scope.reader none = .ok callee := by
  unfold start at h
  cases hkind : command.kind with
  | runMacro name =>
    simp only [hkind, runMacro] at h
    split at h
    · cases h
    · next saved hfound =>
      split at h
      · cases h
      · next program hprogram =>
        cases h
        exact ⟨name, saved, rfl, hfound, hprogram⟩
  | loop count =>
    simp only [hkind] at h
    cases count with
    | none => cases h
    | some count =>
      dsimp only [loop] at h
      split at h <;> cases h
  | craft count =>
    simp only [hkind, craft] at h
    split at h <;> cases h
  | action | click | keys | target | recipe | item | require | wait | waitAddon | native =>
    simp only [hkind] at h
    cases h

/-- The property is handed down from a program to those that its commands call. -/
def HandsDown {σ : Type} (host : Host σ) (settings : Settings) (reader : LineReader)
    (P : Program → Prop) : Prop :=
  ∀ program, P program → ∀ command ∈ program.commands, ∀ name, command.kind = .runMacro name →
    ∀ state now saved, host.findMacro state now name = .ok saved →
      ∀ callee, saved.program settings reader none = .ok callee → P callee

/-- What the move queues has the property. -/
def Move.QueuesOnly {σ : Type} (settings : Settings) (reader : LineReader) (P : Program → Prop)
    (move : Move σ) : Prop :=
  ∀ library call, move = .call library call → ∀ saved loops, call.AsksFor library saved loops →
    ∀ program, saved.program settings reader loops = .ok program → P program

namespace Machine

variable {σ : Type} {host : Host σ} {machine next last : Machine σ} {moves : List (Move σ)}
  {P : Program → Prop}

/-- All programs that the machine is executing or about to execute have the property. -/
structure RunsOnly (P : Program → Prop) (machine : Machine σ) : Prop where
  queued : ∀ activation ∈ machine.engine.queue, P activation.program
  flight : ∀ flight wakeAt, machine.task = .suspended flight wakeAt →
    P flight.activation.program ∧ ∀ callee ∈ flight.callee, P callee

/-- The program for which the machine works has the property. -/
theorem RunsOnly.of_worker? (h : machine.RunsOnly P) {worker : Activation}
    (hworker : machine.worker? = some worker) : P worker.program := by
  obtain ⟨flight, wakeAt, htask, rfl⟩ | hmem := worker?_cases hworker
  · exact (h.flight flight wakeAt htask).1
  · exact h.queued worker hmem

/-- Wherever a piece of a command leads, it executes what was queued and what it calls. -/
theorem runsOnly_settle (machine : Machine σ)
    (hqueue : ∀ activation ∈ machine.engine.queue, P activation.program) {activation : Activation}
    (hactivation : P activation.program) {callee : Option Program}
    (hcallee : ∀ program ∈ callee, P program) (command : Command) (seen : Nat)
    (standing : Standing) :
    (machine.settle host activation command callee seen standing).RunsOnly P := by
  cases standing with
  | finished =>
    refine ⟨?_, by simp [settle]⟩
    obtain ⟨heq, _⟩ | ⟨front, others, hfront, _, heq⟩ :=
      Engine.commit_cases machine.engine activation callee
    · simpa only [settle, heq] using hqueue
    · intro moved hmem
      simp only [settle, heq, List.mem_append, List.mem_cons, Option.mem_toList,
        Option.map_eq_some_iff] at hmem
      obtain ⟨program, hprogram, rfl⟩ | rfl | hother := hmem
      · exact hcallee program hprogram
      · exact hactivation
      · exact hqueue moved (hfront ▸ List.mem_cons_of_mem _ hother)
  | failed failure => exact ⟨by simp [settle, Engine.halt], by simp [settle]⟩
  | asleep ms pause =>
    refine ⟨by simpa [settle] using hqueue, fun flight wakeAt htask => ?_⟩
    cases htask
    exact ⟨hactivation, hcallee⟩

/-- A step executes what was queued and what is called. -/
theorem RunsOnly.step (h : machine.RunsOnly P)
    (hcalled : HandsDown host machine.engine.settings machine.engine.reader P)
    (hstep : Step host machine next) : next.RunsOnly P := by
  have hchosen {result : Engine × Engine.Job} (hjob : machine.engine.nextJob = result) :
      ∀ activation ∈ result.1.queue, P activation.program := fun activation hmem =>
    h.queued activation ((Engine.choice_of_nextJob hjob).queue_sublist.subset hmem)
  cases hstep with
  | @starts engine front htask hjob =>
    have hchoice := Engine.choice_of_nextJob hjob
    have hframe : machine.engine.Frame engine := hchoice.frame
    obtain ⟨command, hcurrent⟩ := Activation.exists_current?_of_not_finished hchoice.of_run.1
    have hfront : P front.program := h.queued front hchoice.mem_of_run
    rw [begin_of_current? hcurrent]
    refine runsOnly_settle { machine with engine, world := _ } (hchosen hjob) ?_ ?_ command _ _
    · rw [(course_start _ command front _).program_eq]
      exact hfront
    · intro callee hcallee
      obtain ⟨name, saved, hkind, hfound, hprogram⟩ := exists_of_callee_start hcallee
      simp only [scope, hframe.settings_eq, hframe.reader_eq] at hprogram
      exact hcalled front.program hfront command (Activation.mem_program_of_current? hcurrent) name
        hkind _ _ saved hfound callee hprogram
  | ends _ hjob => exact ⟨hchosen hjob, by simp⟩
  | @rests engine htask hjob =>
    obtain ⟨wake, task, hrest, hawake⟩ := exists_rest_eq { machine with engine } htask
    rw [hrest]
    exact ⟨hchosen hjob, fun flight wakeAt hsuspended => absurd hsuspended (hawake _ _)⟩
  | cancels => exact ⟨by simpa using h.queued, by simp⟩
  | @resumes flight wakeAt htask hlive =>
    obtain ⟨hactivation, hcallee⟩ := h.flight flight wakeAt htask
    rw [wake_of_live hlive]
    exact runsOnly_settle
      { machine with engine := machine.engine.noteAwake, world := _, task := .ready }
      (by simpa using h.queued) hactivation hcallee flight.command _ _
  | unparks => exact ⟨h.queued, by simp⟩

/-- A move executes what was queued, what it queues and what is called. -/
theorem RunsOnly.move (h : machine.RunsOnly P)
    (hcalled : HandsDown host machine.engine.settings machine.engine.reader P) {move : Move σ}
    (hqueued : move.QueuesOnly machine.engine.settings machine.engine.reader P)
    (hmove : machine.move? host move = some next) : next.RunsOnly P := by
  cases move with
  | work => exact h.step hcalled (step_of_step? hmove)
  | wait | drift =>
    cases hmove
    exact ⟨h.queued, h.flight⟩
  | call library call =>
    cases hmove
    refine ⟨fun activation hmem => ?_, h.flight⟩
    have hmem : activation ∈ (machine.engine.handle library call).1.queue := hmem
    obtain hqueue | hqueue | ⟨saved, loops, program, hasks, hprogram, hqueue⟩ :=
      machine.engine.queue_handle library call
    · exact h.queued activation (hqueue ▸ hmem)
    · simp [hqueue] at hmem
    · rw [hqueue] at hmem
      obtain hold | hnew := List.mem_append.mp hmem
      · exact h.queued activation hold
      · rw [List.mem_singleton.mp hnew]
        exact hqueued library call rfl saved loops hasks program hprogram
  | launch mode =>
    simp only [move?] at hmove
    split at hmove
    · cases hmove
      exact ⟨h.queued, by simp [launch]⟩
    · cases hmove

/-- A run executes what was queued, what it queues and what is called. -/
theorem Run.runsOnly (hrun : Run host machine moves last) (h : machine.RunsOnly P)
    (hcalled : HandsDown host machine.engine.settings machine.engine.reader P)
    (hqueued : ∀ move ∈ moves,
      move.QueuesOnly machine.engine.settings machine.engine.reader P) : last.RunsOnly P := by
  induction hrun with
  | nil => exact h
  | @cons machine next last move moves hmove _ ih =>
    have hframe := (proceeds_of_move? hmove).frame
    obtain ⟨hfirst, hothers⟩ := List.forall_mem_cons.mp hqueued
    have hnext := h.move hcalled hfirst hmove
    rw [← hframe.settings_eq, ← hframe.reader_eq] at hcalled hothers
    exact ih hnext hcalled hothers

/-- A new machine executes nothing. -/
theorem runsOnly_new (settings : Settings) (world : World σ) :
    ({ engine := .ofSettings settings, world } : Machine σ).RunsOnly P :=
  ⟨by simp [Engine.ofSettings], by simp⟩

end Machine

end GameMacros
