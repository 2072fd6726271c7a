import GameMacros.Proofs.Expansion
import GameMacros.Proofs.Pace
import GameMacros.Proofs.Queueing

/-!
# What starts at one time

While the clock stands still, each activation only moves forward, because going back takes time. So
what is queued has a budget: the commands that each activation still has ahead, with all that they
call. A command that starts is paid from it, and what it calls was counted with it. Nothing else
adds to the budget but calls that queue more.
-/

namespace GameMacros

open Execution Program

/-- Only a command that calls a macro may call something. -/
theorem Command.MayCall.exists_kind_eq {finds : String → SavedMacro → Prop} {settings : Settings}
    {reader : LineReader} {command : Command} {callee : Program}
    (h : command.MayCall finds settings reader callee) :
    ∃ name, command.kind = .runMacro name := by
  obtain ⟨name, _, hkind, _⟩ := h
  exact ⟨name, hkind⟩

namespace Activation

variable {finds : String → SavedMacro → Prop} {settings : Settings} {reader : LineReader}
  {front later : Activation} {command : Command} {callee : Option Program}

/-- How many commands the activation still has ahead if it does not go back, with all that they may
call. -/
noncomputable def lengthAhead (calls : Command → Program → Prop) (activation : Activation) : ℕ∞ :=
  ((activation.commands.drop activation.step).map (commandLength calls)).sum

/-- A new activation has all of its program ahead. -/
theorem lengthAhead_ofProgram (calls : Command → Program → Prop) (id : Nat) (program : Program) :
    (ofProgram id program).lengthAhead calls = expandedLength calls program := by
  rw [expandedLength_eq]
  rfl

/-- An activation has no more ahead than its program. -/
theorem lengthAhead_le (calls : Command → Program → Prop) (activation : Activation) :
    activation.lengthAhead calls ≤ expandedLength calls activation.program := by
  rw [expandedLength_eq]
  exact ((List.drop_sublist _ _).map _).sum_le_sum fun _ _ => zero_le

/-- What an activation has ahead is its current command and what comes behind that. -/
theorem lengthAhead_of_current? (calls : Command → Program → Prop)
    (hcurrent : front.current? = some command) :
    front.lengthAhead calls = commandLength calls command +
      ((front.commands.drop (front.step + 1)).map (commandLength calls)).sum := by
  obtain ⟨hlt, hcommand⟩ := List.getElem?_eq_some_iff.mp (current?_eq_some hcurrent).2
  rw [lengthAhead, List.drop_eq_getElem_cons hlt, List.map_cons, List.sum_cons, hcommand]

/-- How long the program is that is called, if there is one. -/
noncomputable def calleeLength (calls : Command → Program → Prop) (callee : Option Program) : ℕ∞ :=
  callee.elim 0 (expandedLength calls)

/-- A command that does not go back pays for itself and for what it calls. -/
theorem add_lengthAhead_advance_le (calls : Command → Program → Prop)
    (hcurrent : front.current? = some command) (hcallee : ∀ program ∈ callee, calls command program)
    (hcourse : Course settings command front later) (hstraight : later.nextStep = none) :
    1 + (calleeLength calls callee + later.advance.lengthAhead calls) ≤
      front.lengthAhead calls := by
  have hlater : later.advance.lengthAhead calls =
      ((front.commands.drop (front.step + 1)).map (commandLength calls)).sum := by
    have hcommands : later.commands = front.commands :=
      congrArg Program.commands hcourse.program_eq
    have hstep : later.advance.step = front.step + 1 := by
      change later.nextStep.getD (later.step + 1) = front.step + 1
      rw [hstraight]
      cases hcourse <;> rfl
    rw [lengthAhead, hstep]
    exact congrArg (fun commands => ((List.drop (front.step + 1) commands).map _).sum) hcommands
  have hcommand : 1 + calleeLength calls callee ≤ commandLength calls command := by
    cases callee with
    | none => exact (add_zero _).trans_le (one_le_commandLength calls command)
    | some program => exact add_expandedLength_le (hcallee program rfl)
  rw [lengthAhead_of_current? calls hcurrent, hlater, ← add_assoc]
  gcongr

/-- Whatever a command does to its activation, what is ahead of that afterwards, with what the
command calls, is no more than the program. -/
theorem lengthAhead_advance_le (hnext : front.nextStep = none)
    (hcurrent : front.current? = some command)
    (hcallee : ∀ program ∈ callee, command.MayCall finds settings reader program)
    (hcourse : Course settings command front later) :
    calleeLength (Command.MayCall finds settings reader) callee +
        later.advance.lengthAhead (Command.MayCall finds settings reader) ≤
      expandedLength (Command.MayCall finds settings reader) front.program := by
  have hforward (hstraight : later.nextStep = none) := calc
    _ ≤ 1 + (calleeLength (Command.MayCall finds settings reader) callee +
        later.advance.lengthAhead (Command.MayCall finds settings reader)) := le_add_self
    _ ≤ front.lengthAhead (Command.MayCall finds settings reader) :=
      add_lengthAhead_advance_le _ hcurrent hcallee hcourse hstraight
    _ ≤ expandedLength (Command.MayCall finds settings reader) front.program :=
      lengthAhead_le _ front
  have hback {count : Option Nat} (hkind : command.kind = .loop count) :
      calleeLength (Command.MayCall finds settings reader) callee +
          later.advance.lengthAhead (Command.MayCall finds settings reader) ≤
        expandedLength (Command.MayCall finds settings reader) front.program := by
    cases callee with
    | some program =>
      obtain ⟨name, hcall⟩ := (hcallee program rfl).exists_kind_eq
      cases hkind.symm.trans hcall
    | none =>
      rw [calleeLength, Option.elim_none, zero_add, ← hcourse.program_eq]
      exact lengthAhead_le _ later.advance
  cases hcourse with
  | rewinds hkind => exact hback hkind
  | repeats hkind => exact hback hkind
  | straight | runsOut | passes | ends => exact hforward hnext

end Activation

namespace Engine

/-- A sublist of the queue has no more ahead. -/
theorem sum_lengthAhead_le {queue others : List Activation} (calls : Command → Program → Prop)
    (h : others.Sublist queue) :
    (others.map (Activation.lengthAhead calls)).sum ≤
      (queue.map (Activation.lengthAhead calls)).sum :=
  (h.map _).sum_le_sum fun _ _ => zero_le

/-- What is ahead when a command of the activation in front has ended. -/
theorem sum_lengthAhead_commit (calls : Command → Program → Prop) {engine : Engine}
    {front activation : Activation} {others : List Activation}
    (hqueue : engine.queue = front :: others) (hid : front.id = activation.id)
    (callee : Option Program) :
    ((engine.commit activation callee).queue.map (Activation.lengthAhead calls)).sum =
      Activation.calleeLength calls callee + activation.advance.lengthAhead calls +
        (others.map (Activation.lengthAhead calls)).sum := by
  rw [commit_of_front hqueue hid]
  cases callee with
  | none => simp [Activation.calleeLength]
  | some program =>
    simp [Activation.calleeLength, Activation.lengthAhead_ofProgram, add_assoc]

/-- What the end of a command does to the queue depends on nothing but the queue and the number
that is given next. -/
theorem commit_queue_congr {engine other : Engine} (hqueue : other.queue = engine.queue)
    (hnextId : other.nextId = engine.nextId) (activation : Activation) (callee : Option Program) :
    (other.commit activation callee).queue = (engine.commit activation callee).queue := by
  unfold commit
  rw [hqueue, hnextId]
  cases engine.queue with
  | nil => exact hqueue
  | cons front others =>
    dsimp only
    split
    · cases callee <;> rfl
    · exact hqueue

end Engine

namespace Machine

variable {σ : Type} {host : Host σ} {machine next last : Machine σ} {moves : List (Move σ)}
  {finds : String → SavedMacro → Prop} {settings : Settings} {reader : LineReader}

/-! ## What may be called -/

/-- The host finds only these macros under these names at this time. -/
def FindsOnly (host : Host σ) (finds : String → SavedMacro → Prop) (machine : Machine σ) : Prop :=
  ∀ name saved, machine.world.ask host.findMacro name = .ok saved → finds name saved

/-- What commands of the machine may call when only these macros are found. -/
def MayCall (machine : Machine σ) (finds : String → SavedMacro → Prop) :
    Command → Program → Prop :=
  Command.MayCall finds machine.engine.settings machine.engine.reader

/-- The command under way calls only what it may call. -/
def CallsOnly (finds : String → SavedMacro → Prop) (machine : Machine σ) : Prop :=
  ∀ flight wakeAt, machine.task = .suspended flight wakeAt →
    ∀ callee ∈ flight.callee, machine.MayCall finds flight.command callee

/-- What commands may call stays the same in a run. -/
theorem mayCall_eq (h : machine.engine.Frame next.engine) :
    next.MayCall finds = machine.MayCall finds := by
  rw [MayCall, MayCall, h.settings_eq, h.reader_eq]

/-- A command that starts calls only what it may call. -/
theorem mayCall_of_start (hfinds : machine.FindsOnly host finds) (command : Command)
    (front : Activation) :
    ∀ callee ∈ (start (machine.scope host) command front machine.world).callee,
      machine.MayCall finds command callee := by
  intro callee h
  obtain ⟨name, saved, hkind, hfound, hprogram⟩ := exists_of_callee_start h
  exact ⟨name, saved, hkind, hfinds name saved hfound, hprogram⟩

/-- Where a piece of a command leads, the command calls what it called before. -/
theorem callee_of_settle (flight : InFlight) {other : InFlight} {standing : Standing}
    {wakeAt : Nat}
    (h : (machine.settle host flight.activation flight.command flight.callee flight.seen
      standing).task = .suspended other wakeAt) :
    other.command = flight.command ∧ other.callee = flight.callee := by
  cases standing with
  | finished | failed => cases h
  | asleep ms pause =>
    cases h
    exact ⟨rfl, rfl⟩

/-- A move leaves a machine that calls only what it may call. -/
theorem CallsOnly.move (h : machine.CallsOnly finds) (hfinds : machine.FindsOnly host finds)
    {move : Move σ} (hmove : machine.move? host move = some next) : next.CallsOnly finds := by
  have hframe := (proceeds_of_move? hmove).frame
  intro flight wakeAt htask callee hcallee
  rw [mayCall_eq hframe]
  cases move with
  | work =>
    cases step_of_step? hmove with
    | @starts engine front hready hjob =>
      have hchoice := Engine.choice_of_nextJob hjob
      obtain ⟨command, hcurrent⟩ := Activation.exists_current?_of_not_finished hchoice.of_run.1
      have hscope : ({ machine with engine } : Machine σ).scope host = machine.scope host :=
        scope_eq_of_frame hchoice.frame
      rw [begin_of_current? hcurrent, hscope] at htask
      let begun : InFlight :=
        ⟨(start (machine.scope host) command front machine.world).activation, command,
          (start (machine.scope host) command front machine.world).callee, .trailing,
          engine.signal.count⟩
      obtain ⟨hcommand, hsame⟩ := callee_of_settle begun htask
      rw [hsame] at hcallee
      rw [hcommand]
      exact mayCall_of_start hfinds command front callee hcallee
    | @rests engine hready =>
      obtain ⟨wake, task, hrest, hawake⟩ := exists_rest_eq { machine with engine } hready
      rw [hrest] at htask
      exact absurd htask (hawake flight wakeAt)
    | @resumes sleeper time hasleep hlive =>
      obtain ⟨runState, _, hwake⟩ := exists_wake_eq host machine hlive
      rw [hwake] at htask
      obtain ⟨hcommand, hsame⟩ := callee_of_settle sleeper htask
      rw [hcommand]
      exact h sleeper time hasleep callee (hsame ▸ hcallee)
    | ends | cancels | unparks => cases htask
  | wait | drift | call =>
    cases hmove
    exact h flight wakeAt htask callee hcallee
  | launch mode =>
    simp only [move?] at hmove
    split at hmove
    · cases hmove
      cases htask
    · cases hmove

/-- A run leaves a machine that calls only what it may call. -/
theorem Run.callsOnly (hrun : Run host machine moves last) (h : machine.CallsOnly finds)
    (hfinds : ∀ entry ∈ trail host moves machine, entry.1.FindsOnly host finds) :
    last.CallsOnly finds := by
  induction hrun with
  | nil => exact h
  | cons hmove _ ih =>
    rw [trail_cons hmove] at hfinds
    obtain ⟨hhere, hlater⟩ := List.forall_mem_cons.mp hfinds
    exact ih (h.move hhere hmove) hlater

/-! ## The budget -/

/-- What will be queued when the command under way has ended. -/
def ahead (machine : Machine σ) : List Activation :=
  match machine.task with
  | .suspended flight _ => (machine.engine.commit flight.activation flight.callee).queue
  | .ready | .parked | .ended => machine.engine.queue

/-- How many commands may start before the clock runs on. Nothing starts while a command sleeps. -/
noncomputable def budget (calls : Command → Program → Prop) (machine : Machine σ) : ℕ∞ :=
  if machine.restOf = 0 then (machine.ahead.map (Activation.lengthAhead calls)).sum else 0

/-- Without a command under way what is queued is ahead. -/
theorem ahead_of_not_suspended (h : ∀ flight wakeAt, machine.task ≠ .suspended flight wakeAt) :
    machine.ahead = machine.engine.queue := by
  unfold ahead
  split
  · next flight wakeAt htask => exact absurd htask (h flight wakeAt)
  · rfl
  · rfl
  · rfl

/-- There is no more to pay for than what is ahead. -/
theorem budget_le (calls : Command → Program → Prop) (machine : Machine σ) :
    machine.budget calls ≤ (machine.ahead.map (Activation.lengthAhead calls)).sum := by
  unfold budget
  split
  · exact le_rfl
  · exact zero_le

/-- A command that was stopped leaves the queue as it is. -/
theorem ahead_of_stopped (hmachine : machine.Reachable host) {flight : InFlight} {wakeAt : Nat}
    (htask : machine.task = .suspended flight wakeAt) (hstopped : ¬flight.Live machine.engine) :
    machine.ahead = machine.engine.queue := by
  have hgone := ((orderly_of_served (served_of_reachable hmachine)).flight flight wakeAt htask).gone
    hstopped
  simp only [ahead, htask]
  obtain ⟨heq, _⟩ | ⟨front, others, hqueue, hid, _⟩ :=
    Engine.commit_cases machine.engine flight.activation flight.callee
  · rw [heq]
  · exact absurd hid (hgone front (hqueue ▸ List.mem_cons_self))

/-- Wherever a piece leads that is no pause for going back, there is at most that to pay for which
its command leaves in the queue when it ends. -/
theorem budget_settle_le (calls : Command → Program → Prop) (middle : Machine σ)
    (flight : InFlight) (standing : Standing) :
    (middle.settle host flight.activation flight.command flight.callee flight.seen
        standing).budget calls ≤
      (((middle.engine.commit flight.activation flight.callee).queue).map
        (Activation.lengthAhead calls)).sum := by
  refine (budget_le calls _).trans ?_
  cases standing with
  | finished => exact le_rfl
  | failed failure => exact zero_le
  | asleep ms pause =>
    obtain ⟨runState, hasleep⟩ := middle.engine.exists_noteAsleep_eq
    refine le_of_eq (congrArg (fun queue => (List.map _ queue).sum) ?_)
    simp only [ahead, settle, hasleep]
    have hsame : { middle.engine with runState }.queue = middle.engine.queue := rfl
    exact Engine.commit_queue_congr hsame rfl _ _

/-- While a command sleeps there is nothing to pay for. -/
theorem budget_settle_asleep (calls : Command → Program → Prop) (middle : Machine σ)
    (activation : Activation) (command : Command) (callee : Option Program) {seen : Nat}
    (hseen : middle.engine.signal.stoppedSince seen = false) {ms : Nat} (hms : 0 < ms)
    (pause : Pause) :
    (middle.settle host activation command callee seen (.asleep ms pause)).budget calls = 0 := by
  have hrest :
      (middle.settle host activation command callee seen (.asleep ms pause)).restOf ≠ 0 := by
    rw [restOf_settle middle activation command callee hseen]
    exact Nat.ne_of_gt (Nat.lt_min.mpr ⟨hms, by decide⟩)
  rw [budget, if_neg hrest]

/-- A command that starts is paid from the budget. -/
theorem pays_of_starts (hmachine : machine.Reachable host) (hfinds : machine.FindsOnly host finds)
    {engine : Engine} {front : Activation} (htask : machine.task = .ready)
    (hjob : machine.engine.nextJob = (engine, .run front)) :
    1 + ({ machine with engine }.begin host front).budget (machine.MayCall finds) ≤
      machine.budget (machine.MayCall finds) := by
  have hsound := sound_of_reachable hmachine
  have hchoice := Engine.choice_of_nextJob hjob
  have hframe : machine.engine.Frame engine := hchoice.frame
  obtain ⟨hunfinished, others, hdropped, hqueue⟩ := hchoice.of_run
  obtain ⟨command, hcurrent⟩ := Activation.exists_current?_of_not_finished hunfinished
  have hnext := (hsound.engine.queued front hchoice.mem_of_run).nextStep_eq
  have hscope : ({ machine with engine } : Machine σ).scope host = machine.scope host :=
    scope_eq_of_frame hframe
  have hbudget : machine.budget (machine.MayCall finds) =
      (machine.engine.queue.map (Activation.lengthAhead (machine.MayCall finds))).sum := by
    have hready : ∀ flight wakeAt, machine.task ≠ .suspended flight wakeAt := by simp [htask]
    rw [budget, if_pos (restOf_of_not_suspended hready), ahead_of_not_suspended hready]
  have hpaid : front.lengthAhead (machine.MayCall finds) +
      (others.map (Activation.lengthAhead (machine.MayCall finds))).sum ≤
        machine.budget (machine.MayCall finds) := by
    have hsublist : (front :: others).Sublist machine.engine.queue :=
      hdropped ▸ List.dropWhile_sublist _
    rw [hbudget, ← List.sum_cons, ← List.map_cons]
    exact Engine.sum_lengthAhead_le _ hsublist
  have hcallee := mayCall_of_start hfinds command front
  rw [begin_of_current? hcurrent, hscope]
  generalize hbegun : start (machine.scope host) command front machine.world = begun at hcallee ⊢
  have hcourse := course_of_start_eq hbegun
  let flight : InFlight :=
    ⟨begun.activation, command, begun.callee, .trailing, engine.signal.count⟩
  obtain ⟨_, hstraight | hrewinds⟩ := start_rewinds hnext hbegun
  · calc
      _ ≤ 1 + ((engine.commit begun.activation begun.callee).queue.map
          (Activation.lengthAhead (machine.MayCall finds))).sum := by
        gcongr
        exact budget_settle_le _ { machine with engine, world := begun.world } flight begun.standing
      _ = 1 + (Activation.calleeLength (machine.MayCall finds) begun.callee +
          begun.activation.advance.lengthAhead (machine.MayCall finds)) +
          (others.map (Activation.lengthAhead (machine.MayCall finds))).sum := by
        rw [Engine.sum_lengthAhead_commit _ hqueue hcourse.id_eq.symm, ← add_assoc]
      _ ≤ front.lengthAhead (machine.MayCall finds) +
          (others.map (Activation.lengthAhead (machine.MayCall finds))).sum := by
        gcongr
        exact Activation.add_lengthAhead_advance_le _ hcurrent hcallee hcourse hstraight
      _ ≤ machine.budget (machine.MayCall finds) := hpaid
  · have hlive : engine.signal.stoppedSince engine.signal.count = false := by
      have hundropped : engine.signal.dropped = false :=
        hframe.dropped_eq.trans hsound.engine.undropped
      simp [StopSignal.stoppedSince, hundropped]
    have hasleep : ({ machine with engine, world := begun.world }.settle host begun.activation
        command begun.callee engine.signal.count (.asleep rewindPause .beforeRewind)).budget
          (machine.MayCall finds) = 0 :=
      budget_settle_asleep _ _ _ _ _ hlive (by decide) _
    rw [hrewinds, hasleep, add_zero]
    calc
      1 ≤ commandLength (machine.MayCall finds) command := one_le_commandLength _ _
      _ ≤ front.lengthAhead (machine.MayCall finds) := by
        rw [Activation.lengthAhead_of_current? _ hcurrent]
        exact le_self_add
      _ ≤ _ := le_self_add.trans hpaid

/-- A step that starts nothing and leaves nothing under way adds nothing to what is ahead. -/
theorem budget_le_of_sublist (calls : Command → Program → Prop) (hrest : machine.restOf = 0)
    (htask : ∀ flight wakeAt, next.task ≠ .suspended flight wakeAt)
    (hqueue : next.engine.queue.Sublist machine.ahead) :
    next.budget calls ≤ machine.budget calls := by
  refine (budget_le calls next).trans ?_
  rw [ahead_of_not_suspended htask, budget, if_pos hrest]
  exact Engine.sum_lengthAhead_le calls hqueue

/-- With the queue everything ahead is gone. -/
theorem budget_of_queue_eq_nil (calls : Command → Program → Prop)
    (h : machine.engine.queue = []) : machine.budget calls = 0 := by
  have hnil : machine.ahead = [] := by
    unfold ahead
    split
    · simp only [Engine.commit, h]
    · exact h
    · exact h
    · exact h
  refine le_antisymm ((budget_le calls machine).trans ?_) zero_le
  rw [hnil, List.map_nil, List.sum_nil]

/-- The budget depends on nothing but the engine, the command under way and the time. -/
theorem budget_congr (calls : Command → Program → Prop) (hengine : next.engine = machine.engine)
    (htask : next.task = machine.task) (hnow : next.world.now = machine.world.now) :
    next.budget calls = machine.budget calls := by
  have hrest : next.restOf = machine.restOf := by simp only [restOf, hengine, htask, hnow]
  have hahead : next.ahead = machine.ahead := by simp only [ahead, hengine, htask]
  rw [budget, budget, hrest, hahead]

/-- No command starts in a step that does not choose one. -/
theorem beginning?_of_quiet (h : machine.starting? = none) :
    beginning? (machine, .work) = none := by
  simp only [beginning?, h, Option.map_none]

/-- In a step each command that starts is paid from the budget. -/
theorem pays_of_step (hmachine : machine.Reachable host) (hfinds : machine.FindsOnly host finds)
    (hstep : machine.step? host = some next) :
    ((beginning? (machine, .work)).toList.length : ℕ∞) + next.budget (machine.MayCall finds) ≤
      machine.budget (machine.MayCall finds) := by
  have hrest : machine.restOf = 0 := restOf_of_step? hstep
  have hnothing (hquiet : machine.starting? = none)
      (hle : next.budget (machine.MayCall finds) ≤ machine.budget (machine.MayCall finds)) :
      ((beginning? (machine, .work)).toList.length : ℕ∞) + next.budget (machine.MayCall finds) ≤
        machine.budget (machine.MayCall finds) := by
    rw [beginning?_of_quiet hquiet, Option.toList_none, List.length_nil, Nat.cast_zero, zero_add]
    exact hle
  cases step_of_step? hstep with
  | @starts engine front htask hjob =>
    have hstarting : machine.starting? = some front := by simp only [starting?, htask, hjob]
    have hbegins : (beginning? (machine, .work)).toList.length = 1 := by
      simp only [beginning?, hstarting, Option.map_some, Option.toList_some, List.length_singleton]
    rw [hbegins, Nat.cast_one]
    exact pays_of_starts hmachine hfinds htask hjob
  | @ends engine htask hjob =>
    apply hnothing (by simp only [starting?, htask, hjob])
    apply budget_le_of_sublist _ hrest (by simp)
    rw [ahead_of_not_suspended (by simp [htask])]
    exact (Engine.choice_of_nextJob hjob).queue_sublist
  | @rests engine htask hjob =>
    apply hnothing (by simp only [starting?, htask, hjob])
    obtain ⟨wake, task, heq, hawake⟩ := exists_rest_eq { machine with engine } htask
    rw [heq]
    apply budget_le_of_sublist _ hrest hawake
    rw [ahead_of_not_suspended (by simp [htask])]
    exact (Engine.choice_of_nextJob hjob).queue_sublist
  | cancels htask hstopped =>
    apply hnothing (by simp only [starting?, htask])
    apply budget_le_of_sublist _ hrest (by simp)
    rw [ahead_of_stopped hmachine htask (by simp [InFlight.Live, hstopped])]
    exact machine.engine.noteAwake_queue ▸ .refl _
  | @resumes flight wakeAt htask hlive =>
    apply hnothing (by simp only [starting?, htask])
    obtain ⟨runState, _, hwake⟩ := exists_wake_eq host machine hlive
    rw [hwake]
    refine (budget_settle_le _ _ flight _).trans ?_
    have hsame : { machine.engine with runState }.queue = machine.engine.queue := rfl
    have hahead := Engine.commit_queue_congr hsame rfl flight.activation flight.callee
    rw [budget, if_pos hrest, hahead]
    simp only [ahead, htask, le_refl]
  | unparks htask =>
    apply hnothing (by simp only [starting?, htask])
    apply budget_le_of_sublist _ hrest (by simp)
    rw [ahead_of_not_suspended (by simp [htask])]

/-- A call that queues nothing adds nothing to the budget. -/
theorem budget_handle_le (calls : Command → Program → Prop) (library : Library) {call : Call}
    (hcall : ¬call.Queues) :
    (machine.handle library call).1.budget calls ≤ machine.budget calls := by
  have hcontrol := machine.engine.control_handle library call
  by_cases hstops : call.StopsAtOnce
  · rw [budget_of_queue_eq_nil calls (machine.engine.handle_of_stopsAtOnce hstops library).1]
    exact zero_le
  · have hqueue := hcontrol.queue_eq hcall hstops
    have hahead : (machine.handle library call).1.ahead = machine.ahead := by
      unfold ahead
      cases htask : machine.task with
      | suspended flight wakeAt =>
        simp only [handle, htask]
        exact Engine.commit_queue_congr hqueue (hcontrol.of_not_queues hcall).1 _ _
      | ready | parked | ended =>
        simp only [handle, htask]
        exact hqueue
    rw [budget, budget, hahead, restOf_handle machine library hstops]

/-- While the clock stands still and nothing is queued, each command that starts is paid from the
budget. -/
theorem pays_of_move? (hmachine : machine.Reachable host) (hfinds : machine.FindsOnly host finds)
    {move : Move σ} (hmove : machine.move? host move = some next)
    (hcall : ∀ library call, move = .call library call → ¬call.Queues)
    (hnow : next.world.now = machine.world.now) :
    ((beginning? (machine, move)).toList.length : ℕ∞) + next.budget (machine.MayCall finds) ≤
      machine.budget (machine.MayCall finds) := by
  cases move with
  | work => exact pays_of_step hmachine hfinds hmove
  | wait | drift =>
    cases hmove
    refine (zero_add _).trans_le (le_of_eq ?_)
    exact budget_congr _ rfl rfl hnow
  | call library call =>
    cases hmove
    exact (zero_add _).trans_le (budget_handle_le _ library (hcall library call rfl))
  | launch mode =>
    simp only [move?] at hmove
    split at hmove
    · next hended =>
      cases hmove
      have htask : ∀ flight wakeAt, machine.task ≠ .suspended flight wakeAt := by simp [hended]
      refine (zero_add _).trans_le ?_
      apply budget_le_of_sublist _ (restOf_of_not_suspended htask) (by simp [launch])
      rw [ahead_of_not_suspended htask]
      exact .refl _
    · cases hmove

/-- The clock never runs backwards in a run. -/
theorem Run.now_le (hrun : Run host machine moves last) :
    machine.world.now ≤ last.world.now := by
  induction hrun with
  | nil => exact Nat.le_refl _
  | cons hmove _ ih => exact Nat.le_trans (now_le_of_move? hmove) ih

/-- While the clock stands still and nothing is queued, all commands that start are paid from the
budget. -/
theorem Run.pays (hrun : Run host machine moves last) (hmachine : machine.Reachable host)
    (hfinds : ∀ entry ∈ trail host moves machine, entry.1.FindsOnly host finds)
    (hcalls : ∀ library call, Move.call library call ∈ moves → ¬call.Queues)
    (hnow : last.world.now = machine.world.now) :
    ((beginnings host moves machine).length : ℕ∞) + last.budget (machine.MayCall finds) ≤
      machine.budget (machine.MayCall finds) := by
  induction hrun with
  | nil => exact (zero_add _).le
  | @cons machine next last move moves hmove hrest ih =>
    rw [trail_cons hmove] at hfinds
    obtain ⟨hhere, hlater⟩ := List.forall_mem_cons.mp hfinds
    have hstill : next.world.now = machine.world.now :=
      Nat.le_antisymm (hrest.now_le.trans_eq hnow) (now_le_of_move? hmove)
    have hfirst := pays_of_move? hmachine hhere hmove
      (fun library call heq => hcalls library call (heq ▸ List.mem_cons_self)) hstill
    have hothers := ih (hmachine.run (.cons hmove (.nil _))) hlater
      (fun library call hmem => hcalls library call (List.mem_cons_of_mem _ hmem))
      (hnow.trans hstill.symm)
    rw [mayCall_eq (proceeds_of_move? hmove).frame] at hothers
    rw [beginnings_cons hmove, List.length_append, Nat.cast_add, add_assoc]
    exact (add_le_add_right hothers _).trans hfirst

/-- There is no more in the budget than the expanded length of all programs that are queued. -/
theorem budget_le_expandedLength (hmachine : machine.Reachable host)
    (hcalls : machine.CallsOnly finds) :
    machine.budget (machine.MayCall finds) ≤
      (machine.engine.queue.map fun activation =>
        expandedLength (machine.MayCall finds) activation.program).sum := by
  have hqueued (queue : List Activation) :
      (queue.map (Activation.lengthAhead (machine.MayCall finds))).sum ≤
        (queue.map fun activation =>
          expandedLength (machine.MayCall finds) activation.program).sum :=
    List.sum_le_sum fun activation _ => activation.lengthAhead_le _
  refine (budget_le _ machine).trans ?_
  cases htask : machine.task with
  | ready | parked | ended =>
    rw [ahead_of_not_suspended (by simp [htask])]
    exact hqueued _
  | suspended flight wakeAt =>
    by_cases hlive : flight.Live machine.engine
    · obtain ⟨front, others, hqueue, hcurrent, hcourse⟩ :=
        (steady_of_reachable hmachine htask).inFront hlive
      have hfront := (sound_of_reachable hmachine).engine.queued front
        (hqueue ▸ List.mem_cons_self)
      have hfirst := Activation.lengthAhead_advance_le hfront.nextStep_eq hcurrent
        (hcalls flight wakeAt htask) hcourse
      simp only [ahead, htask]
      rw [Engine.sum_lengthAhead_commit _ hqueue hcourse.id_eq.symm, hqueue, List.map_cons,
        List.sum_cons]
      exact add_le_add hfirst (hqueued others)
    · rw [ahead_of_stopped hmachine htask hlive]
      exact hqueued _

/-! ## The pace of every run -/

/-- How densely commands start in a run. -/
structure Paced (host : Host σ) (finds : String → SavedMacro → Prop) (machine : Machine σ)
    (moves : List (Move σ)) (last : Machine σ) : Prop where
  /-- The same command of an activation starts again only after the pause of a loop. -/
  apart : (beginnings host moves machine).Pairwise Beginning.Apart
  /-- While the clock stands still and nothing is queued, no more commands start than there are in
  the programs that are queued at first, and in those that they call. -/
  within : (∀ library call, Move.call library call ∈ moves → ¬call.Queues) →
    last.world.now = machine.world.now →
    ((beginnings host moves machine).length : ℕ∞) ≤
      (machine.engine.queue.map fun activation =>
        expandedLength (machine.MayCall finds) activation.program).sum
  /-- These are finitely many if there are finitely many macros and no program that is reached calls
  itself in the end. -/
  bounded : {saved | ∃ name, finds name saved}.Finite →
    (∀ activation ∈ machine.engine.queue,
      Acyclic (machine.MayCall finds) activation.program) →
    (machine.engine.queue.map fun activation =>
      expandedLength (machine.MayCall finds) activation.program).sum ≠ ⊤

/-- Finitely many macros are finitely many programs. -/
theorem finite_callees (machine : Machine σ) (h : {saved | ∃ name, finds name saved}.Finite) :
    {callee | ∃ command, machine.MayCall finds command callee}.Finite := by
  refine (h.image fun saved =>
    (saved.program machine.engine.settings machine.engine.reader none).toOption).preimage
      (Option.some_injective Program).injOn |>.subset ?_
  rintro callee ⟨command, name, saved, _, hfinds, hprogram⟩
  exact ⟨saved, ⟨name, hfinds⟩, by simp only [hprogram, Except.toOption]⟩

/-- Whatever the host and the settings and whatever is called, commands do not start more densely
than this. The relation has the macros that are found from the start of the engine on. -/
theorem paced_of_run {settings : Settings} {world : World σ} {early : List (Move σ)}
    (hearly : Run host { engine := .ofSettings settings, world } early machine)
    (hrun : Run host machine moves last)
    (hfinds : ∀ entry ∈ trail host early { engine := .ofSettings settings, world } ++
      trail host moves machine, entry.1.FindsOnly host finds) :
    Paced host finds machine moves last := by
  have hmachine : machine.Reachable host := ⟨settings, world, early, hearly⟩
  obtain ⟨hbefore, hlater⟩ := List.forall_mem_append.mp hfinds
  have hnew : CallsOnly finds ({ engine := .ofSettings settings, world } : Machine σ) := by
    intro flight wakeAt htask
    cases htask
  have hcalls : machine.CallsOnly finds := hearly.callsOnly hnew hbefore
  refine ⟨hrun.pairwise_apart hmachine, fun hqueues hnow => ?_, fun hfinite hacyclic => ?_⟩
  · calc
      _ ≤ ((beginnings host moves machine).length : ℕ∞) + last.budget (machine.MayCall finds) :=
        le_self_add
      _ ≤ machine.budget (machine.MayCall finds) := hrun.pays hmachine hlater hqueues hnow
      _ ≤ _ := budget_le_expandedLength hmachine hcalls
  · apply sum_map_ne_top
    intro activation hmem
    exact expandedLength_ne_top (finite_callees machine hfinite) (hacyclic activation hmem)

/-- Five commands start at once when a macro with a loop calls another one. -/
theorem paced_of_run_calling :
    ∃ (finds : String → SavedMacro → Prop) (machine last : Machine DryRun)
        (moves : List (Move DryRun)),
      Run DryRun.host machine moves last ∧ machine.engine.queue.length = 1 ∧
        last.world.now = machine.world.now ∧
        (∀ library call, Move.call library call ∈ moves → ¬call.Queues) ∧
        (beginnings DryRun.host moves machine).length = 5 ∧
        Paced DryRun.host finds machine moves last := by
  let inner : SavedMacro := { name := "inner", contents := "/echo a\n/echo b" }
  let outer : SavedMacro := { name := "outer", contents := "/runmacro inner\n/echo c\n/loop" }
  let library : Library := { macros := [inner] }
  let start : Machine DryRun := { engine := .ofSettings {}, world := { host := { library } } }
  let early : List (Move DryRun) :=
    [.call library (.enqueue outer none), .launch .untilIdle]
  let moves : List (Move DryRun) := List.replicate 5 .work
  let finds (name : String) (saved : SavedMacro) : Prop := library.find name = .ok saved
  have hfollow : (follow? DryRun.host early start).map (fun machine =>
      (follow? DryRun.host moves machine).map fun last =>
        decide (machine.engine.queue.length = 1 ∧ last.world.now = machine.world.now ∧
          (beginnings DryRun.host moves machine).length = 5) &&
        (trail DryRun.host early start ++ trail DryRun.host moves machine).all fun entry =>
          decide (entry.1.world.host.library.macros = [inner]) &&
            entry.1.world.host.library.folders.isEmpty) = some (some true) := by decide +kernel
  obtain ⟨machine, hmachine, hrest⟩ := Option.map_eq_some_iff.mp hfollow
  obtain ⟨last, hlast, hseen⟩ := Option.map_eq_some_iff.mp hrest
  obtain ⟨hfacts, hlibrary⟩ := Bool.and_eq_true_iff.mp hseen
  obtain ⟨hqueue, hnow, hstarts⟩ := of_decide_eq_true hfacts
  have hrun : Run DryRun.host machine moves last := run_of_follow? hlast
  refine ⟨finds, machine, last, moves, hrun, hqueue, hnow, ?_, hstarts, ?_⟩
  · intro _ call hmem
    cases List.eq_of_mem_replicate hmem
  · apply paced_of_run (run_of_follow? hmachine) hrun
    intro entry hmem name saved hfound
    obtain ⟨hmacros, hfolders⟩ := Bool.and_eq_true_iff.mp (List.all_eq_true.mp hlibrary entry hmem)
    have hsame : entry.1.world.host.library = library := by
      cases hkept : entry.1.world.host.library with
      | mk macros folders =>
        simp only [hkept, decide_eq_true_eq, List.isEmpty_iff] at hmacros hfolders
        rw [hmacros, hfolders]
    change entry.1.world.host.library.find name = .ok saved at hfound
    rwa [hsame] at hfound

end Machine

end GameMacros
