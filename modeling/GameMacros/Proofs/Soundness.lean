import GameMacros.Host.DryRun
import GameMacros.Proofs.Operations
import GameMacros.Proofs.Run
import Mathlib.Data.List.Nodup

/-!
# Sound machines

What holds of every machine that can be reached from a new engine, whatever calls come in between:
which states an engine can be in, how the copy of the activation under way relates to the queue, and
where the counters of an activation belong. Each operation keeps it, hence so does every move.
-/

namespace GameMacros

/-- What is found at a place was noted there. -/
theorem Counters.mem_of_get? {counters : Counters} {place left : Nat}
    (h : counters.get? place = some left) : (place, left) ∈ counters := by
  obtain ⟨entry, hfind, rfl⟩ := Option.map_eq_some_iff.mp h
  have hplace : entry.1 = place := by simpa using List.find?_some hfind
  rw [← hplace]
  exact List.mem_of_find?_eq_some hfind

/-- With what the counter of a command starts, if the command is counted. -/
def Command.initialCount? (settings : Settings) (command : Command) : Option Nat :=
  match command.kind with
  | .loop (some count) => some (Execution.initialRepeats settings count)
  | .craft count => some count
  | _ => none

namespace Activation

variable {settings : Settings} {command : Command} {activation : Activation}

/-- Each counter belongs to a counted loop or a craft gate, and holds at most what that starts
with. -/
def Counted (settings : Settings) (activation : Activation) : Prop :=
  ∀ place left, (place, left) ∈ activation.counters → ∃ command initial,
    activation.commands[place]? = some command ∧
      command.initialCount? settings = some initial ∧ left ≤ initial

/-- What holds of an activation in the queue. -/
structure Queued (settings : Settings) (activation : Activation) : Prop where
  step_le : activation.step ≤ activation.size
  nextStep_eq : activation.nextStep = none
  counted : activation.Counted settings

/-- What holds of the copy of an activation while its command is executed. -/
structure UnderWay (settings : Settings) (command : Command) (activation : Activation) : Prop where
  command_eq : activation.commands[activation.step]? = some command
  nextStep_eq : activation.nextStep = none ∨ activation.nextStep = some 0
  counted : activation.Counted settings

/-- A new activation may be queued. -/
theorem queued_ofProgram (id : Nat) (program : Program) : (ofProgram id program).Queued settings :=
  ⟨Nat.zero_le _, rfl, fun _ _ hmem => by cases hmem⟩

/-- What remains is never more than the count started with. -/
theorem Counted.remaining_le (h : activation.Counted settings) {place initial : Nat}
    (hcommand : activation.commands[place]? = some command)
    (hinitial : command.initialCount? settings = some initial) :
    activation.remaining place initial ≤ initial := by
  unfold remaining
  cases hget : activation.counters.get? place with
  | none => exact Nat.le_refl _
  | some left =>
    obtain ⟨other, bound, hother, hbound, hle⟩ := h place left (Counters.mem_of_get? hget)
    cases hcommand.symm.trans hother
    cases hinitial.symm.trans hbound
    exact hle

/-- A counted command may note what remains. -/
theorem Counted.setRemaining (h : activation.Counted settings) {place initial left : Nat}
    (hcommand : activation.commands[place]? = some command)
    (hinitial : command.initialCount? settings = some initial) (hle : left ≤ initial) :
    (activation.setRemaining place left).Counted settings := by
  intro other noted hmem
  rcases List.mem_cons.mp hmem with heq | hmem
  · cases heq
    exact ⟨command, initial, hcommand, hinitial, hle⟩
  · exact h other noted (List.mem_filter.mp hmem).1

/-- Counters may be forgotten. -/
theorem Counted.forget (h : activation.Counted settings) (place : Nat) :
    (activation.forget place).Counted settings :=
  fun other noted hmem => h other noted (List.mem_filter.mp hmem).1

/-- A command that starts keeps what holds of its activation. -/
theorem Queued.underWay (h : activation.Queued settings)
    (hcurrent : activation.current? = some command) {later : Activation}
    (hcourse : Execution.Course settings command activation later) :
    later.UnderWay settings command := by
  have hcommand := (current?_eq_some hcurrent).2
  cases hcourse with
  | straight => exact ⟨hcommand, .inl h.nextStep_eq, h.counted⟩
  | rewinds => exact ⟨hcommand, .inr rfl, h.counted⟩
  | repeats hkind hleft =>
    rename_i count left
    have hinitial : command.initialCount? settings =
        some (Execution.initialRepeats settings count) := by simp [Command.initialCount?, hkind]
    have hle := h.counted.remaining_le hcommand hinitial
    exact ⟨hcommand, .inr rfl, h.counted.setRemaining hcommand hinitial (by omega)⟩
  | runsOut => exact ⟨hcommand, .inl h.nextStep_eq, h.counted.forget _⟩
  | passes hkind hleft =>
    rename_i count left
    have hinitial : command.initialCount? settings = some count := by
      simp [Command.initialCount?, hkind]
    have hle := h.counted.remaining_le hcommand hinitial
    exact ⟨hcommand, .inl h.nextStep_eq, h.counted.setRemaining hcommand hinitial (by omega)⟩
  | ends => exact ⟨hcommand, .inl h.nextStep_eq, h.counted.forget _⟩

/-- The end of a command makes its activation ready to be queued again. -/
theorem UnderWay.advance (h : activation.UnderWay settings command) :
    activation.advance.Queued settings := by
  have hlt : activation.step < activation.size := (List.getElem?_eq_some_iff.mp h.command_eq).1
  refine ⟨?_, rfl, h.counted⟩
  change activation.nextStep.getD (activation.step + 1) ≤ activation.size
  rcases h.nextStep_eq with hnext | hnext
  · rw [hnext]
    exact hlt
  · rw [hnext]
    exact Nat.zero_le _

end Activation

namespace Engine

variable {engine next : Engine}

/-- What holds of every engine that can be reached. -/
structure Sound (engine : Engine) : Prop where
  queue_eq_nil_iff : engine.queue = [] ↔ engine.runState = .stopped
  paused_of_stepPending : engine.stepPending = true → engine.runState = .paused
  ids_nodup : (engine.queue.map Activation.id).Nodup
  id_lt : ∀ activation ∈ engine.queue, activation.id < engine.nextId
  queued : ∀ activation ∈ engine.queue, activation.Queued engine.settings
  queue_eq_nil_of_shutDown : engine.isShutDown = true → engine.queue = []
  undropped : engine.signal.dropped = false

/-- A new engine is sound. -/
theorem sound_ofSettings (settings : Settings) : (ofSettings settings).Sound where
  queue_eq_nil_iff := ⟨fun _ => rfl, fun _ => rfl⟩
  paused_of_stepPending h := by cases h
  ids_nodup := List.nodup_nil
  id_lt _ h := by cases h
  queued _ h := by cases h
  queue_eq_nil_of_shutDown _ := rfl
  undropped := rfl

/-- An engine stays sound when it loses activations and changes its state accordingly. -/
theorem Sound.of_sublist (h : engine.Sound) (hframe : Frame engine next)
    (hqueue : next.queue.Sublist engine.queue)
    (hempty : next.queue = [] ↔ next.runState = .stopped)
    (hstep : next.stepPending = true → next.runState = .paused)
    (hdown : next.isShutDown = true → next.queue = []) : next.Sound where
  queue_eq_nil_iff := hempty
  paused_of_stepPending := hstep
  ids_nodup := h.ids_nodup.sublist (hqueue.map _)
  id_lt activation hmem :=
    Nat.lt_of_lt_of_le (h.id_lt activation (hqueue.subset hmem)) hframe.nextId_le
  queued activation hmem := by
    rw [hframe.settings_eq]
    exact h.queued activation (hqueue.subset hmem)
  queue_eq_nil_of_shutDown := hdown
  undropped := hframe.dropped_eq.trans h.undropped

/-- A halted engine is sound. -/
theorem Sound.halt (h : engine.Sound) : engine.halt.Sound :=
  h.of_sublist .same (List.nil_sublist _) ⟨fun _ => rfl, fun _ => rfl⟩
    (fun hstep => by cases hstep) (fun _ => rfl)

/-- An engine stays sound when a program is queued. -/
theorem Sound.push (h : engine.Sound) (program : Program) (hup : engine.isShutDown = false) :
    (engine.push program).Sound := by
  have hids : ((engine.queue ++ [Activation.ofProgram engine.nextId program]).map
      Activation.id).Nodup := by
    rw [List.map_append, List.nodup_append]
    refine ⟨h.ids_nodup, List.nodup_singleton _, ?_⟩
    rintro id hid other hother rfl
    obtain ⟨activation, hmem, rfl⟩ := List.mem_map.mp hid
    have hlt := h.id_lt activation hmem
    have heq : activation.id = engine.nextId := by simpa [Activation.ofProgram] using hother
    omega
  have hlt : ∀ activation ∈ engine.queue ++ [.ofProgram engine.nextId program],
      activation.id < engine.nextId + 1 := by
    intro activation hmem
    rcases List.mem_append.mp hmem with hmem | hmem
    · have hlt := h.id_lt activation hmem
      omega
    · rw [List.mem_singleton.mp hmem]
      exact Nat.lt_succ_self _
  have hqueued : ∀ activation ∈ engine.queue ++ [.ofProgram engine.nextId program],
      activation.Queued engine.settings := by
    intro activation hmem
    rcases List.mem_append.mp hmem with hmem | hmem
    · exact h.queued activation hmem
    · rw [List.mem_singleton.mp hmem]
      exact Activation.queued_ofProgram _ _
  have hdown (hdown : engine.isShutDown = true) {P : Prop} : P := by simp [hup] at hdown
  have hne : engine.queue ++ [.ofProgram engine.nextId program] ≠ [] := by simp
  unfold Engine.push
  split
  · next hstate =>
    refine ⟨⟨fun hnil => absurd hnil hne, fun hrun => by cases hrun⟩, fun hstep => ?_, hids, hlt,
      hqueued, fun hshut => hdown hshut, h.undropped⟩
    have hpaused := h.paused_of_stepPending hstep
    rw [show engine.runState = .stopped from hstate] at hpaused
    cases hpaused
  · next hstate =>
    exact ⟨⟨fun hnil => absurd hnil hne, fun hstop => absurd hstop hstate⟩,
      h.paused_of_stepPending, hids, hlt, hqueued, fun hshut => hdown hshut, h.undropped⟩

/-- An engine stays sound when it keeps its queue and does not start or stop. -/
theorem Sound.of_state (h : engine.Sound) (hframe : Frame engine next)
    (hqueue : next.queue = engine.queue)
    (hstate : next.runState = .stopped ↔ engine.runState = .stopped)
    (hstep : next.stepPending = true → next.runState = .paused)
    (hdown : next.isShutDown = engine.isShutDown) : next.Sound := by
  refine h.of_sublist hframe (hqueue ▸ .refl _) ?_ hstep ?_
  · rw [hqueue, h.queue_eq_nil_iff, hstate]
  · rw [hqueue, hdown]
    exact h.queue_eq_nil_of_shutDown

/-- An engine stays sound when it is emptied and stopped. -/
theorem Sound.of_empty (h : engine.Sound) (hframe : Frame engine next) (hqueue : next.queue = [])
    (hstate : next.runState = .stopped) (hstep : next.stepPending = false) : next.Sound :=
  h.of_sublist hframe (hqueue ▸ List.nil_sublist _) (by simp [hqueue, hstate]) (by simp [hstep])
    (fun _ => hqueue)

/-- Every call keeps an engine sound. -/
theorem Sound.control (h : engine.Sound) {call : Call} (hcontrol : Control engine call next) :
    next.Sound := by
  have hframe := hcontrol.frame
  cases hcontrol with
  | unchanged => exact h
  | queues _ program hup =>
    have hpush := h.push program hup
    exact hpush.of_state .same rfl .rfl hpush.paused_of_stepPending rfl
  | pauses hstate =>
    have hlive : engine.runState ≠ .stopped := by
      rcases hstate with hstate | hstate <;> simp [hstate]
    exact h.of_state hframe rfl (by simp [hlive]) (fun _ => rfl) rfl
  | resumes hstate =>
    exact h.of_state hframe rfl (by simp [hstate]) (fun hstep => by cases hstep) rfl
  | steps hstate => exact h.of_state hframe rfl .rfl (fun _ => hstate) rfl
  | pausesAtLoop | stopsAtLoop | logsIn | logsOut =>
    exact h.of_state hframe rfl .rfl h.paused_of_stepPending rfl
  | stops | shutsDown => exact h.of_empty hframe rfl rfl rfl

/-- Every choice of a command keeps an engine sound. -/
theorem Sound.choice {result : Engine × Job} (h : engine.Sound) (hchoice : Choice engine result) :
    result.1.Sound := by
  have hframe := hchoice.frame
  have hsublist := hchoice.queue_sublist
  have hdown (hdown : engine.isShutDown = true) : engine.dropFinished.queue = [] := by
    simp [dropFinished, h.queue_eq_nil_of_shutDown hdown]
  cases hchoice with
  | shutDown | loggedOut => exact h
  | stopped _ _ hstate =>
    have hnil : engine.dropFinished.queue = [] := by
      simp [dropFinished, h.queue_eq_nil_iff.mpr hstate]
    exact h.of_sublist hframe hsublist (by simp [hnil, hstate]) h.paused_of_stepPending
      (fun _ => hnil)
  | drained | stoppedAtLoop => exact h.of_empty hframe rfl rfl rfl
  | pausedAtLoop _ _ hqueue =>
    exact h.of_sublist hframe hsublist (by simp [hqueue]) (fun _ => rfl) hdown
  | steppedOverLatch _ _ hqueue =>
    exact h.of_sublist hframe hsublist (by simp [hqueue]) (fun _ => rfl) hdown
  | held _ _ hqueue _ hstate =>
    exact h.of_sublist hframe hsublist (by simp [hqueue, hstate]) (fun _ => hstate) hdown
  | stepped _ _ hqueue _ hstate =>
    exact h.of_sublist hframe hsublist (by simp [hqueue, hstate]) (fun _ => hstate) hdown
  | started _ _ hqueue _ hstate =>
    have hne : engine.runState ≠ .stopped := by rcases hstate with hstate | hstate <;> simp [hstate]
    exact h.of_sublist hframe hsublist (by simp [hqueue, hne]) h.paused_of_stepPending
      hdown

/-- Going to sleep keeps an engine sound. -/
theorem Sound.noteAsleep (h : engine.Sound) : engine.noteAsleep.Sound := by
  unfold Engine.noteAsleep
  split
  · next hrun =>
    refine h.of_state .same rfl (by simp [hrun]) (fun hstep => ?_) rfl
    cases (h.paused_of_stepPending hstep).symm.trans hrun
  · exact h

/-- Waking keeps an engine sound. -/
theorem Sound.noteAwake (h : engine.Sound) : engine.noteAwake.Sound := by
  unfold Engine.noteAwake
  split
  · next hrun =>
    refine h.of_state .same rfl (by simp [hrun]) (fun hstep => ?_) rfl
    cases (h.paused_of_stepPending hstep).symm.trans hrun
  · exact h

/-- The front of a sound engine may move on. -/
theorem Sound.replaceFront (h : engine.Sound) {front moved : Activation} {others : List Activation}
    (hqueue : engine.queue = front :: others) (hid : moved.id = front.id)
    (hmoved : moved.Queued engine.settings) : { engine with queue := moved :: others }.Sound := by
  have hne : engine.queue ≠ [] := by simp [hqueue]
  have hstate : engine.runState ≠ .stopped := fun hstop => hne (h.queue_eq_nil_iff.mpr hstop)
  have hids := h.ids_nodup
  rw [hqueue, List.map_cons, ← hid, ← List.map_cons (f := Activation.id)] at hids
  refine ⟨by simp [hstate], h.paused_of_stepPending, hids, ?_, ?_, ?_, h.undropped⟩
  · intro activation hmem
    rcases List.mem_cons.mp hmem with rfl | hmem
    · rw [hid]
      exact h.id_lt front (hqueue ▸ List.mem_cons_self)
    · exact h.id_lt activation (hqueue ▸ List.mem_cons_of_mem _ hmem)
  · intro activation hmem
    rcases List.mem_cons.mp hmem with rfl | hmem
    · exact hmoved
    · exact h.queued activation (hqueue ▸ List.mem_cons_of_mem _ hmem)
  · intro hdown
    exact absurd (h.queue_eq_nil_of_shutDown hdown) hne

/-- A called program may come in front of the queue of a sound engine that is not stopped. -/
theorem Sound.prepend (h : engine.Sound) (hne : engine.queue ≠ []) (program : Program) :
    { engine with
      queue := .ofProgram engine.nextId program :: engine.queue
      nextId := engine.nextId + 1 }.Sound := by
  have hstate : engine.runState ≠ .stopped := fun hstop => hne (h.queue_eq_nil_iff.mpr hstop)
  have hfresh : engine.nextId ∉ engine.queue.map Activation.id := by
    intro hmem
    obtain ⟨activation, hmem, hid⟩ := List.mem_map.mp hmem
    exact Nat.ne_of_lt (h.id_lt activation hmem) hid
  refine ⟨by simp [hstate], h.paused_of_stepPending,
    List.nodup_cons.mpr ⟨hfresh, h.ids_nodup⟩, ?_, ?_, ?_, h.undropped⟩
  · intro activation hmem
    rcases List.mem_cons.mp hmem with rfl | hmem
    · exact Nat.lt_succ_self _
    · exact Nat.lt_succ_of_lt (h.id_lt activation hmem)
  · intro activation hmem
    rcases List.mem_cons.mp hmem with rfl | hmem
    · exact Activation.queued_ofProgram _ _
    · exact h.queued activation hmem
  · intro hdown
    exact absurd (h.queue_eq_nil_of_shutDown hdown) hne

/-- The end of a command keeps an engine sound. -/
theorem Sound.commit (h : engine.Sound) {activation : Activation} {command : Command}
    (hway : activation.UnderWay engine.settings command) (callee : Option Program) :
    (engine.commit activation callee).Sound := by
  obtain ⟨heq, _⟩ | ⟨front, others, hqueue, hid, heq⟩ := commit_cases engine activation callee
  · rw [heq]
    exact h
  have hadvanced : { engine with queue := activation.advance :: others }.Sound :=
    h.replaceFront hqueue hid.symm hway.advance
  rw [heq]
  cases callee with
  | none => exact hadvanced
  | some program => exact hadvanced.prepend (List.cons_ne_nil _ _) program

end Engine

namespace InFlight

variable {engine next : Engine} {flight : InFlight}

/-- What holds of a command under way: its activation is still at the front of the queue, or has
left it for good. -/
structure Sound (engine : Engine) (flight : InFlight) : Prop where
  underWay : flight.activation.UnderWay engine.settings flight.command
  id_lt : flight.activation.id < engine.nextId
  front_or_gone : (∃ front ∈ engine.queue.head?, front.id = flight.activation.id) ∨
    ∀ activation ∈ engine.queue, activation.id ≠ flight.activation.id
  seen_le : flight.seen ≤ engine.signal.count

/-- A command under way stays sound when the queue stays. -/
theorem Sound.of_queue_eq (h : flight.Sound engine) (hframe : engine.Frame next)
    (hqueue : next.queue = engine.queue) : flight.Sound next where
  underWay := by
    rw [hframe.settings_eq]
    exact h.underWay
  id_lt := Nat.lt_of_lt_of_le h.id_lt hframe.nextId_le
  front_or_gone := by
    rw [hqueue]
    exact h.front_or_gone
  seen_le := Nat.le_trans h.seen_le hframe.count_le

/-- Every call keeps a command under way sound. -/
theorem Sound.control (h : flight.Sound engine) {call : Call}
    (hcontrol : engine.Control call next) : flight.Sound next := by
  have hframe := hcontrol.frame
  obtain hqueue | hqueue | ⟨program, _, _, hqueue⟩ := hcontrol.queue_cases
  · exact h.of_queue_eq hframe hqueue
  · refine ⟨hframe.settings_eq ▸ h.underWay, Nat.lt_of_lt_of_le h.id_lt hframe.nextId_le, .inr ?_,
      Nat.le_trans h.seen_le hframe.count_le⟩
    simp [hqueue]
  · refine ⟨hframe.settings_eq ▸ h.underWay, Nat.lt_of_lt_of_le h.id_lt hframe.nextId_le, ?_,
      Nat.le_trans h.seen_le hframe.count_le⟩
    rw [hqueue]
    rcases h.front_or_gone with ⟨front, hfront, hid⟩ | hgone
    · exact .inl ⟨front, by simp [List.head?_append, Option.mem_def.mp hfront], hid⟩
    · right
      intro activation hmem
      rcases List.mem_append.mp hmem with hmem | hmem
      · exact hgone activation hmem
      · rw [List.mem_singleton.mp hmem]
        exact (Nat.ne_of_lt h.id_lt).symm

end InFlight

namespace Machine

variable {σ : Type} {host : Host σ} {machine next : Machine σ}

/-- What holds of every machine that can be reached. -/
structure Sound (machine : Machine σ) : Prop where
  engine : machine.engine.Sound
  suspended_of_waiting : machine.engine.runState = .waiting →
    ∃ flight wakeAt, machine.task = .suspended flight wakeAt
  flight : ∀ flight wakeAt, machine.task = .suspended flight wakeAt → flight.Sound machine.engine

/-- Without a command under way only the engine has to be sound, and not to wait. -/
theorem sound_of_not_suspended (hengine : machine.engine.Sound)
    (hwaiting : machine.engine.runState ≠ .waiting)
    (htask : ∀ flight wakeAt, machine.task ≠ .suspended flight wakeAt) : machine.Sound :=
  ⟨hengine, fun h => absurd h hwaiting, fun flight wakeAt h => absurd h (htask flight wakeAt)⟩

/-- Wherever a piece of a command has led, the machine stays sound. -/
theorem sound_settle (machine : Machine σ) (hengine : machine.engine.Sound)
    (hwaiting : machine.engine.runState ≠ .waiting)
    {flight : InFlight} (hflight : flight.Sound machine.engine) (standing : Standing) :
    (machine.settle host flight.activation flight.command flight.callee flight.seen
      standing).Sound := by
  cases standing with
  | finished =>
    refine sound_of_not_suspended (hengine.commit hflight.underWay flight.callee) ?_
      (by simp [settle])
    obtain ⟨heq, _⟩ | ⟨_, _, _, _, heq⟩ :=
      Engine.commit_cases machine.engine flight.activation flight.callee
    · simpa [settle, heq] using hwaiting
    · simpa [settle, heq] using hwaiting
  | failed failure =>
    exact sound_of_not_suspended hengine.halt (by simp [settle, Engine.halt]) (by simp [settle])
  | asleep ms pause =>
    refine ⟨hengine.noteAsleep, fun _ => ⟨_, _, rfl⟩, fun other wakeAt htask => ?_⟩
    cases htask
    have hsame : InFlight.Sound machine.engine.noteAsleep flight :=
      hflight.of_queue_eq (Engine.frame_noteAsleep _) machine.engine.noteAsleep_queue
    exact ⟨hsame.underWay, hsame.id_lt, hsame.front_or_gone, hsame.seen_le⟩

/-- Starting a command keeps a machine sound. -/
theorem sound_begin (machine : Machine σ) (hengine : machine.engine.Sound)
    (hwaiting : machine.engine.runState ≠ .waiting)
    (htask : machine.task = .ready) {front : Activation} {others : List Activation}
    (hqueue : machine.engine.queue = front :: others) : (machine.begin host front).Sound := by
  cases hcurrent : front.current? with
  | none =>
    have heq : machine.begin host front = machine := by simp only [begin, hcurrent]
    rw [heq]
    exact sound_of_not_suspended hengine hwaiting (by simp [htask])
  | some command =>
    rw [begin_of_current? hcurrent]
    have hmem : front ∈ machine.engine.queue := hqueue ▸ List.mem_cons_self
    have hcourse := Execution.course_start (machine.scope host) command front machine.world
    generalize Execution.start (machine.scope host) command front machine.world = started at hcourse
    let flight : InFlight :=
      ⟨started.activation, command, started.callee, .trailing, machine.engine.signal.count⟩
    have hflight : flight.Sound machine.engine :=
      ⟨(hengine.queued front hmem).underWay hcurrent hcourse,
        hcourse.id_eq ▸ hengine.id_lt front hmem,
        .inl ⟨front, by simp [hqueue], hcourse.id_eq.symm⟩, Nat.le_refl _⟩
    exact sound_settle { machine with world := started.world } hengine hwaiting hflight
      started.standing

/-- Resting changes nothing but who is woken. -/
theorem Sound.rest (hengine : machine.engine.Sound) (hwaiting : machine.engine.runState ≠ .waiting)
    (htask : machine.task = .ready) : (rest machine).Sound := by
  obtain ⟨wake, task, hrest, hawake⟩ := machine.exists_rest_eq htask
  have hquiet : { machine.engine with wake }.Sound :=
    hengine.of_state .same rfl .rfl hengine.paused_of_stepPending rfl
  rw [hrest]
  exact sound_of_not_suspended hquiet hwaiting hawake

/-- A step of the machine keeps it sound. -/
theorem Sound.step (h : machine.Sound) (hstep : Step host machine next) : next.Sound := by
  have hready (htask : machine.task = .ready) : machine.engine.runState ≠ .waiting := by
    intro hwaiting
    obtain ⟨flight, wakeAt, hsuspended⟩ := h.suspended_of_waiting hwaiting
    cases htask.symm.trans hsuspended
  cases hstep with
  | @starts engine front htask hjob =>
    have hchoice := Engine.choice_of_nextJob hjob
    obtain ⟨_, others, _, hqueue⟩ := hchoice.of_run
    exact sound_begin { machine with engine } (h.engine.choice hchoice)
      (fun hw => hready htask (hchoice.waiting hw)) htask hqueue
  | ends htask hjob =>
    have hchoice := Engine.choice_of_nextJob hjob
    exact sound_of_not_suspended (h.engine.choice hchoice)
      (fun hw => hready htask (hchoice.waiting hw)) (by simp)
  | rests htask hjob =>
    have hchoice := Engine.choice_of_nextJob hjob
    exact Sound.rest (h.engine.choice hchoice) (fun hw => hready htask (hchoice.waiting hw)) htask
  | cancels htask =>
    exact sound_of_not_suspended h.engine.noteAwake machine.engine.noteAwake_ne_waiting (by simp)
  | @resumes flight wakeAt htask hlive =>
    rw [wake_of_live hlive]
    have hflight : flight.Sound machine.engine.noteAwake :=
      (h.flight flight wakeAt htask).of_queue_eq (Engine.frame_noteAwake _)
        machine.engine.noteAwake_queue
    exact sound_settle
      { machine with engine := machine.engine.noteAwake, task := .ready, world := _ }
      h.engine.noteAwake machine.engine.noteAwake_ne_waiting hflight _
  | unparks htask hwake =>
    refine sound_of_not_suspended h.engine ?_ (by simp)
    intro hwaiting
    obtain ⟨flight, wakeAt, hsuspended⟩ := h.suspended_of_waiting hwaiting
    cases htask.symm.trans hsuspended

/-- Every move keeps a machine sound. -/
theorem Sound.move {move : Move σ} (h : machine.Sound)
    (hmove : machine.move? host move = some next) : next.Sound := by
  cases move with
  | work => exact h.step (step_of_step? hmove)
  | wait time =>
    cases hmove
    exact ⟨h.engine, h.suspended_of_waiting, h.flight⟩
  | drift state =>
    cases hmove
    exact ⟨h.engine, h.suspended_of_waiting, h.flight⟩
  | call library call =>
    cases hmove
    have hcontrol := machine.engine.control_handle library call
    exact ⟨h.engine.control hcontrol, fun hw => h.suspended_of_waiting (hcontrol.waiting hw),
      fun flight wakeAt htask => (h.flight flight wakeAt htask).control hcontrol⟩
  | launch mode =>
    simp only [move?] at hmove
    split at hmove
    · next htask =>
      cases hmove
      refine sound_of_not_suspended h.engine ?_ (by simp [launch])
      intro hwaiting
      obtain ⟨flight, wakeAt, hsuspended⟩ := h.suspended_of_waiting hwaiting
      cases htask.symm.trans hsuspended
    · cases hmove

/-- Every machine that can be reached is sound, whatever calls came between its steps. -/
theorem sound_of_reachable (h : machine.Reachable host) : machine.Sound := by
  obtain ⟨settings, world, moves, hrun⟩ := h
  refine hrun.keeps (fun move _ => fun hbefore hmove => hbefore.move hmove) ?_
  exact sound_of_not_suspended (Engine.sound_ofSettings settings) (by simp [Engine.ofSettings])
    (by simp)

/-- A machine that waits before it rewinds can be reached, and is sound. -/
theorem sound_of_reachable_rewinding :
    ∃ machine : Machine DryRun, machine.Reachable DryRun.host ∧
      machine.engine.runState = .waiting ∧ machine.Sound := by
  let moves : List (Move DryRun) :=
    [.call {} (.enqueue { name := "twice", contents := "/loop 2" } none), .launch .serving, .work]
  have hfollow : (follow? DryRun.host moves
      { engine := .ofSettings {}, world := { host := {} } }).map (·.engine.runState) =
      some .waiting := by decide +kernel
  obtain ⟨machine, hmachine, hstate⟩ := Option.map_eq_some_iff.mp hfollow
  have hreachable : machine.Reachable DryRun.host := ⟨_, _, moves, run_of_follow? hmachine⟩
  exact ⟨machine, hreachable, hstate, sound_of_reachable hreachable⟩

end Machine

end GameMacros
