import GameMacros.Proofs.Aborting
import GameMacros.Proofs.Callers
import GameMacros.Proofs.NestedLoops
import GameMacros.Proofs.Origins
import GameMacros.Proofs.Tracking

/-!
# Craft gates

A craft gate counts how often its activation may still pass. What remains and the arrivals so far
add up to the count of the gate, wherever the activation is and whatever loops and other gates there
are around it. So the gate lets the activation pass as often as it says, and then ends it for good.
-/

namespace GameMacros

open Execution

/-- What is forgotten at a place is still noted at others. -/
theorem Counters.get?_erase_of_ne {counters : Counters} {place other : Nat} (h : other ≠ place) :
    (counters.erase place).get? other = counters.get? other := by
  have hne : (place == other) = false := by simpa using h.symm
  have hset : (counters.set place 0).get? other = counters.get? other := get?_set_of_ne h
  simpa only [get?, set, List.find?_cons, hne] using hset

namespace Activation

variable {activation : Activation} {place count : Nat}

/-- There is a craft gate with this count at the place. -/
def HasGate (activation : Activation) (place count : Nat) : Prop :=
  ∃ command, activation.commands[place]? = some command ∧ command.kind = .craft count

/-- What remains at a place does not change when something is noted at another one. -/
theorem remaining_setRemaining_of_ne {other : Nat} (h : place ≠ other) :
    (activation.setRemaining other left).remaining place count =
      activation.remaining place count := by
  rw [remaining, remaining, setRemaining, Counters.get?_set_of_ne h]

/-- What remains at a place does not change when another one is forgotten. -/
theorem remaining_forget_of_ne {other : Nat} (h : place ≠ other) :
    (activation.forget other).remaining place count = activation.remaining place count := by
  rw [remaining, remaining, forget, Counters.get?_erase_of_ne h]

end Activation

namespace Execution

variable {σ : Type} {scope : Scope σ} {command : Command} {front : Activation} {world : World σ}
  {begun : Start σ} {count : Nat}

/-- A gate prints what remains, and calls nothing. -/
theorem craft_world (hkind : command.kind = .craft count)
    (hbegun : start scope command front world = begun) :
    begun.world =
        echo scope command (remainder "craft" (front.remaining front.step count)) world ∧
      begun.callee = none := by
  subst hbegun
  simp only [start, hkind]
  unfold craft
  dsimp only
  split <;> exact ⟨rfl, rfl⟩

/-- A gate at which something remains lets the activation pass, and waits as its line says. -/
theorem craft_of_pos (hkind : command.kind = .craft count)
    (hbegun : start scope command front world = begun) {left : Nat}
    (h : front.remaining front.step count = left + 1) :
    begun.activation = front.setRemaining front.step left ∧
      begun.standing = trailingWait scope command begun.world := by
  subst hbegun
  simp only [start, hkind, craft, h, Nat.succ_ne_zero, if_false, Nat.add_sub_cancel, and_self]

/-- A gate at which nothing remains ends the activation at once. -/
theorem craft_of_zero (hkind : command.kind = .craft count)
    (hbegun : start scope command front world = begun)
    (h : front.remaining front.step count = 0) :
    begun.activation = (front.forget front.step).finish ∧ begun.standing = .finished := by
  subst hbegun
  simp only [start, hkind, craft, h, if_true, and_self]

/-- A command takes one from what remains at its own gate, and nothing from the others, unless it
ends the activation. -/
theorem remaining_start (hcurrent : front.current? = some command)
    (hbegun : start scope command front world = begun) (hgoes : begun.activation.finished = false)
    {place : Nat} (hgate : front.HasGate place count) :
    begun.activation.remaining place count + (if place = front.step then 1 else 0) =
      front.remaining place count := by
  obtain ⟨gate, hplace, hkind⟩ := hgate
  by_cases hhere : place = front.step
  · subst hhere
    cases hplace.symm.trans (Activation.current?_eq_some hcurrent).2
    cases hleft : front.remaining front.step count with
    | zero =>
      rw [(craft_of_zero hkind hbegun hleft).1] at hgoes
      cases hgoes
    | succ left =>
      rw [(craft_of_pos hkind hbegun hleft).1, if_pos rfl]
      exact congrArg (· + 1) (Counters.remaining_set_self front.counters front.step left count)
  · -- Another gate is left alone, because no two commands count at the same place.
    rw [if_neg hhere, Nat.add_zero]
    have hcourse := course_of_start_eq hbegun
    generalize begun.activation = later at hgoes hcourse
    cases hcourse with
    | straight | rewinds => rfl
    | repeats | passes => exact Activation.remaining_setRemaining_of_ne hhere
    | runsOut => exact Activation.remaining_forget_of_ne hhere
    | ends => cases hgoes

end Execution

namespace Machine

variable {σ : Type} {host : Host σ} {machine next last : Machine σ} {moves : List (Move σ)}
  {tally : Nat → Nat → Nat}

/-! ## Arrivals -/

/-- The command starts at this place of this activation. -/
def Beginning.isAt (id place : Nat) (beginning : Beginning) : Bool :=
  beginning.id == id && beginning.place == place

/-- Given how often commands have started at each place of each activation, what remains at a gate
is the rest of its count. -/
structure Tallied (tally : Nat → Nat → Nat) (machine : Machine σ) : Prop where
  fresh : ∀ id place, machine.engine.nextId ≤ id → tally id place = 0
  gates : ∀ activation wakeTime?, machine.Has activation wakeTime? →
    activation.finished = false → ∀ place count, activation.HasGate place count →
      activation.remaining place count + tally activation.id place = count

/-- How often a command starts in the move at this place of this activation. -/
def arrivals (machine : Machine σ) (move : Move σ) (id place : Nat) : Nat :=
  (beginning? (machine, move)).toList.countP (Beginning.isAt id place)

/-- A command that starts is counted where it starts, and nowhere else. -/
theorem arrivals_of_starting? {front : Activation} (h : machine.starting? = some front)
    (id place : Nat) :
    machine.arrivals .work id place = if front.id = id ∧ front.step = place then 1 else 0 := by
  simp [arrivals, beginning?, h, Beginning.isAt, List.countP_cons]

/-- Where no command of the activation starts, none is counted. -/
theorem arrivals_eq_zero {move : Move σ} {id : Nat} (place : Nat)
    (h : ∀ front, move = .work → machine.starting? = some front → front.id ≠ id) :
    machine.arrivals move id place = 0 := by
  unfold arrivals
  cases hbegins : beginning? (machine, move) with
  | none => rfl
  | some beginning =>
    obtain ⟨hmove, front, hstarting, rfl⟩ := exists_starting? hbegins
    simp [Beginning.isAt, h front hmove hstarting]

/-- While a command is under way, no other one starts. -/
theorem starting?_of_has {activation : Activation} {wakeAt : Nat}
    (h : machine.Has activation (some wakeAt)) : machine.starting? = none := by
  cases h with
  | executing htask => simp only [starting?, htask]

/-- A command that starts leaves what remains at the gates of its activation in accordance with the
arrivals. -/
theorem Tallied.gate_start (h : machine.Tallied tally) {front : Activation} {command : Command}
    {begun : Start σ} (hstarting : machine.starting? = some front)
    (hcurrent : front.current? = some command)
    (hbegun : start (machine.scope host) command front machine.world = begun)
    (hgoes : begun.activation.finished = false) {place count : Nat}
    (hgate : begun.activation.HasGate place count) :
    begun.activation.remaining place count + (tally begun.activation.id place +
      machine.arrivals .work begun.activation.id place) = count := by
  have hcourse := course_of_start_eq hbegun
  have hcommands : begun.activation.commands = front.commands :=
    congrArg Program.commands hcourse.program_eq
  have hfront : front.HasGate place count := by
    rwa [Activation.HasGate, ← hcommands]
  have hbefore := h.gates front none (has_of_starting? hstarting)
    (Activation.current?_eq_some hcurrent).1 place count hfront
  have htaken := remaining_start hcurrent hbegun hgoes hfront
  have hcounted : machine.arrivals .work front.id place = if place = front.step then 1 else 0 := by
    simp only [arrivals_of_starting? hstarting, true_and, eq_comm]
  rw [hcourse.id_eq, hcounted]
  omega

/-- What remains at the gates stays in accordance with the arrivals. -/
theorem Tallied.move (h : machine.Tallied tally) (hmachine : machine.Reachable host)
    {move : Move σ} (hmove : machine.move? host move = some next) :
    next.Tallied fun id place => tally id place + machine.arrivals move id place := by
  have hsound := sound_of_reachable hmachine
  have hframe := (proceeds_of_move? hmove).frame
  have hnone {id : Nat} (place : Nat) (hid : machine.engine.nextId ≤ id) :
      machine.arrivals move id place = 0 := by
    apply arrivals_eq_zero
    rintro front _ hstarting rfl
    have hlt := (has_of_starting? hstarting).id_lt hsound
    omega
  refine ⟨fun id place hid => ?_, fun activation wakeTime? hhas hgoes place count hgate => ?_⟩
  · have hold := Nat.le_trans hframe.nextId_le hid
    rw [h.fresh id place hold, hnone place hold]
  -- Only a command that starts takes from what remains, and that is when it is counted.
  cases comes_of_move? hmachine hmove hhas with
  | stays hstays hother =>
    rw [arrivals_eq_zero place hother, Nat.add_zero]
    exact h.gates activation wakeTime? hstays hgoes place count hgate
  | fresh hid program =>
    have hnew : tally (Activation.ofProgram _ program).id place = 0 := h.fresh _ place hid
    have hnow : machine.arrivals move (Activation.ofProgram _ program).id place = 0 :=
      hnone place hid
    rw [hnew, hnow]
    rfl
  | passes hwork hstarting hcurrent hbegun =>
    subst hwork
    exact h.gate_start hstarting hcurrent hbegun hgoes hgate
  | begins hwork hstarting hcurrent hbegun =>
    subst hwork
    exact h.gate_start hstarting hcurrent hbegun hgoes hgate
  | goesOn _ hasleep =>
    rw [arrivals_eq_zero place (by simp [starting?_of_has hasleep]), Nat.add_zero]
    exact h.gates activation _ hasleep hgoes place count hgate
  | @ends earlier wakeAt _ hasleep =>
    rw [arrivals_eq_zero place (by simp [starting?_of_has hasleep]), Nat.add_zero]
    exact h.gates earlier _ hasleep hgoes place count hgate

/-- The activation is over: if the machine still has it, it rests and is finished. -/
structure Over (id : Nat) (machine : Machine σ) : Prop where
  id_lt : id < machine.engine.nextId
  finished : ∀ activation wakeTime?, machine.Has activation wakeTime? → activation.id = id →
    wakeTime? = none ∧ activation.isFinished = true

/-- No command starts for what is finished. -/
theorem isFinished_of_starting? {front : Activation} (h : machine.starting? = some front) :
    front.isFinished = false := by
  obtain ⟨_, engine, hjob⟩ := nextJob_of_starting? h
  exact (Engine.choice_of_nextJob hjob).of_run.1

/-- For an activation that is over no command starts. -/
theorem Over.id_ne {id : Nat} (h : machine.Over id) {front : Activation}
    (hstarting : machine.starting? = some front) : front.id ≠ id := by
  intro heq
  have hfinished := (h.finished front none (has_of_starting? hstarting) heq).2
  cases (isFinished_of_starting? hstarting).symm.trans hfinished

/-- What is over stays over. -/
theorem Over.move {id : Nat} (h : machine.Over id) (hmachine : machine.Reachable host)
    {move : Move σ} (hmove : machine.move? host move = some next) : next.Over id := by
  refine ⟨Nat.lt_of_lt_of_le h.id_lt (proceeds_of_move? hmove).frame.nextId_le, ?_⟩
  intro activation wakeTime? hhas hid
  cases comes_of_move? hmachine hmove hhas with
  | stays hstays => exact h.finished activation wakeTime? hstays hid
  | fresh hfresh => exact absurd hid (Nat.ne_of_gt (Nat.lt_of_lt_of_le h.id_lt hfresh))
  | passes _ hstarting _ hbegun =>
    exact absurd ((course_of_start_eq hbegun).id_eq.symm.trans hid) (h.id_ne hstarting)
  | begins _ hstarting _ hbegun =>
    exact absurd ((course_of_start_eq hbegun).id_eq.symm.trans hid) (h.id_ne hstarting)
  | goesOn _ hasleep => cases (h.finished activation _ hasleep hid).1
  | @ends earlier wakeAt _ hasleep => cases (h.finished earlier _ hasleep hid).1

/-- The step in which a command starts. -/
theorem exists_settle_of_starting? {front : Activation} {command : Command} {begun : Start σ}
    (hstarting : machine.starting? = some front) (hcurrent : front.current? = some command)
    (hbegun : start (machine.scope host) command front machine.world = begun) :
    ∃ engine others, machine.engine.Choice (engine, .run front) ∧
      machine.engine.dropFinished.queue = front :: others ∧ engine.queue = front :: others ∧
      machine.step? host = some (settle { machine with engine, world := begun.world } host
        begun.activation command begun.callee engine.signal.count begun.standing) := by
  obtain ⟨htask, engine, hjob⟩ := nextJob_of_starting? hstarting
  have hchoice := Engine.choice_of_nextJob hjob
  have hframe : machine.engine.Frame engine := hchoice.frame
  obtain ⟨_, others, hdropped, hqueue⟩ := hchoice.of_run
  have hscope : ({ machine with engine } : Machine σ).scope host = machine.scope host :=
    scope_eq_of_frame hframe
  refine ⟨engine, others, hchoice, hdropped, hqueue, ?_⟩
  rw [← hbegun, ← hscope]
  simp only [step?, htask, choose, hjob, begin_of_current? hcurrent]

end Machine

end GameMacros
