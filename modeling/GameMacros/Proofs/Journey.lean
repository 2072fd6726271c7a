import GameMacros.Proofs.Refinement

/-!
# Journeys through a macro

An evaluation is about a macro that comes to its end. A journey is a part of it: it leads from one
place in the macro to another, one command after the other, also in a macro that never ends. Each
command on the way is a visit. What holds of every journey of some length is proved by following its
visits; what the engine executes is then read off the journey.
-/

namespace GameMacros

open Execution

variable {σ : Type} {scope : Scope σ} {program : Program}

/-- What is read is compared without the error that there could have been. -/
theorem eq_ok_of_toOption {ε α : Type} {result : Except ε α} {value : α}
    (h : result.toOption = some value) : result = .ok value := by
  cases result with
  | error error => cases h
  | ok found => exact congrArg Except.ok (Option.some.inj h)

/-- A command that does not steer is no loop and no craft gate. -/
theorem Command.isLoopBoundary_of_not_steers {command : Command} (h : command.steers = false) :
    command.isLoopBoundary = false := by
  unfold steers at h
  unfold isLoopBoundary
  cases hkind : command.kind <;> simp [hkind] at h ⊢

/-- What is noted at a place is found there. -/
theorem Counters.remaining_set_self (counters : Counters) (place left initial : Nat) :
    (counters.set place left).remaining place initial = left := by
  simp [remaining, get?, set]

/-- Where a macro stands: the place of its next command, what remains of its loops and craft gates,
and the world. -/
structure Spot (σ : Type) where
  place : Nat
  counters : Counters
  world : World σ

/-- The beginning of a macro. -/
def Spot.first (world : World σ) : Spot σ where
  place := 0
  counters := []
  world

/-- A command that is executed: its place, what remained of its loop or craft gate, the world before
and after it, and the commands of the macro that it called. -/
structure Visit (σ : Type) where
  place : Nat
  command : Command
  left : Nat := 0
  before : World σ
  after : World σ
  calls : List Occurrence := []

/-- The commands that are executed in a visit, in a macro with this name. -/
def Visit.log (name : String) (visit : Visit σ) : List Occurrence :=
  ⟨name, visit.place, visit.command, visit.before.now⟩ :: visit.calls

/-- A command that is no loop and no craft gate succeeds. A call succeeds when the macro that is
called comes to its end. -/
inductive Command.Succeeds (scope : Scope σ) (command : Command) (before : World σ) :
    World σ → List Occurrence → Prop
  | plain {after : World σ} (hplain : command.steers = false)
      (hafter : carryOut scope command before = (after, none)) :
      Succeeds scope command before after []
  | calls {after : World σ} {name : String} {saved : SavedMacro} {callee : Program}
      {log : List Occurrence} (hkind : command.kind = .runMacro name)
      (hsaved : before.ask scope.host.findMacro name = .ok saved)
      (hcallee : saved.program scope.settings scope.reader none = .ok callee)
      (hinner : Evaluates scope callee 0 [] (rested scope command before) log after) :
      Succeeds scope command before after log

/-- The world after a loop that rewinds, with what it says. -/
def rewound (scope : Scope σ) (command : Command) (message : String) (world : World σ) : World σ :=
  rested scope command ((echo scope command message world).sleep rewindPause)

/-- One command leads from one spot to the next. A craft gate with no passes left ends its macro and
leads nowhere. -/
inductive Passes (scope : Scope σ) (program : Program) (spot : Spot σ) : Visit σ → Spot σ → Prop
  | succeeds {command : Command} {after : World σ} {calls : List Occurrence}
      (hcommand : program.commands[spot.place]? = some command)
      (hsucceeds : command.Succeeds scope spot.world after calls) :
      Passes scope program spot
        { place := spot.place, command, before := spot.world, after, calls }
        ⟨spot.place + 1, spot.counters, after⟩
  | loopsForever {command : Command} (hcommand : program.commands[spot.place]? = some command)
      (hkind : command.kind = .loop none) :
      Passes scope program spot
        { place := spot.place
          command
          before := spot.world
          after := rewound scope command "Looping" spot.world }
        ⟨0, spot.counters, rewound scope command "Looping" spot.world⟩
  | loops {command : Command} {count left : Nat}
      (hcommand : program.commands[spot.place]? = some command)
      (hkind : command.kind = .loop (some count))
      (hleft : spot.counters.remaining spot.place (initialRepeats scope.settings count) =
        left + 1) :
      Passes scope program spot
        { place := spot.place
          command
          left := left + 1
          before := spot.world
          after := rewound scope command (remainder "loop" (left + 1)) spot.world }
        ⟨0, spot.counters.set spot.place left,
          rewound scope command (remainder "loop" (left + 1)) spot.world⟩
  | leavesLoop {command : Command} {count : Nat}
      (hcommand : program.commands[spot.place]? = some command)
      (hkind : command.kind = .loop (some count))
      (hleft : spot.counters.remaining spot.place (initialRepeats scope.settings count) = 0) :
      Passes scope program spot
        { place := spot.place
          command
          before := spot.world
          after := echo scope command (remainder "loop" 0) spot.world }
        ⟨spot.place + 1, spot.counters.erase spot.place,
          echo scope command (remainder "loop" 0) spot.world⟩
  | passesGate {command : Command} {count left : Nat}
      (hcommand : program.commands[spot.place]? = some command)
      (hkind : command.kind = .craft count)
      (hleft : spot.counters.remaining spot.place count = left + 1) :
      Passes scope program spot
        { place := spot.place
          command
          left := left + 1
          before := spot.world
          after := rested scope command
            (echo scope command (remainder "craft" (left + 1)) spot.world) }
        ⟨spot.place + 1, spot.counters.set spot.place left,
          rested scope command (echo scope command (remainder "craft" (left + 1)) spot.world)⟩

/-- One visit after the other leads from a spot to another one. -/
inductive Journey (scope : Scope σ) (program : Program) : Spot σ → List (Visit σ) → Spot σ → Prop
  | nil (spot : Spot σ) : Journey scope program spot [] spot
  | cons {spot next last : Spot σ} {visit : Visit σ} {visits : List (Visit σ)}
      (hfirst : Passes scope program spot visit next)
      (hrest : Journey scope program next visits last) :
      Journey scope program spot (visit :: visits) last

/-- Whenever a journey from a spot comes to a command that is no loop and no craft gate, the command
succeeds. -/
def Spot.Clear (scope : Scope σ) (program : Program) (spot : Spot σ) : Prop :=
  ∀ visits next command, Journey scope program spot visits next →
    program.commands[next.place]? = some command → command.isLoopBoundary = false →
    ∃ after calls, command.Succeeds scope next.world after calls

namespace Journey

variable {spot middle last : Spot σ} {visits more : List (Visit σ)}

/-- A visit is a journey. -/
theorem single {visit : Visit σ} (h : Passes scope program spot visit last) :
    Journey scope program spot [visit] last :=
  .cons h (.nil last)

/-- A journey after a journey is a journey. -/
theorem append (h : Journey scope program spot visits middle)
    (h' : Journey scope program middle more last) :
    Journey scope program spot (visits ++ more) last := by
  induction h with
  | nil => exact h'
  | cons hfirst _ ih => exact .cons hfirst (ih h')

/-- What a journey visits is visited from some spot of it. -/
theorem exists_passes (h : Journey scope program spot visits last) :
    ∀ visit ∈ visits, ∃ before after, Passes scope program before visit after := by
  induction h with
  | nil => simp
  | cons hfirst _ ih => exact List.forall_mem_cons.mpr ⟨⟨_, _, hfirst⟩, ih⟩

/-- The rest of a way that is clear is clear. -/
theorem clear (h : Journey scope program spot visits middle) (hclear : spot.Clear scope program) :
    middle.Clear scope program :=
  fun _ next command hrest hcommand hplain =>
    hclear _ next command (h.append hrest) hcommand hplain

/-- Commands that do not steer are executed one after the other. -/
theorem straight {segment : List Command} {front back : List Command} {counters : Counters}
    {world : World σ} (hprogram : program.commands = front ++ segment ++ back)
    (hplain : ∀ command ∈ segment, command.steers = false)
    (hclear : Spot.Clear scope program ⟨front.length, counters, world⟩) :
    ∃ visits after,
      Journey scope program ⟨front.length, counters, world⟩ visits
        ⟨front.length + segment.length, counters, after⟩ ∧
      (visits.flatMap (Visit.log program.name)).map Occurrence.command = segment := by
  induction segment generalizing front world with
  | nil => exact ⟨[], world, .nil _, rfl⟩
  | cons command segment ih =>
    obtain ⟨hsteers, hothers⟩ := List.forall_mem_cons.mp hplain
    have hcommand : program.commands[front.length]? = some command := by
      rw [hprogram, List.append_assoc, List.getElem?_append_right (Nat.le_refl _), Nat.sub_self]
      rfl
    obtain ⟨after, calls, hsucceeds⟩ :=
      hclear [] _ command (.nil _) hcommand (Command.isLoopBoundary_of_not_steers hsteers)
    have hfirst := single (.succeeds hcommand hsucceeds)
    have hnone : calls = [] := by
      cases hsucceeds with
      | plain => rfl
      | calls hkind => simp [Command.steers, hkind] at hsteers
    have hmoved : program.commands = (front ++ [command]) ++ segment ++ back := by
      rw [hprogram, List.append_assoc front [command] segment, List.singleton_append]
    have hlength : (front ++ [command]).length = front.length + 1 := by simp
    have hlater : Spot.Clear scope program ⟨(front ++ [command]).length, counters, after⟩ := by
      rw [hlength]
      exact hfirst.clear hclear
    obtain ⟨visits, last, hrest, hlog⟩ := ih hmoved hothers hlater
    rw [hlength, Nat.add_assoc, Nat.add_comm 1] at hrest
    refine ⟨_ :: visits, last, hfirst.append hrest, ?_⟩
    rw [List.flatMap_cons, List.map_append, hlog, hnone]
    rfl

end Journey

namespace Machine

variable {machine : Machine σ} {id : Nat} {others : List Activation} {spot next : Spot σ}
  {visits : List (Visit σ)}

/-- A machine that is poised for a macro makes the visit that comes next. -/
theorem Poised.visit {visit : Visit σ}
    (h : machine.Poised scope spot.world (.placed id program spot.place spot.counters :: others))
    (hvisit : Passes scope program spot visit next) :
    ∃ reached, Works scope.host machine (visit.log program.name) reached ∧
      reached.Poised scope next.world (.placed id program next.place next.counters :: others) := by
  cases hvisit with
  | succeeds hcommand hsucceeds =>
    cases hsucceeds with
    | plain hplain hafter => exact h.plain hcommand hplain hafter
    | calls hkind hsaved hcallee hinner =>
      obtain ⟨middle, _, hfirst, hmiddle⟩ :=
        h.command hcommand (start_runMacro hkind hsaved hcallee) (leads_trailingWait _)
      obtain ⟨reached, hworks, hreached⟩ := hmiddle.evaluates hinner
      exact ⟨reached, hfirst.trans hworks, hreached⟩
  | loopsForever hcommand hkind =>
    obtain ⟨reached, _, hworks, hreached⟩ :=
      h.command hcommand (start_loop_none hkind) (leads_rewind _)
    exact ⟨reached, hworks, hreached⟩
  | loops hcommand hkind hleft =>
    obtain ⟨reached, _, hworks, hreached⟩ :=
      h.command hcommand (start_loop_succ hkind hleft) (leads_rewind _)
    exact ⟨reached, hworks, hreached⟩
  | leavesLoop hcommand hkind hleft =>
    obtain ⟨reached, _, hworks, hreached⟩ :=
      h.command hcommand (start_loop_zero hkind hleft) (.finished _)
    exact ⟨reached, hworks, hreached⟩
  | passesGate hcommand hkind hleft =>
    obtain ⟨reached, _, hworks, hreached⟩ :=
      h.command hcommand (start_craft_succ hkind hleft) (leads_trailingWait _)
    exact ⟨reached, hworks, hreached⟩

/-- A machine that is poised for a macro makes every journey through it. -/
theorem Poised.journey
    (h : machine.Poised scope spot.world (.placed id program spot.place spot.counters :: others))
    (hjourney : Journey scope program spot visits next) :
    ∃ reached, Works scope.host machine (visits.flatMap (Visit.log program.name)) reached ∧
      reached.Poised scope next.world (.placed id program next.place next.counters :: others) := by
  induction hjourney generalizing machine with
  | nil => exact ⟨machine, works_refl machine, h⟩
  | cons hfirst _ ih =>
    obtain ⟨middle, hworks, hmiddle⟩ := h.visit hfirst
    obtain ⟨reached, hrest, hreached⟩ := ih hmiddle
    exact ⟨reached, hworks.trans hrest, hreached⟩

/-- A machine that is poised for a craft gate with no passes left is done with the macro. -/
theorem Poised.endsAtGate {command : Command} {count : Nat}
    (h : machine.Poised scope spot.world (.placed id program spot.place spot.counters :: others))
    (hcommand : program.commands[spot.place]? = some command) (hkind : command.kind = .craft count)
    (hleft : spot.counters.remaining spot.place count = 0) :
    ∃ reached,
      Works scope.host machine [⟨program.name, spot.place, command, spot.world.now⟩] reached ∧
        reached.Poised scope (echo scope command (remainder "craft" 0) spot.world) others := by
  obtain ⟨reached, _, hworks, hreached⟩ :=
    h.command hcommand (start_craft_zero hkind hleft) (.finished _)
  exact ⟨reached, hworks, hreached.skip rfl⟩

/-- A new engine with a macro in its queue can be reached. -/
theorem reachable_push {host : Host σ} {settings : Settings} {saved : SavedMacro}
    (world : World σ) (h : saved.program settings (.ofSettings settings) none = .ok program) :
    ({ engine := ((Engine.ofSettings settings).push program).notify, world } :
      Machine σ).Reachable host := by
  let start : Machine σ := { engine := .ofSettings settings, world }
  have hqueued : start.engine.enqueue saved none =
      .ok ((Engine.ofSettings settings).push program).notify := by
    have hread : saved.program start.engine.settings start.engine.reader none = .ok program := h
    simp only [Engine.enqueue, hread]
    rfl
  have hmove : start.move? host (.call {} (.enqueue saved none)) = some _ := rfl
  simp only [handle, Engine.handle, hqueued] at hmove
  exact ⟨settings, world, _, .cons hmove (.nil _)⟩

/-- Launched with nothing in the way, a machine is poised for a macro that is all that is queued. -/
theorem poised_launch {host : Host σ} (hengine : machine.engine.Unhindered)
    (hqueue : machine.engine.queue = [.ofProgram id program]) :
    (machine.launch .untilIdle).Poised (machine.scope host) machine.world
      [.placed id program 0 []] := by
  refine ⟨rfl, rfl, hengine, rfl, rfl, ?_⟩
  change machine.engine.queue.dropWhile Activation.isFinished = _
  rw [hqueue]
  rfl

/-- Executing the queue until there is nothing to do comes to an end when the machine is left with
nothing to do. -/
theorem Works.runs {last : World σ} {log : List Occurrence} {reached : Machine σ}
    (h : Works scope.host (machine.launch .untilIdle) log reached)
    (hreached : reached.Poised scope last []) (library : Library) :
    ∃ moves final,
      runUntilIdle? scope.host library (moves + 1) [] machine = some (final, []) ∧
        drive scope.host moves (machine.launch .untilIdle) = final ∧
        history scope.host moves (machine.launch .untilIdle) = log ∧
        final.world = last ∧ final.engine.queue = [] ∧ final.engine.runState = .stopped := by
  obtain ⟨final, ⟨moves, hdrive, hhistory⟩, hrest, hworld, hempty, hstate⟩ := h.ends hreached
  subst hdrive
  exact ⟨moves, _, run?_of_drive hrest, rfl, hhistory, hworld, hempty, hstate⟩

/-- Launched with nothing in the way for a macro that is all that is queued, a machine that makes a
journey to the end of the macro is at rest soon, with an empty queue. -/
theorem run_of_journey {host : Host σ} (library : Library) {counters : Counters} {last : World σ}
    (hengine : machine.engine.Unhindered) (hqueue : machine.engine.queue = [.ofProgram id program])
    (hjourney : Journey (machine.scope host) program (.first machine.world) visits
      ⟨program.commands.length, counters, last⟩) :
    ∃ moves final,
      runUntilIdle? host library (moves + 1) [] machine = some (final, []) ∧
        drive host moves (machine.launch .untilIdle) = final ∧
        history host moves (machine.launch .untilIdle) =
          visits.flatMap (Visit.log program.name) ∧
        final.world = last ∧ final.engine.queue = [] ∧ final.engine.runState = .stopped := by
  obtain ⟨reached, hworks, hreached⟩ := (poised_launch hengine hqueue).journey hjourney
  exact hworks.runs (hreached.skip (by simp [Activation.isFinished_placed])) library

end Machine

end GameMacros
