import GameMacros.Proofs.Journey
import GameMacros.Proofs.Wrapping

/-!
# Craft loops

A craft loop with a count executes its macro exactly as often as the count says, wherever its gate
stands: at the top it lets as many passes through as there are crafts, and after the body one less.
Without an end, it starts over after each round. The rounds are followed as journeys; the gate's
counter is what the induction is on.
-/

namespace GameMacros

open Execution

variable {σ : Type} {scope : Scope σ} {program : Program}

/-! ## What is executed -/

/-- The commands of a log that are no loops and no craft gates. -/
def executed (log : List Occurrence) : List Command :=
  (log.map Occurrence.command).filter fun command => !command.isLoopBoundary

/-- What is executed in one log after the other. -/
theorem executed_append (log more : List Occurrence) :
    executed (log ++ more) = executed log ++ executed more := by
  rw [executed, List.map_append, List.filter_append]
  rfl

/-- Loops and craft gates do not count. -/
theorem executed_of_boundary {occurrence : Occurrence}
    (h : occurrence.command.isLoopBoundary = true) : executed [occurrence] = [] := by
  simp [executed, h]

/-- The commands that lead to the synthesis window do not steer. -/
theorem CraftLoop.OpensSynthesis.not_steers {steps : List Command} (h : OpensSynthesis steps) :
    ∀ command ∈ steps, command.steers = false := by
  intro command hcommand
  have hkind : command.kind ∈ steps.map Command.kind := List.mem_map_of_mem hcommand
  rw [h] at hkind
  simp only [List.mem_cons, List.not_mem_nil, or_false] at hkind
  obtain hkind | hkind | hkind := hkind <;> simp only [Command.steers, hkind]

/-- A craft loop without an end has no gate. -/
theorem CraftLoop.Layout.not_gate {steps body commands : List Command} {fromCraftingLog : Bool}
    {count : Int} (h : Layout steps body fromCraftingLog count commands) (hnegative : count < 0)
    (hsteps : ∀ command ∈ steps, command.steers = false)
    (hbody : ∀ command ∈ body, command.steers = false) :
    ∀ command ∈ commands, ∀ passes, command.kind ≠ .craft passes := by
  have hplain {commands : List Command} (h : ∀ command ∈ commands, command.steers = false) :
      ∀ command ∈ commands, ∀ passes, command.kind ≠ .craft passes := by
    intro command hcommand passes hkind
    have hsteers := h command hcommand
    simp [Command.steers, hkind] at hsteers
  cases h with
  | endless _ hloop =>
    rw [List.forall_mem_append, List.forall_mem_singleton]
    refine ⟨?_, by simp [hloop]⟩
    unfold endlessRound
    split
    · exact List.forall_mem_append.mpr ⟨hplain hsteps, hplain hbody⟩
    · exact List.forall_mem_append.mpr ⟨hplain hbody, hplain hsteps⟩
  | single | gateAtTop | gateAfterBody => omega

namespace Journey

variable {front back : List Command} {gate loop : Command}

/-- Commands that do not steer are executed one after the other. -/
theorem segment {segment : List Command} {place next : Nat} {counters : Counters} {world : World σ}
    (hprogram : program.commands = front ++ segment ++ back) (hplace : front.length = place)
    (hnext : place + segment.length = next) (hplain : ∀ command ∈ segment, command.steers = false)
    (hclear : Spot.Clear scope program ⟨place, counters, world⟩) :
    ∃ visits after, Journey scope program ⟨place, counters, world⟩ visits ⟨next, counters, after⟩ ∧
      executed (visits.flatMap (Visit.log program.name)) = segment := by
  subst hplace hnext
  obtain ⟨visits, after, hjourney, hlog⟩ := straight hprogram hplain hclear
  refine ⟨visits, after, hjourney, ?_⟩
  rw [executed, hlog, List.filter_eq_self]
  intro command hcommand
  rw [Command.isLoopBoundary_of_not_steers (hplain command hcommand)]
  rfl

/-- A gate lets its passes through, one in each round, and then it is spent. The induction is on
what remains of it. -/
theorem to_spent_gate {passes : Nat}
    (hprogram : program.commands = front ++ gate :: back ++ [loop])
    (hfront : ∀ command ∈ front, command.steers = false)
    (hback : ∀ command ∈ back, command.steers = false) (hgate : gate.kind = .craft passes)
    (hloop : loop.kind = .loop none) (left : Nat) {counters : Counters} {world : World σ}
    (hleft : counters.remaining front.length passes = left)
    (hclear : Spot.Clear scope program ⟨0, counters, world⟩) :
    ∃ visits spent after,
      Journey scope program ⟨0, counters, world⟩ visits ⟨front.length, spent, after⟩ ∧
      spent.remaining front.length passes = 0 ∧
      executed (visits.flatMap (Visit.log program.name)) =
        front ++ (List.replicate left (back ++ front)).flatten := by
  have hbefore : program.commands = [] ++ front ++ (gate :: back ++ [loop]) := by
    rw [hprogram, List.nil_append, List.append_assoc]
  have hafter : program.commands = (front ++ [gate]) ++ back ++ [loop] := by
    simp [hprogram]
  have hgateCommand : program.commands[front.length]? = some gate := by
    simp [hprogram]
  have hloopCommand : program.commands[front.length + 1 + back.length]? = some loop := by
    have hlength : (front ++ [gate] ++ back).length = front.length + 1 + back.length := by
      simp only [List.length_append, List.length_singleton]
    rw [hafter, ← hlength, List.getElem?_concat_length]
  have hgateBoundary : gate.isLoopBoundary = true := by simp [Command.isLoopBoundary, hgate]
  have hloopBoundary : loop.isLoopBoundary = true := by simp [Command.isLoopBoundary, hloop]
  have hway {counters : Counters} {world : World σ}
      (hclear : Spot.Clear scope program ⟨0, counters, world⟩) :=
    segment hbefore rfl (Nat.zero_add _) hfront hclear
  induction left generalizing counters world with
  | zero =>
    obtain ⟨visits, atGate, hvisits, hexecuted⟩ := hway hclear
    exact ⟨visits, counters, atGate, hvisits, hleft, by simp [hexecuted]⟩
  | succ left ih =>
    obtain ⟨visits, atGate, hvisits, hexecuted⟩ := hway hclear
    have hpass := hvisits.append (.single (.passesGate hgateCommand hgate hleft))
    obtain ⟨others, atLoop, hothers, hexecutedOthers⟩ :=
      segment hafter List.length_append rfl hback (hpass.clear hclear)
    -- The loop goes back to the first command, where the gate has one pass less.
    have hround := (hpass.append hothers).append (.single (.loopsForever hloopCommand hloop))
    obtain ⟨later, spent, after, hlater, hspent, hexecutedLater⟩ :=
      ih (counters.remaining_set_self front.length left passes) (hround.clear hclear)
    refine ⟨_, spent, after, hround.append hlater, hspent, ?_⟩
    simp only [List.flatMap_append, List.flatMap_singleton, executed_append, Visit.log, hexecuted,
      hexecutedOthers, hexecutedLater, executed_of_boundary, hgateBoundary, hloopBoundary,
      List.replicate_succ, List.flatten_cons, List.nil_append, List.append_assoc]

/-- A macro that ends with a loop without a count goes through round after round. -/
theorem rounds {round : List Command} (hprogram : program.commands = round ++ [loop])
    (hround : ∀ command ∈ round, command.steers = false) (hloop : loop.kind = .loop none)
    (count : Nat) {counters : Counters} {world : World σ}
    (hclear : Spot.Clear scope program ⟨0, counters, world⟩) :
    ∃ visits after, Journey scope program ⟨0, counters, world⟩ visits ⟨0, counters, after⟩ ∧
      executed (visits.flatMap (Visit.log program.name)) = (List.replicate count round).flatten ∧
      count ≤ (visits.flatMap (Visit.log program.name)).length := by
  have hbefore : program.commands = [] ++ round ++ [loop] := hprogram
  have hloopCommand : program.commands[round.length]? = some loop := by
    rw [hprogram, List.getElem?_concat_length]
  have hloopBoundary : loop.isLoopBoundary = true := by simp [Command.isLoopBoundary, hloop]
  induction count generalizing world with
  | zero => exact ⟨[], world, .nil _, rfl, Nat.le_refl _⟩
  | succ count ih =>
    obtain ⟨visits, atLoop, hvisits, hexecuted⟩ :=
      segment hbefore rfl (Nat.zero_add _) hround hclear
    have hrewound := hvisits.append (.single (.loopsForever hloopCommand hloop))
    obtain ⟨later, after, hlater, hexecutedLater, hlength⟩ := ih (hrewound.clear hclear)
    refine ⟨_, after, hrewound.append hlater, ?_, ?_⟩
    · simp only [List.flatMap_append, List.flatMap_singleton, executed_append, Visit.log, hexecuted,
        hexecutedLater, executed_of_boundary, hloopBoundary, List.replicate_succ,
        List.flatten_cons, List.append_nil]
    · simp only [List.flatMap_append, List.flatMap_singleton, List.length_append, Visit.log,
        List.length_singleton]
      omega

end Journey

namespace Machine

variable {host : Host σ} {machine : Machine σ}

/-! ## What a machine makes of it -/

/-- A move starts at most one command. -/
theorem length_history_le (moves : Nat) (machine : Machine σ) :
    (history host moves machine).length ≤ moves := by
  induction moves generalizing machine with
  | zero => exact Nat.le_refl _
  | succ moves ih =>
    have hone : machine.occurrence?.toList.length ≤ 1 := by
      cases machine.occurrence? <;> simp
    have hothers := ih (machine.advance host)
    rw [history, List.length_append]
    omega

/-- Nothing starts at rest. -/
theorem AtRest.history_eq (h : AtRest host machine) (moves : Nat) :
    history host moves machine = [] := by
  have hnone : machine.occurrence? = none := by
    cases hstarting : machine.starting? with
    | none => rw [occurrence?, hstarting, Option.bind_none]
    | some front =>
      have hstep := h.1
      simp [step?, (nextJob_of_starting? hstarting).1] at hstep
  induction moves with
  | zero => rfl
  | succ moves ih => rw [history, hnone, h.advance_eq, ih, Option.toList_none, List.nil_append]

/-- A machine that starts one command after the other never has nothing to do. -/
theorem runUntilIdle?_eq_none
    (h : ∀ count, ∃ moves, count ≤ (history host moves (machine.launch .untilIdle)).length)
    (library : Library) (fuel : Nat) : runUntilIdle? host library fuel [] machine = none := by
  rw [Option.eq_none_iff_forall_ne_some]
  rintro ⟨last, observations⟩ hrun
  obtain ⟨hrest, moves, rfl⟩ := drive_of_run? hrun
  -- A history that is longer than the run goes on after its end, where nothing starts any more.
  obtain ⟨others, hothers⟩ := h (moves + 1)
  have hlonger : moves + 1 ≤ others := hothers.trans (length_history_le others _)
  obtain ⟨more, rfl⟩ := Nat.exists_eq_add_of_le (Nat.le_of_succ_le hlonger)
  rw [history_add, hrest.history_eq, List.append_nil] at hothers
  exact absurd (hothers.trans (length_history_le moves _)) (Nat.not_succ_le_self moves)

/-- Executing the queue until there is nothing to do executes these commands, apart from loops and
craft gates, and leaves a stopped engine with an empty queue. -/
def Executes (host : Host σ) (library : Library) (machine : Machine σ) (commands : List Command) :
    Prop :=
  ∃ moves final,
    runUntilIdle? host library (moves + 1) [] machine = some (final, []) ∧
      drive host moves (machine.launch .untilIdle) = final ∧
      executed (history host moves (machine.launch .untilIdle)) = commands ∧
      final.engine.queue = [] ∧ final.engine.runState = .stopped

/-- Executing the queue goes on forever, with these commands in each round, apart from loops and
craft gates. -/
structure Repeats (host : Host σ) (library : Library) (machine : Machine σ) (round : List Command) :
    Prop where
  /-- There is always something left to do. -/
  endless : ∀ fuel, runUntilIdle? host library fuel [] machine = none
  /-- Any number of rounds is completed. -/
  rounds : ∀ count, ∃ moves,
    executed (history host moves (machine.launch .untilIdle)) = (List.replicate count round).flatten

variable {id : Nat} {front back : List Command} {gate loop : Command}

/-- A macro that does not steer is executed once. -/
theorem executes_of_plain (library : Library) (hengine : machine.engine.Unhindered)
    (hqueue : machine.engine.queue = [.ofProgram id program])
    (hplain : ∀ command ∈ program.commands, command.steers = false)
    (hclear : (Spot.first machine.world).Clear (machine.scope host) program) :
    Executes host library machine program.commands := by
  have hprogram : program.commands = [] ++ program.commands ++ [] := by simp
  obtain ⟨visits, after, hjourney, hexecuted⟩ :=
    Journey.segment hprogram rfl (Nat.zero_add _) hplain hclear
  obtain ⟨moves, final, hrun, hdrive, hhistory, _, hempty, hstate⟩ :=
    run_of_journey library hengine hqueue hjourney
  exact ⟨moves, final, hrun, hdrive, hhistory ▸ hexecuted, hempty, hstate⟩

/-- A macro with a gate before its loop is executed up to the gate once more than the gate lets
through. -/
theorem executes_of_gate {passes : Nat} (library : Library) (hengine : machine.engine.Unhindered)
    (hqueue : machine.engine.queue = [.ofProgram id program])
    (hprogram : program.commands = front ++ gate :: back ++ [loop])
    (hfront : ∀ command ∈ front, command.steers = false)
    (hback : ∀ command ∈ back, command.steers = false) (hgate : gate.kind = .craft passes)
    (hloop : loop.kind = .loop none)
    (hclear : (Spot.first machine.world).Clear (machine.scope host) program) :
    Executes host library machine (front ++ (List.replicate passes (back ++ front)).flatten) := by
  obtain ⟨visits, spent, after, hjourney, hspent, hexecuted⟩ :=
    Journey.to_spent_gate hprogram hfront hback hgate hloop passes rfl hclear
  have hcommand : program.commands[front.length]? = some gate := by
    simp [hprogram]
  obtain ⟨atGate, hworks, hatGate⟩ := (poised_launch hengine hqueue).journey hjourney
  obtain ⟨reached, hends, hreached⟩ := hatGate.endsAtGate hcommand hgate hspent
  obtain ⟨moves, final, hrun, hdrive, hhistory, _, hempty, hstate⟩ :=
    (hworks.trans hends).runs hreached library
  have hboundary : gate.isLoopBoundary = true := by simp [Command.isLoopBoundary, hgate]
  refine ⟨moves, final, hrun, hdrive, (congrArg executed hhistory).trans ?_, hempty, hstate⟩
  rw [executed_append, hexecuted, executed_of_boundary hboundary, List.append_nil]

/-- A macro with a loop without a count at its end is executed round after round. -/
theorem repeats_of_loop {round : List Command} (library : Library)
    (hengine : machine.engine.Unhindered)
    (hqueue : machine.engine.queue = [.ofProgram id program])
    (hprogram : program.commands = round ++ [loop])
    (hround : ∀ command ∈ round, command.steers = false) (hloop : loop.kind = .loop none)
    (hclear : (Spot.first machine.world).Clear (machine.scope host) program) :
    Repeats host library machine round := by
  have hrounds (count : Nat) : ∃ moves,
      executed (history host moves (machine.launch .untilIdle)) =
          (List.replicate count round).flatten ∧
        count ≤ (history host moves (machine.launch .untilIdle)).length := by
    obtain ⟨visits, after, hjourney, hexecuted, hlength⟩ :=
      Journey.rounds hprogram hround hloop count hclear
    obtain ⟨reached, ⟨moves, _, hhistory⟩, _⟩ := (poised_launch hengine hqueue).journey hjourney
    rw [← hhistory] at hexecuted hlength
    exact ⟨moves, hexecuted, hlength⟩
  refine ⟨runUntilIdle?_eq_none (fun count => ?_) library, fun count => ?_⟩
  · obtain ⟨moves, _, hlength⟩ := hrounds count
    exact ⟨moves, hlength⟩
  · obtain ⟨moves, hexecuted, _⟩ := hrounds count
    exact ⟨moves, hexecuted⟩

/-! ## Craft loops -/

/-- A stopped engine that is neither shut down nor logged out starts with a macro that is queued. -/
theorem handle_enqueue_of_stopped {saved : SavedMacro} (library : Library)
    (hsound : machine.engine.Sound) (hstopped : machine.engine.runState = .stopped)
    (hloggedIn : machine.engine.loggedIn = true) (hup : machine.engine.isShutDown = false)
    (hprogram : saved.program machine.engine.settings machine.engine.reader none = .ok program) :
    ∃ engine, (machine.handle library (.enqueue saved none)).1 = { machine with engine } ∧
      engine.Unhindered ∧ engine.queue = [.ofProgram machine.engine.nextId program] ∧
      engine.settings = machine.engine.settings ∧ engine.reader = machine.engine.reader := by
  have hqueue : machine.engine.queue = [] := hsound.queue_eq_nil_iff.mpr hstopped
  refine ⟨(machine.engine.push program).notify, ?_, ?_, ?_, ?_, ?_⟩
  · simp [handle, Engine.handle, Engine.enqueue, hprogram, hup]
  all_goals simp only [Engine.push, hstopped, if_true]
  · exact ⟨rfl, hloggedIn, hup, rfl, rfl, hsound.undropped⟩
  · simp only [Engine.notify, hqueue, List.nil_append]
  · rfl
  · rfl

variable {steps body commands : List Command} {fromCraftingLog : Bool} {count : Int}

/-- A macro that is laid out as a craft loop executes as many crafts as its count says, or round
after round if the count is negative. -/
theorem runs_of_layout (library : Library)
    (hlayout : CraftLoop.Layout steps body fromCraftingLog count commands)
    (hprogram : program.commands = commands) (hsteps : ∀ command ∈ steps, command.steers = false)
    (hbody : ∀ command ∈ body, command.steers = false) (hengine : machine.engine.Unhindered)
    (hqueue : machine.engine.queue = [.ofProgram id program])
    (hclear : (Spot.first machine.world).Clear (machine.scope host) program) :
    (∀ crafts : Nat, count = crafts →
      Executes host library machine (CraftLoop.crafting steps body fromCraftingLog crafts)) ∧
    (count < 0 →
      Repeats host library machine (CraftLoop.endlessRound steps body fromCraftingLog)) := by
  have hround : ∀ command ∈ steps ++ body, command.steers = false :=
    List.forall_mem_append.mpr ⟨hsteps, hbody⟩
  cases hlayout with
  | endless hnegative hloop =>
    refine ⟨fun crafts hcrafts => by omega, fun _ => ?_⟩
    refine repeats_of_loop library hengine hqueue hprogram ?_ hloop hclear
    unfold CraftLoop.endlessRound
    split
    · exact hround
    · exact List.forall_mem_append.mpr ⟨hbody, hsteps⟩
  | single =>
    refine ⟨fun crafts hcrafts => ?_, fun hnegative => by omega⟩
    obtain rfl : crafts = 1 := by omega
    rw [← hprogram]
    refine executes_of_plain library hengine hqueue ?_ hclear
    rw [hprogram]
    unfold CraftLoop.crafting
    split
    · simpa using hround
    · simpa using hbody
  | @gateAtTop passes gate loop hgate hloop =>
    refine ⟨fun crafts hcrafts => ?_, fun hnegative => by omega⟩
    obtain rfl := Int.ofNat.inj hcrafts
    have hatTop : program.commands = [] ++ gate :: (steps ++ body) ++ [loop] := hprogram
    have hexecutes :=
      executes_of_gate library hengine hqueue hatTop (by simp) hround hgate hloop hclear
    rwa [List.nil_append, List.append_nil] at hexecutes
  | gateAfterBody hgate hloop =>
    refine ⟨fun crafts hcrafts => ?_, fun hnegative => by omega⟩
    obtain rfl := Int.ofNat.inj hcrafts
    exact executes_of_gate library hengine hqueue hprogram hbody hsteps hgate hloop hclear

/-- A craft loop crafts exactly as often as its count says. Queued in a stopped engine and executed
until there is nothing to do, a macro for a craft loop with a positive count, whose commands do not
steer and succeed, executes these commands once for each craft. It opens the synthesis window for
each craft if it starts from the crafting log, and for each but the first if it starts from that
window, and the engine is stopped with an empty queue at the end. With a negative count there is no
gate, and one round follows the other forever. -/
theorem craft_loop_crafts {saved : SavedMacro} (library : Library)
    (hmachine : machine.Reachable host) (hstopped : machine.engine.runState = .stopped)
    (hloggedIn : machine.engine.loggedIn = true) (hup : machine.engine.isShutDown = false)
    (htemplate : machine.engine.settings.useCraftLoopTemplate = false)
    (hcraftLoop : saved.craftLoop = true) (hcount : saved.craftLoopCount ≠ 0)
    (hlimit : saved.craftLoopCount ≤ Numeral.max32)
    (hcontents : machine.engine.reader.commands saved.contents.toList = .ok body)
    (hbody : ∀ command ∈ body, command.steers = false)
    (hclear : ∀ program,
      saved.program machine.engine.settings machine.engine.reader none = .ok program →
        (Spot.first machine.world).Clear (machine.scope host) program) :
    ∃ program steps queued,
      saved.program machine.engine.settings machine.engine.reader none = .ok program ∧
        CraftLoop.OpensSynthesis steps ∧
        (machine.handle library (.enqueue saved none)).1 = queued ∧
        queued.engine.queue = [.ofProgram machine.engine.nextId program] ∧
        (∀ crafts : Nat, saved.craftLoopCount = crafts →
          Executes host library queued
            (CraftLoop.crafting steps body machine.engine.settings.craftLoopFromRecipeNote
              crafts)) ∧
        (saved.craftLoopCount < 0 →
          (∀ command ∈ program.commands, ∀ passes, command.kind ≠ .craft passes) ∧
            Repeats host library queued
              (CraftLoop.endlessRound steps body
                machine.engine.settings.craftLoopFromRecipeNote)) := by
  obtain ⟨steps, commands, hopens, hcommands, hlayout⟩ :=
    CraftLoop.exists_layout machine.engine.reader hcontents
      machine.engine.settings.craftLoopFromRecipeNote machine.engine.settings.craftLoopEcho
      machine.engine.settings.craftLoopMaxWait hcount hlimit
  have hprogram : saved.program machine.engine.settings machine.engine.reader none =
      .ok ⟨saved.name, commands⟩ := by
    simp only [SavedMacro.program, SavedMacro.source, hcraftLoop, CraftLoop.Template.ofSettings,
      htemplate, if_true, Bool.false_eq_true, if_false, hcommands, Except.map]
  obtain ⟨engine, hqueued, hengine, hqueue, hsettings, hreader⟩ :=
    handle_enqueue_of_stopped library (sound_of_reachable hmachine).engine hstopped hloggedIn hup
      hprogram
  have hscope : ({ machine with engine } : Machine σ).scope host = machine.scope host := by
    simp only [scope, hsettings, hreader]
  obtain ⟨hcrafts, hrounds⟩ :=
    runs_of_layout library hlayout rfl hopens.not_steers hbody hengine hqueue
      (hscope.symm ▸ hclear _ hprogram)
  refine ⟨⟨saved.name, commands⟩, steps, { machine with engine }, hprogram, hopens, hqueued, hqueue,
    hcrafts, fun hnegative => ⟨?_, hrounds hnegative⟩⟩
  exact hlayout.not_gate hnegative hopens.not_steers hbody

/-- Two crafts from the crafting log open the synthesis window twice. -/
theorem craft_loop_crafts_twice :
    ∃ (queued final : Machine DryRun) (moves : Nat),
      (Machine.handle { engine := .ofSettings {}, world := { host := {} } } {}
        (.enqueue { name := "craft", contents := "/wait 1", craftLoop := true, craftLoopCount := 2 }
          none)).1 = queued ∧
      runUntilIdle? DryRun.host {} (moves + 1) [] queued = some (final, []) ∧
      (executed (history DryRun.host moves (queued.launch .untilIdle))).map Command.kind =
        [.waitAddon "RecipeNote", .click "synthesize", .waitAddon "Synthesis", .wait,
          .waitAddon "RecipeNote", .click "synthesize", .waitAddon "Synthesis", .wait] ∧
      final.engine.runState = .stopped := by
  let saved : SavedMacro :=
    { name := "craft", contents := "/wait 1", craftLoop := true, craftLoopCount := 2 }
  let machine : Machine DryRun := { engine := .ofSettings {}, world := { host := {} } }
  let body : List Command := [{ text := "/wait 1", kind := .wait, wait := .fixed 1000 }]
  have hcontents : machine.engine.reader.commands saved.contents.toList = .ok body :=
    eq_ok_of_toOption (by decide +kernel)
  have hclear : ∀ program, saved.program machine.engine.settings machine.engine.reader none =
      .ok program → (Spot.first machine.world).Clear (machine.scope DryRun.host) program := by
    intro program hprogram _ next command _ hcommand hboundary
    have hread : (saved.program machine.engine.settings machine.engine.reader none).toOption.map
        (fun program => program.commands.map Command.kind) =
          some [.craft 2, .waitAddon "RecipeNote", .click "synthesize", .waitAddon "Synthesis",
            .wait, .loop none] := by decide +kernel
    rw [hprogram] at hread
    have hkinds : program.commands.map Command.kind = _ := Option.some.inj hread
    have hkind : command.kind ∈ program.commands.map Command.kind :=
      List.mem_map_of_mem (List.mem_of_getElem? hcommand)
    have hwindow {name : String} (hkind : command.kind = .waitAddon name) :
        carryOut (machine.scope DryRun.host) command next.world =
          (rested (machine.scope DryRun.host) command next.world, none) := by
      simp only [carryOut, hkind, restWhenReached, awaitInTime]
      cases command.maxWait / (Goal.addon name).interval <;> rfl
    rw [hkinds] at hkind
    simp only [List.mem_cons, List.not_mem_nil, or_false] at hkind
    rcases hkind with hkind | hkind | hkind | hkind | hkind | hkind
    · simp [Command.isLoopBoundary, hkind] at hboundary
    · exact ⟨_, _, .plain (by rw [Command.steers, hkind]) (hwindow hkind)⟩
    · exact ⟨_, _, .plain (by rw [Command.steers, hkind]) (by rw [carryOut, hkind]; rfl)⟩
    · exact ⟨_, _, .plain (by rw [Command.steers, hkind]) (hwindow hkind)⟩
    · exact ⟨_, _, .plain (by rw [Command.steers, hkind]) (by rw [carryOut, hkind])⟩
    · simp [Command.isLoopBoundary, hkind] at hboundary
  obtain ⟨program, steps, queued, _, hopens, hqueued, _, hcrafts, _⟩ :=
    craft_loop_crafts {} (⟨{}, { host := {} }, [], .nil _⟩ : machine.Reachable DryRun.host) rfl rfl
      rfl rfl rfl (by decide) (by decide) hcontents (by decide) hclear
  obtain ⟨moves, final, hrun, _, hexecuted, _, hstate⟩ := hcrafts 2 rfl
  refine ⟨queued, final, moves, hqueued, hrun, ?_, hstate⟩
  have hsteps : steps.map Command.kind = _ := hopens
  rw [hexecuted]
  change (List.replicate 2 (steps ++ body)).flatten.map Command.kind = _
  simp [List.replicate_succ, hsteps, body]

end Machine

end GameMacros
