import GameMacros.Proofs.Journey
import Mathlib.Algebra.BigOperators.Intervals

/-!
# Nested loops

Every loop goes back to the first command of its macro, so the loops of a macro are nested: a later
one encloses all that come before it. A macro that has only loops with a count comes to its end, and
each command is executed as often as the loops from its place on multiply to. The way through such a
macro is written down as an itinerary first, and then it is shown to be taken.
-/

namespace GameMacros

open Execution

/-! ## Counters -/

namespace Counters

variable {counters : Counters} {place other left : Nat}

/-- What is noted at a place is not found at other places. -/
theorem get?_set_of_ne (h : other ≠ place) :
    (counters.set place left).get? other = counters.get? other := by
  have hne : (place == other) = false := by simpa using h.symm
  have hkept : (fun entry : Nat × Nat => decide ((entry.1 != place) = true ∧
      (entry.1 == other) = true)) = fun entry => entry.1 == other := by
    funext entry
    by_cases heq : entry.1 = other
    · simp [heq, h]
    · simp [heq]
  simp only [get?, set, erase, List.find?_cons, hne, List.find?_filter, hkept]

/-- What was just noted at a place is forgotten with the place. -/
theorem erase_set (counters : Counters) (place left : Nat) :
    (counters.set place left).erase place = counters.erase place := by
  simp [set, erase]

/-- There is nothing to forget at a place where nothing is noted. -/
theorem erase_of_get?_eq_none (h : counters.get? place = none) :
    counters.erase place = counters := by
  have hnone : ∀ entry ∈ counters, ¬(entry.1 == place) = true := by
    simpa [get?] using h
  simpa [erase, List.filter_eq_self] using hnone

end Counters

/-! ## The itinerary -/

/-- How often a loop lets what comes before it be executed in a row. Other commands do so once. -/
def Command.rounds (settings : Settings) (command : Command) : Nat :=
  match command.kind with
  | .loop (some count) => if settings.loopTotal then max count 1 else count + 1
  | _ => 1

/-- How often the command at a place lets what comes before it be executed in a row. -/
def Program.rounds (settings : Settings) (program : Program) (place : Nat) : Nat :=
  program.commands[place]?.elim 1 (Command.rounds settings)

/-- A loop that starts with a number of repeats has one round more. -/
theorem Command.rounds_loop {settings : Settings} {command : Command} {count : Nat}
    (hkind : command.kind = .loop (some count)) :
    command.rounds settings = initialRepeats settings count + 1 := by
  simp only [rounds, hkind, initialRepeats]
  split
  · omega
  · rfl

/-- The way to a place through commands with these rounds, as places with what remains there: all
the way to the place before, and that place, once for each of its rounds. -/
def itinerary (rounds : Nat → Nat) : (place : Nat) → List (Nat × Nat)
  | 0 => []
  | place + 1 =>
    (List.range (rounds place)).reverse.flatMap fun left =>
      itinerary rounds place ++ [(place, left)]

/-- The way to a place leads over earlier places. -/
theorem lt_of_mem_itinerary {rounds : Nat → Nat} {last : Nat} {stop : Nat × Nat}
    (h : stop ∈ itinerary rounds last) : stop.1 < last := by
  induction last with
  | zero => cases h
  | succ last ih =>
    obtain ⟨left, _, hstop⟩ := List.mem_flatMap.mp h
    rcases List.mem_append.mp hstop with hearlier | hlast
    · exact Nat.lt_succ_of_lt (ih hearlier)
    · rw [List.mem_singleton.mp hlast]
      exact Nat.lt_succ_self last

/-- Repeats of repeats multiply. -/
theorem flatMap_const_replicate {α β : Type} (turns : List β) (count : Nat) (part : List α) :
    turns.flatMap (fun _ => (List.replicate count part).flatten) =
      (List.replicate (count * turns.length) part).flatten := by
  induction turns with
  | nil => rfl
  | cons turn turns ih =>
    rw [List.flatMap_cons, ih, List.length_cons, Nat.mul_succ, Nat.add_comm, List.replicate_add,
      List.flatten_append]

/-- At each place what remains counts down, anew for each round of a later place. -/
theorem lefts_itinerary (rounds : Nat → Nat) {place last : Nat} (h : place < last) :
    ((itinerary rounds last).filter (·.1 == place)).map (·.2) =
      (List.replicate (∏ later ∈ Finset.Ico (place + 1) last, rounds later)
        (List.range (rounds place)).reverse).flatten := by
  induction last with
  | zero => cases h
  | succ last ih =>
    rw [itinerary, List.filter_flatMap, List.map_flatMap]
    rcases Nat.lt_succ_iff_lt_or_eq.mp h with hearlier | rfl
    · have hpart (left : Nat) :
          ((itinerary rounds last ++ [(last, left)]).filter (·.1 == place)).map (·.2) =
            (List.replicate (∏ later ∈ Finset.Ico (place + 1) last, rounds later)
              (List.range (rounds place)).reverse).flatten := by
        have hother : (last == place) = false := by simpa using Nat.ne_of_gt hearlier
        rw [List.filter_append, List.map_append, ih hearlier]
        simp [hother]
      simp only [hpart]
      rw [flatMap_const_replicate, List.length_reverse, List.length_range,
        Finset.prod_Ico_succ_top hearlier]
    · have hnone : (itinerary rounds place).filter (·.1 == place) = [] := by
        rw [List.filter_eq_nil_iff]
        intro stop hstop
        simpa using Nat.ne_of_lt (lt_of_mem_itinerary hstop)
      simp [List.filter_append, hnone]

/-- Each place is on the itinerary as often as the rounds from it on multiply to. -/
theorem countP_itinerary (rounds : Nat → Nat) {place last : Nat} (h : place < last) :
    (itinerary rounds last).countP (·.1 == place) =
      ∏ later ∈ Finset.Ico place last, rounds later := by
  have hlength := congrArg List.length (lefts_itinerary rounds h)
  rw [List.length_map, ← List.countP_eq_length_filter, List.length_flatten, List.map_replicate,
    List.sum_replicate_nat, List.length_reverse, List.length_range, Nat.mul_comm] at hlength
  rw [hlength, Finset.prod_eq_prod_Ico_succ_bot h]

/-! ## The way is taken -/

/-- All loops have a count, and there is no craft gate. -/
def Program.LoopsEnd (program : Program) : Prop :=
  ∀ command ∈ program.commands, command.isLoopBoundary = true →
    ∃ count, command.kind = .loop (some count)

variable {σ : Type} {scope : Scope σ} {program : Program}

/-- The place of a visit with what remained there. -/
def Visit.stop (visit : Visit σ) : Nat × Nat :=
  (visit.place, visit.left)

/-- With nothing noted for the places before it, a place can be reached, and nothing is noted for
them then. -/
def Climbs (scope : Scope σ) (program : Program) (place : Nat) : Prop :=
  ∀ counters world, (∀ earlier < place, counters.get? earlier = none) →
    Spot.Clear scope program ⟨0, counters, world⟩ →
    ∃ visits after, Journey scope program ⟨0, counters, world⟩ visits ⟨place, counters, after⟩ ∧
      visits.map Visit.stop = itinerary (program.rounds scope.settings) place

/-- A loop is left after its rounds. The induction is on what remains of it. -/
theorem Climbs.past_loop {place count : Nat} {command : Command}
    (h : Climbs scope program place) (hcommand : program.commands[place]? = some command)
    (hkind : command.kind = .loop (some count)) (left : Nat) {counters : Counters}
    {world : World σ} (hfresh : ∀ earlier < place, counters.get? earlier = none)
    (hclear : Spot.Clear scope program ⟨0, counters, world⟩)
    (hleft : counters.remaining place (initialRepeats scope.settings count) = left) :
    ∃ visits after,
      Journey scope program ⟨0, counters, world⟩ visits
        ⟨place + 1, counters.erase place, after⟩ ∧
      visits.map Visit.stop = (List.range (left + 1)).reverse.flatMap fun left =>
        itinerary (program.rounds scope.settings) place ++ [(place, left)] := by
  induction left generalizing counters world with
  | zero =>
    obtain ⟨visits, middle, hround, hstops⟩ := h counters world hfresh hclear
    refine ⟨_, _, hround.append (.single (.leavesLoop hcommand hkind hleft)), ?_⟩
    rw [List.map_append, hstops]
    simp [Visit.stop]
  | succ left ih =>
    obtain ⟨visits, middle, hround, hstops⟩ := h counters world hfresh hclear
    -- The counters before the loop are as fresh after the rewind as they were, so the way up to the
    -- loop is the same again.
    have hrewind := hround.append (.single (.loops hcommand hkind hleft))
    have hlater : ∀ earlier < place, (counters.set place left).get? earlier = none := by
      intro earlier hearlier
      rw [Counters.get?_set_of_ne (Nat.ne_of_lt hearlier)]
      exact hfresh earlier hearlier
    obtain ⟨others, last, hrest, hothers⟩ :=
      ih hlater (hrewind.clear hclear) (counters.remaining_set_self place left _)
    rw [Counters.erase_set] at hrest
    refine ⟨_, last, hrewind.append hrest, ?_⟩
    rw [List.map_append, List.map_append, hstops, hothers, List.range_succ (n := left + 1),
      List.reverse_concat, List.flatMap_cons]
    rfl

/-- Every place of a macro whose loops end can be reached. -/
theorem climbs (hends : program.LoopsEnd) {place : Nat} (hplace : place ≤ program.commands.length) :
    Climbs scope program place := by
  induction place with
  | zero => exact fun counters world _ _ => ⟨[], world, .nil _, rfl⟩
  | succ place ih =>
    intro counters world hfresh hclear
    have hbefore := ih (Nat.le_of_succ_le hplace)
    have hearlier : ∀ earlier < place, counters.get? earlier = none :=
      fun earlier h => hfresh earlier (Nat.lt_succ_of_lt h)
    have hcommand : program.commands[place]? = some program.commands[place] :=
      List.getElem?_eq_getElem hplace
    generalize program.commands[place] = command at hcommand
    have hmem : command ∈ program.commands := List.mem_of_getElem? hcommand
    have hrounds : program.rounds scope.settings place = command.rounds scope.settings := by
      rw [Program.rounds, hcommand, Option.elim_some]
    rw [itinerary, hrounds]
    cases hboundary : command.isLoopBoundary with
    | true =>
      obtain ⟨count, hkind⟩ := hends command hmem hboundary
      have hnone := hfresh place (Nat.lt_succ_self place)
      have hleft : counters.remaining place (initialRepeats scope.settings count) =
          initialRepeats scope.settings count := by
        rw [Counters.remaining, hnone, Option.getD_none]
      have hpast := hbefore.past_loop hcommand hkind _ hearlier hclear hleft
      rwa [Counters.erase_of_get?_eq_none hnone, ← Command.rounds_loop hkind] at hpast
    | false =>
      obtain ⟨visits, middle, hround, hstops⟩ := hbefore counters world hearlier hclear
      obtain ⟨after, calls, hsucceeds⟩ := hclear visits _ command hround hcommand hboundary
      have hone : command.rounds scope.settings = 1 := by
        unfold Command.isLoopBoundary at hboundary
        unfold Command.rounds
        cases hkind : command.kind <;> simp [hkind] at hboundary ⊢
      refine ⟨_, after, hround.append (.single (.succeeds hcommand hsucceeds)), ?_⟩
      rw [List.map_append, hstops, hone]
      simp [Visit.stop]

/-! ## What a loop says and how long it takes -/

/-- Saying something takes no time. -/
@[simp] theorem now_echo (command : Command) (message : String) (world : World σ) :
    (echo scope command message world).now = world.now := by
  unfold echo
  split <;> rfl

/-- The wait of a line has no effect, and takes as long as is granted of a delay that it allows. -/
theorem exists_rested (command : Command) (world : World σ) :
    (rested scope command world).past = world.past ∧ ∃ delay, command.wait.allows delay = true ∧
      (rested scope command world).now = world.now + Sleep.granted delay := by
  unfold rested
  split
  · next hzero =>
    refine ⟨rfl, 0, ?_, rfl⟩
    cases hwait : command.wait with
    | fixed ms =>
      obtain rfl : ms = 0 := by simpa [hwait, Wait.isZero] using hzero
      rfl
    | between => simp [hwait, Wait.isZero] at hzero
  · refine ⟨rfl, _, command.wait.allows_draw (world.roll scope.host), ?_⟩
    exact Nat.max_eq_right (Nat.le_add_right _ _)

/-- What a visit of a loop with a count is like. -/
structure Visit.Loops (scope : Scope σ) (visit : Visit σ) : Prop where
  /-- It says what remains if the line or the settings ask for it. -/
  echoes : visit.after.past =
    if visit.command.echo || scope.settings.loopEcho then
      (visit.before.now, .print (remainder "loop" visit.left)) :: visit.before.past
    else visit.before.past
  /-- A rewind takes as long as the pause and the wait of the line. -/
  rewinds : visit.left ≠ 0 → ∃ delay, visit.command.wait.allows delay = true ∧
    visit.after.now = visit.before.now + rewindPause + Sleep.granted delay
  /-- Leaving the loop takes no time. -/
  leaves : visit.left = 0 → visit.after.now = visit.before.now
  calls_eq : visit.calls = []

/-- Visits of loops with a count say what remains, and pause before they rewind. -/
theorem Passes.loops_of_kind {spot next : Spot σ} {visit : Visit σ} {count : Nat}
    (h : Passes scope program spot visit next) (hkind : visit.command.kind = .loop (some count)) :
    visit.Loops scope := by
  cases h with
  | succeeds _ hsucceeds =>
    dsimp only at hkind
    cases hsucceeds with
    | plain hplain => simp [Command.steers, hkind] at hplain
    | calls hcalls => cases hkind.symm.trans hcalls
  | loopsForever _ hother => cases hkind.symm.trans hother
  | passesGate _ hother => cases hkind.symm.trans hother
  | @leavesLoop command =>
    refine ⟨?_, fun h => absurd rfl h, fun _ => now_echo _ _ _, rfl⟩
    dsimp only [echo]
    split <;> rfl
  | @loops command _ left =>
    let paused := (echo scope command (remainder "loop" (left + 1)) spot.world).sleep rewindPause
    obtain ⟨hpast, delay, hdelay, hnow⟩ :
        _ ∧ ∃ delay, _ ∧ (rested scope command paused).now = _ := exists_rested command paused
    have hpause : paused.now = spot.world.now + rewindPause := by
      have hgranted := Sleep.granted_of_le (show rewindPause ≤ Sleep.longest by decide)
      change max (echo _ _ _ _).now ((echo _ _ _ _).now + Sleep.granted rewindPause) = _
      rw [now_echo, hgranted, Nat.max_eq_right (Nat.le_add_right _ _)]
    refine ⟨?_, fun _ => ⟨delay, hdelay, ?_⟩, fun h => absurd h (Nat.succ_ne_zero left), rfl⟩
    · refine hpast.trans ?_
      dsimp only [paused, World.sleep, World.waitUntil, echo]
      split <;> rfl
    · exact hnow.trans (by rw [hpause])

/-- A visit is a visit of the command at its place. -/
theorem Passes.command_eq {spot next : Spot σ} {visit : Visit σ}
    (h : Passes scope program spot visit next) :
    program.commands[visit.place]? = some visit.command := by
  cases h <;> assumption

/-- What the visits of a macro with nested loops are like. -/
structure Multiplies (scope : Scope σ) (program : Program) (visits : List (Visit σ)) : Prop where
  /-- Each command is executed as often as the rounds from its place on multiply to. -/
  executed : ∀ place < program.commands.length,
    visits.countP (·.place == place) =
      ∏ later ∈ Finset.Ico place program.commands.length, program.rounds scope.settings later
  /-- What remains of a loop counts down to nothing, anew for each round of the loops around it. -/
  counts_down : ∀ place < program.commands.length,
    (visits.filter (·.place == place)).map Visit.left =
      (List.replicate
        (∏ later ∈ Finset.Ico (place + 1) program.commands.length,
          program.rounds scope.settings later)
        (List.range (program.rounds scope.settings place)).reverse).flatten
  command_eq : ∀ visit ∈ visits, program.commands[visit.place]? = some visit.command
  loops : ∀ visit ∈ visits, ∀ count, visit.command.kind = .loop (some count) → visit.Loops scope

/-- Visits that keep to the itinerary multiply. -/
theorem multiplies_of_stops {spot last : Spot σ} {visits : List (Visit σ)}
    (hjourney : Journey scope program spot visits last)
    (hstops : visits.map Visit.stop =
      itinerary (program.rounds scope.settings) program.commands.length) :
    Multiplies scope program visits where
  executed place hplace := by
    rw [← countP_itinerary _ hplace, ← hstops, List.countP_map]
    rfl
  counts_down place hplace := by
    rw [← lefts_itinerary _ hplace, ← hstops, List.filter_map, List.map_map]
    rfl
  command_eq visit hvisit := by
    obtain ⟨_, _, hpasses⟩ := hjourney.exists_passes visit hvisit
    exact hpasses.command_eq
  loops visit hvisit count hkind := by
    obtain ⟨_, _, hpasses⟩ := hjourney.exists_passes visit hvisit
    exact hpasses.loops_of_kind hkind

namespace Machine

variable {host : Host σ} {machine : Machine σ}

/-- Nested loops multiply. A macro whose loops all have a count, without craft gates and with
commands that succeed, is executed to its end, and each of its commands as often as the loops from
its place on multiply to. -/
theorem nested_loops_multiply {id : Nat} (library : Library) (hmachine : machine.Reachable host)
    (hrunning : machine.engine.runState = .running) (hloggedIn : machine.engine.loggedIn = true)
    (hstop : machine.engine.stopAtLoop = false) (hpause : machine.engine.pauseAtLoop = false)
    (hqueue : machine.engine.queue = [.ofProgram id program]) (hends : program.LoopsEnd)
    (hclear : (Spot.first machine.world).Clear (machine.scope host) program) :
    ∃ moves final visits,
      runUntilIdle? host library (moves + 1) [] machine = some (final, []) ∧
        drive host moves (machine.launch .untilIdle) = final ∧
        history host moves (machine.launch .untilIdle) =
          visits.flatMap (Visit.log program.name) ∧
        final.engine.queue = [] ∧ final.engine.runState = .stopped ∧
        Journey (machine.scope host) program (.first machine.world) visits
          ⟨program.commands.length, [], final.world⟩ ∧
        Multiplies (machine.scope host) program visits := by
  have hengine := (sound_of_reachable hmachine).engine.unhindered hrunning hloggedIn hstop hpause
  have hclimbs : Climbs (machine.scope host) program program.commands.length :=
    climbs hends (Nat.le_refl _)
  obtain ⟨visits, last, hjourney, hstops⟩ := hclimbs [] machine.world (fun _ _ => rfl) hclear
  obtain ⟨moves, final, hrun, hdrive, hhistory, rfl, hempty, hstate⟩ :=
    run_of_journey library hengine hqueue hjourney
  exact ⟨moves, final, visits, hrun, hdrive, hhistory, hempty, hstate, hjourney,
    multiplies_of_stops hjourney hstops⟩

/-- A command between two loops is executed as often as both multiply to. -/
theorem nested_loops_multiply_of_two :
    ∃ (machine : Machine DryRun) (visits : List (Visit DryRun)) (moves : Nat)
      (final : Machine DryRun), machine.Reachable DryRun.host ∧
      runUntilIdle? DryRun.host {} (moves + 1) [] machine = some (final, []) ∧
      visits.countP (·.place == 0) = 6 ∧
      (visits.filter (·.place == 1)).map Visit.left = [1, 0, 1, 0, 1, 0] := by
  let saved : SavedMacro := { name := "nest", contents := "/wait 1\n/loop 1\n/loop 2 <echo>" }
  let program : Program :=
    ⟨"nest", [{ text := "/wait 1", kind := .wait, wait := .fixed 1000 },
      { text := "/loop 1", kind := .loop (some 1) },
      { text := "/loop 2 <echo>", kind := .loop (some 2), echo := true }]⟩
  have hprogram : saved.program {} (.ofSettings {}) none = .ok program :=
    eq_ok_of_toOption (by decide +kernel)
  let machine : Machine DryRun :=
    { engine := ((Engine.ofSettings {}).push program).notify, world := { host := {} } }
  have hreachable : machine.Reachable DryRun.host := reachable_push _ hprogram
  have hends : program.LoopsEnd := by
    intro command hmem hboundary
    simp only [program, List.mem_cons, List.not_mem_nil, or_false] at hmem
    rcases hmem with rfl | rfl | rfl
    · cases hboundary
    · exact ⟨1, rfl⟩
    · exact ⟨2, rfl⟩
  have hclear : (Spot.first machine.world).Clear (machine.scope DryRun.host) program := by
    intro _ next command _ hcommand hboundary
    have hmem := List.mem_of_getElem? hcommand
    simp only [program, List.mem_cons, List.not_mem_nil, or_false] at hmem
    rcases hmem with rfl | rfl | rfl
    · exact ⟨_, _, .plain rfl rfl⟩
    · cases hboundary
    · cases hboundary
  obtain ⟨moves, final, visits, hrun, _, _, _, _, _, hvisits⟩ :=
    nested_loops_multiply {} hreachable rfl rfl rfl rfl rfl hends hclear
  exact ⟨machine, visits, moves, final, hreachable, hrun,
    (hvisits.executed 0 (by decide)).trans (by decide),
    (hvisits.counts_down 1 (by decide)).trans (by decide)⟩

/-- A rewind takes less than the pause and the wait of the loop when the clock does not grant that
wait in full. -/
theorem rewind_cut_short :
    ∃ queued final : Machine DryRun,
      (Machine.handle { engine := .ofSettings {}, world := { host := {} } } {}
        (.enqueue { name := "m", contents := "/loop 1 <wait.1892160000>" } none)).1 = queued ∧
      (queued.engine.queue.flatMap Activation.commands).map Command.wait =
        [.fixed 1892160000000] ∧
      runUntilIdle? DryRun.host {} 8 [] queued = some (final, []) ∧
      final.engine.runState = .stopped ∧
      final.world.now ≠ queued.world.now + rewindPause + 1892160000000 := by
  let queued : Machine DryRun :=
    (Machine.handle { engine := .ofSettings {}, world := { host := {} } } {}
      (.enqueue { name := "m", contents := "/loop 1 <wait.1892160000>" } none)).1
  have hwaits : (queued.engine.queue.flatMap Activation.commands).map Command.wait =
      [.fixed 1892160000000] := by decide +kernel
  have hrun : (runUntilIdle? DryRun.host {} 8 [] queued).map
      (fun result => (result.2, result.1.engine.runState, result.1.world.now)) =
      some ([], .stopped, 946080000010) := by decide +kernel
  obtain ⟨⟨final, observations⟩, hfinal, hseen⟩ := Option.map_eq_some_iff.mp hrun
  simp only [Prod.mk.injEq] at hseen
  obtain ⟨rfl, hstate, hnow⟩ := hseen
  exact ⟨queued, final, rfl, hwaits, hfinal, hstate, by rw [hnow]; decide +kernel⟩

end Machine

end GameMacros
