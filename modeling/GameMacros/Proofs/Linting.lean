import GameMacros.CommandLine.Lint
import GameMacros.Proofs.Aborting
import GameMacros.Proofs.CraftLoops
import GameMacros.Proofs.Origins

/-!
# Clean lints

Linting reads the contents of the macros of a library and looks up the names that they call. The
engine reads the macros as they are wrapped, and looks a name up when the call is executed. Still a
clean lint is enough: the standard wrap adds only commands that can be read and that call nothing,
and what runs comes from the library, at whatever depth.
-/

namespace GameMacros

open Execution

/-! ## Names -/

namespace Library

variable {library : Library} {saved : SavedMacro} {name : String}

/-- A macro that is found is in the library and has the name. -/
theorem mem_of_find (h : library.find name = .ok saved) :
    saved ∈ library.allMacros ∧ saved.name = name := by
  unfold find at h
  split at h
  · cases h
  · next single hfilter =>
    cases h
    have hmem : saved ∈ library.allMacros.filter (·.name == name) := by simp [hfilter]
    simpa using hmem
  · cases h

/-- Of macros with different names a name selects one. -/
theorem filter_name_eq {macros : List SavedMacro} (hnames : (macros.map SavedMacro.name).Nodup)
    (hsaved : saved ∈ macros) : macros.filter (·.name == saved.name) = [saved] := by
  induction macros with
  | nil => cases hsaved
  | cons first others ih =>
    rw [List.map_cons, List.nodup_cons] at hnames
    obtain ⟨hfirst, hothers⟩ := hnames
    obtain rfl | hsaved := List.mem_cons.mp hsaved
    · have hnone : others.filter (·.name == saved.name) = [] := by
        simp only [List.filter_eq_nil_iff, beq_iff_eq]
        exact fun other hother hname => hfirst (hname ▸ List.mem_map_of_mem hother)
      simp [hnone]
    · have hdifferent : first.name ≠ saved.name := by
        intro hname
        exact hfirst (hname ▸ List.mem_map_of_mem hsaved)
      simp [hdifferent, ih hothers hsaved]

/-- A macro whose name is not used twice is found by it. -/
theorem find_of_nodup (hnames : (library.allMacros.map SavedMacro.name).Nodup)
    (hsaved : saved ∈ library.allMacros) : library.find saved.name = .ok saved := by
  rw [find, filter_name_eq hnames hsaved]

/-- Macros without problems have names that differ from each other and from earlier ones, and counts
in their range. -/
theorem of_macroProblems_eq_nil {macros : List SavedMacro} {earlier : List String}
    (hearlier : earlier.Nodup) (h : macroProblems earlier macros = []) :
    (macros.map SavedMacro.name).Nodup ∧
      ∀ saved ∈ macros, saved.name ∉ earlier ∧ saved.hasBadCount = false := by
  induction macros generalizing earlier with
  | nil => simp
  | cons saved others ih =>
    unfold macroProblems at h
    split at h
    · cases h
    simp only [List.append_eq_nil_iff, ite_eq_right_iff, reduceCtorEq, imp_false] at h
    obtain ⟨⟨honce, hcount⟩, hothers⟩ := h
    have hnew : saved.name ∉ earlier := by
      intro hmem
      exact honce (List.count_eq_one_of_mem hearlier hmem)
    obtain ⟨hnames, hall⟩ := ih (List.nodup_cons.mpr ⟨hnew, hearlier⟩) hothers
    rw [List.map_cons, List.nodup_cons, List.forall_mem_cons]
    refine ⟨⟨?_, hnames⟩, ⟨hnew, by simpa using hcount⟩, ?_⟩
    · intro hmem
      obtain ⟨other, hother, hname⟩ := List.mem_map.mp hmem
      exact (hall other hother).1 (hname ▸ List.mem_cons_self)
    · intro other hother
      obtain ⟨hdifferent, hrange⟩ := hall other hother
      exact ⟨fun hmem => hdifferent (List.mem_cons_of_mem _ hmem), hrange⟩

end Library

/-! ## Calls -/

namespace Lint

/-- A command calls a macro exactly if it is a call. -/
theorem callee?_eq_some {command : Command} {name : String} :
    callee? command = some name ↔ command.kind = .runMacro name := by
  unfold callee?
  cases command.kind <;> simp

/-- A text without problems can be read, and each name that it calls is found. -/
theorem of_source_eq_nil {label : String} {reader : LineReader} {library : Library}
    {text : List Char} (h : source label reader (some library) text = []) :
    ∃ body, reader.commands text = .ok body ∧ ∀ command ∈ body, ∀ name,
      command.kind = .runMacro name → ∃ called, library.find name = .ok called := by
  unfold source at h
  split at h
  · cases h
  · next body hbody =>
    refine ⟨body, hbody, fun command hcommand name hkind => ?_⟩
    have hquiet := List.filterMap_eq_nil_iff.mp h command hcommand
    rw [callee?_eq_some.mpr hkind, Option.map_some] at hquiet
    cases hfind : library.find name with
    | error error => simp [hfind] at hquiet
    | ok called => exact ⟨called, rfl⟩

/-- What a clean lint says of a library. -/
structure Clean (library : Library) (reader : LineReader) : Prop where
  /-- Each macro is found by its name. -/
  find_eq : ∀ saved ∈ library.allMacros, library.find saved.name = .ok saved
  /-- The count of a craft loop is in its range. -/
  count_le : ∀ saved ∈ library.allMacros, saved.craftLoop = true → saved.craftLoopCount ≤ 999
  /-- The contents can be read, and each name that they call is found. -/
  readable : ∀ saved ∈ library.allMacros, ∃ body,
    reader.commands saved.contents.toList = .ok body ∧ ∀ command ∈ body, ∀ name,
      command.kind = .runMacro name → ∃ called, library.find name = .ok called

/-- A lint that lists nothing is clean. -/
theorem clean_of_eq_nil {library : Library} {reader : LineReader}
    (h : Lint.library library reader = []) : Clean library reader := by
  obtain ⟨hproblems, hsources⟩ := List.append_eq_nil_iff.mp h
  have hmacros : Library.macroProblems [] library.allMacros = [] :=
    (List.append_eq_nil_iff.mp (List.map_eq_nil_iff.mp hproblems)).2
  obtain ⟨hnames, hall⟩ := Library.of_macroProblems_eq_nil List.nodup_nil hmacros
  refine ⟨fun saved => Library.find_of_nodup hnames, fun saved hsaved hcraftLoop => ?_,
    fun saved hsaved => of_source_eq_nil (List.flatMap_eq_nil_iff.mp hsources saved hsaved)⟩
  have hcount := (hall saved hsaved).2
  simp [SavedMacro.hasBadCount, hcraftLoop] at hcount
  omega

end Lint

/-- The wrap of a craft loop calls nothing by itself. -/
theorem CraftLoop.Layout.mem_body_of_call {steps body commands : List Command}
    {fromCraftingLog : Bool} {count : Int} (h : Layout steps body fromCraftingLog count commands)
    (hsteps : OpensSynthesis steps) {command : Command} (hcommand : command ∈ commands)
    {name : String} (hkind : command.kind = .runMacro name) : command ∈ body := by
  have hsteps : command ∉ steps := by
    intro hmem
    have hsteers := hsteps.not_steers command hmem
    simp [Command.steers, hkind] at hsteers
  have hdifferent {other : Command} {kind : Command.Kind} (hother : other.kind = kind)
      (hkinds : kind ≠ .runMacro name) : command ≠ other := by
    rintro rfl
    exact hkinds (hother.symm.trans hkind)
  cases h with
  | endless _ hloop =>
    have hloop := hdifferent hloop (by simp)
    unfold endlessRound at hcommand
    split at hcommand <;> simpa [hsteps, hloop] using hcommand
  | single =>
    unfold crafting at hcommand
    split at hcommand <;> simpa [hsteps] using hcommand
  | gateAtTop hgate hloop | gateAfterBody hgate hloop =>
    have hgate := hdifferent hgate (by simp)
    have hloop := hdifferent hloop (by simp)
    simpa [hsteps, hgate, hloop] using hcommand

/-- A macro that can be read can still be read when it is wrapped in the standard lines, and calls
nothing else then. -/
theorem SavedMacro.exists_program {saved : SavedMacro} {settings : Settings} {reader : LineReader}
    {body : List Command} (htemplate : settings.useCraftLoopTemplate = false)
    (hbody : reader.commands saved.contents.toList = .ok body)
    (hcount : saved.craftLoop = true → saved.craftLoopCount ≤ Numeral.max32) :
    ∃ program, saved.program settings reader none = .ok program ∧
      ∀ command ∈ program.commands, ∀ name, command.kind = .runMacro name → command ∈ body := by
  by_cases hwrapped : saved.craftLoop = true ∧ saved.craftLoopCount ≠ 0
  · obtain ⟨hcraftLoop, hnonzero⟩ := hwrapped
    obtain ⟨steps, commands, hsteps, hcommands, hlayout⟩ :=
      CraftLoop.exists_layout reader hbody settings.craftLoopFromRecipeNote settings.craftLoopEcho
        settings.craftLoopMaxWait hnonzero (hcount hcraftLoop)
    refine ⟨⟨saved.name, commands⟩, ?_,
      fun command hcommand name hkind => hlayout.mem_body_of_call hsteps hcommand hkind⟩
    simp only [program, source, hcraftLoop, CraftLoop.Template.ofSettings, htemplate, if_true,
      Bool.false_eq_true, if_false, hcommands, Except.map]
  · have hsource : saved.source settings none = saved.contents.toList := by
      unfold source
      cases hcraftLoop : saved.craftLoop with
      | false => rfl
      | true =>
        have hzero : saved.craftLoopCount = 0 := by simpa [hcraftLoop] using hwrapped
        simp [CraftLoop.wrap, hzero]
    refine ⟨⟨saved.name, body⟩, ?_, fun command hcommand _ _ => hcommand⟩
    rw [program, hsource, hbody]
    rfl

/-! ## Runs -/

/-- Each call of the program names a macro of the library that can be read. -/
def Program.CallsReadable (library : Library) (settings : Settings) (program : Program) : Prop :=
  ∀ command ∈ program.commands, ∀ name, command.kind = .runMacro name →
    ∃ called callee, library.find name = .ok called ∧
      called.program settings (.ofSettings settings) none = .ok callee

/-- If the move queues a macro, it is one of the library, by its name and with its own counts. -/
def Move.QueuesFrom {σ : Type} (library : Library) (move : Move σ) : Prop :=
  ∀ source call, move = .call source call → call.Queues →
    source = library ∧ ∃ name, call = .enqueueByName name none

namespace Lint

variable {library : Library} {settings : Settings} {saved : SavedMacro}

/-- In a library with a clean lint every macro can be read, and so can those that it calls. -/
theorem Clean.exists_program (h : Clean library (.ofSettings settings))
    (htemplate : settings.useCraftLoopTemplate = false) (hsaved : saved ∈ library.allMacros) :
    ∃ program, saved.program settings (.ofSettings settings) none = .ok program ∧
      program.CallsReadable library settings := by
  have hreadable {saved : SavedMacro} (hsaved : saved ∈ library.allMacros) :
      ∃ (body : List Command) (program : Program),
        saved.program settings (.ofSettings settings) none = .ok program ∧
        (∀ command ∈ program.commands, ∀ name, command.kind = .runMacro name → command ∈ body) ∧
        ∀ command ∈ body, ∀ name, command.kind = .runMacro name →
          ∃ called, library.find name = .ok called := by
    obtain ⟨body, hbody, hcalls⟩ := h.readable saved hsaved
    have hcount (hcraftLoop : saved.craftLoop = true) :
        saved.craftLoopCount ≤ Numeral.max32 :=
      (h.count_le saved hsaved hcraftLoop).trans (by decide)
    obtain ⟨program, hprogram, hmem⟩ := SavedMacro.exists_program htemplate hbody hcount
    exact ⟨body, program, hprogram, hmem, hcalls⟩
  obtain ⟨body, program, hprogram, hmem, hcalls⟩ := hreadable hsaved
  refine ⟨program, hprogram, fun command hcommand name hkind => ?_⟩
  obtain ⟨called, hfound⟩ := hcalls command (hmem command hcommand name hkind) name hkind
  obtain ⟨_, callee, hcallee, _⟩ := hreadable (Library.mem_of_find hfound).1
  exact ⟨called, callee, hfound, hcallee⟩

end Lint

namespace Machine

variable {σ : Type} {host : Host σ} {machine : Machine σ} {library : Library} {settings : Settings}
  {failure : CommandFailure} {worker : Activation} {world : World σ}

/-- A command whose calls can be read fails for no call. -/
theorem Fails.isOfCall_eq (h : Fails host machine failure worker world)
    (hprogram : worker.program.CallsReadable library machine.engine.settings)
    (hreader : machine.engine.reader = .ofSettings machine.engine.settings)
    (hhost : ∀ state now name, host.findMacro state now name = library.find name) :
    failure.isOfCall = false := by
  cases h with
  | @starts _ command hstarting hcurrent hfailed =>
    rw [Bool.eq_false_iff]
    intro hcall
    obtain ⟨name, hkind⟩ := (silent_of_start_failed hfailed).1 hcall
    obtain ⟨called, callee, hfound, hcallee⟩ :=
      hprogram command (Activation.mem_program_of_current? hcurrent) name hkind
    have hask : machine.world.ask (machine.scope host).host.findMacro name = .ok called :=
      (hhost _ _ name).trans hfound
    have hread : called.program (machine.scope host).settings (machine.scope host).reader none =
        .ok callee := by
      simp only [scope, hreader, hcallee]
    simp only [start, hkind, runMacro, hask, hread] at hfailed
    exact trailingWait_ne_failed hfailed
  | resumes _ _ _ hfailed => exact (polls_of_resume_failed hfailed).2.1

/-- In a run that queues macros of a library with a clean lint, what runs calls only macros that
can be read. -/
theorem Run.callsReadable {moves : List (Move σ)}
    (hrun : Run host { engine := .ofSettings settings, world } moves machine)
    (hlint : Lint.Clean library (.ofSettings settings))
    (htemplate : settings.useCraftLoopTemplate = false)
    (hhost : ∀ state now name, host.findMacro state now name = library.find name)
    (hqueued : ∀ move ∈ moves, move.QueuesFrom library) :
    machine.RunsOnly (Program.CallsReadable library settings) := by
  have hmember {saved : SavedMacro} {name : String} (hfound : library.find name = .ok saved)
      {program : Program}
      (hprogram : saved.program settings (.ofSettings settings) none = .ok program) :
      program.CallsReadable library settings := by
    obtain ⟨other, hother, hcalls⟩ :=
      hlint.exists_program htemplate (Library.mem_of_find hfound).1
    exact Except.ok.inj (hother.symm.trans hprogram) ▸ hcalls
  refine hrun.runsOnly (runsOnly_new settings world) ?_ ?_
  · intro program _ command _ name _ state now saved hfound callee hcallee
    exact hmember ((hhost state now name).symm.trans hfound) hcallee
  · rintro move hmove source call hcall saved loops hasks program hprogram
    cases hasks with
    | enqueue =>
      obtain ⟨_, name, hname⟩ := hqueued move hmove source _ hcall trivial
      cases hname
    | byName hfound =>
      obtain ⟨rfl, name, hname⟩ := hqueued move hmove source _ hcall trivial
      cases hname
      exact hmember hfound hprogram

/-- If the lint of a library is clean and craft loops are wrapped in the standard lines, every macro
of the library is found by its name and can be read, whatever its craft loop. In a run that queues
macros of the library by name no command fails because a macro is not found or cannot be read. -/
theorem clean_lint_runs (htemplate : settings.useCraftLoopTemplate = false)
    (hlint : Lint.library library (.ofSettings settings) = [])
    (hhost : ∀ state now name, host.findMacro state now name = library.find name) :
    (∀ saved ∈ library.allMacros, library.find saved.name = .ok saved ∧
      (∃ program, saved.program settings (.ofSettings settings) none = .ok program) ∧
      ∀ craftLoop (craftLoopCount : Int), craftLoopCount ≤ 0x7FFFFFFF →
        ∃ program, { saved with craftLoop, craftLoopCount }.program settings (.ofSettings settings)
          none = .ok program) ∧
    ∀ (world : World σ) moves machine,
      Run host { engine := .ofSettings settings, world } moves machine →
      (∀ move ∈ moves, move.QueuesFrom library) →
      (∀ error, machine.outcome? host ≠ some (.failed (.noSuchMacro error))) ∧
        ∀ error, machine.outcome? host ≠ some (.failed (.badMacro error)) := by
  have hclean := Lint.clean_of_eq_nil hlint
  refine ⟨fun saved hsaved => ⟨hclean.find_eq saved hsaved, ?_, ?_⟩, ?_⟩
  · obtain ⟨program, hprogram, _⟩ := hclean.exists_program htemplate hsaved
    exact ⟨program, hprogram⟩
  · intro craftLoop craftLoopCount hcount
    obtain ⟨body, hbody, _⟩ := hclean.readable saved hsaved
    have hlimit : craftLoopCount ≤ Numeral.max32 := hcount.trans (by decide)
    let looped : SavedMacro := { saved with craftLoop, craftLoopCount }
    have hcontents : (LineReader.ofSettings settings).commands looped.contents.toList = .ok body :=
      hbody
    obtain ⟨program, hprogram, _⟩ :=
      SavedMacro.exists_program htemplate hcontents fun _ => hlimit
    exact ⟨program, hprogram⟩
  · intro world moves machine hrun hqueued
    have hruns := hrun.callsReadable hclean htemplate hhost hqueued
    have hframe := hrun.frame
    have hfails {failure : CommandFailure}
        (hfailed : machine.outcome? host = some (.failed failure)) : failure.isOfCall = false := by
      obtain ⟨worker, later, hfails⟩ := exists_fails hfailed
      have hprogram := hruns.of_worker? hfails.worker?_eq.1
      refine hfails.isOfCall_eq (hframe.settings_eq ▸ hprogram) ?_ hhost
      rw [hframe.reader_eq, hframe.settings_eq]
      rfl
    exact ⟨fun _ hfailed => Bool.noConfusion (hfails hfailed),
      fun _ hfailed => Bool.noConfusion (hfails hfailed)⟩

/-- A craft loop that calls a macro that calls a third one, under a clean lint. -/
theorem clean_lint_runs_of_calls :
    ∃ (library : Library) (host : Host DryRun) (world : World DryRun) (moves : List (Move DryRun))
      (machine : Machine DryRun),
      ({} : Settings).useCraftLoopTemplate = false ∧
        Lint.library library (.ofSettings {}) = [] ∧
        (∀ state now name, host.findMacro state now name = library.find name) ∧
        Run host { engine := .ofSettings {}, world } moves machine ∧
        (∀ move ∈ moves, move.QueuesFrom library) ∧
        machine.engine.queue.map Activation.name = ["inner", "outer"] ∧
        machine.outcome? host = some (.asleep 1000 .trailing) ∧
        (∀ saved ∈ library.allMacros, library.find saved.name = .ok saved) ∧
        (∀ error, machine.outcome? host ≠ some (.failed (.noSuchMacro error))) ∧
        ∀ error, machine.outcome? host ≠ some (.failed (.badMacro error)) := by
  let outer : SavedMacro :=
    { name := "outer", contents := "/runmacro inner", craftLoop := true, craftLoopCount := 2 }
  let inner : SavedMacro := { name := "inner", contents := "/runmacro \"leaf\" <wait.1>\n/loop 3" }
  let leaf : SavedMacro := { name := "leaf", contents := "/echo crafted" }
  let library : Library := { macros := [outer], folders := [.mk "crafting" [inner, leaf] []] }
  let host : Host DryRun := { DryRun.host with findMacro := fun _ _ name => library.find name }
  let world : World DryRun := { host := {} }
  let moves : List (Move DryRun) :=
    .call library (.enqueueByName "outer" none) :: .launch .untilIdle :: List.replicate 5 .work
  have hlint : Lint.library library (.ofSettings {}) = [] := by decide +kernel
  have hfollow : (follow? host moves { engine := .ofSettings {}, world }).map
      (fun machine => decide (machine.engine.queue.map Activation.name = ["inner", "outer"] ∧
        machine.outcome? host = some (.asleep 1000 .trailing))) = some true := by decide +kernel
  obtain ⟨machine, hmachine, hseen⟩ := Option.map_eq_some_iff.mp hfollow
  obtain ⟨hqueue, houtcome⟩ := of_decide_eq_true hseen
  have hrun := run_of_follow? hmachine
  have hhost : ∀ state now name, host.findMacro state now name = library.find name :=
    fun _ _ _ => rfl
  have hqueued : ∀ move ∈ moves, move.QueuesFrom library := by
    rintro move hmove source call rfl _
    simp only [moves, List.mem_cons, List.mem_replicate, reduceCtorEq, and_false, or_false,
      Move.call.injEq] at hmove
    obtain ⟨rfl, rfl⟩ := hmove
    exact ⟨rfl, "outer", rfl⟩
  obtain ⟨hall, hruns⟩ := clean_lint_runs rfl hlint hhost
  obtain ⟨hfound, hread⟩ := hruns world moves machine hrun hqueued
  exact ⟨library, host, world, moves, machine, rfl, hlint, hhost, hrun, hqueued, hqueue,
    houtcome, fun saved hsaved => (hall saved hsaved).1, hfound, hread⟩

end Machine

end GameMacros
