import GameMacros.Script.Program
import Mathlib.Algebra.Order.BigOperators.Group.List
import Mathlib.Data.ENat.Lattice
import Mathlib.Data.Set.Finite.Lattice
import Mathlib.Logic.Relation
import Mathlib.Order.CompletePartialOrder
import Mathlib.Order.WellFounded
import Mathlib.Tactic.GCongr

/-!
# Expanded programs

A command that calls a macro stands for all commands of that macro. The expanded length of a program
counts its commands together with those of the programs they call, to every depth. What a command
may call is a relation here, because the same name may be found differently at different times; the
greatest length counts. The length is finite when finitely many programs can be called and none of
those that are reached calls itself in the end.
-/

namespace GameMacros

/-- The programs that a command may call when these macros are found under these names. -/
def Command.MayCall (finds : String → SavedMacro → Prop) (settings : Settings)
    (reader : LineReader) (command : Command) (callee : Program) : Prop :=
  ∃ name saved, command.kind = .runMacro name ∧ finds name saved ∧
    saved.program settings reader none = .ok callee

namespace Program

variable {calls : Command → Program → Prop} {program callee : Program} {command : Command}

/-- How many commands there are in a program and in those it calls, to a depth. -/
noncomputable def lengthTo (calls : Command → Program → Prop) : (depth : ℕ) → Program → ℕ∞
  | 0, _ => 0
  | depth + 1, program =>
    (program.commands.map fun command =>
      1 + ⨆ (callee : Program) (_ : calls command callee), lengthTo calls depth callee).sum

/-- How many commands there are in a program and in those it calls, to every depth. -/
noncomputable def expandedLength (calls : Command → Program → Prop) (program : Program) : ℕ∞ :=
  ⨆ depth, lengthTo calls depth program

/-- A command counts as one and as all that it calls. -/
noncomputable def commandLength (calls : Command → Program → Prop) (command : Command) : ℕ∞ :=
  1 + ⨆ (callee : Program) (_ : calls command callee), expandedLength calls callee

/-- There are more commands to a greater depth. -/
theorem monotone_lengthTo (calls : Command → Program → Prop) (program : Program) :
    Monotone fun depth => lengthTo calls depth program := by
  apply monotone_nat_of_le_succ
  intro depth
  induction depth generalizing program with
  | zero => exact bot_le
  | succ depth ih =>
    apply List.sum_le_sum
    intro command _
    gcongr with callee _
    exact ih callee

/-- The greatest sum over a list is the sum of what is greatest, where all grows together. -/
theorem iSup_sum_map {α : Type} {length : ℕ → α → ℕ∞} {items : List α}
    (hmono : ∀ item ∈ items, Monotone fun depth => length depth item) :
    ⨆ depth, (items.map (length depth)).sum =
      (items.map fun item => ⨆ depth, length depth item).sum := by
  induction items with
  | nil => simp
  | cons item items ih =>
    obtain ⟨hitem, hitems⟩ := List.forall_mem_cons.mp hmono
    have hothers : Monotone fun depth => (items.map (length depth)).sum := by
      intro depth deeper hle
      exact List.sum_le_sum fun other hother => hitems other hother hle
    simp only [List.map_cons, List.sum_cons]
    rw [← ENat.iSup_add_iSup_of_monotone hitem hothers, ih hitems]

/-- A program is as long as its commands are with all that they call. -/
theorem expandedLength_eq (calls : Command → Program → Prop) (program : Program) :
    expandedLength calls program = (program.commands.map (commandLength calls)).sum := by
  have hshift : expandedLength calls program = ⨆ depth, lengthTo calls (depth + 1) program := by
    rw [expandedLength]
    exact (monotone_lengthTo calls program).iSup_nat_add 1 |>.symm
  rw [hshift]
  simp only [lengthTo]
  rw [iSup_sum_map]
  · congr 2
    funext command
    rw [commandLength, ← ENat.add_iSup]
    congr 1
    rw [iSup_comm]
    refine iSup_congr fun callee => ?_
    rw [iSup_comm]
    rfl
  · intro command _ depth deeper hle
    have hdeeper (callee : Program) :
        lengthTo calls depth callee ≤ lengthTo calls deeper callee :=
      monotone_lengthTo calls callee hle
    dsimp only
    gcongr with callee _
    exact hdeeper callee

/-- A command that calls a program is longer than that program. -/
theorem add_expandedLength_le (h : calls command callee) :
    1 + expandedLength calls callee ≤ commandLength calls command := by
  unfold commandLength
  gcongr
  exact le_iSup₂_of_le callee h le_rfl

/-- A command counts at least as one. -/
theorem one_le_commandLength (calls : Command → Program → Prop) (command : Command) :
    1 ≤ commandLength calls command :=
  le_self_add

/-! ## Finite lengths -/

/-- A command of the program may call the other one. -/
def Refers (calls : Command → Program → Prop) (program callee : Program) : Prop :=
  ∃ command ∈ program.commands, calls command callee

/-- No program that is reached from this one reaches itself. -/
def Acyclic (calls : Command → Program → Prop) (program : Program) : Prop :=
  ∀ reached, Relation.ReflTransGen (Refers calls) program reached →
    ¬Relation.TransGen (Refers calls) reached reached

/-- A command is finite if it may call finitely many programs, all of them finite. -/
theorem commandLength_ne_top (hfinite : {callee | calls command callee}.Finite)
    (h : ∀ callee, calls command callee → expandedLength calls callee ≠ ⊤) :
    commandLength calls command ≠ ⊤ := by
  have hsup : ⨆ callee ∈ hfinite.toFinset, expandedLength calls callee ≠ ⊤ := by
    rw [← Finset.sup_eq_iSup, ← lt_top_iff_ne_top, Finset.sup_lt_iff bot_lt_top]
    intro callee hcallee
    exact lt_top_iff_ne_top.mpr (h callee (by simpa using hcallee))
  simp only [Set.Finite.mem_toFinset, Set.mem_ofPred_eq] at hsup
  rw [commandLength, ← lt_top_iff_ne_top, ENat.add_lt_top]
  exact ⟨ENat.one_lt_top, lt_top_iff_ne_top.mpr hsup⟩

/-- A sum of finite lengths is finite. -/
theorem sum_map_ne_top {α : Type} {length : α → ℕ∞} {items : List α}
    (h : ∀ item ∈ items, length item ≠ ⊤) : (items.map length).sum ≠ ⊤ := by
  induction items with
  | nil => simp
  | cons item items ih =>
    obtain ⟨hitem, hitems⟩ := List.forall_mem_cons.mp h
    rw [List.map_cons, List.sum_cons, ← lt_top_iff_ne_top, ENat.add_lt_top]
    exact ⟨lt_top_iff_ne_top.mpr hitem, lt_top_iff_ne_top.mpr (ih hitems)⟩

/-- A program has a finite length if no program that it reaches reaches itself, and finitely many
programs can be called at all. -/
theorem expandedLength_ne_top (hfinite : {callee | ∃ command, calls command callee}.Finite)
    (hacyclic : Acyclic calls program) : expandedLength calls program ≠ ⊤ := by
  -- The programs that are reached, finitely many, and well-founded by what they call.
  let reached : Set Program := {other | Relation.ReflTransGen (Refers calls) program other}
  have hreached : reached.Finite := by
    refine (hfinite.insert program).subset ?_
    intro other hother
    cases hother with
    | refl => exact .inl rfl
    | tail _ hlast =>
      obtain ⟨command, _, hcalls⟩ := hlast
      exact .inr ⟨command, hcalls⟩
  have : Finite reached := hreached
  let above (other later : reached) : Prop := Relation.TransGen (Refers calls) later.1 other.1
  have : IsTrans reached above := ⟨fun _ _ _ h h' => h'.trans h⟩
  have : Std.Irrefl above := ⟨fun other h => hacyclic other.1 other.2 h⟩
  have hwf : WellFounded above := Finite.wellFounded_of_trans_of_irrefl above
  have hall (other : reached) : expandedLength calls other.1 ≠ ⊤ := by
    induction other using hwf.induction with
    | _ other ih =>
      rw [expandedLength_eq]
      apply sum_map_ne_top
      intro command hcommand
      apply commandLength_ne_top
      · exact hfinite.subset fun callee hcalls => ⟨command, hcalls⟩
      · intro callee hcalls
        have hrefers : Refers calls other.1 callee := ⟨command, hcommand, hcalls⟩
        exact ih ⟨callee, Relation.ReflTransGen.tail other.2 hrefers⟩ (.single hrefers)
  exact hall ⟨program, .refl⟩

end Program

end GameMacros
