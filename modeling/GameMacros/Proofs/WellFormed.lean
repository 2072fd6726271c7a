import GameMacros.Proofs.LoopLines

/-!
# Well-formed commands

What is executed is not checked again: a delay is drawn from the wait, the last key of a combination
is struck, and names are looked up. All of it is there in every command that a line is read as,
whatever the line and the verbs of the game.
-/

namespace GameMacros

/-! ## Waits -/

namespace Wait

/-- The shortest delay. -/
def least : Wait → Nat
  | .fixed ms => ms
  | .between least _ _ => least

/-- What the delays of a range stay below; zero for a fixed delay. -/
def bound : Wait → Nat
  | .fixed _ => 0
  | .between _ bound _ => bound

/-- A delay can be drawn: the fixed one, or one of a range that is not empty. -/
structure Drawable (wait : Wait) : Prop where
  bound_cases : wait.bound = 0 ∨ wait.least < wait.bound
  draw_eq : wait.bound = 0 → ∀ roll, wait.draw roll = wait.least
  draw_lt : wait.bound ≠ 0 → ∀ roll, wait.least ≤ wait.draw roll ∧ wait.draw roll < wait.bound

/-- A delay can be drawn from every wait. -/
theorem drawable (wait : Wait) : wait.Drawable := by
  cases wait with
  | fixed ms => exact ⟨.inl rfl, fun _ _ => rfl, fun hne => absurd rfl hne⟩
  | between least bound hlt =>
    refine ⟨.inr hlt, fun hzero => ?_, fun _ roll => ?_⟩
    · obtain rfl : bound = 0 := hzero
      omega
    · have hallows := allows_draw (.between least bound hlt) roll
      simp only [allows, Bool.and_eq_true, decide_eq_true_eq] at hallows
      exact hallows

/-- A wait as it is written: a number of seconds, or two of which the second is not less. Two equal
ones are written for a fixed delay. -/
inductive Written (s : List Char) : Wait → Prop
  | fixed {ms : Nat} (hcut : Text.splitOnce '-' s = none) (hms : milliseconds? s = some ms) :
      Written s (.fixed ms)
  | same {start stop : List Char} {ms : Nat} (hcut : Text.splitOnce '-' s = some (start, stop))
      (hstart : milliseconds? start = some ms) (hstop : milliseconds? stop = some ms) :
      Written s (.fixed ms)
  | range {start stop : List Char} {least bound : Nat}
      (hcut : Text.splitOnce '-' s = some (start, stop))
      (hstart : milliseconds? start = some least) (hstop : milliseconds? stop = some bound)
      (hlt : least < bound) : Written s (.between least bound hlt)

/-- What is read as a wait is what is written as one. -/
theorem ofSeconds?_eq_some_iff {s : List Char} {wait : Wait} :
    ofSeconds? s = some wait ↔ Written s wait := by
  constructor
  · intro h
    unfold ofSeconds? at h
    split at h
    · next start stop hcut =>
      split at h
      · next least bound hstart hstop =>
        split at h
        · cases h
        · next hle =>
          cases h
          unfold Wait.range
          split
          · next hlt => exact .range hcut hstart hstop hlt
          · obtain rfl : least = bound := by omega
            exact .same hcut hstart hstop
      · cases h
    · next hcut =>
      obtain ⟨ms, hms, rfl⟩ := Option.map_eq_some_iff.mp h
      exact .fixed hcut hms
  · intro h
    cases h with
    | fixed hcut hms => simp [ofSeconds?, hcut, hms]
    | same hcut hstart hstop => simp [ofSeconds?, hcut, hstart, hstop, Wait.range]
    | range hcut hstart hstop hlt =>
      simp [ofSeconds?, hcut, hstart, hstop, Wait.range, hlt, Nat.lt_asymm hlt]

end Wait

/-! ## Names, conditions and keys -/

/-- A name with something in it and no blanks around it. -/
structure IsName (name : String) : Prop where
  ne_empty : name ≠ ""
  trimmed_eq : Text.trimmed name = name

/-- What is read as a name is one. -/
theorem Line.isName_of_name? {arguments : List Char} {name : String}
    (h : name? arguments = some name) : IsName name := by
  unfold name? at h
  dsimp only at h
  split at h
  · cases h
  · next hne =>
    cases h
    constructor
    · simpa using hne
    · rw [Text.trimmed, String.toList_ofList, Text.trim_trim]

/-- A condition with a name and no empty names. -/
structure Condition.IsSound (condition : Condition) : Prop where
  names_ne : condition.names ≠ []
  name_ne : ∀ name ∈ condition.names, name ≠ ""

/-- What is read as a condition is a sound one. -/
theorem Condition.isSound_of_ofText? {s : List Char} {condition : Condition}
    (h : Condition.ofText? s = some condition) : condition.IsSound := by
  unfold Condition.ofText? at h
  dsimp only at h
  split at h
  · cases h
  · next hsome =>
    cases h
    refine ⟨hsome, fun name hmem => ?_⟩
    rw [namesOf, Text.mem_sortedSet, List.mem_filter] at hmem
    exact of_decide_eq_true hmem.2

namespace KeyCombo

/-- A combination of the keys with these names. Its last key is struck while the others are held. -/
structure MadeOf (combo : KeyCombo) (names : List (List Char)) : Prop where
  named : names.map Key.ofName? = combo.keys.map some
  keys_ne : combo.keys ≠ []
  primary_eq : combo.keys.getLast? = some combo.primary
  held_eq : combo.keys.dropLast = combo.held

/-- Reading names finds the keys that have them. -/
theorem readKeys_eq_ok_iff {names : List (List Char)} {keys : List Key} :
    readKeys names = .ok keys ↔ names.map Key.ofName? = keys.map some := by
  induction names generalizing keys with
  | nil =>
    cases keys with
    | nil => exact iff_of_true rfl rfl
    | cons key keys => exact iff_of_false nofun nofun
  | cons name names ih =>
    rw [readKeys, List.map_cons]
    cases hname : Key.ofName? name with
    | none => exact iff_of_false nofun (by cases keys <;> simp)
    | some first =>
      constructor
      · intro h
        obtain ⟨others, hothers, rfl⟩ := exists_of_map_eq_ok h
        rw [ih.mp hothers, List.map_cons]
      · intro h
        cases keys with
        | nil => cases h
        | cons key keys =>
          obtain ⟨hfirst, hothers⟩ := List.cons.inj h
          obtain rfl := Option.some.inj hfirst
          simp only [ih.mpr hothers]
          rfl

/-- What is read as a combination is made of the keys named between plus signs. -/
theorem madeOf_of_ofText {s : List Char} {combo : KeyCombo} (h : ofText s = .ok combo) :
    combo.MadeOf (Text.pieces '+' s) := by
  unfold ofText at h
  split at h
  · cases h
  · next keys hkeys =>
    split at h
    · next primary hprimary =>
      cases h
      have hall : keys.dropLast ++ [primary] = keys :=
        List.dropLast_append_getLast? primary hprimary
      refine ⟨?_, ?_, ?_, ?_⟩ <;> simp only [KeyCombo.keys, hall]
      · exact readKeys_eq_ok_iff.mp hkeys
      · rintro rfl
        cases hprimary
      · exact hprimary
    · cases h

end KeyCombo

/-! ## Kinds of commands -/

namespace Command.Kind

/-- What a kind of command has to hold, given what is left of its line without the modifiers: names
that are names, a condition that can be met, keys that are named on the line, and for the game a
text that the line has for it. -/
def Sound (reader : LineReader) (rest : List Char) : Kind → Prop
  | .action name _ condition => IsName name ∧ ∀ found ∈ condition, found.IsSound
  | .click name | .target name | .item name _ | .require (.status name) | .runMacro name
  | .waitAddon name => IsName name
  | .recipe name => ∃ written, IsName written ∧ name = Text.lowercase written
  | .keys _ combo => ∃ word arguments, Line.splitVerb? rest = some (word, arguments) ∧
      combo.MadeOf (Text.pieces '+' arguments)
  | .native text =>
    (text.toList.head? = some '/' ∨ text.toList.head? = some '<') ∧ Line.ForGame reader rest text
  | .require _ | .loop _ | .craft _ | .wait => True

end Command.Kind

namespace Line

/-- A text for the game starts with a slash or a bracket. -/
theorem ForGame.head?_eq {reader : LineReader} {rest : List Char} {text : String}
    (h : ForGame reader rest text) :
    text.toList.head? = some '/' ∨ text.toList.head? = some '<' := by
  cases h with
  | aloud => exact .inl (by simp)
  | bracketed hopen => exact .inr (by rwa [String.toList_ofList])
  | verb hsplit =>
    obtain ⟨s, rfl, _⟩ := splitVerb?_eq_some hsplit
    exact .inl (by simp)

/-- A verb and its arguments make a sound kind of command. -/
theorem sound_of_makes {reader : LineReader} {verb : Verb} {rest word arguments : List Char}
    {modifiers : Modifiers} {kind : Command.Kind}
    (hsplit : splitVerb? rest = some (word, arguments))
    (hcondition : ∀ found ∈ modifiers.condition, found.IsSound)
    (h : Makes arguments modifiers verb kind) : kind.Sound reader rest := by
  cases h with
  | @named verb _ name hnaming hname =>
    have hsound : IsName name := isName_of_name? hname
    cases verb with
    | action =>
      cases hnaming
      exact ⟨hsound, hcondition⟩
    | recipe =>
      cases hnaming
      exact ⟨name, hsound, rfl⟩
    | click | item | require | runMacro | target | waitAddon =>
      cases hnaming
      exact hsound
    | craft | hold | loop | native | release | requireQuality | requireRepair | requireSpiritbond
    | requireStats | send | wait => cases hnaming
  | keys _ _ _ hcombo => exact ⟨word, arguments, hsplit, KeyCombo.madeOf_of_ofText hcombo⟩
  | craft | endlessLoop | loop | quality | repair | anySpiritbond | spiritbond | stats | bareWait
  | wait => trivial

/-- A delay that a line names itself is written as the arguments of its verb. -/
theorem written_of_kindAndDelay {reader : LineReader} {line : String} {modifiers : Modifiers}
    {rest : List Char} {kind : Command.Kind} {wait : Wait}
    (h : kindAndDelay reader line modifiers rest = .ok (kind, some wait)) :
    ∃ word arguments, splitVerb? rest = some (word, arguments) ∧ Wait.Written arguments wait := by
  obtain ⟨word, arguments, _, hsplit, _, _, hdelay⟩ | ⟨_, _, hdelay⟩ | ⟨_, _, _, hdelay⟩ :=
    kindAndDelay_cases h
  · refine ⟨word, arguments, hsplit, Wait.ofSeconds?_eq_some_iff.mp ?_⟩
    split at hdelay
    · unfold delay? at hdelay
      split at hdelay
      · exact hdelay.symm
      · cases hdelay
    · cases hdelay
  · cases hdelay
  · cases hdelay

end Line

/-! ## Commands -/

/-- The modifiers of a line hold what is written in it. -/
structure Modifiers.AreRead (modifiers : Modifiers) : Prop where
  wait : modifiers.wait = .zero ∨ ∃ body, Wait.Written body modifiers.wait
  condition : ∀ found ∈ modifiers.condition, found.IsSound

/-- The modifiers that are taken out of a line have been read. -/
theorem Modifiers.areRead_of_extract {line rest : List Char} {modifiers : Modifiers}
    (h : extract line = .ok (modifiers, rest)) : modifiers.AreRead := by
  have hvalue {α : Type} {modifier : ValuedModifier} {read? : List Char → Option α}
      {s kept : List Char} {value? : Option α}
      (h : takeValue modifier read? line s = .ok (value?, kept)) :
      ∀ value ∈ value?, ∃ body, read? body = some value := by
    unfold takeValue at h
    split at h
    · cases h
      nofun
    · next body _ _ =>
      split at h
      · next value hvalue =>
        cases h
        rintro _ ⟨⟩
        exact ⟨body, hvalue⟩
      · cases h
  obtain ⟨⟨wait?, _⟩, hwait, h⟩ := exists_of_bind_eq_ok h
  obtain ⟨_, _, h⟩ := exists_of_bind_eq_ok h
  obtain ⟨⟨condition?, _⟩, hcondition, h⟩ := exists_of_bind_eq_ok h
  obtain ⟨_, _, h⟩ := exists_of_bind_eq_ok h
  obtain ⟨rfl, -⟩ := Prod.mk.inj (Except.ok.inj h)
  refine ⟨?_, fun found hfound => ?_⟩
  · cases wait? with
    | none => exact .inl rfl
    | some wait =>
      obtain ⟨body, hbody⟩ := hvalue hwait wait rfl
      exact .inr ⟨body, Wait.ofSeconds?_eq_some_iff.mp hbody⟩
  · obtain ⟨body, hbody⟩ := hvalue hcondition found hfound
    exact Condition.isSound_of_ofText? hbody

/-- A command that can be executed as it is: its text is the line it comes from, a delay can be
drawn from its wait, and its kind holds what it has to. -/
structure LineReader.WellFormed (reader : LineReader) (line : List Char) (command : Command) :
    Prop where
  text_eq : command.text = String.ofList (Text.trim line)
  text_ne : command.text ≠ ""
  head?_ne : command.text.toList.head? ≠ some '#'
  wait_written : command.wait = .zero ∨ ∃ body, Wait.Written body command.wait
  wait_drawable : command.wait.Drawable
  kind_sound : ∃ modifiers rest, Modifiers.extract (Text.trim line) = .ok (modifiers, rest) ∧
    command.kind.Sound reader rest

/-- Every command that a line is read as is well formed. -/
theorem LineReader.wellFormed_of_command {reader : LineReader} {line : List Char}
    {command : Command} (h : reader.command line = .ok (some command)) :
    reader.WellFormed line command := by
  obtain ⟨modifiers, rest, delay, hextract, hread, hcommand⟩ := exists_of_command h
  have hmodifiers := Modifiers.areRead_of_extract hextract
  have htext : command.text = String.ofList (Text.trim line) := by rw [hcommand]
  have hwait : command.wait = delay.getD modifiers.wait := by rw [hcommand]
  have hguard : Text.trim line ≠ [] ∧ (Text.trim line).head? ≠ some '#' := by
    constructor
    · intro hblank
      cases (command_of_blank (List.isEmpty_iff.mpr hblank)).symm.trans h
    · intro hcomment
      simp [LineReader.command, hcomment] at h
  refine ⟨htext, ?_, ?_, ?_, command.wait.drawable, modifiers, rest, hextract, ?_⟩
  · rw [htext]
    simpa using hguard.1
  · rw [htext, String.toList_ofList]
    exact hguard.2
  · rw [hwait]
    cases delay with
    | none => exact hmodifiers.wait
    | some wait =>
      obtain ⟨_, arguments, _, hwritten⟩ := Line.written_of_kindAndDelay hread
      exact .inr ⟨arguments, hwritten⟩
  · obtain ⟨word, arguments, verb, hsplit, _, hfound, _⟩ | ⟨hkind, _⟩ | ⟨text, hkind, hgame, _⟩ :=
      Line.kindAndDelay_cases hread
    · exact Line.sound_of_makes hsplit hmodifiers.condition (Line.makes_of_kindOf hfound)
    · rw [hkind]
      trivial
    · rw [hkind]
      exact ⟨hgame.head?_eq, hgame⟩

/-- A line with a range and three keys is read as a command that is well formed. -/
theorem LineReader.wellFormed_of_three_keys :
    ∃ command, (⟨[]⟩ : LineReader).command " /Send control+Menu+numpad0 <wait.0.5-1>\t".toList =
        .ok (some command) ∧
      command.kind = .keys .press ⟨[⟨0x11⟩, ⟨0x12⟩], ⟨0x60⟩⟩ ∧ command.wait.bound = 1000 ∧
      (⟨[]⟩ : LineReader).WellFormed " /Send control+Menu+numpad0 <wait.0.5-1>\t".toList command
    := by
  have hcommand : (⟨[]⟩ : LineReader).command
      " /Send control+Menu+numpad0 <wait.0.5-1>\t".toList = .ok (some {
        text := "/Send control+Menu+numpad0 <wait.0.5-1>"
        kind := .keys .press ⟨[⟨0x11⟩, ⟨0x12⟩], ⟨0x60⟩⟩
        wait := .between 500 1000 (by decide) }) := by decide +kernel
  exact ⟨_, hcommand, rfl, rfl, wellFormed_of_command hcommand⟩

end GameMacros
