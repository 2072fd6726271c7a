import GameMacros.Proofs.Linting
import Mathlib.Data.Set.Card

/-!
# Names in the tree

A macro or a folder has a place in the tree of a library: the positions that lead to it, folder by
folder. Checking a library and looking up a name go through all macros in order, each in its own
way. Both agree with the places that carry the name: it is reported once if there are several, and
found if there is one.
-/

namespace GameMacros

/-! ## Places -/

namespace Folder

/-- The name of a folder. -/
def name : Folder → String
  | .mk name _ _ => name

/-- The folder that the positions lead to, from one folder to the next below it. -/
def folderAt? : Folder → List Nat → Option Folder
  | folder, [] => some folder
  | .mk _ _ folders, position :: path => folders[position]?.bind fun child => child.folderAt? path

/-- The macro that the positions lead to. The last one is that of the macro in its folder. -/
def macroAt? : Folder → List Nat → Option SavedMacro
  | _, [] => none
  | .mk _ macros _, [position] => macros[position]?
  | .mk _ _ folders, position :: next :: path =>
    folders[position]?.bind fun child => child.macroAt? (next :: path)

/-- The places of the folders with a property, the folder itself included. -/
def folderPlaces (folder : Folder) (p : Folder → Prop) : Set (List Nat) :=
  {path | ∃ found, folder.folderAt? path = some found ∧ p found}

/-- The places of the macros with a property. -/
def macroPlaces (folder : Folder) (p : SavedMacro → Prop) : Set (List Nat) :=
  {path | ∃ saved, folder.macroAt? path = some saved ∧ p saved}

end Folder

namespace Library

/-- The folder at a place of the tree. -/
def folderAt? (library : Library) : List Nat → Option Folder
  | [] => none
  | position :: path => library.folders[position]?.bind fun folder => folder.folderAt? path

/-- The macro at a place of the tree. -/
def macroAt? (library : Library) (path : List Nat) : Option SavedMacro :=
  (Folder.mk "" library.macros library.folders).macroAt? path

/-- The places of the folders with a property. -/
def folderPlaces (library : Library) (p : Folder → Prop) : Set (List Nat) :=
  {path | ∃ folder, library.folderAt? path = some folder ∧ p folder}

/-- The places of the macros with a property. -/
def macroPlaces (library : Library) (p : SavedMacro → Prop) : Set (List Nat) :=
  {path | ∃ saved, library.macroAt? path = some saved ∧ p saved}

/-- The places of the macros that carry a name. -/
def carriers (library : Library) (name : String) : Set (List Nat) :=
  library.macroPlaces (·.name = name)

end Library

/-! ## Counting places -/

/-- The places that start at a position of the list and go on from the item there. -/
def placesIn {α : Type} (items : List α) (onwards : α → Set (List Nat)) : Set (List Nat) :=
  {path | ∃ position rest item,
    path = position :: rest ∧ items[position]? = some item ∧ rest ∈ onwards item}

section PlacesIn

variable {α : Type} {onwards : α → Set (List Nat)}

theorem placesIn_nil : placesIn [] onwards = ∅ := by
  simp [placesIn]

/-- The places from the first item on, and those from the others one position further. -/
theorem placesIn_cons (item : α) (items : List α) : placesIn (item :: items) onwards =
    List.cons 0 '' onwards item ∪ List.modifyHead Nat.succ '' placesIn items onwards := by
  ext path
  constructor
  · rintro ⟨position, rest, found, rfl, hitem, hrest⟩
    cases position with
    | zero =>
      cases hitem
      exact .inl ⟨rest, hrest, rfl⟩
    | succ position =>
      exact .inr ⟨position :: rest, ⟨position, rest, found, rfl, hitem, hrest⟩, rfl⟩
  · rintro (⟨rest, hrest, rfl⟩ | ⟨_, ⟨position, rest, found, rfl, hitem, hrest⟩, rfl⟩)
    · exact ⟨0, rest, item, rfl, rfl, hrest⟩
    · exact ⟨position + 1, rest, found, rfl, hitem, hrest⟩

/-- Moving on by a position keeps places apart. -/
theorem modifyHead_succ_injective : Function.Injective (List.modifyHead Nat.succ) := by
  intro path path' h
  cases path <;> cases path' <;> simp_all

/-- Each item adds the places that go on from it. -/
theorem encard_placesIn_cons (item : α) (items : List α) :
    (placesIn (item :: items) onwards).encard =
      (onwards item).encard + (placesIn items onwards).encard := by
  have hdisjoint : Disjoint (List.cons 0 '' onwards item)
      (List.modifyHead Nat.succ '' placesIn items onwards) := by
    rw [Set.disjoint_left]
    rintro _ ⟨rest, -, rfl⟩ ⟨_, ⟨position, rest', -, rfl, -⟩, heq⟩
    simp at heq
  rw [placesIn_cons, Set.encard_union_eq hdisjoint, List.cons_injective.encard_image,
    modifyHead_succ_injective.encard_image]

/-- The items of a list have a place each. -/
theorem encard_placesIn_eq_countP (p : α → Prop) [DecidablePred p] (items : List α) :
    (placesIn items fun item => {path | path = [] ∧ p item}).encard = items.countP p := by
  induction items with
  | nil => simp [placesIn_nil]
  | cons item items ih =>
    rw [encard_placesIn_cons, ih, List.countP_cons]
    by_cases hp : p item <;> simp [hp, add_comm]

end PlacesIn

namespace Folder

/-- A macro of a folder stands in the folder itself or in one of those below it. -/
theorem macroPlaces_mk (name : String) (macros : List SavedMacro) (folders : List Folder)
    (p : SavedMacro → Prop) : (mk name macros folders).macroPlaces p =
      placesIn macros (fun saved => {path | path = [] ∧ p saved}) ∪
        placesIn folders fun child => child.macroPlaces p := by
  ext path
  constructor
  · rintro ⟨saved, hat, hp⟩
    match path with
    | [] => cases hat
    | [position] => exact .inl ⟨position, [], saved, rfl, hat, rfl, hp⟩
    | position :: next :: path =>
      obtain ⟨child, hchild, hat⟩ := Option.bind_eq_some_iff.mp hat
      exact .inr ⟨position, next :: path, child, rfl, hchild, saved, hat, hp⟩
  · rintro (⟨position, rest, saved, rfl, hsaved, rfl, hp⟩ |
      ⟨position, rest, child, rfl, hchild, saved, hat, hp⟩)
    · exact ⟨saved, hsaved, hp⟩
    · cases rest with
      | nil =>
        rw [macroAt?] at hat
        cases hat
      | cons next path => exact ⟨saved, Option.bind_eq_some_iff.mpr ⟨child, hchild, hat⟩, hp⟩

/-- A macro of the folder itself does not have the place of one in a folder below. -/
theorem not_mem_placesIn {macros : List SavedMacro} {folders : List Folder}
    {p : SavedMacro → Prop} {path : List Nat}
    (h : path ∈ placesIn macros fun saved => {path | path = [] ∧ p saved}) :
    path ∉ placesIn folders fun child => child.macroPlaces p := by
  obtain ⟨position, rest, saved, rfl, -, rfl, -⟩ := h
  rintro ⟨_, _, child, hpath, -, found, hat, -⟩
  cases hpath
  rw [macroAt?] at hat
  cases hat

/-- A folder stands at the end of no positions, and the others below it. -/
theorem folderPlaces_mk (name : String) (macros : List SavedMacro) (folders : List Folder)
    (p : Folder → Prop) : (mk name macros folders).folderPlaces p =
      {path | path = [] ∧ p (mk name macros folders)} ∪
        placesIn folders fun child => child.folderPlaces p := by
  ext path
  constructor
  · rintro ⟨found, hat, hp⟩
    cases path with
    | nil =>
      cases hat
      exact .inl ⟨rfl, hp⟩
    | cons position path =>
      obtain ⟨child, hchild, hat⟩ := Option.bind_eq_some_iff.mp hat
      exact .inr ⟨position, path, child, rfl, hchild, found, hat, hp⟩
  · rintro (⟨rfl, hp⟩ | ⟨position, path, child, rfl, hchild, found, hat, hp⟩)
    · exact ⟨_, rfl, hp⟩
    · exact ⟨found, Option.bind_eq_some_iff.mpr ⟨child, hchild, hat⟩, hp⟩

mutual

/-- The macros of a folder with a property are as many as their places. -/
theorem encard_macroPlaces (p : SavedMacro → Prop) [DecidablePred p] :
    ∀ folder : Folder, (folder.macroPlaces p).encard = folder.allMacros.countP p
  | .mk name macros folders => by
    rw [macroPlaces_mk, Set.encard_union_eq (Set.disjoint_left.mpr fun _ => not_mem_placesIn),
      encard_placesIn_eq_countP, encard_placesIn_macroPlaces p folders, allMacros,
      List.countP_append, Nat.cast_add]

/-- The macros of several folders with a property are as many as their places. -/
theorem encard_placesIn_macroPlaces (p : SavedMacro → Prop) [DecidablePred p] :
    ∀ folders : List Folder, (placesIn folders fun child => child.macroPlaces p).encard =
      (Folder.macrosOf folders).countP p
  | [] => by simp [placesIn_nil, macrosOf]
  | folder :: others => by
    rw [encard_placesIn_cons, encard_macroPlaces p folder, encard_placesIn_macroPlaces p others,
      macrosOf, List.countP_append, Nat.cast_add]

end

mutual

/-- The folders of a tree that are named in a way are as many as their places. -/
theorem encard_folderPlaces (p : String → Prop) [DecidablePred p] :
    ∀ folder : Folder, (folder.folderPlaces (p ·.name)).encard = folder.allNames.countP p
  | .mk name macros folders => by
    have hdisjoint : Disjoint {path : List Nat | path = [] ∧ p name}
        (placesIn folders fun child => child.folderPlaces (p ·.name)) := by
      rw [Set.disjoint_left]
      rintro path ⟨rfl, -⟩ ⟨_, _, _, hpath, -⟩
      cases hpath
    rw [folderPlaces_mk, Folder.name, Set.encard_union_eq hdisjoint,
      encard_placesIn_folderPlaces p folders, allNames, List.countP_cons]
    by_cases hp : p name <;> simp [hp, add_comm]

/-- The folders of several trees that are named in a way are as many as their places. -/
theorem encard_placesIn_folderPlaces (p : String → Prop) [DecidablePred p] :
    ∀ folders : List Folder,
      (placesIn folders fun child => child.folderPlaces (p ·.name)).encard =
        (Folder.namesOf folders).countP p
  | [] => by simp [placesIn_nil, namesOf]
  | folder :: others => by
    rw [encard_placesIn_cons, encard_folderPlaces p folder, encard_placesIn_folderPlaces p others,
      namesOf, List.countP_append, Nat.cast_add]

end

end Folder

namespace Library

variable {library : Library} {saved : SavedMacro} {name : String}

theorem encard_macroPlaces (library : Library) (p : SavedMacro → Prop) [DecidablePred p] :
    (library.macroPlaces p).encard = library.allMacros.countP p :=
  Folder.encard_macroPlaces p (.mk "" library.macros library.folders)

theorem encard_folderPlaces (library : Library) (p : String → Prop) [DecidablePred p] :
    (library.folderPlaces (p ·.name)).encard = (Folder.namesOf library.folders).countP p := by
  rw [← Folder.encard_placesIn_folderPlaces p]
  congr 1
  ext path
  constructor
  · rintro ⟨found, hat, hp⟩
    cases path with
    | nil => cases hat
    | cons position path =>
      obtain ⟨child, hchild, hat⟩ := Option.bind_eq_some_iff.mp hat
      exact ⟨position, path, child, rfl, hchild, found, hat, hp⟩
  · rintro ⟨position, path, child, rfl, hchild, found, hat, hp⟩
    exact ⟨found, Option.bind_eq_some_iff.mpr ⟨child, hchild, hat⟩, hp⟩

/-- The macros of a library are those at some place. -/
theorem mem_allMacros_iff :
    saved ∈ library.allMacros ↔ ∃ path, library.macroAt? path = some saved := by
  have hcount := library.encard_macroPlaces (· = saved)
  constructor
  · intro hmem
    have hpos : 0 < library.allMacros.countP (· = saved) :=
      List.countP_pos_iff.mpr ⟨saved, hmem, by simp⟩
    have hne : (library.macroPlaces (· = saved)).encard ≠ 0 := by
      rw [hcount]
      exact_mod_cast hpos.ne'
    obtain ⟨path, found, hat, rfl⟩ := Set.encard_ne_zero.mp hne
    exact ⟨path, hat⟩
  · rintro ⟨path, hat⟩
    have hne : (library.macroPlaces (· = saved)).encard ≠ 0 :=
      Set.encard_ne_zero.mpr ⟨path, saved, hat, rfl⟩
    rw [hcount] at hne
    have hpos : 0 < library.allMacros.countP (· = saved) := by
      rw [Nat.pos_iff_ne_zero]
      exact_mod_cast hne
    obtain ⟨found, hmem, heq⟩ := List.countP_pos_iff.mp hpos
    exact of_decide_eq_true heq ▸ hmem

end Library

/-! ## Counting problems -/

/-- A name that holds nothing but blanks. -/
def BlankName (name : String) : Prop :=
  ∀ c ∈ name.toList, Text.isBlank c = true

theorem isBlankName_iff {name : String} : isBlankName name = true ↔ BlankName name := by
  rw [isBlankName, List.isEmpty_iff]
  constructor
  · intro htrim c hc
    by_contra hblank
    have hmem := Text.mem_trim_of_mem hc (Bool.eq_false_iff.mpr hblank)
    rw [htrim] at hmem
    cases hmem
  · intro hblank
    cases htrim : Text.trim name.toList with
    | nil => rfl
    | cons c rest =>
      have hmem : c ∈ name.toList := Text.mem_of_mem_trim (by simp [htrim])
      have hhead := Text.head?_trim (s := name.toList) c (by simp [htrim])
      rw [hblank c hmem] at hhead
      cases hhead

instance : DecidablePred BlankName :=
  fun _ => decidable_of_iff _ isBlankName_iff

namespace SavedMacro

variable {saved : SavedMacro} {name : String} {count : Int} {problem : Problem}
  {earlier : List String}

/-- The problem with the name of a macro, given the names that earlier ones carry. -/
def repeated? (saved : SavedMacro) (earlier : List String) : Option Problem :=
  if ¬BlankName saved.name ∧ earlier.count saved.name = 1 then some (.duplicateName saved.name)
  else none

theorem repeated?_eq_some_iff : saved.repeated? earlier = some problem ↔
    .duplicateName saved.name = problem ∧ ¬BlankName saved.name ∧ earlier.count saved.name = 1 := by
  unfold repeated?
  split
  · next h => simp [h]
  · next h => simp [h]

/-- What makes no sense in a macro by itself. -/
def fault? (saved : SavedMacro) : Option Problem :=
  if isBlankName saved.name then some (.emptyName .savedMacro)
  else if saved.hasBadCount then some (.craftLoopCount saved.name saved.craftLoopCount)
  else none

/-- What makes no sense in a macro by itself is its name or its count. -/
theorem fault?_cases (h : saved.fault? = some problem) : problem = .emptyName .savedMacro ∨
    problem = .craftLoopCount saved.name saved.craftLoopCount := by
  unfold fault? at h
  split at h
  · exact .inl (Option.some.inj h).symm
  · split at h
    · exact .inr (Option.some.inj h).symm
    · cases h

theorem fault?_eq_emptyName_iff :
    saved.fault? = some (.emptyName .savedMacro) ↔ BlankName saved.name := by
  rw [← isBlankName_iff]
  unfold fault?
  split
  · simp [*]
  · split <;> simp [*]

theorem hasBadCount_iff : saved.hasBadCount = true ↔
    saved.craftLoop = true ∧ (saved.craftLoopCount < -1 ∨ 999 < saved.craftLoopCount) := by
  simp only [hasBadCount, Bool.and_eq_true, Bool.not_eq_true', Bool.and_eq_false_iff,
    decide_eq_false_iff_not, not_le]

theorem fault?_eq_craftLoopCount_iff :
    saved.fault? = some (.craftLoopCount name count) ↔
      ¬BlankName saved.name ∧ saved.craftLoop = true ∧ (count < -1 ∨ 999 < count) ∧
        saved.name = name ∧ saved.craftLoopCount = count := by
  rw [← isBlankName_iff]
  unfold fault?
  constructor
  · intro h
    split at h
    · cases h
    · next hblank =>
      split at h
      · next hbad =>
        cases h
        obtain ⟨hloop, hrange⟩ := hasBadCount_iff.mp hbad
        exact ⟨hblank, hloop, hrange, rfl, rfl⟩
      · cases h
  · rintro ⟨hblank, hloop, hrange, rfl, rfl⟩
    rw [if_neg hblank, if_pos (hasBadCount_iff.mpr ⟨hloop, hrange⟩)]

end SavedMacro

namespace Library

variable {library : Library} {saved : SavedMacro} {name : String} {problem : Problem}

/-- What is listed at a macro: that its name is used a second time, and what makes no sense in it by
itself. A blank name is not remembered. -/
theorem macroProblems_cons (earlier : List String) (saved : SavedMacro) (others : List SavedMacro) :
    macroProblems earlier (saved :: others) =
      (saved.repeated? earlier).toList ++ saved.fault?.toList ++
        macroProblems (if BlankName saved.name then earlier else saved.name :: earlier) others := by
  simp only [SavedMacro.repeated?, ← isBlankName_iff]
  rw [macroProblems, SavedMacro.fault?]
  cases hblank : isBlankName saved.name with
  | true => simp
  | false =>
    cases hbad : saved.hasBadCount <;>
      by_cases honce : earlier.count saved.name = 1 <;> simp [honce]

theorem count_macroProblems_cons (problem : Problem) (earlier : List String) (saved : SavedMacro)
    (others : List SavedMacro) : (macroProblems earlier (saved :: others)).count problem =
      (if saved.repeated? earlier = some problem then 1 else 0) +
      (if saved.fault? = some problem then 1 else 0) +
      (macroProblems (if BlankName saved.name then earlier else saved.name :: earlier) others).count
        problem := by
  have hcount (found : Option Problem) :
      found.toList.count problem = if found = some problem then 1 else 0 := by
    cases found with
    | none => rfl
    | some found => simp [List.count_singleton]
  rw [macroProblems_cons, List.count_append, List.count_append, hcount, hcount]

/-- What makes no sense in a macro by itself is listed whatever came before it. -/
theorem count_macroProblems (hother : ∀ name, .duplicateName name ≠ problem)
    (earlier : List String) (macros : List SavedMacro) :
    (macroProblems earlier macros).count problem = macros.countP (·.fault? = some problem) := by
  induction macros generalizing earlier with
  | nil => rfl
  | cons saved others ih =>
    have hrepeated : saved.repeated? earlier ≠ some problem := by
      intro h
      exact hother saved.name (SavedMacro.repeated?_eq_some_iff.mp h).1
    rw [count_macroProblems_cons, if_neg hrepeated, ih, List.countP_cons, Nat.zero_add,
      Nat.add_comm]
    simp only [decide_eq_true_eq]

/-- What makes no sense in no macro by itself is not listed at one. -/
theorem count_macroProblems_eq_zero (hother : ∀ name, .duplicateName name ≠ problem)
    (hfault : ∀ saved : SavedMacro, saved.fault? ≠ some problem) (earlier : List String)
    (macros : List SavedMacro) : (macroProblems earlier macros).count problem = 0 := by
  rw [count_macroProblems hother, List.countP_eq_zero]
  intro saved _ hlisted
  exact hfault saved (of_decide_eq_true hlisted)

/-- A name is listed once, at its second macro, and a blank one never. -/
theorem count_duplicateName_macroProblems (name : String) (earlier : List String)
    (macros : List SavedMacro) :
    (macroProblems earlier macros).count (.duplicateName name) =
      if ¬BlankName name ∧ earlier.count name ≤ 1 ∧
        2 ≤ earlier.count name + macros.countP (·.name = name) then 1 else 0 := by
  induction macros generalizing earlier with
  | nil =>
    rw [if_neg (by simp only [List.countP_nil]; omega)]
    rfl
  | cons saved others ih =>
    have hfault : saved.fault? ≠ some (.duplicateName name) := by
      intro h
      obtain heq | heq := SavedMacro.fault?_cases h <;> cases heq
    rw [count_macroProblems_cons, if_neg hfault, ih, List.countP_cons]
    simp only [SavedMacro.repeated?_eq_some_iff, Problem.duplicateName.injEq, decide_eq_true_eq,
      Nat.add_zero]
    by_cases hsame : saved.name = name
    · subst hsame
      by_cases hname : BlankName saved.name
      · simp [hname]
      · simp only [hname, not_false_eq_true, true_and, if_false, if_true, List.count_cons_self]
        split_ifs <;> omega
    · have hkept : (if BlankName saved.name then earlier else saved.name :: earlier).count name =
          earlier.count name := by
        split
        · rfl
        · exact List.count_cons_of_ne hsame
      simp only [hkept, hsame, false_and, if_false, Nat.add_zero, Nat.zero_add]

/-- The problems of a library are those of its folders and those of its macros. -/
theorem count_problems (library : Library) (problem : Problem) :
    library.problems.count problem =
      (if .emptyName .folder = problem then (Folder.namesOf library.folders).countP BlankName
        else 0) + (macroProblems [] library.allMacros).count problem := by
  have hnames : (Folder.namesOf library.folders).filter isBlankName =
      (Folder.namesOf library.folders).filter BlankName := by
    refine List.filter_congr fun name _ => ?_
    rw [Bool.eq_iff_iff, isBlankName_iff, decide_eq_true_eq]
  rw [problems, List.count_append, hnames, List.map_const', List.count_replicate,
    List.countP_eq_length_filter]
  simp only [beq_iff_eq]

/-! ## What is listed and what is found -/

/-- The problems of a library, counted by the places of the tree. -/
structure Tallies (library : Library) : Prop where
  duplicateName_once : ∀ name, ¬BlankName name → 2 ≤ (library.carriers name).encard →
    library.problems.count (.duplicateName name) = 1
  duplicateName_only : ∀ name, .duplicateName name ∈ library.problems →
    ¬BlankName name ∧ 2 ≤ (library.carriers name).encard
  emptyName_savedMacro : (library.problems.count (.emptyName .savedMacro) : ℕ∞) =
    (library.macroPlaces fun saved => BlankName saved.name).encard
  emptyName_folder : (library.problems.count (.emptyName .folder) : ℕ∞) =
    (library.folderPlaces fun folder => BlankName folder.name).encard
  craftLoopCount : ∀ name (count : Int),
    (library.problems.count (.craftLoopCount name count) : ℕ∞) =
      (library.macroPlaces fun saved => ¬BlankName saved.name ∧ saved.craftLoop = true ∧
        (count < -1 ∨ 999 < count) ∧ saved.name = name ∧ saved.craftLoopCount = count).encard
  not_tooManyRetries : ∀ count, .tooManyRetries count ∉ library.problems
  not_missingPlaceholder : .missingPlaceholder ∉ library.problems

/-- What the lookup of a name gives is told by its places and by the problems. -/
structure Predicts (library : Library) (name : String) : Prop where
  ambiguous_iff : (∃ count, library.find name = .error (.ambiguous name count)) ↔
    .duplicateName name ∈ library.problems
  encard_eq : ∀ count, library.find name = .error (.ambiguous name count) →
    (library.carriers name).encard = count
  notFound_iff : library.find name = .error (.notFound name) ↔ library.carriers name = ∅
  ok_iff : ∀ saved, library.find name = .ok saved ↔
    ∃ path, library.carriers name = {path} ∧ library.macroAt? path = some saved

/-- A name is carried at as many places as there are macros with it. -/
theorem encard_carriers (library : Library) (name : String) :
    (library.carriers name).encard = library.allMacros.countP (·.name = name) :=
  library.encard_macroPlaces (·.name = name)

/-- A name is listed as used twice if several macros carry it. -/
theorem count_duplicateName (library : Library) (name : String) :
    library.problems.count (.duplicateName name) =
      if ¬BlankName name ∧ 2 ≤ library.allMacros.countP (·.name = name) then 1 else 0 := by
  rw [count_problems, if_neg Problem.noConfusion, count_duplicateName_macroProblems]
  simp only [List.count_nil, Nat.zero_le, true_and, Nat.zero_add]

theorem duplicateName_mem_iff : .duplicateName name ∈ library.problems ↔
    ¬BlankName name ∧ 2 ≤ library.allMacros.countP (·.name = name) := by
  rw [← List.count_pos_iff, count_duplicateName]
  split <;> simp [*]

/-- What makes no sense in a macro by itself is listed for each place with such a macro. -/
theorem count_eq_encard (hother : ∀ name, .duplicateName name ≠ problem)
    (hfolder : .emptyName .folder ≠ problem) : (library.problems.count problem : ℕ∞) =
      (library.macroPlaces fun saved => saved.fault? = some problem).encard := by
  rw [count_problems, if_neg hfolder, Nat.zero_add, count_macroProblems hother,
    encard_macroPlaces]

/-- A library has no problems of settings. -/
theorem not_mem_problems (hother : ∀ name, .duplicateName name ≠ problem)
    (hname : ∀ what, .emptyName what ≠ problem)
    (hcount : ∀ name count, .craftLoopCount name count ≠ problem) :
    problem ∉ library.problems := by
  have hfault (saved : SavedMacro) : saved.fault? ≠ some problem := by
    intro h
    obtain rfl | rfl := SavedMacro.fault?_cases h
    · exact hname _ rfl
    · exact hcount _ _ rfl
  rw [← List.count_eq_zero, count_problems, if_neg (hname .folder), Nat.zero_add]
  exact count_macroProblems_eq_zero hother hfault [] library.allMacros

/-- Each problem is listed as often as there are places with it, and a name once. -/
theorem tallies (library : Library) : library.Tallies where
  duplicateName_once name hname hmany := by
    rw [encard_carriers] at hmany
    rw [count_duplicateName, if_pos ⟨hname, by exact_mod_cast hmany⟩]
  duplicateName_only name hmem := by
    obtain ⟨hname, hmany⟩ := duplicateName_mem_iff.mp hmem
    rw [encard_carriers]
    exact ⟨hname, by exact_mod_cast hmany⟩
  emptyName_savedMacro := by
    rw [count_eq_encard (by simp) (by simp)]
    simp only [SavedMacro.fault?_eq_emptyName_iff]
  emptyName_folder := by
    have hfault (saved : SavedMacro) : saved.fault? ≠ some (.emptyName .folder) := by
      intro h
      obtain heq | heq := SavedMacro.fault?_cases h <;> cases heq
    rw [count_problems, if_pos rfl, encard_folderPlaces,
      count_macroProblems_eq_zero (by simp) hfault, Nat.add_zero]
  craftLoopCount name count := by
    rw [count_eq_encard (by simp) (by simp)]
    simp only [SavedMacro.fault?_eq_craftLoopCount_iff]
  not_tooManyRetries count := not_mem_problems (by simp) (by simp) (by simp)
  not_missingPlaceholder := not_mem_problems (by simp) (by simp) (by simp)

theorem find_eq_notFound_iff : library.find name = .error (.notFound name) ↔
    library.allMacros.filter (·.name == name) = [] := by
  unfold find
  generalize library.allMacros.filter (·.name == name) = selected
  match selected with
  | [] | [_] | _ :: _ :: _ => simp

theorem find_eq_ok_iff : library.find name = .ok saved ↔
    library.allMacros.filter (·.name == name) = [saved] := by
  unfold find
  generalize library.allMacros.filter (·.name == name) = selected
  match selected with
  | [] | [_] | _ :: _ :: _ => simp

theorem find_eq_ambiguous_iff {count : Nat} : library.find name = .error (.ambiguous name count) ↔
    (library.allMacros.filter (·.name == name)).length = count ∧ 2 ≤ count := by
  unfold find
  generalize library.allMacros.filter (·.name == name) = selected
  match selected with
  | [] | [_] =>
    simp only [Except.error.injEq, reduceCtorEq, List.length_nil, List.length_cons, false_iff]
    omega
  | _ :: _ :: _ =>
    simp only [Except.error.injEq, LookupError.ambiguous.injEq, true_and, List.length_cons,
      iff_self_and]
    omega

/-- The macros with a name are as many as its carriers. -/
theorem encard_carriers_eq_length (library : Library) (name : String) :
    (library.carriers name).encard = (library.allMacros.filter (·.name == name)).length := by
  rw [encard_carriers, List.countP_eq_length_filter]
  congr 2

/-- The macros with a name are those at its carriers. -/
theorem mem_filter_iff : saved ∈ library.allMacros.filter (·.name == name) ↔
    ∃ path ∈ library.carriers name, library.macroAt? path = some saved := by
  rw [List.mem_filter, mem_allMacros_iff, beq_iff_eq]
  constructor
  · rintro ⟨⟨path, hat⟩, hname⟩
    exact ⟨path, ⟨saved, hat, hname⟩, hat⟩
  · rintro ⟨path, ⟨found, hfound, hname⟩, hat⟩
    rw [hat] at hfound
    cases hfound
    exact ⟨⟨path, hat⟩, hname⟩

/-- A name that is not blank stands for what its places tell. -/
theorem predicts (library : Library) (hname : ¬BlankName name) : library.Predicts name := by
  have hlength := library.encard_carriers_eq_length name
  have hreported : .duplicateName name ∈ library.problems ↔
      2 ≤ (library.allMacros.filter (·.name == name)).length := by
    rw [duplicateName_mem_iff, List.countP_eq_length_filter]
    simp only [hname, not_false_eq_true, true_and, beq_eq_decide]
  refine ⟨?_, ?_, ?_, ?_⟩
  · rw [hreported]
    constructor
    · rintro ⟨count, hfind⟩
      obtain ⟨rfl, hmany⟩ := find_eq_ambiguous_iff.mp hfind
      exact hmany
    · intro hmany
      exact ⟨_, find_eq_ambiguous_iff.mpr ⟨rfl, hmany⟩⟩
  · intro count hfind
    obtain ⟨rfl, -⟩ := find_eq_ambiguous_iff.mp hfind
    exact hlength
  · rw [find_eq_notFound_iff, ← Set.encard_eq_zero, hlength, ← List.length_eq_zero_iff]
    exact Nat.cast_eq_zero.symm
  · intro saved
    rw [find_eq_ok_iff]
    constructor
    · intro hsingle
      rw [hsingle] at hlength
      obtain ⟨path, hpath⟩ := Set.encard_eq_one.mp hlength
      have hmem : saved ∈ library.allMacros.filter (·.name == name) := by simp [hsingle]
      obtain ⟨other, hother, hat⟩ := mem_filter_iff.mp hmem
      rw [hpath, Set.mem_singleton_iff] at hother
      exact ⟨path, hpath, hother ▸ hat⟩
    · rintro ⟨path, hpath, hat⟩
      rw [hpath, Set.encard_singleton] at hlength
      obtain ⟨found, hfound⟩ := List.length_eq_one_iff.mp (by exact_mod_cast hlength.symm)
      have hmem : saved ∈ library.allMacros.filter (·.name == name) :=
        mem_filter_iff.mpr ⟨path, by simp [hpath], hat⟩
      rw [hfound, List.mem_singleton] at hmem
      rw [hfound, hmem]

/-- What checking a library lists is what makes its names ambiguous, blank or out of range, place
by place, and it tells what a lookup gives. So in a library without problems each macro is found by
its name. -/
theorem problems_predict_find (library : Library) :
    library.Tallies ∧ (∀ name, ¬BlankName name → library.Predicts name) ∧
      (library.problems = [] → ∀ path saved, library.macroAt? path = some saved →
        library.find saved.name = .ok saved) := by
  refine ⟨library.tallies, fun name => library.predicts, fun hnone path saved hat => ?_⟩
  have hmacros : macroProblems [] library.allMacros = [] := (List.append_eq_nil_iff.mp hnone).2
  obtain ⟨hnames, -⟩ := of_macroProblems_eq_nil List.nodup_nil hmacros
  exact find_of_nodup hnames (mem_allMacros_iff.mpr ⟨path, hat⟩)

/-- A name that is carried at the root and two folders below it, and one that is carried between. -/
theorem problems_predict_find_of_nested :
    ∃ library : Library, ¬BlankName "shared" ∧ ¬BlankName "single" ∧
      .duplicateName "shared" ∈ library.problems ∧ (library.carriers "shared").encard = 2 ∧
      ∃ path, library.carriers "single" = {path} ∧
        library.macroAt? path = some { name := "single" } := by
  let inner : Folder := .mk "inner" [{ name := "shared" }] []
  let library : Library :=
    { macros := [{ name := "shared" }], folders := [.mk "outer" [{ name := "single" }] [inner]] }
  have hshared : ¬BlankName "shared" := by decide
  have hsingle : ¬BlankName "single" := by decide
  have hambiguous : library.find "shared" = .error (.ambiguous "shared" 2) := rfl
  have hfound : library.find "single" = .ok { name := "single" } := rfl
  obtain ⟨-, hpredicts, -⟩ := library.problems_predict_find
  have hseveral := hpredicts "shared" hshared
  exact ⟨library, hshared, hsingle, hseveral.ambiguous_iff.mp ⟨2, hambiguous⟩,
    hseveral.encard_eq 2 hambiguous, ((hpredicts "single" hsingle).ok_iff _).mp hfound⟩

end Library

end GameMacros
