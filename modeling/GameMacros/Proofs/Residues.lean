import GameMacros.Proofs.Extraction
import GameMacros.Proofs.LoopLines

/-!
# What is left of a line

Each kind of modifier is taken out once. Where a modifier is removed, what stood around it moves
together, and that can be a modifier of a kind whose turn is over. This takes a modifier inside the
name of another one. Where there is none, removing a modifier makes no other one, and so nothing
that is left of a line is a modifier. In any case another pass finds nothing or leaves less.
-/

namespace GameMacros

namespace Modifiers

/-! ## Modifiers in a text -/

/-- The text begins with a token of the kind. -/
def Opens (kind : List Char → Prop) (s : List Char) : Prop :=
  ∃ inner after, s = '<' :: (inner ++ '>' :: after) ∧ '>' ∉ inner ∧ kind inner

/-- There is no token of the kind in the text. -/
def Free (kind : List Char → Prop) (s : List Char) : Prop :=
  ∀ t, t <:+ s → ¬Opens kind t

/-- No modifier of the text stands inside the name of another one: what comes between an opening
bracket and a modifier, with no closing bracket in it, is no beginning of a modifier, unless it has
a whole name and its point already. -/
def Unnested (s : List Char) : Prop :=
  ∀ start t, '<' :: (start ++ t) <:+ s → '>' ∉ start → Opens IsModifier t →
    ∀ more, IsModifier (start ++ more) → ∃ modifier body, Carries modifier start body

/-- The tokens are modifiers, and such a token stays one when its body changes. -/
structure IsKind (kind : List Char → Prop) : Prop where
  isModifier : ∀ inner, kind inner → IsModifier inner
  body : ∀ start more, kind (start ++ more) → (∃ modifier body, Carries modifier start body) →
    ∀ others, kind (start ++ others)

/-- All tokens of the kind are removed, from left to right. -/
inductive Strips (kind : List Char → Prop) : List Char → List Char → Prop
  | nil : Strips kind [] []
  | token {inner after kept : List Char} (hinner : '>' ∉ inner) (hkind : kind inner)
      (hrest : Strips kind after kept) : Strips kind ('<' :: (inner ++ '>' :: after)) kept
  | keep {c : Char} {rest kept : List Char} (hother : ¬Opens kind (c :: rest))
      (hrest : Strips kind rest kept) : Strips kind (c :: rest) (c :: kept)

/-- The kinds are removed one after the other. -/
inductive StripsAll : List (List Char → Prop) → List Char → List Char → Prop
  | nil (s : List Char) : StripsAll [] s s
  | cons {kind : List Char → Prop} {kinds : List (List Char → Prop)} {s middle kept : List Char}
      (hfirst : Strips kind s middle) (hothers : StripsAll kinds middle kept) :
      StripsAll (kind :: kinds) s kept

/-- The kinds of modifiers in the order in which they are taken out. -/
def kinds : List (List Char → Prop) :=
  [ValuedModifier.wait, .maxWait, .condition, .index].map (hasValue · · = true) ++
    flags.map (isFlag · · = true)

/-- A token is a modifier exactly if it is one of some kind. -/
theorem isModifier_iff_exists_kind {inner : List Char} :
    IsModifier inner ↔ ∃ kind ∈ kinds, kind inner := by
  rw [← isModifier_iff]
  simp [isModifier, kinds, flags, or_assoc]

/-- A token stays one of its modifier when more follows. -/
theorem Carries.append {modifier : ValuedModifier} {inner body : List Char}
    (h : Carries modifier inner body) (more : List Char) :
    Carries modifier (inner ++ more) (body ++ more) := by
  obtain ⟨written, rfl, hwritten⟩ := h
  exact ⟨written, by simp, hwritten⟩

/-- The tokens of all modifiers. -/
theorem isKind_isModifier : IsKind IsModifier where
  isModifier _ := id
  body _ _ _ := by
    rintro ⟨modifier, body, hbody⟩ others
    exact .inl ⟨modifier, _, hbody.append others⟩

/-- The tokens of one modifier. -/
theorem isKind_of_mem_kinds {kind : List Char → Prop} (h : kind ∈ kinds) : IsKind kind := by
  refine ⟨fun inner hkind => isModifier_iff_exists_kind.mpr ⟨kind, h, hkind⟩, ?_⟩
  rintro start more hkind ⟨modifier, body, hbody⟩ others
  rcases List.mem_append.mp h with hvalued | hflag
  · obtain ⟨this, -, rfl⟩ := List.mem_map.mp hvalued
    obtain ⟨rest, hrest⟩ := hasValue_iff.mp hkind
    obtain rfl := hrest.eq (hbody.append more)
    exact hasValue_iff.mpr ⟨_, hbody.append others⟩
  · obtain ⟨flag, hmem, rfl⟩ := List.mem_map.mp hflag
    have hspells := (isFlag_iff hmem).mp hkind
    exact absurd (hbody.append more) (hspells.not_carries hmem _ _)

variable {kind other : List Char → Prop} {s t kept : List Char}

/-! ## Removing one kind -/

/-- What begins with a token still does when more follows. -/
theorem Opens.append (h : Opens kind t) (more : List Char) : Opens kind (t ++ more) := by
  obtain ⟨inner, after, rfl, hinner, hkind⟩ := h
  exact ⟨inner, after ++ more, by simp, hinner, hkind⟩

/-- What is free of a kind is so from any place on. -/
theorem Free.of_suffix (h : Free kind s) (hsuffix : t <:+ s) : Free kind t :=
  fun _ hlater => h _ (hlater.trans hsuffix)

/-- Nothing is removed from a text that is free of the kind. -/
theorem strips_of_free (h : Free kind s) : Strips kind s s := by
  induction s with
  | nil => exact .nil
  | cons c rest ih =>
    exact .keep (h _ (List.suffix_refl _)) (ih (h.of_suffix (List.suffix_cons c rest)))

/-- Removing a kind leaves a text that is free of it as it is, and otherwise shortens it. -/
theorem Strips.length_lt (h : Strips kind s kept) :
    (Free kind s ∧ kept = s) ∨ kept.length < s.length := by
  induction h with
  | nil =>
    refine .inl ⟨fun t hsuffix hopens => ?_, rfl⟩
    obtain ⟨inner, after, rfl, -⟩ := hopens
    exact absurd hsuffix (by simp)
  | @token inner after kept hinner hkind _ ih =>
    have hle : kept.length ≤ after.length := by
      rcases ih with ⟨-, rfl⟩ | hlt
      · exact Nat.le_refl _
      · exact hlt.le
    refine .inr ?_
    simp only [List.length_cons, List.length_append]
    omega
  | @keep c rest kept hother _ ih =>
    rcases ih with ⟨hfree, rfl⟩ | hlt
    · refine .inl ⟨fun t hsuffix => ?_, rfl⟩
      rcases List.suffix_cons_iff.mp hsuffix with rfl | hlater
      · exact hother
      · exact hfree t hlater
    · exact .inr (Nat.succ_lt_succ hlt)

/-- What is kept from some place on is left of what stood from some place on. -/
theorem Strips.exists_of_suffix (h : Strips kind s kept) {c : Char} {later : List Char}
    (hsuffix : c :: later <:+ kept) :
    ∃ rest, c :: rest <:+ s ∧ ¬Opens kind (c :: rest) ∧ Strips kind rest later := by
  induction h with
  | nil => exact absurd hsuffix (by simp)
  | @token inner after kept hinner hkind _ ih =>
    obtain ⟨rest, hrest, hother, hstrips⟩ := ih hsuffix
    refine ⟨rest, hrest.trans ?_, hother, hstrips⟩
    exact ⟨'<' :: (inner ++ ['>']), by simp⟩
  | @keep d rest kept hother hstrips ih =>
    rcases List.suffix_cons_iff.mp hsuffix with heq | hlater
    · obtain ⟨rfl, rfl⟩ := List.cons.inj heq
      exact ⟨rest, List.suffix_refl _, hother, hstrips⟩
    · obtain ⟨rest', hrest, hother, hstrips⟩ := ih hlater
      exact ⟨rest', hrest.trans (List.suffix_cons _ _), hother, hstrips⟩

/-- A beginning of what is kept stood there before, or the first token was removed from it. -/
theorem Strips.prefix_cases {start later : List Char} (h : Strips kind s (start ++ later)) :
    (∃ rest, s = start ++ rest ∧ Strips kind rest later) ∨
      ∃ front back rest, start = front ++ back ∧ back ≠ [] ∧ s = front ++ rest ∧
        Opens kind rest := by
  induction start generalizing s with
  | nil => exact .inl ⟨s, rfl, h⟩
  | cons c start ih =>
    cases h with
    | @token inner after _ hinner hkind hrest =>
      exact .inr ⟨[], c :: start, _, rfl, by simp, rfl, inner, after, rfl, hinner, hkind⟩
    | @keep _ rest _ hother hrest =>
      rcases ih hrest with ⟨rest, rfl, hstrips⟩ | ⟨front, back, rest, rfl, hback, rfl, hopens⟩
      · exact .inl ⟨rest, rfl, hstrips⟩
      · exact .inr ⟨c :: front, back, rest, rfl, hback, rfl, hopens⟩

/-! ## Removing makes nothing -/

/-- What begins with a token of a kind begins with one of every wider kind. -/
theorem Opens.mono (h : Opens kind t) (hwider : ∀ inner, kind inner → other inner) :
    Opens other t := by
  obtain ⟨inner, after, rfl, hinner, hkind⟩ := h
  exact ⟨inner, after, rfl, hinner, hwider inner hkind⟩

/-- A token whose body goes on with another token is closed where that one is. -/
theorem Opens.behind (h : Opens kind t) {start : List Char} (hstart : '>' ∉ start)
    (hother : ∀ more, other (start ++ more)) : Opens other ('<' :: (start ++ t)) := by
  obtain ⟨inner, after, rfl, hinner, -⟩ := h
  exact ⟨start ++ '<' :: inner, after, by simp, by simp [hstart, hinner], hother _⟩

/-- A token that stands in a text after a kind was removed stood there before, unless a modifier
stood inside its name. -/
theorem Strips.opens_of (hunnested : Unnested s) (hkind : IsKind kind) (hother : IsKind other)
    {rest later : List Char} (hsuffix : '<' :: rest <:+ s) (hstrips : Strips kind rest later)
    (hopens : Opens other ('<' :: later)) : Opens other ('<' :: rest) := by
  obtain ⟨inner, after, heq, hinner, htoken⟩ := hopens
  have hlater : later = (inner ++ ['>']) ++ after := by simpa using heq
  subst hlater
  rcases hstrips.prefix_cases with ⟨behind, rfl, -⟩ | ⟨front, back, behind, hsplit, hback, rfl, hin⟩
  · exact ⟨inner, behind, by simp, hinner, htoken⟩
  · obtain ⟨more, rfl⟩ : ∃ more, inner = front ++ more := by
      rcases List.append_eq_append_iff.mp hsplit with ⟨extra, rfl, hextra⟩ | ⟨more, rfl, -⟩
      · rcases List.append_eq_singleton_iff.mp hextra.symm with ⟨rfl, -⟩ | ⟨-, rfl⟩
        · exact ⟨[], by simp⟩
        · exact absurd rfl hback
      · exact ⟨more, rfl⟩
    have hfront : '>' ∉ front := fun hmem => hinner (List.mem_append_left more hmem)
    have hnamed := hunnested front behind hsuffix hfront (hin.mono hkind.isModifier) more
      (hother.isModifier _ htoken)
    exact hin.behind hfront (hother.body front more htoken hnamed)

/-- Removing a kind leaves nothing of it. -/
theorem Strips.free (hunnested : Unnested s) (hkind : IsKind kind) (h : Strips kind s kept) :
    Free kind kept := by
  intro t hsuffix hopens
  obtain ⟨inner, after, rfl, -⟩ := id hopens
  obtain ⟨rest, hrest, hother, hstrips⟩ := h.exists_of_suffix hsuffix
  exact hother (hstrips.opens_of hunnested hkind hkind hrest hopens)

/-- Removing a kind makes no token of another one. -/
theorem Strips.free_other (hunnested : Unnested s) (hkind : IsKind kind) (h : Strips kind s kept)
    (hother : IsKind other) (hfree : Free other s) : Free other kept := by
  intro t hsuffix hopens
  obtain ⟨inner, after, rfl, -⟩ := id hopens
  obtain ⟨rest, hrest, -, hstrips⟩ := h.exists_of_suffix hsuffix
  exact hfree _ hrest (hstrips.opens_of hunnested hkind hother hrest hopens)

/-- Removing a kind brings no modifier into the name of another one. -/
theorem Strips.unnested (hunnested : Unnested s) (hkind : IsKind kind) (h : Strips kind s kept) :
    Unnested kept := by
  intro start t hsuffix hstart hopens more hmodifier
  obtain ⟨rest, hrest, -, hstrips⟩ := h.exists_of_suffix hsuffix
  rcases hstrips.prefix_cases with ⟨after, rfl, hafter⟩ | ⟨front, back, after, rfl, -, rfl, hin⟩
  · -- The modifier that comes next was there before, or the first one that was removed was.
    refine hunnested start after hrest hstart ?_ more hmodifier
    cases hafter with
    | nil => exact hopens
    | @token inner behind _ hinner hin _ =>
      exact ⟨inner, behind, rfl, hinner, hkind.isModifier inner hin⟩
    | @keep c behind later _ hkept =>
      obtain ⟨_, _, heq, -⟩ := id hopens
      obtain ⟨rfl, -⟩ := List.cons.inj heq
      have hbehind : '<' :: behind <:+ s :=
        List.IsSuffix.trans ⟨'<' :: start, by simp⟩ hrest
      exact hkept.opens_of hunnested hkind isKind_isModifier hbehind hopens
  · have hfront : '>' ∉ front := fun hmem => hstart (List.mem_append_left back hmem)
    rw [List.append_assoc] at hmodifier
    obtain ⟨modifier, body, hbody⟩ :=
      hunnested front after hrest hfront (hin.mono hkind.isModifier) (back ++ more) hmodifier
    exact ⟨modifier, _, hbody.append back⟩

/-! ## Removing all kinds -/

/-- Removing kinds of modifiers leaves nothing of them, and makes no token of another one. -/
theorem StripsAll.free {kinds : List (List Char → Prop)} (h : StripsAll kinds s kept)
    (hkinds : ∀ kind ∈ kinds, IsKind kind) (hunnested : Unnested s) :
    (∀ kind ∈ kinds, Free kind kept) ∧
      ∀ other : List Char → Prop, IsKind other → Free other s → Free other kept := by
  induction h with
  | nil => exact ⟨by simp, fun _ _ => id⟩
  | @cons kind kinds s middle kept hfirst _ ih =>
    obtain ⟨hkind, hothers⟩ := List.forall_mem_cons.mp hkinds
    obtain ⟨hfree, hkeeps⟩ := ih hothers (hfirst.unnested hunnested hkind)
    have hgone : Free kind kept := hkeeps kind hkind (hfirst.free hunnested hkind)
    refine ⟨List.forall_mem_cons.mpr ⟨hgone, hfree⟩, fun other hother hbefore => ?_⟩
    exact hkeeps other hother (hfirst.free_other hunnested hkind hother hbefore)

/-- Removing kinds leaves a text that is free of them as it is, and otherwise shortens it. -/
theorem StripsAll.length_lt {kinds : List (List Char → Prop)} (h : StripsAll kinds s kept) :
    ((∀ kind ∈ kinds, Free kind s) ∧ kept = s) ∨ kept.length < s.length := by
  induction h with
  | nil => exact .inl ⟨by simp, rfl⟩
  | cons hfirst _ ih =>
    rcases hfirst.length_lt with ⟨hfree, rfl⟩ | hshorter
    · rcases ih with ⟨hothers, rfl⟩ | hlt
      · exact .inl ⟨List.forall_mem_cons.mpr ⟨hfree, hothers⟩, rfl⟩
      · exact .inr hlt
    · rcases ih with ⟨-, rfl⟩ | hlt
      · exact .inr hshorter
      · exact .inr (hlt.trans hshorter)

/-- A text is free of modifiers if it is free of every kind. -/
theorem free_isModifier_iff : Free IsModifier s ↔ ∀ kind ∈ kinds, Free kind s := by
  constructor
  · intro h kind hmem t hsuffix hopens
    exact h t hsuffix (hopens.mono fun inner hkind =>
      isModifier_iff_exists_kind.mpr ⟨kind, hmem, hkind⟩)
  · rintro h t hsuffix ⟨inner, after, rfl, hinner, hmodifier⟩
    obtain ⟨kind, hmem, hkind⟩ := isModifier_iff_exists_kind.mp hmodifier
    exact h kind hmem _ hsuffix ⟨inner, after, rfl, hinner, hkind⟩

/-! ## Taking out -/

variable {lead : List Char → Lead} {read : List Char → Option (List Char)}

/-- Where a token is closed, a kind sees a token of its own or nothing. -/
theorem Recognizes.lead_cases (h : Recognizes lead read) (hclosed : '>' ∈ s) :
    lead s = .ordinary ∨ ∃ inner body after, s = '<' :: (inner ++ '>' :: after) ∧
      '>' ∉ inner ∧ read inner = some body ∧ lead s = .token body after := by
  cases s with
  | nil => cases hclosed
  | cons c rest =>
    by_cases hopen : c = '<'
    · subst hopen
      have hrest : '>' ∈ rest := by simpa using hclosed
      obtain ⟨inner, after, rfl, hinner⟩ := List.eq_append_cons_of_mem hrest
      have hlead := h.lead_eq hinner after
      cases hread : read inner with
      | none =>
        rw [hread] at hlead
        exact .inl hlead
      | some body =>
        rw [hread] at hlead
        exact .inr ⟨inner, body, after, rfl, hinner, hread, hlead⟩
    · exact .inl (h.bracketed c rest (Text.sameFolded_open hopen))

/-- A kind finds the tokens that it recognizes. -/
theorem Recognizes.exists_of_token (h : Recognizes lead read) {body after : List Char}
    (htoken : lead s = .token body after) :
    ∃ inner, s = '<' :: (inner ++ '>' :: after) ∧ '>' ∉ inner ∧ read inner = some body := by
  have hclosed : '>' ∈ s := by
    by_contra hnot
    exact h.not_token hnot body after htoken
  rcases h.lead_cases hclosed with hordinary | ⟨inner, _, _, hs, hinner, hread, hlead⟩
  · cases htoken.symm.trans hordinary
  · cases htoken.symm.trans hlead
    exact ⟨inner, hs, hinner, hread⟩

/-- A kind overlooks no token. -/
theorem Recognizes.not_opens (h : Recognizes lead read)
    (hnone : ∀ body after, lead s ≠ .token body after) :
    ¬Opens (fun inner => (read inner).isSome = true) s := by
  rintro ⟨inner, after, rfl, hinner, hread⟩
  obtain ⟨body, hbody⟩ := Option.isSome_iff_exists.mp hread
  have hlead := h.lead_eq hinner after
  rw [hbody] at hlead
  exact hnone body after hlead

/-- A kind gives up only where no token comes any more. -/
theorem Recognizes.free_of_unclosed (h : Recognizes lead read) (hunclosed : lead s = .unclosed) :
    Free kind s := by
  rintro t hsuffix ⟨inner, after, rfl, -⟩
  have hclosed : '>' ∈ s := hsuffix.subset (by simp)
  rcases h.lead_cases hclosed with hordinary | ⟨_, _, _, _, _, _, hlead⟩
  · cases hunclosed.symm.trans hordinary
  · cases hunclosed.symm.trans hlead

/-- Taking out a kind removes its tokens. -/
theorem strips_takeOut (h : Recognizes lead read) (s : List Char) :
    Strips (fun inner => (read inner).isSome = true) s (takeOut lead s).2 := by
  fun_induction takeOut lead s with
  | case1 => exact .nil
  | case2 c rest body after hlead _ later kept htaken ih =>
    obtain ⟨inner, hs, hinner, hread⟩ := h.exists_of_token hlead
    rw [htaken] at ih
    rw [hs]
    exact .token hinner (by rw [hread]; rfl) ih
  | case3 c rest body after hlead hlonger =>
    obtain ⟨inner, hs, -⟩ := h.exists_of_token hlead
    obtain ⟨-, rfl⟩ := List.cons.inj hs
    exact absurd (by simp only [List.length_append, List.length_cons]; omega) hlonger
  | case4 c rest hlead => exact strips_of_free (h.free_of_unclosed hlead)
  | case5 c rest hlead last kept htaken ih =>
    rw [htaken] at ih
    exact .keep (h.not_opens fun body after htoken => by cases hlead.symm.trans htoken) ih

/-- Nothing is taken out of a text that is free of the kind. -/
theorem takeOut_of_free (h : Recognizes lead read)
    (hfree : Free (fun inner => (read inner).isSome = true) s) : takeOut lead s = (none, s) := by
  induction s with
  | nil => rw [takeOut]
  | cons c rest ih =>
    cases hlead : lead (c :: rest) with
    | token body after =>
      obtain ⟨inner, hs, hinner, hread⟩ := h.exists_of_token hlead
      exact absurd ⟨inner, after, hs, hinner, Option.isSome_iff_exists.mpr ⟨body, hread⟩⟩
        (hfree _ (List.suffix_refl _))
    | unclosed => rw [takeOut, hlead]
    | ordinary =>
      rw [takeOut_of_ordinary hlead, ih (hfree.of_suffix (List.suffix_cons c rest))]

/-- Every modifier without a value is a kind. -/
theorem recognizes_of_mem_flags {name : String} (h : name ∈ flags) :
    Recognizes (flag name.toList) (flagBody name.toList) := by
  simp only [flags, List.mem_cons, List.not_mem_nil, or_false] at h
  rcases h with rfl | rfl | rfl <;> exact recognizes_flag (Text.forall_of_all rfl)

/-- Taking out a modifier with a value removes its tokens. -/
theorem strips_of_takeValue {α : Type} {modifier : ValuedModifier} {read? : List Char → Option α}
    {line : List Char} {value? : Option α}
    (h : takeValue modifier read? line s = .ok (value?, kept)) :
    Strips (hasValue modifier · = true) s kept := by
  have hstrips := strips_takeOut (recognizes_modifier modifier) s
  unfold takeValue at h
  split at h
  · next rest htaken =>
    cases h
    rwa [htaken] at hstrips
  · next body rest htaken =>
    rw [htaken] at hstrips
    split at h
    · cases h
      exact hstrips
    · cases h

/-- A line that can be read is left without its modifiers, and trimmed. -/
theorem exists_stripsAll {modifiers : Modifiers} {rest : List Char}
    (h : extract s = .ok (modifiers, rest)) :
    ∃ kept, StripsAll kinds s kept ∧ rest = Text.trim kept := by
  have hflag {name : String} (hname : name ∈ flags) (s : List Char) :
      Strips (isFlag name · = true) s (takeFlag name s).2 :=
    strips_takeOut (recognizes_of_mem_flags hname) s
  obtain ⟨⟨wait, afterWait⟩, hwait, h⟩ := exists_of_bind_eq_ok h
  obtain ⟨⟨maxWait, afterMaxWait⟩, hmaxWait, h⟩ := exists_of_bind_eq_ok h
  obtain ⟨⟨condition, afterCondition⟩, hcondition, h⟩ := exists_of_bind_eq_ok h
  obtain ⟨⟨index, afterIndex⟩, hindex, h⟩ := exists_of_bind_eq_ok h
  obtain ⟨-, rfl⟩ := Prod.mk.inj (Except.ok.inj h)
  have hflags := StripsAll.cons (hflag (show "echo" ∈ flags by decide) afterIndex)
    (.cons (hflag (show "unsafe" ∈ flags by decide) _)
      (.cons (hflag (show "hq" ∈ flags by decide) _) (.nil _)))
  exact ⟨_, .cons (strips_of_takeValue hwait) (.cons (strips_of_takeValue hmaxWait)
    (.cons (strips_of_takeValue hcondition) (.cons (strips_of_takeValue hindex) hflags))), rfl⟩

/-- A text that is free of modifiers has none, and is left as it is but for blanks around it. -/
theorem extract_of_free (hfree : Free IsModifier s) : extract s = .ok ({}, Text.trim s) := by
  have hkinds := free_isModifier_iff.mp hfree
  have hvalue {α : Type} (modifier : ValuedModifier) (read? : List Char → Option α) :
      takeValue modifier read? s s = .ok (none, s) := by
    have hmem : modifier ∈ [ValuedModifier.wait, .maxWait, .condition, .index] := by
      cases modifier <;> decide
    have hkind := hkinds _ (List.mem_append_left _ (List.mem_map_of_mem hmem))
    rw [takeValue, takeOut_of_free (recognizes_modifier modifier) hkind]
  have hflag {name : String} (hname : name ∈ flags) : takeFlag name s = (false, s) := by
    have hkind := hkinds _ (List.mem_append_right _ (List.mem_map_of_mem hname))
    rw [takeFlag, takeOut_of_free (recognizes_of_mem_flags hname) hkind]
    rfl
  simp only [extract, hvalue, bind, Except.bind, hflag (show "echo" ∈ flags by decide),
    hflag (show "unsafe" ∈ flags by decide), hflag (show "hq" ∈ flags by decide)]
  rfl

/-! ## Lines in pieces -/

/-- What begins with an opening bracket does not begin in a text without one. -/
theorem suffix_of_suffix_append {plain later : List Char} (hplain : '<' ∉ plain)
    (h : '<' :: later <:+ plain ++ s) : '<' :: later <:+ s := by
  induction plain with
  | nil => exact h
  | cons c plain ih =>
    obtain ⟨hne, hothers⟩ := List.ne_and_not_mem_of_not_mem_cons hplain
    rcases List.suffix_cons_iff.mp h with heq | hlater
    · exact absurd (List.cons.inj heq).1 hne
    · exact ih hothers hlater

/-- Where brackets do not nest, no modifier stands inside another one. -/
theorem unnested_of_proper {chunks : List Chunk} (hproper : ∀ chunk ∈ chunks, chunk.Proper) :
    Unnested (render chunks) := by
  rintro start t hsuffix hstart ⟨inner, after, rfl, -⟩ more -
  exfalso
  induction chunks with
  | nil => simp [render] at hsuffix
  | cons chunk chunks ih =>
    obtain ⟨hchunk, hothers⟩ := List.forall_mem_cons.mp hproper
    have hline : render (chunk :: chunks) = chunk.text ++ render chunks := rfl
    rw [hline] at hsuffix
    cases chunk with
    | char c =>
      have hc : '<' ∉ [c] := by simpa using Ne.symm hchunk
      exact ih hothers (suffix_of_suffix_append hc hsuffix)
    | token body =>
      obtain ⟨hopen, hclose⟩ := hchunk
      have hbody : '<' ∉ body ++ ['>'] := by simp [hopen]
      rcases List.suffix_cons_iff.mp hsuffix with heq | hlater
      · -- The brackets in between would have to be the other way round.
        obtain ⟨-, heq⟩ := List.cons.inj heq
        rcases List.append_eq_append_iff.mp heq with ⟨between, hbetween, htoken⟩ | ⟨_, rfl, -⟩
        · cases between with
          | nil =>
            rw [List.append_nil] at hbetween
            exact hstart (hbetween ▸ List.mem_append_right body (List.mem_singleton_self _))
          | cons c between =>
            obtain ⟨rfl, -⟩ := List.cons.inj htoken
            exact hbody (by simp [hbetween])
        · exact hstart (by simp)
      · exact ih hothers (suffix_of_suffix_append hbody hlater)

/-! ## Another pass -/

/-- Blanks around a text hide no modifier in it. -/
theorem Free.trim (h : Free kind s) : Free kind (Text.trim s) := by
  obtain ⟨front, back, -, -, -, hs⟩ := Text.exists_eq_trim s
  intro t hsuffix hopens
  obtain ⟨before, hbefore⟩ := hsuffix
  have hlater : t ++ back <:+ s := by
    refine ⟨front ++ before, ?_⟩
    rw [hs, ← hbefore]
    simp only [List.append_assoc]
  exact h _ hlater (hopens.append back)

/-- Trimming makes no text longer. -/
theorem length_trim_le (s : List Char) : (Text.trim s).length ≤ s.length := by
  obtain ⟨front, back, -, -, -, hs⟩ := Text.exists_eq_trim s
  have hlength := congrArg List.length hs
  simp only [List.length_append] at hlength
  omega

/-- A pass over a line finds nothing, or it leaves less. -/
theorem extract_cases {modifiers : Modifiers} {rest : List Char}
    (h : extract s = .ok (modifiers, rest)) :
    (Free IsModifier s ∧ modifiers = {} ∧ rest = Text.trim s) ∨ rest.length < s.length := by
  obtain ⟨kept, hstrips, rfl⟩ := exists_stripsAll h
  rcases hstrips.length_lt with ⟨hkinds, -⟩ | hshorter
  · have hfree := free_isModifier_iff.mpr hkinds
    obtain ⟨rfl, hrest⟩ := Prod.mk.inj (Except.ok.inj (h.symm.trans (extract_of_free hfree)))
    exact .inl ⟨hfree, rfl, hrest⟩
  · exact .inr (Nat.lt_of_le_of_lt (length_trim_le kept) hshorter)

/-- What another pass over the rest of a line comes to. -/
structure Residue (text rest : List Char) : Prop where
  /-- Where no modifier stands inside the name of another one, none is left. -/
  free : Unnested text → Free IsModifier rest
  /-- Where none is left, another pass finds none and changes nothing, and only there. -/
  free_iff : Free IsModifier rest ↔ extract rest = .ok ({}, rest)
  /-- Where one is left, another pass that does not fail leaves less. -/
  shorter : ¬Free IsModifier rest → ∀ modifiers last,
    extract rest = .ok (modifiers, last) → last.length < rest.length

/-- Whatever the line, as soon as nothing that is left of it is a modifier, it stays as it is. That
is so after one pass if no modifier stands inside the name of another one, and every other pass
leaves less. -/
theorem residue_of_extract {text rest : List Char} {modifiers : Modifiers}
    (h : extract text = .ok (modifiers, rest)) : Residue text rest := by
  obtain ⟨kept, hstrips, rfl⟩ := exists_stripsAll h
  refine ⟨fun hunnested => ?_, ⟨fun hfree => ?_, fun hsame => ?_⟩,
    fun hleft modifiers last hmore => ?_⟩
  · have hfree := (hstrips.free (fun _ => isKind_of_mem_kinds) hunnested).1
    exact (free_isModifier_iff.mpr hfree).trim
  · rw [extract_of_free hfree, Text.trim_trim]
  · rcases extract_cases hsame with ⟨hfree, -⟩ | hlt
    · exact hfree
    · exact absurd hlt (Nat.lt_irrefl _)
  · rcases extract_cases hmore with ⟨hfree, -⟩ | hlt
    · exact absurd hfree hleft
    · exact hlt

/-- Of a line whose brackets do not nest only what is no modifier is left, after one pass. -/
theorem residue_of_extract_plainly :
    ∃ (text rest : List Char) (modifiers : Modifiers), text = "/ac <t> <WAIT.3><hq>".toList ∧
      rest = "/ac <t>".toList ∧ extract text = .ok (modifiers, rest) ∧ Residue text rest ∧
      Free IsModifier rest ∧ extract rest = .ok ({}, rest) := by
  let chunks : List Chunk :=
    [.char '/', .char 'a', .char 'c', .char ' ', .token ['t'], .char ' ', .token "WAIT.3".toList,
      .token ['h', 'q']]
  have hproper : ∀ chunk ∈ chunks, chunk.Proper := by simp [chunks, Chunk.Proper]
  have hextract : extract (render chunks) =
      .ok ({ wait := .fixed 3000, hq := true }, "/ac <t>".toList) := by decide +kernel
  have hresidue := residue_of_extract hextract
  have hfree := hresidue.free (unnested_of_proper hproper)
  exact ⟨_, _, _, by decide, rfl, hextract, hresidue, hfree, hresidue.free_iff.mp hfree⟩

/-- A modifier that is taken out of the name of another one leaves that one behind. -/
theorem not_free_of_nested :
    extract "<ec<hq>ho>".toList = .ok ({ hq := true }, "<echo>".toList) ∧
      extract "<echo>".toList = .ok ({ echo := true }, []) := by
  decide +kernel

end Modifiers

end GameMacros
