import GameMacros.Proofs.Reading

/-!
# The tokens of a line

Where angle brackets do not nest, a line is a run of characters and of tokens in brackets. A kind of
modifier recognizes its tokens by what stands between the brackets. Taking a kind out of such a line
removes the tokens that it recognizes and leaves the other pieces as they are. So the modifiers of a
line depend on its tokens only, and what is left of it are the characters around them and the tokens
that no kind recognizes.
-/

namespace GameMacros

namespace Text

/-! ## Cutting off a head -/

/-- What is cut off in front is no longer there, and the rest is as before. -/
theorem dropHeadBy_suffix {same : Char → Char → Bool} {head s rest : List Char}
    (h : dropHeadBy same head s = some rest) : rest <:+ s := by
  induction head generalizing s with
  | nil =>
    cases h
    exact List.suffix_refl _
  | cons first head ih =>
    cases s with
    | nil => cases h
    | cons c s =>
      rw [dropHeadBy] at h
      split at h
      · exact (ih h).trans (List.suffix_cons _ _)
      · cases h

/-- A head cannot reach past a character that is none of its own. -/
theorem dropHeadBy_append_of_stop {same : Char → Char → Bool} {head : List Char} {stop : Char}
    (h : ∀ c ∈ head, same c stop = false) (s after : List Char) :
    dropHeadBy same head (s ++ stop :: after) =
      (dropHeadBy same head s).map (· ++ stop :: after) := by
  induction head generalizing s with
  | nil => rfl
  | cons first head ih =>
    obtain ⟨hfirst, hothers⟩ := List.forall_mem_cons.mp h
    cases s with
    | nil => simp [dropHeadBy, hfirst]
    | cons c s =>
      rw [List.cons_append, dropHeadBy, dropHeadBy, ih hothers]
      split <;> rfl

/-- A head of two parts is cut off part by part. -/
theorem dropHeadBy_append {same : Char → Char → Bool} (head more s : List Char) :
    dropHeadBy same (head ++ more) s = (dropHeadBy same head s).bind (dropHeadBy same more) := by
  induction head generalizing s with
  | nil => rfl
  | cons first head ih =>
    cases s with
    | nil => rfl
    | cons c s =>
      rw [List.cons_append, dropHeadBy, dropHeadBy, ih]
      split <;> rfl

/-- What is cut off in front is the head, as far as the key of its characters tells. -/
theorem dropHeadBy_eq_some_iff {key : Char → Char} {head s rest : List Char} :
    dropHeadBy (fun a b => key a == key b) head s = some rest ↔
      ∃ front, s = front ++ rest ∧ front.map key = head.map key := by
  induction head generalizing s with
  | nil => simp [dropHeadBy]
  | cons first head ih =>
    constructor
    · intro h
      cases s with
      | nil => cases h
      | cons c s =>
        rw [dropHeadBy] at h
        split at h
        · next hsame =>
          obtain ⟨front, rfl, hfront⟩ := ih.mp h
          exact ⟨c :: front, rfl, by rw [List.map_cons, List.map_cons, eq_of_beq hsame, hfront]⟩
        · cases h
    · rintro ⟨front, rfl, hfront⟩
      cases front with
      | nil => cases hfront
      | cons c front =>
        obtain ⟨hfirst, hothers⟩ := List.cons.inj hfront
        rw [List.cons_append, dropHeadBy, if_pos (beq_iff_eq.mpr hfirst.symm)]
        exact ih.mpr ⟨front, rfl, hothers⟩

/-- Only a character itself has something that is no letter as its lowercase form. -/
theorem eq_of_asciiLower {symbol c : Char} (hletter : ¬('a' ≤ symbol ∧ symbol ≤ 'z'))
    (h : asciiLower c = symbol) : c = symbol := by
  unfold asciiLower at h
  split at h
  · next hupper =>
    refine absurd ?_ hletter
    have hleast : 65 ≤ c.toNat := hupper.1
    have hmost : c.toNat ≤ 90 := hupper.2
    rw [← h]
    generalize c.toNat = code at hleast hmost
    interval_cases code <;> decide
  · exact h

/-- Only a character itself folds to something that is no letter. -/
theorem eq_of_sameFolded {symbol c : Char} (hsymbol : foldLetter symbol = symbol)
    (hletter : ¬('a' ≤ symbol ∧ symbol ≤ 'z')) (h : sameFolded symbol c = true) : c = symbol := by
  have hsame : foldLetter symbol = foldLetter c := by simpa [sameFolded] using h
  have hfold : foldLetter c = symbol := hsame.symm.trans hsymbol
  unfold foldLetter at hfold
  split at hfold
  · exact absurd hfold (by rintro rfl; simp at hletter)
  split at hfold
  · exact absurd hfold (by rintro rfl; simp at hletter)
  exact eq_of_asciiLower hletter hfold

/-- Nothing but an opening bracket opens a token. -/
theorem sameFolded_open {c : Char} (h : c ≠ '<') : sameFolded '<' c = false :=
  Bool.eq_false_iff.mpr fun hsame => h (eq_of_sameFolded (by decide) (by decide) hsame)

/-- Nothing but a closing bracket closes a token. -/
theorem sameFolded_close {c : Char} (h : c ≠ '>') : sameFolded '>' c = false :=
  Bool.eq_false_iff.mpr fun hsame => h (eq_of_sameFolded (by decide) (by decide) hsame)

/-- A text with a separator is cut at it. -/
theorem splitOnce_isSome {separator : Char} {s : List Char} {parts : List Char × List Char}
    (h : splitOnce separator s = some parts) : separator ∈ s := by
  by_contra hnot
  simp [splitOnce_eq_none hnot] at h

end Text

namespace Modifiers

/-! ## Pieces of a line -/

/-- A piece of a line: a character, or a token with what stands between its brackets. -/
inductive Chunk where
  | char (c : Char)
  | token (inner : List Char)

namespace Chunk

/-- The piece as it is written. -/
def text : Chunk → List Char
  | .char c => [c]
  | .token inner => '<' :: (inner ++ ['>'])

/-- What stands between the brackets of a token. -/
def inner? : Chunk → Option (List Char)
  | .char _ => none
  | .token inner => some inner

/-- Brackets of the piece open only where it begins, and a token closes only where it ends. -/
def Proper : Chunk → Prop
  | .char c => c ≠ '<'
  | .token inner => '<' ∉ inner ∧ '>' ∉ inner

/-- The piece is no token that is recognized. -/
def isLeft (recognized : List Char → Bool) : Chunk → Bool
  | .char _ => true
  | .token inner => !recognized inner

end Chunk

/-- A line in pieces as it is written. -/
def render (chunks : List Chunk) : List Char :=
  chunks.flatMap Chunk.text

/-- What stands between the brackets of the tokens of a line. -/
def inners (chunks : List Chunk) : List (List Char) :=
  chunks.filterMap Chunk.inner?

/-- The pieces of a line without the tokens that are recognized. -/
def left (recognized : List Char → Bool) (chunks : List Chunk) : List Chunk :=
  chunks.filter (Chunk.isLeft recognized)

/-- The tokens that are left are those that are not recognized. -/
theorem inners_left (recognized : List Char → Bool) (chunks : List Chunk) :
    inners (left recognized chunks) = (inners chunks).filter (!recognized ·) := by
  induction chunks with
  | nil => rfl
  | cons chunk chunks ih =>
    unfold inners left at ih ⊢
    cases chunk with
    | char c =>
      rw [List.filter_cons_of_pos rfl]
      exact ih
    | token inner =>
      cases hread : recognized inner with
      | true =>
        rw [List.filter_cons_of_neg (by simp [Chunk.isLeft, hread]), ih]
        simp [Chunk.inner?, hread]
      | false =>
        rw [List.filter_cons_of_pos (by simp [Chunk.isLeft, hread]), List.filterMap_cons, ih]
        simp [Chunk.inner?, hread]

/-- What is left of proper pieces is proper. -/
theorem proper_left {chunks : List Chunk} (h : ∀ chunk ∈ chunks, chunk.Proper)
    (recognized : List Char → Bool) : ∀ chunk ∈ left recognized chunks, chunk.Proper :=
  fun chunk hmem => h chunk (List.mem_filter.mp hmem).1

/-- Of the pieces that one kind leaves another one leaves those that both leave. -/
theorem left_left (recognized others : List Char → Bool) (chunks : List Chunk) :
    left others (left recognized chunks) =
      left (fun inner => recognized inner || others inner) chunks := by
  unfold left
  rw [List.filter_filter]
  refine List.filter_congr fun chunk _ => ?_
  cases chunk with
  | char c => rfl
  | token inner => simp [Chunk.isLeft, Bool.and_comm]

/-! ## Kinds of modifiers -/

/-- The kind of modifier `lead` recognizes its tokens by what stands between their brackets, and
`read` gives their bodies. -/
structure Recognizes (lead : List Char → Lead) (read : List Char → Option (List Char)) : Prop where
  bracketed : Bracketed lead
  lead_eq : ∀ {inner : List Char}, '>' ∉ inner → ∀ after,
    lead ('<' :: (inner ++ '>' :: after)) = (read inner).elim .ordinary (.token · after)
  not_token : ∀ {s : List Char}, '>' ∉ s → ∀ body after, lead s ≠ .token body after

/-- The body of a modifier with a value, by what stands between its brackets. -/
def valuedBody (name inner : List Char) : Option (List Char) :=
  Text.dropHeadBy Text.sameFolded (name ++ ['.']) inner

/-- The empty body of a modifier without a value, by what stands between its brackets. -/
def flagBody (name inner : List Char) : Option (List Char) :=
  if Text.dropHeadBy Text.sameFolded name inner = some [] then some [] else none

/-- A modifier with a value is recognized by its name and a point. -/
theorem recognizes_valued {name : List Char} (hname : ∀ c ∈ name, Text.sameFolded c '>' = false) :
    Recognizes (valued name) (valuedBody name) where
  bracketed := bracketed_valued name
  lead_eq := by
    intro inner hinner after
    have hpointed : ∀ c ∈ name ++ ['.'], Text.sameFolded c '>' = false :=
      List.forall_mem_append.mpr ⟨hname, by simp; decide⟩
    have hdrop := Text.dropHeadBy_append_of_stop hpointed inner after
    have hopen : Text.sameFolded '<' '<' = true := by decide
    rw [valued, List.cons_append, Text.dropHeadBy, if_pos hopen, hdrop, valuedBody]
    cases hbody : Text.dropHeadBy Text.sameFolded (name ++ ['.']) inner with
    | none => rfl
    | some body =>
      have hclosed : '>' ∉ body := fun hmem =>
        hinner ((Text.dropHeadBy_suffix hbody).subset hmem)
      simp only [Option.map_some, Text.splitOnce_append hclosed, Option.elim_some]
  not_token := by
    intro s hs body after htoken
    unfold valued at htoken
    split at htoken
    · cases htoken
    · next rest hrest =>
      split at htoken
      · next hsplit =>
        exact hs ((Text.dropHeadBy_suffix hrest).subset (Text.splitOnce_isSome hsplit))
      · cases htoken

/-- A modifier without a value is recognized by its name. -/
theorem recognizes_flag {name : List Char} (hname : ∀ c ∈ name, Text.sameFolded c '>' = false) :
    Recognizes (flag name) (flagBody name) where
  bracketed := bracketed_flag name
  lead_eq := by
    intro inner hinner after
    have hdrop := Text.dropHeadBy_append_of_stop hname inner after
    have hopen : Text.sameFolded '<' '<' = true := by decide
    have hclose : Text.sameFolded '>' '>' = true := by decide
    rw [flag, List.cons_append, Text.dropHeadBy, if_pos hopen, Text.dropHeadBy_append, hdrop,
      flagBody]
    cases hbody : Text.dropHeadBy Text.sameFolded name inner with
    | none => rfl
    | some body =>
      cases body with
      | nil => simp [Text.dropHeadBy, hclose]
      | cons c body =>
        have hc : c ≠ '>' := fun heq =>
          hinner (heq ▸ (Text.dropHeadBy_suffix hbody).subset List.mem_cons_self)
        simp [Text.dropHeadBy, Text.sameFolded_close hc]
  not_token := by
    intro s hs body after htoken
    unfold flag at htoken
    split at htoken
    · cases htoken
    · next rest hrest =>
      -- What was cut off ends with a closing bracket.
      rw [List.cons_append, ← List.singleton_append, ← List.append_assoc, Text.dropHeadBy_append,
        Option.bind_eq_some_iff] at hrest
      obtain ⟨closing, hclosing, hcut⟩ := hrest
      cases closing with
      | nil => cases hcut
      | cons c closing =>
        by_cases hc : c = '>'
        · exact hs ((Text.dropHeadBy_suffix hclosing).subset (hc ▸ List.mem_cons_self))
        · simp [Text.dropHeadBy, Text.sameFolded_close hc] at hcut

variable {lead : List Char → Lead} {read : List Char → Option (List Char)} {chunks : List Chunk}
  {tail : List Char}

/-- Nothing is taken out of a text in which no token closes. -/
theorem takeOut_unclosed (h : Recognizes lead read) (htail : '>' ∉ tail) :
    takeOut lead tail = (none, tail) := by
  induction tail with
  | nil => simp [takeOut]
  | cons c tail ih =>
    cases hlead : lead (c :: tail) with
    | token body after => exact absurd hlead (h.not_token htail body after)
    | unclosed => rw [takeOut, hlead]
    | ordinary =>
      rw [takeOut_of_ordinary hlead, ih fun hmem => htail (List.mem_cons_of_mem _ hmem)]

/-- Taking out a kind of modifier removes the tokens that it recognizes and gives the body of the
last one. -/
theorem takeOut_render (h : Recognizes lead read) (hproper : ∀ chunk ∈ chunks, chunk.Proper)
    (htail : '>' ∉ tail) :
    takeOut lead (render chunks ++ tail) =
      (((inners chunks).filterMap read).getLast?,
        render (left (fun inner => (read inner).isSome) chunks) ++ tail) := by
  induction chunks with
  | nil => exact takeOut_unclosed h htail
  | cons chunk chunks ih =>
    obtain ⟨hchunk, hothers⟩ := List.forall_mem_cons.mp hproper
    have hrest := ih hothers
    unfold inners render left at hrest ⊢
    cases chunk with
    | char c =>
      have hplain := Text.sameFolded_open hchunk
      rw [List.flatMap_cons, List.append_assoc, Chunk.text, List.singleton_append,
        takeOut_of_ordinary (h.bracketed c _ hplain), hrest]
      rfl
    | token inner =>
      obtain ⟨hopen, hclose⟩ := hchunk
      have hline : (Chunk.token inner :: chunks).flatMap Chunk.text ++ tail =
          '<' :: (inner ++ '>' :: (chunks.flatMap Chunk.text ++ tail)) := by
        simp [Chunk.text]
      have hlead := h.lead_eq hclose (chunks.flatMap Chunk.text ++ tail)
      rw [hline]
      cases hread : read inner with
      | some body =>
        rw [hread, Option.elim_some] at hlead
        have hshorter : (chunks.flatMap Chunk.text ++ tail).length ≤
            (inner ++ '>' :: (chunks.flatMap Chunk.text ++ tail)).length := by
          simp only [List.length_append, List.length_cons]
          omega
        rw [takeOut, hlead]
        simp only [dif_pos hshorter, hrest]
        simp [Chunk.inner?, Chunk.isLeft, hread, List.getLast?_cons]
      | none =>
        rw [hread, Option.elim_none] at hlead
        have hplain : Plain (inner ++ ['>']) := by
          intro c hc
          refine Text.sameFolded_open ?_
          rintro rfl
          simp [hopen] at hc
        have hsplit : inner ++ '>' :: (chunks.flatMap Chunk.text ++ tail) =
            (inner ++ ['>']) ++ (chunks.flatMap Chunk.text ++ tail) := by simp
        rw [takeOut_of_ordinary hlead, hsplit, takeOut_append h.bracketed hplain, hrest]
        simp [Chunk.inner?, Chunk.isLeft, Chunk.text, hread]

/-! ## All modifiers of a line -/

/-- The value of a kind of modifier, if its last token can be read, by what stands between the
brackets of the tokens. -/
def valueOf? {α : Type} (modifier : ValuedModifier) (value? : List Char → Option α)
    (inners : List (List Char)) : Option (Option α) :=
  match (inners.filterMap (valuedBody modifier.name.toList)).getLast? with
  | none => some none
  | some body => (value? body).map some

/-- A token is one of a kind of modifier with a value, by what stands between its brackets. -/
def hasValue (modifier : ValuedModifier) (inner : List Char) : Bool :=
  (valuedBody modifier.name.toList inner).isSome

/-- A token is one of a kind of modifier without a value, by what stands between its brackets. -/
def isFlag (name : String) (inner : List Char) : Bool :=
  (flagBody name.toList inner).isSome

/-- The modifiers that tokens amount to, if all can be read, by what stands between their brackets.
Each kind is given what the kinds before it have left. -/
def ofInners (inners : List (List Char)) : Option Modifiers := do
  let wait ← valueOf? .wait Wait.ofSeconds? inners
  let inners := inners.filter (!hasValue .wait ·)
  let maxWait ← valueOf? .maxWait Wait.milliseconds? inners
  let inners := inners.filter (!hasValue .maxWait ·)
  let condition ← valueOf? .condition Condition.ofText? inners
  let inners := inners.filter (!hasValue .condition ·)
  let index ← valueOf? .index readIndex? inners
  let inners := inners.filter (!hasValue .index ·)
  let echo := inners.any (isFlag "echo")
  let inners := inners.filter (!isFlag "echo" ·)
  let unsafeAction := inners.any (isFlag "unsafe")
  let inners := inners.filter (!isFlag "unsafe" ·)
  let hq := inners.any (isFlag "hq")
  return { wait := wait.getD .zero, maxWait, echo, unsafeAction, hq, condition, index }

/-- A token is one of some kind of modifier, by what stands between its brackets. -/
def isModifier (inner : List Char) : Bool :=
  hasValue .wait inner || hasValue .maxWait inner || hasValue .condition inner ||
    hasValue .index inner || isFlag "echo" inner || isFlag "unsafe" inner || isFlag "hq" inner

/-- Every modifier with a value is a kind. -/
theorem recognizes_modifier (modifier : ValuedModifier) :
    Recognizes (valued modifier.name.toList) (valuedBody modifier.name.toList) :=
  recognizes_valued (by cases modifier <;> exact Text.forall_of_all rfl)

/-- Taking out a modifier with a value depends on the tokens of the line. -/
theorem toOption_takeValue_render {α : Type} {modifier : ValuedModifier}
    {value? : List Char → Option α} (hproper : ∀ chunk ∈ chunks, chunk.Proper)
    (htail : '>' ∉ tail) (line : List Char) :
    (takeValue modifier value? line (render chunks ++ tail)).toOption =
      (valueOf? modifier value? (inners chunks)).map fun value =>
        (value, render (left (hasValue modifier) chunks) ++ tail) := by
  rw [takeValue, takeOut_render (recognizes_modifier modifier) hproper htail, valueOf?]
  cases ((inners chunks).filterMap (valuedBody modifier.name.toList)).getLast? with
  | none => rfl
  | some body =>
    cases hvalue : value? body with
    | none => simp [hvalue, Except.toOption]
    | some value =>
      simp only [hvalue, Except.toOption, Option.map_some]
      rfl

/-- Taking out a modifier without a value depends on the tokens of the line. -/
theorem takeFlag_render (name : String)
    (hname : ∀ c ∈ name.toList, Text.sameFolded c '>' = false)
    (hproper : ∀ chunk ∈ chunks, chunk.Proper) (htail : '>' ∉ tail) :
    takeFlag name (render chunks ++ tail) =
      ((inners chunks).any (isFlag name), render (left (isFlag name) chunks) ++ tail) := by
  have hsome : ((inners chunks).filterMap (flagBody name.toList)).getLast?.isSome =
      (inners chunks).any (isFlag name) := by
    rw [Bool.eq_iff_iff, List.getLast?_isSome, List.any_eq_true, ne_eq, List.filterMap_eq_nil_iff]
    simp [isFlag, Option.isSome_iff_ne_none]
  rw [takeFlag, takeOut_render (recognizes_flag hname) hproper htail, ← hsome]
  rfl

/-- One step after another, as far as they lead. -/
theorem toOption_bind {ε α β : Type} (first : Except ε α) (next : α → Except ε β) :
    (first >>= next).toOption = first.toOption.bind fun value => (next value).toOption := by
  cases first <;> rfl

/-- The pieces of a line that are left when every kind of modifier is taken out. -/
theorem left_isModifier (chunks : List Chunk) :
    left isModifier chunks =
      left (isFlag "hq") (left (isFlag "unsafe") (left (isFlag "echo") (left (hasValue .index)
        (left (hasValue .condition) (left (hasValue .maxWait) (left (hasValue .wait) chunks))))))
      := by
  simp only [left_left]
  rfl

/-- The modifiers of a line are those that its tokens amount to, and what is left are its characters
and the tokens that no kind of modifier recognizes. -/
theorem toOption_extract_render (hproper : ∀ chunk ∈ chunks, chunk.Proper) (htail : '>' ∉ tail) :
    (extract (render chunks ++ tail)).toOption =
      (ofInners (inners chunks)).map fun modifiers =>
        (modifiers, Text.trim (render (left isModifier chunks) ++ tail)) := by
  have h1 := proper_left hproper (hasValue .wait)
  have h2 := proper_left h1 (hasValue .maxWait)
  have h3 := proper_left h2 (hasValue .condition)
  have h4 := proper_left h3 (hasValue .index)
  have h5 := proper_left h4 (isFlag "echo")
  have h6 := proper_left h5 (isFlag "unsafe")
  have hecho := takeFlag_render "echo" (Text.forall_of_all rfl) h4 htail
  have hunsafe := takeFlag_render "unsafe" (Text.forall_of_all rfl) h5 htail
  have hhq := takeFlag_render "hq" (Text.forall_of_all rfl) h6 htail
  unfold extract ofInners
  simp only [toOption_bind, toOption_takeValue_render hproper htail,
    toOption_takeValue_render h1 htail, toOption_takeValue_render h2 htail,
    toOption_takeValue_render h3 htail, Option.bind_map, Function.comp_def, hecho, hunsafe, hhq,
    inners_left, left_isModifier, Option.bind_eq_bind, Option.map_bind]
  rfl

/-- A line can be read for its modifiers exactly if its tokens amount to modifiers. -/
theorem extract_render_eq_ok_iff (hproper : ∀ chunk ∈ chunks, chunk.Proper) (htail : '>' ∉ tail)
    {modifiers : Modifiers} {rest : List Char} :
    extract (render chunks ++ tail) = .ok (modifiers, rest) ↔
      ofInners (inners chunks) = some modifiers ∧
        rest = Text.trim (render (left isModifier chunks) ++ tail) := by
  have hextract := toOption_extract_render hproper htail
  cases hresult : extract (render chunks ++ tail) with
  | error error =>
    rw [hresult] at hextract
    have hnone : ofInners (inners chunks) = none := by
      cases hinners : ofInners (inners chunks) with
      | none => rfl
      | some modifiers => simp [hinners, Except.toOption] at hextract
    simp [hnone]
  | ok found =>
    rw [hresult] at hextract
    obtain ⟨others, hothers, rfl⟩ := Option.map_eq_some_iff.mp hextract.symm
    simp [hothers, eq_comm]

end Modifiers

end GameMacros
