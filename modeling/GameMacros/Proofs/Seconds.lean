import GameMacros.Proofs.Counts
import GameMacros.Proofs.Rounding
import Mathlib.Algebra.Order.Field.Basic
import Mathlib.Data.Rat.Cast.Order
import Mathlib.Tactic.FieldSimp

/-!
# Seconds

A number of seconds is written in decimal and kept in milliseconds. Whole milliseconds are kept as
they are written, as long as there are no more than `2 ^ 50` of them, and whatever is written, more
seconds are never fewer milliseconds. So a range that is written in order is one, however close its
ends are.
-/

namespace GameMacros

/-! ## Decimals -/

/-- What is cut at a separator is the two parts with the separator between. -/
theorem Text.eq_append_of_splitOnce {separator : Char} {s front back : List Char}
    (h : splitOnce separator s = some (front, back)) : s = front ++ separator :: back := by
  induction s generalizing front with
  | nil => cases h
  | cons c s ih =>
    unfold splitOnce at h
    split at h
    · next heq =>
      cases h
      rw [heq, List.nil_append]
    · obtain ⟨⟨front, back⟩, hrest, heq⟩ := Option.map_eq_some_iff.mp h
      cases heq
      rw [ih hrest, List.cons_append]

namespace Decimal

/-- The text is a decimal for the value: a numeral, or two with a point between. -/
inductive Spells : List Char → ℚ → Prop
  | whole {s : List Char} {n : Nat} (hwhole : Numeral.Denotes s n) : Spells s n
  | fraction {whole fraction : List Char} {n m : Nat} (hwhole : Numeral.Denotes whole n)
      (hfraction : Numeral.Denotes fraction m) :
      Spells (whole ++ '.' :: fraction) (n + m / 10 ^ fraction.length)

/-- The quotient that a decimal is kept as. -/
def value (d : Decimal) : ℚ :=
  d.digits / d.divisor

variable {s : List Char} {d d' : Decimal}

/-- The digits on both sides of the point are read as one numeral. -/
theorem denotes_append {whole fraction : List Char} {n m : Nat} (hwhole : Numeral.Denotes whole n)
    (hfraction : Numeral.Denotes fraction m) :
    Numeral.Denotes (whole ++ fraction) (10 ^ fraction.length * n + m) := by
  refine ⟨by simp [hwhole.ne_nil], ?_, ?_⟩
  · exact List.forall_mem_append.mpr ⟨hwhole.isDigit, hfraction.isDigit⟩
  · rw [Nat.ofDigitChars_append, hwhole.value_eq, Nat.ofDigitChars_eq_ofDigitChars_zero,
      hfraction.value_eq]

/-- The value of two numerals with a point between. -/
theorem value_mk (n m places : Nat) :
    value ⟨10 ^ places * n + m, places⟩ = n + m / 10 ^ places := by
  have hpos : (10 : ℚ) ^ places ≠ 0 := by positivity
  have hdivisor : divisor ⟨10 ^ places * n + m, places⟩ = 10 ^ places := rfl
  rw [value, hdivisor]
  push_cast
  field_simp

/-- A numeral has no point. -/
theorem not_mem_of_denotes {n : Nat} {c : Char} (h : Numeral.Denotes s n)
    (hc : c.isDigit = false) : c ∉ s := by
  intro hmem
  rw [h.isDigit c hmem] at hc
  cases hc

/-- What is read is a decimal, and its value is kept. -/
theorem spells_of_ofText? (h : ofText? s = some d) : Spells s d.value := by
  unfold ofText? at h
  split at h
  · split at h
    · next hdigits =>
      cases h
      have hwhole := Numeral.isDigits_and_value_eq_iff.mp ⟨hdigits, rfl⟩
      have hvalue : value ⟨Numeral.value s, 0⟩ = (Numeral.value s : ℚ) := by
        simp [value, divisor]
      exact hvalue ▸ .whole hwhole
    · cases h
  · next whole fraction hcut =>
    split at h
    · next hdigits =>
      cases h
      rw [Bool.and_eq_true] at hdigits
      have hwhole := Numeral.isDigits_and_value_eq_iff.mp ⟨hdigits.1, rfl⟩
      have hfraction := Numeral.isDigits_and_value_eq_iff.mp ⟨hdigits.2, rfl⟩
      obtain ⟨-, hboth⟩ := Numeral.isDigits_and_value_eq_iff.mpr (denotes_append hwhole hfraction)
      rw [hboth, value_mk, Text.eq_append_of_splitOnce hcut]
      exact .fraction hwhole hfraction
    · cases h

/-- A decimal is read as its value. -/
theorem Spells.exists_ofText? {v : ℚ} (h : Spells s v) : ∃ d, ofText? s = some d ∧ d.value = v := by
  cases h with
  | @whole _ n hwhole =>
    obtain ⟨hdigits, hvalue⟩ := Numeral.isDigits_and_value_eq_iff.mpr hwhole
    have hcut := Text.splitOnce_eq_none (not_mem_of_denotes (c := '.') hwhole rfl)
    refine ⟨⟨n, 0⟩, ?_, by simp [value, divisor]⟩
    simp only [ofText?, hcut, hdigits, hvalue, if_true]
  | @fraction whole fraction n m hwhole hfraction =>
    obtain ⟨hdigits, -⟩ := Numeral.isDigits_and_value_eq_iff.mpr hwhole
    obtain ⟨hdigits', -⟩ := Numeral.isDigits_and_value_eq_iff.mpr hfraction
    obtain ⟨-, hboth⟩ := Numeral.isDigits_and_value_eq_iff.mpr (denotes_append hwhole hfraction)
    have hcut := Text.splitOnce_append (not_mem_of_denotes (c := '.') hwhole rfl) fraction
    refine ⟨⟨10 ^ fraction.length * n + m, fraction.length⟩, ?_, value_mk n m fraction.length⟩
    simp only [ofText?, hcut, hdigits, hdigits', hboth, Bool.and_self, if_true]

/-- The order of values is that of the products across. -/
theorem value_le_iff : d.value ≤ d'.value ↔ d.digits * d'.divisor ≤ d'.digits * d.divisor := by
  have hpos : (0 : ℚ) < d.divisor := by exact_mod_cast d.divisor_pos
  have hpos' : (0 : ℚ) < d'.divisor := by exact_mod_cast d'.divisor_pos
  rw [value, value, div_le_div_iff₀ hpos hpos']
  exact_mod_cast Iff.rfl

/-- A value in thousandths is a number of milliseconds. -/
theorem digits_mul_of_value_eq {m : Nat} (h : d.value = m / 1000) :
    d.digits * 1000 = m * d.divisor := by
  have hpos : (d.divisor : ℚ) ≠ 0 := by exact_mod_cast d.divisor_pos.ne'
  rw [value, div_eq_div_iff hpos (by norm_num)] at h
  exact_mod_cast h

end Decimal

/-! ## Reading seconds -/

namespace Wait

/-- How a number of seconds becomes milliseconds: exactly, if they are whole and not too many, and
as the greatest number of 64 bits if there are more than that. -/
structure Converts (v : ℚ) (ms : Nat) : Prop where
  eq_of_whole : ∀ m : Nat, m ≤ 2 ^ 50 → v = m / 1000 → ms = m
  le : ms ≤ 2 ^ 64 - 1
  eq_of_large : 2 ^ 64 ≤ v * 1000 → ms = 2 ^ 64 - 1

/-- The milliseconds of a decimal are those of its value. -/
theorem converts_milliseconds (d : Decimal) : Converts d.value d.milliseconds := by
  have hmost : Numeral.max64 = 2 ^ 64 - 1 := by decide
  refine ⟨fun m hm hvalue => ?_, ?_, fun hlarge => ?_⟩
  · exact Decimal.milliseconds_of_eq hm (Decimal.digits_mul_of_value_eq hvalue)
  · rw [← hmost]
    exact d.milliseconds_le
  · rw [← hmost]
    refine Decimal.milliseconds_of_large ?_
    have hpos : (0 : ℚ) < d.divisor := by exact_mod_cast d.divisor_pos
    rw [Decimal.value, div_mul_eq_mul_div, le_div_iff₀ hpos] at hlarge
    exact_mod_cast hlarge

variable {s start stop : List Char} {v w : ℚ} {ms : Nat}

/-- A decimal is read, and its milliseconds are those of some decimal of the same value. -/
theorem exists_milliseconds? (h : Decimal.Spells (Text.trim s) v) :
    ∃ d : Decimal, milliseconds? s = some d.milliseconds ∧ d.value = v := by
  obtain ⟨d, hread, hvalue⟩ := h.exists_ofText?
  exact ⟨d, by rw [milliseconds?, hread, Option.map_some], hvalue⟩

/-- Nothing but digits, a point and blanks is in the text of a number of seconds. -/
theorem not_mem_of_spells {c : Char} (hdigit : c.isDigit = false) (hpoint : c ≠ '.')
    (hblank : Text.isBlank c = false) (h : Decimal.Spells (Text.trim s) v) : c ∉ s := by
  intro hmem
  have htrimmed := Text.mem_trim_of_mem hmem hblank
  generalize Text.trim s = trimmed at h htrimmed
  cases h with
  | whole hwhole => exact Decimal.not_mem_of_denotes hwhole hdigit htrimmed
  | fraction hwhole hfraction =>
    obtain hfront | hback := List.mem_append.mp htrimmed
    · exact Decimal.not_mem_of_denotes hwhole hdigit hfront
    · obtain heq | hback := List.mem_cons.mp hback
      · exact hpoint heq
      · exact Decimal.not_mem_of_denotes hfraction hdigit hback

/-- How texts of seconds are read: decimals are all that is accepted, each is converted, and two
that are in order are a range. -/
structure ReadsSeconds (start stop : List Char) : Prop where
  isSome_iff : (milliseconds? start).isSome = true ↔ ∃ v, Decimal.Spells (Text.trim start) v
  converts : ∀ v, Decimal.Spells (Text.trim start) v →
    ∃ ms, milliseconds? start = some ms ∧ Converts v ms
  ordered : ∀ v w, Decimal.Spells (Text.trim start) v → Decimal.Spells (Text.trim stop) w → v ≤ w →
    ∃ least bound, milliseconds? start = some least ∧ milliseconds? stop = some bound ∧
      least ≤ bound ∧ ofSeconds? (start ++ '-' :: stop) = some (range least bound)

/-- Seconds are read exactly and in order. -/
theorem readsSeconds (start stop : List Char) : ReadsSeconds start stop := by
  constructor
  · constructor
    · intro h
      rw [milliseconds?, Option.isSome_map] at h
      obtain ⟨d, hread⟩ := Option.isSome_iff_exists.mp h
      exact ⟨d.value, Decimal.spells_of_ofText? hread⟩
    · rintro ⟨v, hspells⟩
      obtain ⟨d, hread, -⟩ := exists_milliseconds? hspells
      rw [hread]
      rfl
  · intro v hspells
    obtain ⟨d, hread, rfl⟩ := exists_milliseconds? hspells
    exact ⟨d.milliseconds, hread, converts_milliseconds d⟩
  · intro v w hstart hstop hle
    obtain ⟨d, hread, rfl⟩ := exists_milliseconds? hstart
    obtain ⟨d', hread', rfl⟩ := exists_milliseconds? hstop
    have hordered := Decimal.milliseconds_mono (Decimal.value_le_iff.mp hle)
    refine ⟨_, _, hread, hread', hordered, ?_⟩
    have hdash : '-' ∉ start := not_mem_of_spells rfl (by decide) rfl hstart
    have hcut := Text.splitOnce_append hdash stop
    simp only [ofSeconds?, hcut, hread, hread', Nat.not_lt.mpr hordered, if_false]

end Wait

end GameMacros
