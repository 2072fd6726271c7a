import GameMacros.Number.Binary
import Mathlib.Tactic.Ring

/-!
# Exact rounding

Rounding to the nearest number of a given precision keeps the order of what is rounded, and moves a
number that needs all bits of the precision by at most half of its last bit. A number of seconds is
rounded three times on its way to milliseconds, the last time to a whole number. The first two
roundings move it by so little that a whole number of milliseconds comes out as it was, and a longer
time never comes out shorter.
-/

namespace GameMacros

namespace Binary

/-! ## The nearest whole number -/

/-- The whole number is no further than a half from the quotient, and it is even if it is a half
away. -/
structure IsNearest (num den n : Nat) : Prop where
  le : 2 * n * den ≤ 2 * num + den
  ge : 2 * num ≤ (2 * n + 1) * den
  even_of_below : 2 * num = (2 * n + 1) * den → n % 2 = 0
  even_of_above : 2 * n * den = 2 * num + den → n % 2 = 0

/-- What is taken as the nearest whole number is it. -/
theorem isNearest_nearest {den : Nat} (hden : 0 < den) (num : Nat) :
    IsNearest num den (nearest num den) := by
  have hsplit : num = num / den * den + num % den := (Nat.div_add_mod' num den).symm
  have hless := Nat.mod_lt num hden
  unfold nearest
  generalize num / den = quotient at *
  generalize num % den = rest at *
  dsimp only
  have hdown : 2 * quotient * den = 2 * (quotient * den) := Nat.mul_assoc _ _ _
  have hmiddle : (2 * quotient + 1) * den = 2 * (quotient * den) + den := by ring
  have hup : 2 * (quotient + 1) * den = 2 * (quotient * den) + 2 * den := by ring
  have hbeyond : (2 * (quotient + 1) + 1) * den = 2 * (quotient * den) + 3 * den := by ring
  split
  · constructor <;> omega
  · split
    · constructor <;> omega
    · split <;> constructor <;> omega

/-- A greater quotient has no smaller nearest number: two that are equally near to both are even,
and so not next to each other. -/
theorem IsNearest.le_of_le {num den num' den' n n' : Nat} (h : IsNearest num den n)
    (h' : IsNearest num' den' n') (hden : 0 < den) (hden' : 0 < den')
    (hle : num * den' ≤ num' * den) : n ≤ n' := by
  by_contra hlt
  -- Everything is compared over the common denominator.
  have hpos : 0 < den * den' := Nat.mul_pos hden hden'
  have hstep : (n' + 1) * (den * den') ≤ n * (den * den') :=
    Nat.mul_le_mul_right _ (Nat.lt_of_not_le hlt)
  have habove := Nat.mul_le_mul_right den' h.le
  have hbelow := Nat.mul_le_mul_right den h'.ge
  have hn : 2 * n * den * den' = 2 * (n * (den * den')) := by ring
  have hnum : (2 * num + den) * den' = 2 * (num * den') + den * den' := by ring
  have hn' : (2 * n' + 1) * den' * den = 2 * (n' * (den * den')) + den * den' := by ring
  have hnum' : 2 * num' * den = 2 * (num' * den) := by ring
  rw [Nat.add_mul, Nat.one_mul] at hstep
  have hnext : n = n' + 1 := by
    apply Nat.eq_of_mul_eq_mul_right hpos
    rw [Nat.add_mul, Nat.one_mul]
    omega
  have heven : n % 2 = 0 := by
    apply h.even_of_above
    apply Nat.eq_of_mul_eq_mul_right hden'
    omega
  have heven' : n' % 2 = 0 := by
    apply h'.even_of_below
    apply Nat.eq_of_mul_eq_mul_right hden
    omega
  omega

/-- A greater quotient has no smaller nearest whole number. -/
theorem nearest_le_nearest {num den num' den' : Nat} (hden : 0 < den) (hden' : 0 < den')
    (hle : num * den' ≤ num' * den) : nearest num den ≤ nearest num' den' :=
  (isNearest_nearest hden num).le_of_le (isNearest_nearest hden' num') hden hden' hle

/-- A quotient that is a whole number is the nearest one. -/
theorem nearest_mul {den : Nat} (hden : 0 < den) (quotient : Nat) :
    nearest (quotient * den) den = quotient := by
  have hexact : 2 * (quotient * den % den) < den := by
    rw [Nat.mul_mod_left]
    exact hden
  rw [nearest]
  simp only [if_pos hexact, Nat.mul_div_cancel _ hden]

/-- The nearest whole number is not beyond a whole number that the quotient is not beyond. -/
theorem nearest_le {num den n : Nat} (hden : 0 < den) (h : num ≤ n * den) :
    nearest num den ≤ n := by
  have hle := nearest_le_nearest hden hden (Nat.mul_le_mul_right den h)
  rwa [nearest_mul hden] at hle

/-- The nearest whole number is not below a whole number that the quotient is not below. -/
theorem le_nearest {num den n : Nat} (hden : 0 < den) (h : n * den ≤ num) :
    n ≤ nearest num den := by
  have hle := nearest_le_nearest hden hden (Nat.mul_le_mul_right den h)
  rwa [nearest_mul hden] at hle

/-! ## The nearest number of a precision -/

variable {precision : Nat}

/-- A greater number gives up no fewer bits. -/
theorem spareBits_mono {size size' : Nat} (h : size ≤ size') :
    spareBits precision size ≤ spareBits precision size' := by
  have hlog : size.log2 ≤ size'.log2 := by
    by_cases hzero : size = 0
    · simp [hzero]
    · exact (Nat.le_log2 (by omega)).mpr ((Nat.log2_self_le hzero).trans h)
  unfold spareBits
  omega

/-- A number that gives up bits has more of them than the precision allows. -/
theorem le_of_spareBits_pos (hprecision : 0 < precision) {size : Nat}
    (h : 0 < spareBits precision size) : 2 ^ (precision - 1 + spareBits precision size) ≤ size := by
  have hsize : size ≠ 0 := by
    rintro rfl
    simp [spareBits] at h
    omega
  have hlog : precision - 1 + spareBits precision size = size.log2 := by
    unfold spareBits at h ⊢
    omega
  rw [hlog]
  exact Nat.log2_self_le hsize

/-- The bits that are left are as many as the precision allows. -/
theorem lt_of_spareBits_le {size spare : Nat} (h : spareBits precision size ≤ spare) :
    size < 2 ^ (precision + spare) := by
  by_cases hsize : size = 0
  · rw [hsize]
    exact Nat.two_pow_pos _
  · refine (Nat.log2_lt hsize).mp ?_
    unfold spareBits at h
    omega

/-- Rounding is to the nearest multiple of a power of two. -/
theorem roundTo_eq (precision num den : Nat) :
    roundTo precision num den = nearest num (den * 2 ^ spareBits precision (num / den)) *
      2 ^ spareBits precision (num / den) := rfl

/-- The last bit that is kept is small against a number that needs all bits of the precision. -/
theorem pow_mul_le (hprecision : 0 < precision) {num den : Nat}
    (h : 0 < spareBits precision (num / den) ∨ 2 ^ (precision - 1) * den ≤ num) :
    2 ^ (precision - 1) * (den * 2 ^ spareBits precision (num / den)) ≤ num := by
  obtain hzero | hspare := Nat.eq_zero_or_pos (spareBits precision (num / den))
  · rw [hzero, Nat.pow_zero, Nat.mul_one]
    exact h.resolve_left (by omega)
  · calc 2 ^ (precision - 1) * (den * 2 ^ spareBits precision (num / den))
        = 2 ^ (precision - 1 + spareBits precision (num / den)) * den := by rw [Nat.pow_add]; ring
      _ ≤ num / den * den := Nat.mul_le_mul_right _ (le_of_spareBits_pos hprecision hspare)
      _ ≤ num := Nat.div_mul_le_self num den

/-- What is rounded does not need more bits than before, up to the next power of two. -/
theorem roundTo_le_pow (precision num : Nat) {den : Nat} (hden : 0 < den) :
    roundTo precision num den ≤ 2 ^ (precision + spareBits precision (num / den)) := by
  have hfits := @lt_of_spareBits_le precision (num / den) _ le_rfl
  rw [roundTo_eq]
  generalize spareBits precision (num / den) = spare at hfits ⊢
  have hpos := Nat.two_pow_pos spare
  have hnum : num ≤ 2 ^ precision * (den * 2 ^ spare) := by
    calc num ≤ (num / den + 1) * den := (Nat.lt_mul_of_div_lt (Nat.lt_succ_self _) hden).le
      _ ≤ 2 ^ (precision + spare) * den := Nat.mul_le_mul_right _ hfits
      _ = 2 ^ precision * (den * 2 ^ spare) := by rw [Nat.pow_add]; ring
  rw [Nat.pow_add]
  exact Nat.mul_le_mul_right _ (nearest_le (Nat.mul_pos hden hpos) hnum)

/-- What is rounded needs as many bits as before where some are given up. -/
theorem pow_le_roundTo (hprecision : 0 < precision) {num den : Nat} (hden : 0 < den)
    (hspare : 0 < spareBits precision (num / den)) :
    2 ^ (precision - 1 + spareBits precision (num / den)) ≤ roundTo precision num den := by
  have hnum := pow_mul_le hprecision (.inl hspare)
  rw [roundTo_eq, Nat.pow_add]
  exact Nat.mul_le_mul_right _ (le_nearest (Nat.mul_pos hden (Nat.two_pow_pos _)) hnum)

/-- A greater quotient is not rounded to less. Where the greater one gives up more bits, a power of
two lies between the two. -/
theorem roundTo_mono (hprecision : 0 < precision) {num den num' den' : Nat} (hden : 0 < den)
    (hden' : 0 < den') (hle : num * den' ≤ num' * den) :
    roundTo precision num den ≤ roundTo precision num' den' := by
  have hsize : num / den ≤ num' / den' := by
    refine (Nat.le_div_iff_mul_le hden').mpr (Nat.le_of_mul_le_mul_right ?_ hden)
    calc num / den * den' * den = num / den * den * den' := Nat.mul_right_comm _ _ _
      _ ≤ num * den' := Nat.mul_le_mul_right _ (Nat.div_mul_le_self num den)
      _ ≤ num' * den := hle
  have hspare : spareBits precision (num / den) ≤ spareBits precision (num' / den') :=
    spareBits_mono hsize
  obtain hsame | hmore := Nat.eq_or_lt_of_le hspare
  · rw [roundTo_eq, roundTo_eq, ← hsame]
    generalize spareBits precision (num / den) = spare
    have hpos := Nat.two_pow_pos spare
    refine Nat.mul_le_mul_right _ (nearest_le_nearest (Nat.mul_pos hden hpos)
      (Nat.mul_pos hden' hpos) ?_)
    rw [← Nat.mul_assoc, ← Nat.mul_assoc]
    exact Nat.mul_le_mul_right _ hle
  · calc roundTo precision num den
        ≤ 2 ^ (precision + spareBits precision (num / den)) := roundTo_le_pow precision num hden
      _ ≤ 2 ^ (precision - 1 + spareBits precision (num' / den')) :=
          Nat.pow_le_pow_right (by decide) (by omega)
      _ ≤ roundTo precision num' den' :=
          pow_le_roundTo hprecision hden' (Nat.zero_lt_of_lt hmore)

/-- A number that needs all bits of the precision is moved by at most half of its last bit: no more
than one part in the power of two that the precision stands for. Zero is not moved. -/
theorem roundTo_near (hprecision : 0 < precision) {num den : Nat} (hden : 0 < den)
    (h : num = 0 ∨ 2 ^ (precision - 1) * den ≤ num) :
    2 ^ precision * (roundTo precision num den * den) ≤ 2 ^ precision * num + num ∧
      2 ^ precision * num ≤ 2 ^ precision * (roundTo precision num den * den) + num := by
  obtain rfl | hlarge := h
  · simp [roundTo, nearest]
  have hbit := pow_mul_le hprecision (.inr hlarge)
  rw [roundTo_eq]
  generalize spareBits precision (num / den) = spare at hbit ⊢
  have hnearest := isNearest_nearest (Nat.mul_pos hden (Nat.two_pow_pos spare)) num
  generalize nearest num (den * 2 ^ spare) = n at hnearest ⊢
  have hhalf : 2 ^ precision = 2 * 2 ^ (precision - 1) := by
    rw [← Nat.pow_succ', Nat.succ_eq_add_one, Nat.sub_add_cancel hprecision]
  have habove := Nat.mul_le_mul_left (2 ^ (precision - 1)) hnearest.le
  have hbelow := Nat.mul_le_mul_left (2 ^ (precision - 1)) hnearest.ge
  have hn : 2 ^ precision * (n * 2 ^ spare * den) =
      2 ^ (precision - 1) * (2 * n * (den * 2 ^ spare)) := by
    rw [hhalf]; ring
  have hnum : 2 ^ precision * num = 2 ^ (precision - 1) * (2 * num) := by rw [hhalf]; ring
  rw [hn, hnum]
  constructor
  · calc 2 ^ (precision - 1) * (2 * n * (den * 2 ^ spare))
        ≤ 2 ^ (precision - 1) * (2 * num + den * 2 ^ spare) := habove
      _ = 2 ^ (precision - 1) * (2 * num) + 2 ^ (precision - 1) * (den * 2 ^ spare) :=
          Nat.mul_add _ _ _
      _ ≤ _ := Nat.add_le_add_left hbit _
  · calc 2 ^ (precision - 1) * (2 * num)
        ≤ 2 ^ (precision - 1) * ((2 * n + 1) * (den * 2 ^ spare)) := hbelow
      _ = 2 ^ (precision - 1) * (2 * n * (den * 2 ^ spare)) +
            2 ^ (precision - 1) * (den * 2 ^ spare) := by ring
      _ ≤ _ := Nat.add_le_add_left hbit _

/-! ## Milliseconds -/

/-- The least unit of binary64 is small against whole numbers. -/
theorem pow_le_unit64 : 2 ^ 62 ≤ unit64 := by
  have hexponent : 62 ≤ 1074 := by decide
  unfold unit64
  generalize 1074 = e at hexponent ⊢
  exact Nat.pow_le_pow_right (by decide) hexponent

/-- Numbers that are infinite are large against whole numbers. -/
theorem pow_mul_le_infinite64 : 2 ^ 62 * unit64 ≤ infinite64 := by
  have hexponent : 62 ≤ 1024 := by decide
  unfold infinite64
  generalize 1024 = e at hexponent ⊢
  exact Nat.mul_le_mul_right _ (Nat.pow_le_pow_right (by decide) hexponent)

end Binary

namespace Decimal

/-- There is something below the line. -/
theorem divisor_pos (d : Decimal) : 0 < d.divisor :=
  Nat.pow_pos (by decide)

/-- A number of seconds that is a whole number of milliseconds is known, once it is rounded, up to a
part that is as small as the precision. -/
theorem seconds_near {d : Decimal} {m unit : Nat} (hunit : 2 ^ 62 ≤ unit)
    (h : d.digits * 1000 = m * d.divisor) :
    2 ^ 53 * (Binary.roundTo 53 (d.digits * unit) d.divisor * 1000) ≤
        2 ^ 53 * (m * unit) + m * unit ∧
      2 ^ 53 * (m * unit) ≤
        2 ^ 53 * (Binary.roundTo 53 (d.digits * unit) d.divisor * 1000) + m * unit := by
  have hpos := d.divisor_pos
  -- Both sides of the error bound are compared over the divisor, in thousandths of a second.
  have hwhole : d.digits * unit * 1000 = m * unit * d.divisor := by
    calc d.digits * unit * 1000 = d.digits * 1000 * unit := Nat.mul_right_comm _ _ _
      _ = m * unit * d.divisor := by rw [h, Nat.mul_right_comm]
  have hlarge : d.digits * unit = 0 ∨ 2 ^ 52 * d.divisor ≤ d.digits * unit := by
    obtain rfl | hsome := Nat.eq_zero_or_pos m
    · omega
    · have hunits : 2 ^ 62 * d.divisor ≤ m * unit * d.divisor :=
        Nat.mul_le_mul_right _ (hunit.trans (Nat.le_mul_of_pos_left unit hsome))
      omega
  obtain ⟨habove, hbelow⟩ := @Binary.roundTo_near 53 (by decide) _ _ hpos hlarge
  generalize Binary.roundTo 53 (d.digits * unit) d.divisor = seconds at *
  have hseconds : 2 ^ 53 * (seconds * 1000) * d.divisor =
      2 ^ 53 * (seconds * d.divisor) * 1000 := by ring
  have hmillis : 2 ^ 53 * (m * unit) * d.divisor = 2 ^ 53 * (m * unit * d.divisor) :=
    Nat.mul_assoc _ _ _
  constructor
  · refine Nat.le_of_mul_le_mul_right ?_ hpos
    rw [Nat.add_mul]
    omega
  · refine Nat.le_of_mul_le_mul_right ?_ hpos
    rw [Nat.add_mul]
    omega

/-- Two roundings move a number of milliseconds by less than half a millisecond, as long as it is
not too large. So the third one brings it back. -/
theorem milliseconds_of_eq {d : Decimal} {m : Nat} (hm : m ≤ 2 ^ 50)
    (h : d.digits * 1000 = m * d.divisor) : d.milliseconds = m := by
  unfold milliseconds
  dsimp only
  have hunit := Binary.pow_le_unit64
  have hinfinite := Binary.pow_mul_le_infinite64
  generalize Binary.unit64 = unit at *
  generalize Binary.infinite64 = infinite at *
  obtain ⟨habove, hbelow⟩ := seconds_near hunit h
  generalize Binary.roundTo 53 (d.digits * unit) d.divisor = seconds at *
  have hsmall : m * unit ≤ 2 ^ 50 * unit := Nat.mul_le_mul_right unit hm
  have hlarge : seconds * 1000 = 0 ∨ 2 ^ 52 * 1 ≤ seconds * 1000 := by
    obtain rfl | hsome := Nat.eq_zero_or_pos m
    · omega
    · have hgreat : unit ≤ m * unit := Nat.le_mul_of_pos_left unit hsome
      omega
  obtain ⟨habove', hbelow'⟩ := @Binary.roundTo_near 53 (by decide) _ 1 (by decide) hlarge
  generalize Binary.roundTo 53 (seconds * 1000) 1 = scaled at *
  have hfinite : ¬infinite ≤ seconds ∧ ¬infinite ≤ scaled := by omega
  have hrounded : (2 * scaled + unit) / (2 * unit) = m := by
    have hdown : m * (2 * unit) = 2 * (m * unit) := by ring
    have hup : (m + 1) * (2 * unit) = 2 * (m * unit) + 2 * unit := by ring
    refine Nat.div_eq_of_lt_le ?_ ?_ <;> omega
  have hless : m ≤ Numeral.max64 := by
    unfold Numeral.max64
    omega
  simp only [hfinite, hrounded, decide_false, Bool.or_self, Bool.false_eq_true, if_false]
  exact Nat.min_eq_right hless

/-- Rounding to a whole number and capping it keep the order of what is rounded, also where the
greater one is infinite. -/
theorem capped_mono {infinite unit seconds seconds' scaled scaled' : Nat}
    (hseconds : seconds ≤ seconds') (hscaled : scaled ≤ scaled') :
    (if infinite ≤ seconds || infinite ≤ scaled then Numeral.max64
      else min Numeral.max64 ((2 * scaled + unit) / (2 * unit))) ≤
    if infinite ≤ seconds' || infinite ≤ scaled' then Numeral.max64
      else min Numeral.max64 ((2 * scaled' + unit) / (2 * unit)) := by
  simp only [Bool.or_eq_true, decide_eq_true_eq]
  split
  · next hinfinite =>
    have hinfinite' : infinite ≤ seconds' ∨ infinite ≤ scaled' := by omega
    rw [if_pos hinfinite']
  · split
    · exact Nat.min_le_left _ _
    · have hless : (2 * scaled + unit) / (2 * unit) ≤ (2 * scaled' + unit) / (2 * unit) :=
        Nat.div_le_div_right (by omega)
      omega

/-- A greater number of seconds does not have fewer milliseconds. -/
theorem milliseconds_mono {d d' : Decimal} (h : d.digits * d'.divisor ≤ d'.digits * d.divisor) :
    d.milliseconds ≤ d'.milliseconds := by
  unfold milliseconds
  generalize Binary.unit64 = unit
  have hunits : d.digits * unit * d'.divisor ≤ d'.digits * unit * d.divisor := by
    rw [Nat.mul_right_comm, Nat.mul_right_comm d'.digits]
    exact Nat.mul_le_mul_right _ h
  have hseconds := @Binary.roundTo_mono 53 (by decide) _ _ _ _ d.divisor_pos d'.divisor_pos hunits
  refine capped_mono hseconds (Binary.roundTo_mono (by decide) (by decide) (by decide) ?_)
  exact Nat.mul_le_mul_right 1 (Nat.mul_le_mul_right 1000 hseconds)

/-- No number of milliseconds has more than 64 bits. -/
theorem milliseconds_le (d : Decimal) : d.milliseconds ≤ Numeral.max64 := by
  unfold milliseconds
  dsimp only
  split
  · exact le_rfl
  · exact Nat.min_le_left _ _

/-- What does not fit in 64 bits becomes the greatest number that does. -/
theorem milliseconds_of_large {d : Decimal} (h : 2 ^ 64 * d.divisor ≤ d.digits * 1000) :
    d.milliseconds = Numeral.max64 := by
  refine Nat.le_antisymm d.milliseconds_le ?_
  have hleast : milliseconds ⟨18446744073709550, 0⟩ = Numeral.max64 := by decide +kernel
  rw [← hleast]
  refine milliseconds_mono ?_
  have hone : divisor ⟨18446744073709550, 0⟩ = 1 := rfl
  rw [hone]
  dsimp only
  omega

/-- A whole number of seconds is a thousand times as many milliseconds. -/
theorem milliseconds_whole {n : Nat} (h : n ≤ Numeral.max32) :
    milliseconds ⟨n, 0⟩ = n * 1000 := by
  unfold Numeral.max32 at h
  refine milliseconds_of_eq (by omega) ?_
  rw [show divisor ⟨n, 0⟩ = 1 from rfl, Nat.mul_one]

end Decimal

end GameMacros
