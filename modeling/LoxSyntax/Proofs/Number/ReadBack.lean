import LoxSyntax.Number.Decimal

namespace LoxSyntax

namespace Decimal

/-- The digits in front of the point. -/
def whole (d : Decimal) : List Char := Nat.toDigits 10 (d.coefficient / Nat.pow 10 d.places)

/-- The digits behind the point, as many as there are places. -/
def fraction (d : Decimal) : List Char :=
  if d.places = 0 then []
  else (Nat.toDigits 10 (d.coefficient % Nat.pow 10 d.places)).leftpad d.places '0'

theorem digits_eq (d : Decimal) :
    d.digits = if d.fraction.isEmpty then d.whole else d.whole ++ '.' :: d.fraction := by
  unfold digits fraction
  by_cases none : d.places = 0
  · simp [none, whole]
  · have some : ¬ ((Nat.toDigits 10 (d.coefficient % Nat.pow 10 d.places)).leftpad d.places
        '0').isEmpty := by
      simp [List.leftpad, Nat.toDigits_ne_nil]
    simp only [none, if_false, if_neg some, whole]

theorem whole_ne_nil (d : Decimal) : d.whole ≠ [] := Nat.toDigits_ne_nil

theorem whole_isDigit (d : Decimal) : ∀ c ∈ d.whole, c.isDigit = true :=
  fun _ is => Nat.isDigit_of_mem_toDigits (by decide) (by decide) is

theorem fraction_isDigit (d : Decimal) : ∀ c ∈ d.fraction, c.isDigit = true := by
  intro c is
  unfold fraction at is
  split at is
  · cases is
  · rcases List.mem_append.mp is with zero | digit
    · rw [List.eq_of_mem_replicate zero]
      rfl
    · exact Nat.isDigit_of_mem_toDigits (by decide) (by decide) digit

theorem length_fraction (d : Decimal) : d.fraction.length = d.places := by
  unfold fraction
  split
  next none => exact none.symm
  next some =>
    have below : d.coefficient % Nat.pow 10 d.places < 10 ^ d.places :=
      Nat.mod_lt _ (Nat.pow_pos (by decide))
    have positive := Nat.pos_of_ne_zero some
    have short := (Nat.length_toDigits_le_iff (b := 10) (by decide) positive).mpr below
    rw [List.length_leftpad]
    exact Nat.max_eq_left short

theorem ofDigitChars_fraction (d : Decimal) :
    Nat.ofDigitChars 10 d.fraction 0 = d.coefficient % Nat.pow 10 d.places := by
  unfold fraction
  split
  next none => simp [none, Nat.mod_one]
  next some =>
    unfold List.leftpad
    rw [Nat.ofDigitChars_append, Nat.ofDigitChars_replicate_zero, Nat.mul_zero,
      Nat.ofDigitChars_ten_toDigits]

/-- All that is written of a decimal is digits and the point. -/
theorem not_mem_digits (d : Decimal) {c : Char} (other : c ≠ '.') (h : c.isDigit = false) :
    c ∉ d.digits := by
  have whole : c ∉ d.whole := fun inside => by simp [d.whole_isDigit c inside] at h
  have fraction : c ∉ d.fraction := fun inside => by simp [d.fraction_isDigit c inside] at h
  rw [d.digits_eq]
  split
  · exact whole
  · simp [whole, fraction, other]

/-- A decimal is what its digits say. -/
theorem ofDigits_digits (d : Decimal) : ofDigits d.whole d.fraction = d := by
  have coefficient : Nat.ofDigitChars 10 (d.whole ++ d.fraction) 0 = d.coefficient := by
    rw [Nat.ofDigitChars_append, Nat.ofDigitChars_eq_ofDigitChars_zero, ofDigitChars_fraction,
      length_fraction, whole, Nat.ofDigitChars_ten_toDigits]
    exact Nat.div_add_mod d.coefficient (10 ^ d.places)
  unfold ofDigits
  rw [coefficient, length_fraction]

end Decimal

namespace Binary64

/-- Numbers that were read have no sign, so the magnitude tells them apart. -/
theorem ofRatio_inj {num den num' den' : Nat}
    (h : (ofRatio num den).magnitude = (ofRatio num' den').magnitude) :
    ofRatio num den = ofRatio num' den' := by
  rw [magnitude_ofRatio, magnitude_ofRatio] at h
  unfold ofRatio
  rw [h]

theorem not_isNegative_ofRatio (num den : Nat) : (ofRatio num den).isNegative = false := by
  have bound : min (nearestMagnitude num den) infinity ≤ infinity := Nat.min_le_right _ _
  simp only [isNegative, ofRatio, Nat.toUInt64, UInt64.toNat_ofNat']
  unfold infinity signBit at *
  simp
  omega

end Binary64

/-- A finite number that was read is read again from its shortest decimal. -/
theorem Decimal.toBinary64_shortest (num den : Nat)
    (h : (Binary64.ofRatio num den).isFinite = true) :
    (shortest (Binary64.ofRatio num den).magnitude).toBinary64 = .ofRatio num den := by
  have finite : (Binary64.ofRatio num den).magnitude < Binary64.infinity := by
    simpa [Binary64.isFinite] using h
  exact Binary64.ofRatio_inj (magnitude_shortest _ finite)

/-- The text of such a number is the digits of its shortest decimal. -/
theorem Binary64.text_ofRatio (num den : Nat) (h : (ofRatio num den).isFinite = true) :
    (ofRatio num den).text =
      String.ofList (Decimal.shortest (ofRatio num den).magnitude).digits := by
  have number : (ofRatio num den).isNaN = false := by
    simp only [isFinite, isNaN, decide_eq_true_eq, decide_eq_false_iff_not] at h ⊢
    omega
  simp [Binary64.text, number, h, not_isNegative_ofRatio]

end LoxSyntax
