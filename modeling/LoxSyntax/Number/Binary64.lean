namespace LoxSyntax

/-- A double precision number, given by its word: a sign bit, eleven bits of exponent and
fifty-two of fraction. -/
structure Binary64 where
  bits : UInt64
  deriving DecidableEq, Repr

namespace Binary64

/-- The bit of the word that holds the sign. -/
def signBit : Nat := 0x8000000000000000

/-- The lowest bit of the exponent. It is also the leading bit of the fifty-three that a number
of full precision has, of which the fraction keeps the other fifty-two. -/
def leadingBit : Nat := 0x0010000000000000

/-- The word without its sign; among finite numbers a larger magnitude is a larger size. -/
def magnitude (x : Binary64) : Nat := x.bits.toNat % signBit

def isNegative (x : Binary64) : Bool := signBit ≤ x.bits.toNat

/-- The magnitude of infinity: every exponent bit set and no fraction. -/
def infinity : Nat := 0x7FF0000000000000

/-- A word past infinity stands for no number. -/
def isNaN (x : Binary64) : Bool := infinity < x.magnitude

def isFinite (x : Binary64) : Bool := x.magnitude < infinity

/-- Equality as numbers: the two zeros are equal, and what is no number equals nothing. -/
def equals (x y : Binary64) : Bool :=
  !x.isNaN && !y.isNaN && (x.bits == y.bits || x.magnitude == 0 && y.magnitude == 0)

/-- How many of the least positive number, the unit of the definitions below, make one. -/
def unitsPerOne : Nat := 1 <<< 1074

theorem unitsPerOne_pos : 0 < unitsPerOne := by
  decide +kernel

/-- The size in units of the number with a finite magnitude. -/
def units (magnitude : Nat) : Nat :=
  if magnitude < leadingBit then magnitude
  else (leadingBit + magnitude % leadingBit) <<< (magnitude / leadingBit - 1)

/-- The whole number nearest to `num / den`; a half goes to the even neighbour. -/
def roundHalfEven (num den : Nat) : Nat :=
  let below := num / den
  let twice := 2 * (num % den)
  if twice < den then below
  else if den < twice then below + 1
  else below + below % 2

theorem roundHalfEven_mul {den : Nat} (k : Nat) (h : 0 < den) :
    roundHalfEven (k * den) den = k := by
  simp [roundHalfEven, Nat.mul_div_cancel k h, h]

/-- The magnitude nearest to `num / den`. A number of more than fifty-three bits, counted in units,
keeps the leading fifty-three; the carry of a rounding up runs into the exponent, where it
belongs. -/
def nearestMagnitude (num den : Nat) : Nat :=
  let size := num * unitsPerOne
  let shift := (size / den).log2 - 52
  shift * leadingBit + roundHalfEven size (den <<< shift)

theorem shiftLeft_pos {n : Nat} (e : Nat) (h : 0 < n) : 0 < n <<< e := by
  rw [Nat.shiftLeft_eq]
  exact Nat.mul_pos h (Nat.two_pow_pos e)

theorem log2_shifted (f e : Nat) (h : f < leadingBit) :
    ((leadingBit + f) <<< e).log2 = 52 + e := by
  unfold leadingBit at h ⊢
  have pos := shiftLeft_pos (n := 0x0010000000000000 + f) e (by omega)
  rw [Nat.log2_eq_iff (by omega), Nat.shiftLeft_eq, Nat.add_right_comm, Nat.pow_add, Nat.pow_add]
  constructor
  · exact Nat.mul_le_mul_right _ (by omega)
  · exact Nat.mul_lt_mul_of_pos_right (by omega) (Nat.two_pow_pos e)

/-- A number is nearest to its own size: the fifty-three bits that are kept are all it has. -/
theorem nearestMagnitude_units (m den : Nat) (h : 0 < den) :
    nearestMagnitude (units m * den) (unitsPerOne * den) = m := by
  have size : units m * den * unitsPerOne = units m * (unitsPerOne * den) := by
    rw [Nat.mul_assoc, Nat.mul_comm den]
  have pos : 0 < unitsPerOne * den := Nat.mul_pos unitsPerOne_pos h
  simp only [nearestMagnitude, size, Nat.mul_div_cancel _ pos]
  generalize unitsPerOne * den = d at pos
  unfold units
  split
  next small =>
    have bits : m.log2 - 52 = 0 := by
      by_cases zero : m = 0
      · subst zero; decide
      · have := (Nat.log2_lt zero (k := 52)).mpr small
        omega
    rw [bits, Nat.shiftLeft_zero, roundHalfEven_mul _ pos, Nat.zero_mul, Nat.zero_add]
  next large =>
    have fraction : m % leadingBit < leadingBit := Nat.mod_lt _ (by decide)
    rw [log2_shifted _ _ fraction, Nat.add_sub_cancel_left, Nat.shiftLeft_eq, Nat.mul_assoc,
      Nat.mul_comm _ d, ← Nat.shiftLeft_eq, roundHalfEven_mul _ (shiftLeft_pos _ pos)]
    unfold leadingBit at large ⊢
    omega

/-- The number nearest to `num / den`, infinite when that is too large. -/
def ofRatio (num den : Nat) : Binary64 :=
  ⟨(min (nearestMagnitude num den) infinity).toUInt64⟩

theorem magnitude_ofRatio (num den : Nat) :
    (ofRatio num den).magnitude = min (nearestMagnitude num den) infinity := by
  have bound : min (nearestMagnitude num den) infinity ≤ infinity := Nat.min_le_right _ _
  simp only [magnitude, ofRatio, Nat.toUInt64, UInt64.toNat_ofNat']
  unfold infinity signBit at *
  omega

end Binary64

end LoxSyntax
