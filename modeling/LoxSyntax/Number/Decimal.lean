import LoxSyntax.Number.Binary64

namespace LoxSyntax

/-- The decimal `coefficient / 10 ^ places`. -/
structure Decimal where
  coefficient : Nat
  places : Nat
  deriving DecidableEq, Repr

namespace Decimal

/-- The decimal written with the digits `whole`, and `fraction` behind the point. -/
def ofDigits (whole fraction : List Char) : Decimal :=
  ⟨Nat.ofDigitChars 10 (whole ++ fraction) 0, fraction.length⟩

/-- The number that a decimal reads as. -/
def toBinary64 (d : Decimal) : Binary64 := .ofRatio d.coefficient (.pow 10 d.places)

/-- The digits of the whole part, then a point and the fraction if there are any places. -/
def digits (d : Decimal) : List Char :=
  let one := Nat.pow 10 d.places
  let whole := Nat.toDigits 10 (d.coefficient / one)
  if d.places = 0 then whole
  else whole ++ '.' ::
    (Nat.toDigits 10 (d.coefficient % one)).leftpad d.places '0'

/-- The two multiples of `10 ^ exponent` around `num / den`, the nearer one first; halfway
between them the upper one is. -/
def neighbours (num den : Nat) (exponent : Int) : List Decimal :=
  let places := (-exponent).toNat
  let step := Nat.pow 10 exponent.toNat
  let size := num * Nat.pow 10 places
  let below := size / (den * step)
  let lower := ⟨below * step, places⟩
  let upper := ⟨(below + 1) * step, places⟩
  if 2 * (size % (den * step)) < den * step then [lower, upper] else [upper, lower]

/-- The exponent of the power of ten just above a size in units; the scale `10 ^ 324` lifts the
unit above one. -/
def leadingExponent (units : Nat) : Int :=
  (Nat.toDigits 10 (units * Nat.pow 10 324 / Binary64.unitsPerOne)).length - 324

/-- A size in units, written out in full. -/
def exact (units : Nat) : Decimal := ⟨units * Nat.pow 5 1074, 1074⟩

theorem magnitude_exact (m : Nat) (h : m < Binary64.infinity) :
    (exact (Binary64.units m)).toBinary64.magnitude = m := by
  have ten : Nat.pow 10 1074 = Binary64.unitsPerOne * Nat.pow 5 1074 := by
    decide +kernel
  have nearest := Binary64.nearestMagnitude_units m (Nat.pow 5 1074) (by decide +kernel)
  rw [← ten] at nearest
  unfold exact toBinary64
  rw [Binary64.magnitude_ofRatio, nearest]
  omega

/-- The shortest decimal that reads as the number with this magnitude, and of those the nearest.
Seventeen digits tell all doubles apart, so the exact decimal is never needed. -/
def shortest (magnitude : Nat) : Decimal :=
  if magnitude = 0 then ⟨0, 0⟩
  else
    let units := Binary64.units magnitude
    let leading := leadingExponent units
    let readsBack (d : Decimal) : Bool := d.toBinary64.magnitude == magnitude
    let found? := (List.range 18).findSome? fun n : Nat =>
      (neighbours units Binary64.unitsPerOne (leading - n)).find? readsBack
    found?.getD (exact units)

/-- Every finite number is read back from its shortest decimal. -/
theorem magnitude_shortest (m : Nat) (h : m < Binary64.infinity) :
    (shortest m).toBinary64.magnitude = m := by
  unfold shortest
  split
  next zero => subst zero; decide +kernel
  next =>
    dsimp only
    cases found : (List.range 18).findSome? _ with
    | some d =>
      obtain ⟨n, _, among⟩ := List.exists_of_findSome?_eq_some found
      simpa using List.find?_some among
    | none => exact magnitude_exact m h

end Decimal

/-- The text of a number; only a word that is no number loses its sign. -/
def Binary64.text (x : Binary64) : String :=
  if x.isNaN then "NaN"
  else
    let size := if x.isFinite then String.ofList (Decimal.shortest x.magnitude).digits else "inf"
    if x.isNegative then "-" ++ size else size

end LoxSyntax
