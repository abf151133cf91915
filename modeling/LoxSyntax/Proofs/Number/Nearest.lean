import Mathlib.Algebra.Order.Field.Basic
import Mathlib.Algebra.Order.Field.Rat
import Mathlib.Data.Nat.Dist
import Mathlib.Tactic.Linarith
import LoxSyntax.Proofs.Token.Position

namespace LoxSyntax

namespace Binary64

/-- Rounding goes to the whole number below or to the one above, and to an even one from halfway. -/
theorem roundHalfEven_cases (num den : Nat) :
    (roundHalfEven num den = num / den ∧ 2 * (num % den) ≤ den ∨
      roundHalfEven num den = num / den + 1 ∧ den ≤ 2 * (num % den)) ∧
    (2 * (num % den) = den → roundHalfEven num den % 2 = 0) := by
  unfold roundHalfEven
  dsimp only
  split
  · omega
  split <;> omega

/-- No multiple of the denominator is nearer than the one that is rounded to, and where another is
as near the rounding is even. -/
theorem roundHalfEven_nearest (num k : Nat) {den : Nat} (pos : 0 < den) :
    num.dist (roundHalfEven num den * den) ≤ num.dist (k * den) ∧
      (num.dist (roundHalfEven num den * den) = num.dist (k * den) →
        k = roundHalfEven num den ∨ roundHalfEven num den % 2 = 0) := by
  have whole := Nat.div_add_mod' num den
  have rest := Nat.mod_lt num pos
  have above : (num / den + 1) * den = num / den * den + den := Nat.succ_mul _ _
  obtain ⟨side, half⟩ := roundHalfEven_cases num den
  have place : k = num / den ∨ k = num / den + 1 ∨ k * den + den ≤ num / den * den ∨
      num / den * den + 2 * den ≤ k * den := by
    obtain same | next | low | high :
        k = num / den ∨ k = num / den + 1 ∨ k + 1 ≤ num / den ∨ num / den + 2 ≤ k := by omega
    · exact .inl same
    · exact .inr (.inl next)
    · exact .inr (.inr (.inl (by rw [← Nat.succ_mul]; exact Nat.mul_le_mul_right den low)))
    · exact .inr (.inr (.inr (by rw [← Nat.add_mul]; exact Nat.mul_le_mul_right den high)))
  unfold Nat.dist
  generalize roundHalfEven num den = q at *
  obtain ⟨rfl, near⟩ | ⟨rfl, near⟩ := side
  · obtain rfl | rfl | far | far := place <;> omega
  · obtain rfl | rfl | far | far := place <;> omega

/-- A magnitude is a mantissa of at most fifty-three bits, of full precision unless the shift is
zero, and its shift. A carry out of the mantissa runs into the shift. -/
theorem units_shifted {shift mantissa : Nat} (low : shift = 0 ∨ leadingBit ≤ mantissa)
    (high : mantissa ≤ 2 * leadingBit) :
    units (shift * leadingBit + mantissa) = mantissa * 2 ^ shift := by
  obtain small | full | carry :
      mantissa < leadingBit ∨ leadingBit ≤ mantissa ∧ mantissa < 2 * leadingBit ∨
        mantissa = 2 * leadingBit := by omega
  · obtain rfl : shift = 0 := low.resolve_right (Nat.not_le.mpr small)
    rw [Nat.zero_mul, Nat.zero_add, Nat.pow_zero, Nat.mul_one]
    exact if_pos small
  · have large : ¬shift * leadingBit + mantissa < leadingBit := by omega
    have exponent : (shift * leadingBit + mantissa) / leadingBit - 1 = shift := by
      unfold leadingBit at *
      omega
    have fraction : leadingBit + (shift * leadingBit + mantissa) % leadingBit = mantissa := by
      unfold leadingBit at *
      omega
    rw [units, if_neg large, exponent, fraction, Nat.shiftLeft_eq]
  · have large : ¬shift * leadingBit + mantissa < leadingBit := by unfold leadingBit at *; omega
    have exponent : (shift * leadingBit + mantissa) / leadingBit - 1 = shift + 1 := by
      unfold leadingBit at *
      omega
    have fraction : leadingBit + (shift * leadingBit + mantissa) % leadingBit = leadingBit := by
      unfold leadingBit at *
      omega
    rw [units, if_neg large, exponent, fraction, Nat.shiftLeft_eq, carry, Nat.pow_succ']
    ac_rfl

theorem exists_shifted (m : Nat) : ∃ shift mantissa, m = shift * leadingBit + mantissa ∧
    (shift = 0 ∨ leadingBit ≤ mantissa) ∧ mantissa < 2 * leadingBit := by
  refine ⟨m / leadingBit - 1, m - (m / leadingBit - 1) * leadingBit, ?_⟩
  unfold leadingBit
  omega

theorem units_lt_succ (m : Nat) : units m < units (m + 1) := by
  obtain ⟨shift, mantissa, rfl, low, high⟩ := exists_shifted m
  rw [Nat.add_assoc, units_shifted low (Nat.le_of_lt high), units_shifted (by omega) high]
  exact Nat.mul_lt_mul_of_pos_right (Nat.lt_succ_self _) (Nat.two_pow_pos shift)

theorem units_strictMono : StrictMono units := strictMono_nat_of_lt_succ units_lt_succ

/-- Whatever the shift, a size is a multiple of its step or less than all sizes of full precision. -/
theorem units_steps (m shift : Nat) :
    (∃ k, units m = k * 2 ^ shift) ∨ shift ≠ 0 ∧ units m < leadingBit * 2 ^ shift := by
  obtain ⟨shift', mantissa, rfl, low, high⟩ := exists_shifted m
  rw [units_shifted low high.le]
  by_cases coarse : shift ≤ shift'
  · refine .inl ⟨mantissa * 2 ^ (shift' - shift), ?_⟩
    rw [Nat.mul_assoc, ← Nat.pow_add, Nat.sub_add_cancel coarse]
  · refine .inr ⟨by omega, ?_⟩
    calc mantissa * 2 ^ shift' < 2 * leadingBit * 2 ^ shift' :=
          Nat.mul_lt_mul_of_pos_right high (Nat.two_pow_pos _)
      _ = leadingBit * 2 ^ (shift' + 1) := by rw [Nat.pow_succ']; ac_rfl
      _ ≤ leadingBit * 2 ^ shift :=
          Nat.mul_le_mul_left _ (Nat.pow_le_pow_right (by decide) (by omega))

/-- Shifted to the right by all but the leading fifty-three bits of its quotient, a number has a
quotient of fifty-three bits, or of fewer if nothing had to be shifted. -/
theorem leading_bits {size den shift : Nat} (pos : 0 < den)
    (is : shift = (size / den).log2 - 52) :
    (shift = 0 ∨ leadingBit * 2 ^ shift * den ≤ size) ∧
      size / (2 ^ shift * den) < 2 * leadingBit := by
  constructor
  · by_cases none : shift = 0
    · exact .inl none
    · have some : size / den ≠ 0 := fun zero => none (by simp [is, zero])
      have width : 52 + shift = (size / den).log2 := by omega
      refine .inr ((Nat.le_div_iff_mul_le pos).mp ?_)
      change 2 ^ 52 * 2 ^ shift ≤ size / den
      rw [← Nat.pow_add, width]
      exact Nat.log2_self_le some
  · have width : (size / den).log2 + 1 ≤ 53 + shift := by omega
    rw [Nat.mul_comm, ← Nat.div_div_eq_div_mul, Nat.div_lt_iff_lt_mul (Nat.two_pow_pos shift)]
    calc size / den < 2 ^ ((size / den).log2 + 1) := Nat.lt_log2_self
      _ ≤ 2 ^ (53 + shift) := Nat.pow_le_pow_right (by decide) width
      _ = 2 * leadingBit * 2 ^ shift := Nat.pow_add 2 53 shift

/-- No magnitude is nearer to `num / den`, counted in units, than the one that is chosen, and if
another is as near the chosen one is even. -/
theorem nearestMagnitude_nearest (num m : Nat) {den : Nat} (pos : 0 < den) :
    let size := num * unitsPerOne
    let chosen := nearestMagnitude num den
    size.dist (units chosen * den) ≤ size.dist (units m * den) ∧
      (size.dist (units chosen * den) = size.dist (units m * den) →
        m = chosen ∨ chosen % 2 = 0) := by
  intro size chosen
  let shift := (size / den).log2 - 52
  let mantissa := roundHalfEven size (2 ^ shift * den)
  have step : 0 < 2 ^ shift * den := Nat.mul_pos (Nat.two_pow_pos shift) pos
  have is : chosen = shift * leadingBit + mantissa := by
    change shift * leadingBit + roundHalfEven size (den <<< shift) = _
    rw [Nat.shiftLeft_eq, Nat.mul_comm den]
  obtain ⟨full, short⟩ := leading_bits pos (rfl : shift = (size / den).log2 - 52)
  obtain ⟨side, -⟩ := roundHalfEven_cases size (2 ^ shift * den)
  have low : shift = 0 ∨ leadingBit ≤ mantissa := full.imp_right fun large => by
    rw [Nat.mul_assoc] at large
    have whole := (Nat.le_div_iff_mul_le step).mpr large
    exact whole.trans (by omega)
  have high : mantissa ≤ 2 * leadingBit := by omega
  have size_chosen : units chosen * den = mantissa * (2 ^ shift * den) := by
    rw [is, units_shifted low high, Nat.mul_assoc]
  rw [size_chosen]
  obtain ⟨k, multiple⟩ | ⟨shifted, below⟩ := units_steps m shift
  · obtain ⟨near, tied⟩ := roundHalfEven_nearest size k step
    rw [multiple, Nat.mul_assoc]
    refine ⟨near, fun tie => (tied tie).imp (fun equal => ?_) fun even => ?_⟩
    · have same : units m = units chosen := by
        rw [multiple, is, units_shifted low high, equal]
      exact units_strictMono.injective same
    · rw [is]
      unfold leadingBit
      omega
  · -- The least number of full precision is nearer than what is below it.
    have near : size.dist (mantissa * (2 ^ shift * den)) ≤
        size.dist (leadingBit * (2 ^ shift * den)) := (roundHalfEven_nearest size leadingBit step).1
    rw [← Nat.mul_assoc leadingBit] at near
    have large := full.resolve_left shifted
    have less := Nat.mul_lt_mul_of_pos_right below pos
    unfold Nat.dist at *
    omega

/-- The number that a magnitude stands for. Infinity stands for the power of two that would follow
the finite numbers. -/
def size (magnitude : Nat) : ℚ := units magnitude / unitsPerOne

/-- The number that a word stands for. -/
def value (x : Binary64) : ℚ := if x.isNegative then -size x.magnitude else size x.magnitude

theorem size_infinity : size infinity = 2 ^ 1024 := by
  have whole : units infinity = 2 ^ 1024 * unitsPerOne := by decide +kernel
  have pos : (unitsPerOne : ℚ) ≠ 0 := Nat.cast_ne_zero.mpr unitsPerOne_pos.ne'
  rw [size, whole, Nat.cast_mul, mul_div_cancel_right₀ _ pos, Nat.cast_pow, Nat.cast_ofNat]

theorem size_strictMono : StrictMono size := fun m n less => by
  have pos : (0 : ℚ) < unitsPerOne := Nat.cast_pos.mpr unitsPerOne_pos
  exact div_lt_div_of_pos_right (Nat.cast_lt.mpr (units_strictMono less)) pos

theorem size_nonneg (m : Nat) : 0 ≤ size m := div_nonneg (Nat.cast_nonneg _) (Nat.cast_nonneg _)

theorem cast_dist (a b : Nat) : (a.dist b : ℚ) = |(a : ℚ) - b| := by
  obtain le | ge := Nat.le_total a b
  · rw [Nat.dist_eq_sub_of_le le, Nat.cast_sub le, abs_sub_comm, abs_of_nonneg]
    exact sub_nonneg.mpr (Nat.cast_le.mpr le)
  · rw [Nat.dist_eq_sub_of_le_right ge, Nat.cast_sub ge, abs_of_nonneg]
    exact sub_nonneg.mpr (Nat.cast_le.mpr ge)

/-- A distance, counted in units over the denominator. -/
theorem abs_sub_size (num m : Nat) {den : Nat} (pos : 0 < den) :
    |(num / den : ℚ) - size m| =
      (num * unitsPerOne).dist (units m * den) / (den * unitsPerOne : ℚ) := by
  have pos : (0 : ℚ) < den := Nat.cast_pos.mpr pos
  have one : (0 : ℚ) < unitsPerOne := Nat.cast_pos.mpr unitsPerOne_pos
  rw [size, div_sub_div _ _ pos.ne' one.ne', abs_div, abs_of_pos (mul_pos pos one), cast_dist,
    Nat.cast_mul, Nat.cast_mul, mul_comm (den : ℚ) (units m : ℚ)]

theorem size_nearest (num m : Nat) {den : Nat} (pos : 0 < den) :
    let chosen := nearestMagnitude num den
    |(num / den : ℚ) - size chosen| ≤ |(num / den : ℚ) - size m| ∧
      (|(num / den : ℚ) - size chosen| = |(num / den : ℚ) - size m| →
        m = chosen ∨ chosen % 2 = 0) := by
  intro chosen
  have scale : (0 : ℚ) < den * unitsPerOne :=
    mul_pos (Nat.cast_pos.mpr pos) (Nat.cast_pos.mpr unitsPerOne_pos)
  obtain ⟨near, tied⟩ := nearestMagnitude_nearest num m pos
  rw [abs_sub_size num chosen pos, abs_sub_size num m pos, div_le_div_iff_of_pos_right scale,
    div_left_inj' scale.ne', Nat.cast_le, Nat.cast_inj]
  exact ⟨near, tied⟩

/-- The finite number that stands for this one: no other is nearer, and from halfway between two of
them it is the one with the even fraction. -/
structure NearestTo (x : Binary64) (v : ℚ) : Prop where
  finite : x.isFinite = true
  near : ∀ y : Binary64, y.isFinite = true → |v - x.value| ≤ |v - y.value|
  even : ∀ y : Binary64, y.isFinite = true → |v - x.value| = |v - y.value| →
    y.magnitude = x.magnitude ∨ x.magnitude % 2 = 0

theorem isFinite_iff (x : Binary64) : x.isFinite = true ↔ x.magnitude < infinity := by
  simp [isFinite]

theorem value_ofRatio (num den : Nat) :
    (ofRatio num den).value = size (ofRatio num den).magnitude := by
  rw [value, not_isNegative_ofRatio]
  rfl

/-- The sign takes a number no nearer to one that has none. -/
theorem abs_sub_size_le {v : ℚ} (nonneg : 0 ≤ v) (y : Binary64) :
    |v - size y.magnitude| ≤ |v - y.value| := by
  unfold value
  split
  · have low := size_nonneg y.magnitude
    rw [sub_neg_eq_add, abs_of_nonneg (add_nonneg nonneg low), abs_le]
    constructor <;> linarith
  · exact le_rfl

theorem ofRatio_nearest {num den : Nat} (pos : 0 < den)
    (finite : (ofRatio num den).isFinite = true) : (ofRatio num den).NearestTo (num / den) := by
  have nonneg : (0 : ℚ) ≤ num / den := div_nonneg (Nat.cast_nonneg _) (Nat.cast_nonneg _)
  have below := (isFinite_iff _).mp finite
  have chosen : (ofRatio num den).magnitude = nearestMagnitude num den := by
    rw [magnitude_ofRatio] at below ⊢
    omega
  have value : (ofRatio num den).value = size (nearestMagnitude num den) := by
    rw [value_ofRatio, chosen]
  refine ⟨finite, fun y _ => ?_, fun y _ tie => ?_⟩
  · rw [value]
    exact (size_nearest num y.magnitude pos).1.trans (abs_sub_size_le nonneg y)
  · obtain ⟨near, tied⟩ := size_nearest num y.magnitude pos
    rw [value] at tie
    rw [chosen]
    exact tied (near.antisymm ((abs_sub_size_le nonneg y).trans tie.ge))

/-- A number that rounds to what is not finite is no farther from the power of two that follows the
finite numbers than from any of these. -/
theorem abs_sub_infinity_le {num den m : Nat} (pos : 0 < den)
    (large : infinity ≤ nearestMagnitude num den) (finite : m < infinity) :
    |(num / den : ℚ) - size infinity| ≤ |(num / den : ℚ) - size m| := by
  obtain ⟨near, -⟩ := size_nearest num m pos
  have below := size_strictMono finite
  have above := size_strictMono.monotone large
  generalize (num / den : ℚ) = v at *
  obtain le | ge := le_total v (size infinity)
  · rw [abs_sub_comm, abs_of_nonneg (sub_nonneg.mpr le)]
    rw [abs_sub_comm, abs_of_nonneg (sub_nonneg.mpr (le.trans above))] at near
    linarith
  · rw [abs_of_nonneg (sub_nonneg.mpr ge), abs_of_nonneg (by linarith)]
    linarith

/-- From halfway between two numbers, those in between are nearer. -/
theorem abs_sub_lt_of_between {v a b c : ℚ} (low : a < b) (high : b < c)
    (tie : |v - a| = |v - c|) : |v - b| < |v - a| := by
  have middle : v - a = c - v := by
    obtain same | opposite := abs_eq_abs.mp tie <;> linarith
  have positive : 0 < v - a := by linarith
  rw [abs_of_pos positive, abs_lt]
  constructor <;> linarith

/-- A number that rounds to a finite one is nearer to that than to the power of two that follows. -/
theorem abs_sub_lt_infinity {num den : Nat} (pos : 0 < den)
    (finite : nearestMagnitude num den < infinity) :
    |(num / den : ℚ) - size (nearestMagnitude num den)| < |(num / den : ℚ) - size infinity| := by
  obtain ⟨near, tied⟩ := size_nearest num infinity pos
  refine near.lt_of_ne fun tie => ?_
  have even := (tied tie).resolve_left finite.ne'
  -- Halfway to infinity the last finite number, which is odd, would be nearer than an even one.
  have last : nearestMagnitude num den < infinity - 1 := by
    have odd : (infinity - 1) % 2 = 1 := by decide
    omega
  have nearer := (size_nearest num (infinity - 1) pos).1
  have low := size_strictMono last
  have high := size_strictMono (by decide : infinity - 1 < infinity)
  exact nearer.not_gt (abs_sub_lt_of_between low high tie)

/-- A number is too large where the power of two that follows the finite numbers is as near as any
of these. -/
theorem ofRatio_infinite_iff {num den : Nat} (pos : 0 < den) :
    (ofRatio num den).isFinite = false ↔
      ∀ y : Binary64, y.isFinite = true → |(num / den : ℚ) - 2 ^ 1024| ≤ |num / den - y.value| := by
  have nonneg : (0 : ℚ) ≤ num / den := div_nonneg (Nat.cast_nonneg _) (Nat.cast_nonneg _)
  have magnitude := magnitude_ofRatio num den
  rw [← size_infinity]
  constructor
  · intro large y finite
    have large : infinity ≤ nearestMagnitude num den := by
      rw [Bool.eq_false_iff, Ne, isFinite_iff] at large
      omega
    exact (abs_sub_infinity_le pos large ((isFinite_iff y).mp finite)).trans
      (abs_sub_size_le nonneg y)
  · intro all
    refine Bool.eq_false_iff.mpr fun finite => ?_
    have near := all _ finite
    have below := (isFinite_iff _).mp finite
    have chosen : (ofRatio num den).magnitude = nearestMagnitude num den := by omega
    rw [value_ofRatio, chosen] at near
    exact (abs_sub_lt_infinity pos (chosen ▸ below)).not_ge near

end Binary64

namespace Decimal

/-- The number that a decimal is. -/
def value (d : Decimal) : ℚ := d.coefficient / 10 ^ d.places

theorem value_eq (d : Decimal) : d.value = (d.coefficient : ℚ) / (Nat.pow 10 d.places : Nat) := by
  have power : Nat.pow 10 d.places = 10 ^ d.places := rfl
  rw [value, power, Nat.cast_pow, Nat.cast_ofNat]

/-- A decimal reads as the nearest finite number, if it reads as one. -/
theorem toBinary64_nearest {d : Decimal} (finite : d.toBinary64.isFinite = true) :
    d.toBinary64.NearestTo d.value := by
  rw [value_eq]
  exact Binary64.ofRatio_nearest (Nat.pow_pos (by decide)) finite

/-- It does unless the power of two that follows the finite numbers is as near as any of these. -/
theorem toBinary64_infinite_iff (d : Decimal) :
    d.toBinary64.isFinite = false ↔
      ∀ y : Binary64, y.isFinite = true → |d.value - 2 ^ 1024| ≤ |d.value - y.value| := by
  rw [value_eq]
  exact Binary64.ofRatio_infinite_iff (Nat.pow_pos (by decide))

end Decimal

/-- What spells a number carries the finite number that is nearest to what its digits say. -/
theorem Denotes.nearest {lexeme : String} {literal : Option Literal}
    (h : Denotes lexeme .number literal) :
    ∃ x whole places, literal = some (.number x) ∧ IsNumeral lexeme.toList whole places ∧
      x.NearestTo (Decimal.ofDigits whole places).value := by
  cases h with
  | fixed spelled => cases spelled
  | @number text whole places numeral finite =>
    exact ⟨_, whole, places, rfl, by rwa [String.toList_ofList], Decimal.toBinary64_nearest finite⟩

/-- The value of a number token is the finite number nearest to its lexeme. A numeral is an error
only where no finite number is nearer than the power of two that follows them. -/
theorem scan_nearest (source : String) :
    (∀ t ∈ (scan source).tokens, t.kind = .number → ∃ x whole places,
      t.literal = some (.number x) ∧ IsNumeral t.lexeme.toList whole places ∧
        x.NearestTo (Decimal.ofDigits whole places).value) ∧
      ∀ e ∈ (scan source).errors, e.fault = .numberTooLarge → ∃ text whole places,
        text <:+: source.toList ∧ IsNumeral text whole places ∧
          ∀ y : Binary64, y.isFinite = true →
            |(Decimal.ofDigits whole places).value - 2 ^ 1024| ≤
              |(Decimal.ofDigits whole places).value - y.value| := by
  obtain ⟨tiles, text, fit, reading⟩ := pieces_tiles source.toList 1
  have tokens : (scan source).tokens = _ := congrArg Scanned.tokens reading
  have errors : (scan source).errors = _ := congrArg Scanned.errors reading
  constructor
  · intro t among number
    rw [tokens] at among
    obtain inside | last := List.mem_append.mp among
    · have spelled := fit.denotes t inside
      rw [number] at spelled
      exact spelled.nearest
    · rw [List.mem_singleton.mp last] at number
      cases number
  · intro e among tooLarge
    rw [errors] at among
    obtain ⟨tile, inside, is⟩ := List.mem_filterMap.mp among
    obtain ⟨before, after, rfl⟩ := List.append_of_mem inside
    cases tile with
    | token | blank | comment => cases is
    | fault e' covered =>
      obtain rfl : e' = e := Option.some.inj is
      obtain ⟨-, fits⟩ := fit.behind.1
      rw [tooLarge] at fits
      obtain ⟨whole, places, numeral, infinite⟩ := fits
      refine ⟨covered, whole, places, ?_, numeral, (Decimal.toBinary64_infinite_iff _).mp infinite⟩
      rw [← text, List.flatMap_append, List.flatMap_cons]
      exact ⟨_, _, List.append_assoc _ _ _⟩

end LoxSyntax
