import Mathlib.Algebra.Group.Nat.Defs
import LoxSyntax.Text.Utf8

namespace LoxSyntax.Utf8

/-- The bytes of a text in UTF-8. -/
def encode (text : String) : List UInt8 := text.toList.flatMap String.utf8EncodeChar

/-- They are those that the text is stored as. -/
theorem encode_eq_toUTF8 (text : String) : encode text = text.toUTF8.data.toList := by
  rw [String.toUTF8_eq_toByteArray, ← String.utf8Encode_toList]
  simp [encode, List.utf8Encode]

theorem encode_ne_nil {text : String} (some : text ≠ "") : encode text ≠ [] := by
  intro none
  rw [encode, List.flatMap_eq_nil_iff] at none
  refine some (String.toList_eq_nil_iff.mp (List.eq_nil_iff_forall_not_mem.mpr fun c inside => ?_))
  exact String.utf8EncodeChar_ne_nil (none c inside)

/-- The bytes that are to come when so many are missing, which hold the lowest bits. -/
def continuation (value : Nat) : Nat → List UInt8
  | 0 => []
  | n + 1 => UInt8.ofNat (value / 64 ^ n % 64 + 0x80) :: continuation value n

theorem toNat_ofNat_of_valid {value : Nat} (valid : value.isValidChar) :
    (Char.ofNat value).toNat = value := by
  rw [Char.ofNat, dif_pos valid]
  rfl

/-- A character among the first 128 is a byte of its own. -/
theorem encodeChar_low {c : Char} (h : c.toNat < 0x80) :
    String.utf8EncodeChar c = [UInt8.ofNat c.toNat] :=
  if_pos (show c.val.toNat ≤ 0x7F from Nat.le_of_lt_succ h)

/-- A character past the first 128 is a byte that holds its highest bits, and a continuation. -/
theorem encodeChar_eq {value : Nat} (valid : value.isValidChar) (h : 0x80 ≤ value) :
    String.utf8EncodeChar (Char.ofNat value) =
      if value ≤ 0x7FF then UInt8.ofNat (value / 64 + 0xC0) :: continuation value 1
      else if value ≤ 0xFFFF then UInt8.ofNat (value / 4096 + 0xE0) :: continuation value 2
      else UInt8.ofNat (value / 262144 + 0xF0) :: continuation value 3 := by
  have point : (Char.ofNat value).val.toNat = value := toNat_ofNat_of_valid valid
  have last : value < 0x110000 := by
    simp only [Nat.isValidChar] at valid
    omega
  simp only [String.utf8EncodeChar, point, if_neg (Nat.not_le.mpr h), continuation, Nat.pow_zero,
    Nat.div_one, Nat.pow_one, Nat.reducePow]
  split
  next short => rw [Nat.mod_eq_of_lt (a := value / 64) (by omega)]
  split
  next long => rw [Nat.mod_eq_of_lt (a := value / 4096) (by omega)]
  next => rw [Nat.mod_eq_of_lt (a := value / 262144) (by omega)]

/-- What was begun can be completed to this code point. -/
structure Partial.Completes (p : Partial) (value : Nat) : Prop where
  bits : value / 64 ^ p.missing = p.value
  low : p.low ≤ value / 64 ^ (p.missing - 1) % 64 + 0x80
  high : value / 64 ^ (p.missing - 1) % 64 + 0x80 ≤ p.high

/-- The first bytes of characters, and what they begin. -/
theorem leading_cases {n : Nat} {p : Partial} (h : leading n = some p) :
    ((0xC2 ≤ n ∧ n ≤ 0xDF) ∧ p = ⟨n - 0xC0, 1, 1, 0x80, 0xBF⟩) ∨
      (n = 0xE0 ∧ p = ⟨0, 1, 2, 0xA0, 0xBF⟩) ∨ (n = 0xED ∧ p = ⟨0xD, 1, 2, 0x80, 0x9F⟩) ∨
      ((0xE1 ≤ n ∧ n ≤ 0xEF ∧ n ≠ 0xED) ∧ p = ⟨n - 0xE0, 1, 2, 0x80, 0xBF⟩) ∨
      (n = 0xF0 ∧ p = ⟨0, 1, 3, 0x90, 0xBF⟩) ∨
      ((0xF1 ≤ n ∧ n ≤ 0xF3) ∧ p = ⟨n - 0xF0, 1, 3, 0x80, 0xBF⟩) ∨
      (n = 0xF4 ∧ p = ⟨4, 1, 3, 0x80, 0x8F⟩) := by
  simp only [leading, Bool.and_eq_true, decide_eq_true_eq] at h
  split at h
  next here => exact .inl ⟨here, (Option.some.inj h).symm⟩
  split at h
  next here => exact .inr (.inl ⟨here, (Option.some.inj h).symm⟩)
  split at h
  next here => exact .inr (.inr (.inl ⟨here, (Option.some.inj h).symm⟩))
  split at h
  next other here =>
    exact .inr (.inr (.inr (.inl ⟨⟨here.1, here.2, other⟩, (Option.some.inj h).symm⟩)))
  split at h
  next here => exact .inr (.inr (.inr (.inr (.inl ⟨here, (Option.some.inj h).symm⟩))))
  split at h
  next here => exact .inr (.inr (.inr (.inr (.inr (.inl ⟨here, (Option.some.inj h).symm⟩)))))
  split at h
  next here => exact .inr (.inr (.inr (.inr (.inr (.inr ⟨here, (Option.some.inj h).symm⟩)))))
  next => cases h

theorem leading_bounds {n : Nat} {p : Partial} (h : leading n = some p) :
    0x80 ≤ n ∧ 0 < p.missing ∧ 0x80 ≤ p.low ∧ p.high ≤ 0xBF := by
  rcases leading_cases h with ⟨_, rfl⟩ | ⟨_, rfl⟩ | ⟨_, rfl⟩ | ⟨_, rfl⟩ | ⟨_, rfl⟩ | ⟨_, rfl⟩ |
    ⟨_, rfl⟩ <;> exact ⟨by omega, by simp⟩

/-- What a first byte begins is completed to the code points whose encoding it begins. -/
theorem encodeChar_of_leading {byte : UInt8} {p : Partial} (h : leading byte.toNat = some p)
    {value : Nat} (completes : p.Completes value) :
    value.isValidChar ∧
      String.utf8EncodeChar (Char.ofNat value) = byte :: continuation value p.missing := by
  have two (range : 0x80 ≤ value ∧ value ≤ 0x7FF) (first : byte.toNat = value / 64 + 0xC0) :
      value.isValidChar ∧
        String.utf8EncodeChar (Char.ofNat value) = byte :: continuation value 1 := by
    have valid : value.isValidChar := .inl (by omega)
    rw [encodeChar_eq valid range.1, if_pos range.2, ← first, UInt8.ofNat_toNat]
    exact ⟨valid, rfl⟩
  have three (range : 0x800 ≤ value ∧ value ≤ 0xFFFF) (valid : value.isValidChar)
      (first : byte.toNat = value / 4096 + 0xE0) :
      value.isValidChar ∧
        String.utf8EncodeChar (Char.ofNat value) = byte :: continuation value 2 := by
    rw [encodeChar_eq valid (by omega), if_neg (by omega), if_pos range.2, ← first,
      UInt8.ofNat_toNat]
    exact ⟨valid, rfl⟩
  have four (range : 0x10000 ≤ value ∧ value < 0x110000)
      (first : byte.toNat = value / 262144 + 0xF0) :
      value.isValidChar ∧
        String.utf8EncodeChar (Char.ofNat value) = byte :: continuation value 3 := by
    have valid : value.isValidChar := .inr (by omega)
    rw [encodeChar_eq valid (by omega), if_neg (by omega), if_neg (by omega), ← first,
      UInt8.ofNat_toNat]
    exact ⟨valid, rfl⟩
  obtain ⟨bits, low, high⟩ := completes
  rcases leading_cases h with ⟨_, rfl⟩ | ⟨_, rfl⟩ | ⟨_, rfl⟩ | ⟨_, rfl⟩ | ⟨_, rfl⟩ | ⟨_, rfl⟩ |
    ⟨_, rfl⟩ <;>
  simp only [Nat.reducePow, Nat.reduceSub, Nat.pow_one, Nat.pow_zero] at bits low high
  · exact two (by omega) (by omega)
  · exact three (by omega) (.inl (by omega)) (by omega)
  · exact three (by omega) (.inl (by omega)) (by omega)
  · exact three (by omega) (by simp only [Nat.isValidChar]; omega) (by omega)
  · exact four (by omega) (by omega)
  · exact four (by omega) (by omega)
  · exact four (by omega) (by omega)

theorem toNat_ofNat_of_lt {n : Nat} (h : n < 256) : (UInt8.ofNat n).toNat = n := by
  rw [UInt8.toNat_ofNat', Nat.mod_eq_of_lt h]

/-- Every character past the first 128 is what some first byte can be completed to. -/
theorem exists_leading (c : Char) (h : 0x80 ≤ c.toNat) :
    ∃ (byte : UInt8) (p : Partial), leading byte.toNat = some p ∧ p.Completes c.toNat := by
  have valid : c.toNat < 0xD800 ∨ 0xDFFF < c.toNat ∧ c.toNat < 0x110000 := c.valid
  generalize c.toNat = value at h valid
  have begun (n : Nat) (p : Partial) (bound : n < 256) (begins : leading n = some p)
      (h : p.Completes value) :
      ∃ (byte : UInt8) (p : Partial), leading byte.toNat = some p ∧ p.Completes value :=
    ⟨UInt8.ofNat n, p, (toNat_ofNat_of_lt bound).symm ▸ begins, h⟩
  rcases Nat.lt_or_ge value 0x800 with small | more
  · exact begun (value / 64 + 0xC0) ⟨value / 64, 1, 1, 0x80, 0xBF⟩ (by omega) (by grind [leading])
      ⟨by simp, by simp, by simp; omega⟩
  rcases Nat.lt_or_ge value 0x10000 with three | four
  · rcases Nat.lt_or_ge value 0x1000 with low | other
    · exact begun 0xE0 ⟨0, 1, 2, 0xA0, 0xBF⟩ (by omega) rfl
        ⟨by simp; omega, by simp; omega, by simp; omega⟩
    by_cases surrogate : value / 0x1000 = 0xD
    · exact begun 0xED ⟨0xD, 1, 2, 0x80, 0x9F⟩ (by omega) rfl
        ⟨by simp; omega, by simp, by simp; omega⟩
    · exact begun (value / 0x1000 + 0xE0) ⟨value / 0x1000, 1, 2, 0x80, 0xBF⟩ (by omega)
        (by grind [leading]) ⟨by simp, by simp, by simp; omega⟩
  · rcases Nat.lt_or_ge value 0x40000 with low | other
    · exact begun 0xF0 ⟨0, 1, 3, 0x90, 0xBF⟩ (by omega) rfl
        ⟨by simp; omega, by simp; omega, by simp; omega⟩
    rcases Nat.lt_or_ge value 0x100000 with middle | high
    · exact begun (value / 0x40000 + 0xF0) ⟨value / 0x40000, 1, 3, 0x80, 0xBF⟩ (by omega)
        (by grind [leading]) ⟨by simp, by simp, by simp; omega⟩
    · exact begun 0xF4 ⟨4, 1, 3, 0x80, 0x8F⟩ (by omega) rfl
        ⟨by simp; omega, by simp, by simp; omega⟩

namespace Partial

/-- What remains to be completed when one more byte was read. -/
def next (p : Partial) (byte : Nat) : Partial :=
  ⟨p.value * 64 + (byte - 0x80), p.seen + 1, p.missing - 1, 0x80, 0xBF⟩

/-- The first byte of the continuation is in the range, and holds the next bits. -/
theorem Completes.next {p : Partial} {value : Nat} (h : p.Completes value)
    (missing : 0 < p.missing) :
    (p.next (value / 64 ^ (p.missing - 1) % 64 + 0x80)).Completes value := by
  have bits : value / 64 ^ (p.missing - 1) =
      p.value * 64 + (value / 64 ^ (p.missing - 1) % 64 + 0x80 - 0x80) := by
    have split : 64 ^ p.missing = 64 ^ (p.missing - 1) * 64 := by
      rw [← Nat.pow_succ, Nat.succ_eq_add_one, Nat.sub_add_cancel missing]
    rw [← h.bits, split, ← Nat.div_div_eq_div_mul]
    omega
  have small := Nat.mod_lt (value / 64 ^ (p.missing - 1 - 1)) (show 0 < 64 by decide)
  exact ⟨bits, Nat.le_add_left .., by change _ ≤ 0xBF; omega⟩

/-- Conversely, a byte of the range holds the next bits of what it can be completed to. -/
theorem completes_of_next {p : Partial} {value byte : Nat} (missing : 0 < p.missing)
    (low : 0x80 ≤ p.low) (high : p.high ≤ 0xBF) (inside : p.low ≤ byte ∧ byte ≤ p.high)
    (h : value / 64 ^ (p.missing - 1) = (p.next byte).value) :
    p.Completes value ∧ value / 64 ^ (p.missing - 1) % 64 + 0x80 = byte := by
  have split : 64 ^ p.missing = 64 ^ (p.missing - 1) * 64 := by
    rw [← Nat.pow_succ, Nat.succ_eq_add_one, Nat.sub_add_cancel missing]
  have same : value / 64 ^ (p.missing - 1) = p.value * 64 + (byte - 0x80) := h
  have last : value / 64 ^ (p.missing - 1) % 64 + 0x80 = byte := by omega
  refine ⟨⟨?_, last ▸ inside.1, last ▸ inside.2⟩, last⟩
  rw [split, ← Nat.div_div_eq_div_mul]
  omega

end Partial

theorem decodeFrom_inside {p : Partial} {offset : Nat} {byte : UInt8} {bytes : List UInt8}
    (h : p.low ≤ byte.toNat ∧ byte.toNat ≤ p.high) :
    decodeFrom offset (some p) (byte :: bytes) =
      if p.missing ≤ 1 then
        (Char.ofNat (p.next byte.toNat).value :: ·) <$> decodeFrom (offset + 1) none bytes
      else decodeFrom (offset + 1) (some (p.next byte.toNat)) bytes := by
  have inside : ¬ (decide (byte.toNat < p.low) || decide (p.high < byte.toNat)) = true := by
    simp [h.1, h.2]
  rw [decodeFrom, if_neg inside]
  rfl

theorem decodeFrom_outside {p : Partial} {offset : Nat} {byte : UInt8} {bytes : List UInt8}
    (h : ¬ (p.low ≤ byte.toNat ∧ byte.toNat ≤ p.high)) :
    decodeFrom offset (some p) (byte :: bytes) = .error ⟨offset - p.seen, some p.seen⟩ := by
  have outside : (decide (byte.toNat < p.low) || decide (p.high < byte.toNat)) = true := by
    simp only [Bool.or_eq_true, decide_eq_true_eq]
    omega
  rw [decodeFrom, if_pos outside]

theorem continuation_cons (value : Nat) {n : Nat} (h : 0 < n) :
    continuation value n =
      UInt8.ofNat (value / 64 ^ (n - 1) % 64 + 0x80) :: continuation value (n - 1) := by
  obtain ⟨n, rfl⟩ := Nat.exists_eq_succ_of_ne_zero (Nat.ne_of_gt h)
  rfl

theorem length_continuation (value n : Nat) : (continuation value n).length = n := by
  induction n with
  | zero => rfl
  | succ n ih => rw [continuation, List.length_cons, ih]

/-- A continuation is read as the rest of the character. -/
theorem decodeFrom_continuation {p : Partial} {value offset : Nat} {bytes : List UInt8}
    (h : p.Completes value) (missing : 0 < p.missing) :
    decodeFrom offset (some p) (continuation value p.missing ++ bytes) =
      (Char.ofNat value :: ·) <$> decodeFrom (offset + p.missing) none bytes := by
  generalize count : p.missing = n at missing
  induction n generalizing p offset with
  | zero => cases missing
  | succ n ih =>
    have positive : 0 < p.missing := count ▸ missing
    have read : (UInt8.ofNat (value / 64 ^ (p.missing - 1) % 64 + 0x80)).toNat =
        value / 64 ^ (p.missing - 1) % 64 + 0x80 := toNat_ofNat_of_lt (by omega)
    have first := continuation_cons value positive
    generalize UInt8.ofNat (value / 64 ^ (p.missing - 1) % 64 + 0x80) = byte at read first
    have inside : p.low ≤ byte.toNat ∧ byte.toNat ≤ p.high := by
      rw [read]
      exact ⟨h.low, h.high⟩
    have next : (p.next byte.toNat).Completes value := by
      rw [read]
      exact h.next positive
    rw [← count, first, List.cons_append, decodeFrom_inside inside]
    rcases Nat.eq_zero_or_pos n with rfl | more
    · have last : (p.next byte.toNat).value = value := by
        have bits := next.bits
        rw [show (p.next byte.toNat).missing = 0 from congrArg (· - 1) count, Nat.pow_zero,
          Nat.div_one] at bits
        exact bits.symm
      rw [if_pos (Nat.le_of_eq count), last, count]
      rfl
    · have left : (p.next byte.toNat).missing = n := congrArg (· - 1) count
      rw [if_neg (by omega), show p.missing - 1 = (p.next byte.toNat).missing from rfl, left,
        ih next left more, count, Nat.add_assoc, Nat.add_comm 1]

/-- A character at the start of the bytes is read as such. -/
theorem decodeFrom_encodeChar {offset : Nat} {bytes : List UInt8} (c : Char) :
    decodeFrom offset none (String.utf8EncodeChar c ++ bytes) =
      (c :: ·) <$> decodeFrom (offset + (String.utf8EncodeChar c).length) none bytes := by
  rcases Nat.lt_or_ge c.toNat 0x80 with ascii | h
  · have read : (UInt8.ofNat c.toNat).toNat = c.toNat := toNat_ofNat_of_lt (by omega)
    rw [encodeChar_low ascii]
    generalize UInt8.ofNat c.toNat = byte at read
    rw [List.singleton_append, decodeFrom, if_pos (read ▸ ascii), read, Char.ofNat_toNat]
    rfl
  · obtain ⟨byte, p, begins, completes⟩ := exists_leading c h
    obtain ⟨-, encoded⟩ := encodeChar_of_leading begins completes
    obtain ⟨high, missing, -⟩ := leading_bounds begins
    rw [Char.ofNat_toNat] at encoded
    have length : (String.utf8EncodeChar c).length = p.missing + 1 := by
      rw [encoded, List.length_cons, length_continuation]
    rw [length, encoded, List.cons_append, decodeFrom, if_neg (Nat.not_lt.mpr high), begins]
    dsimp only
    rw [decodeFrom_continuation completes missing, Char.ofNat_toNat, Nat.add_assoc,
      Nat.add_comm 1]

theorem decodeFrom_flatMap {offset : Nat} (cs : List Char) :
    decodeFrom offset none (cs.flatMap String.utf8EncodeChar) = .ok cs := by
  induction cs generalizing offset with
  | nil => rfl
  | cons c cs ih =>
    rw [List.flatMap_cons, decodeFrom_encodeChar, ih]
    rfl

/-- Bytes read so far begin the encoding of all that can be completed from here. -/
structure Begun (seen : List UInt8) (p : Partial) : Prop where
  missing : 0 < p.missing
  low : 0x80 ≤ p.low
  high : p.high ≤ 0xBF
  begins : ∀ value, p.Completes value →
    String.utf8EncodeChar (Char.ofNat value) = seen ++ continuation value p.missing

theorem Begun.of_leading {p : Partial} {byte : UInt8} (h : leading byte.toNat = some p) :
    Begun [byte] p := by
  obtain ⟨-, missing, low, high⟩ := leading_bounds h
  exact ⟨missing, low, high, fun value completes => (encodeChar_of_leading h completes).2⟩

/-- One more byte of the range belongs to the encoding. -/
theorem Begun.next {p : Partial} {value : Nat} {byte : UInt8} {seen : List UInt8} (h : Begun seen p)
    (inside : p.low ≤ byte.toNat ∧ byte.toNat ≤ p.high)
    (bits : value / 64 ^ (p.missing - 1) = (p.next byte.toNat).value) :
    String.utf8EncodeChar (Char.ofNat value) =
      seen ++ [byte] ++ continuation value (p.missing - 1) := by
  obtain ⟨completes, last⟩ := Partial.completes_of_next h.missing h.low h.high inside bits
  rw [h.begins value completes, continuation_cons value h.missing, last, UInt8.ofNat_toNat]
  simp only [List.append_assoc, List.singleton_append]

theorem of_map_cons_eq_ok {c : Char} {cs : List Char} {read : Except DecodeError (List Char)}
    (h : (c :: ·) <$> read = .ok cs) : ∃ later, cs = c :: later ∧ read = .ok later := by
  cases read with
  | error e => cases h
  | ok later => exact ⟨later, (Except.ok.inj h).symm, rfl⟩

theorem encodeChar_ascii {byte : UInt8} (h : byte.toNat < 0x80) :
    String.utf8EncodeChar (Char.ofNat byte.toNat) = [byte] := by
  have point : (Char.ofNat byte.toNat).toNat = byte.toNat := toNat_ofNat_of_valid (.inl (by omega))
  rw [encodeChar_low (by omega), point, UInt8.ofNat_toNat]

/-- What was read is the encoding of the characters it was read as. -/
theorem flatMap_of_decodeFrom {offset : Nat} {bytes : List UInt8} {cs : List Char} :
    (decodeFrom offset none bytes = .ok cs → cs.flatMap String.utf8EncodeChar = bytes) ∧
      ∀ seen p, Begun seen p → decodeFrom offset (some p) bytes = .ok cs →
        cs.flatMap String.utf8EncodeChar = seen ++ bytes := by
  induction bytes generalizing offset cs with
  | nil =>
    constructor
    · intro h
      cases h
      rfl
    · intro seen p begun h
      cases h
  | cons byte bytes ih =>
    constructor
    · intro h
      rw [decodeFrom] at h
      split at h
      · next ascii =>
        obtain ⟨later, rfl, read⟩ := of_map_cons_eq_ok h
        rw [List.flatMap_cons, encodeChar_ascii ascii, ih.1 read, List.singleton_append]
      · next high =>
        cases begins : leading byte.toNat with
        | none =>
          rw [begins] at h
          cases h
        | some p =>
          rw [begins] at h
          exact ih.2 [byte] p (.of_leading begins) h
    · intro seen p begun h
      by_cases inside : p.low ≤ byte.toNat ∧ byte.toNat ≤ p.high
      · rw [decodeFrom_inside inside] at h
        split at h
        · next last =>
          obtain ⟨later, rfl, read⟩ := of_map_cons_eq_ok h
          have none : p.missing - 1 = 0 := by omega
          have bits : (p.next byte.toNat).value / 64 ^ (p.missing - 1) =
              (p.next byte.toNat).value := by
            rw [none, Nat.pow_zero, Nat.div_one]
          have whole := begun.next inside bits
          rw [none] at whole
          rw [List.flatMap_cons, ih.1 read, whole]
          simp [continuation]
        · next more =>
          have later : Begun (seen ++ [byte]) (p.next byte.toNat) :=
            ⟨show 0 < p.missing - 1 by omega, Nat.le_refl _, Nat.le_refl _, fun value completes =>
              begun.next inside completes.bits⟩
          rw [ih.2 _ _ later h, List.append_assoc, List.singleton_append]
      · rw [decodeFrom_outside inside] at h
        cases h

/-- Bytes are read as the text of which they are the form, and bytes that are no form of any text
are not read. -/
theorem decode_eq_ok_iff {bytes : List UInt8} {text : String} :
    decode bytes = .ok text ↔ encode text = bytes := by
  constructor
  · intro h
    unfold decode at h
    cases read : decodeFrom 0 none bytes with
    | error e =>
      rw [read] at h
      cases h
    | ok cs =>
      rw [read] at h
      obtain rfl := Except.ok.inj h
      rw [encode, String.toList_ofList]
      exact flatMap_of_decodeFrom.1 read
  · rintro rfl
    rw [decode, encode, decodeFrom_flatMap]
    exact congrArg Except.ok String.ofList_toList

/-- Bytes that are the form of some text. -/
def IsText (bytes : List UInt8) : Prop := ∃ text, encode text = bytes

theorem decode_eq_error_iff {bytes : List UInt8} :
    (∃ e, decode bytes = .error e) ↔ ¬ IsText bytes := by
  cases read : decode bytes with
  | error e =>
    refine iff_of_true ⟨e, rfl⟩ ?_
    rintro ⟨text, encoded⟩
    cases read.symm.trans (decode_eq_ok_iff.mpr encoded)
  | ok text => exact iff_of_false nofun (not_not_intro ⟨text, decode_eq_ok_iff.mp read⟩)

theorem encode_append (a b : String) : encode (a ++ b) = encode a ++ encode b := by
  rw [encode, String.toList_append, List.flatMap_append, encode, encode]

theorem le_of_mem_continuation {value n : Nat} {byte : UInt8} (h : byte ∈ continuation value n) :
    0x80 ≤ byte.toNat := by
  induction n with
  | zero => cases h
  | succ n ih =>
    rcases List.mem_cons.mp h with rfl | later
    · have read : (UInt8.ofNat (value / 64 ^ n % 64 + 0x80)).toNat = value / 64 ^ n % 64 + 0x80 :=
        toNat_ofNat_of_lt (by omega)
      rw [read]
      exact Nat.le_add_left ..
    · exact ih later

/-- The bytes of the first 128 characters stand for nothing else. -/
theorem toNat_eq_of_mem_encodeChar {c : Char} {byte : UInt8} (ascii : byte.toNat < 0x80)
    (h : byte ∈ String.utf8EncodeChar c) : c.toNat = byte.toNat := by
  rcases Nat.lt_or_ge c.toNat 0x80 with low | high
  · rw [encodeChar_low low, List.mem_singleton] at h
    rw [h, toNat_ofNat_of_lt (by omega)]
  · obtain ⟨first, p, begins, completes⟩ := exists_leading c high
    obtain ⟨-, encoded⟩ := encodeChar_of_leading begins completes
    rw [Char.ofNat_toNat] at encoded
    rw [encoded] at h
    rcases List.mem_cons.mp h with rfl | later
    · exact absurd ascii (Nat.not_lt.mpr (leading_bounds begins).1)
    · exact absurd ascii (Nat.not_lt.mpr (le_of_mem_continuation later))

theorem not_mem_encode {c : Char} (ascii : c.toNat < 0x80) {text : String} (h : c ∉ text.toList) :
    UInt8.ofNat c.toNat ∉ encode text := by
  intro inside
  obtain ⟨d, is, byte⟩ := List.mem_flatMap.mp inside
  have read := toNat_ofNat_of_lt (Nat.lt_trans ascii (show 0x80 < 256 by decide))
  have same := toNat_eq_of_mem_encodeChar (read.symm ▸ ascii) byte
  rw [read] at same
  exact h (Char.toNat_inj.mp same ▸ is)

theorem getLast?_encode_ne {c : Char} (ascii : c.toNat < 0x80) {text : String}
    (h : text.toList.getLast? ≠ some c) : (encode text).getLast? ≠ some (UInt8.ofNat c.toNat) := by
  intro last
  have read := toNat_ofNat_of_lt (Nat.lt_trans ascii (show 0x80 < 256 by decide))
  rcases List.eq_nil_or_concat text.toList with none | ⟨cs, d, whole⟩
  · rw [encode, none] at last
    cases last
  · rw [List.concat_eq_append] at whole
    have solid : String.utf8EncodeChar d ≠ [] := String.utf8EncodeChar_ne_nil
    rw [encode, whole, List.flatMap_append, List.flatMap_singleton,
      List.getLast?_append, List.getLast?_eq_some_getLast solid, Option.some_or] at last
    have inside := Option.some.inj last ▸ List.getLast_mem solid
    have same := toNat_eq_of_mem_encodeChar (read.symm ▸ ascii) inside
    rw [read] at same
    rw [whole, Char.toNat_inj.mp same] at h
    exact h List.getLast?_concat

end LoxSyntax.Utf8
