namespace LoxSyntax.Utf8

/-- A character whose bytes are not complete. -/
structure Partial where
  /-- The bits of the code point so far. -/
  value : Nat
  /-- The bytes read so far, and those to come. -/
  seen : Nat
  missing : Nat
  /-- The range that the next byte must be in. -/
  low : Nat
  high : Nat
  deriving DecidableEq, Repr

/-- What a first byte begins. The narrower ranges of second bytes keep out surrogates, code points
past the last one, and forms longer than needed. -/
def leading (byte : Nat) : Option Partial :=
  if 0xC2 ≤ byte && byte ≤ 0xDF then some ⟨byte - 0xC0, 1, 1, 0x80, 0xBF⟩
  else if byte = 0xE0 then some ⟨0, 1, 2, 0xA0, 0xBF⟩
  else if byte = 0xED then some ⟨0xD, 1, 2, 0x80, 0x9F⟩
  else if 0xE1 ≤ byte && byte ≤ 0xEF then some ⟨byte - 0xE0, 1, 2, 0x80, 0xBF⟩
  else if byte = 0xF0 then some ⟨0, 1, 3, 0x90, 0xBF⟩
  else if 0xF1 ≤ byte && byte ≤ 0xF3 then some ⟨byte - 0xF0, 1, 3, 0x80, 0xBF⟩
  else if byte = 0xF4 then some ⟨4, 1, 3, 0x80, 0x8F⟩
  else none

/-- The first place where bytes are no text: its offset, and the number of bytes that belong to no
character, or nothing where the bytes end within one. -/
structure DecodeError where
  offset : Nat
  width : Option Nat
  deriving DecidableEq, Repr

def DecodeError.message : DecodeError → String
  | ⟨offset, some width⟩ =>
    "invalid utf-8 sequence of " ++ toString width ++ " bytes from index " ++ toString offset
  | ⟨offset, none⟩ => "incomplete utf-8 byte sequence from index " ++ toString offset

/-- Reads bytes from an offset on, within the character that was begun before it, if any. -/
def decodeFrom (offset : Nat) : Option Partial → List UInt8 → Except DecodeError (List Char)
  | none, [] => .ok []
  | some p, [] => .error ⟨offset - p.seen, none⟩
  | none, byte :: bytes =>
    if byte.toNat < 0x80 then
      (Char.ofNat byte.toNat :: ·) <$> decodeFrom (offset + 1) none bytes
    else match leading byte.toNat with
      | none => .error ⟨offset, some 1⟩
      | some p => decodeFrom (offset + 1) (some p) bytes
  | some p, byte :: bytes =>
    if byte.toNat < p.low || p.high < byte.toNat then .error ⟨offset - p.seen, some p.seen⟩
    else
      let value := p.value * 64 + (byte.toNat - 0x80)
      if p.missing ≤ 1 then (Char.ofNat value :: ·) <$> decodeFrom (offset + 1) none bytes
      else decodeFrom (offset + 1) (some ⟨value, p.seen + 1, p.missing - 1, 0x80, 0xBF⟩) bytes

def decode (bytes : List UInt8) : Except DecodeError String :=
  String.ofList <$> decodeFrom 0 none bytes

end LoxSyntax.Utf8
