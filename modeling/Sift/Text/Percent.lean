import Sift.Text.Split

/-!
# Percent encoding

In an encoded text `%` and two hexadecimal digits stand for a byte, and the bytes are UTF-8. What is not well encoded
is kept as it is, and what is not well-formed UTF-8 becomes replacement characters: one for every longest piece that
could have begun a character.
-/

namespace Sift.Text

/-- The value of a hexadecimal digit. -/
def hexValue? (c : Char) : Option Nat :=
  if '0' ≤ c && c ≤ '9' then some (c.toNat - 48)
  else if 'a' ≤ c && c ≤ 'f' then some (c.toNat - 87)
  else if 'A' ≤ c && c ≤ 'F' then some (c.toNat - 55)
  else none

/-- The bytes of an encoded text of ASCII characters. -/
def percentBytes : List Char → List Nat
  | [] => []
  | '%' :: a :: b :: rest =>
    match hexValue? a, hexValue? b with
    | some x, some y => (16 * x + y) :: percentBytes rest
    | _, _ => 37 :: percentBytes (a :: b :: rest)
  | c :: rest => c.toNat :: percentBytes rest

/-- The character that stands for what cannot be decoded. -/
def replacement : Char := Char.ofNat 0xFFFD

/-- A character of which some bytes have been read. -/
structure Unfinished where
  /-- The bits read so far. -/
  bits : Nat
  /-- The number of bytes that are missing. -/
  missing : Nat
  /-- The range of the next byte. -/
  low : Nat := 0x80
  high : Nat := 0xBF

/-- Reads the first byte of a character. -/
def firstByte (b : Nat) : List Char × Option Unfinished :=
  if b < 0x80 then ([Char.ofNat b], none)
  else if 0xC2 ≤ b && b ≤ 0xDF then ([], some { bits := b - 0xC0, missing := 1 })
  else if b = 0xE0 then ([], some { bits := 0, missing := 2, low := 0xA0 })
  else if b = 0xED then ([], some { bits := 0xD, missing := 2, high := 0x9F })
  else if 0xE1 ≤ b && b ≤ 0xEF then ([], some { bits := b - 0xE0, missing := 2 })
  else if b = 0xF0 then ([], some { bits := 0, missing := 3, low := 0x90 })
  else if 0xF1 ≤ b && b ≤ 0xF3 then ([], some { bits := b - 0xF0, missing := 3 })
  else if b = 0xF4 then ([], some { bits := 4, missing := 3, high := 0x8F })
  else ([replacement], none)

/-- Reads a byte after some others. -/
def nextByte (u : Option Unfinished) (b : Nat) : List Char × Option Unfinished :=
  match u with
  | none => firstByte b
  | some u =>
    if u.low ≤ b && b ≤ u.high then
      let bits := 64 * u.bits + (b - 0x80)
      if u.missing = 1 then ([Char.ofNat bits], none) else ([], some { bits, missing := u.missing - 1 })
    else
      let (out, u) := firstByte b
      (replacement :: out, u)

/-- The characters of some bytes, after those of a character that is not finished. -/
def utf8Chars (u : Option Unfinished) : List Nat → List Char
  | [] => if u.isSome then [replacement] else []
  | b :: bs =>
    let (out, u) := nextByte u b
    out ++ utf8Chars u bs

/-- The characters that a run of encoded ASCII characters stands for. -/
def decodedRun (run : List Char) : List Char :=
  utf8Chars none (percentBytes run)

/-- Decodes a text whose last ASCII characters, in order, are `run`. Other characters stand for themselves. -/
def percentDecodedAfter (run : List Char) : List Char → List Char
  | [] => decodedRun run
  | c :: cs =>
    if c.toNat < 128 then percentDecodedAfter (run ++ [c]) cs
    else decodedRun run ++ c :: percentDecodedAfter [] cs

/-- Decodes a text of a form, in which a plus sign stands for a space. -/
def formDecoded (cs : List Char) : String :=
  String.ofList (percentDecodedAfter [] (cs.map fun c => if c = '+' then ' ' else c))

/-- The pairs of names and values of an encoded form. A part without an equals sign has an empty value. -/
def formPairs (s : String) : List (String × String) :=
  (splitAt '&' s.toList).filterMap fun part =>
    if part.isEmpty then none
    else
      let (name, value) := (cutFirst '=' part).getD (part, [])
      some (formDecoded name, formDecoded value)

end Sift.Text
