/-!
# Bytes as UTF-8

Reading bytes as UTF-8 text, one byte at a time.  The strict reader refuses malformed input; the
lossy one writes a single replacement character for every maximal malformed part.
-/

namespace TypedRoutes
namespace Text

/-- The bytes of a text. -/
def bytes (s : String) : List UInt8 :=
  s.toUTF8.toList

/-- The number of bytes in the UTF-8 form of a list of characters. -/
def byteCount (cs : List Char) : Nat :=
  cs.foldl (fun n c => n + c.utf8Size) 0

namespace Utf8

/-- A character that has begun: how many bytes are still owed, the range of the next one, and the
bits read so far. -/
structure Pending where
  owed : Nat
  low : Nat
  high : Nat
  bits : Nat

/-- What a byte means where no character has begun. -/
inductive Start
  | complete (c : Char)
  | begins (p : Pending)
  | malformed

/-- The first byte of a character.  The ranges leave out overlong forms, surrogates and code points
above U+10FFFF. -/
def start (b : UInt8) : Start :=
  let n := b.toNat
  if n < 0x80 then .complete (Char.ofNat n)
  else if 0xC2 ≤ n ∧ n ≤ 0xDF then .begins ⟨1, 0x80, 0xBF, n - 0xC0⟩
  else if n = 0xE0 then .begins ⟨2, 0xA0, 0xBF, 0⟩
  else if n = 0xED then .begins ⟨2, 0x80, 0x9F, 0xD⟩
  else if 0xE1 ≤ n ∧ n ≤ 0xEF then .begins ⟨2, 0x80, 0xBF, n - 0xE0⟩
  else if n = 0xF0 then .begins ⟨3, 0x90, 0xBF, 0⟩
  else if 0xF1 ≤ n ∧ n ≤ 0xF3 then .begins ⟨3, 0x80, 0xBF, n - 0xF0⟩
  else if n = 0xF4 then .begins ⟨3, 0x80, 0x8F, 4⟩
  else .malformed

/-- A part of the input: a character, or a maximal malformed run of bytes. -/
inductive Part
  | char (c : Char)
  | malformed

/-- The character of a part that is not malformed. -/
def Part.char? : Part → Option Char
  | .char c => some c
  | .malformed => none

/-- The parts of a byte sequence.  A byte that cannot continue a begun character ends a malformed
part and is read again as a first byte. -/
def parts : Option Pending → List UInt8 → List Part
  | none, [] => []
  | some _, [] => [.malformed]
  | none, b :: rest =>
    match start b with
    | .complete c => .char c :: parts none rest
    | .begins p => parts (some p) rest
    | .malformed => .malformed :: parts none rest
  | some p, b :: rest =>
    let n := b.toNat
    if p.low ≤ n ∧ n ≤ p.high then
      let bits := p.bits * 64 + (n - 0x80)
      if p.owed ≤ 1 then
        .char (Char.ofNat bits) :: parts none rest
      else
        parts (some ⟨p.owed - 1, 0x80, 0xBF, bits⟩) rest
    else
      match start b with
      | .complete c => .malformed :: .char c :: parts none rest
      | .begins p => .malformed :: parts (some p) rest
      | .malformed => .malformed :: .malformed :: parts none rest

end Utf8

/-- The text of a byte sequence, if it is UTF-8. -/
def ofBytes? (bs : List UInt8) : Option String :=
  ((Utf8.parts none bs).mapM Utf8.Part.char?).map String.ofList

/-- The text of a byte sequence, with U+FFFD for each maximal malformed part. -/
def ofBytesLossy (bs : List UInt8) : String :=
  String.ofList ((Utf8.parts none bs).map fun part => part.char?.getD '\uFFFD')

end Text
end TypedRoutes
