import TypedRoutes.Markup.Character
import TypedRoutes.Text.Numeral
import TypedRoutes.Text.Utf8

/-!
# Tags and directives

A tag says of what kind a value is.  It is written in full between angle brackets, or as a handle
and a suffix, where directives before a document say what the handles stand for.
-/

namespace TypedRoutes
namespace Markup

/-- A handle and the suffix after it; a tag that is written in full has the empty handle. -/
structure TagText where
  handle : String
  suffix : String
  deriving DecidableEq

/-- What handles stand for. -/
abbrev TagTable := List (String × String)

/-- The full name of a tag of the core schema. -/
def coreTag (name : String) : String :=
  "tag:yaml.org,2002:" ++ name

/-- The handles that need no directive. -/
def TagTable.default : TagTable :=
  [("!", "!"), ("!!", coreTag "")]

/-- The full name of a tag; its handle must be known. -/
def TagText.resolve? (table : TagTable) (tag : TagText) : Option String :=
  if tag.handle.isEmpty then some tag.suffix
  else (table.lookup tag.handle).map (· ++ tag.suffix)

/-- The characters of a tag, apart from escapes; in angle brackets there are three more. -/
def isTagCharacter (inAngles : Bool) (c : Char) : Bool :=
  isWordCharacter c || ";/?:@&=+$.!~*'()".toList.contains c || (inAngles && ",[]".toList.contains c)

/-- The number of bytes that follow the first byte of a character. -/
def bytesAfter? (n : Nat) : Option Nat :=
  if n < 0x80 then some 0
  else if n < 0xC0 then none
  else if n < 0xE0 then some 1
  else if n < 0xF0 then some 2
  else if n < 0xF8 then some 3
  else none

/-- The bytes at the start of a list that belong to a tag, and what follows them.  A percent sign
escapes one byte; the bytes of one character, of which so many are still owed, are escaped one after
the other. -/
def tagBytes? (inAngles : Bool) : Nat → List Char → Option (List UInt8 × List Char)
  | owed, '%' :: a :: b :: rest => do
    let byte := (← Numeral.hexDigit? a) * 16 + (← Numeral.hexDigit? b)
    let owed ← if owed = 0 then bytesAfter? byte
      else if 0x80 ≤ byte ∧ byte < 0xC0 then some (owed - 1) else none
    (tagBytes? inAngles owed rest).map fun (bytes, rest) => (byte.toUInt8 :: bytes, rest)
  | owed, cs =>
    if owed ≠ 0 then none
    else
      match cs with
      | [] => some ([], [])
      | c :: rest =>
        if isTagCharacter inAngles c then
          (tagBytes? inAngles 0 rest).map fun (bytes, rest) => (c.toNat.toUInt8 :: bytes, rest)
        else if c == '%' then none
        else some ([], c :: rest)

/-- The part of a tag at the start of a list, and what follows it. -/
def tagPart? (inAngles : Bool) (cs : List Char) : Option (String × List Char) :=
  (tagBytes? inAngles 0 cs).map fun (bytes, rest) => (Text.ofBytesLossy bytes, rest)

/-- A part of a tag that is not empty. -/
def someTagPart? (inAngles : Bool) (cs : List Char) : Option (String × List Char) :=
  (tagPart? inAngles cs).filter fun (part, _) => !part.isEmpty

/-- A tag without its exclamation mark, and what follows it. -/
def tagText? (cs : List Char) : Option (TagText × List Char) :=
  match cs with
  | '<' :: full => do
    match ← someTagPart? true full with
    | (suffix, '>' :: rest) => some (⟨"", suffix⟩, rest)
    | _ => none
  | _ =>
    let word := String.ofList (cs.takeWhile isWordCharacter)
    match cs.dropWhile isWordCharacter with
    | '!' :: rest =>
      (someTagPart? false rest).map fun (suffix, rest) => (⟨"!" ++ word ++ "!", suffix⟩, rest)
    | rest =>
      (tagPart? false rest).map fun (part, rest) =>
        let suffix := word ++ part
        (if suffix.isEmpty then ⟨"", "!"⟩ else ⟨"!", suffix⟩, rest)

/-- A tag without its exclamation mark, which a blank, a line break or in braces a comma follows. -/
def tag? (inBraces : Bool) (cs : List Char) : Option (TagText × List Char) :=
  (tagText? cs).filter fun (_, rest) => endsWord rest || (inBraces && rest.head? == some ',')

/-- What a directive says. -/
inductive Directive
  | version
  | tag (handle start : String)
  deriving DecidableEq

/-- A number of at most nine digits, and what follows it. -/
def versionNumber? (cs : List Char) : Option (Nat × List Char) :=
  let digits := cs.takeWhile Char.isDigit
  if digits.length ≤ 9 then
    (Numeral.digits? Numeral.decimalDigit? 10 digits).map fun n => (n, cs.dropWhile Char.isDigit)
  else none

/-- The version that a directive names, which must be 1.1 or 1.2, and what follows it. -/
def version? (cs : List Char) : Option (List Char) := do
  match ← versionNumber? (cs.dropWhile isBlank) with
  | (major, '.' :: rest) =>
    let (minor, rest) ← versionNumber? rest
    if major = 1 ∧ (minor = 1 ∨ minor = 2) then some rest else none
  | _ => none

/-- The handle at the start of a list, and what follows it. -/
def handle? : List Char → Option (String × List Char)
  | '!' :: rest =>
    let word := String.ofList (rest.takeWhile isWordCharacter)
    match rest.dropWhile isWordCharacter with
    | '!' :: rest => some ("!" ++ word ++ "!", rest)
    | rest => if word.isEmpty then some ("!", rest) else none
  | _ => none

/-- The handle that a directive defines, what it stands for, and what follows. -/
def tagDirective? (cs : List Char) : Option (Directive × List Char) := do
  let (handle, rest) ← handle? (cs.dropWhile isBlank)
  if rest.head?.any isBlank then
    let (start, rest) ← someTagPart? true (rest.dropWhile isBlank)
    if endsWord rest then some (.tag handle start, rest) else none
  else none

/-- The directive on a line, without its percent sign, and what follows the line. -/
def directive? (cs : List Char) : Option (Directive × List Char) := do
  let name := cs.takeWhile isWordCharacter
  let rest := cs.dropWhile isWordCharacter
  let (directive, rest) ←
    if !endsWord rest then none
    else if name = "YAML".toList then (version? rest).map (.version, ·)
    else if name = "TAG".toList then tagDirective? rest
    else none
  return (directive, ← restOfLine? rest)

end Markup
end TypedRoutes
