import TypedRoutes.Text.Blank
import TypedRoutes.Text.Utf8

/-!
# Request identifiers

A request identifier is a number of 128 bits: the upper 48 are a time in milliseconds, the others
are random.  It is written as 26 digits of base 32, with the letters I, L, O and U left out.  Digits
of either case are read, and what goes beyond 128 bits is lost.
-/

namespace TypedRoutes

/-- A request identifier. -/
structure RequestId where
  value : BitVec 128
  deriving DecidableEq

namespace RequestId

/-- The digits, in order of value. -/
def digits : List Char :=
  "0123456789ABCDEFGHJKMNPQRSTVWXYZ".toList

/-- The number of digits of an identifier. -/
def width : Nat := 26

/-- The value of a digit of either case. -/
def digit? (c : Char) : Option Nat :=
  digits.idxOf? c.toUpper

/-- Why a text is not an identifier. -/
inductive Fault
  | length
  | character
  deriving DecidableEq

/-- The message of a fault. -/
def Fault.message : Fault → String
  | length => "invalid length"
  | character => "invalid character"

/-- The identifier that a text stands for.  The length is counted in bytes, and checked first. -/
def ofText (s : String) : Except Fault RequestId :=
  if s.utf8ByteSize = width then
    match s.toList.mapM digit? with
    | some ds => .ok ⟨BitVec.ofNat 128 (ds.foldl (fun n d => n * 32 + d) 0)⟩
    | none => .error .character
  else
    .error .length

/-- The text of an identifier. -/
def text (id : RequestId) : String :=
  String.ofList ((List.range width).map fun i =>
    digits.getD (id.value.toNat / Nat.pow 32 (width - 1 - i) % 32) '0')

/-- The time of creation, in milliseconds since the start of 1970. -/
def milliseconds (id : RequestId) : Nat :=
  id.value.toNat / Nat.pow 2 80

/-- The identifier that a header names, blanks around it ignored; a fresh one if there is no header
or it cannot be read. -/
def ofHeader (header : Option String) (fresh : RequestId) : RequestId :=
  match header.map fun h => ofText (Text.trim h) with
  | some (.ok id) => id
  | _ => fresh

end RequestId
end TypedRoutes
