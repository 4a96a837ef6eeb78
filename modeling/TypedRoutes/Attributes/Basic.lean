import TypedRoutes.Text.Blank
import TypedRoutes.Text.Utf8

/-!
# Attribute blocks

An attribute block is a list of pairs written `key:"value"`, separated by ASCII blanks.  It is
read by a machine that takes one character at a time: `step` says where the machine stands after a
character and which pair the character completes.  A block is accepted when no step fails and the
end is not inside a pair; `completed` keeps the pairs that were closed before the first failure.
-/

namespace TypedRoutes

/-- A list of key and value pairs.  A key may repeat; the first pair answers a look-up. -/
structure Attributes where
  pairs : List (String × String)
  deriving DecidableEq, Inhabited

namespace Attributes

/-- Why a block is refused. -/
inductive Fault
  | quoteInKey
  | emptyKey
  | missingColon
  | missingQuote
  | danglingEscape
  | unterminatedValue
  | missingBlank
  deriving DecidableEq

/-- The wording of a fault. -/
def Fault.reason : Fault → String
  | .quoteInKey => "unexpected quote in key"
  | .emptyKey => "empty key"
  | .missingColon => "expected ':' after key"
  | .missingQuote => "expected '\"' to open value"
  | .danglingEscape => "dangling escape"
  | .unterminatedValue => "unterminated value"
  | .missingBlank => "expected whitespace between pairs"

/-- A refused block, with the byte position where reading stopped. -/
structure Refusal where
  input : String
  position : Nat
  fault : Fault
  deriving DecidableEq

/-- The message of a refusal. -/
def Refusal.message (refusal : Refusal) : String :=
  "malformed annotation `" ++ refusal.input ++ "` at byte " ++ toString refusal.position ++ ": " ++
    refusal.fault.reason

/-! ## The reading machine -/

/-- Where the machine stands.  Keys and values that are being read are kept in reverse. -/
inductive Place
  /-- Before a pair, where blanks are allowed. -/
  | gap
  /-- Inside a key. -/
  | key (k : List Char)
  /-- After the colon of a key. -/
  | colon (k : List Char)
  /-- Inside a value. -/
  | value (k v : List Char)
  /-- After a backslash inside a value. -/
  | escape (k v : List Char)
  /-- After the closing quote of a value. -/
  | closed
  deriving DecidableEq

/-- The character that an escaped character stands for. -/
def unescape (c : Char) : Char :=
  if c = 'n' then '\n' else if c = 't' then '\t' else c

/-- What one character does: the next place and the pair that it completes, or a fault. -/
def step : Place → Char → Except Fault (Place × Option (String × String))
  | .gap, c =>
    if Text.isAsciiBlank c then .ok (.gap, none)
    else if c = '"' then .error .quoteInKey
    else if c = ':' then .error .emptyKey
    else .ok (.key [c], none)
  | .key k, c =>
    if c = ':' then .ok (.colon k, none)
    else if Text.isAsciiBlank c then .error .missingColon
    else if c = '"' then .error .quoteInKey
    else .ok (.key (c :: k), none)
  | .colon k, c => if c = '"' then .ok (.value k [], none) else .error .missingQuote
  | .value k v, c =>
    if c = '"' then .ok (.closed, some (String.ofList k.reverse, String.ofList v.reverse))
    else if c = '\\' then .ok (.escape k v, none)
    else .ok (.value k (c :: v), none)
  | .escape k v, c => .ok (.value k (unescape c :: v), none)
  | .closed, c => if Text.isAsciiBlank c then .ok (.gap, none) else .error .missingBlank

/-- The fault of a block that ends at a place, if it may not end there. -/
def Place.fault? : Place → Option Fault
  | .gap | .closed => none
  | .key _ => some .missingColon
  | .colon _ => some .missingQuote
  | .value _ _ => some .unterminatedValue
  | .escape _ _ => some .danglingEscape

/-- The pairs that are completed from a place on, and the first fault with the characters that were
not read. -/
def run : Place → List Char → List (String × String) × Option (Fault × List Char)
  | place, [] => ([], place.fault?.map fun fault => (fault, []))
  | place, c :: rest =>
    match step place c with
    | .error fault => ([], some (fault, c :: rest))
    | .ok (next, pair) =>
      let (pairs, fault) := run next rest
      (pair.toList ++ pairs, fault)

/-- Reads a block and refuses anything outside the grammar. -/
def read (input : String) : Except Refusal Attributes :=
  let cs := input.toList
  match run .gap cs with
  | (pairs, none) => .ok ⟨pairs⟩
  | (_, some (fault, rest)) => .error ⟨input, Text.byteCount cs - Text.byteCount rest, fault⟩

/-- The pairs that are completed before the first fault; all of them when there is none. -/
def completed (input : String) : Attributes :=
  ⟨(run .gap input.toList).1⟩

/-! ## Look-up -/

/-- The value of the first pair with a key. -/
def get? (attributes : Attributes) (key : String) : Option String :=
  attributes.pairs.lookup key

/-- A block that is read whole is read alike by both readers. -/
theorem completed_eq_of_read
    {input : String} {attributes : Attributes} (h : read input = .ok attributes) :
    completed input = attributes := by
  simp only [read] at h
  split at h
  · next hrun => simpa [completed, hrun] using h
  · simp at h

end Attributes
end TypedRoutes
