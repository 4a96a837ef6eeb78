import TypedRoutes.Dispatch.ErrorCode
import TypedRoutes.Json.Basic

/-!
# Envelopes

The body of every answer is an object of three members: the code of the outcome, a message, and the
data of a success or `null`.
-/

namespace TypedRoutes

/-- Whether a number fits 32 bits with a sign. -/
def isCodeNumber (n : Int) : Bool :=
  -Int.pow 2 31 ≤ n && n < Int.pow 2 31

/-- The integer of a JSON value that may be an outcome code. -/
def Json.code? : Json → Option Int
  | .int n => if isCodeNumber n then some n else none
  | _ => none

/-- The body of an answer. -/
structure Envelope where
  code : Int
  message : String
  data : Json

namespace Envelope

/-- The envelope of a success. -/
def success (data : Json) : Envelope :=
  ⟨ErrorCode.ok.code, "Success", data⟩

/-- The envelope of a failure; it has no data. -/
def failure (c : ErrorCode) (message : String) : Envelope :=
  ⟨c.code, message, .null⟩

/-- Whether the envelope is that of a success. -/
def isSuccess (envelope : Envelope) : Bool :=
  envelope.code == ErrorCode.ok.code

/-- The envelope as an object. -/
def toJson (envelope : Envelope) : Json :=
  .ofPairs [("code", .int envelope.code), ("message", .string envelope.message),
    ("data", envelope.data)]

/-- An envelope of the values of its three members. -/
def ofParts? (code message data : Json) : Option Envelope := do
  return ⟨← code.code?, ← message.text?, data⟩

/-- Reads an envelope from an object that has the three members, or from an array of their values.
Other members are ignored. -/
def ofJson? : Json → Option Envelope
  | .object members => do
    ofParts? (← Members.find? "code" members) (← Members.find? "message" members)
      (← Members.find? "data" members)
  | .array [code, message, data] => ofParts? code message data
  | _ => none

end Envelope
end TypedRoutes
