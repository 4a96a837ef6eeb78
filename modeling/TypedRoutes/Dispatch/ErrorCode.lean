/-!
# Outcome classes

Every answer carries the code of its outcome class, and the class fixes the HTTP status.
-/

namespace TypedRoutes

/-- The outcome class of a call. -/
inductive ErrorCode
  | ok
  | internal
  | validationFailed
  | invalidParameter
  | missingParameter
  | notSupported
  | notFound
  | invalidRequest
  deriving DecidableEq

namespace ErrorCode

/-- Every class. -/
def all : List ErrorCode :=
  [ok, internal, validationFailed, invalidParameter, missingParameter, notSupported, notFound,
    invalidRequest]

/-- The code that is written into an envelope. -/
def code : ErrorCode → Int
  | ok => 0
  | internal => 50
  | validationFailed => 51
  | invalidParameter => 53
  | missingParameter => 54
  | notSupported => 59
  | notFound => 65
  | invalidRequest => 66

/-- The HTTP status that is sent with the envelope. -/
def status : ErrorCode → Nat
  | ok => 200
  | internal => 500
  | notSupported => 405
  | notFound => 404
  | validationFailed | invalidParameter | missingParameter | invalidRequest => 400

/-- Whether the caller is to blame. -/
def isClientError (c : ErrorCode) : Bool :=
  400 ≤ c.status && c.status < 500

/-- The class with a code. -/
def ofCode? (n : Int) : Option ErrorCode :=
  all.find? fun c => c.code == n

/-- Reading the code of a class gives the class back. -/
theorem ofCode?_code (c : ErrorCode) : ofCode? c.code = some c := by
  cases c <;> rfl

end ErrorCode
end TypedRoutes
