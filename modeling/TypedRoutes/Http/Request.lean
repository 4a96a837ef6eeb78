import TypedRoutes.Dispatch.Dispatcher

/-!
# Requests on the wire

A request on the wire becomes a call: its method is checked, then the length of its body; header
names are put in lower case, and their values are read as text.  The first `x-request-id` header
gives the call its identifier.
-/

namespace TypedRoutes

/-- A request as it is received. -/
structure WireRequest where
  method : String
  target : String
  headers : List (String × List UInt8)
  body : List UInt8

/-- Why a request is refused before it is dispatched. -/
inductive WireFault
  | unknownMethod (method : String)
  | bodyTooLong (limit : Nat)
  deriving DecidableEq

namespace WireFault

/-- The message of a refusal. -/
def message : WireFault → String
  | unknownMethod method => "unknown HTTP method `" ++ method ++ "`"
  | bodyTooLong limit => "request body exceeds " ++ toString limit ++ " bytes"

/-- The HTTP status of a refusal. -/
def status : WireFault → Nat
  | unknownMethod _ => 405
  | bodyTooLong _ => 413

/-- The outcome class of a refusal. -/
def code : WireFault → ErrorCode
  | unknownMethod _ => .notSupported
  | bodyTooLong _ => .invalidRequest

end WireFault

/-- The characters of an HTTP token. -/
def isTokenChar (c : Char) : Bool :=
  c.isAlphanum || "!#$%&'*+-.^_|~".toList.contains c || c.toNat == 96

/-- Whether a text is an HTTP token, as every method is. -/
def isToken (s : String) : Bool :=
  !s.isEmpty && s.toList.all isTokenChar

namespace WireRequest

/-- The headers of a request as texts. -/
def textHeaders (request : WireRequest) : Headers :=
  request.headers.map fun (name, value) => (Text.lowerAscii name, Text.ofBytesLossy value)

/-- The call that a request stands for, if its body has at most `limit` bytes.  `fresh` identifies
the call if no header does. -/
def toCall (request : WireRequest) (limit : Nat) (fresh : RequestId) :
    Except WireFault Call :=
  if !isToken request.method then .error (.unknownMethod request.method)
  else if limit < request.body.length then .error (.bodyTooLong limit)
  else
    let headers := request.textHeaders
    let id := RequestId.ofHeader (headers.lookup "x-request-id") fresh
    .ok (Call.ofTarget request.method request.target headers request.body id)

/-- A request as far as it is read: one byte more than the limit is asked for, and the number of
bytes asked for is a 64-bit word. -/
def received (request : WireRequest) (limit : Nat) : WireRequest :=
  { request with body := request.body.take ((limit + 1) % Nat.pow 2 64) }

end WireRequest
end TypedRoutes
