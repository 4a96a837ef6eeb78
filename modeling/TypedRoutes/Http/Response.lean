import TypedRoutes.Dispatch.Response

/-!
# Answers on the wire

An answer is written as a status line, header lines and a JSON body.  Header lines are kept in a
table of limited size for as long as the program runs; a line that is not in a full table is not
written.
-/

namespace TypedRoutes

/-- The header lines that were written so far. -/
structure HeaderLines where
  lines : List String

namespace HeaderLines

/-- The table before the first answer. -/
def empty : HeaderLines := ⟨[]⟩

/-- The number of lines that the table has room for. -/
def capacity : Nat := 1024

/-- A header as a line, if the table has it or has room for it; and the table afterwards. -/
def line? (table : HeaderLines) (name value : String) : Option String × HeaderLines :=
  let line := name ++ ": " ++ value
  if table.lines.contains line then (some line, table)
  else if capacity ≤ table.lines.length then (none, table)
  else (some line, ⟨table.lines ++ [line]⟩)

end HeaderLines

/-- An answer as it is sent. -/
structure WireResponse where
  status : Nat
  headerLines : List String
  body : Json

namespace WireResponse

/-- The phrase that goes with a status. -/
def reason : Nat → String
  | 200 => "OK"
  | 201 => "Created"
  | 204 => "No Content"
  | 400 => "Bad Request"
  | 401 => "Unauthorized"
  | 403 => "Forbidden"
  | 404 => "Not Found"
  | 405 => "Method Not Allowed"
  | 413 => "Payload Too Large"
  | 500 => "Internal Server Error"
  | 503 => "Service Unavailable"
  | _ => "Unknown"

/-- The status line without the version; the transport has a phrase of its own for 200. -/
def statusText (status : Nat) : String :=
  if status = 200 then "200 Ok" else toString status ++ " " ++ reason status

/-- The line that announces a JSON body. -/
def jsonLine : String :=
  "Content-Type: application/json"

/-- An answer with nothing but a JSON body. -/
def json (status : Nat) (body : Json) : WireResponse :=
  ⟨status, [jsonLine], body⟩

/-- Whether a header is left out because its value differs from answer to answer. -/
def isPerCall (name : String) : Bool :=
  Headers.sameName name "x-request-id" || Headers.sameName name "content-length"

/-- Whether a header announces the kind of the body. -/
def isContentType (name : String) : Bool :=
  Headers.sameName name "content-type"

/-- The lines of headers, and the table afterwards. -/
def writeHeaders : HeaderLines → Headers → List String × HeaderLines
  | table, [] => ([], table)
  | table, (name, value) :: rest =>
    if isPerCall name then writeHeaders table rest
    else if isContentType name && value == "application/json" then
      let (lines, table) := writeHeaders table rest
      (jsonLine :: lines, table)
    else
      let (line, table) := table.line? name value
      let (lines, table) := writeHeaders table rest
      (line.toList ++ lines, table)

/-- An answer as it is sent, and the table afterwards.  A body is announced as JSON if no header
announces it. -/
def ofResponse (response : Response) (table : HeaderLines) : WireResponse × HeaderLines :=
  let (lines, table) := writeHeaders table response.headers
  let announced := response.headers.any fun (name, _) => isContentType name
  (⟨response.status, if announced then lines else lines ++ [jsonLine], response.body⟩, table)

end WireResponse
end TypedRoutes
