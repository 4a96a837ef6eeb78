import TypedRoutes.Json.Indented
import TypedRoutes.OpenApi.Encoding
import TypedRoutes.Users.Api

/-!
# Command line

`openapi` prints the document of the users API, or writes it to a file.
-/

namespace TypedRoutes

/-- What the command line asks for. -/
inductive CommandLine
  | printDocument
  | writeDocument (path : String)
  | help
  deriving DecidableEq

/-- Reads the arguments of the command line. -/
def CommandLine.ofArguments : List String → CommandLine
  | ["openapi"] => printDocument
  | ["openapi", "-o", path] | ["openapi", "--output", path] => writeDocument path
  | _ => help

/-- The document of the users API under its usual path, as text. -/
def usersDocument : Except RegistrationError String :=
  (UsersApi.router "/api").map fun router =>
    (ApiDocument.generate UsersApi.types router
      { DocumentInfo.default with
        title := "metaroute demo"
        description := some "In-memory users API" }).toJson.indented

/-- The usage of the command line. -/
def usage : String :=
  "usage: openapi [-o FILE | --output FILE]"

end TypedRoutes

open TypedRoutes in
/-- Runs the command line. -/
def main (arguments : List String) : IO UInt32 := do
  match CommandLine.ofArguments arguments, usersDocument with
  | .help, _ =>
    IO.eprintln usage
    return 2
  | _, .error e =>
    IO.eprintln e.message
    return 1
  | .printDocument, .ok text =>
    IO.println text
    return 0
  | .writeDocument path, .ok text =>
    IO.FS.writeFile path text
    return 0
