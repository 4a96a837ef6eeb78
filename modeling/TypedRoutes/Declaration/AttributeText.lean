import TypedRoutes.Text.Blank

/-!
# The text of an attribute block

A declaration holds an attribute block as a list of tokens.  Its text is what `Attributes.read`
reads: keys and punctuation as they are, values quoted and each followed by a space, commas left
out.
-/

namespace TypedRoutes

/-- A token of an attribute block. -/
inductive Token
  | ident (name : String)
  | punct (c : Char)
  | text (value : String)
  /-- A literal that is no text. -/
  | literal
  /-- Tokens in brackets. -/
  | group

/-- Why a declaration is refused. -/
inductive DeclarationError
  | lifetimeParameter
  | unnamedFields
  | union
  | twoBlocks
  | twoMarkers
  | variantData
  | valueNotText
  | groupInBlock
  deriving DecidableEq

/-- The message of a refusal. -/
def DeclarationError.message : DeclarationError → String
  | lifetimeParameter => "Describe cannot be derived for types with lifetime parameters"
  | unnamedFields => "Describe requires a struct with named fields"
  | union => "Describe cannot be derived for unions"
  | twoBlocks => "a field cannot carry both #[meta(...)] and #[tag(...)]"
  | twoMarkers => "only one #[meta(...)] marker field is allowed per request type"
  | variantData => "Describe supports only enums whose variants carry no data"
  | valueNotText => "annotation values must be string literals"
  | groupInBlock => "unexpected group in annotation; expected key:\"value\" pairs"

namespace Token

/-- A character of a value as it stands between quotes. -/
def escape : Char → List Char
  | '"' => ['\\', '"']
  | '\\' => ['\\', '\\']
  | '\n' => ['\\', 'n']
  | '\t' => ['\\', 't']
  | c => [c]

/-- The characters of a token. -/
def chars : Token → Except DeclarationError (List Char)
  | ident name => .ok name.toList
  | punct c => .ok (if c == ',' then [] else [c])
  | text value => .ok ('"' :: value.toList.flatMap escape ++ ['"', ' '])
  | literal => .error .valueNotText
  | group => .error .groupInBlock

/-- The text of an attribute block, without blanks at the end. -/
def attributeText (tokens : List Token) : Except DeclarationError String := do
  let parts ← tokens.mapM chars
  return String.ofList (parts.flatten.reverse.dropWhile Text.isBlank).reverse

end Token
end TypedRoutes
