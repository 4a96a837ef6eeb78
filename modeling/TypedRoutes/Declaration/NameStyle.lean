import TypedRoutes.Text.Blank
import TypedRoutes.Text.Casing

/-!
# Styles of wire names

A declaration may ask for the names of its fields or variants to be written in another style.
Fields are taken to be written in snake case and variants in Pascal case.  Only the first letter of
a word is changed by the Unicode tables, every other one by ASCII case.
-/

namespace TypedRoutes

/-- A way of writing names of several words. -/
inductive NameStyle
  | lower
  | upper
  | pascal
  | camel
  | snake
  | screamingSnake
  | kebab
  | screamingKebab
  deriving DecidableEq

namespace NameStyle

/-- The style with a name; a style is named in its own style. -/
def ofName? : String → Option NameStyle
  | "lowercase" => some lower
  | "UPPERCASE" => some upper
  | "PascalCase" => some pascal
  | "camelCase" => some camel
  | "snake_case" => some snake
  | "SCREAMING_SNAKE_CASE" => some screamingSnake
  | "kebab-case" => some kebab
  | "SCREAMING-KEBAB-CASE" => some screamingKebab
  | _ => none

/-- Snake case as kebab case. -/
def hyphenate (cs : List Char) : List Char :=
  cs.map fun c => if c == '_' then '-' else c

/-- The words of a snake-case name, each with its first letter in upper case, without separators. -/
def pascalWords (cs : List Char) : List Char :=
  (Text.pieces '_' cs).flatMap Casing.upperFirst

/-- A Pascal-case name in snake case: every upper-case letter but the first character begins a
word. -/
def snakeWords : List Char → List Char
  | [] => []
  | c :: rest =>
    c.toLower :: rest.flatMap fun d =>
      if Casing.isUpper d then ['_', d.toLower] else [d.toLower]

/-- The characters of a field's name in a style. -/
def fieldChars (style : NameStyle) (cs : List Char) : List Char :=
  match style with
  | lower | snake => cs
  | upper | screamingSnake => cs.map Char.toUpper
  | pascal => pascalWords cs
  | camel => Casing.lowerFirst (pascalWords cs)
  | kebab => hyphenate cs
  | screamingKebab => (hyphenate cs).map Char.toUpper

/-- The characters of a variant's name in a style. -/
def variantChars (style : NameStyle) (cs : List Char) : List Char :=
  match style with
  | lower => cs.map Char.toLower
  | upper => cs.map Char.toUpper
  | pascal => cs
  | camel => Casing.lowerFirst cs
  | snake => snakeWords cs
  | screamingSnake => (snakeWords cs).map Char.toUpper
  | kebab => hyphenate (snakeWords cs)
  | screamingKebab => (hyphenate (snakeWords cs)).map Char.toUpper

end NameStyle

/-- The wire name of a field under a named style; an unknown style changes nothing. -/
def fieldWireName (name style : String) : String :=
  match NameStyle.ofName? style with
  | some style => String.ofList (style.fieldChars name.toList)
  | none => name

/-- The wire name of a variant under a named style; an unknown style changes nothing. -/
def variantWireName (name style : String) : String :=
  match NameStyle.ofName? style with
  | some style => String.ofList (style.variantChars name.toList)
  | none => name

end TypedRoutes
