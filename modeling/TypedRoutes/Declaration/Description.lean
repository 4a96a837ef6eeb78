import TypedRoutes.Declaration.AttributeText
import TypedRoutes.Declaration.NameStyle

/-!
# Descriptions derived from declarations

A declaration of a type as a programmer writes it, with its options, comments and attribute blocks,
is turned into the description that requests are built by.
-/

namespace TypedRoutes

/-- One item of a wire option list: a bare key, a key with a text, or a key with items of its
own. -/
inductive WireOption
  | bare (key : String)
  | text (key value : String)
  | nested (key : String)

/-- The lists of wire options of one declaration, field or variant. -/
abbrev WireOptions := List (List WireOption)

namespace WireOptions

/-- The last text that a list gives to a key.  A nested item of the same key ends the reading. -/
def lastText? (key : String) (found : Option String) : List WireOption → Option String
  | [] => found
  | .text k value :: rest => lastText? key (if k = key then some value else found) rest
  | .nested k :: rest => if k = key then found else lastText? key found rest
  | .bare _ :: rest => lastText? key found rest

/-- The text of a key in the first list that has one. -/
def text? (options : WireOptions) (key : String) : Option String :=
  options.findSome? (lastText? key none)

/-- Whether an item sets a flag. -/
def sets (flag : String) : WireOption → Bool
  | .bare key | .nested key => key == flag
  | .text _ _ => false

/-- Whether any list sets a flag. -/
def hasFlag (options : WireOptions) (flag : String) : Bool :=
  options.any fun items => items.any (sets flag)

end WireOptions

/-- A declared field. -/
structure FieldDeclaration where
  ident : String
  options : WireOptions
  doc : List String
  /-- The attribute block of a marker. -/
  markerBlock : Option (List Token)
  /-- The attribute block of an ordinary field. -/
  attributeBlock : Option (List Token)

/-- A declared variant. -/
structure VariantDeclaration where
  ident : String
  options : WireOptions
  carriesData : Bool

/-- What a declaration declares. -/
inductive DeclarationBody
  | record (fields : List FieldDeclaration)
  | enumeration (variants : List VariantDeclaration)
  /-- A record without names for its fields, or without fields. -/
  | unnamed
  | union

/-- A declared type. -/
structure Declaration where
  name : String
  hasLifetime : Bool
  options : WireOptions
  doc : List String
  body : DeclarationBody

/-- The described form of a field. -/
structure FieldDescription where
  name : String
  wireName : String
  attributeText : Option String
  doc : Option String
  flatten : Bool
  marker : Bool

/-- The described form of a type. -/
inductive Description
  /-- The marker is the identifier of the field that receives the route's metadata. -/
  | record (name : String) (doc marker : Option String) (fields : List FieldDescription)
  | enumeration (name : String) (doc : Option String) (values : List String)

namespace Declaration

/-- The text of comment lines: one leading space of each is left out, and blanks at both ends. -/
def docText? (lines : List String) : Option String :=
  if lines.isEmpty then none
  else
    some (Text.trim ("\n".intercalate (lines.map fun line =>
      match line.toList with
      | ' ' :: rest => String.ofList rest
      | _ => line)))

/-- An identifier without the mark that makes a keyword usable as one. -/
def plainIdent (ident : String) : String :=
  match ident.toList with
  | 'r' :: '#' :: rest => String.ofList rest
  | _ => ident

/-- The wire name that options give, or that a style gives to a name. -/
def wireName (options : WireOptions) (rename : String → String → String) (style : Option String)
    (name : String) : String :=
  match options.text? "rename", style with
  | some wire, _ => wire
  | none, some style => rename name style
  | none, none => name

/-- Whether a field takes no part in reading; a marker always does. -/
def isHidden (field : FieldDeclaration) : Bool :=
  (field.options.hasFlag "skip" || field.options.hasFlag "skip_deserializing") &&
    field.markerBlock.isNone

/-- The description of a field. -/
def describeField (style : Option String) (field : FieldDeclaration) :
    Except DeclarationError FieldDescription := do
  let name := plainIdent field.ident
  let (text, marker) ←
    match field.markerBlock, field.attributeBlock with
    | some _, some _ => throw .twoBlocks
    | some block, none => do pure (some (← Token.attributeText block), true)
    | none, some block => do pure (some (← Token.attributeText block), false)
    | none, none => pure (none, false)
  return {
    name := name
    wireName := wireName field.options fieldWireName style name
    attributeText := text
    doc := docText? field.doc
    flatten := field.options.hasFlag "flatten"
    marker := marker }

/-- The description of a record.  The identifier of the marker is kept as it was declared. -/
def describeRecord (d : Declaration) (fields : List FieldDeclaration) :
    Except DeclarationError Description := do
  let visible := fields.filter fun f => !isHidden f
  let described ← visible.mapM (describeField (d.options.text? "rename_all"))
  match (visible.zip described).filter fun (_, f) => f.marker with
  | [] => return .record d.name (docText? d.doc) none described
  | [(marker, _)] => return .record d.name (docText? d.doc) (some marker.ident) described
  | _ => throw .twoMarkers

/-- The wire names of the variants that are not skipped.  Data is refused even in a skipped one. -/
def describeVariants (style : Option String) (variants : List VariantDeclaration) :
    Except DeclarationError (List String) :=
  if variants.any (·.carriesData) then .error .variantData
  else
    .ok ((variants.filter fun v => !v.options.hasFlag "skip").map fun v =>
      wireName v.options variantWireName style v.ident)

/-- The description of a declared type. -/
def describe (d : Declaration) : Except DeclarationError Description :=
  if d.hasLifetime then .error .lifetimeParameter
  else
    match d.body with
    | .record fields => d.describeRecord fields
    | .enumeration variants =>
      (describeVariants (d.options.text? "rename_all") variants).map fun values =>
        .enumeration d.name (docText? d.doc) values
    | .unnamed => .error .unnamedFields
    | .union => .error .union

end Declaration
end TypedRoutes
