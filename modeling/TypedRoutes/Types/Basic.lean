/-!
# Type descriptions

A type expression is a builtin type, a reference to a definition by name, or a container of other
types.  Definitions are records and enumerations, collected in a `TypeTable`; they may refer to each
other in cycles.  `TypeTable.shape` resolves the outermost layer of a type, and every walk over
types goes by shapes.
-/

namespace TypedRoutes

/-- The widths of integers; a word has 64 bits. -/
inductive Width
  | w8
  | w16
  | w32
  | w64
  | word
  deriving DecidableEq

namespace Width

/-- The number of bits. -/
def bits : Width → Nat
  | w8 => 8
  | w16 => 16
  | w32 => 32
  | w64 => 64
  | word => 64

/-- How a width is written after the sign letter of an integer type. -/
def suffix : Width → String
  | w8 => "8"
  | w16 => "16"
  | w32 => "32"
  | w64 => "64"
  | word => "size"

end Width

/-- Builtin types with a single value. -/
inductive Scalar
  | bool
  | char
  | string
  | int (width : Width)
  | uint (width : Width)
  | float32
  | float64
  deriving DecidableEq

/-- Texts that denote a moment or a day. -/
inductive TimeKind
  /-- A moment with an offset from UTC. -/
  | dateTime
  /-- A date and a time of day without an offset. -/
  | naiveDateTime
  /-- A calendar date. -/
  | date
  deriving DecidableEq

/-- Containers of elements of one type. -/
inductive Sequence
  | list
  | deque
  | orderedSet
  | hashSet
  /-- A sequence of a fixed length, where the length is known. -/
  | array (length : Option Nat)
  deriving DecidableEq

/-- Containers of values under keys. -/
inductive Table
  | ordered
  | hashed
  | general
  deriving DecidableEq

/-- A type expression. -/
inductive Ty
  | scalar (kind : Scalar)
  | time (kind : TimeKind)
  /-- Any JSON value. -/
  | value
  /-- The type without information; it is described as any JSON value. -/
  | unit
  /-- The type of the field that carries a request's route. -/
  | marker
  | named (name : String)
  | option (inner : Ty)
  | sequence (container : Sequence) (element : Ty)
  | table (container : Table) (keys values : Ty)
  deriving DecidableEq, Inhabited

/-- A declared field of a record. -/
structure Field where
  name : String
  /-- The name in JSON. -/
  wireName : String
  type : Ty
  /-- The attribute block of the field, as written. -/
  attributeText : String
  doc : Option String
  /-- Whether the members of the field's record stand in place of the field. -/
  flatten : Bool
  /-- Whether the field's attributes declare a route. -/
  marker : Bool
  deriving DecidableEq

/-- A record type. -/
structure Record where
  name : String
  fields : List Field
  doc : Option String
  deriving DecidableEq

/-- A type whose values are a few texts. -/
structure Enumeration where
  name : String
  values : List String
  doc : Option String
  deriving DecidableEq

/-- What a name stands for. -/
inductive Definition
  | record (r : Record)
  | enumeration (e : Enumeration)
  deriving DecidableEq

/-- Definitions by name; of several with one name the first counts. -/
structure TypeTable where
  definitions : List (String × Definition)
  deriving DecidableEq

/-- The outermost layer of a type. -/
inductive Shape
  | bool
  | int (signed : Bool) (bits : Nat)
  | float (bits : Nat)
  /-- A text; where there are choices it has to be one of them. -/
  | text (choices : List String)
  | char
  | time (kind : TimeKind)
  | any
  | marker
  | record (id : String) (r : Record)
  | sequence (element : Ty)
  | table (keys values : Ty)
  | option (inner : Ty)

namespace Scalar

/-- The name of a builtin type. -/
def name : Scalar → String
  | bool => "bool"
  | char => "char"
  | string => "String"
  | int width => "i" ++ width.suffix
  | uint width => "u" ++ width.suffix
  | float32 => "f32"
  | float64 => "f64"

/-- The shape of a builtin type. -/
def shape : Scalar → Shape
  | bool => .bool
  | char => .char
  | string => .text []
  | int width => .int true width.bits
  | uint width => .int false width.bits
  | float32 => .float 32
  | float64 => .float 64

end Scalar

/-- The name of a time type. -/
def TimeKind.name : TimeKind → String
  | dateTime => "DateTime"
  | naiveDateTime => "NaiveDateTime"
  | date => "NaiveDate"

/-- The name of a sequence type. -/
def Sequence.name : Sequence → String
  | list => "Vec"
  | deque => "VecDeque"
  | orderedSet => "BTreeSet"
  | hashSet => "HashSet"
  | array _ => "Array"

/-- The name of a table type. -/
def Table.name : Table → String
  | ordered => "BTreeMap"
  | hashed => "HashMap"
  | general => "Map"

/-- The type below all optional layers. -/
def Ty.target : Ty → Ty
  | .option inner => inner.target
  | t => t

/-- Whether a value of the type may be left out. -/
def Ty.isOption : Ty → Bool
  | .option _ => true
  | _ => false

/-- The name of a kind of shape, as messages and descriptions give it. -/
def Shape.kindName : Shape → String
  | .bool => "boolean"
  | .int _ _ => "integer"
  | .float _ => "number"
  | .text [] => "string"
  | .text _ => "enum"
  | .char => "character"
  | .time .date => "date"
  | .time _ => "date-time"
  | .any => "any"
  | .marker => "meta"
  | .record _ _ => "object"
  | .sequence _ => "array"
  | .table _ _ => "map"
  | .option _ => "optional"

/-- The first field that declares a route. -/
def Record.markerField? (r : Record) : Option Field :=
  r.fields.find? (·.marker)

namespace TypeTable

variable (types : TypeTable)

/-- The definition of a name. -/
def find? (name : String) : Option Definition :=
  types.definitions.lookup name

/-- The outermost layer of a type.  A name without a definition admits any value. -/
def shape : Ty → Shape
  | .scalar kind => kind.shape
  | .time kind => .time kind
  | .value | .unit => .any
  | .marker => .marker
  | .named name =>
    match types.find? name with
    | some (.record r) => .record name r
    | some (.enumeration e) => .text e.values
    | none => .any
  | .option inner => .option inner
  | .sequence _ element => .sequence element
  | .table _ keys values => .table keys values

/-- The name of the kind of a type. -/
def kindName (t : Ty) : String :=
  (types.shape t).kindName

/-- The record below the optional layers of a type, with the name it is defined under. -/
def record? (t : Ty) : Option (String × Record) :=
  match types.shape t.target with
  | .record id r => some (id, r)
  | _ => none

/-- The name of a type. -/
def typeName : Ty → String
  | .scalar kind => kind.name
  | .time kind => kind.name
  | .value => "Value"
  | .unit => "()"
  | .marker => "Meta"
  | .named name =>
    match types.find? name with
    | some (.record r) => r.name
    | some (.enumeration e) => e.name
    | none => name
  | .option _ => "Option"
  | .sequence container _ => container.name
  | .table container _ _ => container.name

/-- The doc comment of a type; only definitions have one. -/
def doc? : Ty → Option String
  | .named name =>
    match types.find? name with
    | some (.record r) => r.doc
    | some (.enumeration e) => e.doc
    | none => none
  | _ => none

/-- The texts that a type admits, for an enumeration. -/
def choices (t : Ty) : List String :=
  match types.shape t with
  | .text values => values
  | _ => []

end TypeTable

@[simp] theorem Ty.target_target (t : Ty) : t.target.target = t.target := by
  induction t with
  | option inner ih => simpa [Ty.target] using ih
  | _ => rfl

theorem Ty.isOption_target (t : Ty) : t.target.isOption = false := by
  induction t with
  | option inner ih => simpa [Ty.target] using ih
  | _ => rfl

end TypedRoutes
