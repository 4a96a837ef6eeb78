import TypedRoutes.Markup.Token

/-!
# Documents

A document is a mapping of scalars, in a block or in braces, or nothing at all.  A scalar may be
named by an anchor, and an alias stands for the scalar that its anchor names.
-/

namespace TypedRoutes
namespace Markup

/-- A scalar: its text, whether it has neither quotes nor a block, and the full name of its tag. -/
structure Scalar where
  text : String
  isPlain : Bool
  tag : Option String
  deriving DecidableEq

/-- The scalar where nothing is written. -/
def Scalar.empty : Scalar := ⟨"", true, none⟩

/-- What stands before a value: an anchor, a tag, both or nothing. -/
structure Properties where
  anchor : Option String
  tag : Option String

/-- A key or a value. -/
inductive Node
  | scalar (anchor : Option String) (s : Scalar)
  | reference (name : String)

/-- The node where nothing is written. -/
def Node.empty : Node := .scalar none .empty

/-- The properties at the start of tokens, and what follows them. -/
def properties? (table : TagTable) : List Token → Option (Properties × List Token)
  | .anchor a :: .tag t :: rest | .tag t :: .anchor a :: rest =>
    (t.resolve? table).map fun tag => (⟨some a, some tag⟩, rest)
  | .anchor a :: rest => some (⟨some a, none⟩, rest)
  | .tag t :: rest => (t.resolve? table).map fun tag => (⟨none, some tag⟩, rest)
  | rest => some (⟨none, none⟩, rest)

/-- The node at the start of tokens, and what follows it.  Properties with nothing after them belong
to an empty scalar; the tag of a single exclamation mark is none. -/
def node? (table : TagTable) : List Token → Option (Node × List Token)
  | .reference name :: rest => some (.reference name, rest)
  | tokens => do
    let (p, rest) ← properties? table tokens
    match rest with
    | .scalar text isPlain :: rest =>
      some (.scalar p.anchor ⟨text, isPlain, p.tag.filter (· != "!")⟩, rest)
    | rest =>
      if p.anchor.isSome || p.tag.isSome then
        some (.scalar p.anchor { Scalar.empty with tag := p.tag }, rest)
      else none

/-- The node at the start of tokens, which is empty if one of some tokens follows. -/
def nodeBefore? (table : TagTable) (ends tokens : List Token) : Option (Node × List Token) :=
  if tokens.head?.any ends.contains then some (.empty, tokens) else node? table tokens

/-- The node after a value token, empty if there is no such token; and what follows it. -/
def valueBefore? (table : TagTable) (ends tokens : List Token) : Option (Node × List Token) :=
  match tokens with
  | .value :: rest => nodeBefore? table ends rest
  | _ => some (.empty, tokens)

/-- The pairs of a mapping, and what follows it. -/
abbrev Entries := List (Node × Node) × List Token

/-- At most `n` pairs of a block mapping, up to its end. -/
def blockEntries? (table : TagTable) : Nat → List Token → Option Entries
  | 0, _ => none
  | n + 1, tokens =>
    match tokens with
    | .blockEnd :: rest => some ([], rest)
    | .key :: rest => do
      let (key, rest) ← nodeBefore? table [.key, .value, .blockEnd] rest
      let (value, rest) ← valueBefore? table [.key, .value, .blockEnd] rest
      let (entries, rest) ← blockEntries? table n rest
      return ((key, value) :: entries, rest)
    | _ => none

/-- A pair of a mapping in braces; a node alone is a key. -/
def braceEntry? (table : TagTable) (tokens : List Token) : Option ((Node × Node) × List Token) :=
  match tokens with
  | .key :: rest => do
    let (key, rest) ← nodeBefore? table [.value, .comma, .braceClose] rest
    let (value, rest) ← valueBefore? table [.comma, .braceClose] rest
    return ((key, value), rest)
  | _ => (node? table tokens).map fun (key, rest) => ((key, .empty), rest)

/-- At most `n` pairs of a mapping in braces, up to its end. -/
def braceEntries? (table : TagTable) : Nat → List Token → Option Entries
  | 0, _ => none
  | n + 1, tokens =>
    match tokens with
    | .braceClose :: rest => some ([], rest)
    | _ => do
      let (entry, rest) ← braceEntry? table tokens
      match rest with
      | .braceClose :: rest => some ([entry], rest)
      | .comma :: rest =>
        (braceEntries? table n rest).map fun (entries, rest) => (entry :: entries, rest)
      | _ => none

/-- A document: the anchor of its mapping, and the pairs. -/
structure Document where
  anchor : Option String
  entries : List (Node × Node)

/-- The document without pairs. -/
def Document.empty : Document := ⟨none, []⟩

/-- The document that tokens begin with, and what follows it. -/
def content? (table : TagTable) (tokens : List Token) : Option (Document × List Token) := do
  let (p, rest) ← properties? table tokens
  match rest with
  | .blockStart :: rest =>
    let (entries, rest) ← blockEntries? table rest.length rest
    return (⟨p.anchor, entries⟩, rest)
  | .braceOpen :: rest =>
    let (entries, rest) ← braceEntries? table rest.length rest
    return (⟨p.anchor, entries⟩, rest)
  | .scalar _ _ :: _ | .reference _ :: _ => none
  | _ => if p.anchor.isSome || p.tag.isSome then some (.empty, rest) else none

/-- The handles that directives define, and whether the version was given.  Neither is said
twice. -/
def directives? : TagTable → Bool → List Token → Option (TagTable × List Token)
  | table, hasVersion, .directive d :: rest =>
    match d with
    | .version => if hasVersion then none else directives? table true rest
    | .tag handle start =>
      if (table.lookup handle).isSome then none
      else directives? ((handle, start) :: table) hasVersion rest
  | table, _, rest => some (table ++ TagTable.default, rest)

/-- The only document of tokens. -/
def Document.ofTokens? (tokens : List Token) : Option Document := do
  let (table, rest) ← directives? [] false tokens
  let (document, rest) ← match rest with
    | .documentStart :: rest =>
      if rest.head?.all (· == .documentEnd) then some (Document.empty, rest)
      else content? table rest
    | _ =>
      if rest.length ≠ tokens.length then none
      else if rest.isEmpty then some (Document.empty, [])
      else content? table rest
  if rest.all (· == .documentEnd) then some document else none

/-- What the anchors read so far name.  An anchor is known by a number, that of the names read
before it; a number may be given twice, and then the later anchor has it. -/
structure Anchors where
  numbers : List (String × Nat)
  /-- Nothing is kept of a mapping. -/
  targets : List (Nat × Option Scalar)

/-- With one more anchor. -/
def Anchors.define (name : String) (target : Option Scalar) (anchors : Anchors) : Anchors :=
  let number := (anchors.numbers.map Prod.fst).eraseDups.length
  ⟨(name, number) :: anchors.numbers, (number, target) :: anchors.targets⟩

/-- The nodes of a document, each with a scalar or the number of an anchor before it. -/
def linked? : Anchors → List Node → Option (Anchors × List (Scalar ⊕ Nat))
  | anchors, [] => some (anchors, [])
  | anchors, .scalar anchor s :: rest =>
    let anchors := match anchor with
      | some name => anchors.define name (some s)
      | none => anchors
    (linked? anchors rest).map fun (anchors, nodes) => (anchors, .inl s :: nodes)
  | anchors, .reference name :: rest => do
    let number ← anchors.numbers.lookup name
    (linked? anchors rest).map fun (anchors, nodes) => (anchors, .inr number :: nodes)

/-- A list of keys and values in turn as pairs. -/
def paired : List Scalar → List (Scalar × Scalar)
  | key :: value :: rest => (key, value) :: paired rest
  | _ => []

/-- The pairs of a document, with what its aliases stand for. -/
def Document.pairs? (document : Document) : Option (List (Scalar × Scalar)) := do
  let anchors := match document.anchor with
    | some name => Anchors.define name none ⟨[], []⟩
    | none => ⟨[], []⟩
  let (anchors, nodes) ← linked? anchors (document.entries.flatMap fun (k, v) => [k, v])
  let scalars ← nodes.mapM fun
    | .inl s => some s
    | .inr number => (anchors.targets.lookup number).join
  return paired scalars

/-- The pairs that markup consists of. -/
def pairs? (text : String) : Option (List (Scalar × Scalar)) := do
  (← Document.ofTokens? (← tokens? text)).pairs?

end Markup
end TypedRoutes
