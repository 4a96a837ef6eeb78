import TypedRoutes.Markup.Block
import TypedRoutes.Markup.Plain
import TypedRoutes.Markup.Quoted
import TypedRoutes.Markup.Tag

/-!
# Tokens of markup

The tokens of a document that is one mapping of scalars.  The layout of lines and columns is turned
into tokens too: where a block mapping begins and ends, and where a key begins.  That something was
a key shows only at the colon after it, so the place where a key may have begun is remembered; a key
stands on one line and is at most 1024 characters long.  Sequences and nested mappings have no
tokens.
-/

namespace TypedRoutes
namespace Markup

/-- A token. -/
inductive Token
  | directive (d : Directive)
  | documentStart
  | documentEnd
  /-- A block mapping begins. -/
  | blockStart
  | blockEnd
  | braceOpen
  | braceClose
  | comma
  /-- A key follows. -/
  | key
  /-- A value follows. -/
  | value
  | anchor (name : String)
  | reference (name : String)
  | tag (t : TagText)
  | scalar (text : String) (isPlain : Bool)
  deriving DecidableEq

/-- A place where a key may have begun. -/
structure KeyStart where
  /-- The number of tokens before it. -/
  position : Nat
  line : Nat
  column : Nat
  /-- Whether nothing but a key can stand there. -/
  required : Bool

/-- How far markup has been read. -/
structure Lexer where
  cursor : Cursor
  tokens : List Token
  /-- The column of the block mapping that is open. -/
  indent : Option Nat
  inBraces : Bool
  /-- Whether a key may begin at the cursor. -/
  keyAllowed : Bool
  keyStart : Option KeyStart

namespace Lexer

/-- At the start of markup, behind a byte order mark. -/
def start (cs : List Char) : Lexer :=
  let cursor : Cursor := match cs with
    | '\uFEFF' :: rest => ⟨rest, 0, 1⟩
    | _ => ⟨cs, 0, 0⟩
  ⟨cursor, [], none, false, true, none⟩

/-- With one more token. -/
def add (token : Token) (s : Lexer) : Lexer :=
  { s with tokens := s.tokens ++ [token] }

/-- With one more token before some of the others. -/
def insert (position : Nat) (token : Token) (s : Lexer) : Lexer :=
  { s with tokens := s.tokens.take position ++ token :: s.tokens.drop position }

/-- Further on in the markup. -/
def moveTo (rest : List Char) (s : Lexer) : Lexer :=
  { s with cursor := s.cursor.moveTo rest }

/-- Forgets where a key may have begun, unless there must be a key. -/
def dropKey? (s : Lexer) : Option Lexer :=
  if s.keyStart.any KeyStart.required then none else some { s with keyStart := none }

/-- Forgets where a key may have begun if it would be too long. -/
def expireKey? (s : Lexer) : Option Lexer :=
  let isLate := s.keyStart.any fun k =>
    k.line < s.cursor.line || k.column + 1024 < s.cursor.column
  if isLate then s.dropKey? else some s

/-- Remembers that a key may begin at the cursor. -/
def saveKey? (s : Lexer) : Option Lexer :=
  if s.keyAllowed then
    s.dropKey?.map fun s =>
      let required := !s.inBraces && s.indent == some s.cursor.column
      { s with keyStart := some ⟨s.tokens.length, s.cursor.line, s.cursor.column, required⟩ }
  else some s

/-- Opens a block mapping in a column, before the tokens from a position on, unless one is open in
that column. -/
def openBlock? (position column : Nat) (s : Lexer) : Option Lexer :=
  if s.inBraces then some s
  else
    match s.indent with
    | none => some { s.insert position .blockStart with indent := some column }
    | some n => if n < column then none else some s

/-- Closes the block mapping that is open. -/
def closeBlock (s : Lexer) : Lexer :=
  if s.indent.isSome then { s.add .blockEnd with indent := none } else s

/-- Closes a block mapping that is indented further than the cursor. -/
def outdent (s : Lexer) : Lexer :=
  if !s.inBraces && s.indent.any (s.cursor.column < ·) then s.closeBlock else s

/-- What follows blanks, comments and line breaks, and whether a key may begin there.  Where a key
may begin, a tab is no blank. -/
def skipGap (inBraces : Bool) : (keyAllowed inComment : Bool) → List Char → Bool × List Char
  | keyAllowed, _, [] => (keyAllowed, [])
  | keyAllowed, inComment, c :: rest =>
    if isBreak c then skipGap inBraces (keyAllowed || !inBraces) false rest
    else if inComment || c == '#' then skipGap inBraces keyAllowed true rest
    else if c == ' ' || (c == '\t' && (inBraces || !keyAllowed)) then
      skipGap inBraces keyAllowed false rest
    else (keyAllowed, c :: rest)

/-- At the next token, with the block mapping closed that does not reach so far. -/
def advance? (s : Lexer) : Option Lexer :=
  let (keyAllowed, rest) := skipGap s.inBraces s.keyAllowed false s.cursor.rest
  ({ s.moveTo rest with keyAllowed := keyAllowed }).expireKey?.map outdent

/-- Reads a token that ends the block mapping, and all that belongs to it. -/
def addMargin? (token : Token) (rest : List Char) (s : Lexer) : Option Lexer :=
  if s.inBraces then none
  else
    s.closeBlock.dropKey?.map fun s => { (s.add token).moveTo rest with keyAllowed := false }

/-- Reads a token that may begin a key, or be one. -/
def addInKey? (token : Token) (rest : List Char) (s : Lexer) : Option Lexer :=
  s.saveKey?.map fun s => { (s.add token).moveTo rest with keyAllowed := false }

/-- Reads an opening brace. -/
def openBrace? (rest : List Char) (s : Lexer) : Option Lexer :=
  if s.inBraces || s.indent.isSome then none
  else
    some { (s.add .braceOpen).moveTo rest with
      inBraces := true, keyAllowed := true, keyStart := none }

/-- Reads a comma or a closing brace. -/
def separate? (token : Token) (rest : List Char) (s : Lexer) : Option Lexer :=
  if s.inBraces then
    some { (s.add token).moveTo rest with
      inBraces := token != .braceClose, keyAllowed := token != .braceClose, keyStart := none }
  else none

/-- Reads a question mark that announces a key. -/
def announceKey? (rest : List Char) (s : Lexer) : Option Lexer := do
  if s.inBraces || s.keyAllowed then
    let s ← s.openBlock? s.tokens.length s.cursor.column
    let s ← s.dropKey?
    return { (s.add .key).moveTo rest with keyAllowed := !s.inBraces }
  else none

/-- Reads the colon before a value. -/
def endKey? (rest : List Char) (s : Lexer) : Option Lexer := do
  match s.keyStart with
  | some k =>
    let s ← (s.insert k.position .key).openBlock? k.position k.column
    return { (s.add .value).moveTo rest with keyStart := none, keyAllowed := false }
  | none =>
    if s.inBraces || s.keyAllowed then
      let s ← s.openBlock? s.tokens.length s.cursor.column
      return { (s.add .value).moveTo rest with keyAllowed := !s.inBraces }
    else none

/-- The name of an anchor or an alias, and what follows it. -/
def anchorName? (cs : List Char) : Option (String × List Char) :=
  let name := cs.takeWhile isWordCharacter
  let rest := cs.dropWhile isWordCharacter
  let ends := endsWord rest || rest.head?.any fun c =>
    "?:,]\x7d%@".toList.contains c || c == Char.ofNat 96
  if !name.isEmpty && ends then some (String.ofList name, rest) else none

/-- Reads a block scalar. -/
def addBlockScalar? (folded : Bool) (rest : List Char) (s : Lexer) : Option Lexer := do
  let s ← s.dropKey?
  let (text, rest) ← blockScalar? folded s.indent rest
  return { (s.add (.scalar text false)).moveTo rest with keyAllowed := true }

/-- Reads a plain scalar. -/
def addPlain? (cs : List Char) (s : Lexer) : Option Lexer := do
  let s ← s.saveKey?
  let (text, ended, rest) ← plain? s.inBraces ((s.indent.map (· + 1)).getD 0) cs
  return { (s.add (.scalar text true)).moveTo rest with keyAllowed := ended }

/-- Reads the token that begins with a character. -/
def step? (c : Char) (rest : List Char) (s : Lexer) : Option Lexer :=
  let atMargin := s.cursor.column == 0
  if atMargin && c == '%' then
    (directive? rest).bind fun (d, rest) => s.addMargin? (.directive d) rest
  else if atMargin && startsMark "---" (c :: rest) then s.addMargin? .documentStart (rest.drop 2)
  else if atMargin && startsMark "..." (c :: rest) then s.addMargin? .documentEnd (rest.drop 2)
  else if c == '\x7b' then s.openBrace? rest
  else if c == '\x7d' then s.separate? .braceClose rest
  else if c == ',' then s.separate? .comma rest
  else if c == '-' && endsWord rest then none
  else if c == '?' && (s.inBraces || endsWord rest) then s.announceKey? rest
  else if c == ':' && (s.inBraces || endsWord rest) then s.endKey? rest
  else if c == '*' then
    (anchorName? rest).bind fun (name, rest) => s.addInKey? (.reference name) rest
  else if c == '&' then
    (anchorName? rest).bind fun (name, rest) => s.addInKey? (.anchor name) rest
  else if c == '!' then
    (tag? s.inBraces rest).bind fun (t, rest) => s.addInKey? (.tag t) rest
  else if (c == '|' || c == '>') && !s.inBraces then s.addBlockScalar? (c == '>') rest
  else if c == '\'' || c == '"' then
    (quoted? (c :: rest)).bind fun (text, rest) => s.addInKey? (.scalar text false) rest
  else if startsPlain s.inBraces c rest then s.addPlain? (c :: rest)
  else none

/-- Reads at most `n` tokens, and then the end. -/
def run? : Nat → Lexer → Option Lexer
  | 0, _ => none
  | n + 1, s => do
    let s ← s.advance?
    match s.cursor.rest with
    | [] => s.closeBlock.dropKey?
    | c :: rest => (← s.step? c rest).run? n

end Lexer

/-- The tokens of markup; each of them takes at least one character. -/
def tokens? (text : String) : Option (List Token) :=
  let cs := text.toList
  if cs.all isAllowed then
    ((Lexer.start (unifyBreaks cs)).run? (cs.length + 1)).map Lexer.tokens
  else none

end Markup
end TypedRoutes
