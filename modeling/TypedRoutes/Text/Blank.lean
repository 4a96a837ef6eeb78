/-!
# Blanks, trimming and ASCII case

Two notions of blank character are used: the Unicode property `White_Space`, by which texts are
trimmed, and the five ASCII blanks that separate the pairs of an attribute block.  Case folding is
ASCII only; every other character is kept.
-/

namespace TypedRoutes
namespace Text

/-- The characters with the Unicode property `White_Space`. -/
def isBlank (c : Char) : Bool :=
  let n := c.toNat
  (9 ≤ n && n ≤ 13) || n == 0x20 || n == 0x85 || n == 0xA0 || n == 0x1680 ||
    (0x2000 ≤ n && n ≤ 0x200A) || n == 0x2028 || n == 0x2029 || n == 0x202F || n == 0x205F ||
    n == 0x3000

/-- Space, tab, line feed, form feed and carriage return; the vertical tab is not one of them. -/
def isAsciiBlank (c : Char) : Bool :=
  c == ' ' || c == '\t' || c == '\n' || c == '\x0c' || c == '\r'

/-- A list without its leading characters that satisfy `p`, nor its trailing ones. -/
def strip (p : Char → Bool) (cs : List Char) : List Char :=
  ((cs.dropWhile p).reverse.dropWhile p).reverse

/-- A text without its leading and trailing blanks. -/
def trim (s : String) : String :=
  String.ofList (strip isBlank s.toList)

/-- Whether a text holds nothing but blanks. -/
def isBlankText (s : String) : Bool :=
  s.toList.all isBlank

/-- ASCII letters in lower case, every other character kept. -/
def lowerAscii (s : String) : String :=
  String.ofList (s.toList.map Char.toLower)

/-- ASCII letters in upper case, every other character kept. -/
def upperAscii (s : String) : String :=
  String.ofList (s.toList.map Char.toUpper)

/-- The pieces of a list between the occurrences of a separator; always at least one piece. -/
def pieces (separator : Char) : List Char → List (List Char)
  | [] => [[]]
  | c :: rest =>
    if c == separator then
      [] :: pieces separator rest
    else
      match pieces separator rest with
      | [] => [[c]]
      | piece :: others => (c :: piece) :: others

/-- The pieces of a text between the occurrences of a separator. -/
def split (separator : Char) (s : String) : List String :=
  (pieces separator s.toList).map String.ofList

/-- What stands before and after the first occurrence of a separator, if there is one. -/
def splitOnce (separator : Char) (s : String) : Option (String × String) :=
  let cs := s.toList
  match cs.dropWhile (· != separator) with
  | [] => none
  | _ :: rest => some (String.ofList (cs.takeWhile (· != separator)), String.ofList rest)

/-- What follows a given start of a list, if it starts that way. -/
def dropStart? : List Char → List Char → Option (List Char)
  | [], cs => some cs
  | _ :: _, [] => none
  | p :: ps, c :: cs => if p == c then dropStart? ps cs else none

/-- What precedes a given end of a list, if it ends that way. -/
def dropEnd? (ending cs : List Char) : Option (List Char) :=
  (dropStart? ending.reverse cs.reverse).map List.reverse

end Text
end TypedRoutes
