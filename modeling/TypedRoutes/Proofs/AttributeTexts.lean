import Mathlib.Data.List.Basic
import TypedRoutes.Declaration.AttributeText
import TypedRoutes.Proofs.AttributeGrammar
import TypedRoutes.Proofs.Results

/-!
# Attribute texts are read back

A declaration lists the pairs of an attribute block as tokens.  The text that is made of them is a
block of the grammar, whatever characters the values hold and wherever commas stand after the
pairs, and reading it gives the pairs in order.
-/

namespace TypedRoutes

/-- A token of a key: an identifier, or a punctuation character that is neither a comma nor a colon.
The names of identifiers are not empty; no token of a key holds a blank or a quote. -/
inductive Token.IsKeyPart : Token → Prop
  | ident {name : String} (hne : name ≠ "") (h : ∀ c ∈ name.toList, Attributes.IsKeyChar c) :
      IsKeyPart (.ident name)
  | punct {c : Char} (hcomma : c ≠ ',') (h : Attributes.IsKeyChar c) : IsKeyPart (.punct c)

instance : DecidablePred Token.IsKeyPart
  | .ident name =>
    -- this goes through the name, not through all characters that there are
    decidable_of_iff (name ≠ "" ∧ (name.toList.all fun c => decide (Attributes.IsKeyChar c)) = true)
      ⟨fun h => .ident h.1 (by simpa using h.2), fun | .ident hne h => ⟨hne, by simpa using h⟩⟩
  | .punct c =>
    decidable_of_iff (c ≠ ',' ∧ Attributes.IsKeyChar c)
      ⟨fun h => .punct h.1 h.2, fun | .punct hcomma h => ⟨hcomma, h⟩⟩
  | .text _ | .literal | .group => .isFalse nofun

/-- An identifier or a punctuation character as it is written. -/
def Token.keyText : Token → String
  | ident name => name
  | punct c => String.singleton c
  | text _ | literal | group => ""

/-- A pair in a declaration: the tokens of its key, its value, and how many commas follow it. -/
structure DeclaredPair where
  key : List Token
  value : String
  commas : Nat
  key_ne_nil : key ≠ []
  isKeyPart_of_mem_key : ∀ token ∈ key, token.IsKeyPart

namespace DeclaredPair

/-- The tokens of a pair with the commas after it. -/
def tokens (p : DeclaredPair) : List Token :=
  p.key ++ [.punct ':', .text p.value] ++ List.replicate p.commas (.punct ',')

/-- The key and the value of a pair. -/
def entry (p : DeclaredPair) : String × String :=
  (String.join (p.key.map Token.keyText), p.value)

/-- The characters of a pair up to the closing quote. -/
def written (p : DeclaredPair) : List Char :=
  (p.key.flatMap fun token => token.keyText.toList) ++
    ':' :: '"' :: (p.value.toList.flatMap Token.escape ++ ['"'])

end DeclaredPair

/-! ## The characters of a pair -/

/-- The escaped characters of a value stand for the value. -/
theorem quoted_flatMap_escape (value : List Char) :
    Attributes.Quoted (value.flatMap Token.escape) value := by
  induction value with
  | nil => exact .nil
  | cons c value ih =>
      rw [List.flatMap_cons]
      unfold Token.escape
      split
      · exact .itself (by decide) (by decide) ih
      · exact .itself (by decide) (by decide) ih
      · exact .newline ih
      · exact .tab ih
      · rename_i hquote hslash _ _
        exact .plain hquote hslash ih

namespace Token

theorem IsKeyPart.chars_eq {token : Token} (h : token.IsKeyPart) :
    token.chars = .ok token.keyText.toList := by
  cases h with
  | ident => rfl
  | punct hcomma => simp [chars, keyText, hcomma]

/-- The characters of a token; a token that is refused has none. -/
def characters (token : Token) : List Char :=
  token.chars.toOption.getD []

theorem IsKeyPart.characters_eq {token : Token} (h : token.IsKeyPart) :
    token.characters = token.keyText.toList := by
  rw [characters, h.chars_eq]
  rfl

theorem IsKeyPart.keyText_ne_nil {token : Token} (h : token.IsKeyPart) :
    token.keyText.toList ≠ [] := by
  cases h with
  | ident hne => simpa [keyText] using hne
  | punct => simp [keyText]

theorem IsKeyPart.isKeyChar {token : Token} (h : token.IsKeyPart) :
    ∀ c ∈ token.keyText.toList, Attributes.IsKeyChar c := by
  cases h with
  | ident _ h => exact h
  | punct _ h => simpa [keyText] using h

end Token

namespace DeclaredPair

theorem toList_key (p : DeclaredPair) :
    (String.join (p.key.map Token.keyText)).toList =
      p.key.flatMap fun token => token.keyText.toList := by
  rw [String.toList_join, List.flatMap_map]

theorem key_chars_ne_nil (p : DeclaredPair) :
    (p.key.flatMap fun token => token.keyText.toList) ≠ [] := by
  obtain ⟨token, key, hkey⟩ := List.exists_cons_of_ne_nil p.key_ne_nil
  have htoken := (p.isKeyPart_of_mem_key token (by simp [hkey])).keyText_ne_nil
  rw [hkey, List.flatMap_cons]
  exact List.append_ne_nil_of_left_ne_nil htoken _

theorem isKeyChar_of_mem_key (p : DeclaredPair) :
    ∀ c ∈ p.key.flatMap fun token => token.keyText.toList, Attributes.IsKeyChar c := by
  intro c hc
  obtain ⟨token, htoken, hc⟩ := List.mem_flatMap.mp hc
  exact (p.isKeyPart_of_mem_key token htoken).isKeyChar c hc

theorem writtenPair (p : DeclaredPair) : Attributes.WrittenPair p.written p.entry := by
  have hpair := Attributes.WrittenPair.intro p.key_chars_ne_nil p.isKeyChar_of_mem_key
    (quoted_flatMap_escape p.value.toList)
  rw [← toList_key, String.ofList_toList, String.ofList_toList] at hpair
  rw [written, ← toList_key]
  exact hpair

/-- Every token of a pair has characters. -/
theorem chars_of_mem_tokens (p : DeclaredPair) :
    ∀ token ∈ p.tokens, token.chars = .ok token.characters := by
  intro token htoken
  simp only [tokens, List.mem_append, List.mem_cons, List.not_mem_nil, or_false] at htoken
  rcases htoken with (hkey | rfl | rfl) | hcomma
  · have hpart := p.isKeyPart_of_mem_key token hkey
    rw [hpart.characters_eq, hpart.chars_eq]
  · rfl
  · rfl
  · rw [List.eq_of_mem_replicate hcomma]
    rfl

/-- A pair is written with a space after its closing quote; commas leave no trace. -/
theorem flatMap_characters (p : DeclaredPair) :
    p.tokens.flatMap Token.characters = p.written ++ [' '] := by
  have hkey : p.key.flatMap Token.characters = p.key.flatMap fun token => token.keyText.toList :=
    List.flatMap_congr fun token htoken => (p.isKeyPart_of_mem_key token htoken).characters_eq
  have hcommas : (List.replicate p.commas (Token.punct ',')).flatMap Token.characters = [] :=
    List.flatMap_eq_nil_iff.mpr fun token htoken => by
      rw [List.eq_of_mem_replicate htoken]
      rfl
  have hvalue : (Token.text p.value).characters =
      '"' :: (p.value.toList.flatMap Token.escape ++ ['"', ' ']) := rfl
  have hcolon : (Token.punct ':').characters = [':'] := rfl
  simp [tokens, written, hkey, hcommas, hvalue, hcolon]

/-- Pairs one after the other are pairs of the grammar, up to the space after the last quote. -/
theorem exists_writtenPairs (p : DeclaredPair) (pairs : List DeclaredPair) :
    ∃ front, Attributes.WrittenPairs (front ++ ['"']) ((p :: pairs).map entry) ∧
      (p :: pairs).flatMap (fun p => p.written ++ [' ']) = front ++ ['"', ' '] := by
  have hlast : ∀ p : DeclaredPair, ∃ front, p.written = front ++ ['"'] :=
    fun p => ⟨_, by rw [written, ← List.cons_append, ← List.cons_append, ← List.append_assoc]⟩
  obtain ⟨front, hfront⟩ := hlast p
  induction pairs generalizing p front with
  | nil =>
      refine ⟨front, ?_, by simp [hfront]⟩
      rw [← hfront]
      exact .single p.writtenPair
  | cons q pairs ih =>
      obtain ⟨front', hfront'⟩ := hlast q
      obtain ⟨rest, hrest, heq⟩ := ih q front' hfront'
      refine ⟨p.written ++ [' '] ++ rest, ?_, ?_⟩
      · rw [List.append_assoc]
        exact .cons p.writtenPair (by simp [Attributes.IsGap, Text.isAsciiBlank]) (by simp) hrest
      · rw [List.flatMap_cons, heq]
        simp

end DeclaredPair

namespace Token

/-- The space after the last quote is dropped. -/
theorem dropWhile_reverse_written (front : List Char) :
    ((front ++ ['"', ' ']).reverse.dropWhile Text.isBlank).reverse = front ++ ['"'] := by
  have hspace : Text.isBlank ' ' = true := by decide
  have hquote : Text.isBlank '"' = false := by decide
  simp [hspace, hquote]

theorem attributeText_eq (pairs : List DeclaredPair) :
    attributeText (pairs.flatMap DeclaredPair.tokens) = .ok (String.ofList
      ((pairs.flatMap fun p => p.written ++ [' ']).reverse.dropWhile Text.isBlank).reverse) := by
  have hparts : (pairs.flatMap DeclaredPair.tokens).mapM chars =
      .ok ((pairs.flatMap DeclaredPair.tokens).map characters) := by
    apply Results.mapM_eq_ok_of_forall
    intro token htoken
    obtain ⟨p, -, htoken⟩ := List.mem_flatMap.mp htoken
    exact p.chars_of_mem_tokens token htoken
  have hflatten : ((pairs.flatMap DeclaredPair.tokens).map characters).flatten =
      pairs.flatMap fun p => p.written ++ [' '] := by
    rw [← List.flatMap_def, List.flatMap_assoc]
    exact List.flatMap_congr fun p _ => p.flatMap_characters
  rw [← hflatten, attributeText, hparts]
  rfl

/-- Pairs in a declaration, with any values and with or without commas after them, have an attribute
text, and reading it gives the pairs in order. -/
theorem read_attributeText (pairs : List DeclaredPair) :
    ∃ text, attributeText (pairs.flatMap DeclaredPair.tokens) = .ok text ∧
      Attributes.read text = .ok ⟨pairs.map DeclaredPair.entry⟩ := by
  refine ⟨_, attributeText_eq pairs, Attributes.read_of_run (Attributes.run_of_isBlock ?_)⟩
  rw [String.toList_ofList]
  cases pairs with
  | nil => exact Attributes.isBlock_nil
  | cons p pairs =>
      obtain ⟨front, hpairs, hwritten⟩ := p.exists_writtenPairs pairs
      rw [hwritten, dropWhile_reverse_written]
      exact Attributes.isBlock_of_writtenPairs hpairs

/-- The declaration `path:"/users", x-dc:"\"\\"`. -/
def routePairs : List DeclaredPair :=
  [⟨[.ident "path"], "/users", 1, by decide, by decide⟩,
    ⟨[.ident "x", .punct '-', .ident "dc"], "\"\\", 0, by decide, by decide⟩]

/-- A key of several tokens, and a value that ends with a backslash. -/
theorem read_attributeText_route :
    ∃ text, attributeText (routePairs.flatMap DeclaredPair.tokens) = .ok text ∧
      Attributes.read text = .ok ⟨[("path", "/users"), ("x-dc", "\"\\")]⟩ :=
  read_attributeText routePairs

end Token
end TypedRoutes
