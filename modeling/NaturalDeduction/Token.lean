import NaturalDeduction.Formula
import NaturalDeduction.ParseError
import NaturalDeduction.Text.Blank
import NaturalDeduction.Text.Quoted

/-!
# Tokens

A text is scanned into tokens before it is read as a formula. A connective
can be spelled as a word or as a TeX command, both in any letter case, or
as a glyph; everything that looks like a word and is no connective is the
name of an atom. Each token keeps its own spelling and its position, so the
tokens of a text, with blanks between them, are the text again.

`Token.scan` gives the tokens that stand in the text; `Token.scanAll`
follows them with the token that marks the end.
-/

namespace NaturalDeduction

namespace Token

/-- What a token stands for. -/
inductive Kind where
  /-- A connective. -/
  | connective (c : Connective)
  /-- An opening parenthesis. -/
  | openParen
  /-- A closing parenthesis. -/
  | closeParen
  /-- The name of an atom. -/
  | atom
  /-- The end of the text. -/
  | finish
deriving DecidableEq, Repr

/-- The kind in a word. -/
def Kind.word : Kind → String
  | connective c => c.word
  | openParen => "open"
  | closeParen => "close"
  | atom => "atom"
  | finish => "end"

end Token

/-- **A token**: its kind, its spelling and where it stands. -/
structure Token where
  /-- What it stands for. -/
  kind : Token.Kind
  /-- How it is spelled in the text. -/
  text : String
  /-- Where it starts, in characters from the start of the text. -/
  position : Nat
deriving DecidableEq, Repr

namespace Token

/-- The token as it is shown in a listing. -/
def shown (t : Token) : String :=
  "Token(" ++ t.kind.word ++ ", " ++ Text.quoted t.text ++ ", " ++ toString t.position ++ ")"

/-! ## What may stand at a place

The alternatives are tried in order at the first character that is not yet
scanned: a blank, a backslash with the letters after it, a word, a glyph.
Each takes as many characters as it can. -/

/-- A letter of a word or of a TeX command. -/
def isLetter (c : Char) : Bool := c.isAlpha

/-- A character a word may start with. -/
def isWordStart (c : Char) : Bool := c.isAlpha || c == '_'

/-- A character a word may go on with. -/
def isWordPart (c : Char) : Bool := c.isAlphanum || c == '_' || c == '\''

/-- The connective a word spells, in any letter case. -/
def connectiveOfWord? (cs : List Char) : Option Connective :=
  let word := String.ofList (cs.map Char.toLower)
  [Connective.neg, .and, .or, .imp].find? (·.word == word)

/-- The connective a TeX command spells, in any letter case; the letters
are those after the backslash. -/
def connectiveOfCommand? (cs : List Char) : Option Connective :=
  match String.ofList (cs.map Char.toLower) with
  | "lnot" => some .neg
  | "land" => some .and
  | "lor" => some .or
  | "to" => some .imp
  | _ => none

/-- What a single character stands for on its own. -/
def kindOfGlyph? : Char → Option Kind
  | '(' => some .openParen
  | ')' => some .closeParen
  | '¬' | '~' => some (.connective .neg)
  | '∧' | '&' => some (.connective .and)
  | '∨' | '|' => some (.connective .or)
  | '→' => some (.connective .imp)
  | _ => none

/-- **What a text starts with.** The characters of a token or of an unknown
lexeme after its first one are its `tail`. -/
inductive Lead where
  /-- A blank. -/
  | blank
  /-- A token. -/
  | token (kind : Kind) (tail : List Char)
  /-- Something that is no token. -/
  | unknown (tail : List Char)
deriving DecidableEq, Repr

/-- What the text `c :: rest` starts with. -/
def lead (c : Char) (rest : List Char) : Lead :=
  if Text.isBlank c then .blank
  else if c = '\\' then
    let letters := rest.takeWhile isLetter
    match connectiveOfCommand? letters with
    | some connective => .token (.connective connective) letters
    | none => .unknown letters
  else if isWordStart c then
    let tail := rest.takeWhile isWordPart
    match connectiveOfWord? (c :: tail) with
    | some connective => .token (.connective connective) tail
    | none => .token .atom tail
  else if c = '-' && rest.head? = some '>' then .token (.connective .imp) ['>']
  else
    match kindOfGlyph? c with
    | some kind => .token kind []
    | none => .unknown []

/-! ## Scanning -/

/-- The tokens of a text that starts at `position`. -/
def scanFrom (position : Nat) : List Char → Except ParseError (List Token)
  | [] => .ok []
  | c :: rest =>
    match lead c rest with
    | .blank => scanFrom (position + 1) rest
    | .token kind tail =>
      match scanFrom (position + 1 + tail.length) (rest.drop tail.length) with
      | .ok tokens => .ok (⟨kind, String.ofList (c :: tail), position⟩ :: tokens)
      | .error e => .error e
    | .unknown tail => .error ⟨.unknownToken, position, String.ofList (c :: tail)⟩
termination_by cs => cs.length
decreasing_by
  · simp
  · simp only [List.length_drop, List.length_cons]; omega

/-- **The tokens of a text**, or the first place where there is none. -/
def scan (text : String) : Except ParseError (List Token) :=
  scanFrom 0 text.toList

/-- The token that marks the end of a text. -/
def finishOf (text : String) : Token :=
  ⟨.finish, "", text.length⟩

/-- The tokens of a text followed by the one that marks its end. -/
def scanAll (text : String) : Except ParseError (List Token) :=
  match scan text with
  | .ok tokens => .ok (tokens ++ [finishOf text])
  | .error e => .error e

end Token

end NaturalDeduction
