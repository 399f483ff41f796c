import NaturalDeduction.Formula

/-!
# Parse errors

Why a text is not a formula, and where. An error has a cause, the position
of the fragment it is about, counted in characters, and the fragment itself.
The causes fall into six kinds; the wording of each stands in one place.
-/

namespace NaturalDeduction

/-- The word a connective is written with. -/
def Connective.word : Connective → String
  | .neg => "not"
  | .and => "and"
  | .or => "or"
  | .imp => "to"

namespace ParseError

/-- The kinds of parse error. -/
inductive Kind where
  | empty
  | unknownToken
  | unbalanced
  | ambiguous
  | trailing
  | unexpected
deriving DecidableEq, Repr

/-- **Why a text is not a formula.** -/
inductive Cause where
  /-- There is nothing but blanks. -/
  | empty
  /-- Something is no token. -/
  | unknownToken
  /-- A parenthesis is opened and the text ends before it is closed. -/
  | unclosed
  /-- A parenthesis is closed that was not opened. -/
  | unmatched
  /-- A connective is used a second time between operands of one chain. -/
  | repeated (c : Connective)
  /-- A formula is read and something follows it. -/
  | trailing
  /-- A level is opened beyond the deepest one allowed. -/
  | nesting
  /-- Something other than a closing parenthesis follows a formula in
  parentheses. -/
  | expectedClose
  /-- The text ends where a formula should start. -/
  | unexpectedEnd
  /-- Something that starts no formula stands where one should start. -/
  | expectedFormula
deriving DecidableEq, Repr

namespace Cause

/-- The kind a cause belongs to. -/
def kind : Cause → Kind
  | empty => .empty
  | unknownToken => .unknownToken
  | unclosed | unmatched => .unbalanced
  | repeated _ => .ambiguous
  | trailing => .trailing
  | nesting | expectedClose | unexpectedEnd | expectedFormula => .unexpected

/-- The cause in words. -/
def detail : Cause → String
  | empty => "empty input"
  | unknownToken => "unknown token"
  | unclosed => "unclosed parenthesis"
  | unmatched => "unmatched closing parenthesis"
  | repeated c => "repeated '" ++ c.word ++ "' needs parentheses"
  | trailing => "trailing input"
  | nesting => "nesting too deep"
  | expectedClose => "expected ')'"
  | unexpectedEnd => "unexpected end of input"
  | expectedFormula => "expected a formula"

end Cause

end ParseError

/-- **A parse error**: its cause and the fragment of the text it is about. -/
structure ParseError where
  /-- Why the text is not a formula. -/
  cause : ParseError.Cause
  /-- Where the fragment starts, in characters from the start of the text. -/
  position : Nat
  /-- The part of the text the error is about. -/
  fragment : String
deriving DecidableEq, Repr

/-- The error in words, with its place and its fragment. -/
def ParseError.message (e : ParseError) : String :=
  e.cause.detail ++ " at position " ++ toString e.position ++ ": '" ++ e.fragment ++ "'"

end NaturalDeduction
