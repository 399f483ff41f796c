import NaturalDeduction.Formula
import NaturalDeduction.Token

/-!
# Reading formulas

The grammar, from the loosest binding to the tightest:

    impl := disj | disj to impl
    disj := conj | conj or conj
    conj := neg  | neg and neg
    neg  := not neg | atom | ( impl )

`to` associates to the right; a chain of `and` or of `or` without
parentheses is refused rather than given an associativity.

Every parenthesis, every `not` for its operand and every `to` for its right
side opens a level, and at most `maxNesting` levels may be open. The levels
carry the recursion: a phrase is read by functions that are given readers
for the phrases one level further in (`Inner`), and at the innermost level
these readers refuse.
-/

namespace NaturalDeduction

namespace Parser

/-- How many levels may be open at once. -/
def maxNesting : Nat := 100

/-- **A reader** takes the tokens of a phrase off the front of a list and
gives what the phrase says, with the tokens that are left. -/
abbrev Reader := List Token → Except ParseError (Formula × List Token)

/-- An error about one token. -/
def errorAt (cause : ParseError.Cause) (t : Token) : ParseError :=
  ⟨cause, t.position, t.text⟩

/-- The readers for what stands one level further in, each given the token
that opens the level. -/
structure Inner where
  /-- Reads the operand of a `not`. -/
  operand : Token → Reader
  /-- Reads what stands in parentheses or to the right of a `to`. -/
  formula : Token → Reader

/-- Reads `neg`. The text ends at `finish`. -/
def neg (finish : Nat) (inner : Inner) : Reader
  | [] => .error ⟨.unexpectedEnd, finish, ""⟩
  | t :: rest =>
    match t.kind with
    | .atom => .ok (.atom t.text, rest)
    | .connective .neg =>
      match inner.operand t rest with
      | .ok (body, rest') => .ok (.neg body, rest')
      | .error e => .error e
    | .openParen =>
      match inner.formula t rest with
      | .error e => .error e
      | .ok (_, []) => .error (errorAt .unclosed t)
      | .ok (body, next :: rest') =>
        if next.kind = .closeParen then .ok (body, rest')
        else .error (errorAt .expectedClose next)
    | _ => .error (errorAt .expectedFormula t)

/-- Reads one operand, or two with the connective `c` between them, which
are then put together by `join`. -/
def chain (c : Connective) (join : Formula → Formula → Formula) (operand : Reader) : Reader :=
  fun tokens =>
    match operand tokens with
    | .error e => .error e
    | .ok (left, []) => .ok (left, [])
    | .ok (left, t :: rest) =>
      if t.kind = .connective c then
        match operand rest with
        | .error e => .error e
        | .ok (right, []) => .ok (join left right, [])
        | .ok (right, again :: rest') =>
          if again.kind = .connective c then .error (errorAt (.repeated c) again)
          else .ok (join left right, again :: rest')
      else .ok (left, t :: rest)

/-- Reads `conj`. -/
def conj (finish : Nat) (inner : Inner) : Reader :=
  chain .and .and (neg finish inner)

/-- Reads `disj`. -/
def disj (finish : Nat) (inner : Inner) : Reader :=
  chain .or .or (conj finish inner)

/-- Reads `impl`. -/
def impl (finish : Nat) (inner : Inner) : Reader :=
  fun tokens =>
    match disj finish inner tokens with
    | .error e => .error e
    | .ok (left, []) => .ok (left, [])
    | .ok (left, t :: rest) =>
      if t.kind = .connective .imp then
        match inner.formula t rest with
        | .ok (right, rest') => .ok (.imp left right, rest')
        | .error e => .error e
      else .ok (left, t :: rest)

/-- The readers for one level further in when `room` levels may still be
opened. -/
def inner (finish : Nat) : (room : Nat) → Inner
  | 0 =>
    { operand := fun t _ => .error (errorAt .nesting t)
      formula := fun t _ => .error (errorAt .nesting t) }
  | room + 1 =>
    { operand := fun _ => neg finish (inner finish room)
      formula := fun _ => impl finish (inner finish room) }

/-- Reads a whole list of tokens as a formula. The text is needed for the
errors about all of it. -/
def formulaOfTokens (text : String) (tokens : List Token) : Except ParseError Formula :=
  match tokens with
  | [] => .error ⟨.empty, 0, text⟩
  | _ =>
    match impl text.length (inner text.length maxNesting) tokens with
    | .error e => .error e
    | .ok (f, []) => .ok f
    | .ok (_, t :: _) =>
      if t.kind = .closeParen then .error (errorAt .unmatched t)
      else .error ⟨.trailing, t.position, String.ofList (text.toList.drop t.position)⟩

end Parser

/-- **Reading a formula**: the formula a text spells, or why it spells
none. -/
def Formula.parse (text : String) : Except ParseError Formula :=
  match Token.scan text with
  | .error e => .error e
  | .ok tokens => Parser.formulaOfTokens text tokens

end NaturalDeduction
