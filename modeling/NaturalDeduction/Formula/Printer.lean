import NaturalDeduction.Formula

/-!
# Printing formulas

A formula is printed in one of two styles, plain with the usual glyphs or
as TeX. Both put parentheses in the same places: below an implication only
an implication needs them, below any other connective every binary formula
does. That is what the reader needs to find the same formula again, since
it takes `and` and `or` with two operands only and lets `to` bind weakest
and to the right.
-/

namespace NaturalDeduction

/-- The two ways of writing a formula. -/
inductive Style where
  /-- With the glyphs of the connectives. -/
  | plain
  /-- With TeX commands. -/
  | tex
deriving DecidableEq, Repr

/-- The connective as it is written in a style. -/
def Connective.symbol : Style → Connective → String
  | .plain, .neg => "¬"
  | .plain, .and => "∧"
  | .plain, .or => "∨"
  | .plain, .imp => "→"
  | .tex, .neg => "\\lnot"
  | .tex, .and => "\\land"
  | .tex, .or => "\\lor"
  | .tex, .imp => "\\to"

/-- What stands between the sign of a negation and the formula it negates:
a TeX command has to end before a name may begin. -/
def Style.negationGap : Style → String
  | .plain => ""
  | .tex => " "

namespace Formula

/-- **Where parentheses are needed**: whether the formula has to be
enclosed when it stands as an operand of `parent`. -/
def needsParensWithin (f parent : Formula) : Bool :=
  match parent with
  | imp _ _ => f.isImp
  | _ => f.isBinary

/-- A text, in parentheses if they are needed. -/
def enclose (needed : Bool) (text : String) : String :=
  if needed then "(" ++ text ++ ")" else text

/-- Two operands with the connective between them. -/
def joinOperands (style : Style) (c : Connective) (left right : String) : String :=
  left ++ " " ++ c.symbol style ++ " " ++ right

/-- **The formula as text**, in a style. -/
def text (style : Style) : Formula → String
  | atom name => name
  | neg body =>
    Connective.neg.symbol style ++ style.negationGap
      ++ enclose (body.needsParensWithin (neg body)) (body.text style)
  | and left right =>
    joinOperands style .and
      (enclose (left.needsParensWithin (and left right)) (left.text style))
      (enclose (right.needsParensWithin (and left right)) (right.text style))
  | or left right =>
    joinOperands style .or
      (enclose (left.needsParensWithin (or left right)) (left.text style))
      (enclose (right.needsParensWithin (or left right)) (right.text style))
  | imp left right =>
    joinOperands style .imp
      (enclose (left.needsParensWithin (imp left right)) (left.text style))
      (enclose (right.needsParensWithin (imp left right)) (right.text style))

/-- The formula in the plain style. -/
def plain (f : Formula) : String := f.text .plain

/-- The formula in TeX. -/
def tex (f : Formula) : String := f.text .tex

/-- The formula set off from the text around it. -/
def barred (f : Formula) : String := "|" ++ f.plain ++ "|"

end Formula

end NaturalDeduction
