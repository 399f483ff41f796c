/-!
# Formulas

Propositional formulas over named atoms, with negation, conjunction,
disjunction and implication. A formula is a value: two formulas are equal
when they have the same shape and the same names, and a name may be any
text at all, since formulas can be built as well as read.

Negation is a connective of the language but not of the calculus: no rule
of inference takes a negated formula apart.
-/

namespace NaturalDeduction

/-- The four connectives. -/
inductive Connective where
  | neg
  | and
  | or
  | imp
deriving DecidableEq, Repr

/-- **A propositional formula.** -/
inductive Formula where
  /-- A named atom. -/
  | atom (name : String)
  /-- The negation of a formula. -/
  | neg (body : Formula)
  /-- A conjunction. -/
  | and (left right : Formula)
  /-- A disjunction. -/
  | or (left right : Formula)
  /-- An implication. -/
  | imp (left right : Formula)
deriving DecidableEq, Repr

namespace Formula

/-- The outermost connective; an atom has none. -/
def connective? : Formula → Option Connective
  | atom _ => none
  | neg _ => some .neg
  | and _ _ => some .and
  | or _ _ => some .or
  | imp _ _ => some .imp

/-- Whether the outermost connective joins two formulas. -/
def isBinary : Formula → Bool
  | and _ _ | or _ _ | imp _ _ => true
  | atom _ | neg _ => false

/-- Whether the formula is an implication. -/
def isImp : Formula → Bool
  | imp _ _ => true
  | _ => false

/-- The first part of a formula: the left side, or what is negated. An
atom has no part but itself. -/
def firstPart : Formula → Formula
  | atom name => atom name
  | neg body => body
  | and left _ | or left _ | imp left _ => left

/-- The second part of a formula, which only the binary ones have. -/
def secondPart? : Formula → Option Formula
  | and _ right | or _ right | imp _ right => some right
  | atom _ | neg _ => none

/-- The names of the atoms, once for each occurrence, left to right. -/
def names : Formula → List String
  | atom name => [name]
  | neg body => body.names
  | and left right | or left right | imp left right => left.names ++ right.names

/-- A name put in its place in an increasing list, unless it is there. -/
def insertName (name : String) : List String → List String
  | [] => [name]
  | other :: rest =>
    if name < other then name :: other :: rest
    else if name = other then other :: rest
    else other :: insertName name rest

/-- **The atoms of a formula**: their names, each once, in increasing order
by code point. -/
def atoms (f : Formula) : List String :=
  f.names.foldr insertName []

end Formula

end NaturalDeduction
