import NaturalDeduction.Formula.Printer

/-!
# Assumptions and contexts

An assumption is a formula taken as given, with the number that the leaves
of a proof refer to it by. A context holds the assumptions that are live at
some point of a derivation, in the order in which they were made. Nothing
asks for the numbers of a context to be distinct: a formula is looked up
from the most recent assumption back, a number from the oldest on.
-/

namespace NaturalDeduction

/-- **An assumption**: a formula and the number it is referred to by. -/
structure Assumption where
  /-- What is assumed. -/
  formula : Formula
  /-- What leaves refer to it by. -/
  number : Int
deriving DecidableEq, Repr

/-- The assumption as it is shown in a listing. -/
def Assumption.shown (a : Assumption) : String :=
  "<Assumption " ++ toString a.number ++ ": " ++ a.formula.plain ++ ">"

/-- **A context**: the live assumptions, oldest first. -/
structure Context where
  /-- The assumptions in the order in which they were made. -/
  assumptions : List Assumption
deriving DecidableEq, Repr

namespace Context

/-- The context in which nothing is assumed. -/
def empty : Context := ⟨[]⟩

/-- The context with one more assumption. -/
def push (ctx : Context) (formula : Formula) (number : Int) : Context :=
  ⟨ctx.assumptions ++ [⟨formula, number⟩]⟩

/-- The most recent assumption of a formula. -/
def lookup (ctx : Context) (formula : Formula) : Option Assumption :=
  ctx.assumptions.reverse.find? (·.formula = formula)

/-- The oldest assumption with a number. -/
def get (ctx : Context) (number : Int) : Option Assumption :=
  ctx.assumptions.find? (·.number = number)

/-- The formulas assumed, in order, repetitions included. -/
def formulas (ctx : Context) : List Formula :=
  ctx.assumptions.map (·.formula)

/-- The numbers in use, in order, repetitions included. -/
def numbers (ctx : Context) : List Int :=
  ctx.assumptions.map (·.number)

/-- The largest number in use, and zero if there is none. -/
def maxNumber (ctx : Context) : Int :=
  match ctx.numbers with
  | [] => 0
  | n :: ns => ns.foldl max n

/-- The number of live assumptions. -/
def size (ctx : Context) : Nat := ctx.assumptions.length

/-- The context as it is shown in a listing. -/
def shown (ctx : Context) : String :=
  "ProofContext([" ++ ", ".intercalate (ctx.assumptions.map Assumption.shown) ++ "])"

end Context

end NaturalDeduction
