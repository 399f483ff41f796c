import NaturalDeduction.Formula.Printer
import NaturalDeduction.Text.Quoted

/-!
# Valuations and counterexamples

A valuation gives truth values to names. Evaluation reads a connective from
the left and stops as soon as the value is settled, so a name without a
value matters only if evaluation gets to it.

The valuations of a formula's atoms are numbered from zero: read as a binary
number with the first atom as the highest digit, `true` as `0` and `false`
as `1`. Counting up runs through them in lexicographic order with every
atom true first, and `refute` takes the first one that makes the formula
false, within a limit.
-/

namespace NaturalDeduction

/-- **A valuation**: names with their truth values. -/
abbrev Valuation := List (String × Bool)

/-- A name that evaluation needed and the valuation does not have. -/
structure UnassignedName where
  /-- The name. -/
  name : String
deriving DecidableEq, Repr

/-- The missing name, quoted. -/
def UnassignedName.message (e : UnassignedName) : String :=
  Text.quoted e.name

namespace Formula

/-- **The truth value of a formula** under a valuation, or the first name
evaluation gets to that has no value. -/
def evaluate (v : Valuation) : Formula → Except UnassignedName Bool
  | atom name =>
    match v.lookup name with
    | some value => .ok value
    | none => .error ⟨name⟩
  | neg body =>
    match body.evaluate v with
    | .ok value => .ok !value
    | .error e => .error e
  | and left right =>
    match left.evaluate v with
    | .ok true => right.evaluate v
    | other => other
  | or left right =>
    match left.evaluate v with
    | .ok false => right.evaluate v
    | other => other
  | imp left right =>
    match left.evaluate v with
    | .ok true => right.evaluate v
    | .ok false => .ok true
    | .error e => .error e

/-- Whether a valuation makes the formula false. -/
def failsUnder (f : Formula) (v : Valuation) : Bool :=
  match f.evaluate v with
  | .ok value => !value
  | .error _ => false

end Formula

/-- The valuation of `names` with a given number. -/
def Valuation.ofIndex : (names : List String) → (index : Nat) → Valuation
  | [], _ => []
  | name :: rest, index => (name, !index.testBit rest.length) :: ofIndex rest index

/-- **A counterexample**: a formula with a valuation that makes it false. -/
structure Counterexample where
  /-- The formula. -/
  formula : Formula
  /-- The valuation, which has exactly the atoms of the formula. -/
  valuation : Valuation
deriving DecidableEq, Repr

namespace Counterexample

/-- The counterexample in words. -/
def message (c : Counterexample) : String :=
  let values := c.valuation.map fun (name, value) =>
    name ++ " = " ++ (if value then "true" else "false")
  c.formula.plain ++ " turns out false when: " ++ ", ".intercalate values

/-- The counterexample as it is shown in a listing. -/
def shown (c : Counterexample) : String :=
  let values := c.valuation.map fun (name, value) =>
    Text.quoted name ++ ": " ++ (if value then "True" else "False")
  "<NotATautology " ++ c.formula.plain ++ ": \x7b" ++ ", ".intercalate values ++ "\x7d>"

end Counterexample

namespace Formula

/-- The first of `count` valuations of `names`, starting at the number
`index`, that makes the formula false. -/
def refuteFrom (f : Formula) (names : List String) : (count index : Nat) → Option Counterexample
  | 0, _ => none
  | count + 1, index =>
    let v := Valuation.ofIndex names index
    if f.failsUnder v then some ⟨f, v⟩ else f.refuteFrom names count (index + 1)

/-- **The first counterexample**, among the first `limit` valuations of the
formula's atoms if a limit is given. -/
def refute (f : Formula) (limit : Option Nat) : Option Counterexample :=
  let names := f.atoms
  let all := Nat.pow 2 names.length
  match limit with
  | some n => f.refuteFrom names (min n all) 0
  | none => f.refuteFrom names all 0

end Formula

/-- A limit on the number of valuations that is negative or too large to
count up to. -/
structure LimitOutOfRange where
  /-- The limit asked for. -/
  limit : Int
deriving DecidableEq, Repr

/-- What is wrong with the limit. -/
def LimitOutOfRange.message (_ : LimitOutOfRange) : String :=
  "Stop argument for islice() must be None or an integer: 0 <= x <= sys.maxsize."

/-- Limits run below this bound, as the counter of valuations is a signed
64-bit number. -/
def limitBound : Int := Int.pow 2 63

/-- The limit as a number of valuations, if it is in range. -/
def checkLimit (limit : Int) : Except LimitOutOfRange Nat :=
  if 0 ≤ limit ∧ limit < limitBound then .ok limit.toNat else .error ⟨limit⟩

/-- The first counterexample among as many valuations as an integer limit
allows, which must be in range. -/
def Formula.refuteWithin (f : Formula) (limit : Int) :
    Except LimitOutOfRange (Option Counterexample) :=
  match checkLimit limit with
  | .ok n => .ok (f.refute (some n))
  | .error e => .error e

end NaturalDeduction
