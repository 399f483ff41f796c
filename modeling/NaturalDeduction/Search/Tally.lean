import NaturalDeduction.ProofTree

/-!
# What a search keeps track of

Two things are known on the way to a goal and forgotten on the way back: how
much room is left below it, and which goals are being pursued above it. They
are handed down. Everything else accumulates over the whole search, through
the branches that fail as well: the numbers handed out, the steps taken, and
whether a limit was met. That is the tally, and it is passed along.
-/

namespace NaturalDeduction

/-- Why a search ended without a proof. -/
inductive Reason where
  /-- Everything was tried. -/
  | rules
  /-- A limit was met. -/
  | budget
deriving DecidableEq, Repr

/-- The reason in words. -/
def Reason.text : Reason → String
  | rules => "no rule applies"
  | budget => "search budget exhausted"

/-- The reason in one word. -/
def Reason.name : Reason → String
  | rules => "RULES"
  | budget => "BUDGET"

/-- **A search without a proof**: the goal that was not reached, and why. -/
structure Exhausted where
  /-- The goal. -/
  goal : Formula
  /-- Why there is no proof of it. -/
  reason : Reason
deriving DecidableEq, Repr

namespace Exhausted

/-- The failure in words. -/
def message (e : Exhausted) : String :=
  "could not infer: " ++ e.goal.plain ++ " (" ++ e.reason.text ++ ")"

/-- The failure as it is shown in a listing. -/
def shown (e : Exhausted) : String :=
  "<SearchExhausted " ++ e.goal.plain ++ ": " ++ e.reason.name ++ ">"

end Exhausted

/-- **The tally of a search.** -/
structure Tally where
  /-- The next number to hand out. -/
  nextNumber : Int
  /-- How many goals have been attempted. -/
  steps : Nat
  /-- Whether a goal of this pass lay too deep. -/
  cutOff : Bool
  /-- Whether a goal came up when no step was left. -/
  outOfSteps : Bool
deriving DecidableEq, Repr

namespace Tally

/-- The tally of a search that has not begun. -/
def start (first : Int) : Tally := ⟨first, 0, false, false⟩

/-- A number that was not handed out before. -/
def fresh (t : Tally) : Int × Tally :=
  (t.nextNumber, { t with nextNumber := t.nextNumber + 1 })

end Tally

/-- **A goal that is being pursued**, with the formulas assumed there. -/
structure Pursuit where
  /-- What is to be proved. -/
  goal : Formula
  /-- What is assumed, in any order and number. -/
  formulas : List Formula
deriving DecidableEq, Repr

namespace Pursuit

/-- The pursuit of a goal in a context. -/
def of (goal : Formula) (ctx : Context) : Pursuit := ⟨goal, ctx.formulas⟩

/-- Whether two pursuits have the same goal under the same set of
formulas. -/
def same (p q : Pursuit) : Bool :=
  p.goal = q.goal && p.formulas.all (q.formulas.contains ·)
    && q.formulas.all (p.formulas.contains ·)

end Pursuit

end NaturalDeduction
