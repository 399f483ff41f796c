import NaturalDeduction.ProofTree.Renumber
import NaturalDeduction.Search.State

/-!
# The search

A goal is searched in passes with an increasing depth limit, so that the
proof found is one of the shallowest. A pass that fails without ever being
cut off has tried everything, and the search ends there: no rule applies.
It ends for lack of budget when the steps run out or the last pass has been
cut off.

The proof found is renumbered: its discharges count up from one past the
largest number of the context.
-/

namespace NaturalDeduction

namespace Search

/-- Passes with depth limits from `limit` on, at most `remaining` of them. -/
def passes (goal : Formula) (ctx : Context) :
    (remaining limit : Nat) → SearchState → Except Exhausted ProofTree × SearchState
  | 0, _, s => (.error ⟨goal, .budget⟩, s)
  | remaining + 1, limit, s =>
    match (s.startPass limit).findProof goal ctx with
    | (.ok proof, s) => (.ok proof, s)
    | (.error _, s) =>
      if s.tally.outOfSteps then (.error ⟨goal, .budget⟩, s)
      else if s.tally.cutOff then passes goal ctx remaining (limit + 1) s
      else (.error ⟨goal, .rules⟩, s)

end Search

/-- **The report of a search**: what it was asked, what came of it and how
many steps it took. -/
structure SearchReport where
  /-- What was to be proved. -/
  goal : Formula
  /-- Within which limits. -/
  budget : Budget
  /-- The proof, or why there is none. -/
  result : Except Exhausted ProofTree
  /-- How many goals were attempted. -/
  steps : Nat

/-- The report in words, for the log. -/
def SearchReport.log (r : SearchReport) : String :=
  match r.result with
  | .ok proof =>
    "proved " ++ r.goal.plain ++ " in " ++ toString r.steps ++ " steps:\n" ++ proof.outline
  | .error ⟨_, .rules⟩ =>
    "no proof of " ++ r.goal.plain ++ " after " ++ toString r.steps ++ " steps"
  | .error ⟨_, .budget⟩ =>
    "gave up on " ++ r.goal.plain ++ " after " ++ toString r.steps ++ " steps ("
      ++ r.budget.shown ++ ")"

/-- **Searching for a proof** of a goal from the assumptions of a context,
within a budget. -/
def search (goal : Formula) (ctx : Context) (budget : Budget) : SearchReport :=
  let first := ctx.maxNumber + 1
  let (result, s) := Search.passes goal ctx budget.maxDepth 1 (.start budget first)
  { goal := goal
    budget := budget
    result := result.map (·.renumber first)
    steps := s.tally.steps }

end NaturalDeduction
