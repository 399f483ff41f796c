/-!
# Budgets

A search is limited in two ways: in how deep goals may nest, and in how many
goals may be attempted in total. Both limits are positive.
-/

namespace NaturalDeduction

/-- **The limits of one search.** -/
structure Budget where
  /-- How deep goals may nest. -/
  maxDepth : Nat
  /-- How many goals may be attempted, over all passes. -/
  maxSteps : Nat
  /-- Some depth is allowed. -/
  maxDepth_pos : 0 < maxDepth := by decide
  /-- Some step is allowed. -/
  maxSteps_pos : 0 < maxSteps := by decide
deriving DecidableEq

/-- A budget asked for with a limit that is not positive. -/
structure BudgetNotPositive where
deriving DecidableEq, Repr

/-- What is wrong with the budget. -/
def BudgetNotPositive.message (_ : BudgetNotPositive) : String :=
  "search budget must be positive"

namespace Budget

/-- The depth a search may reach when none is asked for. -/
def standardDepth : Int := 32

/-- The steps a search may take when none are asked for. -/
def standardSteps : Int := 200000

/-- The budget of a search when none is asked for. -/
def standard : Budget := { maxDepth := 32, maxSteps := 200000 }

/-- The budget with two limits, which must be positive. -/
def ofLimits (maxDepth maxSteps : Int) : Except BudgetNotPositive Budget :=
  if h : 0 < maxDepth ∧ 0 < maxSteps then
    .ok
      { maxDepth := maxDepth.toNat
        maxSteps := maxSteps.toNat
        maxDepth_pos := by omega
        maxSteps_pos := by omega }
  else .error ⟨⟩

/-- The budget as it is shown in a listing. -/
def shown (b : Budget) : String :=
  "Budget(max_depth=" ++ toString b.maxDepth ++ ", max_steps=" ++ toString b.maxSteps ++ ")"

end Budget

end NaturalDeduction
