import NaturalDeduction.Search.Budget
import NaturalDeduction.Search.Searcher

/-!
# The state of a search

A state is all that a search knows at some moment: its budget, where it
stands (the depth, the limit of the current pass and the goals pending above)
and its tally. Every operation on a state leaves where it stands as it was
and moves the tally on.
-/

namespace NaturalDeduction

/-- **The state of a search.** -/
structure SearchState where
  /-- The limits of the whole search. -/
  budget : Budget
  /-- How many goals are nested here. -/
  depth : Nat
  /-- How deep goals may nest in this pass. -/
  depthLimit : Int
  /-- The goals being pursued above. -/
  pending : List Pursuit
  /-- What has accumulated so far. -/
  tally : Tally
deriving DecidableEq

namespace SearchState

/-- The state of a search that hands out numbers from `first` on and has
not begun a pass. -/
def start (budget : Budget) (first : Int) : SearchState where
  budget := budget
  depth := 0
  depthLimit := 0
  pending := []
  tally := .start first

/-- The state at the start of a pass with a depth limit. -/
def startPass (s : SearchState) (depthLimit : Int) : SearchState :=
  { s with depthLimit := depthLimit, tally := { s.tally with cutOff := false } }

/-- A number that was not handed out before. -/
def fresh (s : SearchState) : Int × SearchState :=
  let (number, tally) := s.tally.fresh
  (number, { s with tally := tally })

/-- The state with one more pending goal, unless it is pending already. -/
def pend (s : SearchState) (goal : Formula) (ctx : Context) : SearchState :=
  if s.pending.any (·.same (.of goal ctx)) then s
  else { s with pending := .of goal ctx :: s.pending }

/-- How many levels are left below. -/
def room (s : SearchState) : Nat := (s.depthLimit - s.depth).toNat

/-- The prover for goals that come up in this state. -/
def prover (s : SearchState) : Prover :=
  Search.findProof s.budget.maxSteps s.room s.pending

/-- The outcome of an attempt made in this state, and the state after it. -/
def attempt (s : SearchState) (a : Attempt) : Except Exhausted ProofTree × SearchState :=
  let (result, tally) := a s.tally
  (result, { s with tally := tally })

/-- Searches for a proof of a goal. -/
def findProof (s : SearchState) (goal : Formula) (ctx : Context) :
    Except Exhausted ProofTree × SearchState :=
  s.attempt (s.prover goal ctx)

/-- Searches for a proof of a goal with one searcher. -/
def runSearcher (s : SearchState) (searcher : Searcher) (goal : Formula) (ctx : Context) :
    Except Exhausted ProofTree × SearchState :=
  s.attempt (searcher.run s.prover goal ctx)

/-- Takes apart what a tree proves, until the goal falls out. -/
def use (s : SearchState) (split : Bool) (goal : Formula) (ctx : Context) (proof : ProofTree) :
    Except Exhausted ProofTree × SearchState :=
  s.attempt (Search.use s.prover split goal ctx proof)

/-- Proves the goal by cases of what a tree proves. Only a claim with two
sides has cases; a negation is still refused, as any claim, when its first
part is assumed. -/
def splitCases? (s : SearchState) (goal : Formula) (ctx : Context) (proof : ProofTree) :
    Option (Except Exhausted ProofTree × SearchState) :=
  match proof.claim with
  | .and left right | .or left right | .imp left right =>
    some (s.attempt (Search.splitCases s.prover goal ctx left right proof))
  | .neg body =>
    if (ctx.lookup body).isSome then some (s.attempt (Search.noRule goal)) else none
  | .atom _ => none

end SearchState

end NaturalDeduction
