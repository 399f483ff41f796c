import NaturalDeduction.Formula.Parser
import NaturalDeduction.ProofTree.Check
import NaturalDeduction.ProofTree.Drawing
import NaturalDeduction.Search
import NaturalDeduction.Valuation

/-!
# Requests

A request is a text to be read as a formula and proved. It is answered with
the proof, or with the reason there is none: the text is no formula, some
valuation makes the formula false, or the search found nothing. A
counterexample says far more than a failed search, so it is looked for when
the search fails, among no more valuations than the search was allowed
steps.

Every proof is checked before it is shown.
-/

namespace NaturalDeduction

/-- **What comes of a request.** -/
inductive Outcome where
  /-- A proof was found. -/
  | proved (proof : ProofTree)
  /-- The text is no formula. -/
  | unreadable (e : ParseError)
  /-- The formula is false under some valuation. -/
  | refuted (c : Counterexample)
  /-- The search found no proof. -/
  | exhausted (e : Exhausted)
deriving DecidableEq

/-- **What keeps a request from having an outcome.** -/
inductive RequestFault where
  /-- The proof found does not check. -/
  | malformed (v : Violation)
  /-- The proof found cannot be drawn. -/
  | undrawable (e : ProofTree.UndrawableInference)
  /-- The number of steps allowed is no limit on valuations. -/
  | limit (e : LimitOutOfRange)
deriving DecidableEq, Repr

/-- The fault in words. -/
def RequestFault.message : RequestFault → String
  | malformed v => v.message
  | undrawable e => e.message
  | limit e => e.message

namespace Outcome

/-- The outcome a search report leads to. -/
def ofReport (r : SearchReport) : Except RequestFault Outcome :=
  match r.result with
  | .ok proof =>
    match proof.check .empty with
    | .ok _ => .ok (.proved proof)
    | .error v => .error (.malformed v)
  | .error e =>
    match r.goal.refuteWithin r.budget.maxSteps with
    | .ok (some c) => .ok (.refuted c)
    | .ok none => .ok (.exhausted e)
    | .error limit => .error (.limit limit)

end Outcome

/-- **A consultation**: the outcome of a request, and what is to be logged
about it. -/
structure Consultation where
  /-- What came of the request. -/
  outcome : Except RequestFault Outcome
  /-- A record for each search. -/
  log : List String

/-- Reads a text as a formula and searches for a proof of it. -/
def consult (text : String) (budget : Budget) : Consultation :=
  match Formula.parse text with
  | .error e => ⟨.ok (.unreadable e), []⟩
  | .ok f =>
    let report := search f .empty budget
    ⟨Outcome.ofReport report, [report.log]⟩

/-- **Solving a request**: its outcome within a budget. -/
def solve (text : String) (budget : Budget) : Except RequestFault Outcome :=
  (consult text budget).outcome

/-! ## Answers in words -/

/-- A proof where a failure was to be described. -/
structure NotAFailure where
  /-- The proof. -/
  proof : ProofTree

/-- What is wrong. -/
def NotAFailure.message (e : NotAFailure) : String :=
  "Not a failure: " ++ e.proof.shown

/-- A line of text with a mark below the place of an error, unless the text
has more than one line. -/
def markedLine (shown : String) (position : Nat) : String :=
  if shown.toList.contains '\n' then ""
  else shown ++ "\n" ++ String.ofList (List.replicate position ' ') ++ "^\n"

/-- **A failure in words**, with the text it is about if that is given. -/
def Outcome.describe (shown : Option String) : Outcome → Except NotAFailure String
  | .unreadable e =>
    let marked := match shown with
      | some text => markedLine text e.position
      | none => ""
    .ok ("error when parsing:\n" ++ marked ++ e.message)
  | .refuted c => .ok ("error when checking:\n" ++ c.message)
  | .exhausted e => .ok ("error when solving:\n" ++ e.message)
  | .proved proof => .error ⟨proof⟩

/-- **A reply**: whether a proof was found, and the text to show. -/
structure Reply where
  /-- Whether a proof was found. -/
  proved : Bool
  /-- The proof, or why there is none. -/
  text : String
deriving DecidableEq, Repr

/-- The reply to a request with an outcome. -/
def Reply.ofOutcome (style : Style) (text : String) :
    Except RequestFault Outcome → Except RequestFault Reply
  | .error (.malformed v) => .ok ⟨false, "internal error:\n" ++ v.message⟩
  | .error fault => .error fault
  | .ok outcome =>
    match outcome.describe (some text) with
    | .ok reason => .ok ⟨false, reason⟩
    | .error ⟨proof⟩ =>
      match proof.draw style with
      | .ok drawing => .ok ⟨true, drawing⟩
      | .error e => .error (.undrawable e)

/-- **Answering a request**: the reply within a budget, with a proof drawn
in a style. -/
def respond (text : String) (style : Style) (budget : Budget) : Except RequestFault Reply :=
  Reply.ofOutcome style text (solve text budget)

end NaturalDeduction
