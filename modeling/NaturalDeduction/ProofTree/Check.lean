import NaturalDeduction.ProofTree
import NaturalDeduction.Text.Quoted

/-!
# Checking proof trees

A tree is a proof under a context when every node fits the shape of its
rule, every leaf refers to an assumption that is live where the leaf stands
and has the leaf's formula, and no number is discharged twice or is already
the number of a live assumption. The tree is visited from the root down,
each node before its premises, and the first violation met is the one
reported.
-/

namespace NaturalDeduction

/-- **Why a tree is not a proof.** -/
inductive Violation where
  /-- The claim does not follow from the premises by the rule. -/
  | misfit (rule : Rule) (claim : Formula) (premises : List Formula)
  /-- A leaf refers to a number that no live assumption has. -/
  | notLive (claim : Formula) (number : Int)
  /-- A leaf refers to an assumption of another formula. -/
  | otherFormula (claim : Formula) (number : Int) (assumed : Formula)
  /-- A number is discharged that was discharged before or is in use. -/
  | dischargedTwice (number : Int)
deriving DecidableEq, Repr

/-- The violation in words. -/
def Violation.message : Violation → String
  | misfit rule claim premises =>
    rule.name ++ " cannot conclude " ++ claim.plain ++ " from "
      ++ Text.quotedList (premises.map (·.plain))
  | notLive claim number =>
    claim.plain ++ " refers to assumption " ++ toString number ++ ", which is not live here"
  | otherFormula claim number assumed =>
    claim.plain ++ " refers to assumption " ++ toString number ++ ", which is " ++ assumed.plain
  | dischargedTwice number => "assumption " ++ toString number ++ " is discharged twice"

/-- The context of a premise, with the assumption opened for it. -/
def Context.opened (ctx : Context) : Option Assumption → Context
  | some a => ctx.push a.formula a.number
  | none => ctx

namespace ProofTree

/-! ## Shapes -/

/-- **Whether the node fits its rule**: how the claim has to relate to the
claims of the premises, and how many assumptions are opened. -/
def fits (p : ProofTree) : Bool :=
  let premises := p.premises.map (·.claim)
  match p.rule with
  | .assumption => premises.isEmpty && p.reference.isSome
  | .andIntro =>
    match premises with
    | [left, right] => p.claim = .and left right
    | _ => false
  | .andElimLeft =>
    match premises with
    | [.and left _] => left = p.claim
    | _ => false
  | .andElimRight =>
    match premises with
    | [.and _ right] => right = p.claim
    | _ => false
  | .orIntroLeft =>
    match premises, p.claim with
    | [premise], .or left _ => left = premise
    | _, _ => false
  | .orIntroRight =>
    match premises, p.claim with
    | [premise], .or _ right => right = premise
    | _, _ => false
  | .orElim =>
    match premises, p.discharges with
    | [.or _ _, leftCase, rightCase], [_, _] => leftCase = p.claim && rightCase = p.claim
    | _, _ => false
  | .impIntro =>
    match premises, p.discharges, p.claim with
    | [premise], [_], .imp _ right => right = premise
    | _, _, _ => false
  | .impElim =>
    match premises with
    | [antecedent, implication] => implication = .imp antecedent p.claim
    | _ => false

/-- The violation of a node that does not fit its rule. -/
def misfit (p : ProofTree) : Violation :=
  .misfit p.rule p.claim (p.premises.map (·.claim))

/-- A node that fits its rule, or the violation. -/
def checkRule (p : ProofTree) : Except Violation Unit :=
  if p.fits then .ok () else .error p.misfit

/-! ## Scopes

A to-introduction opens its antecedent for its premise, an or-elimination
opens the sides of the disjunction for the two cases. A discharge that is
left out opens nothing. -/

/-- The assumption opened by a formula and the slot of its number. -/
def opening (formula? : Option Formula) (slot : Option (Option Int)) : Option Assumption :=
  match formula?, slot with
  | some formula, some (some number) => some ⟨formula, number⟩
  | _, _ => none

/-- What the node opens for each of its premises, as far as it opens
anything. -/
def openings (p : ProofTree) : List (Option Assumption) :=
  match p.rule with
  | .impIntro => [opening (some p.claim.firstPart) p.discharges[0]?]
  | .orElim =>
    match p.premises with
    | [] => []
    | disjunction :: _ =>
      [none,
        opening (some disjunction.claim.firstPart) p.discharges[0]?,
        opening disjunction.claim.secondPart? p.discharges[1]?]
  | _ => []

/-- Whether the node has the premises and the discharges that the scopes of
its rule are read off. -/
def hasScopes (p : ProofTree) : Bool :=
  match p.rule with
  | .impIntro => 1 ≤ p.premises.length && 1 ≤ p.discharges.length
  | .orElim =>
    match p.premises with
    | disjunction :: _ =>
      3 ≤ p.premises.length && 2 ≤ p.discharges.length && disjunction.claim.isBinary
    | [] => false
  | _ => true

/-- Lists paired up, the second one filled up with `none`. -/
def pairUp {α β : Type} : List α → List (Option β) → List (α × Option β)
  | [], _ => []
  | a :: as, [] => (a, none) :: pairUp as []
  | a :: as, b :: bs => (a, b) :: pairUp as bs

/-- **The scopes of a node**: each premise with the assumption that the node
opens for it. Of a node that lacks what the scopes are read off there are
none. -/
def scopes? (p : ProofTree) : Option (List (ProofTree × Option Assumption)) :=
  if p.hasScopes then some (pairUp p.premises p.openings) else none

/-! ## The check -/

/-- A leaf refers to a live assumption of its own formula. -/
def checkLeaf (ctx : Context) (claim : Formula) (number : Int) : Except Violation Unit :=
  match ctx.get number with
  | none => .error (.notLive claim number)
  | some live =>
    if live.formula = claim then .ok () else .error (.otherFormula claim number live.formula)

/-- Numbers are discharged one after the other, none of them discharged
before or in use; gives the numbers discharged so far. -/
def discharge (ctx : Context) : (numbers used : List Int) → Except Violation (List Int)
  | [], used => .ok used
  | n :: ns, used =>
    if used.contains n || (ctx.get n).isSome then .error (.dischargedTwice n)
    else discharge ctx ns (n :: used)

mutual

/-- Checks a tree under a context when the numbers `used` have been
discharged elsewhere; gives the numbers discharged so far. -/
def visit (ctx : Context) (used : List Int) : ProofTree → Except Violation (List Int)
  | ⟨claim, rule, premises, reference, discharges⟩ =>
    let p : ProofTree := ⟨claim, rule, premises, reference, discharges⟩
    if !p.fits then .error p.misfit
    else
      match rule, reference with
      | .assumption, some number =>
        match checkLeaf ctx claim number with
        | .ok _ => .ok used
        | .error v => .error v
      | _, _ =>
        match discharge ctx p.discharged used with
        | .ok used' => visitEach ctx used' premises p.openings
        | .error v => .error v

/-- Checks premises one after the other, each with what is opened for it. -/
def visitEach (ctx : Context) (used : List Int) :
    List ProofTree → List (Option Assumption) → Except Violation (List Int)
  | [], _ => .ok used
  | p :: ps, openings =>
    match visit (ctx.opened openings.head?.join) used p with
    | .ok used' => visitEach ctx used' ps openings.tail
    | .error v => .error v

end

/-- **Checking a proof**: whether the tree is a proof under the context, and
if not, the first violation. -/
def check (p : ProofTree) (ctx : Context) : Except Violation Unit :=
  match visit ctx [] p with
  | .ok _ => .ok ()
  | .error v => .error v

end ProofTree

end NaturalDeduction
