import NaturalDeduction.Search.Tally

/-!
# Searchers

The search works backwards from the goal. For each goal the searchers are
tried in order, and the first proof found is taken:

1. the goal is a live assumption;
2. the introduction rule of the goal's connective;
3. a live assumption is taken apart with and-elimination and to-elimination
   until the goal falls out of it;
4. the same, but disjunctions are split into cases as well. A split can
   prove any goal, so it is tried last.

No searcher takes a negation apart, so a negated formula is only ever
matched as a whole.

A searcher is given the prover for the goals below its own, and does not
search by itself: `findProof` ties the knot, one level of depth at a time.
Failure is a value, and one that fails only means that the next has its
turn.
-/

namespace NaturalDeduction

/-- **An attempt** at a goal: a proof or the reason there is none, and what
the tally has become. -/
abbrev Attempt := Tally → Except Exhausted ProofTree × Tally

/-- What finds proofs of goals in contexts. -/
abbrev Prover := Formula → Context → Attempt

namespace Search

/-- The attempt that fails since no rule applies. -/
def noRule (goal : Formula) : Attempt := fun t => (.error ⟨goal, .rules⟩, t)

/-! ## Assumptions and introductions -/

/-- The goal is the most recent assumption of its formula. -/
def byAssumption (goal : Formula) (ctx : Context) : Attempt :=
  match ctx.lookup goal with
  | some a => fun t => (.ok (.ofAssumption a), t)
  | none => noRule goal

/-- A conjunction follows from its sides. -/
def byAndIntro (prove : Prover) (goal : Formula) (ctx : Context) : Attempt :=
  match goal with
  | .and left right => fun t =>
    match prove left ctx t with
    | (.error e, t) => (.error e, t)
    | (.ok leftProof, t) =>
      match prove right ctx t with
      | (.error e, t) => (.error e, t)
      | (.ok rightProof, t) => (.ok (.infer goal .andIntro [leftProof, rightProof]), t)
  | _ => noRule goal

/-- A disjunction follows from its left side or, failing that, from its
right side. -/
def byOrIntro (prove : Prover) (goal : Formula) (ctx : Context) : Attempt :=
  match goal with
  | .or left right => fun t =>
    match prove left ctx t with
    | (.ok proof, t) => (.ok (.infer goal .orIntroLeft [proof]), t)
    | (.error _, t) =>
      match prove right ctx t with
      | (.ok proof, t) => (.ok (.infer goal .orIntroRight [proof]), t)
      | (.error _, t) => noRule goal t
  | _ => noRule goal

/-- An implication follows from a proof of its right side that may assume
its left side, under a fresh number. -/
def byImpIntro (prove : Prover) (goal : Formula) (ctx : Context) : Attempt :=
  match goal with
  | .imp left right => fun t =>
    let (number, t) := t.fresh
    match prove right (ctx.push left number) t with
    | (.error e, t) => (.error e, t)
    | (.ok proof, t) =>
      (.ok { ProofTree.infer goal .impIntro [proof] with discharges := [some number] }, t)
  | _ => noRule goal

/-! ## Eliminations

Elimination works forwards from what is assumed. Starting from a live
assumption, and-elimination and to-elimination give new facts until the fact
is the goal. A chain is only followed if the goal can come out at its end,
which the shape of the fact decides. -/

/-- **Whether a goal can come out of a fact** by taking it apart; with
`split`, a disjunction can give any goal. -/
def reaches (split : Bool) (fact goal : Formula) : Bool :=
  fact = goal ||
    match fact with
    | .and left right => reaches split left goal || reaches split right goal
    | .imp _ right => reaches split right goal
    | .or _ _ => split
    | .atom _ | .neg _ => false

/-- The goal is proved in either case of a disjunction, each side assumed
under a fresh number. A disjunction is not split if one of its sides is
assumed already: that split would be the same one again. -/
def splitCases (prove : Prover) (goal : Formula) (ctx : Context) (left right : Formula)
    (disjunction : ProofTree) : Attempt :=
  if (ctx.lookup left).isSome || (ctx.lookup right).isSome then noRule goal
  else fun t =>
    let (leftNumber, t) := t.fresh
    match prove goal (ctx.push left leftNumber) t with
    | (.error e, t) => (.error e, t)
    | (.ok leftProof, t) =>
      let (rightNumber, t) := t.fresh
      match prove goal (ctx.push right rightNumber) t with
      | (.error e, t) => (.error e, t)
      | (.ok rightProof, t) =>
        (.ok { ProofTree.infer goal .orElim [disjunction, leftProof, rightProof] with
          discharges := [some leftNumber, some rightNumber] }, t)

/-- Takes apart a `fact` that `proof` proves, until the goal falls out. -/
def useFact (prove : Prover) (split : Bool) (goal : Formula) (ctx : Context) :
    (fact : Formula) → (proof : ProofTree) → Attempt
  | fact, proof =>
    if fact = goal then fun t => (.ok proof, t)
    else
      match fact with
      | .and left right => fun t =>
        let (fromLeft, t) :=
          if reaches split left goal then
            useFact prove split goal ctx left (.infer left .andElimLeft [proof]) t
          else noRule goal t
        match fromLeft with
        | .ok result => (.ok result, t)
        | .error _ =>
          let (fromRight, t) :=
            if reaches split right goal then
              useFact prove split goal ctx right (.infer right .andElimRight [proof]) t
            else noRule goal t
          match fromRight with
          | .ok result => (.ok result, t)
          | .error _ => noRule goal t
      | .imp left right => fun t =>
        if reaches split right goal then
          match prove left ctx t with
          | (.ok leftProof, t) =>
            useFact prove split goal ctx right (.infer right .impElim [leftProof, proof]) t
          | (.error _, t) => noRule goal t
        else noRule goal t
      | .or left right =>
        if split then splitCases prove goal ctx left right proof else noRule goal
      | .atom _ | .neg _ => noRule goal

/-- Takes apart what a tree proves, until the goal falls out. -/
def use (prove : Prover) (split : Bool) (goal : Formula) (ctx : Context) (proof : ProofTree) :
    Attempt :=
  useFact prove split goal ctx proof.claim proof

/-- Takes apart one after the other those of the assumptions that the goal
can come out of. -/
def eliminateFrom (prove : Prover) (split : Bool) (goal : Formula) (ctx : Context) :
    List Assumption → Attempt
  | [] => noRule goal
  | a :: rest => fun t =>
    if a.formula ≠ goal && reaches split a.formula goal then
      match use prove split goal ctx (.ofAssumption a) t with
      | (.ok proof, t) => (.ok proof, t)
      | (.error _, t) => eliminateFrom prove split goal ctx rest t
    else eliminateFrom prove split goal ctx rest t

/-- Takes the live assumptions apart, oldest first. -/
def eliminate (prove : Prover) (split : Bool) (goal : Formula) (ctx : Context) : Attempt :=
  eliminateFrom prove split goal ctx ctx.assumptions

end Search

/-! ## The searchers in order -/

/-- The ways of searching for a proof. -/
inductive Searcher where
  | assumption
  | andIntro
  | orIntro
  | impIntro
  | elim
  | orElim
deriving DecidableEq, Repr

namespace Searcher

/-- The searchers in the order in which they are tried. -/
def all : List Searcher := [assumption, andIntro, orIntro, impIntro, elim, orElim]

/-- What a searcher does, given a prover for the goals below. -/
def run (prove : Prover) (goal : Formula) (ctx : Context) : Searcher → Attempt
  | assumption => Search.byAssumption goal ctx
  | andIntro => Search.byAndIntro prove goal ctx
  | orIntro => Search.byOrIntro prove goal ctx
  | impIntro => Search.byImpIntro prove goal ctx
  | elim => Search.eliminate prove false goal ctx
  | orElim => Search.eliminate prove true goal ctx

end Searcher

namespace Search

/-- The first proof that one of the searchers finds. -/
def firstOf (prove : Prover) (goal : Formula) (ctx : Context) : List Searcher → Attempt
  | [] => noRule goal
  | s :: rest => fun t =>
    match s.run prove goal ctx t with
    | (.ok proof, t) => (.ok proof, t)
    | (.error _, t) => firstOf prove goal ctx rest t

/-- **The search for a proof of one goal**, with `room` levels of depth left
and the goals `pending` above it.

A goal fails when no step is left or when there is no room for it, and a
goal that is already being pursued under the same assumptions fails at once,
since pursuing it again could only go round in circles. Otherwise it counts
as a step, and the searchers are tried with one level less. -/
def findProof (maxSteps : Nat) : (room : Nat) → (pending : List Pursuit) → Prover
  | 0, _, goal, _ => fun t =>
    if maxSteps ≤ t.steps then (.error ⟨goal, .budget⟩, { t with outOfSteps := true })
    else (.error ⟨goal, .budget⟩, { t with cutOff := true })
  | room + 1, pending, goal, ctx => fun t =>
    if maxSteps ≤ t.steps then (.error ⟨goal, .budget⟩, { t with outOfSteps := true })
    else if pending.any (·.same (.of goal ctx)) then noRule goal t
    else
      firstOf (findProof maxSteps room (.of goal ctx :: pending)) goal ctx Searcher.all
        { t with steps := t.steps + 1 }

end Search

end NaturalDeduction
