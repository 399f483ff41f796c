import NaturalDeduction.Context
import NaturalDeduction.Text.Lines

/-!
# Proof trees

A proof in natural deduction is a tree. Each node states a claim, names the
rule that yields it, and has the proofs of the rule's premises below it, in
the order in which the rule is written:

* and-introduction: the left side, the right side;
* to-elimination: the antecedent, the implication;
* or-elimination: the disjunction, the left case, the right case.

A leaf is an assumption and refers to it by number. A to-introduction and an
or-elimination open assumptions for some of their premises and carry the
numbers they discharge, one for each assumption opened; a discharge that no
leaf uses may be left out, as `none`.

Nothing of this is built into the type: a tree is what somebody wrote down,
and `ProofTree.check` decides whether it is a proof.
-/

namespace NaturalDeduction

/-- The rules of inference. -/
inductive Rule where
  | assumption
  | andIntro
  | andElimLeft
  | andElimRight
  | orIntroLeft
  | orIntroRight
  | orElim
  | impIntro
  | impElim
deriving DecidableEq, Repr

namespace Rule

/-- The name of the rule. -/
def name : Rule → String
  | assumption => "assumption"
  | andIntro => "and-intro"
  | andElimLeft => "and-elim-left"
  | andElimRight => "and-elim-right"
  | orIntroLeft => "or-intro-left"
  | orIntroRight => "or-intro-right"
  | orElim => "or-elim"
  | impIntro => "to-intro"
  | impElim => "to-elim"

/-- The label of an inference in TeX: the connective of the rule, and
whether it is introduced or eliminated. -/
def texLabel : Rule → String
  | assumption => ""
  | andIntro => "$" ++ Connective.and.symbol .tex ++ "$I"
  | andElimLeft | andElimRight => "$" ++ Connective.and.symbol .tex ++ "$E"
  | orIntroLeft | orIntroRight => "$" ++ Connective.or.symbol .tex ++ "$I"
  | orElim => "$" ++ Connective.or.symbol .tex ++ "$E"
  | impIntro => "$" ++ Connective.imp.symbol .tex ++ "$I"
  | impElim => "$" ++ Connective.imp.symbol .tex ++ "$E"

/-- All rules, in the order in which they are listed. -/
def all : List Rule :=
  [assumption, andIntro, andElimLeft, andElimRight, orIntroLeft, orIntroRight, orElim,
    impIntro, impElim]

/-- The rule with a name. -/
def ofName? (name : String) : Option Rule :=
  all.find? (·.name = name)

end Rule

/-- **A proof tree.** -/
structure ProofTree where
  /-- What the node states. -/
  claim : Formula
  /-- The rule that yields it. -/
  rule : Rule
  /-- The proofs of the premises. -/
  premises : List ProofTree
  /-- The number of the assumption a leaf uses. -/
  reference : Option Int
  /-- The numbers of the assumptions the node discharges, one for each
  assumption it opens. -/
  discharges : List (Option Int)

namespace ProofTree

/-! ## Equality -/

mutual

/-- Whether two trees are the same. -/
def decEq : (p q : ProofTree) → Decidable (p = q)
  | ⟨claim, rule, premises, reference, discharges⟩,
    ⟨claim', rule', premises', reference', discharges'⟩ =>
    if h₁ : claim = claim' ∧ rule = rule' ∧ reference = reference' ∧ discharges = discharges' then
      match decEqList premises premises' with
      | isTrue h₂ => isTrue (by
          obtain ⟨rfl, rfl, rfl, rfl⟩ := h₁
          exact h₂ ▸ rfl)
      | isFalse h₂ => isFalse (by intro h; injection h; exact h₂ ‹_›)
    else isFalse (by intro h; injection h; exact h₁ ⟨‹_›, ‹_›, ‹_›, ‹_›⟩)

/-- Whether two lists of trees are the same. -/
def decEqList : (ps qs : List ProofTree) → Decidable (ps = qs)
  | [], [] => isTrue rfl
  | [], _ :: _ => isFalse (by intro h; cases h)
  | _ :: _, [] => isFalse (by intro h; cases h)
  | p :: ps, q :: qs =>
    match decEq p q with
    | isTrue h₁ =>
      match decEqList ps qs with
      | isTrue h₂ => isTrue (h₁ ▸ h₂ ▸ rfl)
      | isFalse h₂ => isFalse (by intro h; injection h; exact h₂ ‹_›)
    | isFalse h₁ => isFalse (by intro h; injection h; exact h₁ ‹_›)

end

instance : DecidableEq ProofTree := decEq

/-! ## Leaves and discharges -/

/-- The leaf that uses an assumption. -/
def ofAssumption (a : Assumption) : ProofTree where
  claim := a.formula
  rule := .assumption
  premises := []
  reference := some a.number
  discharges := []

/-- A node without reference and discharges. -/
def infer (claim : Formula) (rule : Rule) (premises : List ProofTree) : ProofTree where
  claim := claim
  rule := rule
  premises := premises
  reference := none
  discharges := []

/-- The numbers the node itself discharges, without those left out. -/
def discharged (p : ProofTree) : List Int :=
  p.discharges.filterMap id

mutual

/-- **The leaves**: the nodes that use an assumption, in the order in which
the tree is read. -/
def leaves : ProofTree → List ProofTree
  | ⟨claim, rule, premises, reference, discharges⟩ =>
    if rule = .assumption then ⟨claim, rule, premises, reference, discharges⟩ :: leavesOf premises
    else leavesOf premises

/-- The leaves of a list of trees. -/
def leavesOf : List ProofTree → List ProofTree
  | [] => []
  | p :: ps => p.leaves ++ leavesOf ps

end

mutual

/-- **The numbers discharged anywhere in the tree**, each node before its
premises. -/
def allDischarged : ProofTree → List Int
  | ⟨_, _, premises, _, discharges⟩ => discharges.filterMap id ++ allDischargedOf premises

/-- The numbers discharged anywhere in a list of trees. -/
def allDischargedOf : List ProofTree → List Int
  | [] => []
  | p :: ps => p.allDischarged ++ allDischargedOf ps

end

/-- The tree's claim and last rule, as they are shown in a listing. -/
def shown (p : ProofTree) : String :=
  "<Proof of " ++ p.claim.plain ++ " via " ++ p.rule.name ++ ">"

/-! ## The outline

One line for each node, which says what is proved and how, with the lines
of the premises indented below it. -/

/-- A number that may be left out, in words. -/
def referenceText : Option Int → String
  | some n => toString n
  | none => "None"

/-- A list of numbers, with commas between them. -/
def numbersText (ns : List Int) : String :=
  ", ".intercalate (ns.map toString)

/-- The node's own line of the outline, without the colon. -/
def outlineHead (p : ProofTree) : String :=
  let via := "prove <" ++ p.claim.plain ++ "> via " ++ p.rule.name
  let uses := if p.rule = .assumption then " " ++ referenceText p.reference else ""
  let closes := if p.discharged.isEmpty then "" else ", discharging " ++ numbersText p.discharged
  via ++ uses ++ closes

mutual

/-- **The outline of a tree.** -/
def outline : ProofTree → String
  | ⟨claim, rule, premises, reference, discharges⟩ =>
    let head := outlineHead ⟨claim, rule, premises, reference, discharges⟩
    if premises.isEmpty then head
    else head ++ ":\n" ++ Text.indent "|   " (Text.joinLines (outlines premises))

/-- The outlines of a list of trees. -/
def outlines : List ProofTree → List String
  | [] => []
  | p :: ps => p.outline :: outlines ps

end

end ProofTree

end NaturalDeduction
