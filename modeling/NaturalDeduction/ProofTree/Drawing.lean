import NaturalDeduction.ProofTree

/-!
# Drawing proof trees

The plain drawing puts the conclusion first. Each premise hangs off a plus
sign, and a bar runs down past its own lines while a later premise of the
same node is still to come:

    A ∧ B → B ∧ A : 1
    + B ∧ A
      + B
      | + A ∧ B from: 1
      + A
        + A ∧ B from: 1

A node that discharges assumptions is marked with their numbers, and a leaf
names the number it uses.

The TeX drawing is a `prooftree` environment, in which premises come before
the inference that uses them. It has no numbers; the assumptions that the
tree discharges are in brackets.
-/

namespace NaturalDeduction.ProofTree

/-! ## Plain -/

/-- The node's own line of the drawing. -/
def plainLine (p : ProofTree) : String :=
  if p.rule = .assumption then p.claim.plain ++ " from: " ++ referenceText p.reference
  else if p.discharged.isEmpty then p.claim.plain
  else p.claim.plain ++ " : " ++ numbersText p.discharged

/-- The lines of a premise hung off its node; `last` says that no other
premise follows. -/
def hang (last : Bool) : List String → List String
  | [] => []
  | line :: rest => ("+ " ++ line) :: rest.map ((if last then "  " else "| ") ++ ·)

mutual

/-- The lines of the plain drawing. -/
def plainLines : ProofTree → List String
  | ⟨claim, rule, premises, reference, discharges⟩ =>
    plainLine ⟨claim, rule, premises, reference, discharges⟩ :: plainLinesBelow premises

/-- The lines of the premises of a node. -/
def plainLinesBelow : List ProofTree → List String
  | [] => []
  | p :: ps => hang ps.isEmpty p.plainLines ++ plainLinesBelow ps

end

/-- **The plain drawing** of a tree. -/
def drawPlain (p : ProofTree) : String :=
  Text.joinLines p.plainLines ++ "\n"

/-! ## TeX -/

/-- An inference with a number of premises that TeX has no command for. -/
structure UndrawableInference where
  /-- The number of premises. -/
  premises : Nat
deriving DecidableEq, Repr

/-- The number of premises. -/
def UndrawableInference.message (e : UndrawableInference) : String :=
  toString e.premises

/-- The command that draws an inference with a number of premises. -/
def inferenceCommand? : Nat → Option String
  | 1 => some "\\UnaryInfC"
  | 2 => some "\\BinaryInfC"
  | 3 => some "\\TrinaryInfC"
  | _ => none

/-- Two blanks for each level. -/
def texMargin (depth : Nat) : String :=
  String.ofList (List.replicate (2 * depth) ' ')

/-- A command with a formula for its argument. -/
def texFormula (command formula : String) : String :=
  command ++ "\x7b$" ++ formula ++ "$\x7d"

/-- The line of a leaf; an assumption that is discharged is in brackets. -/
def texLeaf (depth : Nat) (discharged : List Int) (claim : Formula) (reference : Option Int) :
    String :=
  let closed := match reference with
    | some n => discharged.contains n
    | none => false
  texMargin depth
    ++ texFormula "\\AxiomC" (if closed then "[" ++ claim.tex ++ "]" else claim.tex)

/-- The two lines of an inference. -/
def texInference (depth : Nat) (command : String) (rule : Rule) (claim : Formula) : List String :=
  [texMargin depth ++ "\\RightLabel\x7b\\scriptsize " ++ rule.texLabel ++ "\x7d",
    texMargin depth ++ texFormula command claim.tex]

mutual

/-- The lines of the TeX drawing of a tree at a level, when the numbers in
`closed` are discharged somewhere in the whole tree. -/
def texLines (closed : List Int) (depth : Nat) :
    ProofTree → Except UndrawableInference (List String)
  | ⟨claim, rule, premises, reference, _⟩ =>
    if rule = .assumption then .ok [texLeaf depth closed claim reference]
    else
      match texLinesOf closed (depth + 1) premises with
      | .error e => .error e
      | .ok above =>
        match inferenceCommand? premises.length with
        | some command => .ok (above ++ texInference depth command rule claim)
        | none => .error ⟨premises.length⟩

/-- The lines of a list of trees. -/
def texLinesOf (closed : List Int) (depth : Nat) :
    List ProofTree → Except UndrawableInference (List String)
  | [] => .ok []
  | p :: ps =>
    match p.texLines closed depth with
    | .error e => .error e
    | .ok here =>
      match texLinesOf closed depth ps with
      | .error e => .error e
      | .ok rest => .ok (here ++ rest)

end

/-- **The TeX drawing** of a tree. -/
def drawTex (p : ProofTree) : Except UndrawableInference String :=
  match p.texLines p.allDischarged 1 with
  | .error e => .error e
  | .ok body =>
    .ok (Text.joinLines
      ("\\begin\x7bprooftree\x7d" :: body ++ ["\\end\x7bprooftree\x7d"]) ++ "\n")

/-- The drawing of a tree in a style. -/
def draw (style : Style) (p : ProofTree) : Except UndrawableInference String :=
  match style with
  | .plain => .ok p.drawPlain
  | .tex => p.drawTex

end NaturalDeduction.ProofTree
