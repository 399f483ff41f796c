import NaturalDeduction.ProofTree

/-!
# Renumbering

The search hands out numbers as it goes, so the discharges of the tree it
finds have gaps and come in no particular order. Renumbering gives the
discharges that some leaf uses consecutive numbers, in the order in which
the tree is read, each node before its premises, and leaves out the others.
References to numbers that the tree does not discharge stay as they are.
-/

namespace NaturalDeduction.ProofTree

/-- The numbers the leaves refer to. -/
def referenced (p : ProofTree) : List Int :=
  p.leaves.filterMap (·.reference)

/-- A list with the first occurrence of each of its members. -/
def firstOccurrences : List Int → List Int
  | [] => []
  | n :: ns => n :: (firstOccurrences ns).filter (· ≠ n)

/-- The discharges that some leaf refers to, each once, in the order in
which the tree is read. -/
def bound (p : ProofTree) : List Int :=
  firstOccurrences (p.allDischarged.filter (p.referenced.contains ·))

/-- The new number of an old one: its place in `order`, counted from
`first`. -/
def newNumber? (first : Int) (order : List Int) (number : Int) : Option Int :=
  (order.idxOf? number).map fun i => first + i

mutual

/-- The tree with each reference that has a new number replaced by it, and
each discharge by its new number or nothing. -/
def mapNumbers (new : Int → Option Int) : ProofTree → ProofTree
  | ⟨claim, rule, premises, reference, discharges⟩ =>
    ⟨claim, rule, mapNumbersOf new premises,
      reference.map fun n => (new n).getD n,
      discharges.map fun slot => slot.bind new⟩

/-- A list of trees with their numbers replaced. -/
def mapNumbersOf (new : Int → Option Int) : List ProofTree → List ProofTree
  | [] => []
  | p :: ps => p.mapNumbers new :: mapNumbersOf new ps

end

/-- **The tree with its discharges renumbered** from `first` on. -/
def renumber (p : ProofTree) (first : Int) : ProofTree :=
  p.mapNumbers (newNumber? first p.bound)

end NaturalDeduction.ProofTree
