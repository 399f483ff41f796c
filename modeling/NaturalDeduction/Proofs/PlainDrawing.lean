import NaturalDeduction.Proofs.BranchBars

/-!
# What can be told from a plain drawing

A drawing shows a tree by two characters in front of each line, and everything
else is text. That nothing is lost by this has two parts. The first is about
the layout, whatever the lines say: the lines of a premise begin with a plus
sign and go on with blanks or bars, so below a node the next plus sign in the
first column is the next premise (`ProofTree.forall₂_of_plainLinesBelow_eq`).
The same drawing is therefore the same shape, with the same line at every place
(`ProofTree.plainLine_alike`). The second is about the line of one node, and is
`ProofTree.eq_of_plainLine_eq`.

What no line shows is lost: the rule of an inference, a slot that discharges
nothing, and numbers where they have no meaning (`ProofTree.ShowsAlike`).
-/

namespace NaturalDeduction.ProofTree

/-! ## Layout -/

/-- A line that a premise begins with. -/
def IsHung (line : String) : Prop :=
  line.toList.head? = some '+'

theorem isHung_of_mem_head? (ps : List ProofTree) :
    ∀ line ∈ (plainLinesBelow ps).head?, IsHung line := by
  cases ps with
  | nil => exact nofun
  | cons p ps =>
    intro line hline
    rw [plainLinesBelow, plainLines_eq_cons, hang, List.cons_append, List.head?_cons] at hline
    obtain rfl := Option.some.inj hline
    rw [IsHung, String.toList_append]
    rfl

/-- The lines of a premise after its first, with what is put in front of
them. -/
def indented (last : Bool) (rest : List String) : List String :=
  rest.map ((if last then "  " else "| ") ++ ·)

theorem not_isHung_of_mem_indented {last : Bool} {rest : List String} :
    ∀ line ∈ indented last rest, ¬ IsHung line := by
  intro line hline
  obtain ⟨inner, -, rfl⟩ := List.mem_map.mp hline
  cases last <;> simp [IsHung]

theorem eq_of_indented_eq {last last' : Bool} {rest rest' : List String}
    (h : indented last rest = indented last' rest') : rest = rest' := by
  have hdrop : ∀ (b : Bool) (ls : List String),
      (indented b ls).map (fun l => l.toList.drop 2) = ls.map String.toList := by
    intro b ls
    rw [indented, List.map_map]
    refine List.map_congr_left fun l _ => ?_
    cases b <;> simp
  have hlists := congrArg (List.map fun l => l.toList.drop 2) h
  rw [hdrop, hdrop] at hlists
  exact List.map_injective_iff.mpr (fun _ _ => String.toList_injective) hlists

/-- **Below a node, each premise can be told from the next.** -/
theorem forall₂_of_plainLinesBelow_eq {ps qs : List ProofTree}
    (h : plainLinesBelow ps = plainLinesBelow qs) :
    List.Forall₂ (fun p q => p.plainLines = q.plainLines) ps qs := by
  have hcons : ∀ (p : ProofTree) (ps : List ProofTree), plainLinesBelow (p :: ps)
      = ("+ " ++ p.plainLine) ::
        (indented ps.isEmpty (plainLinesBelow p.premises) ++ plainLinesBelow ps) := by
    intro p ps
    rw [plainLinesBelow, plainLines_eq_cons]
    rfl
  induction ps generalizing qs with
  | nil =>
    cases qs with
    | nil => exact .nil
    | cons q qs =>
      rw [hcons] at h
      cases h
  | cons p ps ih =>
    cases qs with
    | nil =>
      rw [hcons] at h
      cases h
    | cons q qs =>
      rw [hcons, hcons] at h
      obtain ⟨hfirst, hrest⟩ := List.cons.inj h
      -- the premise ends where the next line with a plus sign begins another
      obtain ⟨hinner, hlater⟩ := eq_of_append_eq not_isHung_of_mem_indented
        not_isHung_of_mem_indented (isHung_of_mem_head? ps) (isHung_of_mem_head? qs) hrest
      have hline : p.plainLine = q.plainLine := (String.append_right_inj "+ ").mp hfirst
      have hbelow : plainLinesBelow p.premises = plainLinesBelow q.premises :=
        eq_of_indented_eq hinner
      exact .cons (by rw [plainLines_eq_cons, plainLines_eq_cons, hline, hbelow]) (ih hlater)

theorem rel_getElem? {R : ProofTree → ProofTree → Prop} {ps qs : List ProofTree}
    (h : List.Forall₂ R ps qs) (i : Nat) : Option.Rel R ps[i]? qs[i]? := by
  induction h generalizing i with
  | nil => exact .none
  | cons hhead _ ih =>
    cases i with
    | zero => exact .some hhead
    | succ i => exact ih i

theorem rel_bind {R S : ProofTree → ProofTree → Prop} {a b : Option ProofTree}
    {f g : ProofTree → Option ProofTree} (h : Option.Rel R a b)
    (hfg : ∀ p q, R p q → Option.Rel S (f p) (g q)) : Option.Rel S (a.bind f) (b.bind g) := by
  cases h with
  | none => exact .none
  | some hpq => exact hfg _ _ hpq

/-- **The same lines are the same shape**, and the line of each node is the
same. -/
theorem plainLine_alike {p q : ProofTree} (h : p.plainLines = q.plainLines) (place : List Nat) :
    Option.Rel (fun a b => a.plainLine = b.plainLine) (p.nodeAt? place) (q.nodeAt? place) := by
  induction place generalizing p q with
  | nil =>
    rw [plainLines_eq_cons, plainLines_eq_cons] at h
    exact .some (List.cons.inj h).1
  | cons i place ih =>
    rw [plainLines_eq_cons, plainLines_eq_cons] at h
    have hpremises := forall₂_of_plainLinesBelow_eq (List.cons.inj h).2
    rw [nodeAt?, nodeAt?]
    exact rel_bind (rel_getElem? hpremises i) fun p' q' hlines => ih hlines

/-! ## What is shown -/

/-- **Two nodes that show the same.** -/
structure ShowsAlike (p q : ProofTree) : Prop where
  /-- They have the same claim. -/
  claim : p.claim = q.claim
  /-- Both are leaves or none is. -/
  leaf : p.rule = .assumption ↔ q.rule = .assumption
  /-- Leaves refer to the same number. -/
  reference : p.rule = .assumption → p.reference = q.reference
  /-- Inferences discharge the same numbers. -/
  discharged : p.rule ≠ .assumption → p.discharged = q.discharged

theorem showsAlike_of_note_eq {p q : ProofTree} (hclaim : p.claim = q.claim)
    (hnote : p.note = q.note) : ShowsAlike p q := by
  unfold note at hnote
  split at hnote
  case isTrue hp =>
    split at hnote
    case isTrue hq =>
      exact ⟨hclaim, iff_of_true hp hq, fun _ => Note.refers.inj hnote, fun h => absurd hp h⟩
    case isFalse => cases hnote
  case isFalse hp =>
    split at hnote
    case isTrue => cases hnote
    case isFalse hq =>
      exact ⟨hclaim, iff_of_false hp hq, fun h => absurd h hp, fun _ => Note.closes.inj hnote⟩

/-- **Nothing that a drawing shows is lost in it.** Two trees with the same
drawing have the same shape, and the nodes at each place show the same, if all
names in them can be read. -/
theorem drawPlain_injective {p q : ProofTree} (hp : p.Everywhere fun node => node.claim.Legible)
    (hq : q.Everywhere fun node => node.claim.Legible) (h : p.drawPlain = q.drawPlain)
    (place : List Nat) : Option.Rel ShowsAlike (p.nodeAt? place) (q.nodeAt? place) := by
  have honeLine : ∀ {r : ProofTree}, (r.Everywhere fun node => node.claim.Legible) →
      r.Everywhere fun node => Text.OneLine node.claim.plain :=
    fun hr place node hnode => Formula.oneLine_plain (hr place node hnode)
  have hlines := congrArg Text.lines h
  rw [lines_drawPlain (honeLine hp), lines_drawPlain (honeLine hq)] at hlines
  have hrel := plainLine_alike (List.append_cancel_right hlines) place
  match hpnode : p.nodeAt? place, hqnode : q.nodeAt? place, hrel with
  | none, none, .none => exact .none
  | some a, some b, .some hline =>
    obtain ⟨hclaim, hnote⟩ := eq_of_plainLine_eq (hp place a hpnode) (hq place b hqnode) hline
    exact .some (showsAlike_of_note_eq hclaim hnote)

/-- A proof of `A ∧ A → A`, by one of the two rules that lead from `A ∧ A` to
`A`. -/
def halfTree (rule : Rule) (reference : Option Int) (slots : List (Option Int)) : ProofTree :=
  ⟨.imp (.and (.atom "A") (.atom "A")) (.atom "A"), .impIntro,
    [⟨.atom "A", rule, [.ofAssumption ⟨.and (.atom "A") (.atom "A"), 1⟩], reference, slots⟩],
    none, [some 1]⟩

/-- Which of the two rules it is cannot be told, nor what has no meaning. -/
theorem drawPlain_injective_halfTree :
    halfTree .andElimLeft none [] ≠ halfTree .andElimRight (some 7) [none]
    ∧ (halfTree .andElimLeft none []).drawPlain
      = (halfTree .andElimRight (some 7) [none]).drawPlain
    ∧ ∀ place, Option.Rel ShowsAlike ((halfTree .andElimLeft none []).nodeAt? place)
      ((halfTree .andElimRight (some 7) [none]).nodeAt? place) := by
  have hsame : (halfTree .andElimLeft none []).drawPlain
      = (halfTree .andElimRight (some 7) [none]).drawPlain := by decide +kernel
  exact ⟨by decide, hsame, drawPlain_injective (everywhere_iff_nodes.mpr (by decide +kernel))
    (everywhere_iff_nodes.mpr (by decide +kernel)) hsame⟩

end NaturalDeduction.ProofTree
