import NaturalDeduction.Proofs.CheckSpecification
import NaturalDeduction.Proofs.Verdicts

/-!
# Every request has a reply, or its steps are too many to count

A request passes through the reader, the search, the check, the truth table
and the drawing, and each of them can refuse what it is given. Here they are
given what the one before has made, and this is nearly always enough. The
check accepts what the search found; a valuation that is tried has a value for
each atom; and an inference that has the shape of its rule has as many premises
as can be drawn.

What is left is the limit on valuations. It is the number of steps that the
search was allowed, and this has no upper bound, while valuations are counted
below `limitBound`. A readable text for which the search finds nothing, with
more steps than that, has no outcome and no reply (`Uncounted`), and every
other request has both (`exists_solve_of_not_uncounted`,
`exists_respond_of_solve`).
-/

namespace NaturalDeduction

/-! ## Drawing -/

namespace ProofTree

theorem texLinesOf_eq_ok {closed : List Int} {depth : Nat} {ps : List ProofTree}
    (h : ∀ p ∈ ps, ∃ lines, p.texLines closed depth = .ok lines) :
    ∃ lines, texLinesOf closed depth ps = .ok lines := by
  induction ps with
  | nil => exact ⟨[], rfl⟩
  | cons p ps ih =>
    rw [List.forall_mem_cons] at h
    obtain ⟨here, hhere⟩ := h.1
    obtain ⟨rest, hrest⟩ := ih h.2
    exact ⟨here ++ rest, by rw [texLinesOf, hhere, hrest]⟩

/-- There is a command for every inference that has the shape of its rule. -/
theorem HasShape.inferenceCommand {p : ProofTree} (h : p.HasShape) (hrule : p.rule ≠ .assumption) :
    ∃ command, inferenceCommand? p.premises.length = some command := by
  cases h with
  | assumption => exact absurd rfl hrule
  | _ => exact ⟨_, rfl⟩

theorem texLines_eq_ok {p : ProofTree}
    (h : ∀ place node, p.nodeAt? place = some node → node.HasShape) (closed : List Int)
    (depth : Nat) : ∃ lines, p.texLines closed depth = .ok lines := by
  induction p using ProofTree.induction generalizing depth with
  | node p ih =>
    have hshape : p.HasShape := h [] p rfl
    have hpremises : ∃ lines, texLinesOf closed (depth + 1) p.premises = .ok lines := by
      refine texLinesOf_eq_ok fun q hq => ih q hq (fun place node hnode => ?_) (depth + 1)
      obtain ⟨i, hi⟩ := List.mem_iff_getElem?.mp hq
      exact h (i :: place) node (nodeAt?_cons_eq_some_iff.mpr ⟨q, hi, hnode⟩)
    have hcommand := hshape.inferenceCommand
    obtain ⟨claim, rule, premises, reference, discharges⟩ := p
    rw [texLines]
    split
    · exact ⟨_, rfl⟩
    · rename_i hrule
      obtain ⟨lines, hlines⟩ := hpremises
      obtain ⟨command, hcommand⟩ := hcommand hrule
      dsimp only at hlines hcommand
      exact ⟨_, by rw [hlines, hcommand]⟩

/-- **A tree can be drawn** in either style if its nodes have their shapes. -/
theorem draw_eq_ok {p : ProofTree}
    (h : ∀ place node, p.nodeAt? place = some node → node.HasShape) (style : Style) :
    ∃ drawing, p.draw style = .ok drawing := by
  cases style with
  | plain => exact ⟨_, rfl⟩
  | tex =>
    obtain ⟨lines, hlines⟩ := texLines_eq_ok h p.allDischarged 1
    exact ⟨_, by rw [draw, drawTex, hlines]⟩

theorem hasShape_of_check {p : ProofTree} {ctx : Context} (h : p.check ctx = .ok ()) :
    ∀ place node, p.nodeAt? place = some node → node.HasShape :=
  (isDerivation_iff_grounded.mp (isDerivation_of_check h)).shape

end ProofTree

/-! ## Trying valuations -/

theorem Valuation.lookup_ofIndex_isSome {names : List String} {name : String} (h : name ∈ names)
    (index : Nat) : ((ofIndex names index).lookup name).isSome := by
  rw [← map_fst_ofIndex names index, List.mem_map] at h
  obtain ⟨⟨_, value⟩, hmem, rfl⟩ := h
  exact List.lookup_isSome_iff.mpr ⟨_, hmem, beq_self_eq_true _⟩

/-- **No valuation that is tried lacks a value** that evaluation gets to. -/
theorem Formula.evaluate_ofIndex (f : Formula) (index : Nat) :
    ∃ value, f.evaluate (.ofIndex f.atoms index) = .ok value :=
  ⟨_, evaluate_eq_truth fun _ hname => Valuation.lookup_ofIndex_isSome hname index⟩

/-- A limit beyond what can be counted is refused. -/
theorem Formula.refuteWithin_eq_error (f : Formula) {limit : Int} (h : limitBound ≤ limit) :
    f.refuteWithin limit = .error ⟨limit⟩ := by
  rw [refuteWithin, checkLimit, if_neg fun hlimit => Int.not_lt.mpr h hlimit.2]

/-! ## Outcomes -/

/-- **A request whose steps are too many to count**: the text is readable, the
search finds nothing, and it was allowed more steps than valuations are
counted. -/
def Uncounted (text : String) (budget : Budget) : Prop :=
  limitBound ≤ budget.maxSteps ∧
    ∃ f e, Formula.parse text = .ok f ∧ (search f .empty budget).result = .error e

theorem Outcome.ofReport_of_uncounted {f : Formula} {budget : Budget} {e : Exhausted}
    (h : (search f .empty budget).result = .error e) (hbound : limitBound ≤ budget.maxSteps) :
    ofReport (search f .empty budget) = .error (.limit ⟨budget.maxSteps⟩) := by
  have hrefute := f.refuteWithin_eq_error hbound
  rw [ofReport, h, show (search f .empty budget).goal = f from rfl,
    show (search f .empty budget).budget = budget from rfl, hrefute]

/-- Too many steps to count leave a request without an outcome. -/
theorem solve_eq_error_of_uncounted {text : String} {budget : Budget} (h : Uncounted text budget) :
    solve text budget = .error (.limit ⟨budget.maxSteps⟩) := by
  obtain ⟨hbound, f, e, hparse, hresult⟩ := h
  rw [solve_of_parse hparse, Outcome.ofReport_of_uncounted hresult hbound]

/-- **Nothing else leaves a request without an outcome.** -/
theorem exists_solve_of_not_uncounted {text : String} {budget : Budget}
    (h : ¬ Uncounted text budget) : ∃ outcome, solve text budget = .ok outcome := by
  by_cases hbound : (budget.maxSteps : Int) < limitBound
  · exact exists_solve_eq_ok text hbound
  · cases hparse : Formula.parse text with
    | error e => exact ⟨.unreadable e, by rw [solve, consult, hparse]⟩
    | ok f =>
      rw [solve_of_parse hparse]
      cases hresult : (search f .empty budget).result with
      | ok p => exact ⟨.proved p, Outcome.ofReport_of_result_ok hresult⟩
      | error e => exact absurd ⟨Int.not_lt.mp hbound, f, e, hparse, hresult⟩ h

/-! ## Replies -/

/-- An outcome leads to a reply, if the proof can be drawn where there is one. -/
theorem Reply.ofOutcome_eq_ok (style : Style) (text : String) {outcome : Outcome}
    (hdraw : ∀ p, outcome = .proved p → ∃ drawing, p.draw style = .ok drawing) :
    ∃ reply, ofOutcome style text (.ok outcome) = .ok reply
      ∧ (reply.proved ↔ ∃ p, outcome = .proved p) := by
  cases outcome with
  | proved p =>
    obtain ⟨drawing, hdrawing⟩ := hdraw p rfl
    refine ⟨⟨true, drawing⟩, ?_, by simp⟩
    rw [ofOutcome, Outcome.describe]
    dsimp only
    rw [hdrawing]
  | unreadable e => exact ⟨_, rfl, by simp⟩
  | refuted c => exact ⟨_, rfl, by simp⟩
  | exhausted e => exact ⟨_, rfl, by simp⟩

theorem exists_respond_of_solve {text : String} {budget : Budget} {outcome : Outcome}
    (h : solve text budget = .ok outcome) (style : Style) :
    ∃ reply, respond text style budget = .ok reply
      ∧ (reply.proved ↔ ∃ p, outcome = .proved p) := by
  rw [respond, h]
  refine Reply.ofOutcome_eq_ok style text ?_
  rintro p rfl
  obtain ⟨f, -, hanswers⟩ := answers_of_solve h nofun
  cases hanswers with
  | proved _ hcheck => exact ProofTree.draw_eq_ok (ProofTree.hasShape_of_check hcheck) style

theorem respond_eq_error_of_uncounted {text : String} {budget : Budget}
    (h : Uncounted text budget) (style : Style) :
    respond text style budget = .error (.limit ⟨budget.maxSteps⟩) := by
  rw [respond, solve_eq_error_of_uncounted h]
  rfl

theorem Budget.exists_ofLimits_eq_ok {maxDepth maxSteps : Int} (hdepth : 1 ≤ maxDepth)
    (hsteps : 1 ≤ maxSteps) :
    ∃ budget, ofLimits maxDepth maxSteps = .ok budget ∧ (budget.maxSteps : Int) = maxSteps := by
  refine ⟨⟨maxDepth.toNat, maxSteps.toNat, by omega, by omega⟩, ?_, Int.toNat_of_nonneg (by omega)⟩
  rw [ofLimits, dif_pos (by omega)]

/-- **Every request has an outcome and a reply, or its steps are too many to
count.** Positive limits make a budget. Unless the request is one of those,
it has an outcome and a reply, which says that there is a proof if there is
one; and if it is, the limit is refused. Nothing else can go wrong on the way:
every valuation that may be tried settles the formula, and the check finds the
scopes of every node of a proof. How deep the calls of a search may nest is not
limited here. -/
theorem exists_budget_respond (text : String) (style : Style) {maxDepth maxSteps : Int}
    (hdepth : 1 ≤ maxDepth) (hsteps : 1 ≤ maxSteps) :
    ∃ budget, Budget.ofLimits maxDepth maxSteps = .ok budget
      ∧ (¬ Uncounted text budget →
        ∃ outcome reply, solve text budget = .ok outcome ∧ respond text style budget = .ok reply
          ∧ (reply.proved ↔ ∃ p, outcome = .proved p))
      ∧ (Uncounted text budget →
        solve text budget = .error (.limit ⟨maxSteps⟩)
          ∧ respond text style budget = .error (.limit ⟨maxSteps⟩))
      ∧ ∀ f, Formula.parse text = .ok f →
        (∀ index, ∃ value, f.evaluate (.ofIndex f.atoms index) = .ok value)
          ∧ ∀ p, (search f .empty budget).result = .ok p →
            ∀ place node, p.nodeAt? place = some node → node.scopes?.isSome := by
  obtain ⟨budget, hbudget, rfl⟩ := Budget.exists_ofLimits_eq_ok hdepth hsteps
  refine ⟨budget, hbudget, fun hcounted => ?_, fun huncounted =>
    ⟨solve_eq_error_of_uncounted huncounted, respond_eq_error_of_uncounted huncounted style⟩,
    fun f _ => ⟨f.evaluate_ofIndex, fun p hresult place node hnode => ?_⟩⟩
  · obtain ⟨outcome, hsolve⟩ := exists_solve_of_not_uncounted hcounted
    obtain ⟨reply, hrespond, hproved⟩ := exists_respond_of_solve hsolve style
    exact ⟨outcome, reply, hsolve, hrespond, hproved⟩
  · obtain ⟨-, hcheck⟩ := Search.check_of_result_empty hresult
    exact (ProofTree.hasShape_of_check hcheck place node hnode).scopes_isSome

theorem limitBound_eq : limitBound = 9223372036854775808 := rfl

/-- `A → A` is proved, with one step more than valuations can be counted. -/
theorem exists_budget_respond_identity :
    ∃ budget, Budget.ofLimits 2 9223372036854775808 = .ok budget
      ∧ ∃ reply, respond "A -> A" .tex budget = .ok reply ∧ reply.proved := by
  obtain ⟨budget, hbudget, hcounted, -, -⟩ := exists_budget_respond "A -> A" .tex
    (by decide : (1 : Int) ≤ 2) (by decide : (1 : Int) ≤ 9223372036854775808)
  obtain rfl : { maxDepth := 2, maxSteps := 9223372036854775808 } = budget :=
    Except.ok.inj hbudget
  have hproved : solve "A -> A" { maxDepth := 2, maxSteps := 9223372036854775808 } =
      .ok (.proved ⟨.imp (.atom "A") (.atom "A"), .impIntro, [.ofAssumption ⟨.atom "A", 1⟩], none,
        [some 1]⟩) := by
    decide +kernel
  obtain ⟨outcome, reply, hsolve, hrespond, hiff⟩ := hcounted fun h => by
    rw [solve_eq_error_of_uncounted h] at hproved
    cases hproved
  obtain rfl := Except.ok.inj (hproved.symm.trans hsolve)
  exact ⟨_, hbudget, reply, hrespond, hiff.mpr ⟨_, rfl⟩⟩

/-- **A request without a reply**: `A` is not proved, and with so many steps it is
not refuted either. -/
theorem respond_atom_uncounted :
    solve "A" { maxDepth := 32, maxSteps := 9223372036854775808 }
        = .error (.limit ⟨9223372036854775808⟩)
      ∧ respond "A" .plain { maxDepth := 32, maxSteps := 9223372036854775808 }
        = .error (.limit ⟨9223372036854775808⟩) := by
  have huncounted : Uncounted "A" { maxDepth := 32, maxSteps := 9223372036854775808 } :=
    ⟨limitBound_eq.le, .atom "A", ⟨.atom "A", .rules⟩, by decide +kernel, by decide +kernel⟩
  exact ⟨solve_eq_error_of_uncounted huncounted, respond_eq_error_of_uncounted huncounted .plain⟩

end NaturalDeduction
