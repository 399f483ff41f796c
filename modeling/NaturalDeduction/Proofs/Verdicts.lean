import NaturalDeduction.Proofs.SearchSoundness
import NaturalDeduction.Proofs.TruthTables

/-!
# Verdicts and truth

A request is answered by parts that know nothing of each other: the reader,
the search, the check of what the search found, and the truth table that is
consulted when it found nothing. What an answer says about the formula that
was read is true all the same. What is proved is a tautology, as the check
is sound, and a counterexample is false under its valuation, so that no two
budgets can lead to both. If the search is given up and there were enough
steps to try every valuation, the formula is a tautology that was not proved.
-/

namespace NaturalDeduction

/-! ## What is accepted is true -/

/-- **What is accepted with nothing assumed is a tautology.** -/
theorem ProofTree.isTautology_of_check {p : ProofTree} (h : p.check .empty = .ok ()) :
    p.claim.IsTautology := by
  refine Formula.isTautology_iff_truth.mpr fun value => ?_
  exact (isDerivation_of_check h).truth fun f hf => absurd hf List.not_mem_nil

/-- A tautology is false under no valuation. -/
theorem Formula.IsTautology.evaluate_ne_false {f : Formula} (h : f.IsTautology) (v : Valuation) :
    f.evaluate v ≠ .ok false := by
  intro hfalse
  have htruth := truth_of_evaluate hfalse
  rw [isTautology_iff_truth.mp h] at htruth
  cases htruth

/-! ## What a request comes to -/

/-- What the search finds with nothing assumed is accepted. -/
theorem Search.check_of_result_empty {f : Formula} {budget : Budget} {p : ProofTree}
    (h : (search f .empty budget).result = .ok p) : p.claim = f ∧ p.check .empty = .ok () := by
  have hempty : Context.empty.numbers.Nodup := List.nodup_nil
  obtain ⟨hclaim, hcheck, -⟩ := check_of_result hempty h
  exact ⟨hclaim, hcheck⟩

/-- A limit that is in range is the number of valuations tried. -/
theorem Formula.refute_of_refuteWithin {f : Formula} {limit : Int} {found : Option Counterexample}
    (h : f.refuteWithin limit = .ok found) : f.refute (some limit.toNat) = found := by
  unfold refuteWithin at h
  rcases hlimit : checkLimit limit with e | n <;> rw [hlimit] at h
  · cases h
  · unfold checkLimit at hlimit
    split at hlimit
    · obtain rfl := Except.ok.inj hlimit
      exact Except.ok.inj h
    · cases hlimit

theorem exists_refuteWithin_eq_ok (f : Formula) {limit : Int} (hnonneg : 0 ≤ limit)
    (hbound : limit < limitBound) : ∃ found, f.refuteWithin limit = .ok found := by
  rw [Formula.refuteWithin, checkLimit, if_pos ⟨hnonneg, hbound⟩]
  exact ⟨_, rfl⟩

theorem solve_of_parse {text : String} {f : Formula} (h : Formula.parse text = .ok f)
    (budget : Budget) : solve text budget = Outcome.ofReport (search f .empty budget) := by
  rw [solve, consult, h]

/-- A proof that the search found is accepted, and is what comes of the request. -/
theorem Outcome.ofReport_of_result_ok {f : Formula} {budget : Budget} {p : ProofTree}
    (h : (search f .empty budget).result = .ok p) :
    ofReport (search f .empty budget) = .ok (.proved p) := by
  obtain ⟨-, hcheck⟩ := Search.check_of_result_empty h
  rw [ofReport, h]
  dsimp only
  rw [hcheck]

/-- **A request comes to something**, if its steps can be counted as
valuations. -/
theorem exists_solve_eq_ok (text : String) {budget : Budget}
    (hbound : (budget.maxSteps : Int) < limitBound) :
    ∃ outcome, solve text budget = .ok outcome := by
  cases hparse : Formula.parse text with
  | error e => exact ⟨.unreadable e, by rw [solve, consult, hparse]⟩
  | ok f =>
    rw [solve_of_parse hparse]
    cases hresult : (search f .empty budget).result with
    | ok p => exact ⟨.proved p, Outcome.ofReport_of_result_ok hresult⟩
    | error e =>
      obtain ⟨found, hfound⟩ :=
        exists_refuteWithin_eq_ok f (Int.natCast_nonneg budget.maxSteps) hbound
      rw [Outcome.ofReport, hresult, show (search f .empty budget).goal = f from rfl,
        show (search f .empty budget).budget = budget from rfl, hfound]
      cases found <;> exact ⟨_, rfl⟩

/-- **What a request for a formula can come to** within a budget. -/
inductive Answers (f : Formula) (budget : Budget) : Outcome → Prop where
  /-- The search found a proof, and it was accepted. -/
  | proved {p : ProofTree} (hresult : (search f .empty budget).result = .ok p)
      (hcheck : p.check .empty = .ok ()) : Answers f budget (.proved p)
  /-- A valuation that was tried makes the formula false. -/
  | refuted {c : Counterexample} (hrefute : f.refute (some budget.maxSteps) = some c) :
      Answers f budget (.refuted c)
  /-- The search found nothing, and no valuation that was tried makes the
  formula false. -/
  | exhausted {e : Exhausted} (hresult : (search f .empty budget).result = .error e)
      (hrefute : f.refute (some budget.maxSteps) = none) : Answers f budget (.exhausted e)

theorem Outcome.answers_of_ofReport {f : Formula} {budget : Budget} {outcome : Outcome}
    (h : ofReport (search f .empty budget) = .ok outcome) : Answers f budget outcome := by
  have hrefute : ∀ found, f.refuteWithin budget.maxSteps = .ok found →
      f.refute (some budget.maxSteps) = found := fun _ => Formula.refute_of_refuteWithin
  rw [ofReport, show (search f .empty budget).goal = f from rfl,
    show (search f .empty budget).budget = budget from rfl] at h
  -- the limit on valuations is a large numeral, which nothing here may unfold
  generalize f.refuteWithin budget.maxSteps = refuted at h hrefute
  rcases hresult : (search f .empty budget).result with e | p <;> rw [hresult] at h
  · rcases refuted with limit | _ | c
    · cases h
    · cases h
      exact .exhausted hresult (hrefute none rfl)
    · cases h
      exact .refuted (hrefute (some c) rfl)
  · dsimp only at h
    rcases hcheck : p.check .empty with v | _ <;> rw [hcheck] at h
    · cases h
    · cases h
      exact .proved hresult hcheck

/-- **A request comes to nothing else**: if the text is readable, what comes of
it is about the formula that it spells. -/
theorem answers_of_solve {text : String} {budget : Budget} {outcome : Outcome}
    (h : solve text budget = .ok outcome) (hreadable : ∀ e, outcome ≠ .unreadable e) :
    ∃ f, Formula.parse text = .ok f ∧ Answers f budget outcome := by
  rw [solve, consult] at h
  rcases hparse : Formula.parse text with e | f <;> rw [hparse] at h
  · exact absurd (Except.ok.inj h).symm (hreadable e)
  · exact ⟨f, rfl, Outcome.answers_of_ofReport h⟩

section Verdicts

variable {f : Formula} {budget : Budget}

theorem Answers.of_proved {p : ProofTree} (h : Answers f budget (.proved p)) :
    p.claim = f ∧ f.IsTautology := by
  cases h with
  | proved hresult hcheck =>
    obtain ⟨rfl, -⟩ := Search.check_of_result_empty hresult
    exact ⟨rfl, p.isTautology_of_check hcheck⟩

theorem Answers.of_refuted {c : Counterexample} (h : Answers f budget (.refuted c)) :
    c.formula = f ∧ c.valuation.map Prod.fst = f.atoms ∧ f.evaluate c.valuation = .ok false := by
  cases h with
  | refuted hrefute => exact Formula.refute_eq_some hrefute

theorem Answers.of_exhausted {e : Exhausted} (h : Answers f budget (.exhausted e))
    (hsteps : 2 ^ f.atoms.length ≤ budget.maxSteps) : f.IsTautology := by
  cases h with
  | exhausted _ hrefute => exact Formula.isTautology_of_refute_eq_none hrefute hsteps

end Verdicts

/-- **Verdicts agree with truth and with each other.** There is a verdict, if the
steps can be counted as valuations. A proof is of the formula that the text
spells, which is then a tautology, and is not refuted within any budget. A
counterexample gives a value to each atom of the formula and to nothing else
and makes it false, and no tree that claims the formula is accepted. A search
that is given up leaves a tautology, if there were as many steps as
valuations. -/
theorem solve_agrees_with_truth (text : String) (budget budget' : Budget) :
    ((budget.maxSteps : Int) < limitBound → ∃ outcome, solve text budget = .ok outcome)
    ∧ (∀ p, solve text budget = .ok (.proved p) →
      Formula.parse text = .ok p.claim ∧ p.claim.IsTautology
        ∧ ∀ c, solve text budget' ≠ .ok (.refuted c))
    ∧ (∀ c, solve text budget = .ok (.refuted c) →
      Formula.parse text = .ok c.formula
        ∧ c.valuation.map Prod.fst = c.formula.atoms
        ∧ c.formula.evaluate c.valuation = .ok false
        ∧ ∀ p : ProofTree, p.claim = c.formula → p.check .empty ≠ .ok ())
    ∧ ∀ e, solve text budget = .ok (.exhausted e) →
      ∃ f, Formula.parse text = .ok f
        ∧ (2 ^ f.names.toFinset.card ≤ budget.maxSteps → f.IsTautology) := by
  refine ⟨exists_solve_eq_ok text, fun p hp => ?_, fun c hc => ?_, fun e he => ?_⟩
  · obtain ⟨f, hparse, hanswers⟩ := answers_of_solve hp nofun
    obtain ⟨rfl, htautology⟩ := hanswers.of_proved
    refine ⟨hparse, htautology, fun c hc => ?_⟩
    obtain ⟨f, hparse', hanswers'⟩ := answers_of_solve hc nofun
    obtain rfl := Except.ok.inj (hparse.symm.trans hparse')
    exact htautology.evaluate_ne_false _ hanswers'.of_refuted.2.2
  · obtain ⟨f, hparse, hanswers⟩ := answers_of_solve hc nofun
    obtain ⟨rfl, hatoms, hfalse⟩ := hanswers.of_refuted
    refine ⟨hparse, hatoms, hfalse, fun p hclaim hcheck => ?_⟩
    exact (hclaim ▸ p.isTautology_of_check hcheck).evaluate_ne_false _ hfalse
  · obtain ⟨f, hparse, hanswers⟩ := answers_of_solve he nofun
    refine ⟨f, hparse, fun hsteps => hanswers.of_exhausted ?_⟩
    rwa [f.length_atoms]

/-- `A ∧ B → B` is proved, `A → B` is refuted, and `((A → B) → A) → A` is
neither, although all of its four valuations were tried. -/
theorem solve_agrees_with_truth_each :
    (∃ p, solve "A and B -> B" { maxDepth := 5, maxSteps := 20 } = .ok (.proved p)
      ∧ p.claim.IsTautology
      ∧ ∀ c, solve "A and B -> B" { maxDepth := 1, maxSteps := 4 } ≠ .ok (.refuted c))
    ∧ (∃ c, solve "A -> B" { maxDepth := 5, maxSteps := 20 } = .ok (.refuted c)
      ∧ ∀ p : ProofTree, p.claim = c.formula → p.check .empty ≠ .ok ())
    ∧ ∃ e f, solve "((A -> B) -> A) -> A" { maxDepth := 8, maxSteps := 20 } = .ok (.exhausted e)
      ∧ Formula.parse "((A -> B) -> A) -> A" = .ok f ∧ f.IsTautology := by
  have hproved : solve "A and B -> B" { maxDepth := 5, maxSteps := 20 } =
      .ok (.proved ⟨.imp (.and (.atom "A") (.atom "B")) (.atom "B"), .impIntro,
        [.infer (.atom "B") .andElimRight [.ofAssumption ⟨.and (.atom "A") (.atom "B"), 1⟩]],
        none, [some 1]⟩) := by
    decide +kernel
  have hrefuted : solve "A -> B" { maxDepth := 5, maxSteps := 20 } =
      .ok (.refuted ⟨.imp (.atom "A") (.atom "B"), [("A", true), ("B", false)]⟩) := by
    decide +kernel
  have hexhausted : solve "((A -> B) -> A) -> A" { maxDepth := 8, maxSteps := 20 } =
      .ok (.exhausted
        ⟨.imp (.imp (.imp (.atom "A") (.atom "B")) (.atom "A")) (.atom "A"), .rules⟩) := by
    decide +kernel
  have hparse : Formula.parse "((A -> B) -> A) -> A" =
      .ok (.imp (.imp (.imp (.atom "A") (.atom "B")) (.atom "A")) (.atom "A")) := by
    decide +kernel
  obtain ⟨-, htautology, hagree⟩ := (solve_agrees_with_truth _ _
    { maxDepth := 1, maxSteps := 4 }).2.1 _ hproved
  obtain ⟨-, -, -, hnone⟩ := (solve_agrees_with_truth _ _ .standard).2.2.1 _ hrefuted
  obtain ⟨f, hf, hsteps⟩ := (solve_agrees_with_truth _ _ .standard).2.2.2 _ hexhausted
  obtain rfl := Except.ok.inj (hf.symm.trans hparse)
  exact ⟨⟨_, hproved, htautology, hagree⟩, ⟨_, hrefuted, hnone⟩,
    ⟨_, _, hexhausted, hparse, hsteps (by decide +kernel)⟩⟩

end NaturalDeduction
