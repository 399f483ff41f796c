import NaturalDeduction.Proofs.SearchTermination

/-!
# More assumptions lose nothing

An assumption more can stand in the way of a search. A disjunction is not
split once one of its sides is assumed, a goal that was new under one set of
formulas may be pending under another, and what is assumed twice or in
another order is taken apart in another order. So the proof found from some
assumptions need not be found from more of them, and the search that has more
of them may spend its steps on other things first.

That there is a proof within the depth allowed does not depend on any of
this. Derivability within a depth is about the set of the formulas assumed
and grows with it (`Derivable.mono`), and a search with enough steps finds
something exactly if there is something to be found within its depth
(`Search.exists_result_of_derivable`). So whatever order and number the
assumptions come in, a goal that was proved stays provable within the same
depth, by another proof if need be.
-/

open Filter

namespace NaturalDeduction

namespace Search

section Passes

variable {goal : Formula} {ctx : Context} {budget : Budget}

/-- **Passes that never run out of steps and find nothing** end with one that
fails and either has the largest depth limit or was not cut off. -/
theorem exists_passFails_of_passes_error {remaining n : Nat} {e : Exhausted}
    (hpos : 0 < remaining)
    (hsteps : ∀ k ≤ n + remaining, (afterPasses goal ctx budget k).tally.outOfSteps = false)
    (h : (passes goal ctx remaining (n + 1) (afterPasses goal ctx budget n)).1 = .error e) :
    ∃ m, PassFails goal ctx budget m
      ∧ (m + 1 < n + remaining → (afterPasses goal ctx budget (m + 1)).tally.cutOff = false) := by
  induction remaining generalizing n with
  | zero => exact absurd hpos (lt_irrefl 0)
  | succ remaining ih =>
    rw [passes_succ] at h
    rcases hpass : passResult goal ctx budget n with e' | q <;> rw [hpass] at h
    · have hleft := hsteps (n + 1) (by omega)
      have hfails : PassFails goal ctx budget n := ⟨⟨e', hpass⟩, hleft⟩
      dsimp only at h
      rw [if_neg (Bool.eq_false_iff.mp hleft)] at h
      split at h
      · -- the pass was cut off: it was the last one, or the next one is made
        cases remaining with
        | zero => exact ⟨n, hfails, fun hlt => absurd hlt (lt_irrefl _)⟩
        | succ remaining =>
          rw [show n + (remaining + 1 + 1) = n + 1 + (remaining + 1) by omega] at hsteps ⊢
          exact ih (Nat.succ_pos remaining) hsteps h
      · rename_i hcut
        exact ⟨n, hfails, fun _ => Bool.eq_false_iff.mpr hcut⟩
    · cases h

/-- **A search that never runs out of steps finds what there is** within its
depth. -/
theorem exists_result_of_derivable
    (hsteps : ∀ k ≤ budget.maxDepth, (afterPasses goal ctx budget k).tally.outOfSteps = false)
    (hd : Derivable budget.maxDepth ctx.formulas.toFinset goal) :
    ∃ p, (search goal ctx budget).result = .ok p := by
  rw [result_eq]
  rcases hpasses : (passes goal ctx budget.maxDepth (0 + 1) (afterPasses goal ctx budget 0)).1
    with e | raw
  · rw [← Nat.zero_add budget.maxDepth] at hsteps
    obtain ⟨m, hfails, hcut⟩ :=
      exists_passFails_of_passes_error budget.maxDepth_pos hsteps hpasses
    rw [Nat.zero_add] at hcut
    exact absurd hd (hfails.not_derivable hcut)
  · exact ⟨raw.renumber (ctx.maxNumber + 1), rfl⟩

/-- **Enough steps** for the passes up to some depth. -/
theorem exists_enough_steps (goal : Formula) (ctx : Context) (maxDepth : Nat) :
    ∃ enough, ∀ budget : Budget, enough ≤ budget.maxSteps → ∀ k ≤ maxDepth,
      (afterPasses goal ctx budget k).tally.outOfSteps = false := by
  have hsettled : ∀ᶠ maxSteps in atTop, ∀ k ∈ Finset.range (maxDepth + 1),
      ∀ budget : Budget, budget.maxSteps = maxSteps →
        (afterPasses goal ctx budget k).tally.outOfSteps = false := by
    refine (eventually_all_finset _).mpr fun k _ => ?_
    obtain ⟨t, ht, htally⟩ := afterPasses_settles goal ctx k
    exact htally.mono fun _ h budget hbudget => h budget hbudget ▸ ht
  obtain ⟨enough, henough⟩ := eventually_atTop.mp hsettled
  exact ⟨enough, fun budget hle k hk =>
    henough budget.maxSteps hle k (Finset.mem_range.mpr (Nat.lt_succ_of_le hk)) budget rfl⟩

/-- What a search has found is derivable within its depth. -/
theorem derivable_of_result {p : ProofTree} (h : (search goal ctx budget).result = .ok p) :
    Derivable budget.maxDepth ctx.formulas.toFinset goal := by
  obtain ⟨n, raw, hfound, -⟩ := exists_foundIn h
  exact hfound.isLeast.1.mono_depth hfound.withinBudget

end Passes

/-- **More assumptions lose nothing.** A goal that was proved from some
assumptions is proved from any others that have their formulas among them,
in whatever order, number and numbering, within the same depth, given enough
steps. -/
theorem search_mono_assumptions {goal : Formula} {ctx ctx' : Context} {budget : Budget}
    {p : ProofTree} (hsub : ctx.formulas ⊆ ctx'.formulas)
    (h : (search goal ctx budget).result = .ok p) :
    ∃ enough, ∀ budget' : Budget, budget'.maxDepth = budget.maxDepth →
      enough ≤ budget'.maxSteps → ∃ q, (search goal ctx' budget').result = .ok q := by
  have hmore : Derivable budget.maxDepth ctx'.formulas.toFinset goal :=
    (derivable_of_result h).mono le_rfl fun f hf =>
      List.mem_toFinset.mpr (hsub (List.mem_toFinset.mp hf))
  obtain ⟨enough, henough⟩ := exists_enough_steps goal ctx' budget.maxDepth
  refine ⟨enough, fun budget' hdepth hsteps => ?_⟩
  rw [← hdepth] at henough hmore
  exact exists_result_of_derivable (henough budget' hsteps) hmore

/-- Two implications with one conclusion, and the disjunction of what they ask
for. -/
def dilemma : Context :=
  ⟨[⟨.or (.atom "A") (.atom "B"), 1⟩, ⟨.imp (.atom "A") (.atom "C"), 2⟩,
    ⟨.imp (.atom "B") (.atom "C"), 3⟩]⟩

/-- The dilemma in another order, with one of its cases assumed, twice, under a
number that is in use. -/
def settledDilemma : Context :=
  ⟨[⟨.atom "B", 3⟩, ⟨.imp (.atom "B") (.atom "C"), 3⟩, ⟨.imp (.atom "A") (.atom "C"), 2⟩,
    ⟨.or (.atom "A") (.atom "B"), -1⟩, ⟨.atom "B", 3⟩]⟩

/-- From the dilemma `C` is proved by cases. Once `B` is assumed there is no case
to split any more, and `C` is proved without. -/
theorem search_mono_assumptions_dilemma :
    (∃ p, (search (.atom "C") dilemma { maxDepth := 3, maxSteps := 20 }).result = .ok p
      ∧ p.rule = .orElim)
    ∧ ∃ enough, ∀ budget : Budget, budget.maxDepth = 3 → enough ≤ budget.maxSteps →
      ∃ q, (search (.atom "C") settledDilemma budget).result = .ok q := by
  have hrule : (search (.atom "C") dilemma { maxDepth := 3, maxSteps := 20 }).result.toOption.map
      ProofTree.rule = some .orElim := by
    decide +kernel
  obtain ⟨p, hp, hcases⟩ := Attempt.exists_proof hrule
  exact ⟨⟨p, hp, hcases⟩, search_mono_assumptions (by decide) hp⟩

end Search

end NaturalDeduction
