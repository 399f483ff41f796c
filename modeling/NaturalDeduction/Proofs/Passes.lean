import NaturalDeduction.Search
import NaturalDeduction.Proofs.Plans

/-!
# The passes of a search

A search makes one pass after the other and stops in the middle of its loop.
The states it goes through do not depend on where it stops, so they are given
for all passes (`Search.afterPasses`), as if it went on forever, and what
the search returns is read off the pass that it ends with: a proof is found
in a pass after others that failed with steps left (`Search.exists_foundIn`), and
the verdict that no rule applies comes from a pass that failed with steps
left and was not cut off (`Search.exists_passFails`).
-/

namespace NaturalDeduction

namespace SearchState

variable {s : SearchState} {goal : Formula} {ctx : Context} {limit : Int}

/-- **A pass is a search for the goal** with as much room as its limit says
and nothing pending, if that is where the state stands. -/
theorem findProof_startPass (hdepth : s.depth = 0) (hpending : s.pending = []) :
    (s.startPass limit).findProof goal ctx =
      (s.startPass limit).attempt
        (Search.findProof s.budget.maxSteps limit.toNat [] goal ctx) := by
  have hroom : (s.startPass limit).room = limit.toNat := by
    show (limit - (s.depth : Int)).toNat = limit.toNat
    rw [hdepth, Int.natCast_zero, Int.sub_zero]
  rw [SearchState.findProof, prover, hroom]
  show (s.startPass limit).attempt (Search.findProof _ _ s.pending goal ctx) = _
  rw [hpending]
  rfl

end SearchState

namespace Search

section Passes

variable (goal : Formula) (ctx : Context) (budget : Budget)

/-- **The state after a number of passes**, the first of which has depth
limit one, and each other one more than the one before. -/
def afterPasses : Nat → SearchState
  | 0 => .start budget (ctx.maxNumber + 1)
  | n + 1 => (((afterPasses n).startPass (n + 1 : Nat)).findProof goal ctx).2

/-- What the pass after `n` others comes back with. -/
def passResult (n : Nat) : Except Exhausted ProofTree :=
  (((afterPasses goal ctx budget n).startPass (n + 1 : Nat)).findProof goal ctx).1

/-- **A pass that fails with steps left**, after `n` others. -/
structure PassFails (n : Nat) : Prop where
  result : ∃ e, passResult goal ctx budget n = .error e
  stepsLeft : (afterPasses goal ctx budget (n + 1)).tally.outOfSteps = false

/-- **The pass a proof is found in**, after `n` others that failed with steps
left. -/
structure FoundIn (n : Nat) (p : ProofTree) : Prop where
  withinBudget : n < budget.maxDepth
  result : passResult goal ctx budget n = .ok p
  earlier : ∀ m < n, PassFails goal ctx budget m

theorem afterPasses_stands (n : Nat) :
    (afterPasses goal ctx budget n).budget = budget ∧ (afterPasses goal ctx budget n).depth = 0
      ∧ (afterPasses goal ctx budget n).pending = [] := by
  induction n with
  | zero => exact ⟨rfl, rfl, rfl⟩
  | succ n ih => exact ih

/-- The tally a pass starts with: as the earlier passes left it, but for the
cut-off. -/
def passStart (n : Nat) : Tally :=
  { (afterPasses goal ctx budget n).tally with cutOff := false }

/-- **A pass on the tally**: it is the search for the goal. -/
theorem passResult_eq (n : Nat) :
    passResult goal ctx budget n =
      (findProof budget.maxSteps (n + 1) [] goal ctx (passStart goal ctx budget n)).1 := by
  obtain ⟨hbudget, hdepth, hpending⟩ := afterPasses_stands goal ctx budget n
  rw [passResult, SearchState.findProof_startPass hdepth hpending, hbudget, Int.toNat_natCast]
  rfl

theorem tally_afterPasses_succ (n : Nat) :
    (afterPasses goal ctx budget (n + 1)).tally =
      (findProof budget.maxSteps (n + 1) [] goal ctx (passStart goal ctx budget n)).2 := by
  obtain ⟨hbudget, hdepth, hpending⟩ := afterPasses_stands goal ctx budget n
  rw [afterPasses, SearchState.findProof_startPass hdepth hpending, hbudget, Int.toNat_natCast]
  rfl

/-- No pass hands out a number of the context. -/
theorem le_nextNumber_afterPasses (n : Nat) :
    ctx.maxNumber + 1 ≤ (afterPasses goal ctx budget n).tally.nextNumber := by
  induction n with
  | zero => exact le_rfl
  | succ n ih =>
    have hgrows := findProof_grows budget.maxSteps (n + 1) [] goal ctx (passStart goal ctx budget n)
    rw [tally_afterPasses_succ]
    exact ih.trans (Tally.later hgrows).nextNumber

/-! ## Where the passes end -/

/-- One turn of the loop. -/
theorem passes_succ (remaining n : Nat) :
    (passes goal ctx (remaining + 1) (n + 1) (afterPasses goal ctx budget n)).1 =
      match passResult goal ctx budget n with
      | .ok p => .ok p
      | .error _ =>
        if (afterPasses goal ctx budget (n + 1)).tally.outOfSteps then .error ⟨goal, .budget⟩
        else if (afterPasses goal ctx budget (n + 1)).tally.cutOff then
          (passes goal ctx remaining (n + 1 + 1) (afterPasses goal ctx budget (n + 1))).1
        else .error ⟨goal, .rules⟩ := by
  rw [passes, passResult, afterPasses]
  rcases ((afterPasses goal ctx budget n).startPass (n + 1 : Nat)).findProof goal ctx with
    ⟨e | p, s⟩
  · dsimp only
    split
    · rfl
    · split <;> rfl
  · rfl

variable {goal ctx budget} {p : ProofTree} {e : Exhausted}

/-- Passes that end with a proof end with one that found it. -/
theorem exists_of_passes_ok {remaining n : Nat}
    (h : (passes goal ctx remaining (n + 1) (afterPasses goal ctx budget n)).1 = .ok p) :
    ∃ m < n + remaining, passResult goal ctx budget m = .ok p
      ∧ ∀ k, n ≤ k → k < m → PassFails goal ctx budget k := by
  induction remaining generalizing n with
  | zero => cases h
  | succ remaining ih =>
    rw [passes_succ] at h
    rcases hpass : passResult goal ctx budget n with e | q
    · rw [hpass] at h
      dsimp only at h
      split at h
      · cases h
      rename_i hsteps
      split at h
      · obtain ⟨m, hm, hfound, hfails⟩ := ih h
        refine ⟨m, by omega, hfound, fun k hk hkm => ?_⟩
        obtain rfl | hlt := Nat.eq_or_lt_of_le hk
        · exact ⟨⟨e, hpass⟩, Bool.eq_false_iff.mpr hsteps⟩
        · exact hfails k hlt hkm
      · cases h
    · rw [hpass] at h
      obtain rfl := Except.ok.inj h
      exact ⟨n, by omega, hpass, fun k hk hkn => by omega⟩

/-- Passes that end since no rule applies end with one that failed with steps
left and was not cut off. -/
theorem exists_of_passes_rules {remaining n : Nat}
    (h : (passes goal ctx remaining (n + 1) (afterPasses goal ctx budget n)).1 = .error e)
    (he : e.reason = .rules) :
    ∃ m, PassFails goal ctx budget m
      ∧ (afterPasses goal ctx budget (m + 1)).tally.cutOff = false := by
  induction remaining generalizing n with
  | zero =>
    obtain rfl := Except.error.inj h
    cases he
  | succ remaining ih =>
    rw [passes_succ] at h
    rcases hpass : passResult goal ctx budget n with e' | q
    · rw [hpass] at h
      dsimp only at h
      split at h
      · obtain rfl := Except.error.inj h
        cases he
      rename_i hsteps
      split at h
      · exact ih h
      · rename_i hcut
        exact ⟨n, ⟨⟨e', hpass⟩, Bool.eq_false_iff.mpr hsteps⟩, Bool.eq_false_iff.mpr hcut⟩
    · rw [hpass] at h
      cases h

/-! ## What a search returns -/

theorem result_eq (goal : Formula) (ctx : Context) (budget : Budget) :
    (search goal ctx budget).result =
      (passes goal ctx budget.maxDepth (0 + 1) (afterPasses goal ctx budget 0)).1.map
        (·.renumber (ctx.maxNumber + 1)) := rfl

/-- What the passes of a search come to was found in one of them. -/
theorem exists_foundIn_of_passes
    (h : (passes goal ctx budget.maxDepth 1 (.start budget (ctx.maxNumber + 1))).1 = .ok p) :
    ∃ n, FoundIn goal ctx budget n p := by
  obtain ⟨n, hn, hfound, hfails⟩ := exists_of_passes_ok h
  exact ⟨n, by omega, hfound, fun m hm => hfails m m.zero_le hm⟩

/-- **A proof returned was found in some pass** and renumbered. -/
theorem exists_foundIn (h : (search goal ctx budget).result = .ok p) :
    ∃ n raw, FoundIn goal ctx budget n raw ∧ raw.renumber (ctx.maxNumber + 1) = p := by
  rw [result_eq] at h
  rcases hpasses : (passes goal ctx budget.maxDepth (0 + 1) (afterPasses goal ctx budget 0)).1
    with e | raw
  · rw [hpasses] at h
    cases h
  · rw [hpasses] at h
    obtain ⟨n, hfound⟩ := exists_foundIn_of_passes hpasses
    exact ⟨n, raw, hfound, Except.ok.inj h⟩

/-- **The verdict that no rule applies** comes from a pass that failed with
steps left and was not cut off. -/
theorem exists_passFails (h : (search goal ctx budget).result = .error e)
    (he : e.reason = .rules) :
    ∃ n, PassFails goal ctx budget n
      ∧ (afterPasses goal ctx budget (n + 1)).tally.cutOff = false := by
  rw [result_eq] at h
  rcases hpasses : (passes goal ctx budget.maxDepth (0 + 1) (afterPasses goal ctx budget 0)).1
    with e' | raw
  · rw [hpasses] at h
    obtain rfl := Except.error.inj h
    exact exists_of_passes_rules hpasses he
  · rw [hpasses] at h
    cases h

end Passes

end Search

end NaturalDeduction
