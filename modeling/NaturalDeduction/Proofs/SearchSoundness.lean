import NaturalDeduction.Request
import NaturalDeduction.Proofs.Passes
import NaturalDeduction.Proofs.Scopes
import NaturalDeduction.Proofs.SearchTrees

/-!
# Soundness of the search

What a search returns is a proof of its goal. The tree found in a pass is a
derivation that discharges distinct numbers, none of them of the context,
whatever numbers the branches given up and the passes before it have used up
(`Search.FoundIn.builtFor`). Renumbering keeps both, drops what nothing
refers to and leaves no gap, so that the tree returned passes the check and
is numbered as it would be by hand (`ProofTree.WellNumbered`). A request
therefore never meets a proof that does not check.
-/

namespace NaturalDeduction

namespace Context

variable {ctx : Context} {n : Int}

theorem max?_numbers (h : n ∈ ctx.numbers) : ctx.numbers.max? = some ctx.maxNumber := by
  unfold maxNumber
  cases hns : ctx.numbers with
  | nil => exact absurd (hns ▸ h) List.not_mem_nil
  | cons m ns => rfl

theorem le_maxNumber (h : n ∈ ctx.numbers) : n ≤ ctx.maxNumber :=
  (List.max?_eq_some_iff.mp (max?_numbers h)).2 n h

end Context

namespace ProofTree

/-- **A tree that is numbered in order** under a context. -/
structure WellNumbered (ctx : Context) (p : ProofTree) : Prop where
  /-- The discharges count up from one past the largest number of the
  context, each node before its premises. -/
  consecutive : p.allDischarged =
    (List.range p.allDischarged.length).map fun i : Nat => ctx.maxNumber + 1 + i
  /-- No discharge is without use. -/
  used : ∀ n ∈ p.allDischarged, ∃ above leaf, p.LeafAt above leaf ∧ leaf.reference = some n
  /-- What a leaf refers to is a number of the context, or exactly one node
  above the leaf discharges it. -/
  bound : ∀ above leaf, p.LeafAt above leaf → ∃ n, leaf.reference = some n ∧
    ((n ∈ ctx.numbers ∧ dischargers n above = 0)
      ∨ (n ∉ ctx.numbers ∧ dischargers n above = 1))

/-- **Renumbering puts a derivation in order**, if its discharges are
distinct and past the numbers of the context. -/
theorem IsDerivation.wellNumbered {p : ProofTree} {ctx : Context} (h : IsDerivation ctx p)
    (hctx : ctx.numbers.Nodup) (hnd : p.allDischarged.Nodup)
    (hlive : ∀ n ∈ p.allDischarged, n ∉ ctx.numbers) :
    (p.renumber (ctx.maxNumber + 1)).check ctx = .ok ()
      ∧ (p.renumber (ctx.maxNumber + 1)).WellNumbered ctx := by
  have hder : IsDerivation ctx (p.renumber (ctx.maxNumber + 1)) := h.renumber hnd hlive
  have hfresh : Fresh ctx [] (p.renumber (ctx.maxNumber + 1)).allDischarged :=
    fresh_renumber hnd hctx fun n hn => Int.lt_add_one_of_le (Context.le_maxNumber hn)
  refine ⟨hder.check_ok hfresh, ?_, fun n hn => ?_, fun above leaf hleaf => ?_⟩
  · rw [allDischarged_renumber hnd, List.length_map, List.length_range]
  · obtain ⟨leaf, hleaf, href⟩ := mem_referenced.mp (mem_referenced_renumber hnd hn)
    obtain ⟨above, habove⟩ := mem_leaves_iff.mp hleaf
    exact ⟨above, leaf, habove, href⟩
  · exact hder.reference_bound hfresh.nodup hfresh.notLive hleaf

end ProofTree

/-- A report whose proof checks is not malformed. -/
theorem Outcome.ofReport_ne_malformed {r : SearchReport} {v : Violation}
    (h : ∀ p, r.result = .ok p → p.check .empty = .ok ()) :
    Outcome.ofReport r ≠ .error (.malformed v) := by
  rw [Outcome.ofReport]
  -- the limit on valuations is a large numeral, which nothing here may unfold
  generalize r.goal.refuteWithin r.budget.maxSteps = refuted
  rcases hresult : r.result with e | p
  · rcases refuted with limit | _ | c <;> exact fun hv => nomatch hv
  · dsimp only
    rw [h p hresult]
    exact fun hv => nomatch hv

namespace Search

section FoundIn

variable {goal : Formula} {ctx : Context} {budget : Budget} {n : Nat} {raw p : ProofTree}

theorem FoundIn.builtFor (h : FoundIn goal ctx budget n raw) :
    ∃ hi, BuiltFor (n + 1) ctx goal (ctx.maxNumber + 1) hi raw := by
  have hlo : ctx.maxNumber + 1 ≤ (passStart goal ctx budget n).nextNumber :=
    le_nextNumber_afterPasses goal ctx budget n
  have hresult := h.result
  rw [passResult_eq] at hresult
  exact ⟨_, findProof_builds budget.maxSteps (n + 1) [] goal ctx _ _ raw hlo hresult⟩

/-- **What a search returns**, without the account of how it was found. -/
theorem check_of_result (hctx : ctx.numbers.Nodup)
    (h : (search goal ctx budget).result = .ok p) :
    p.claim = goal ∧ p.check ctx = .ok () ∧ p.WellNumbered ctx := by
  obtain ⟨n, raw, hfound, rfl⟩ := exists_foundIn h
  obtain ⟨hi, hclaim, hbuilt⟩ := hfound.builtFor
  have hdistinct := hbuilt.distinctIn
  refine ⟨(ProofTree.claim_mapNumbers _ raw).trans hclaim,
    hbuilt.isDerivation.wellNumbered hctx hdistinct.nodup fun m hm hlive => ?_⟩
  have hlow := (hdistinct.bounds m hm).1
  have hhigh := Context.le_maxNumber hlive
  omega

end FoundIn

/-- **The search is sound**: every proof it returns, from a context whose
numbers are distinct, is an accepted proof of the goal that is numbered in
order. A request is searched from nothing assumed, and no proof found for it
is ever refused. -/
theorem search_sound :
    (∀ (goal : Formula) (ctx : Context) (budget : Budget) (p : ProofTree),
      ctx.numbers.Nodup → (search goal ctx budget).result = .ok p →
        p.claim = goal ∧ p.check ctx = .ok () ∧ p.WellNumbered ctx)
    ∧ ∀ (text : String) (budget : Budget) (v : Violation),
      solve text budget ≠ .error (.malformed v) := by
  refine ⟨fun goal ctx budget p hctx h => check_of_result hctx h, fun text budget v => ?_⟩
  have hempty : Context.empty.numbers.Nodup := List.nodup_nil
  rcases hparse : Formula.parse text with e | f
  · rw [solve, consult, hparse]
    exact fun h => nomatch h
  · rw [solve, consult, hparse]
    show Outcome.ofReport (search f .empty budget) ≠ .error (.malformed v)
    exact Outcome.ofReport_ne_malformed fun p hp => (check_of_result hempty hp).2.1

/-- With `A ∨ B` and `B → A` assumed under 7 and -3, the proof found of
`C → (D → A ∧ D)` leaves the assumption of `C` without a number. -/
theorem search_sound_of_cases :
    ∃ p : ProofTree,
      (search (.imp (.atom "C") (.imp (.atom "D") (.and (.atom "A") (.atom "D"))))
        ⟨[⟨.or (.atom "A") (.atom "B"), 7⟩, ⟨.imp (.atom "B") (.atom "A"), -3⟩]⟩
        { maxDepth := 6, maxSteps := 60 }).result = .ok p
      ∧ p.claim = .imp (.atom "C") (.imp (.atom "D") (.and (.atom "A") (.atom "D")))
      ∧ p.check ⟨[⟨.or (.atom "A") (.atom "B"), 7⟩, ⟨.imp (.atom "B") (.atom "A"), -3⟩]⟩ = .ok ()
      ∧ p.WellNumbered ⟨[⟨.or (.atom "A") (.atom "B"), 7⟩, ⟨.imp (.atom "B") (.atom "A"), -3⟩]⟩
      ∧ p.allDischarged = [8, 9, 10] := by
  have hdischarged : (search (.imp (.atom "C") (.imp (.atom "D") (.and (.atom "A") (.atom "D"))))
      ⟨[⟨.or (.atom "A") (.atom "B"), 7⟩, ⟨.imp (.atom "B") (.atom "A"), -3⟩]⟩
      { maxDepth := 6, maxSteps := 60 }).result.toOption.map ProofTree.allDischarged
        = some [8, 9, 10] := by
    decide +kernel
  obtain ⟨p, hresult, hnumbers⟩ := Attempt.exists_proof hdischarged
  obtain ⟨hclaim, hcheck, hnumbered⟩ := search_sound.1 _ _ _ p (by decide) hresult
  exact ⟨p, hresult, hclaim, hcheck, hnumbered, hnumbers⟩

end Search

end NaturalDeduction
