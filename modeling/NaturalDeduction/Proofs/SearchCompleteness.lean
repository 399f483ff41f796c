import Mathlib.Order.Bounds.Basic
import NaturalDeduction.Proofs.KripkeCompleteness
import NaturalDeduction.Proofs.Passes
import NaturalDeduction.Proofs.SearchTrees

/-!
# Completeness of the search

The search gives things up: a goal that is pursued already under the same
formulas, a chain of eliminations that its shape says to lead nowhere, a
split of which one side is assumed. None of this loses a proof, and none of
it even costs depth.

The argument is that a goal is always pursued at the *first* level at which
it is derivable. Everything that the step to this level needs is derivable
one level below, where the goal itself is not yet. So no goal met on the way
down, where the levels fall, is one that is pending: the pending ones are not
derivable at the level that has been reached. And a split of which one side
is assumed cannot be the step to this level, as the other premise would be
the goal under the same formulas, one level below.

So a search succeeds if its goal is derivable at some level, unless it runs
out of steps or, having less room than this level, is cut off
(`Search.findProof_succeeds`).
-/

namespace NaturalDeduction

namespace Context

variable {ctx : Context} {f : Formula}

theorem toFinset_push (ctx : Context) (f : Formula) (n : Int) :
    (ctx.push f n).formulas.toFinset = insert f ctx.formulas.toFinset := by
  ext g
  rw [formulas_push, List.mem_toFinset, List.mem_append, List.mem_singleton, Finset.mem_insert,
    List.mem_toFinset, or_comm]

end Context

theorem Pursuit.same_iff {p q : Pursuit} :
    p.same q = true ↔ p.goal = q.goal ∧ p.formulas.toFinset = q.formulas.toFinset := by
  rw [Pursuit.same, Bool.and_eq_true, Bool.and_eq_true, decide_eq_true_eq, and_assoc,
    List.all_eq_true, List.all_eq_true, Finset.Subset.antisymm_iff]
  refine and_congr_right fun _ => and_congr ?_ ?_
  · simp only [Finset.subset_iff, List.mem_toFinset, List.contains_iff_mem]
  · simp only [Finset.subset_iff, List.mem_toFinset, List.contains_iff_mem]

/-! ## Built trees are within their room -/

/-- **A tree built with some room** is a derivation within this depth. -/
theorem Built.derivable {part : Part} {room : Nat} {ctx : Context} {lo hi : Int} {p : ProofTree}
    (h : Built part room ctx lo hi p) :
    match part with
    | .goal => Derivable room ctx.formulas.toFinset p.claim
    | .fact => Fact ctx.formulas.toFinset (Derivable room ctx.formulas.toFinset) p.claim := by
  induction h with
  | leaf ha _ => exact .member (List.mem_toFinset.mpr (Context.formula_mem_formulas ha))
  | andElimLeft _ hc ih =>
    rw [hc] at ih
    exact .andLeft ih
  | andElimRight _ hc ih =>
    rw [hc] at ih
    exact .andRight ih
  | impElim _ _ hc ihq ihp =>
    rw [hc] at ihq
    exact .impApply ihq ihp
  | ofFact _ ih => exact OneMore.fact ih
  | andIntro _ _ ihp ihq => exact OneMore.andIntro ihp ihq
  | orIntroLeft _ ih => exact OneMore.orIntroLeft ih
  | orIntroRight _ ih => exact OneMore.orIntroRight ih
  | impIntro _ _ ih =>
    rw [Context.toFinset_push] at ih
    exact OneMore.impIntro ih
  | orElim _ hc _ _ _ _ hpq ihd ihp ihq =>
    rw [hc] at ihd
    rw [Context.toFinset_push] at ihp ihq
    rw [hpq] at ihq
    exact OneMore.cases ihd ihp ihq

namespace Search

open Attempt

/-! ## What a searcher needs

Throughout, `e` is a level at which the prover for the goals below succeeds,
as long as the tally is quiet. -/

/-- A prover that succeeds with what is derivable at a level. -/
def ProverSucceeds (quiet : Tally → Prop) (prove : Prover) (e : Nat) : Prop :=
  ∀ goal ctx, Derivable e ctx.formulas.toFinset goal → (prove goal ctx).Succeeds quiet

/-- A fact from which taking apart succeeds, and which its shape does not
keep from being taken apart. -/
structure Opens (quiet : Tally → Prop) (prove : Prover) (split : Bool) (goal : Formula)
    (ctx : Context) (fact : Formula) : Prop where
  reaches : reaches split fact goal = true
  succeeds : ∀ proof, (useFact prove split goal ctx fact proof).Succeeds quiet

section Searchers

variable {quiet : Tally → Prop} {prove : Prover} {e : Nat} {ctx : Context}
  {goal left right : Formula} {split : Bool}

theorem byAssumption_succeeds (h : goal ∈ ctx.formulas.toFinset) :
    (byAssumption goal ctx).Succeeds quiet := by
  have hsome : (ctx.lookup goal).isSome := Context.lookup_isSome_iff.mpr (List.mem_toFinset.mp h)
  obtain ⟨a, ha⟩ := Option.isSome_iff_exists.mp hsome
  rw [byAssumption, ha]
  exact succeeds_succeed _

variable (hquiet : Antitone quiet) (hg : ProverGrows prove) (hs : ProverSucceeds quiet prove e)

include hquiet hs

theorem byAndIntro_succeeds (hl : Derivable e ctx.formulas.toFinset left)
    (hr : Derivable e ctx.formulas.toFinset right) :
    (byAndIntro prove (.and left right) ctx).Succeeds quiet := by
  rw [byAndIntro_and]
  refine (hs left ctx hl).branch hquiet (fun p => ?_) grows_fail
  exact (hs right ctx hr).branch hquiet (fun q => succeeds_succeed _) grows_fail

theorem byImpIntro_succeeds (h : Derivable e (insert left ctx.formulas.toFinset) right) :
    (byImpIntro prove (.imp left right) ctx).Succeeds quiet := by
  rw [byImpIntro_imp]
  refine Succeeds.withFresh fun n => ?_
  rw [← Context.toFinset_push ctx left n] at h
  exact (hs right _ h).branch hquiet (fun p => succeeds_succeed _) grows_fail

/-- A disjunction is split unless one of its sides is assumed. -/
theorem splitCases_succeeds (hleft : left ∉ ctx.formulas.toFinset)
    (hright : right ∉ ctx.formulas.toFinset)
    (hl : Derivable e (insert left ctx.formulas.toFinset) goal)
    (hr : Derivable e (insert right ctx.formulas.toFinset) goal) (d : ProofTree) :
    (splitCases prove goal ctx left right d).Succeeds quiet := by
  rw [List.mem_toFinset, ← Context.lookup_isSome_iff] at hleft hright
  rw [splitCases_eq, if_neg (by rw [Bool.or_eq_true, not_or]; exact ⟨hleft, hright⟩)]
  refine Succeeds.withFresh fun m => ?_
  rw [← Context.toFinset_push ctx left m] at hl
  refine (hs goal _ hl).branch hquiet (fun p => Succeeds.withFresh fun n => ?_) grows_fail
  rw [← Context.toFinset_push ctx right n] at hr
  exact (hs goal _ hr).branch hquiet (fun q => succeeds_succeed _) grows_fail

include hg

theorem byOrIntro_succeeds (h : Derivable e ctx.formulas.toFinset left
      ∨ Derivable e ctx.formulas.toFinset right) :
    (byOrIntro prove (.or left right) ctx).Succeeds quiet := by
  rw [byOrIntro_or]
  obtain h | h := h
  · refine (hs left ctx h).branch hquiet (fun p => succeeds_succeed _) fun _ => ?_
    exact (hg right ctx).branch (fun p => grows_succeed _) fun _ => grows_fail _
  · refine succeeds_branch (fun p => succeeds_succeed _) fun _ => ?_
    exact (hs right ctx h).branch hquiet (fun p => succeeds_succeed _) fun _ => grows_fail _

/-! ## Chains of eliminations -/

omit hquiet hg hs in
/-- A fact that is the goal needs no taking apart. -/
theorem useFact_succeeds {fact : Formula} {proof : ProofTree}
    (h : fact ≠ goal → (useFact prove split goal ctx fact proof).Succeeds quiet) :
    (useFact prove split goal ctx fact proof).Succeeds quiet := by
  by_cases hgoal : fact = goal
  · rw [hgoal, useFact_self]
    exact succeeds_succeed proof
  · exact h hgoal

/-- **Chains are followed to their end**: what opens at the end of a chain
opens at its start. -/
theorem Opens.of_chain {target fact : Formula} (h : Opens quiet prove split goal ctx target)
    (hc : Chain (Derivable e ctx.formulas.toFinset) target fact) :
    Opens quiet prove split goal ctx fact := by
  induction hc with
  | here => exact h
  | @andLeft left right _ ih =>
    refine ⟨by simp [Search.reaches, ih.reaches], fun proof => useFact_succeeds fun hgoal => ?_⟩
    rw [useFact_and hgoal]
    refine Succeeds.branch hquiet ?_ succeeds_succeed fun _ => ?_
    · rw [follow, if_pos ih.reaches]
      exact ih.succeeds _
    · exact (follow_grows (useFact_grows hg _ _)).branch grows_succeed fun _ => grows_fail _
  | @andRight left right _ ih =>
    refine ⟨by simp [Search.reaches, ih.reaches], fun proof => useFact_succeeds fun hgoal => ?_⟩
    rw [useFact_and hgoal]
    -- the left side is tried first, and does no harm whatever comes of it
    refine succeeds_branch succeeds_succeed fun _ => ?_
    refine Succeeds.branch hquiet ?_ succeeds_succeed fun _ => grows_fail _
    rw [follow, if_pos ih.reaches]
    exact ih.succeeds _
  | @impApply left right hl _ ih =>
    refine ⟨by simp [Search.reaches, ih.reaches], fun proof => useFact_succeeds fun hgoal => ?_⟩
    rw [useFact_imp hgoal, if_pos ih.reaches]
    exact (hs left ctx hl).branch hquiet (fun p => ih.succeeds _) fun _ => grows_fail _

omit hs in
/-- Elimination succeeds if one of the assumptions opens. -/
theorem eliminateFrom_succeeds {as : List Assumption} {a : Assumption} (ha : a ∈ as)
    (hne : a.formula ≠ goal) (h : Opens quiet prove split goal ctx a.formula) :
    (eliminateFrom prove split goal ctx as).Succeeds quiet := by
  induction as with
  | nil => cases ha
  | cons b rest ih =>
    rw [eliminateFrom_cons]
    obtain rfl | ha := List.mem_cons.mp ha
    · rw [if_pos ⟨hne, h.reaches⟩]
      exact (h.succeeds _).branch hquiet succeeds_succeed fun _ => eliminateFrom_grows hg rest
    · split
      · exact succeeds_branch succeeds_succeed fun _ => ih ha
      · exact ih ha

/-- **Elimination reaches what is at the end of facts.** -/
theorem eliminate_succeeds {target : Formula} (hgoal : goal ∉ ctx.formulas.toFinset)
    (hfact : Fact ctx.formulas.toFinset (Derivable e ctx.formulas.toFinset) target)
    (h : Opens quiet prove split goal ctx target) :
    (eliminate prove split goal ctx).Succeeds quiet := by
  obtain ⟨f, hf, hchain⟩ := hfact.exists_chain
  obtain ⟨a, ha, rfl⟩ := List.mem_map.mp (List.mem_toFinset.mp hf)
  exact eliminateFrom_succeeds hquiet hg ha (fun hne => hgoal (hne ▸ hf))
    (h.of_chain hquiet hg hs hchain)

/-! ## One level -/

omit hs in
theorem firstOf_succeeds {s : Searcher} {ss : List Searcher} (hmem : s ∈ ss)
    (h : (s.run prove goal ctx).Succeeds quiet) :
    (firstOf prove goal ctx ss).Succeeds quiet := by
  induction ss with
  | nil => cases hmem
  | cons s' rest ih =>
    rw [firstOf_cons]
    obtain rfl | hmem := List.mem_cons.mp hmem
    · exact h.branch hquiet succeeds_succeed fun _ => firstOf_grows hg rest
    · exact succeeds_branch succeeds_succeed fun _ => ih hmem

/-- **The searchers take the step to the first level** at which a goal is
derivable. -/
theorem exists_searcher_succeeds (h : OneMore (Derivable e) ctx.formulas.toFinset goal)
    (hfirst : ¬ Derivable e ctx.formulas.toFinset goal) :
    ∃ s ∈ Searcher.all, (s.run prove goal ctx).Succeeds quiet := by
  -- an assumption is found at once, and from here on the goal is not one
  by_cases hgoal : goal ∈ ctx.formulas.toFinset
  · exact ⟨.assumption, by decide, byAssumption_succeeds hgoal⟩
  cases h with
  | member hmem => exact absurd hmem hgoal
  | andIntro hl hr => exact ⟨.andIntro, by decide, byAndIntro_succeeds hquiet hs hl hr⟩
  | orIntroLeft hl => exact ⟨.orIntro, by decide, byOrIntro_succeeds hquiet hg hs (Or.inl hl)⟩
  | orIntroRight hr => exact ⟨.orIntro, by decide, byOrIntro_succeeds hquiet hg hs (Or.inr hr)⟩
  | impIntro h => exact ⟨.impIntro, by decide, byImpIntro_succeeds hquiet hs h⟩
  | fact hfact =>
    have hopens : Opens quiet prove false goal ctx goal := by
      refine ⟨by unfold reaches; simp, fun proof => useFact_succeeds fun hgoal => ?_⟩
      exact absurd rfl hgoal
    exact ⟨.elim, by decide, eliminate_succeeds hquiet hg hs hgoal hfact hopens⟩
  | @cases left right _ hfact hl hr =>
    -- a side that is assumed would make the goal derivable one level below
    have hleft : left ∉ ctx.formulas.toFinset := fun hmem =>
      hfirst (Finset.insert_eq_of_mem hmem ▸ hl)
    have hright : right ∉ ctx.formulas.toFinset := fun hmem =>
      hfirst (Finset.insert_eq_of_mem hmem ▸ hr)
    have hopens : Opens quiet prove true goal ctx (.or left right) := by
      refine ⟨by simp [reaches], fun proof => useFact_succeeds fun hor => ?_⟩
      rw [useFact_or hor, if_pos rfl]
      exact splitCases_succeeds hquiet hs hleft hright hl hr proof
    exact ⟨.orElim, by decide, eliminate_succeeds hquiet hg hs hgoal hfact hopens⟩

end Searchers

/-! ## All levels -/

/-- **A quiet tally** for a goal derivable at level `r` that is pursued with
some room: there were steps left and, if the room does not go that far,
nothing was cut off. -/
structure Quiet (r room : Nat) (t : Tally) : Prop where
  stepsLeft : t.outOfSteps = false
  notCutOff : room < r → t.cutOff = false

theorem antitone_quiet (r room : Nat) : Antitone (Quiet r room) := fun _ _ hle h =>
  ⟨Tally.outOfSteps_of_le hle h.stepsLeft, fun hr => Tally.cutOff_of_le hle (h.notCutOff hr)⟩

theorem Quiet.below {e r room : Nat} {t : Tally} (h : Quiet r (room + 1) t) (he : e < r) :
    Quiet e room t := ⟨h.stepsLeft, fun hr => h.notCutOff (by omega)⟩

/-- **The search succeeds with every goal that is derivable** at a level at
which none of the pending goals is. -/
theorem findProof_succeeds (maxSteps : Nat) {r room : Nat} {pending : List Pursuit}
    {goal : Formula} {ctx : Context} (h : Derivable r ctx.formulas.toFinset goal)
    (hpending : ∀ p ∈ pending, ¬ Derivable r p.formulas.toFinset p.goal) :
    (findProof maxSteps room pending goal ctx).Succeeds (Quiet r room) := by
  induction room generalizing r pending goal ctx with
  | zero =>
    intro t ht
    exfalso
    obtain ⟨e, he, -⟩ := h.exists_first
    by_cases hsteps : maxSteps ≤ t.steps
    · rw [findProof_of_steps hsteps] at ht
      exact Bool.noConfusion ht.stepsLeft
    · rw [findProof_zero hsteps] at ht
      exact Bool.noConfusion (ht.notCutOff (by omega))
  | succ room ih =>
    intro t ht
    by_cases hsteps : maxSteps ≤ t.steps
    · rw [findProof_of_steps hsteps] at ht
      exact Bool.noConfusion ht.stepsLeft
    have hnew : ¬ pending.any (·.same (.of goal ctx)) = true := by
      intro hany
      obtain ⟨p, hp, hsame⟩ := List.any_eq_true.mp hany
      obtain ⟨hgoal, hformulas⟩ := Pursuit.same_iff.mp hsame
      refine hpending p hp ?_
      rw [hgoal, hformulas]
      exact h
    rw [findProof_succ hsteps hnew] at ht ⊢
    obtain ⟨e, he, hstep, hfirst⟩ := h.exists_first
    have hbelow : ProverSucceeds (Quiet r (room + 1))
        (findProof maxSteps room (.of goal ctx :: pending)) e := by
      intro g c hgc t ht
      refine ih hgc (fun p hp hd => ?_) t (ht.below he)
      obtain rfl | hp := List.mem_cons.mp hp
      · exact hfirst hd
      · exact hpending p hp (hd.mono_depth he.le)
    obtain ⟨s, hmem, hsucceeds⟩ := exists_searcher_succeeds (antitone_quiet r (room + 1))
      (findProof_grows maxSteps room _) hbelow hstep hfirst
    exact firstOf_succeeds (antitone_quiet r (room + 1)) (findProof_grows maxSteps room _) hmem
      hsucceeds _ ht

/-- What a search finds is derivable within its room. -/
theorem derivable_of_findProof {maxSteps room : Nat} {pending : List Pursuit} {goal : Formula}
    {ctx : Context} {t : Tally} {p : ProofTree}
    (h : (findProof maxSteps room pending goal ctx t).1 = .ok p) :
    Derivable room ctx.formulas.toFinset goal := by
  obtain ⟨rfl, hbuilt⟩ := findProof_builds maxSteps room pending goal ctx _ t p le_rfl h
  exact hbuilt.derivable

/-- **A search with steps left finds a proof if and only if there is one**
within its room. -/
theorem exists_findProof_iff {maxSteps room : Nat} {goal : Formula} {ctx : Context} {t : Tally}
    (h : (findProof maxSteps room [] goal ctx t).2.outOfSteps = false) :
    (∃ p, (findProof maxSteps room [] goal ctx t).1 = .ok p) ↔
      Derivable room ctx.formulas.toFinset goal := by
  refine ⟨fun ⟨p, hp⟩ => derivable_of_findProof hp, fun hd => ?_⟩
  exact findProof_succeeds maxSteps hd (fun _ hp => absurd hp List.not_mem_nil) t
    ⟨h, fun hlt => absurd hlt (lt_irrefl room)⟩

/-! ## The verdicts of a search -/

section Verdicts

variable {goal : Formula} {ctx : Context} {budget : Budget} {n : Nat} {raw : ProofTree}

/-- **A pass that fails with steps left has nothing to find**: not within its
depth limit, and not at any level if it was not cut off. -/
theorem PassFails.not_derivable {r : Nat} (h : PassFails goal ctx budget n)
    (hcut : n + 1 < r → (afterPasses goal ctx budget (n + 1)).tally.cutOff = false) :
    ¬ Derivable r ctx.formulas.toFinset goal := by
  obtain ⟨e, he⟩ := h.result
  intro hd
  have hquiet : Quiet r (n + 1) (afterPasses goal ctx budget (n + 1)).tally :=
    ⟨h.stepsLeft, hcut⟩
  rw [tally_afterPasses_succ] at hquiet
  obtain ⟨p, hp⟩ := findProof_succeeds budget.maxSteps hd
    (fun _ hp => absurd hp List.not_mem_nil) _ hquiet
  rw [← passResult_eq, he] at hp
  cases hp

/-- A proof is found in the first pass whose depth limit allows one. -/
theorem FoundIn.isLeast (h : FoundIn goal ctx budget n raw) :
    IsLeast {d | Derivable d ctx.formulas.toFinset goal} (n + 1) := by
  refine ⟨?_, fun d hd => ?_⟩
  · have hresult := h.result
    rw [passResult_eq] at hresult
    exact derivable_of_findProof hresult
  · by_contra hlt
    cases d with
    | zero => exact hd
    | succ d =>
      exact (h.earlier d (by omega)).not_derivable (fun hlt => absurd hlt (lt_irrefl _)) hd

end Verdicts

/-- **Nothing is lost and nothing is found late.** A pass that does not run
out of steps finds a proof if and only if the goal is derivable within its
depth limit, from the set of the formulas assumed. So a proof that a search
returns was found in the first pass in which it could have been. -/
theorem findProof_shallowest :
    (∀ (s : SearchState) (goal : Formula) (ctx : Context) (limit : Int),
      s.depth = 0 → s.pending = [] →
      ((s.startPass limit).findProof goal ctx).2.tally.outOfSteps = false →
        ((∃ p, ((s.startPass limit).findProof goal ctx).1 = .ok p) ↔
          Derivable limit.toNat ctx.formulas.toFinset goal))
    ∧ ∀ (goal : Formula) (ctx : Context) (budget : Budget) (p : ProofTree),
      (search goal ctx budget).result = .ok p →
        ∃ n raw, FoundIn goal ctx budget n raw ∧ raw.renumber (ctx.maxNumber + 1) = p
          ∧ IsLeast {d | Derivable d ctx.formulas.toFinset goal} (n + 1) := by
  refine ⟨fun s goal ctx limit hdepth hpending hsteps => ?_, fun goal ctx budget p h => ?_⟩
  · rw [SearchState.findProof_startPass hdepth hpending] at hsteps ⊢
    exact exists_findProof_iff hsteps
  · obtain ⟨n, raw, hfound, hraw⟩ := exists_foundIn h
    exact ⟨n, raw, hfound, hraw, hfound.isLeast⟩

/-- Two implications that lead round in a circle, and a disjunction to enter
it by, under numbers of which one is used twice. -/
def circle : Context :=
  ⟨[⟨.imp (.atom "A") (.atom "B"), 4⟩, ⟨.imp (.atom "B") (.atom "A"), -1⟩,
    ⟨.or (.atom "B") (.atom "A"), -1⟩]⟩

/-- Within two levels `A` is not reached from the circle, and the third pass
finds it. -/
theorem findProof_shallowest_circle :
    ∃ raw, FoundIn (.atom "A") circle { maxDepth := 3, maxSteps := 20 } 2 raw
      ∧ ¬ Derivable 2 circle.formulas.toFinset (.atom "A")
      ∧ IsLeast {d | Derivable d circle.formulas.toFinset (.atom "A")} 3 := by
  have hsecond : ¬ Derivable 2 circle.formulas.toFinset (.atom "A") := by
    have hfails : (((SearchState.start { maxDepth := 3, maxSteps := 20 } 1).startPass 2).findProof
        (.atom "A") circle).1.isOk = false := by
      decide +kernel
    intro hd
    obtain ⟨p, hp⟩ := (findProof_shallowest.1 (.start { maxDepth := 3, maxSteps := 20 } 1)
      (.atom "A") circle 2 rfl rfl (by decide +kernel)).mpr hd
    rw [hp] at hfails
    cases hfails
  have hfound : (search (.atom "A") circle { maxDepth := 3, maxSteps := 20 }).result.isOk := by
    decide +kernel
  rcases hresult : (search (.atom "A") circle { maxDepth := 3, maxSteps := 20 }).result with e | p
  · rw [hresult] at hfound
    cases hfound
  · obtain ⟨n, raw, hraw, -, hleast⟩ := findProof_shallowest.2 _ _ _ p hresult
    have hpass : n < 3 := hraw.withinBudget
    have hlate : 2 < n + 1 := by
      by_contra hle
      exact hsecond (hleast.1.mono_depth (Nat.le_of_not_lt hle))
    obtain rfl : n = 2 := by omega
    exact ⟨raw, hraw, hsecond, hleast⟩

/-- **The verdict that no rule applies is right**: no tree at all that claims
the goal is accepted. -/
theorem check_ne_ok_of_rules {goal : Formula} {ctx : Context} {budget : Budget} {e : Exhausted}
    (h : (search goal ctx budget).result = .error e) (he : e.reason = .rules) :
    ∀ p : ProofTree, p.claim = goal → p.check ctx ≠ .ok () := by
  rintro p rfl hcheck
  obtain ⟨n, hfails, hcut⟩ := exists_passFails h he
  obtain ⟨d, hd⟩ := (ProofTree.isDerivation_of_check hcheck).provable
  exact hfails.not_derivable (fun _ => hcut) hd

/-- A tautology, `((A → B) → A) → A`, that nothing proves. -/
theorem check_ne_ok_of_rules_tautology :
    (search (.imp (.imp (.imp (.atom "A") (.atom "B")) (.atom "A")) (.atom "A")) .empty
        { maxDepth := 8, maxSteps := 20 }).result
      = .error ⟨.imp (.imp (.imp (.atom "A") (.atom "B")) (.atom "A")) (.atom "A"), .rules⟩
    ∧ ∀ p : ProofTree,
      p.claim = .imp (.imp (.imp (.atom "A") (.atom "B")) (.atom "A")) (.atom "A") →
        p.check .empty ≠ .ok () := by
  have hrules : (search (.imp (.imp (.imp (.atom "A") (.atom "B")) (.atom "A")) (.atom "A"))
      .empty { maxDepth := 8, maxSteps := 20 }).result
      = .error ⟨.imp (.imp (.imp (.atom "A") (.atom "B")) (.atom "A")) (.atom "A"), .rules⟩ := by
    cbv
  exact ⟨hrules, check_ne_ok_of_rules hrules rfl⟩

end Search

end NaturalDeduction
