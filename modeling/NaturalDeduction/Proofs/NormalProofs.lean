import NaturalDeduction.Proofs.CheckSpecification
import NaturalDeduction.Proofs.SearchSoundness
import NaturalDeduction.Proofs.SearchTermination

/-!
# The proofs found are normal and analytic

A proof makes a detour when it introduces a formula only to take it apart
again, or takes apart what came out of a split into cases. A tree without
detours is *normal*: whatever an elimination takes apart, its *major* premise,
is a chain of eliminations that starts from an assumption and was not split
(`Rule.isNeutral`).

The search makes no detours, since it takes nothing apart but assumptions and
what it has taken out of them. And it invents nothing: every claim of a proof
it returns is a subformula of the goal or of an assumption. For the second a
goal and a fact differ. What a fact claims comes out of the assumptions, so
that whatever has to be proved on the way to it does so too; what a goal claims
has to be given. Both hold of built trees, by induction on how they are built,
and renumbering changes neither rules nor claims.
-/

namespace NaturalDeduction

namespace Rule

/-- **The rules of a chain of eliminations**: it starts from an assumption and
goes on with and-elimination and to-elimination. -/
def isNeutral : Rule → Bool
  | assumption | andElimLeft | andElimRight | impElim => true
  | andIntro | orIntroLeft | orIntroRight | orElim | impIntro => false

/-- Which of its premises a rule takes apart, if it is an elimination: the
conjunction, the disjunction, or the implication, which comes second. -/
def majorPremise? : Rule → Option Nat
  | andElimLeft | andElimRight | orElim => some 0
  | impElim => some 1
  | assumption | andIntro | orIntroLeft | orIntroRight | impIntro => none

end Rule

namespace ProofTree

/-! ## Normal trees -/

/-- **A node without a detour**: if it is an elimination, what it takes apart is
there and is a chain of eliminations. -/
def NoDetour (node : ProofTree) : Prop :=
  ∀ i, node.rule.majorPremise? = some i → ∃ major, node.premises[i]? = some major
    ∧ major.rule.isNeutral

theorem NoDetour.mapNumbers {node : ProofTree} (h : node.NoDetour) (new : Int → Option Int) :
    (node.mapNumbers new).NoDetour := by
  obtain ⟨claim, rule, premises, reference, discharges⟩ := node
  rw [mapNumbers_mk]
  intro i hi
  obtain ⟨major, hmajor, hneutral⟩ := h i hi
  refine ⟨major.mapNumbers new, ?_, ?_⟩
  · show (premises.map _)[i]? = _
    rw [List.getElem?_map, show premises[i]? = some major from hmajor]
    rfl
  · rw [rule_mapNumbers]
    exact hneutral

/-- A node that takes nothing apart makes no detour. -/
theorem noDetour_of_not_elimination {node : ProofTree} (h : node.rule.majorPremise? = none) :
    node.NoDetour := by
  intro i hi
  rw [h] at hi
  cases hi

end ProofTree

namespace Built

open ProofTree

variable {part : Part} {room : Nat} {ctx : Context} {lo hi : Int} {p : ProofTree}

/-- The tree of a fact is a chain of eliminations. -/
theorem isNeutral (h : Built .fact room ctx lo hi p) : p.rule.isNeutral := by
  cases h <;> rfl

/-- **Built trees are normal.** -/
theorem noDetour (h : Built part room ctx lo hi p) : p.Everywhere NoDetour := by
  induction h with
  | leaf => exact everywhere_iff.mpr ⟨noDetour_of_not_elimination rfl, nofun⟩
  | andElimLeft hp _ ih | andElimRight hp _ ih =>
    refine everywhere_iff.mpr ⟨?_, List.forall_mem_singleton.mpr ih⟩
    rintro i ⟨⟩
    exact ⟨_, rfl, hp.isNeutral⟩
  | impElim hq _ _ ihq ihp =>
    refine everywhere_iff.mpr ⟨?_, ihp.pair ihq⟩
    rintro i ⟨⟩
    exact ⟨_, rfl, hq.isNeutral⟩
  | ofFact _ ih => exact ih
  | andIntro _ _ ihp ihq =>
    exact everywhere_iff.mpr ⟨noDetour_of_not_elimination rfl, ihp.pair ihq⟩
  | orIntroLeft _ ih | orIntroRight _ ih | impIntro _ _ ih =>
    exact everywhere_iff.mpr
      ⟨noDetour_of_not_elimination rfl, List.forall_mem_singleton.mpr ih⟩
  | orElim hd _ _ _ _ _ _ ihd ihp ihq =>
    refine everywhere_iff.mpr ⟨?_, List.forall_mem_cons.mpr ⟨ihd, ihp.pair ihq⟩⟩
    rintro i ⟨⟩
    exact ⟨_, rfl, hd.isNeutral⟩

/-- **Built trees claim nothing but subformulas** of a set, if the formulas
assumed are such subformulas and so is the claim, where a goal was to be
proved. A fact brings its claim with it. -/
theorem claim_mem {G : Finset Formula} (h : Built part room ctx lo hi p)
    (hctx : ctx.formulas.toFinset ⊆ subformulasOf G)
    (hgoal : part = .goal → p.claim ∈ subformulasOf G) :
    p.Everywhere fun node => node.claim ∈ subformulasOf G := by
  have hpush : ∀ {ctx : Context} {f : Formula} (n : Int),
      ctx.formulas.toFinset ⊆ subformulasOf G → f ∈ subformulasOf G →
        (ctx.push f n).formulas.toFinset ⊆ subformulasOf G := by
    intro ctx f n hctx hf
    rw [Context.toFinset_push]
    exact Finset.insert_subset hf hctx
  induction h with
  | leaf ha =>
    refine everywhere_iff.mpr ⟨?_, nofun⟩
    exact hctx (List.mem_toFinset.mpr (Context.formula_mem_formulas ha))
  | andElimLeft _ hc ih =>
    have hp := ih hctx nofun
    obtain ⟨hleft, -⟩ := parts_mem_subformulasOf (hc ▸ hp.root)
    exact everywhere_iff.mpr ⟨hleft, List.forall_mem_singleton.mpr hp⟩
  | andElimRight _ hc ih =>
    have hp := ih hctx nofun
    obtain ⟨-, hright⟩ := parts_mem_subformulasOf (hc ▸ hp.root)
    exact everywhere_iff.mpr ⟨hright _ rfl, List.forall_mem_singleton.mpr hp⟩
  | impElim _ _ hc ihq ihp =>
    have hq := ihq hctx nofun
    -- what has to be proved for the implication is a part of it
    obtain ⟨hleft, hright⟩ := parts_mem_subformulasOf (hc ▸ hq.root)
    exact everywhere_iff.mpr ⟨hright _ rfl, (ihp hctx fun _ => hleft).pair hq⟩
  | ofFact _ ih => exact ih hctx nofun
  | andIntro _ _ ihp ihq =>
    obtain ⟨hleft, hright⟩ := parts_mem_subformulasOf (hgoal rfl)
    exact everywhere_iff.mpr
      ⟨hgoal rfl, (ihp hctx fun _ => hleft).pair (ihq hctx fun _ => hright _ rfl)⟩
  | orIntroLeft _ ih =>
    obtain ⟨hleft, -⟩ := parts_mem_subformulasOf (hgoal rfl)
    exact everywhere_iff.mpr
      ⟨hgoal rfl, List.forall_mem_singleton.mpr (ih hctx fun _ => hleft)⟩
  | orIntroRight _ ih =>
    obtain ⟨-, hright⟩ := parts_mem_subformulasOf (hgoal rfl)
    exact everywhere_iff.mpr
      ⟨hgoal rfl, List.forall_mem_singleton.mpr (ih hctx fun _ => hright _ rfl)⟩
  | impIntro _ _ ih =>
    obtain ⟨hleft, hright⟩ := parts_mem_subformulasOf (hgoal rfl)
    exact everywhere_iff.mpr ⟨hgoal rfl,
      List.forall_mem_singleton.mpr (ih (hpush _ hctx hleft) fun _ => hright _ rfl)⟩
  | orElim _ hc _ _ _ _ hpq ihd ihp ihq =>
    have hd := ihd hctx nofun
    obtain ⟨hleft, hright⟩ := parts_mem_subformulasOf (hc ▸ hd.root)
    have hp := ihp (hpush _ hctx hleft) fun _ => hgoal rfl
    have hq := ihq (hpush _ hctx (hright _ rfl)) fun _ => hpq ▸ hgoal rfl
    exact everywhere_iff.mpr ⟨hgoal rfl, List.forall_mem_cons.mpr ⟨hd, hp.pair hq⟩⟩

end Built

namespace Search

open ProofTree

variable {goal : Formula} {ctx : Context} {budget : Budget} {p : ProofTree}

/-- **The proofs found are normal and analytic.** What an elimination in a proof
takes apart is a chain of eliminations, never an introduction or a split into
cases, and every claim of the proof is a subformula of the goal or of a formula
assumed. -/
theorem search_normal_analytic (h : (search goal ctx budget).result = .ok p) :
    (∀ place node, p.nodeAt? place = some node → ∀ i, node.rule.majorPremise? = some i →
      ∃ major, node.premises[i]? = some major ∧ major.rule.isNeutral)
    ∧ ∀ place node, p.nodeAt? place = some node →
      node.claim ∈ goal.subformulas ∨ ∃ f ∈ ctx.formulas, node.claim ∈ f.subformulas := by
  obtain ⟨n, raw, hfound, rfl⟩ := exists_foundIn h
  obtain ⟨hi, rfl, hbuilt⟩ := hfound.builtFor
  have hsubset := subset_subformulasOf (insert raw.claim ctx.formulas.toFinset)
  have hclaims := hbuilt.claim_mem ((Finset.subset_insert _ _).trans hsubset)
    fun _ => hsubset (Finset.mem_insert_self _ _)
  refine ⟨hbuilt.noDetour.mapNumbers fun node hnode => hnode.mapNumbers _,
    fun place node hnode => ?_⟩
  have hmem : node.claim ∈ subformulasOf (insert raw.claim ctx.formulas.toFinset) :=
    hclaims.mapNumbers (fun old hold => by rwa [claim_mapNumbers]) place node hnode
  obtain ⟨f, hf, hsub⟩ := Finset.mem_biUnion.mp hmem
  obtain rfl | hf := Finset.mem_insert.mp hf
  · exact Or.inl hsub
  · exact Or.inr ⟨f, List.mem_toFinset.mp hf, hsub⟩

/-- A disjunction that comes out of an assumption, and what follows in either
case. -/
def buriedCases : Context :=
  ⟨[⟨.and (.atom "A") (.imp (.atom "A") (.or (.atom "B") (.atom "C"))), 1⟩,
    ⟨.imp (.atom "B") (.atom "D"), 2⟩, ⟨.imp (.atom "C") (.atom "D"), 3⟩]⟩

/-- `D` is proved by cases of a disjunction that a chain of eliminations gives. -/
theorem search_normal_analytic_buriedCases :
    ∃ p major,
      (search (.atom "D") buriedCases { maxDepth := 3, maxSteps := 40 }).result = .ok p
      ∧ p.rule = .orElim ∧ p.premises[0]? = some major ∧ major.rule.isNeutral
      ∧ (major.claim ∈ (Formula.atom "D").subformulas
        ∨ ∃ f ∈ buriedCases.formulas, major.claim ∈ f.subformulas) := by
  have hrule : (search (.atom "D") buriedCases
      { maxDepth := 3, maxSteps := 40 }).result.toOption.map ProofTree.rule = some .orElim := by
    decide +kernel
  obtain ⟨p, hp, hcases⟩ := Attempt.exists_proof hrule
  obtain ⟨hnormal, hanalytic⟩ := search_normal_analytic hp
  obtain ⟨major, hmajor, hneutral⟩ := hnormal [] p rfl 0 (by rw [hcases]; rfl)
  exact ⟨p, major, hp, hcases, hmajor, hneutral,
    hanalytic [0] major (nodeAt?_cons_eq_some_iff.mpr ⟨major, hmajor, rfl⟩)⟩

end Search

end NaturalDeduction
