import Mathlib.Data.Finset.Powerset
import Mathlib.Order.Preorder.Finite
import NaturalDeduction.Proofs.DepthBounded
import NaturalDeduction.Proofs.Kripke

/-!
# Completeness for Kripke models

What is forced in every Kripke model in which a set of formulas is forced is
provable from that set, within some depth. The calculus only introduces and
takes apart, and has no rule that lets a proof go through a formula of its
own choosing. So a tree that does, and that the check accepts all the same,
proves nothing that the calculus does not prove as well: it is sound for
Kripke models, and those are all the calculus has to match.

The model is the canonical one. Its worlds are the *prime* sets, those that
with a disjunction among their facts contain one of its sides, and a letter
is true in a world from which it is provable. A set from which a goal is not
provable lies in a prime one with the same property (`exists_prime`): among
the sets of its subformulas there is a largest one, and if neither side of a
disjunction could be added to it, the goal would be provable by cases.
-/

namespace NaturalDeduction

/-! ## Subformulas -/

namespace Formula

/-- **The subformulas of a formula**, itself included. -/
def subformulas : Formula → Finset Formula
  | atom name => {atom name}
  | neg body => insert (neg body) body.subformulas
  | and left right => insert (and left right) (left.subformulas ∪ right.subformulas)
  | or left right => insert (or left right) (left.subformulas ∪ right.subformulas)
  | imp left right => insert (imp left right) (left.subformulas ∪ right.subformulas)

@[simp] theorem self_mem_subformulas (f : Formula) : f ∈ f.subformulas := by
  cases f <;> simp [subformulas]

theorem subformulas_subset {f g : Formula} (h : f ∈ g.subformulas) :
    f.subformulas ⊆ g.subformulas := by
  induction g with
  | atom name =>
    obtain rfl := Finset.mem_singleton.mp h
    exact Finset.Subset.refl _
  | neg body ih =>
    obtain rfl | h := Finset.mem_insert.mp h
    · exact Finset.Subset.refl _
    · exact (ih h).trans (Finset.subset_insert _ _)
  | and left right ihl ihr | or left right ihl ihr | imp left right ihl ihr =>
    obtain rfl | h := Finset.mem_insert.mp h
    · exact Finset.Subset.refl _
    · refine Finset.Subset.trans ?_ (Finset.subset_insert _ _)
      obtain h | h := Finset.mem_union.mp h
      · exact (ihl h).trans Finset.subset_union_left
      · exact (ihr h).trans Finset.subset_union_right

end Formula

/-- The subformulas of the members of a set. -/
def subformulasOf (G : Finset Formula) : Finset Formula := G.biUnion Formula.subformulas

theorem subset_subformulasOf (G : Finset Formula) : G ⊆ subformulasOf G := fun f hf =>
  Finset.mem_biUnion.mpr ⟨f, hf, f.self_mem_subformulas⟩

theorem mem_subformulasOf {G : Finset Formula} {f g : Formula} (hg : g ∈ subformulasOf G)
    (hf : f ∈ g.subformulas) : f ∈ subformulasOf G := by
  obtain ⟨a, ha, hga⟩ := Finset.mem_biUnion.mp hg
  exact Finset.mem_biUnion.mpr ⟨a, ha, Formula.subformulas_subset hga hf⟩

/-- Facts are subformulas. -/
theorem Fact.mem_subformulasOf {G G' : Finset Formula} {provable : Formula → Prop} {f : Formula}
    (hG : G' ⊆ subformulasOf G) (h : Fact G' provable f) : f ∈ subformulasOf G := by
  induction h with
  | member hf => exact hG hf
  | andLeft _ ih => exact NaturalDeduction.mem_subformulasOf ih (by simp [Formula.subformulas])
  | andRight _ ih => exact NaturalDeduction.mem_subformulasOf ih (by simp [Formula.subformulas])
  | impApply _ _ ih => exact NaturalDeduction.mem_subformulasOf ih (by simp [Formula.subformulas])

/-! ## Prime sets -/

/-- **A prime set**: one that contains a side of every disjunction among its
facts. -/
def IsPrime (G : Finset Formula) : Prop :=
  ∀ left right, Fact G (Provable G) (.or left right) → left ∈ G ∨ right ∈ G

/-- **A goal that is not provable is not provable from some prime set.** -/
theorem exists_prime {G : Finset Formula} {goal : Formula} (h : ¬ Provable G goal) :
    ∃ H, G ⊆ H ∧ IsPrime H ∧ ¬ Provable H goal := by
  let candidates : Set (Finset Formula) := {H | H ⊆ subformulasOf G ∧ ¬ Provable H goal}
  have hfin : candidates.Finite :=
    ((subformulasOf G).powerset.finite_toSet).subset fun H hH =>
      Finset.mem_coe.mpr (Finset.mem_powerset.mpr hH.1)
  obtain ⟨H, hGH, hmax⟩ := hfin.exists_le_maximal (a := G) ⟨subset_subformulasOf G, h⟩
  refine ⟨H, hGH, fun left right hor => ?_, hmax.prop.2⟩
  have hsub := hor.mem_subformulasOf hmax.prop.1
  have hside : ∀ side ∈ subformulasOf G, side ∉ H → Provable (insert side H) goal := by
    intro side hs hnot
    by_contra hunprovable
    have hle : insert side H ≤ H := hmax.le_of_ge
      ⟨Finset.insert_subset hs hmax.prop.1, hunprovable⟩ (Finset.subset_insert side H)
    exact hnot (hle (Finset.mem_insert_self side H))
  by_contra hneither
  rw [not_or] at hneither
  exact hmax.prop.2 (Provable.of_oneMore (.cases hor
    (hside left (mem_subformulasOf hsub (by simp [Formula.subformulas])) hneither.1)
    (hside right (mem_subformulasOf hsub (by simp [Formula.subformulas])) hneither.2)))

/-! ## The canonical model -/

/-- The worlds of the canonical model. -/
abbrev PrimeSet := {G : Finset Formula // IsPrime G}

/-- **The canonical model**: a letter is true where it is provable. -/
def canonical : KripkeModel PrimeSet where
  atom name := ⟨{G | Provable G.1 (.atom name)}, fun _ _ hGH hG => hG.mono hGH⟩
  neg body := ⟨{G | Provable G.1 (.neg body)}, fun _ _ hGH hG => hG.mono hGH⟩

/-- **In the canonical model facts are forced, and what is forced is
provable.** -/
theorem canonical_forces (f : Formula) (G : PrimeSet) :
    (Fact G.1 (Provable G.1) f → canonical.Forces f G)
      ∧ (canonical.Forces f G → Provable G.1 f) := by
  induction f generalizing G with
  | atom name => exact ⟨fun h => Provable.of_oneMore (.fact h), fun h => h⟩
  | neg body => exact ⟨fun h => Provable.of_oneMore (.fact h), fun h => h⟩
  | and left right ihl ihr =>
    refine ⟨fun h => ⟨(ihl G).1 h.andLeft, (ihr G).1 h.andRight⟩, fun h => ?_⟩
    exact Provable.of_oneMore (.andIntro ((ihl G).2 h.1) ((ihr G).2 h.2))
  | or left right ihl ihr =>
    refine ⟨fun h => ?_, fun h => ?_⟩
    · exact (G.2 left right h).imp (fun hl => (ihl G).1 (.member hl))
        (fun hr => (ihr G).1 (.member hr))
    · obtain h | h := h
      · exact Provable.of_oneMore (.orIntroLeft ((ihl G).2 h))
      · exact Provable.of_oneMore (.orIntroRight ((ihr G).2 h))
  | imp left right ihl ihr =>
    refine ⟨fun h H hGH hleft => ?_, fun h => ?_⟩
    · have hH : Fact H.1 (Provable H.1) (.imp left right) := h.mono hGH fun _ hg => hg.mono hGH
      exact (ihr H).1 (hH.impApply ((ihl H).2 hleft))
    · -- a prime set that has the antecedent and not the consequent would not force the implication
      by_contra hunprovable
      have hright : ¬ Provable (insert left G.1) right := fun hr =>
        hunprovable (Provable.of_oneMore (.impIntro hr))
      obtain ⟨H, hsub, hprime, hH⟩ := exists_prime hright
      obtain ⟨hleft, hGH⟩ := Finset.insert_subset_iff.mp hsub
      exact hH ((ihr ⟨H, hprime⟩).2
        (h ⟨H, hprime⟩ hGH ((ihl ⟨H, hprime⟩).1 (.member hleft))))

/-- **Completeness**: what every world that forces a set of formulas forces
is provable from the set. -/
theorem provable_of_forces {G : Finset Formula} {f : Formula}
    (h : ∀ (W : Type) [Preorder W] (M : KripkeModel W) (w : W),
      (∀ g ∈ G, M.Forces g w) → M.Forces f w) : Provable G f := by
  by_contra hunprovable
  obtain ⟨H, hGH, hprime, hH⟩ := exists_prime hunprovable
  have hforced := h PrimeSet canonical ⟨H, hprime⟩ fun g hg =>
    (canonical_forces g ⟨H, hprime⟩).1 (.member (hGH hg))
  exact hH ((canonical_forces f ⟨H, hprime⟩).2 hforced)

/-- **Whatever has a derivation is provable in the calculus**, however the
derivation goes about it. -/
theorem ProofTree.IsDerivation.provable {ctx : Context} {p : ProofTree}
    (h : IsDerivation ctx p) : Provable ctx.formulas.toFinset p.claim :=
  provable_of_forces fun _ _ _ _ hw =>
    h.forces fun f hf => hw f (List.mem_toFinset.mpr hf)

end NaturalDeduction
