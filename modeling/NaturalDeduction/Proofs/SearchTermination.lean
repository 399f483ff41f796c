import Mathlib.Data.Finset.Prod
import Mathlib.Order.Filter.AtTopBot.Basic
import Mathlib.Order.Filter.Finite
import NaturalDeduction.Proofs.SearchCompleteness
import NaturalDeduction.Proofs.Visits

/-!
# With enough budget the search decides

A search invents nothing: the goals it comes to and the assumptions it makes
are subformulas of the goal it was given and of the formulas assumed at the
start (`Plan.ofGoal_asks`). On the way down assumptions are only added, so
the sets of formulas assumed by the pending goals form a chain, which with
`n` subformulas has at most `n + 1` members, and no two pending goals are
the same under the same set. So no more than `n * (n + 1)` goals are ever
pending (`Search.Trail.length_le`), and a pass with more room than this is
never cut off.

Such a pass takes some number of steps. It is not computed here: a plan asks
finitely many questions, so if each of the answers is the same for all but
the smallest step limits, then so is what comes of the plan
(`Plan.run_settles`).
-/

open Filter

namespace NaturalDeduction

/-! ## Nothing but subformulas -/

theorem parts_mem_subformulasOf {G : Finset Formula} {f : Formula} (h : f ∈ subformulasOf G) :
    f.firstPart ∈ subformulasOf G ∧ ∀ g, f.secondPart? = some g → g ∈ subformulasOf G := by
  cases f with
  | atom name => exact ⟨h, fun g hg => nomatch hg⟩
  | neg body =>
    exact ⟨mem_subformulasOf h (by simp [Formula.subformulas, Formula.firstPart]),
      fun g hg => nomatch hg⟩
  | and left right | or left right | imp left right =>
    refine ⟨mem_subformulasOf h (by simp [Formula.subformulas, Formula.firstPart]), ?_⟩
    intro g hg
    obtain rfl := Option.some.inj hg
    exact mem_subformulasOf h (by simp [Formula.subformulas])

/-- **A question that invents nothing**: it is about subformulas of a set, and
takes back nothing that was assumed before. -/
structure StaysWithin (G : Finset Formula) (ctx : Context) (goal : Formula) (ctx' : Context) :
    Prop where
  goal_mem : goal ∈ subformulasOf G
  formulas_subset : ctx'.formulas.toFinset ⊆ subformulasOf G
  keeps : ctx.formulas.toFinset ⊆ ctx'.formulas.toFinset

namespace Plan

variable {G : Finset Formula} {goal left right fact : Formula} {ctx : Context} {split : Bool}
  {proof : ProofTree}

section Asks

variable (hctx : ctx.formulas.toFinset ⊆ subformulasOf G)

include hctx

theorem staysWithin_same (hgoal : goal ∈ subformulasOf G) : StaysWithin G ctx goal ctx :=
  ⟨hgoal, hctx, Finset.Subset.refl _⟩

theorem staysWithin_push (hgoal : goal ∈ subformulasOf G) (hleft : left ∈ subformulasOf G)
    (n : Int) : StaysWithin G ctx goal (ctx.push left n) := by
  refine ⟨hgoal, ?_, ?_⟩ <;> rw [Context.toFinset_push]
  · exact Finset.insert_subset hleft hctx
  · exact Finset.subset_insert _ _

theorem splitCases_asks (hgoal : goal ∈ subformulasOf G) (hleft : left ∈ subformulasOf G)
    (hright : right ∈ subformulasOf G) :
    (splitCases goal ctx left right proof).Asks (StaysWithin G ctx) := by
  unfold splitCases
  split
  · trivial
  · exact fun m => ⟨staysWithin_push hctx hgoal hleft m, fun p n =>
      ⟨staysWithin_push hctx hgoal hright n, fun q => trivial⟩⟩

theorem useFact_asks (hgoal : goal ∈ subformulasOf G) (hfact : fact ∈ subformulasOf G) :
    (useFact goal ctx split fact proof).Asks (StaysWithin G ctx) := by
  fun_induction useFact goal ctx split fact proof with
  | case2 proof left right _ ihl ihr =>
    obtain ⟨hl, hr⟩ := parts_mem_subformulasOf hfact
    refine ⟨?_, ?_, trivial⟩
    · split
      · exact ihl hl
      · trivial
    · split
      · exact ihr (hr right rfl)
      · trivial
  | case3 proof left right _ _ ihr =>
    obtain ⟨hl, hr⟩ := parts_mem_subformulasOf hfact
    exact ⟨staysWithin_same hctx hl, fun p => ihr p (hr right rfl)⟩
  | case5 proof left right =>
    obtain ⟨hl, hr⟩ := parts_mem_subformulasOf hfact
    exact splitCases_asks hctx hgoal hl (hr right rfl)
  | case1 | case4 | case6 | case7 | case8 => trivial

theorem eliminateFrom_asks (hgoal : goal ∈ subformulasOf G) (as : List Assumption)
    (has : ∀ a ∈ as, a.formula ∈ subformulasOf G) :
    (eliminateFrom goal ctx split as).Asks (StaysWithin G ctx) := by
  induction as with
  | nil => trivial
  | cons a rest ih =>
    rw [List.forall_mem_cons] at has
    unfold eliminateFrom
    split
    · exact ⟨useFact_asks hctx hgoal has.1, ih has.2⟩
    · exact ih has.2

theorem plan_asks (hgoal : goal ∈ subformulasOf G) (s : Searcher) :
    (s.plan goal ctx).Asks (StaysWithin G ctx) := by
  have has : ∀ a ∈ ctx.assumptions, a.formula ∈ subformulasOf G := fun a ha =>
    hctx (List.mem_toFinset.mpr (Context.formula_mem_formulas ha))
  obtain ⟨hl, hr⟩ := parts_mem_subformulasOf hgoal
  cases s with
  | assumption =>
    show (byAssumption goal ctx).Asks _
    unfold byAssumption
    split <;> trivial
  | andIntro =>
    cases goal with
    | and left right =>
      exact ⟨staysWithin_same hctx hl, fun p => ⟨staysWithin_same hctx (hr right rfl),
        fun q => trivial⟩⟩
    | _ => trivial
  | orIntro =>
    cases goal with
    | or left right =>
      exact ⟨⟨staysWithin_same hctx hl, fun p => trivial⟩,
        staysWithin_same hctx (hr right rfl), fun p => trivial⟩
    | _ => trivial
  | impIntro =>
    cases goal with
    | imp left right =>
      exact fun n => ⟨staysWithin_push hctx (hr right rfl) hl n, fun p => trivial⟩
    | _ => trivial
  | elim => exact eliminateFrom_asks hctx hgoal _ has
  | orElim => exact eliminateFrom_asks hctx hgoal _ has

/-- **The plan of a goal invents nothing.** -/
theorem ofGoal_asks (hgoal : goal ∈ subformulasOf G) :
    (ofGoal goal ctx).Asks (StaysWithin G ctx) := by
  unfold ofGoal
  induction Searcher.all with
  | nil => trivial
  | cons s rest ih => exact ⟨plan_asks hctx hgoal s, ih⟩

end Asks

end Plan

/-! ## How many goals can be pending -/

namespace Search

/-- **A trail of pending goals** that leads to a context: they are about
subformulas of a set, nothing assumed for one of them is taken back later,
and no two of them are the same. -/
structure Trail (G : Finset Formula) (pending : List Pursuit) (ctx : Context) : Prop where
  formulas_subset : ctx.formulas.toFinset ⊆ subformulasOf G
  goal_mem : ∀ p ∈ pending, p.goal ∈ subformulasOf G
  kept : ∀ p ∈ pending, p.formulas.toFinset ⊆ ctx.formulas.toFinset
  chain : pending.Pairwise fun p q => q.formulas.toFinset ⊆ p.formulas.toFinset
  distinct : pending.Pairwise fun p q => ¬ q.same p

namespace Trail

variable {G : Finset Formula} {pending : List Pursuit} {ctx ctx' : Context} {goal : Formula}

theorem nil (h : ctx.formulas.toFinset ⊆ subformulasOf G) : Trail G [] ctx where
  formulas_subset := h
  goal_mem _ hp := nomatch hp
  kept _ hp := nomatch hp
  chain := .nil
  distinct := .nil

/-- One more goal, which is not pending yet. -/
theorem cons (h : Trail G pending ctx) (hgoal : goal ∈ subformulasOf G)
    (hnew : ¬ pending.any (·.same (.of goal ctx)) = true) :
    Trail G (.of goal ctx :: pending) ctx where
  formulas_subset := h.formulas_subset
  goal_mem := List.forall_mem_cons.mpr ⟨hgoal, h.goal_mem⟩
  kept := List.forall_mem_cons.mpr ⟨Finset.Subset.refl _, h.kept⟩
  chain := .cons h.kept h.chain
  distinct := .cons (fun p hp hsame => hnew (List.any_eq_true.mpr ⟨p, hp, hsame⟩)) h.distinct

/-- The same goals, and what is asked on their behalf. -/
theorem down (h : Trail G pending ctx) (hask : StaysWithin G ctx goal ctx') :
    Trail G pending ctx' where
  formulas_subset := hask.formulas_subset
  goal_mem := h.goal_mem
  kept p hp := (h.kept p hp).trans hask.keeps
  chain := h.chain
  distinct := h.distinct

/-- The goal of a pursuit, with the number of formulas assumed for it. -/
def place (p : Pursuit) : Formula × Nat := (p.goal, p.formulas.toFinset.card)

/-- Two goals of a trail are told apart by their places, as of two sets of a
chain the smaller one has fewer members. -/
theorem nodup_places (h : Trail G pending ctx) : (pending.map place).Nodup := by
  rw [List.Nodup, List.pairwise_map]
  refine (h.chain.and h.distinct).imp ?_
  rintro p q ⟨hsubset, hnew⟩ hplace
  obtain ⟨hgoal, hcard⟩ := Prod.ext_iff.mp hplace
  exact hnew (Pursuit.same_iff.mpr ⟨hgoal.symm, Finset.eq_of_subset_of_card_le hsubset hcard.le⟩)

/-- **A trail is short.** -/
theorem length_le (h : Trail G pending ctx) :
    pending.length ≤ (subformulasOf G).card * ((subformulasOf G).card + 1) := by
  have hplaces : (pending.map place).toFinset ⊆
      subformulasOf G ×ˢ Finset.range ((subformulasOf G).card + 1) := by
    intro x hx
    obtain ⟨p, hp, rfl⟩ := List.mem_map.mp (List.mem_toFinset.mp hx)
    have hcard := Finset.card_le_card ((h.kept p hp).trans h.formulas_subset)
    exact Finset.mem_product.mpr
      ⟨h.goal_mem p hp, Finset.mem_range.mpr (Nat.lt_succ_of_le hcard)⟩
  calc pending.length = (pending.map place).toFinset.card := by
        rw [List.toFinset_card_of_nodup h.nodup_places, List.length_map]
    _ ≤ (subformulasOf G ×ˢ Finset.range ((subformulasOf G).card + 1)).card :=
        Finset.card_le_card hplaces
    _ = (subformulasOf G).card * ((subformulasOf G).card + 1) := by
        rw [Finset.card_product, Finset.card_range]

end Trail

/-- **Every visit stands at the end of a trail**, and its depth is the number
of goals pending. -/
theorem trail_of_mem_visits {G : Finset Formula} {maxSteps room : Nat} {pending : List Pursuit}
    {goal : Formula} {ctx : Context} {t : Tally} {v : Visit} (h : Trail G pending ctx)
    (hgoal : goal ∈ subformulasOf G) (hv : v ∈ visits maxSteps room pending goal ctx t) :
    v.goal ∈ subformulasOf G ∧ Trail G v.pending v.ctx
      ∧ v.room + v.pending.length = room + pending.length := by
  induction room generalizing pending goal ctx t with
  | zero =>
    obtain rfl := List.mem_singleton.mp hv
    exact ⟨hgoal, h, rfl⟩
  | succ room ih =>
    rw [visits] at hv
    obtain rfl | hv := List.mem_cons.mp hv
    · exact ⟨hgoal, h, rfl⟩
    split at hv
    · rename_i htaken
      obtain ⟨-, -, hnew⟩ := (Visit.isTakenUp_iff _ _).mp htaken
      obtain ⟨q, hq, hv⟩ := List.mem_flatMap.mp hv
      have hask := (Plan.ofGoal_asks h.formulas_subset hgoal).of_mem_questions hq
      obtain ⟨hvgoal, hvtrail, hvroom⟩ := ih ((h.cons hgoal hnew).down hask) hask.goal_mem hv
      rw [List.length_cons] at hvroom
      exact ⟨hvgoal, hvtrail, by omega⟩
    · cases hv

/-- **No more goals are pending** during a visit than its formulas allow. -/
theorem length_pursued_le {G : Finset Formula} {maxSteps : Nat} {v : Visit}
    (h : Trail G v.pending v.ctx) (hgoal : v.goal ∈ subformulasOf G) :
    (v.pursued maxSteps).length ≤ (subformulasOf G).card * ((subformulasOf G).card + 1) := by
  unfold Visit.pursued
  split
  · rename_i htaken
    exact (h.cons hgoal ((Visit.isTakenUp_iff _ _).mp htaken).2.2).length_le
  · exact h.length_le

/-! ## Settling -/

end Search

/-- **Attempts that settle**: with enough steps they come to something that
does not depend on how many, and do not run out of them. -/
def Attempt.Settles (a : Nat → Attempt) : Prop :=
  ∀ t, ∃ r : Except Exhausted ProofTree × Tally,
    (∀ᶠ maxSteps in atTop, a maxSteps t = r) ∧ r.2.outOfSteps = t.outOfSteps

namespace Plan

open Attempt

variable {prove : Nat → Prover} {goal : Formula} {ctx : Context}

theorem ask_settles {go : ProofTree → Plan} {why : Exhausted → Exhausted}
    (h : Settles fun maxSteps => prove maxSteps goal ctx)
    (ih : ∀ p, Settles fun maxSteps => (go p).run (prove maxSteps)) :
    Settles fun maxSteps => (ask goal ctx go why).run (prove maxSteps) := by
  intro t
  obtain ⟨⟨e | p, t₁⟩, hanswer, ht₁⟩ := h t
  · exact ⟨(.error (why e), t₁), hanswer.mono fun _ hs => run_ask_of_error hs, ht₁⟩
  · obtain ⟨r, hrest, hr⟩ := ih p t₁
    exact ⟨r, (hanswer.and hrest).mono fun _ hs => (run_ask_of_ok hs.1).trans hs.2, hr.trans ht₁⟩

/-- **A plan settles** if the prover does. -/
theorem run_settles (h : ∀ goal ctx, Settles fun maxSteps => prove maxSteps goal ctx)
    (plan : Plan) : Settles fun maxSteps => plan.run (prove maxSteps) := by
  induction plan with
  | done p => exact fun t => ⟨(.ok p, t), .of_forall fun _ => rfl, rfl⟩
  | fail e => exact fun t => ⟨(.error e, t), .of_forall fun _ => rfl, rfl⟩
  | ask goal ctx go why ih => exact ask_settles (h goal ctx) ih
  | assume hypothesis goal ctx go why ih =>
    exact fun t => ask_settles (h goal (ctx.push hypothesis t.fresh.1)) (ih t.fresh.1) t.fresh.2
  | orElse first second ihf ihs =>
    intro t
    obtain ⟨⟨e | p, t₁⟩, hfirst, ht₁⟩ := ihf t
    · obtain ⟨r, hrest, hr⟩ := ihs t₁
      exact ⟨r, (hfirst.and hrest).mono fun _ hs => (run_orElse_of_error hs.1).trans hs.2,
        hr.trans ht₁⟩
    · exact ⟨(.ok p, t₁), hfirst.mono fun _ hs => run_orElse_of_ok hs, ht₁⟩

end Plan

namespace Search

open Attempt

/-- **The search for a goal settles.** -/
theorem findProof_settles (room : Nat) (pending : List Pursuit) (goal : Formula) (ctx : Context) :
    Settles fun maxSteps => findProof maxSteps room pending goal ctx := by
  induction room generalizing pending goal ctx with
  | zero =>
    intro t
    refine ⟨(.error ⟨goal, .budget⟩, { t with cutOff := true }), ?_, rfl⟩
    filter_upwards [eventually_gt_atTop t.steps] with maxSteps hs
    exact findProof_zero (Nat.not_le.mpr hs)
  | succ room ih =>
    intro t
    by_cases hp : pending.any (·.same (.of goal ctx)) = true
    · refine ⟨noRule goal t, ?_, rfl⟩
      filter_upwards [eventually_gt_atTop t.steps] with maxSteps hs
      exact findProof_of_pending (Nat.not_le.mpr hs) hp
    · obtain ⟨r, hrun, hr⟩ := Plan.run_settles (ih (.of goal ctx :: pending)) (.ofGoal goal ctx)
        { t with steps := t.steps + 1 }
      refine ⟨r, ?_, hr⟩
      filter_upwards [eventually_gt_atTop t.steps, hrun] with maxSteps hs hrun
      rw [findProof_succ (Nat.not_le.mpr hs) hp, firstOf_eq_run]
      exact hrun

/-- **The passes settle** one after the other. -/
theorem afterPasses_settles (goal : Formula) (ctx : Context) (n : Nat) :
    ∃ t : Tally, t.outOfSteps = false ∧ ∀ᶠ maxSteps in atTop,
      ∀ budget : Budget, budget.maxSteps = maxSteps →
        (afterPasses goal ctx budget n).tally = t := by
  induction n with
  | zero => exact ⟨.start (ctx.maxNumber + 1), rfl, .of_forall fun _ _ _ => rfl⟩
  | succ n ih =>
    obtain ⟨t, ht, hbefore⟩ := ih
    obtain ⟨r, hpass, hr⟩ := findProof_settles (n + 1) [] goal ctx { t with cutOff := false }
    refine ⟨r.2, hr.trans ht, ?_⟩
    filter_upwards [hbefore, hpass] with maxSteps hbefore hpass budget hbudget
    rw [tally_afterPasses_succ, passStart, hbefore budget hbudget, hbudget, hpass]

/-! ## The search decides -/

/-- **The number of formulas of a search**: the distinct subformulas of its
goal and of the formulas assumed. -/
def formulaCount (goal : Formula) (ctx : Context) : Nat :=
  (subformulasOf (insert goal ctx.formulas.toFinset)).card

section Decides

variable {goal : Formula} {ctx : Context} {budget : Budget}

/-- Every visit of a pass stands at the end of a trail. -/
theorem trail_of_mem_passVisits {n : Nat} {v : Visit} (hv : v ∈ passVisits goal ctx budget n) :
    v.goal ∈ subformulasOf (insert goal ctx.formulas.toFinset)
      ∧ Trail (insert goal ctx.formulas.toFinset) v.pending v.ctx
      ∧ v.room + v.pending.length = n + 1 := by
  have hsubset := subset_subformulasOf (insert goal ctx.formulas.toFinset)
  exact trail_of_mem_visits (.nil ((Finset.subset_insert _ _).trans hsubset))
    (hsubset (Finset.mem_insert_self _ _)) hv

/-- A pass with more room than goals can be pending is not cut off. -/
theorem not_cutOff_of_room {n : Nat}
    (hroom : formulaCount goal ctx * (formulaCount goal ctx + 1) ≤ n) :
    (afterPasses goal ctx budget (n + 1)).tally.cutOff = false := by
  have hvisits : (passVisits goal ctx budget n).any (·.isCutOff budget.maxSteps) = false := by
    refine List.any_eq_false.mpr fun v hv hcut => ?_
    obtain ⟨-, htrail, hdepth⟩ := trail_of_mem_passVisits hv
    rw [Visit.isCutOff, Bool.and_eq_true, beq_iff_eq] at hcut
    have hlength : v.pending.length ≤ n := htrail.length_le.trans hroom
    omega
  rw [tally_afterPasses_succ, cutOff_findProof]
  exact hvisits

/-- Passes that never run out of steps, one of which is not cut off, end with a
proof or with the verdict that no rule applies. -/
theorem passes_decide {remaining n m : Nat}
    (hsteps : ∀ k ≤ n + remaining, (afterPasses goal ctx budget k).tally.outOfSteps = false)
    (hm : n ≤ m) (hm' : m < n + remaining)
    (hcut : (afterPasses goal ctx budget (m + 1)).tally.cutOff = false) :
    (∃ p, (passes goal ctx remaining (n + 1) (afterPasses goal ctx budget n)).1 = .ok p)
      ∨ (passes goal ctx remaining (n + 1) (afterPasses goal ctx budget n)).1
        = .error ⟨goal, .rules⟩ := by
  induction remaining generalizing n with
  | zero => omega
  | succ remaining ih =>
    rw [passes_succ]
    rcases passResult goal ctx budget n with e | p
    · dsimp only
      rw [if_neg (by rw [hsteps (n + 1) (by omega)]; exact Bool.false_ne_true)]
      split
      · rename_i hcut'
        have hne : m ≠ n := by
          rintro rfl
          rw [hcut] at hcut'
          cases hcut'
        exact ih (fun k hk => hsteps k (by omega)) (by omega) (by omega)
      · exact Or.inr rfl
    · exact Or.inl ⟨p, rfl⟩

end Decides

/-- **With enough budget the search decides.** In no pass are more goals
pending at once than `n * (n + 1)`, where `n` is the number of formulas; the
visits in which they are counted account for every step. With more depth
than this and enough steps, a search ends with a proof or with the verdict
that no rule applies. -/
theorem search_decides (goal : Formula) (ctx : Context) :
    (∀ (budget : Budget) (n : Nat),
      (afterPasses goal ctx budget (n + 1)).tally.steps
          = (afterPasses goal ctx budget n).tally.steps
            + (passVisits goal ctx budget n).countP (·.isTakenUp budget.maxSteps)
      ∧ ∀ v ∈ passVisits goal ctx budget n,
        (v.pursued budget.maxSteps).length
          ≤ formulaCount goal ctx * (formulaCount goal ctx + 1))
    ∧ ∀ maxDepth, formulaCount goal ctx * (formulaCount goal ctx + 1) < maxDepth →
      ∃ enough, ∀ budget : Budget, budget.maxDepth = maxDepth → enough ≤ budget.maxSteps →
        (∃ p, (search goal ctx budget).result = .ok p)
          ∨ (search goal ctx budget).result = .error ⟨goal, .rules⟩ := by
  refine ⟨fun budget n => ⟨?_, fun v hv => ?_⟩, fun maxDepth hdepth => ?_⟩
  · rw [tally_afterPasses_succ, steps_findProof]
    rfl
  · obtain ⟨hgoal, htrail, -⟩ := trail_of_mem_passVisits hv
    exact length_pursued_le htrail hgoal
  · have hsettled : ∀ᶠ maxSteps in atTop, ∀ n ∈ Finset.range (maxDepth + 1),
        ∀ budget : Budget, budget.maxSteps = maxSteps →
          (afterPasses goal ctx budget n).tally.outOfSteps = false := by
      refine (eventually_all_finset _).mpr fun n _ => ?_
      obtain ⟨t, ht, htally⟩ := afterPasses_settles goal ctx n
      exact htally.mono fun _ h budget hbudget => h budget hbudget ▸ ht
    obtain ⟨enough, henough⟩ := eventually_atTop.mp hsettled
    refine ⟨enough, fun budget hmax hsteps => ?_⟩
    have hleft : ∀ k ≤ 0 + budget.maxDepth,
        (afterPasses goal ctx budget k).tally.outOfSteps = false := fun k hk =>
      henough budget.maxSteps hsteps k (Finset.mem_range.mpr (by omega)) budget rfl
    rw [result_eq]
    obtain ⟨p, hp⟩ | hrules := passes_decide hleft (Nat.zero_le _)
      (by rwa [Nat.zero_add, hmax]) (not_cutOff_of_room le_rfl)
    · exact Or.inl ⟨_, by rw [hp]; rfl⟩
    · exact Or.inr (by rw [hrules]; rfl)

/-- The circle has five formulas, and in the third pass three goals come to be
pending. -/
theorem search_decides_circle :
    formulaCount (.atom "A") circle = 5
      ∧ (∃ v ∈ passVisits (.atom "A") circle { maxDepth := 3, maxSteps := 20 } 2,
        (v.pursued 20).length = 3 ∧ (v.pursued 20).length ≤ 5 * (5 + 1))
      ∧ ∃ enough, ∀ budget : Budget, budget.maxDepth = 31 → enough ≤ budget.maxSteps →
        (∃ p, (search (.atom "A") circle budget).result = .ok p)
          ∨ (search (.atom "A") circle budget).result = .error ⟨.atom "A", .rules⟩ := by
  have hcount : formulaCount (.atom "A") circle = 5 := by decide +kernel
  have hthree : ∃ v ∈ passVisits (.atom "A") circle { maxDepth := 3, maxSteps := 20 } 2,
      (v.pursued 20).length = 3 := by
    decide +kernel
  obtain ⟨hpending, hdecides⟩ := search_decides (.atom "A") circle
  rw [hcount] at hpending hdecides
  obtain ⟨v, hv, hlength⟩ := hthree
  exact ⟨hcount, ⟨v, hv, hlength, (hpending _ 2).2 v hv⟩, hdecides 31 (by decide)⟩

end Search

end NaturalDeduction
