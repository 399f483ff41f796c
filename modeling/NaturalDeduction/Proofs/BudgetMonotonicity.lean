import NaturalDeduction.Proofs.Passes
import NaturalDeduction.Proofs.Plans

/-!
# More budget loses nothing

Two searches for the same goal, of which one may take more steps, go along
together until the poorer one has no step left. From there on they differ:
the poorer one gets no answer any more, and the richer one may spend what it
has left on something that comes to nothing. The poorer one does not stop,
though, and what it has begun it can still finish, with what needs no
further question.

Whatever succeeds without a single answer succeeds with any answers. A plan
of this kind is *sure* (`Plan.Sure`), and whether the rest of a plan is sure
does not depend on the proof that the last answer gave (`Plan.Steady`). So
from the moment the poorer search is out of steps, all that it still
succeeds with is sure, and the richer one succeeds with it too, in the same
way or in one that it tries before (`Search.Outdoes.run`).
-/

namespace NaturalDeduction

namespace Plan

/-! ## Plans that are sure to succeed -/

/-- **A plan that is sure to succeed**: it does even if all questions are in
vain. -/
def Sure : Plan → Prop
  | done _ => True
  | fail _ | ask .. | assume .. => False
  | orElse first second => first.Sure ∨ second.Sure

/-- **A steady plan**: whether what follows a question is sure to succeed does
not depend on the proof that came back. -/
def Steady : Plan → Prop
  | done _ | fail _ => True
  | ask _ _ go _ => (∀ p q, (go p).Sure → (go q).Sure) ∧ ∀ p, (go p).Steady
  | assume _ _ _ go _ => ∀ n, (∀ p q, (go n p).Sure → (go n q).Sure) ∧ ∀ p, (go n p).Steady
  | orElse first second => first.Steady ∧ second.Steady

theorem Sure.exists_ok {plan : Plan} (h : plan.Sure) (prove : Prover) (t : Tally) :
    ∃ p, (plan.run prove t).1 = .ok p := by
  induction plan generalizing t with
  | done p => exact ⟨p, rfl⟩
  | fail e => exact h.elim
  | ask => exact h.elim
  | assume => exact h.elim
  | orElse first second ihf ihs =>
    rcases hfirst : first.run prove t with ⟨e | p, t₁⟩
    · rw [run_orElse_of_error hfirst]
      obtain h | h := h
      · obtain ⟨p, hp⟩ := ihf h t
        rw [hfirst] at hp
        cases hp
      · exact ihs h t₁
    · exact ⟨p, by rw [run_orElse_of_ok hfirst]⟩

section Searchers

variable {goal left right : Formula} {ctx : Context} {split : Bool} {proof : ProofTree}

theorem sure_ite {c : Prop} [Decidable c] {plan : Plan} :
    (if c then plan else noRule goal).Sure ↔ c ∧ plan.Sure := by
  split
  · rename_i hc
    exact (and_iff_right hc).symm
  · rename_i hc
    exact ⟨False.elim, fun h => hc h.1⟩

theorem steady_ite {c : Prop} [Decidable c] {plan : Plan} (h : plan.Steady) :
    (if c then plan else noRule goal).Steady := by
  split
  · exact h
  · trivial

theorem splitCases_not_sure : ¬ (splitCases goal ctx left right proof).Sure := by
  unfold splitCases
  split <;> exact id

theorem splitCases_steady : (splitCases goal ctx left right proof).Steady := by
  unfold splitCases
  split
  · trivial
  · exact fun m => ⟨fun _ _ => id, fun p n => ⟨fun _ _ => id, fun _ => trivial⟩⟩

/-- What a fact was proved by does not matter for what comes out of it. -/
theorem useFact_sure {fact : Formula} {p : ProofTree} (q : ProofTree)
    (h : (useFact goal ctx split fact p).Sure) : (useFact goal ctx split fact q).Sure := by
  fun_induction useFact goal ctx split fact p generalizing q with
  | case1 p =>
    rw [useFact_self]
    trivial
  | case2 p left right hgoal ihl ihr =>
    rw [useFact, if_neg hgoal]
    simp only [Sure, sure_ite] at h ⊢
    exact h.imp (And.imp_right (ihl _)) (Or.imp_left (And.imp_right (ihr _)))
  | case5 => exact absurd h splitCases_not_sure
  | case3 | case4 | case6 | case7 | case8 => exact h.elim

theorem useFact_steady (fact : Formula) (p : ProofTree) :
    (useFact goal ctx split fact p).Steady := by
  fun_induction useFact goal ctx split fact p with
  | case2 p left right hgoal ihl ihr => exact ⟨steady_ite ihl, steady_ite ihr, trivial⟩
  | case3 p left right hreach hgoal ihr => exact ⟨fun _ _ => useFact_sure _, ihr⟩
  | case5 => exact splitCases_steady
  | case1 | case4 | case6 | case7 | case8 => trivial

theorem eliminateFrom_steady (as : List Assumption) :
    (eliminateFrom goal ctx split as).Steady := by
  induction as with
  | nil => trivial
  | cons a rest ih =>
    unfold eliminateFrom
    split
    · exact ⟨useFact_steady _ _, ih⟩
    · exact ih

theorem plan_steady (s : Searcher) : (s.plan goal ctx).Steady := by
  cases s with
  | assumption =>
    show (byAssumption goal ctx).Steady
    unfold byAssumption
    split <;> trivial
  | andIntro =>
    cases goal with
    | and left right => exact ⟨fun _ _ => id, fun p => ⟨fun _ _ => id, fun q => trivial⟩⟩
    | _ => trivial
  | orIntro =>
    cases goal with
    | or left right => exact ⟨⟨fun _ _ => id, fun p => trivial⟩, fun _ _ => id, fun p => trivial⟩
    | _ => trivial
  | impIntro =>
    cases goal with
    | imp left right => exact fun n => ⟨fun _ _ => id, fun p => trivial⟩
    | _ => trivial
  | elim => exact eliminateFrom_steady _
  | orElim => exact eliminateFrom_steady _

/-- **The plan for a goal is steady.** -/
theorem firstOf_steady (ss : List Searcher) : (firstOf goal ctx ss).Steady := by
  induction ss with
  | nil => trivial
  | cons s rest ih => exact ⟨plan_steady s, ih⟩

end Searchers

end Plan

/-! ## A prover with more steps -/

namespace Search

/-- **The steps are spent**, and a goal has come up since. -/
structure Spent (maxSteps : Nat) (t : Tally) : Prop where
  steps : maxSteps ≤ t.steps
  outOfSteps : t.outOfSteps = true

theorem Spent.mono {maxSteps : Nat} {t t' : Tally} (h : Spent maxSteps t) (hle : t ≤ t') :
    Spent maxSteps t' :=
  ⟨h.steps.trans (Tally.later hle).steps, (Tally.later hle).outOfSteps h.outOfSteps⟩

/-- **An attempt that does as well with more steps**: both come to the same,
or the poorer one has spent its steps, and succeeds only if the richer one
does. -/
def DoesAsWell (maxSteps : Nat) (poor rich : Attempt) : Prop :=
  ∀ t, rich t = poor t
    ∨ Spent maxSteps (poor t).2 ∧ ((∃ p, (poor t).1 = .ok p) → ∃ p, (rich t).1 = .ok p)

/-- **A prover that does as well with more steps** as one that has
`maxSteps`. -/
structure Outdoes (maxSteps : Nat) (poor rich : Prover) : Prop where
  grows : ProverGrows poor
  refuses : ∀ goal ctx t, maxSteps ≤ t.steps → ∃ e t₁, poor goal ctx t = (.error e, t₁)
  doesAsWell : ∀ goal ctx, DoesAsWell maxSteps (poor goal ctx) (rich goal ctx)

section Plans

variable {maxSteps : Nat} {poor rich : Prover} {t : Tally} {plan : Plan}

/-- **What succeeds once the steps are spent is sure to succeed.** -/
theorem Outdoes.sure (h : Outdoes maxSteps poor rich) (ht : maxSteps ≤ t.steps)
    (hok : ∃ p, (plan.run poor t).1 = .ok p) : plan.Sure := by
  induction plan generalizing t with
  | done p => trivial
  | fail e =>
    obtain ⟨p, hp⟩ := hok
    cases hp
  | ask goal ctx go why =>
    obtain ⟨e, t₁, he⟩ := h.refuses goal ctx t ht
    rw [Plan.run_ask_of_error he] at hok
    obtain ⟨p, hp⟩ := hok
    cases hp
  | assume hypothesis goal ctx go why =>
    obtain ⟨e, t₁, he⟩ := h.refuses goal (ctx.push hypothesis t.fresh.1) t.fresh.2 ht
    rw [Plan.run_assume, Plan.run_ask_of_error he] at hok
    obtain ⟨p, hp⟩ := hok
    cases hp
  | orElse first second ihf ihs =>
    have hgrows := Plan.run_grows h.grows first t
    rcases hfirst : first.run poor t with ⟨e | p, t₁⟩
    · rw [Plan.run_orElse_of_error hfirst] at hok
      rw [hfirst] at hgrows
      exact Or.inr (ihs (ht.trans (Tally.later hgrows).steps) hok)
    · exact Or.inl (ihf ht ⟨p, by rw [hfirst]⟩)

/-- The rest of a plan, when the poorer prover has spent its steps on the
answer. -/
theorem Outdoes.rest (h : Outdoes maxSteps poor rich) {plan' : Plan} {t₁ t₁' : Tally}
    (hsure : plan.Sure → plan'.Sure) (hspent : Spent maxSteps t₁) :
    Spent maxSteps (plan.run poor t₁).2
      ∧ ((∃ p, (plan.run poor t₁).1 = .ok p) → ∃ p, (plan'.run rich t₁').1 = .ok p) :=
  ⟨hspent.mono (Plan.run_grows h.grows plan t₁),
    fun hok => (hsure (h.sure hspent.steps hok)).exists_ok rich t₁'⟩

/-- Asking, and going on with whatever proof comes back. -/
theorem Outdoes.ask (h : Outdoes maxSteps poor rich) {goal : Formula} {ctx : Context}
    {go : ProofTree → Plan} {why : Exhausted → Exhausted}
    (hsure : ∀ p q, (go p).Sure → (go q).Sure)
    (ih : ∀ p, DoesAsWell maxSteps ((go p).run poor) ((go p).run rich)) :
    DoesAsWell maxSteps ((Plan.ask goal ctx go why).run poor)
      ((Plan.ask goal ctx go why).run rich) := by
  intro t
  rcases hpoor : poor goal ctx t with ⟨e | p, t₁⟩
  · rw [Plan.run_ask_of_error hpoor]
    obtain heq | ⟨hspent, -⟩ := h.doesAsWell goal ctx t
    · rw [Plan.run_ask_of_error (heq.trans hpoor)]
      exact Or.inl rfl
    · rw [hpoor] at hspent
      exact Or.inr ⟨hspent, fun ⟨p, hp⟩ => nomatch hp⟩
  · rw [Plan.run_ask_of_ok hpoor]
    obtain heq | ⟨hspent, hrich⟩ := h.doesAsWell goal ctx t
    · rw [Plan.run_ask_of_ok (heq.trans hpoor)]
      exact ih p t₁
    · rw [hpoor] at hspent hrich
      obtain ⟨q, hq⟩ := hrich ⟨p, rfl⟩
      rw [Plan.run_ask_of_ok (Prod.ext hq rfl)]
      exact Or.inr (h.rest (hsure p q) hspent)

/-- **A steady plan does as well with the richer prover.** -/
theorem Outdoes.run (h : Outdoes maxSteps poor rich) (hsteady : plan.Steady) :
    DoesAsWell maxSteps (plan.run poor) (plan.run rich) := by
  induction plan with
  | done p => exact fun _ => Or.inl rfl
  | fail e => exact fun _ => Or.inl rfl
  | ask goal ctx go why ih => exact h.ask hsteady.1 fun p => ih p (hsteady.2 p)
  | assume hypothesis goal ctx go why ih =>
    intro t
    rw [Plan.run_assume, Plan.run_assume]
    exact h.ask (hsteady t.fresh.1).1 (fun p => ih _ p ((hsteady _).2 p)) t.fresh.2
  | orElse first second ihf ihs =>
    intro t
    have hfirst := ihf hsteady.1 t
    rcases hpoor : first.run poor t with ⟨e | p, t₁⟩ <;> rw [hpoor] at hfirst
    · rw [Plan.run_orElse_of_error hpoor]
      rcases hrich : first.run rich t with ⟨e' | q, t₁'⟩ <;> rw [hrich] at hfirst
      · rw [Plan.run_orElse_of_error hrich]
        obtain heq | ⟨hspent, -⟩ := hfirst
        · cases heq
          exact ihs hsteady.2 t₁
        · exact Or.inr (h.rest id hspent)
      · rw [Plan.run_orElse_of_ok hrich]
        obtain heq | ⟨hspent, -⟩ := hfirst
        · cases heq
        · exact Or.inr ⟨hspent.mono (Plan.run_grows h.grows second t₁), fun _ => ⟨q, rfl⟩⟩
    · rw [Plan.run_orElse_of_ok hpoor]
      obtain heq | ⟨hspent, hok⟩ := hfirst
      · rw [Plan.run_orElse_of_ok heq]
        exact Or.inl rfl
      · obtain ⟨q, hq⟩ := hok ⟨p, rfl⟩
        rw [Plan.run_orElse_of_ok (Prod.ext hq rfl)]
        exact Or.inr ⟨hspent, fun _ => ⟨q, rfl⟩⟩

end Plans

/-- **The search does as well with more steps.** -/
theorem findProof_outdoes {maxSteps maxSteps' : Nat} (hle : maxSteps ≤ maxSteps') (room : Nat)
    (pending : List Pursuit) :
    Outdoes maxSteps (findProof maxSteps room pending) (findProof maxSteps' room pending) := by
  induction room generalizing pending with
  | zero =>
    refine ⟨findProof_grows _ _ _, fun _ _ _ ht => ⟨_, _, findProof_of_steps ht⟩, ?_⟩
    intro goal ctx t
    by_cases hs : maxSteps ≤ t.steps
    · rw [findProof_of_steps hs]
      exact Or.inr ⟨⟨hs, rfl⟩, fun ⟨_, hp⟩ => nomatch hp⟩
    · by_cases hs' : maxSteps' ≤ t.steps
      · exact absurd (hle.trans hs') hs
      · rw [findProof_zero hs, findProof_zero hs']
        exact Or.inl rfl
  | succ room ih =>
    refine ⟨findProof_grows _ _ _, fun _ _ _ ht => ⟨_, _, findProof_of_steps ht⟩, ?_⟩
    intro goal ctx t
    by_cases hs : maxSteps ≤ t.steps
    · rw [findProof_of_steps hs]
      exact Or.inr ⟨⟨hs, rfl⟩, fun ⟨_, hp⟩ => nomatch hp⟩
    have hs' : ¬ maxSteps' ≤ t.steps := fun h => hs (hle.trans h)
    by_cases hp : pending.any (·.same (.of goal ctx)) = true
    · rw [findProof_of_pending hs hp, findProof_of_pending hs' hp]
      exact Or.inl rfl
    · rw [findProof_succ hs hp, findProof_succ hs' hp, firstOf_eq_run, firstOf_eq_run]
      exact (ih _).run (Plan.firstOf_steady _) _

/-! ## A search with more budget -/

/-- **A result that is no worse**: where there was a proof there is one, the
same if `alike`, and the verdict that no rule applies still stands. -/
def NoWorse (alike : Prop) (r r' : Except Exhausted ProofTree) : Prop :=
  match r with
  | .ok p => ∃ q, r' = .ok q ∧ (alike → q = p)
  | .error e => e.reason = .rules → r' = .error e

theorem NoWorse.map {alike : Prop} {r r' : Except Exhausted ProofTree}
    (h : NoWorse alike r r') (f : ProofTree → ProofTree) :
    NoWorse alike (r.map f) (r'.map f) := by
  rcases r with e | p
  · intro he
    rw [h he]
    rfl
  · obtain ⟨q, rfl, hq⟩ := h
    exact ⟨f q, rfl, fun ha => congrArg f (hq ha)⟩

section Budgets

variable {goal : Formula} {ctx : Context} {budget budget' : Budget} {n : Nat}

/-- A pass that starts in the same way does as well with more steps. -/
theorem pass_doesAsWell (hsteps : budget.maxSteps ≤ budget'.maxSteps)
    (htally : (afterPasses goal ctx budget' n).tally = (afterPasses goal ctx budget n).tally) :
    (passResult goal ctx budget' n = passResult goal ctx budget n
        ∧ (afterPasses goal ctx budget' (n + 1)).tally
          = (afterPasses goal ctx budget (n + 1)).tally)
      ∨ (afterPasses goal ctx budget (n + 1)).tally.outOfSteps = true
        ∧ ((∃ p, passResult goal ctx budget n = .ok p) →
          ∃ p, passResult goal ctx budget' n = .ok p) := by
  have hstart : passStart goal ctx budget' n = passStart goal ctx budget n := by
    rw [passStart, passStart, htally]
  rw [passResult_eq, passResult_eq, tally_afterPasses_succ, tally_afterPasses_succ, hstart]
  obtain heq | ⟨hspent, hok⟩ := (findProof_outdoes hsteps (n + 1) []).doesAsWell goal ctx
    (passStart goal ctx budget n)
  · exact Or.inl ⟨congrArg Prod.fst heq, congrArg Prod.snd heq⟩
  · exact Or.inr ⟨hspent.outOfSteps, hok⟩

/-- With the same number of steps, a pass that starts in the same way is the
same. -/
theorem pass_alike (hsteps : budget.maxSteps = budget'.maxSteps)
    (htally : (afterPasses goal ctx budget' n).tally = (afterPasses goal ctx budget n).tally) :
    passResult goal ctx budget' n = passResult goal ctx budget n := by
  rw [passResult_eq, passResult_eq, passStart, passStart, htally, hsteps]

/-- **More passes with more steps are no worse.** -/
theorem passes_noWorse (hsteps : budget.maxSteps ≤ budget'.maxSteps) {remaining remaining' : Nat}
    (hle : remaining ≤ remaining')
    (htally : (afterPasses goal ctx budget' n).tally = (afterPasses goal ctx budget n).tally) :
    NoWorse (budget.maxSteps = budget'.maxSteps)
      (passes goal ctx remaining (n + 1) (afterPasses goal ctx budget n)).1
      (passes goal ctx remaining' (n + 1) (afterPasses goal ctx budget' n)).1 := by
  induction remaining generalizing remaining' n with
  | zero => exact fun he => nomatch he
  | succ remaining ih =>
    obtain ⟨remaining', rfl⟩ : ∃ k, remaining' = k + 1 := ⟨remaining' - 1, by omega⟩
    have hpass := pass_doesAsWell hsteps htally
    have halike : budget.maxSteps = budget'.maxSteps →
        passResult goal ctx budget' n = passResult goal ctx budget n :=
      fun ha => pass_alike ha htally
    rw [passes_succ, passes_succ]
    rcases hresult : passResult goal ctx budget n with e | p <;> rw [hresult] at hpass halike
    · obtain ⟨hresult', htally'⟩ | ⟨hout, -⟩ := hpass
      · rw [hresult', htally']
        dsimp only
        split
        · exact fun he => nomatch he
        · split
          · exact ih (by omega) htally'
          · exact fun _ => rfl
      · dsimp only
        rw [if_pos hout]
        exact fun he => nomatch he
    · obtain ⟨q, hq⟩ : ∃ q, passResult goal ctx budget' n = .ok q := by
        obtain ⟨hresult', -⟩ | ⟨-, hok⟩ := hpass
        · exact ⟨p, hresult'⟩
        · exact hok ⟨p, rfl⟩
      rw [hq] at halike ⊢
      exact ⟨q, rfl, fun ha => Except.ok.inj (halike ha)⟩

/-- **A search with more budget is no worse.** -/
theorem result_noWorse (goal : Formula) (ctx : Context)
    (hdepth : budget.maxDepth ≤ budget'.maxDepth) (hsteps : budget.maxSteps ≤ budget'.maxSteps) :
    NoWorse (budget.maxSteps = budget'.maxSteps) (search goal ctx budget).result
      (search goal ctx budget').result := by
  rw [result_eq, result_eq]
  exact (passes_noWorse hsteps hdepth rfl).map _

end Budgets

/-- **Budgets are monotone and verdicts never conflict.** With more depth and
more steps a search that found a proof finds one, the same one if it was
given no more steps, and one that found that no rule applies finds so again.
So no two budgets lead to a proof and to this verdict. -/
theorem search_mono_budget (goal : Formula) (ctx : Context) :
    (∀ budget budget' : Budget, budget.maxDepth ≤ budget'.maxDepth →
      budget.maxSteps ≤ budget'.maxSteps →
        (∀ p, (search goal ctx budget).result = .ok p →
          (∃ q, (search goal ctx budget').result = .ok q)
            ∧ (budget.maxSteps = budget'.maxSteps → (search goal ctx budget').result = .ok p))
        ∧ ∀ e, (search goal ctx budget).result = .error e → e.reason = .rules →
          (search goal ctx budget').result = .error e)
    ∧ ∀ (budget budget' : Budget) (p : ProofTree) (e : Exhausted),
      (search goal ctx budget).result = .ok p → (search goal ctx budget').result = .error e →
        e.reason ≠ .rules := by
  refine ⟨fun budget budget' hdepth hsteps => ⟨fun p hp => ?_, fun e he => ?_⟩,
    fun budget budget' p e hp he hrules => ?_⟩
  · have h := result_noWorse goal ctx hdepth hsteps
    rw [hp] at h
    obtain ⟨q, hq, halike⟩ := h
    exact ⟨⟨q, hq⟩, fun ha => halike ha ▸ hq⟩
  · have h := result_noWorse goal ctx hdepth hsteps
    rw [he] at h
    exact h
  · -- a budget that is larger than both would have to lead to both
    let both : Budget :=
      { maxDepth := max budget.maxDepth budget'.maxDepth
        maxSteps := max budget.maxSteps budget'.maxSteps
        maxDepth_pos := budget.maxDepth_pos.trans_le (le_max_left _ _)
        maxSteps_pos := budget.maxSteps_pos.trans_le (le_max_left _ _) }
    have hproof : NoWorse _ (search goal ctx budget).result (search goal ctx both).result :=
      result_noWorse goal ctx (le_max_left _ _) (le_max_left _ _)
    have hverdict : NoWorse _ (search goal ctx budget').result (search goal ctx both).result :=
      result_noWorse goal ctx (le_max_right _ _) (le_max_right _ _)
    rw [hp] at hproof
    rw [he] at hverdict
    obtain ⟨q, hq, -⟩ := hproof
    rw [hverdict hrules] at hq
    cases hq

/-- The assumptions `(A ∨ B) ∧ C` and `A`, which both give `A ∨ B`. -/
def twoWays : Context :=
  ⟨[⟨.and (.or (.atom "A") (.atom "B")) (.atom "C"), 1⟩, ⟨.atom "A", 2⟩]⟩

/-- The goal `(D → D) ∧ (A ∨ B)`, of which the left side lies deeper. -/
def uneven : Formula :=
  .and (.imp (.atom "D") (.atom "D")) (.or (.atom "A") (.atom "B"))

/-- A search of seven steps takes `A ∨ B` out of the first assumption, as it has
no step left to try anything else, and does so with any more depth. With one
more step it proves `A ∨ B` from the second. -/
theorem search_mono_budget_twoWays :
    ∃ p q, p.referenced = [3, 1] ∧ q.referenced = [3, 2]
      ∧ (search uneven twoWays { maxDepth := 50, maxSteps := 7 }).result = .ok p
      ∧ (search uneven twoWays { maxDepth := 3, maxSteps := 8 }).result = .ok q := by
  have hseven : (search uneven twoWays { maxDepth := 3, maxSteps := 7 }).result.toOption.map
      ProofTree.referenced = some [3, 1] := by
    decide +kernel
  have height : (search uneven twoWays { maxDepth := 3, maxSteps := 8 }).result.toOption.map
      ProofTree.referenced = some [3, 2] := by
    decide +kernel
  have hmono := (search_mono_budget uneven twoWays).1 { maxDepth := 3, maxSteps := 7 }
  obtain ⟨p, hp, hfirst⟩ := Attempt.exists_proof hseven
  obtain ⟨⟨q, hq⟩, -⟩ :=
    (hmono { maxDepth := 3, maxSteps := 8 } (by decide) (by decide)).1 p hp
  obtain ⟨-, hdeep⟩ :=
    (hmono { maxDepth := 50, maxSteps := 7 } (by decide) (by decide)).1 p hp
  rw [hq] at height
  exact ⟨p, q, hfirst, Option.some.inj height, hdeep rfl, hq⟩

end Search

end NaturalDeduction
