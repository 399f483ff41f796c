import NaturalDeduction.Proofs.Attempts

/-!
# Searchers as plans

A searcher is handed a prover and could do anything with it. What it does is
always of the same kind: it puts a question to the prover, goes on with the
proof that comes back or gives up if none does, and may have a second thing
to try when the first has failed. A `Plan` is a searcher written down in
these terms, before there is a prover to ask.

Every searcher has a plan (`Searcher.plan`), and following the plan with a
prover is what the searcher does (`firstOf_eq_run`). What holds of all
searchers with all provers is then one induction on plans. What the plan of
a goal asks can be said without any prover at all (`Plan.Asks`).
-/

namespace NaturalDeduction

/-- **A plan** for proving something with the help of a prover. -/
inductive Plan where
  /-- There is a proof already. -/
  | done (p : ProofTree)
  /-- There is nothing to try. -/
  | fail (e : Exhausted)
  /-- Asks for a proof of a goal and goes on with it. If there is none, the
  plan fails, for a reason that may depend on why there is none. -/
  | ask (goal : Formula) (ctx : Context) (go : ProofTree → Plan) (why : Exhausted → Exhausted)
  /-- Asks in the same way, with one more assumption under a fresh number. -/
  | assume (hypothesis goal : Formula) (ctx : Context) (go : Int → ProofTree → Plan)
      (why : Exhausted → Exhausted)
  /-- Tries a second plan if the first one fails. -/
  | orElse (first second : Plan)

namespace Plan

open Attempt

/-- **Following a plan** with a prover to ask. -/
def run (prove : Prover) : Plan → Attempt
  | done p => succeed p
  | fail e => Attempt.fail e
  | ask goal ctx go why =>
    (prove goal ctx).branch (fun p => (go p).run prove) fun e => Attempt.fail (why e)
  | assume hypothesis goal ctx go why => withFresh fun n =>
    (prove goal (ctx.push hypothesis n)).branch (fun p => (go n p).run prove)
      fun e => Attempt.fail (why e)
  | orElse first second => (first.run prove).branch succeed fun _ => second.run prove

/-- A plan that asks nothing but questions of one kind, whatever the
answers. -/
def Asks (question : Formula → Context → Prop) : Plan → Prop
  | done _ | fail _ => True
  | ask goal ctx go _ => question goal ctx ∧ ∀ p, (go p).Asks question
  | assume hypothesis goal ctx go _ =>
    ∀ n, question goal (ctx.push hypothesis n) ∧ ∀ p, (go n p).Asks question
  | orElse first second => first.Asks question ∧ second.Asks question

section Run

variable {prove : Prover} {goal hypothesis : Formula} {ctx : Context} {go : ProofTree → Plan}
  {why : Exhausted → Exhausted} {first second : Plan} {p : ProofTree} {e : Exhausted}
  {t t₁ : Tally}

theorem run_ask_of_ok (h : prove goal ctx t = (.ok p, t₁)) :
    (ask goal ctx go why).run prove t = (go p).run prove t₁ := branch_of_ok h

theorem run_ask_of_error (h : prove goal ctx t = (.error e, t₁)) :
    (ask goal ctx go why).run prove t = (.error (why e), t₁) := branch_of_error h

/-- A plan that assumes something asks, once the number has been handed
out. -/
theorem run_assume {go : Int → ProofTree → Plan} :
    (assume hypothesis goal ctx go why).run prove t =
      (ask goal (ctx.push hypothesis t.fresh.1) (go t.fresh.1) why).run prove t.fresh.2 := rfl

theorem run_orElse_of_ok (h : first.run prove t = (.ok p, t₁)) :
    (orElse first second).run prove t = (.ok p, t₁) := branch_of_ok h

theorem run_orElse_of_error (h : first.run prove t = (.error e, t₁)) :
    (orElse first second).run prove t = second.run prove t₁ := branch_of_error h

end Run

/-- **Following a plan moves the tally on**, if asking the prover does. -/
theorem run_grows {prove : Prover} (h : Search.ProverGrows prove) (plan : Plan) :
    (plan.run prove).Grows := by
  induction plan with
  | done p => exact grows_succeed p
  | fail e => exact grows_fail e
  | ask goal ctx go why ih => exact (h goal ctx).branch ih fun e => grows_fail _
  | assume hypothesis goal ctx go why ih =>
    exact .withFresh fun n => (h goal (ctx.push hypothesis n)).branch (ih n) fun e => grows_fail _
  | orElse first second ihf ihs => exact ihf.branch grows_succeed fun _ => ihs

/-! ## The plans of the searchers -/

variable (goal : Formula) (ctx : Context)

/-- The plan that has nothing to try, since no rule applies. -/
def noRule : Plan := .fail ⟨goal, .rules⟩

/-- Looks for the goal among the assumptions. -/
def byAssumption : Plan :=
  match ctx.lookup goal with
  | some a => .done (.ofAssumption a)
  | none => noRule goal

/-- Proves both sides of a conjunction. -/
def byAndIntro : Plan :=
  match goal with
  | .and left right =>
    .ask left ctx (fun p => .ask right ctx (fun q => .done (.infer goal .andIntro [p, q])) id) id
  | _ => noRule goal

/-- Proves the left side of a disjunction, or else its right side. -/
def byOrIntro : Plan :=
  match goal with
  | .or left right =>
    .orElse (.ask left ctx (fun p => .done (.infer goal .orIntroLeft [p])) id)
      (.ask right ctx (fun p => .done (.infer goal .orIntroRight [p])) fun _ => ⟨goal, .rules⟩)
  | _ => noRule goal

/-- Proves the right side of an implication, assuming its left side. -/
def byImpIntro : Plan :=
  match goal with
  | .imp left right =>
    .assume left right ctx
      (fun n p => .done { ProofTree.infer goal .impIntro [p] with discharges := [some n] }) id
  | _ => noRule goal

/-- Proves the goal in either case of a disjunction. -/
def splitCases (left right : Formula) (disjunction : ProofTree) : Plan :=
  if (ctx.lookup left).isSome || (ctx.lookup right).isSome then noRule goal
  else
    .assume left goal ctx
      (fun m p => .assume right goal ctx
        (fun n q => .done { ProofTree.infer goal .orElim [disjunction, p, q] with
          discharges := [some m, some n] }) id) id

/-- Takes a fact apart until the goal falls out. -/
def useFact (split : Bool) (fact : Formula) (proof : ProofTree) : Plan :=
  if fact = goal then .done proof
  else
    match fact with
    | .and left right =>
      .orElse
        (if Search.reaches split left goal then
          useFact split left (.infer left .andElimLeft [proof]) else noRule goal)
        (.orElse
          (if Search.reaches split right goal then
            useFact split right (.infer right .andElimRight [proof]) else noRule goal)
          (noRule goal))
    | .imp left right =>
      if Search.reaches split right goal then
        .ask left ctx (fun p => useFact split right (.infer right .impElim [p, proof]))
          fun _ => ⟨goal, .rules⟩
      else noRule goal
    | .or left right => if split then splitCases goal ctx left right proof else noRule goal
    | .atom _ | .neg _ => noRule goal

theorem useFact_self (split : Bool) (proof : ProofTree) :
    useFact goal ctx split goal proof = .done proof := by
  unfold useFact
  rw [if_pos rfl]

/-- Takes those of the assumptions apart that the goal can come out of. -/
def eliminateFrom (split : Bool) : List Assumption → Plan
  | [] => noRule goal
  | a :: rest =>
    if a.formula ≠ goal ∧ Search.reaches split a.formula goal then
      .orElse (useFact goal ctx split a.formula (.ofAssumption a)) (eliminateFrom split rest)
    else eliminateFrom split rest

end Plan

/-- **The plan of a searcher.** -/
def Searcher.plan (goal : Formula) (ctx : Context) : Searcher → Plan
  | assumption => .byAssumption goal ctx
  | andIntro => .byAndIntro goal ctx
  | orIntro => .byOrIntro goal ctx
  | impIntro => .byImpIntro goal ctx
  | elim => .eliminateFrom goal ctx false ctx.assumptions
  | orElim => .eliminateFrom goal ctx true ctx.assumptions

namespace Plan

/-- The plan to try some searchers in order. -/
def firstOf (goal : Formula) (ctx : Context) : List Searcher → Plan
  | [] => noRule goal
  | s :: rest => .orElse (s.plan goal ctx) (firstOf goal ctx rest)

/-- **The plan for a goal**: all searchers in order. -/
def ofGoal (goal : Formula) (ctx : Context) : Plan := firstOf goal ctx Searcher.all

end Plan

/-! ## Following the plans -/

namespace Search

open Attempt

variable {prove : Prover} {split : Bool} {goal left right : Formula} {ctx : Context}
  {proof : ProofTree}

theorem byAssumption_eq_run :
    byAssumption goal ctx = (Plan.byAssumption goal ctx).run prove := by
  unfold byAssumption Plan.byAssumption
  cases ctx.lookup goal <;> rfl

theorem byAndIntro_eq_run :
    byAndIntro prove goal ctx = (Plan.byAndIntro goal ctx).run prove := by
  cases goal with
  | and left right => exact byAndIntro_and prove left right ctx
  | _ => rfl

theorem byOrIntro_eq_run : byOrIntro prove goal ctx = (Plan.byOrIntro goal ctx).run prove := by
  cases goal with
  | or left right =>
    rw [byOrIntro_or]
    funext t
    simp only [Plan.byOrIntro, Plan.run, branch]
    rcases prove left ctx t with ⟨e | p, t₁⟩ <;> rfl
  | _ => rfl

theorem byImpIntro_eq_run :
    byImpIntro prove goal ctx = (Plan.byImpIntro goal ctx).run prove := by
  cases goal with
  | imp left right => exact byImpIntro_imp prove left right ctx
  | _ => rfl

theorem splitCases_eq_run :
    splitCases prove goal ctx left right proof =
      (Plan.splitCases goal ctx left right proof).run prove := by
  rw [splitCases_eq, Plan.splitCases]
  split <;> rfl

theorem useFact_eq_run (fact : Formula) (proof : ProofTree) :
    useFact prove split goal ctx fact proof =
      (Plan.useFact goal ctx split fact proof).run prove := by
  induction fact generalizing proof with
  | atom name | neg body =>
    rw [useFact, Plan.useFact]
    split <;> rfl
  | or left right =>
    rw [useFact, Plan.useFact]
    split
    · rfl
    · rw [splitCases_eq_run, apply_ite (Plan.run prove)]
      rfl
  | and left right ihl ihr =>
    by_cases hgoal : Formula.and left right = goal
    · rw [hgoal, useFact_self, Plan.useFact_self]
      rfl
    · rw [useFact_and hgoal, Plan.useFact, if_neg hgoal, follow, follow, ihl, ihr]
      simp only [Plan.run, apply_ite (Plan.run prove)]
      rfl
  | imp left right _ ihr =>
    by_cases hgoal : Formula.imp left right = goal
    · rw [hgoal, useFact_self, Plan.useFact_self]
      rfl
    · rw [useFact_imp hgoal, Plan.useFact, if_neg hgoal, apply_ite (Plan.run prove)]
      simp only [Plan.run, ihr]
      rfl

theorem eliminateFrom_eq_run (as : List Assumption) :
    eliminateFrom prove split goal ctx as = (Plan.eliminateFrom goal ctx split as).run prove := by
  induction as with
  | nil => rfl
  | cons a rest ih =>
    rw [eliminateFrom_cons, Plan.eliminateFrom, useFact_eq_run, ih]
    split <;> rfl

/-- **A searcher follows its plan.** -/
theorem run_eq_run (s : Searcher) : s.run prove goal ctx = (s.plan goal ctx).run prove := by
  cases s with
  | assumption => exact byAssumption_eq_run
  | andIntro => exact byAndIntro_eq_run
  | orIntro => exact byOrIntro_eq_run
  | impIntro => exact byImpIntro_eq_run
  | elim => exact eliminateFrom_eq_run _
  | orElim => exact eliminateFrom_eq_run _

theorem firstOf_eq_run (ss : List Searcher) :
    firstOf prove goal ctx ss = (Plan.firstOf goal ctx ss).run prove := by
  induction ss with
  | nil => rfl
  | cons s rest ih =>
    rw [firstOf_cons, run_eq_run, ih]
    rfl

/-! ## Every searcher moves the tally on -/

theorem noRule_grows (goal : Formula) : (noRule goal).Grows := grows_fail _

theorem useFact_grows (h : ProverGrows prove) (fact : Formula) (proof : ProofTree) :
    (useFact prove split goal ctx fact proof).Grows := by
  rw [useFact_eq_run]
  exact Plan.run_grows h _

theorem follow_grows {fact : Formula}
    (h : (useFact prove split goal ctx fact proof).Grows) :
    (follow prove goal ctx split fact proof).Grows := by
  unfold follow
  split
  · exact h
  · exact noRule_grows goal

theorem eliminateFrom_grows (h : ProverGrows prove) (as : List Assumption) :
    (eliminateFrom prove split goal ctx as).Grows := by
  rw [eliminateFrom_eq_run]
  exact Plan.run_grows h _

theorem run_grows (h : ProverGrows prove) (s : Searcher) : (s.run prove goal ctx).Grows := by
  rw [run_eq_run]
  exact Plan.run_grows h _

theorem firstOf_grows (h : ProverGrows prove) (ss : List Searcher) :
    (firstOf prove goal ctx ss).Grows := by
  rw [firstOf_eq_run]
  exact Plan.run_grows h _

/-- **A search moves the tally on.** -/
theorem findProof_grows (maxSteps room : Nat) (pending : List Pursuit) :
    ProverGrows (findProof maxSteps room pending) := by
  induction room generalizing pending with
  | zero =>
    intro goal ctx t
    by_cases hs : maxSteps ≤ t.steps
    · rw [findProof_of_steps hs]
      exact Tally.Later.mk le_rfl le_rfl id fun _ => rfl
    · rw [findProof_zero hs]
      exact Tally.Later.mk le_rfl le_rfl (fun _ => rfl) id
  | succ room ih =>
    intro goal ctx t
    by_cases hs : maxSteps ≤ t.steps
    · rw [findProof_of_steps hs]
      exact Tally.Later.mk le_rfl le_rfl id fun _ => rfl
    by_cases hp : pending.any (·.same (.of goal ctx)) = true
    · rw [findProof_of_pending hs hp]
      exact noRule_grows goal t
    · rw [findProof_succ hs hp]
      have hstep : t ≤ { t with steps := t.steps + 1 } :=
        Tally.Later.mk le_rfl (Nat.le_succ _) id id
      exact hstep.trans (firstOf_grows (ih _) _ _)

end Search

end NaturalDeduction
