import NaturalDeduction.Proofs.Executions
import NaturalDeduction.Proofs.SearchTrees

/-!
# What a call leaves behind in the state

Whoever calls into a search, for a goal, with one searcher or with a proof to be
taken apart, gets the state back in order, whether there is a proof or not: it
stands where it stood, the tally has only moved on, and what was created has
numbers of its own (`executes_disciplined`).

For the state this is said of executions, which write to it, and for the tally of
the attempts they agree with. The numbers need more care where a proof is handed
in. It becomes part of what is returned and may discharge anything, the numbers
handed out included; what can be said is about the numbers discharged outside of
it (`ProofTree.Around`).
-/

namespace NaturalDeduction

/-! ## Around a tree -/

namespace ProofTree

/-- **A tree around another one**: `p` holds `q` somewhere, and `ns` are the
numbers discharged in `p` outside of it, each node before its premises. -/
inductive Around (q : ProofTree) : ProofTree → List Int → Prop where
  | here : Around q q []
  | under {p x : ProofTree} {ns : List Int} (before after : List ProofTree)
      (hpremises : p.premises = before ++ x :: after) (h : Around q x ns) :
      Around q p (p.discharged ++ (before.flatMap allDischarged
        ++ (ns ++ after.flatMap allDischarged)))

namespace Around

variable {q p d r : ProofTree} {ns : List Int}

/-- What a tree discharges is discharged inside or outside, so that the place
where the other tree stands makes no difference to the numbers outside. -/
theorem perm (h : Around q p ns) : p.allDischarged.Perm (ns ++ q.allDischarged) := by
  induction h with
  | here => exact .refl _
  | @under p x ns before after hpremises _ ih =>
    rw [allDischarged_eq, allDischargedOf_eq, hpremises, List.flatMap_append, List.flatMap_cons]
    simp only [List.append_assoc]
    refine List.Perm.append_left _ (List.Perm.append_left _ ?_)
    refine (ih.append_right _).trans ?_
    rw [List.append_assoc]
    exact List.Perm.append_left _ List.perm_append_comm

theorem infer (h : Around q d ns) (claim : Formula) (rule : Rule) :
    Around q (.infer claim rule [d]) ns := by
  simpa [ProofTree.infer, discharged] using
    Around.under (p := .infer claim rule [d]) [] [] rfl h

theorem impElim (h : Around q d ns) (claim : Formula) (p : ProofTree) :
    Around q (.infer claim .impElim [p, d]) (p.allDischarged ++ ns) := by
  simpa [ProofTree.infer, discharged] using
    Around.under (p := .infer claim .impElim [p, d]) [p] [] rfl h

theorem orElim (h : Around q d ns) (claim : Formula) (p r : ProofTree) (m n : Int) :
    Around q { ProofTree.infer claim .orElim [d, p, r] with discharges := [some m, some n] }
      (m :: n :: (ns ++ (p.allDischarged ++ r.allDischarged))) := by
  simpa [ProofTree.infer, discharged] using
    Around.under (p := { ProofTree.infer claim .orElim [d, p, r] with
      discharges := [some m, some n] }) [] [p, r] rfl h

end Around

end ProofTree

/-! ## The numbers created around a proof -/

namespace Search

open Attempt ProofTree

/-- A prover whose proofs discharge distinct numbers, all of them handed out on
the way. -/
def ProverNumbers (prove : Prover) : Prop :=
  ∀ goal ctx lo, (prove goal ctx).Finds lo fun hi p => DistinctIn lo hi p.allDischarged

/-- A proof around a given one with distinct numbers outside of it. -/
def FoundAround (q : ProofTree) (lo hi : Int) (p : ProofTree) : Prop :=
  ∃ ns, Around q p ns ∧ DistinctIn lo hi ns

theorem FoundAround.widen {q p : ProofTree} {lo mid hi : Int} (h : FoundAround q lo mid p)
    (hle : mid ≤ hi) : FoundAround q lo hi p := by
  obtain ⟨ns, haround, hdistinct⟩ := h
  exact ⟨ns, haround, hdistinct.widen hle⟩

variable {prove : Prover} {split : Bool} {goal : Formula} {ctx : Context} {q d : ProofTree}
  {lo mid : Int}

theorem findProof_numbers (maxSteps room : Nat) (pending : List Pursuit) :
    ProverNumbers (findProof maxSteps room pending) := fun goal ctx lo t p hlo hp =>
  (findProof_builds maxSteps room pending goal ctx lo t p hlo hp).2.distinctIn

theorem splitCases_around (hg : ProverGrows prove) (h : ProverNumbers prove) {left right : Formula}
    (hd : FoundAround q lo mid d) (hlo : lo ≤ mid) :
    (splitCases prove goal ctx left right d).Finds mid (FoundAround q lo) := by
  obtain ⟨ns, haround, hns⟩ := hd
  rw [splitCases_eq]
  split
  · exact finds_fail _
  · refine Finds.withFresh fun m hm => ?_
    refine Finds.branch (hg goal _) (h goal _ (m + 1)) (fun p mid' hmid' hp => ?_) finds_fail
    refine Finds.withFresh fun n hn => ?_
    refine Finds.branch (hg goal _) (h goal _ (n + 1)) (fun r hi hhi hr => ?_) finds_fail
    refine finds_succeed fun hi' hle => ⟨_, haround.orElim goal p r m n, ?_⟩
    exact hns.split hlo hm hp hmid' hn (hr.widen hle) (hhi.trans hle)

/-- What is found around a proof by the first attempt, or by what is tried after
it fails. -/
theorem around_orElse {a : Attempt} {b : Exhausted → Attempt} (hg : a.Grows)
    (ha : a.Finds mid (FoundAround q lo)) (hb : ∀ e, (b e).Finds mid (FoundAround q lo)) :
    (a.branch succeed b).Finds mid (FoundAround q lo) :=
  Finds.branch hg ha (fun _ _ _ hp => finds_succeed fun _ hle => hp.widen hle) hb

theorem useFact_around (hg : ProverGrows prove) (h : ProverNumbers prove) (fact : Formula)
    (proof : ProofTree) (hproof : FoundAround q lo mid proof) (hlo : lo ≤ mid) :
    (useFact prove split goal ctx fact proof).Finds mid (FoundAround q lo) := by
  refine useFact_induction (motive := fun _ proof a => ∀ mid, lo ≤ mid →
    FoundAround q lo mid proof → a.Finds mid (FoundAround q lo)) ?_ ?_ ?_ ?_ ?_ fact proof mid hlo
    hproof
  · exact fun proof mid _ hproof => finds_succeed fun hi hle => hproof.widen hle
  · exact fun _ _ _ _ _ => finds_fail _
  · rintro left right proof hl hr mid hlo ⟨ns, haround, hns⟩
    refine around_orElse (follow_grows (useFact_grows hg _ _))
      (hl _ mid hlo ⟨ns, haround.infer left .andElimLeft, hns⟩) fun _ => ?_
    exact around_orElse (follow_grows (useFact_grows hg _ _))
      (hr _ mid hlo ⟨ns, haround.infer right .andElimRight, hns⟩) fun _ => finds_fail _
  · rintro left right proof hr mid hlo ⟨ns, haround, hns⟩
    refine Finds.branch (hg left ctx) (h left ctx mid) (fun p m hm hp => ?_) (fun _ => finds_fail _)
    have hboth : DistinctIn lo m (p.allDischarged ++ ns) :=
      (hns.append hlo hm hp).perm List.perm_append_comm
    exact hr _ m (hlo.trans hm) ⟨_, haround.impElim right p, hboth⟩
  · exact fun left right proof mid hlo hproof => splitCases_around hg h hproof hlo

end Search

/-! ## Steps and depths -/

namespace Execution

/-- **An execution that accounts for its steps**: each step is the entry of a
goal above the depth limit, and none is taken that the budget has not left. -/
structure Accounts (x : Execution) (s : SearchState) : Prop where
  counted : x.state.tally.steps = s.tally.steps + x.entries.length
  bounded : x.state.tally.steps ≤ max s.budget.maxSteps s.tally.steps
  shallow : ∀ e ∈ x.entries, (e.depth : Int) < s.depthLimit

variable {x y : Execution} {s : SearchState}

/-- An execution that takes up nothing has no steps to account for. -/
theorem accounts_of_steps_eq (hentries : x.entries = [])
    (hsteps : x.state.tally.steps = s.tally.steps) : x.Accounts s := by
  refine ⟨?_, ?_, ?_⟩
  · rw [hsteps, hentries]
    rfl
  · rw [hsteps]
    exact le_max_right _ _
  · rw [hentries]
    exact fun e he => absurd he List.not_mem_nil

/-- One execution after another accounts for the steps of both. -/
theorem Accounts.trans {a : Attempt} (hx : x.Accounts s) (hagrees : x.Agrees s a)
    (hy : y.Accounts x.state) :
    (Execution.mk y.result y.state (x.entries ++ y.entries)).Accounts s := by
  have hxcounted := hx.counted
  have hxbounded := hx.bounded
  have hycounted := hy.counted
  have hybounded := hy.bounded
  rw [hagrees.budget_eq] at hybounded
  refine ⟨?_, ?_, fun e he => ?_⟩
  · dsimp only
    rw [List.length_append]
    omega
  · dsimp only
    omega
  · obtain he | he := List.mem_append.mp he
    · exact hx.shallow e he
    · exact hagrees.depthLimit_eq ▸ hy.shallow e he

end Execution

namespace Executes

open SearchState

variable {task : Task} {s : SearchState} {x : Execution}

/-- **Every execution accounts for its steps.** -/
theorem accounts (h : Executes task s x) : x.Accounts s := by
  induction h with
  | outOfSteps | tooDeep | circular | done | fail => exact Execution.accounts_of_steps_eq rfl rfl
  | @takenUp s goal ctx x hsteps hdepth _ _ ih =>
    have hcounted : x.state.tally.steps = s.tally.steps + 1 + x.entries.length := ih.counted
    have hbounded : _ ≤ max _ (s.tally.steps + 1) := ih.bounded
    rw [budget_enter] at hbounded
    refine ⟨?_, ?_, List.forall_mem_cons.mpr ⟨Int.lt_of_not_ge hdepth, fun e he => ?_⟩⟩
    · show x.state.tally.steps = s.tally.steps + (x.entries.length + 1)
      omega
    · show x.state.tally.steps ≤ _
      omega
    · have hshallow := ih.shallow e he
      rwa [depthLimit_enter] at hshallow
  | askProved hask _ _ ihask ihgo => exact ihask.trans hask.agrees ihgo
  | askFailed _ _ ih => exact ⟨ih.counted, ih.bounded, ih.shallow⟩
  | assume _ ih => exact ⟨ih.counted, ih.bounded, ih.shallow⟩
  | first _ _ ih => exact ih
  | second hfirst _ _ ihfirst ihsecond => exact ihfirst.trans hfirst.agrees ihsecond

end Executes

/-! ## Calls -/

/-- **A call into a search.** A case split is called with a proof of a
disjunction. -/
inductive Call where
  | findProof (goal : Formula) (ctx : Context)
  | searcher (which : Searcher) (goal : Formula) (ctx : Context)
  | use (split : Bool) (goal : Formula) (ctx : Context) (proof : ProofTree)
  | splitCases (goal : Formula) (ctx : Context) (proof : ProofTree) (left right : Formula)
      (hclaim : proof.claim = .or left right)

namespace Call

/-- What is executed. -/
def task : Call → Task
  | findProof goal ctx => .goal goal ctx
  | searcher which goal ctx => .plan (which.plan goal ctx)
  | use split goal ctx proof => .plan (.useFact goal ctx split proof.claim proof)
  | splitCases goal ctx proof left right _ => .plan (.splitCases goal ctx left right proof)

/-- What is attempted on the tally. -/
def attempt (s : SearchState) : Call → Attempt
  | findProof goal ctx => s.prover goal ctx
  | searcher which goal ctx => which.run s.prover goal ctx
  | use split goal ctx proof => Search.use s.prover split goal ctx proof
  | splitCases goal ctx proof left right _ =>
    Search.splitCases s.prover goal ctx left right proof

/-- **What a call returns**, and the state after it. -/
def Returns (s : SearchState) (result : Except Exhausted ProofTree) (after : SearchState) :
    Call → Prop
  | findProof goal ctx => s.findProof goal ctx = (result, after)
  | searcher which goal ctx => s.runSearcher which goal ctx = (result, after)
  | use split goal ctx proof => s.use split goal ctx proof = (result, after)
  | splitCases goal ctx proof _ _ _ => s.splitCases? goal ctx proof = some (result, after)

/-- **The numbers a call creates** in the proof it returns: all that are
discharged there, but for those of the proof that was handed in. -/
def Creates (p : ProofTree) (ns : List Int) : Call → Prop
  | findProof _ _ | searcher _ _ _ => ns = p.allDischarged
  | use _ _ _ proof | splitCases _ _ proof _ _ _ => proof.Around p ns

variable {s : SearchState} {x : Execution}

theorem task_attempt (c : Call) : c.task.attempt s = c.attempt s := by
  cases c with
  | findProof goal ctx => rfl
  | searcher which goal ctx => exact (Search.run_eq_run which).symm
  | use split goal ctx proof => exact (Search.useFact_eq_run proof.claim proof).symm
  | splitCases goal ctx proof left right _ => exact Search.splitCases_eq_run.symm

theorem returns_of_agrees {c : Call} (h : x.Agrees s (c.attempt s)) :
    c.Returns s x.result x.state := by
  cases c with
  | findProof goal ctx => exact h.attempt_eq
  | searcher which goal ctx => exact h.attempt_eq
  | use split goal ctx proof => exact h.attempt_eq
  | splitCases goal ctx proof left right hclaim =>
    rw [Returns, SearchState.splitCases?, hclaim]
    exact congrArg some h.attempt_eq

theorem attempt_grows (c : Call) : (c.attempt s).Grows := by
  have hg : Search.ProverGrows s.prover := Search.findProof_grows _ _ _
  rw [← task_attempt]
  cases c with
  | findProof goal ctx => exact hg goal ctx
  | searcher | use | splitCases => exact Plan.run_grows hg _

/-- **What a call creates is numbered afresh.** -/
theorem finds_numbers (c : Call) (lo : Int) :
    (c.attempt s).Finds lo fun hi p => ∃ ns, c.Creates p ns ∧ DistinctIn lo hi ns := by
  have hg : Search.ProverGrows s.prover := Search.findProof_grows _ _ _
  have hbuilds : Search.ProverBuilds s.prover s.room := Search.findProof_builds _ _ _
  have hnumbers : Search.ProverNumbers s.prover := Search.findProof_numbers _ _ _
  cases c with
  | findProof goal ctx => exact fun t p hlo hp => ⟨_, rfl, hnumbers goal ctx lo t p hlo hp⟩
  | searcher which goal ctx =>
    exact fun t p hlo hp => ⟨_, rfl, (Search.run_builds hg hbuilds which t p hlo hp).2.distinctIn⟩
  | use split goal ctx proof =>
    exact Search.useFact_around hg hnumbers proof.claim proof ⟨[], .here, .nil⟩ le_rfl
  | splitCases goal ctx proof left right _ =>
    exact Search.splitCases_around hg hnumbers ⟨[], .here, .nil⟩ le_rfl

end Call

/-- **A call that leaves its state in order.** -/
structure Disciplined (s : SearchState) (c : Call) (x : Execution) : Prop where
  budget : x.state.budget = s.budget
  depth : x.state.depth = s.depth
  depthLimit : x.state.depthLimit = s.depthLimit
  pending : x.state.pending = s.pending
  /-- Numbers and steps go up, and a limit that was met stays met. -/
  later : s.tally.Later x.state.tally
  /-- No step is taken beyond the budget. -/
  bounded : x.state.tally.steps ≤ max s.budget.maxSteps s.tally.steps
  /-- The steps taken are the goals entered. -/
  counted : x.state.tally.steps = s.tally.steps + x.entries.length
  /-- No goal is entered at the depth limit or beyond. -/
  shallow : ∀ e ∈ x.entries, (e.depth : Int) < s.depthLimit
  /-- The numbers created are distinct and have been handed out by this call. -/
  numbers : ∀ p, x.result = .ok p →
    ∃ ns, c.Creates p ns ∧ DistinctIn s.tally.nextNumber x.state.tally.nextNumber ns

/-- **Every call leaves its state in order.** A call in any state has an
execution, and all its executions come to what the call returns: the state
stands where it stood, and the tally has moved on by what was done. -/
theorem executes_disciplined (s : SearchState) (c : Call) :
    (∃ x, Executes c.task s x) ∧ ∀ x, Executes c.task s x →
      c.Returns s x.result x.state ∧ Disciplined s c x := by
  refine ⟨exists_executes c.task s, fun x hx => ?_⟩
  have hagrees : x.Agrees s (c.attempt s) := c.task_attempt ▸ hx.agrees
  have haccounts := hx.accounts
  have hlater : s.tally ≤ (c.attempt s s.tally).2 := c.attempt_grows s.tally
  have hnumbers := c.finds_numbers (s := s) s.tally.nextNumber s.tally
  rw [hagrees.outcome] at hlater hnumbers
  refine ⟨Call.returns_of_agrees hagrees, ?_⟩
  exact
    { budget := hagrees.budget_eq
      depth := by rw [hagrees.stands]; rfl
      depthLimit := hagrees.depthLimit_eq
      pending := by rw [hagrees.stands]; rfl
      later := Tally.later hlater
      bounded := haccounts.bounded
      counted := haccounts.counted
      shallow := haccounts.shallow
      numbers := fun p hp => hnumbers p le_rfl hp }

/-- A state in the middle of a search: something is pending, and the depth limit
has been met before. -/
def busyState : SearchState where
  budget := { maxDepth := 9, maxSteps := 20 }
  depth := 1
  depthLimit := 4
  pending := [⟨.atom "D", []⟩]
  tally := ⟨5, 3, true, false⟩

/-- A tree that claims `A ∨ B` and discharges 6. -/
def borrowedTree : ProofTree := ⟨.or (.atom "A") (.atom "B"), .impElim, [], none, [some 6]⟩

/-- The case split on this tree, for `C → B ∨ A`. -/
def borrowedSplit : Call :=
  .splitCases (.imp (.atom "C") (.or (.atom "B") (.atom "A"))) .empty borrowedTree (.atom "A")
    (.atom "B") rfl

/-- In the middle of a search, a case split on a tree that discharges 6. The
number is handed out again in the first case, and it is created around the tree
once. -/
theorem executes_disciplined_borrowed :
    ∃ x p ns, Executes borrowedSplit.task busyState x ∧ Disciplined busyState borrowedSplit x
      ∧ x.state = busyState.withTally ⟨9, 10, true, false⟩ ∧ x.entries.length = 7
      ∧ x.result = .ok p ∧ borrowedSplit.Creates p ns ∧ ns.Perm [5, 7, 6, 8] := by
  obtain ⟨⟨x, hx⟩, hall⟩ := executes_disciplined busyState borrowedSplit
  obtain ⟨hreturns, hdisciplined⟩ := hall x hx
  have hreturned : busyState.splitCases? (.imp (.atom "C") (.or (.atom "B") (.atom "A"))) .empty
      borrowedTree = some (x.result, x.state) := hreturns
  have hrun : (busyState.splitCases? (.imp (.atom "C") (.or (.atom "B") (.atom "A"))) .empty
      borrowedTree).map (fun r => (r.1.toOption.map ProofTree.allDischarged, r.2)) =
        some (some [5, 7, 6, 6, 8], busyState.withTally ⟨9, 10, true, false⟩) := by
    decide +kernel
  rw [hreturned, Option.map_some, Option.some.injEq, Prod.mk.injEq] at hrun
  obtain ⟨hresult, hstate⟩ := hrun
  dsimp only at hresult hstate
  have hcounted := hdisciplined.counted
  rw [hstate] at hcounted
  obtain ⟨p, hp, hnumbers⟩ := Attempt.exists_proof hresult
  obtain ⟨ns, hcreates, -⟩ := hdisciplined.numbers p hp
  have hperm : p.allDischarged.Perm (ns ++ [6]) := ProofTree.Around.perm hcreates
  rw [hnumbers] at hperm
  have hns : (ns ++ [6]).Perm ([5, 7, 6, 8] ++ [6]) := hperm.symm.trans (by decide)
  exact ⟨x, p, ns, hx, hdisciplined, hstate, Nat.add_left_cancel hcounted.symm, hp, hcreates,
    (List.perm_append_right_iff [6]).mp hns⟩

end NaturalDeduction
