import NaturalDeduction.Proofs.Passes
import NaturalDeduction.Proofs.Plans

/-!
# The goals that a search visits

What is pending during a search is not part of what comes out of it, so
something has to be said about the run itself. A *visit* is a goal that
comes up in a search, with all that the search knows at that moment: the
room left, what is pending, the assumptions and the tally. The visits of a
search are listed in the order in which they are made (`Search.visits`),
each followed by those made on its behalf, which are the questions that the
plan of its goal comes to ask (`Plan.questions`).

The list is complete: whatever can be read off the tally at the end, but for
the numbers handed out, is what the visits on the list have added to it one
after the other (`Search.foldl_visits`). In particular the steps taken are
the visits that were taken up.
-/

namespace NaturalDeduction

/-! ## Questions -/

/-- **A question** put to a prover, with the tally at that moment. -/
structure Question where
  /-- What is to be proved. -/
  goal : Formula
  /-- What may be assumed. -/
  ctx : Context
  /-- The tally before the answer. -/
  tally : Tally

namespace Plan

/-- **The questions a plan comes to ask** when it is followed. -/
def questions (prove : Prover) : Plan → Tally → List Question
  | done _, _ | fail _, _ => []
  | ask goal ctx go _, t =>
    ⟨goal, ctx, t⟩ ::
      match prove goal ctx t with
      | (.ok p, t₁) => (go p).questions prove t₁
      | (.error _, _) => []
  | assume hypothesis goal ctx go _, t =>
    ⟨goal, ctx.push hypothesis t.fresh.1, t.fresh.2⟩ ::
      match prove goal (ctx.push hypothesis t.fresh.1) t.fresh.2 with
      | (.ok p, t₁) => (go t.fresh.1 p).questions prove t₁
      | (.error _, _) => []
  | orElse first second, t =>
    first.questions prove t ++
      match first.run prove t with
      | (.ok _, _) => []
      | (.error _, t₁) => second.questions prove t₁

variable {prove : Prover} {plan : Plan} {t : Tally} {q : Question}

/-- What a plan comes to ask is among what it may ask. -/
theorem Asks.of_mem_questions {question : Formula → Context → Prop} (h : plan.Asks question)
    (hq : q ∈ plan.questions prove t) : question q.goal q.ctx := by
  induction plan generalizing t with
  | done p => cases hq
  | fail e => cases hq
  | ask goal ctx go why ih =>
    rw [questions] at hq
    obtain rfl | hq := List.mem_cons.mp hq
    · exact h.1
    · split at hq
      · exact ih _ (h.2 _) hq
      · cases hq
  | assume hypothesis goal ctx go why ih =>
    rw [questions] at hq
    obtain rfl | hq := List.mem_cons.mp hq
    · exact (h t.fresh.1).1
    · split at hq
      · exact ih _ _ ((h t.fresh.1).2 _) hq
      · cases hq
  | orElse first second ihf ihs =>
    rw [questions] at hq
    obtain hq | hq := List.mem_append.mp hq
    · exact ihf h.1 hq
    · split at hq
      · cases hq
      · exact ihs h.2 hq

/-- **A plan adds to the tally what its questions add.** -/
theorem foldl_questions {α : Type} {view : Tally → α} {add : α → Question → α}
    (hfresh : ∀ t : Tally, view t.fresh.2 = view t)
    (hask : ∀ q : Question, view (prove q.goal q.ctx q.tally).2 = add (view q.tally) q)
    (plan : Plan) (t : Tally) :
    view (plan.run prove t).2 = (plan.questions prove t).foldl add (view t) := by
  induction plan generalizing t with
  | done p => rfl
  | fail e => rfl
  | ask goal ctx go why ih =>
    have hq := hask ⟨goal, ctx, t⟩
    rw [questions, List.foldl_cons, ← hq]
    rcases h : prove goal ctx t with ⟨e | p, t₁⟩
    · rw [run_ask_of_error h]
      rfl
    · rw [run_ask_of_ok h]
      exact ih p t₁
  | assume hypothesis goal ctx go why ih =>
    have hq := hask ⟨goal, ctx.push hypothesis t.fresh.1, t.fresh.2⟩
    rw [questions, List.foldl_cons, ← hfresh t, ← hq, run_assume]
    rcases h : prove goal (ctx.push hypothesis t.fresh.1) t.fresh.2 with ⟨e | p, t₁⟩
    · rw [run_ask_of_error h]
      rfl
    · rw [run_ask_of_ok h]
      exact ih _ p t₁
  | orElse first second ihf ihs =>
    rw [questions, List.foldl_append, ← ihf t]
    rcases h : first.run prove t with ⟨e | p, t₁⟩
    · rw [run_orElse_of_error h]
      exact ihs t₁
    · rw [run_orElse_of_ok h]
      rfl

end Plan

/-! ## Visits -/

/-- **A goal that comes up in a search**, and where the search stands then. -/
structure Visit where
  /-- How many levels of depth are left. -/
  room : Nat
  /-- The goals pending above. -/
  pending : List Pursuit
  /-- What is to be proved. -/
  goal : Formula
  /-- What may be assumed. -/
  ctx : Context
  /-- What has accumulated so far. -/
  tally : Tally

namespace Visit

variable (maxSteps : Nat) (v : Visit)

/-- Whether the goal is pending already. -/
def isCircular : Bool := v.pending.any (·.same (.of v.goal v.ctx))

/-- Whether the goal is taken up: there is a step left and room for it, and it
is not pending. -/
def isTakenUp : Bool := decide (v.tally.steps < maxSteps) && decide (0 < v.room) && !v.isCircular

/-- Whether the goal lies too deep. -/
def isCutOff : Bool := decide (v.tally.steps < maxSteps) && v.room == 0

/-- The tally once the goal is taken up or turned away. -/
def entered : Tally :=
  if maxSteps ≤ v.tally.steps then { v.tally with outOfSteps := true }
  else if v.room = 0 then { v.tally with cutOff := true }
  else if v.isCircular then v.tally
  else { v.tally with steps := v.tally.steps + 1 }

/-- **The goals pending while a visit lasts.** -/
def pursued : List Pursuit :=
  if v.isTakenUp maxSteps then .of v.goal v.ctx :: v.pending else v.pending

theorem isTakenUp_iff :
    v.isTakenUp maxSteps = true ↔
      ¬ maxSteps ≤ v.tally.steps ∧ v.room ≠ 0 ∧ ¬ v.isCircular = true := by
  rw [isTakenUp, Bool.and_eq_true, Bool.and_eq_true, decide_eq_true_eq, decide_eq_true_eq,
    Bool.not_eq_true', ← Bool.not_eq_true, Nat.not_le, Nat.pos_iff_ne_zero, and_assoc]

theorem steps_entered :
    (v.entered maxSteps).steps = v.tally.steps + if v.isTakenUp maxSteps then 1 else 0 := by
  simp only [isTakenUp_iff, entered]
  split_ifs <;> simp_all

theorem cutOff_entered :
    (v.entered maxSteps).cutOff = (v.tally.cutOff || v.isCutOff maxSteps) := by
  rw [isCutOff, entered]
  split_ifs with hs hr hc
  · simp [Nat.not_lt.mpr hs]
  · simp [Nat.lt_of_not_le hs, hr]
  · simp [hr]
  · simp [hr]

end Visit

namespace Search

/-- **The visits of a search** for a goal, in order. -/
def visits (maxSteps : Nat) :
    (room : Nat) → List Pursuit → Formula → Context → Tally → List Visit
  | 0, pending, goal, ctx, t => [⟨0, pending, goal, ctx, t⟩]
  | room + 1, pending, goal, ctx, t =>
    let v : Visit := ⟨room + 1, pending, goal, ctx, t⟩
    v ::
      if v.isTakenUp maxSteps then
        let below := .of goal ctx :: pending
        ((Plan.ofGoal goal ctx).questions (findProof maxSteps room below)
          { t with steps := t.steps + 1 }).flatMap fun q =>
            visits maxSteps room below q.goal q.ctx q.tally
      else []

section Visits

variable {maxSteps room : Nat} {pending : List Pursuit} {goal : Formula} {ctx : Context}
  {t : Tally}

/-- A goal that is taken up is searched for by its plan, one level below. -/
theorem findProof_of_isTakenUp
    (h : (Visit.mk (room + 1) pending goal ctx t).isTakenUp maxSteps = true) :
    findProof maxSteps (room + 1) pending goal ctx t =
      (Plan.ofGoal goal ctx).run (findProof maxSteps room (.of goal ctx :: pending))
        { t with steps := t.steps + 1 } := by
  obtain ⟨hs, -, hp⟩ := (Visit.isTakenUp_iff _ _).mp h
  rw [findProof_succ hs hp, firstOf_eq_run]
  rfl

/-- A goal that is turned away leaves the tally as it was on entering. -/
theorem tally_findProof_of_not_isTakenUp
    (h : ¬ (Visit.mk room pending goal ctx t).isTakenUp maxSteps = true) :
    (findProof maxSteps room pending goal ctx t).2 =
      (Visit.mk room pending goal ctx t).entered maxSteps := by
  rw [Visit.isTakenUp_iff] at h
  unfold Visit.entered
  by_cases hs : maxSteps ≤ t.steps
  · rw [if_pos hs, findProof_of_steps hs]
  · rw [if_neg hs]
    cases room with
    | zero => rw [if_pos rfl, findProof_zero hs]
    | succ room =>
      have hp : (Visit.mk (room + 1) pending goal ctx t).isCircular = true := by
        by_contra hp
        exact h ⟨hs, room.succ_ne_zero, hp⟩
      rw [if_neg room.succ_ne_zero, if_pos hp, findProof_of_pending hs hp]
      rfl

/-- **A search adds to the tally what its visits add**, each on entering. -/
theorem foldl_visits {α : Type} (view : Tally → α) (add : α → Visit → α)
    (hfresh : ∀ t : Tally, view t.fresh.2 = view t)
    (henter : ∀ v : Visit, view (v.entered maxSteps) = add (view v.tally) v) :
    view (findProof maxSteps room pending goal ctx t).2 =
      (visits maxSteps room pending goal ctx t).foldl add (view t) := by
  induction room generalizing pending goal ctx t with
  | zero =>
    have hturned : ¬ (Visit.mk 0 pending goal ctx t).isTakenUp maxSteps = true :=
      fun h => ((Visit.isTakenUp_iff _ _).mp h).2.1 rfl
    rw [tally_findProof_of_not_isTakenUp hturned, henter]
    rfl
  | succ room ih =>
    have hentered := henter ⟨room + 1, pending, goal, ctx, t⟩
    rw [visits, List.foldl_cons, ← hentered]
    by_cases h : (Visit.mk (room + 1) pending goal ctx t).isTakenUp maxSteps = true
    · obtain ⟨hs, -, hp⟩ := (Visit.isTakenUp_iff _ _).mp h
      rw [if_pos h, findProof_of_isTakenUp h, List.foldl_flatMap, Visit.entered, if_neg hs,
        if_neg room.succ_ne_zero, if_neg hp]
      exact Plan.foldl_questions hfresh (fun _ => ih) _ _
    · rw [if_neg h, tally_findProof_of_not_isTakenUp h]
      rfl

/-- **The steps of a search are the visits taken up.** -/
theorem steps_findProof :
    (findProof maxSteps room pending goal ctx t).2.steps =
      t.steps + (visits maxSteps room pending goal ctx t).countP (·.isTakenUp maxSteps) := by
  rw [foldl_visits Tally.steps (fun n v => n + if v.isTakenUp maxSteps then 1 else 0)
    (fun _ => rfl) (Visit.steps_entered maxSteps)]
  generalize visits maxSteps room pending goal ctx t = vs
  generalize t.steps = n
  induction vs generalizing n with
  | nil => rfl
  | cons v vs ih => rw [List.foldl_cons, ih, List.countP_cons, Nat.add_right_comm, Nat.add_assoc]

/-- A search is cut off only by a visit that lies too deep. -/
theorem cutOff_findProof :
    (findProof maxSteps room pending goal ctx t).2.cutOff =
      (t.cutOff || (visits maxSteps room pending goal ctx t).any (·.isCutOff maxSteps)) := by
  rw [foldl_visits Tally.cutOff (fun b v => b || v.isCutOff maxSteps) (fun _ => rfl)
    (Visit.cutOff_entered maxSteps)]
  generalize visits maxSteps room pending goal ctx t = vs
  generalize t.cutOff = b
  induction vs generalizing b with
  | nil => exact (Bool.or_false b).symm
  | cons v vs ih => rw [List.foldl_cons, ih, List.any_cons, Bool.or_assoc]

end Visits

/-- **The visits of a pass**, after `n` others. -/
def passVisits (goal : Formula) (ctx : Context) (budget : Budget) (n : Nat) : List Visit :=
  visits budget.maxSteps (n + 1) [] goal ctx (passStart goal ctx budget n)

end Search

end NaturalDeduction
