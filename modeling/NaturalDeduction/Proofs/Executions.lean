import NaturalDeduction.Proofs.Plans
import NaturalDeduction.Search.State

/-!
# The search as a program on one state

The depth of a goal and the goals pending above it are handed down in a search,
and a searcher that comes back has nothing to put in order. The search can also
be read as a program that keeps everything in one state and writes to it: a goal
that is taken up counts as a step, raises the depth and becomes pending, and
whatever comes of it, the depth is lowered again and the goal taken off what is
pending. Then a goal that is met later depends on how every goal before it was
left, through all the branches that were given up in between.

`Executes` is the search read in this way, with a record of the goals that were
taken up and the depth at which each was entered. A goal is looked at in the
state as it is when it comes up, and the plans of the searchers are followed
from state to state. Both readings agree: an execution comes back with what the
search in its first reading comes back with, and leaves a state that differs
from the one before in the tally only (`Executes.agrees`). There is an
execution for every goal and every plan, in every state (`exists_executes`).
-/

namespace NaturalDeduction

namespace SearchState

/-- The state once a goal is taken up. -/
def enter (s : SearchState) (goal : Formula) (ctx : Context) : SearchState :=
  { s.pend goal ctx with
    depth := s.depth + 1
    tally := { s.tally with steps := s.tally.steps + 1 } }

/-- The state once the search for a goal is over. -/
def leave (s : SearchState) (goal : Formula) (ctx : Context) : SearchState :=
  { s with
    depth := s.depth - 1
    pending := s.pending.filter fun p => !p.same (.of goal ctx) }

/-- The state with another tally. -/
def withTally (s : SearchState) (t : Tally) : SearchState := { s with tally := t }

end SearchState

/-! ## Executions -/

/-- **A goal that was taken up.** -/
structure Entry where
  /-- What was to be proved. -/
  goal : Formula
  /-- What was assumed. -/
  ctx : Context
  /-- The depth at which the goal was entered. -/
  depth : Nat

/-- **What came of an execution.** -/
structure Execution where
  /-- The proof, or why there is none. -/
  result : Except Exhausted ProofTree
  /-- The state after it. -/
  state : SearchState
  /-- The goals that were taken up, in order. -/
  entries : List Entry

/-- What can be executed. -/
inductive Task where
  /-- A goal is to be proved. -/
  | goal (goal : Formula) (ctx : Context)
  /-- A plan is to be followed. -/
  | plan (plan : Plan)

/-- **The search on one state.** -/
inductive Executes : Task → SearchState → Execution → Prop where
  /-- No step is left. -/
  | outOfSteps {s : SearchState} {goal : Formula} {ctx : Context}
      (hsteps : s.budget.maxSteps ≤ s.tally.steps) :
      Executes (.goal goal ctx) s
        ⟨.error ⟨goal, .budget⟩, s.withTally { s.tally with outOfSteps := true }, []⟩
  /-- The goal lies too deep. -/
  | tooDeep {s : SearchState} {goal : Formula} {ctx : Context}
      (hsteps : ¬ s.budget.maxSteps ≤ s.tally.steps) (hdepth : s.depthLimit ≤ s.depth) :
      Executes (.goal goal ctx) s
        ⟨.error ⟨goal, .budget⟩, s.withTally { s.tally with cutOff := true }, []⟩
  /-- The goal is pending. -/
  | circular {s : SearchState} {goal : Formula} {ctx : Context}
      (hsteps : ¬ s.budget.maxSteps ≤ s.tally.steps) (hdepth : ¬ s.depthLimit ≤ s.depth)
      (hpending : s.pending.any (·.same (.of goal ctx)) = true) :
      Executes (.goal goal ctx) s ⟨.error ⟨goal, .rules⟩, s, []⟩
  /-- The goal is taken up: the searchers have their turns. -/
  | takenUp {s : SearchState} {goal : Formula} {ctx : Context} {x : Execution}
      (hsteps : ¬ s.budget.maxSteps ≤ s.tally.steps) (hdepth : ¬ s.depthLimit ≤ s.depth)
      (hpending : ¬ s.pending.any (·.same (.of goal ctx)) = true)
      (hplan : Executes (.plan (.ofGoal goal ctx)) (s.enter goal ctx) x) :
      Executes (.goal goal ctx) s
        ⟨x.result, x.state.leave goal ctx, ⟨goal, ctx, s.depth⟩ :: x.entries⟩
  | done {s : SearchState} {p : ProofTree} : Executes (.plan (.done p)) s ⟨.ok p, s, []⟩
  | fail {s : SearchState} {e : Exhausted} : Executes (.plan (.fail e)) s ⟨.error e, s, []⟩
  | askProved {s : SearchState} {goal : Formula} {ctx : Context} {go : ProofTree → Plan}
      {why : Exhausted → Exhausted} {p : ProofTree} {x y : Execution}
      (hask : Executes (.goal goal ctx) s x) (hresult : x.result = .ok p)
      (hgo : Executes (.plan (go p)) x.state y) :
      Executes (.plan (.ask goal ctx go why)) s ⟨y.result, y.state, x.entries ++ y.entries⟩
  | askFailed {s : SearchState} {goal : Formula} {ctx : Context} {go : ProofTree → Plan}
      {why : Exhausted → Exhausted} {e : Exhausted} {x : Execution}
      (hask : Executes (.goal goal ctx) s x) (hresult : x.result = .error e) :
      Executes (.plan (.ask goal ctx go why)) s ⟨.error (why e), x.state, x.entries⟩
  /-- A fresh number is taken from the state before the goal is asked for. -/
  | assume {s : SearchState} {hypothesis goal : Formula} {ctx : Context}
      {go : Int → ProofTree → Plan} {why : Exhausted → Exhausted} {x : Execution}
      (hask : Executes (.plan (.ask goal (ctx.push hypothesis s.fresh.1) (go s.fresh.1) why))
        s.fresh.2 x) :
      Executes (.plan (.assume hypothesis goal ctx go why)) s x
  | first {s : SearchState} {first second : Plan} {p : ProofTree} {x : Execution}
      (hfirst : Executes (.plan first) s x) (hresult : x.result = .ok p) :
      Executes (.plan (.orElse first second)) s x
  /-- The second plan is followed in the state in which the first has failed. -/
  | second {s : SearchState} {first second : Plan} {e : Exhausted} {x y : Execution}
      (hfirst : Executes (.plan first) s x) (hresult : x.result = .error e)
      (hsecond : Executes (.plan second) x.state y) :
      Executes (.plan (.orElse first second)) s ⟨y.result, y.state, x.entries ++ y.entries⟩

/-! ## Both readings agree -/

namespace SearchState

variable {s : SearchState} {goal : Formula} {ctx : Context}

theorem budget_enter : (s.enter goal ctx).budget = s.budget := by
  rw [enter, pend]
  split <;> rfl

theorem depthLimit_enter : (s.enter goal ctx).depthLimit = s.depthLimit := by
  rw [enter, pend]
  split <;> rfl

theorem room_eq_zero (h : s.depthLimit ≤ s.depth) : s.room = 0 := by
  rw [room]
  omega

/-- There is one level less below a goal that is taken up. -/
theorem room_eq_succ (h : ¬ s.depthLimit ≤ s.depth) (goal : Formula) (ctx : Context) :
    s.room = (s.enter goal ctx).room + 1 := by
  have hdepth : (s.enter goal ctx).depth = s.depth + 1 := rfl
  rw [room, room, hdepth, depthLimit_enter]
  omega

theorem pend_eq (h : ¬ s.pending.any (·.same (.of goal ctx)) = true) :
    s.pend goal ctx = { s with pending := .of goal ctx :: s.pending } := if_neg h

/-- The goals pending below a goal that is taken up are those above it and the
goal itself, which is the first to go when the goal is left. -/
theorem filter_pending (h : ¬ s.pending.any (·.same (.of goal ctx)) = true) :
    ((Pursuit.of goal ctx :: s.pending).filter fun p => !p.same (.of goal ctx)) = s.pending := by
  have hself : (Pursuit.of goal ctx).same (.of goal ctx) = true := by simp [Pursuit.same]
  have hothers : ∀ p ∈ s.pending, (!p.same (.of goal ctx)) = true := fun p hp => by
    rw [Bool.not_eq_true', ← Bool.not_eq_true]
    exact fun hsame => h (List.any_eq_true.mpr ⟨p, hp, hsame⟩)
  rw [List.filter_cons_of_neg (by simp [hself]), List.filter_eq_self.mpr hothers]

/-- **What is entered is left again**: taking up a goal that is not pending and
being done with it changes nothing but the tally. -/
theorem leave_enter (h : ¬ s.pending.any (·.same (.of goal ctx)) = true) (t : Tally) :
    ((s.enter goal ctx).withTally t).leave goal ctx = s.withTally t := by
  rw [enter, pend_eq h, leave, withTally]
  dsimp only
  rw [filter_pending h]
  rfl

/-- The prover below a goal that is taken up. -/
theorem prover_enter (h : ¬ s.pending.any (·.same (.of goal ctx)) = true) :
    (s.enter goal ctx).prover =
      Search.findProof s.budget.maxSteps (s.enter goal ctx).room (.of goal ctx :: s.pending) := by
  rw [prover, enter, pend_eq h]

end SearchState

/-- What a task comes to in a state. -/
def Task.attempt (s : SearchState) : Task → Attempt
  | goal f ctx => s.prover f ctx
  | plan p => p.run s.prover

/-- **An execution that agrees with an attempt**: the attempt has the same
outcome on the tally, and nothing but the tally has changed. -/
structure Execution.Agrees (x : Execution) (s : SearchState) (a : Attempt) : Prop where
  outcome : a s.tally = (x.result, x.state.tally)
  stands : x.state = s.withTally x.state.tally

namespace Execution.Agrees

variable {x y : Execution} {s : SearchState} {a b : Attempt}

theorem budget_eq (h : x.Agrees s a) : x.state.budget = s.budget := by
  rw [h.stands]
  rfl

theorem depthLimit_eq (h : x.Agrees s a) : x.state.depthLimit = s.depthLimit := by
  rw [h.stands]
  rfl

/-- Goals that come up later meet the same prover. -/
theorem prover_eq (h : x.Agrees s a) : x.state.prover = s.prover := by
  rw [h.stands]
  rfl

theorem attempt_eq (h : x.Agrees s a) : s.attempt a = (x.result, x.state) := by
  rw [SearchState.attempt, h.outcome, h.stands]
  rfl

/-- One execution after another changes nothing but the tally either. -/
theorem stands_trans (hx : x.Agrees s a) (hy : y.Agrees x.state b) :
    y.state = s.withTally y.state.tally := by
  rw [hy.stands, hx.stands]
  rfl

end Execution.Agrees

namespace Executes

open SearchState

variable {task : Task} {s : SearchState} {x : Execution}

/-- **An execution agrees with the search.** -/
theorem agrees (h : Executes task s x) : x.Agrees s (task.attempt s) := by
  induction h with
  | outOfSteps hsteps => exact ⟨Search.findProof_of_steps hsteps, rfl⟩
  | tooDeep hsteps hdepth =>
    refine ⟨?_, rfl⟩
    rw [Task.attempt, prover, room_eq_zero hdepth]
    exact Search.findProof_zero hsteps
  | @circular s goal ctx hsteps hdepth hpending =>
    refine ⟨?_, rfl⟩
    rw [Task.attempt, prover, room_eq_succ hdepth goal ctx]
    exact Search.findProof_of_pending hsteps hpending
  | @takenUp s goal ctx x hsteps hdepth hpending _ ih =>
    have hbelow := ih.outcome
    rw [Task.attempt, prover_enter hpending] at hbelow
    constructor
    · rw [Task.attempt, prover, room_eq_succ hdepth goal ctx,
        Search.findProof_succ hsteps hpending, Search.firstOf_eq_run]
      exact hbelow
    · show x.state.leave goal ctx = s.withTally x.state.tally
      rw [ih.stands]
      exact leave_enter hpending _
  | done => exact ⟨rfl, rfl⟩
  | fail => exact ⟨rfl, rfl⟩
  | @askProved s goal ctx go why p x y _ hresult _ ihask ihgo =>
    have hask : s.prover goal ctx s.tally = _ := ihask.outcome
    rw [hresult] at hask
    have hstands := ihask.stands_trans ihgo
    refine ⟨?_, hstands⟩
    rw [Task.attempt, Plan.run_ask_of_ok hask, ← ihask.prover_eq]
    exact ihgo.outcome
  | @askFailed s goal ctx go why e x _ hresult ihask =>
    have hask : s.prover goal ctx s.tally = _ := ihask.outcome
    rw [hresult] at hask
    exact ⟨Plan.run_ask_of_error hask, ihask.stands⟩
  | assume _ ih => exact ⟨ih.outcome, ih.stands⟩
  | first _ hresult ih =>
    have hfirst := ih.outcome
    rw [hresult] at hfirst
    refine ⟨?_, ih.stands⟩
    rw [hresult]
    exact Plan.run_orElse_of_ok hfirst
  | second _ hresult _ ihfirst ihsecond =>
    have hfirst := ihfirst.outcome
    rw [hresult] at hfirst
    have hstands := ihfirst.stands_trans ihsecond
    refine ⟨?_, hstands⟩
    rw [Task.attempt, Plan.run_orElse_of_error hfirst, ← ihfirst.prover_eq]
    exact ihsecond.outcome

/-- An execution leaves as much room as there was. -/
theorem room_eq (h : Executes task s x) : x.state.room = s.room := by
  rw [h.agrees.stands]
  rfl

end Executes

/-! ## Every task has an execution -/

section Exists

open SearchState

variable {room : Nat}

/-- A goal that has executions can be asked for, if there is a way to go on with
every proof of it. -/
theorem exists_executes_ask {s : SearchState} {goal : Formula} {ctx : Context}
    {go : ProofTree → Plan} (why : Exhausted → Exhausted)
    (hgoal : ∃ x, Executes (.goal goal ctx) s x)
    (hgo : ∀ p s', s'.room = s.room → ∃ x, Executes (.plan (go p)) s' x) :
    ∃ x, Executes (.plan (.ask goal ctx go why)) s x := by
  obtain ⟨x, hx⟩ := hgoal
  rcases hresult : x.result with e | p
  · exact ⟨_, .askFailed hx hresult⟩
  · obtain ⟨y, hy⟩ := hgo p x.state hx.room_eq
    exact ⟨_, .askProved hx hresult hy⟩

/-- **A plan has an execution** if the goals have one in states with as much
room. -/
theorem exists_executes_plan
    (h : ∀ goal ctx s, s.room = room → ∃ x, Executes (.goal goal ctx) s x)
    (plan : Plan) (s : SearchState) (hs : s.room = room) : ∃ x, Executes (.plan plan) s x := by
  induction plan generalizing s with
  | done p => exact ⟨_, .done⟩
  | fail e => exact ⟨_, .fail⟩
  | ask goal ctx go why ih =>
    exact exists_executes_ask why (h goal ctx s hs) fun p s' hs' => ih p s' (hs'.trans hs)
  | assume hypothesis goal ctx go why ih =>
    obtain ⟨x, hx⟩ := exists_executes_ask why (h goal _ s.fresh.2 hs) fun p s' hs' =>
      ih s.fresh.1 p s' (hs'.trans hs)
    exact ⟨x, .assume hx⟩
  | orElse first second ihfirst ihsecond =>
    obtain ⟨x, hx⟩ := ihfirst s hs
    rcases hresult : x.result with e | p
    · obtain ⟨y, hy⟩ := ihsecond x.state (hx.room_eq.trans hs)
      exact ⟨_, .second hx hresult hy⟩
    · exact ⟨x, .first hx hresult⟩

theorem exists_executes_goal (goal : Formula) (ctx : Context) (s : SearchState)
    (hs : s.room = room) : ∃ x, Executes (.goal goal ctx) s x := by
  -- the searchers of a goal that is taken up are left one level less
  induction room generalizing goal ctx s with
  | zero =>
    by_cases hsteps : s.budget.maxSteps ≤ s.tally.steps
    · exact ⟨_, .outOfSteps hsteps⟩
    · have hdepth : s.depthLimit ≤ s.depth := by
        rw [SearchState.room] at hs
        omega
      exact ⟨_, .tooDeep hsteps hdepth⟩
  | succ room ih =>
    by_cases hsteps : s.budget.maxSteps ≤ s.tally.steps
    · exact ⟨_, .outOfSteps hsteps⟩
    have hdepth : ¬ s.depthLimit ≤ s.depth := fun hdepth => by
      rw [room_eq_zero hdepth] at hs
      cases hs
    by_cases hpending : s.pending.any (·.same (.of goal ctx)) = true
    · exact ⟨_, .circular hsteps hdepth hpending⟩
    · rw [room_eq_succ hdepth goal ctx] at hs
      obtain ⟨x, hx⟩ := exists_executes_plan ih (.ofGoal goal ctx) (s.enter goal ctx)
        (Nat.succ.inj hs)
      exact ⟨_, .takenUp hsteps hdepth hpending hx⟩

/-- **Every task has an execution**, in every state. -/
theorem exists_executes (task : Task) (s : SearchState) : ∃ x, Executes task s x := by
  cases task with
  | goal goal ctx => exact exists_executes_goal goal ctx s rfl
  | plan plan => exact exists_executes_plan exists_executes_goal plan s rfl

end Exists

end NaturalDeduction
