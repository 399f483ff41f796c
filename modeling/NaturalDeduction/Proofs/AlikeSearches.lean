import Mathlib.Data.List.Forall2
import NaturalDeduction.Proofs.Attempts
import NaturalDeduction.Search

/-!
# Searches that are alike

A search compares formulas and asks for their outermost connective. What it
learns in this way is the shape of the formulas and which of them are equal,
and of the numbers of its assumptions it learns nothing at all: it only writes
them down. Two searches for which these things are the same therefore go the
same way, step by step.

A `Likeness` says what corresponds to what in two such searches: to each
formula another one of the same shape, different ones to different ones, and
numbers to numbers, in any way that the numbers handed out keep to. Everything
that a search handles is then alike or not, trees and contexts and tallies, and
what is proved of the searchers, one after the other, is that alike things come
out of alike things (`Likeness.findProof`). A search and all its passes follow
(`Likeness.search`).
-/

namespace NaturalDeduction

/-- **A likeness** between two searches. -/
structure Likeness where
  /-- The formula that corresponds to a formula. -/
  formula : Formula → Formula
  /-- Which numbers correspond. -/
  number : Int → Int → Prop
  /-- Which numbers two searches may be about to hand out. -/
  next : Int → Int → Prop
  /-- Formulas that differ correspond to formulas that differ. -/
  injective : Function.Injective formula
  /-- The connectives that a search takes apart are kept. -/
  formula_and : ∀ left right, formula (.and left right) = .and (formula left) (formula right)
  formula_or : ∀ left right, formula (.or left right) = .or (formula left) (formula right)
  formula_imp : ∀ left right, formula (.imp left right) = .imp (formula left) (formula right)
  /-- What it does not take apart corresponds to what it does not take apart. -/
  isBinary_formula : ∀ f, f.isBinary = false → (formula f).isBinary = false
  /-- Numbers that are handed out together correspond, and so do those after
  them. -/
  number_of_next : ∀ m n, next m n → number m n
  next_succ : ∀ m n, next m n → next (m + 1) (n + 1)

namespace Likeness

variable (L : Likeness)

/-! ## Alike things -/

/-- Assumptions that are alike. -/
structure Assumptions (a a' : Assumption) : Prop where
  formula : a'.formula = L.formula a.formula
  number : L.number a.number a'.number

/-- **Contexts that are alike**, assumption by assumption. -/
def Contexts (ctx ctx' : Context) : Prop :=
  List.Forall₂ L.Assumptions ctx.assumptions ctx'.assumptions

/-- **Trees that are alike**: the same rules in the same places, and claims and
numbers that correspond. -/
inductive Trees : ProofTree → ProofTree → Prop where
  | node {p p' : ProofTree} (claim : p'.claim = L.formula p.claim) (rule : p'.rule = p.rule)
      (premises : List.Forall₂ Trees p.premises p'.premises)
      (reference : Option.Rel L.number p.reference p'.reference)
      (discharges : List.Forall₂ (Option.Rel L.number) p.discharges p'.discharges) :
      Trees p p'

/-- Failures that are alike. -/
structure Failures (e e' : Exhausted) : Prop where
  goal : e'.goal = L.formula e.goal
  reason : e'.reason = e.reason

/-- Tallies that are alike: only the numbers differ. -/
structure Tallies (t t' : Tally) : Prop where
  nextNumber : L.next t.nextNumber t'.nextNumber
  steps : t'.steps = t.steps
  cutOff : t'.cutOff = t.cutOff
  outOfSteps : t'.outOfSteps = t.outOfSteps

/-- **Results that are alike**: two proofs, or two failures. -/
inductive Results : Except Exhausted ProofTree → Except Exhausted ProofTree → Prop where
  | ok {p p' : ProofTree} (h : L.Trees p p') : Results (.ok p) (.ok p')
  | error {e e' : Exhausted} (h : L.Failures e e') : Results (.error e) (.error e')

/-- **Attempts that are alike**: from alike tallies they come to alike results
and alike tallies. -/
def Attempts (a a' : Attempt) : Prop :=
  ∀ t t', L.Tallies t t' → L.Results (a t).1 (a' t').1 ∧ L.Tallies (a t).2 (a' t').2

/-- **Provers that are alike**, asked for what corresponds. -/
def Provers (prove prove' : Prover) : Prop :=
  ∀ goal ctx ctx', L.Contexts ctx ctx' →
    L.Attempts (prove goal ctx) (prove' (L.formula goal) ctx')

/-- The pursuit that corresponds to a pursuit. -/
def pursuit (p : Pursuit) : Pursuit := ⟨L.formula p.goal, p.formulas.map L.formula⟩

variable {L}

/-! ## Formulas -/

theorem formula_eq_iff {f g : Formula} : L.formula f = L.formula g ↔ f = g :=
  L.injective.eq_iff

theorem reaches_of_not_isBinary {split : Bool} {fact goal : Formula}
    (h : fact.isBinary = false) : Search.reaches split fact goal = decide (fact = goal) := by
  cases fact with
  | atom name | neg body =>
    unfold Search.reaches
    exact Bool.or_false _
  | and left right | or left right | imp left right => cases h

theorem decide_formula_eq (f g : Formula) :
    decide (L.formula f = L.formula g) = decide (f = g) :=
  decide_eq_decide.mpr formula_eq_iff

/-- **What a goal can come out of** depends on shapes and on what is equal. -/
theorem reaches_formula (split : Bool) (fact goal : Formula) :
    Search.reaches split (L.formula fact) (L.formula goal) = Search.reaches split fact goal := by
  have heq := fun f => decide_formula_eq (L := L) f goal
  induction fact with
  | atom name | neg body =>
    rw [reaches_of_not_isBinary (L.isBinary_formula _ rfl), reaches_of_not_isBinary rfl, heq]
  | and left right ihl ihr =>
    specialize heq (.and left right)
    rw [L.formula_and] at heq ⊢
    rw [Search.reaches, Search.reaches, heq, ihl, ihr]
  | or left right =>
    specialize heq (.or left right)
    rw [L.formula_or] at heq ⊢
    rw [Search.reaches, Search.reaches, heq]
  | imp left right _ ihr =>
    specialize heq (.imp left right)
    rw [L.formula_imp] at heq ⊢
    rw [Search.reaches, Search.reaches, heq, ihr]

/-! ## Contexts and pursuits -/

section Contexts

theorem map_eq_of_forall₂ {α β : Type} {f : α → β} {l : List α} {l' : List β}
    (h : List.Forall₂ (fun a b => f a = b) l l') : l.map f = l' := by
  rw [← List.forall₂_eq_eq_eq, List.forall₂_map_left_iff]
  exact h

variable {ctx ctx' : Context}

theorem Contexts.push (h : L.Contexts ctx ctx') (f : Formula) {m n : Int} (hn : L.number m n) :
    L.Contexts (ctx.push f m) (ctx'.push (L.formula f) n) :=
  List.rel_append h (.cons ⟨rfl, hn⟩ .nil)

theorem Contexts.formulas (h : L.Contexts ctx ctx') :
    ctx'.formulas = ctx.formulas.map L.formula := by
  have hformulas : List.Forall₂ (fun f f' => L.formula f = f') ctx.formulas ctx'.formulas :=
    List.rel_map (fun _ _ ha => ha.formula.symm) h
  exact (map_eq_of_forall₂ hformulas).symm

/-- What is found first among alike assumptions is alike. -/
theorem find?_alike {as as' : List Assumption} (h : List.Forall₂ L.Assumptions as as')
    (f : Formula) :
    Option.Rel L.Assumptions (as.find? (·.formula = f)) (as'.find? (·.formula = L.formula f)) := by
  induction h with
  | nil => exact .none
  | @cons a a' as as' ha _ ih =>
    have hiff : (a'.formula = L.formula f) ↔ (a.formula = f) := by
      rw [ha.formula]
      exact formula_eq_iff
    by_cases hf : a.formula = f
    · rw [List.find?_cons_of_pos (by simpa using hf),
        List.find?_cons_of_pos (by simpa using hiff.mpr hf)]
      exact .some ha
    · rw [List.find?_cons_of_neg (by simpa using hf),
        List.find?_cons_of_neg (by simpa using fun h' => hf (hiff.mp h'))]
      exact ih

theorem Contexts.lookup (h : L.Contexts ctx ctx') (f : Formula) :
    Option.Rel L.Assumptions (ctx.lookup f) (ctx'.lookup (L.formula f)) :=
  find?_alike (List.rel_reverse h) f

theorem Contexts.lookup_isSome (h : L.Contexts ctx ctx') (f : Formula) :
    (ctx'.lookup (L.formula f)).isSome = (ctx.lookup f).isSome := by
  have hlookup := h.lookup f
  generalize ctx.lookup f = o at hlookup ⊢
  generalize ctx'.lookup (L.formula f) = o' at hlookup ⊢
  cases hlookup <;> rfl

theorem Contexts.pursuit_of (h : L.Contexts ctx ctx') (goal : Formula) :
    Pursuit.of (L.formula goal) ctx' = L.pursuit (.of goal ctx) := by
  rw [Pursuit.of, h.formulas]
  rfl

theorem contains_map (fs : List Formula) (f : Formula) :
    (fs.map L.formula).contains (L.formula f) = fs.contains f := by
  rw [Bool.eq_iff_iff, List.contains_iff_mem, List.contains_iff_mem,
    List.mem_map_of_injective L.injective]

theorem same_pursuit (p q : Pursuit) : (L.pursuit p).same (L.pursuit q) = p.same q := by
  unfold Pursuit.same pursuit
  simp only [List.all_map, Function.comp_def, contains_map, formula_eq_iff]

theorem any_same_pursuit (pending : List Pursuit) (p : Pursuit) :
    (pending.map L.pursuit).any (·.same (L.pursuit p)) = pending.any (·.same p) := by
  rw [List.any_map]
  exact congrArg pending.any (funext fun q => same_pursuit q p)

end Contexts

/-! ## Trees -/

section Trees

theorem Assumptions.tree {a a' : Assumption} (h : L.Assumptions a a') :
    L.Trees (.ofAssumption a) (.ofAssumption a') :=
  .node h.formula rfl .nil (.some h.number) .nil

/-- Inferences from alike premises are alike. -/
theorem Trees.infer {claim claim' : Formula} {rule : Rule} {ps ps' : List ProofTree}
    (hclaim : claim' = L.formula claim) (h : List.Forall₂ L.Trees ps ps') :
    L.Trees (.infer claim rule ps) (.infer claim' rule ps') :=
  .node hclaim rfl h .none .nil

end Trees

/-! ## Attempts -/

section Attempts

open Attempt

variable {a a' : Attempt} {k k' : ProofTree → Attempt} {b b' : Exhausted → Attempt}

theorem attempts_succeed {p p' : ProofTree} (h : L.Trees p p') :
    L.Attempts (succeed p) (succeed p') := fun _ _ ht => ⟨.ok h, ht⟩

theorem attempts_fail {e e' : Exhausted} (h : L.Failures e e') :
    L.Attempts (fail e) (fail e') := fun _ _ ht => ⟨.error h, ht⟩

theorem attempts_noRule {goal goal' : Formula} (h : goal' = L.formula goal) :
    L.Attempts (Search.noRule goal) (Search.noRule goal') :=
  attempts_fail ⟨h, rfl⟩

theorem Attempts.branch (ha : L.Attempts a a')
    (hk : ∀ p p', L.Trees p p' → L.Attempts (k p) (k' p'))
    (hb : ∀ e e', L.Failures e e' → L.Attempts (b e) (b' e')) :
    L.Attempts (branch a k b) (branch a' k' b') := by
  intro t t' ht
  obtain ⟨hresult, htally⟩ := ha t t' ht
  rcases h : a t with ⟨r, t₁⟩
  rcases h' : a' t' with ⟨r', t₁'⟩
  rw [h, h'] at hresult htally
  cases hresult with
  | ok hp =>
    rw [branch_of_ok h, branch_of_ok h']
    exact hk _ _ hp t₁ t₁' htally
  | error he =>
    rw [branch_of_error h, branch_of_error h']
    exact hb _ _ he t₁ t₁' htally

theorem Attempts.withFresh {k k' : Int → Attempt}
    (hk : ∀ m n, L.number m n → L.Attempts (k m) (k' n)) :
    L.Attempts (withFresh k) (withFresh k') := by
  intro t t' ht
  have hfresh : L.Tallies t.fresh.2 t'.fresh.2 :=
    ⟨L.next_succ _ _ ht.nextNumber, ht.steps, ht.cutOff, ht.outOfSteps⟩
  exact hk _ _ (L.number_of_next _ _ ht.nextNumber) _ _ hfresh

/-- Trying something else after alike attempts fail. -/
theorem Attempts.orElse (ha : L.Attempts a a') {c c' : Attempt} (hc : L.Attempts c c') :
    L.Attempts (a.branch succeed fun _ => c) (a'.branch succeed fun _ => c') :=
  ha.branch (fun _ _ hp => attempts_succeed hp) fun _ _ _ => hc

end Attempts

/-! ## Searchers -/

section Searchers

open Attempt Search

variable {prove prove' : Prover} {ctx ctx' : Context} {split : Bool}

theorem byAssumption (hctx : L.Contexts ctx ctx') (goal : Formula) :
    L.Attempts (Search.byAssumption goal ctx) (Search.byAssumption (L.formula goal) ctx') := by
  have hlookup := hctx.lookup goal
  unfold Search.byAssumption
  cases h : ctx.lookup goal <;> cases h' : ctx'.lookup (L.formula goal) <;> rw [h, h'] at hlookup
  · exact attempts_noRule rfl
  · cases hlookup
  · cases hlookup
  · cases hlookup with
    | some ha => exact attempts_succeed ha.tree

/-- A goal that no introduction yields, in either search. -/
theorem intro_of_not_isBinary {goal : Formula} (h : goal.isBinary = false) :
    Search.byAndIntro prove goal ctx = noRule goal ∧ Search.byOrIntro prove goal ctx = noRule goal
      ∧ Search.byImpIntro prove goal ctx = noRule goal := by
  cases goal with
  | atom name | neg body => exact ⟨rfl, rfl, rfl⟩
  | and left right | or left right | imp left right => cases h

theorem useFact_of_not_isBinary {goal fact : Formula} {proof : ProofTree}
    (h : fact.isBinary = false) (hne : fact ≠ goal) :
    Search.useFact prove split goal ctx fact proof = noRule goal := by
  cases fact with
  | atom name => exact useFact_atom hne
  | neg body => exact useFact_neg hne
  | and left right | or left right | imp left right => cases h

/-- A fact that is the goal is not taken apart, and neither is what
corresponds to it. -/
theorem useFact_of_ne {goal fact : Formula} {proof proof' : ProofTree}
    (hproof : L.Trees proof proof')
    (h : fact ≠ goal → L.formula fact ≠ L.formula goal →
      L.Attempts (Search.useFact prove split goal ctx fact proof)
        (Search.useFact prove' split (L.formula goal) ctx' (L.formula fact) proof')) :
    L.Attempts (Search.useFact prove split goal ctx fact proof)
      (Search.useFact prove' split (L.formula goal) ctx' (L.formula fact) proof') := by
  by_cases hg : fact = goal
  · rw [hg, useFact_self, useFact_self]
    exact attempts_succeed hproof
  · exact h hg fun hg' => hg (L.injective hg')

theorem follow {goal fact : Formula} {proof proof' : ProofTree}
    (h : L.Attempts (Search.useFact prove split goal ctx fact proof)
      (Search.useFact prove' split (L.formula goal) ctx' (L.formula fact) proof')) :
    L.Attempts (Search.follow prove goal ctx split fact proof)
      (Search.follow prove' (L.formula goal) ctx' split (L.formula fact) proof') := by
  unfold Search.follow
  rw [reaches_formula]
  split
  · exact h
  · exact attempts_noRule rfl

variable (hprove : L.Provers prove prove') (hctx : L.Contexts ctx ctx')

include hprove hctx

theorem byAndIntro (goal : Formula) :
    L.Attempts (Search.byAndIntro prove goal ctx)
      (Search.byAndIntro prove' (L.formula goal) ctx') := by
  cases goal with
  | atom name | neg body =>
    rw [(intro_of_not_isBinary (L.isBinary_formula _ rfl)).1]
    exact attempts_noRule rfl
  | or left right =>
    rw [L.formula_or]
    exact attempts_noRule (L.formula_or left right).symm
  | imp left right =>
    rw [L.formula_imp]
    exact attempts_noRule (L.formula_imp left right).symm
  | and left right =>
    rw [L.formula_and, byAndIntro_and, byAndIntro_and]
    refine (hprove left ctx ctx' hctx).branch (fun p p' hp => ?_) fun _ _ => attempts_fail
    refine (hprove right ctx ctx' hctx).branch (fun q q' hq => ?_) fun _ _ => attempts_fail
    exact attempts_succeed (.infer (L.formula_and left right).symm (.cons hp (.cons hq .nil)))

theorem byOrIntro (goal : Formula) :
    L.Attempts (Search.byOrIntro prove goal ctx)
      (Search.byOrIntro prove' (L.formula goal) ctx') := by
  cases goal with
  | atom name | neg body =>
    rw [(intro_of_not_isBinary (L.isBinary_formula _ rfl)).2.1]
    exact attempts_noRule rfl
  | and left right =>
    rw [L.formula_and]
    exact attempts_noRule (L.formula_and left right).symm
  | imp left right =>
    rw [L.formula_imp]
    exact attempts_noRule (L.formula_imp left right).symm
  | or left right =>
    have hgoal := (L.formula_or left right).symm
    rw [L.formula_or, byOrIntro_or, byOrIntro_or]
    refine (hprove left ctx ctx' hctx).branch
      (fun p p' hp => attempts_succeed (.infer hgoal (.cons hp .nil))) fun _ _ _ => ?_
    exact (hprove right ctx ctx' hctx).branch
      (fun p p' hp => attempts_succeed (.infer hgoal (.cons hp .nil)))
      fun _ _ _ => attempts_noRule hgoal

theorem byImpIntro (goal : Formula) :
    L.Attempts (Search.byImpIntro prove goal ctx)
      (Search.byImpIntro prove' (L.formula goal) ctx') := by
  cases goal with
  | atom name | neg body =>
    rw [(intro_of_not_isBinary (L.isBinary_formula _ rfl)).2.2]
    exact attempts_noRule rfl
  | and left right =>
    rw [L.formula_and]
    exact attempts_noRule (L.formula_and left right).symm
  | or left right =>
    rw [L.formula_or]
    exact attempts_noRule (L.formula_or left right).symm
  | imp left right =>
    rw [L.formula_imp, byImpIntro_imp, byImpIntro_imp]
    refine .withFresh fun m n hn => ?_
    refine (hprove right _ _ (hctx.push left hn)).branch (fun p p' hp => ?_)
      fun _ _ => attempts_fail
    exact attempts_succeed (.node (L.formula_imp left right).symm rfl (.cons hp .nil) .none
      (.cons (.some hn) .nil))

theorem splitCases (goal left right : Formula) {d d' : ProofTree} (hd : L.Trees d d') :
    L.Attempts (Search.splitCases prove goal ctx left right d)
      (Search.splitCases prove' (L.formula goal) ctx' (L.formula left) (L.formula right) d') := by
  rw [splitCases_eq, splitCases_eq, hctx.lookup_isSome, hctx.lookup_isSome]
  split
  · exact attempts_noRule rfl
  · refine .withFresh fun m m' hm => ?_
    refine (hprove goal _ _ (hctx.push left hm)).branch (fun p p' hp => ?_)
      fun _ _ => attempts_fail
    refine .withFresh fun n n' hn => ?_
    refine (hprove goal _ _ (hctx.push right hn)).branch (fun q q' hq => ?_)
      fun _ _ => attempts_fail
    exact attempts_succeed (.node rfl rfl (.cons hd (.cons hp (.cons hq .nil))) .none
      (.cons (.some hm) (.cons (.some hn) .nil)))

/-- **Taking alike facts apart**, along the fact. -/
theorem useFact (goal fact : Formula) {proof proof' : ProofTree} (hproof : L.Trees proof proof') :
    L.Attempts (Search.useFact prove split goal ctx fact proof)
      (Search.useFact prove' split (L.formula goal) ctx' (L.formula fact) proof') := by
  induction fact generalizing proof proof' with
  | atom name | neg body =>
    refine useFact_of_ne hproof fun hne hne' => ?_
    rw [useFact_of_not_isBinary rfl hne, useFact_of_not_isBinary (L.isBinary_formula _ rfl) hne']
    exact attempts_noRule rfl
  | and left right ihl ihr =>
    refine useFact_of_ne hproof fun hne hne' => ?_
    rw [L.formula_and] at hne' ⊢
    rw [useFact_and hne, useFact_and hne']
    exact .orElse (follow (ihl (.infer rfl (.cons hproof .nil))))
      (.orElse (follow (ihr (.infer rfl (.cons hproof .nil)))) (attempts_noRule rfl))
  | or left right =>
    refine useFact_of_ne hproof fun hne hne' => ?_
    rw [L.formula_or] at hne' ⊢
    rw [useFact_or hne, useFact_or hne']
    split
    · exact splitCases hprove hctx goal left right hproof
    · exact attempts_noRule rfl
  | imp left right _ ihr =>
    refine useFact_of_ne hproof fun hne hne' => ?_
    rw [L.formula_imp] at hne' ⊢
    rw [useFact_imp hne, useFact_imp hne', reaches_formula]
    split
    · exact (hprove left ctx ctx' hctx).branch
        (fun p p' hp => ihr (.infer rfl (.cons hp (.cons hproof .nil))))
        fun _ _ _ => attempts_noRule rfl
    · exact attempts_noRule rfl

theorem eliminateFrom (goal : Formula) {as as' : List Assumption}
    (has : List.Forall₂ L.Assumptions as as') :
    L.Attempts (Search.eliminateFrom prove split goal ctx as)
      (Search.eliminateFrom prove' split (L.formula goal) ctx' as') := by
  induction has with
  | nil => exact attempts_noRule rfl
  | @cons a a' as as' ha _ ih =>
    have huse : L.Attempts (Search.useFact prove split goal ctx a.formula (.ofAssumption a))
        (Search.useFact prove' split (L.formula goal) ctx' (L.formula a.formula)
          (.ofAssumption a')) := useFact hprove hctx goal a.formula ha.tree
    rw [eliminateFrom_cons, eliminateFrom_cons, ha.formula, reaches_formula]
    simp only [ne_eq, formula_eq_iff]
    split
    · exact huse.orElse ih
    · exact ih

theorem run (s : Searcher) (goal : Formula) :
    L.Attempts (s.run prove goal ctx) (s.run prove' (L.formula goal) ctx') := by
  cases s with
  | assumption => exact byAssumption hctx goal
  | andIntro => exact byAndIntro hprove hctx goal
  | orIntro => exact byOrIntro hprove hctx goal
  | impIntro => exact byImpIntro hprove hctx goal
  | elim | orElim => exact eliminateFrom hprove hctx goal hctx

theorem firstOf (searchers : List Searcher) (goal : Formula) :
    L.Attempts (Search.firstOf prove goal ctx searchers)
      (Search.firstOf prove' (L.formula goal) ctx' searchers) := by
  induction searchers with
  | nil => exact attempts_noRule rfl
  | cons s rest ih =>
    rw [firstOf_cons, firstOf_cons]
    exact (run hprove hctx s goal).orElse ih

end Searchers

/-! ## Searches -/

section Searches

open Search

variable {ctx ctx' : Context}

/-- **The searches for one goal are alike**, whatever the room. The goals
pending above are the same up to the correspondence, so a goal is found
pending in both or in neither. -/
theorem findProof (maxSteps room : Nat) (pending : List Pursuit) :
    L.Provers (Search.findProof maxSteps room pending)
      (Search.findProof maxSteps room (pending.map L.pursuit)) := by
  induction room generalizing pending with
  | zero =>
    intro goal ctx ctx' _ t t' ht
    by_cases hsteps : maxSteps ≤ t.steps
    · rw [findProof_of_steps hsteps, findProof_of_steps (ht.steps.symm ▸ hsteps)]
      exact ⟨.error ⟨rfl, rfl⟩, ht.nextNumber, ht.steps, ht.cutOff, rfl⟩
    · rw [findProof_zero hsteps, findProof_zero (ht.steps.symm ▸ hsteps)]
      exact ⟨.error ⟨rfl, rfl⟩, ht.nextNumber, ht.steps, rfl, ht.outOfSteps⟩
  | succ room ih =>
    intro goal ctx ctx' hctx t t' ht
    by_cases hsteps : maxSteps ≤ t.steps
    · rw [findProof_of_steps hsteps, findProof_of_steps (ht.steps.symm ▸ hsteps)]
      exact ⟨.error ⟨rfl, rfl⟩, ht.nextNumber, ht.steps, ht.cutOff, rfl⟩
    have hany : (pending.map L.pursuit).any (·.same (.of (L.formula goal) ctx'))
        = pending.any (·.same (.of goal ctx)) := by
      rw [hctx.pursuit_of, any_same_pursuit]
    by_cases hpending : pending.any (·.same (.of goal ctx)) = true
    · rw [findProof_of_pending hsteps hpending,
        findProof_of_pending (ht.steps.symm ▸ hsteps) (hany.trans hpending)]
      exact attempts_noRule rfl t t' ht
    · rw [findProof_succ hsteps hpending,
        findProof_succ (ht.steps.symm ▸ hsteps) (hany.symm ▸ hpending), hctx.pursuit_of]
      exact firstOf (ih _) hctx Searcher.all goal _ _
        ⟨ht.nextNumber, congrArg (· + 1) ht.steps, ht.cutOff, ht.outOfSteps⟩

variable (L) in
/-- **States that are alike.** -/
structure States (s s' : SearchState) : Prop where
  budget : s'.budget = s.budget
  depth : s'.depth = s.depth
  depthLimit : s'.depthLimit = s.depthLimit
  pending : s'.pending = s.pending.map L.pursuit
  tally : L.Tallies s.tally s'.tally

theorem States.startPass {s s' : SearchState} (h : L.States s s') (limit : Int) :
    L.States (s.startPass limit) (s'.startPass limit) :=
  ⟨h.budget, h.depth, rfl, h.pending, h.tally.nextNumber, h.tally.steps, rfl, h.tally.outOfSteps⟩

theorem States.findProof {s s' : SearchState} (h : L.States s s') (hctx : L.Contexts ctx ctx')
    (goal : Formula) :
    L.Results (s.findProof goal ctx).1 (s'.findProof (L.formula goal) ctx').1
      ∧ L.States (s.findProof goal ctx).2 (s'.findProof (L.formula goal) ctx').2 := by
  have hprover : L.Provers s.prover s'.prover := by
    rw [SearchState.prover, SearchState.prover, SearchState.room, SearchState.room, h.budget,
      h.depth, h.depthLimit, h.pending]
    exact Likeness.findProof _ _ _
  obtain ⟨hresult, htally⟩ := hprover goal ctx ctx' hctx _ _ h.tally
  exact ⟨hresult, h.budget, h.depth, h.depthLimit, h.pending, htally⟩

/-- **The passes are alike**, and so is how they end. -/
theorem States.passes {s s' : SearchState} (h : L.States s s') (hctx : L.Contexts ctx ctx')
    (goal : Formula) (remaining limit : Nat) :
    L.Results (Search.passes goal ctx remaining limit s).1
        (Search.passes (L.formula goal) ctx' remaining limit s').1
      ∧ L.States (Search.passes goal ctx remaining limit s).2
        (Search.passes (L.formula goal) ctx' remaining limit s').2 := by
  induction remaining generalizing limit s s' with
  | zero => exact ⟨.error ⟨rfl, rfl⟩, h⟩
  | succ remaining ih =>
    obtain ⟨hresult, hstates⟩ := (h.startPass limit).findProof hctx goal
    rw [Search.passes, Search.passes]
    generalize (s.startPass limit).findProof goal ctx = pass at hresult hstates ⊢
    generalize (s'.startPass limit).findProof (L.formula goal) ctx' = pass' at hresult hstates ⊢
    obtain ⟨r, s₁⟩ := pass
    obtain ⟨r', s₁'⟩ := pass'
    cases hresult with
    | ok hp => exact ⟨.ok hp, hstates⟩
    | error _ =>
      dsimp only
      rw [hstates.tally.outOfSteps, hstates.tally.cutOff]
      split
      · exact ⟨.error ⟨rfl, rfl⟩, hstates⟩
      · split
        · exact ih hstates (limit + 1)
        · exact ⟨.error ⟨rfl, rfl⟩, hstates⟩

/-- The passes of a whole search are alike, and take the same number of steps. -/
theorem passes_start (hctx : L.Contexts ctx ctx')
    (hnext : L.next (ctx.maxNumber + 1) (ctx'.maxNumber + 1)) (goal : Formula) (budget : Budget) :
    L.Results (Search.passes goal ctx budget.maxDepth 1 (.start budget (ctx.maxNumber + 1))).1
        (Search.passes (L.formula goal) ctx' budget.maxDepth 1
          (.start budget (ctx'.maxNumber + 1))).1
      ∧ (NaturalDeduction.search (L.formula goal) ctx' budget).steps
        = (NaturalDeduction.search goal ctx budget).steps := by
  have hstart : L.States (.start budget (ctx.maxNumber + 1)) (.start budget (ctx'.maxNumber + 1)) :=
    ⟨rfl, rfl, rfl, rfl, hnext, rfl, rfl, rfl⟩
  obtain ⟨hresult, hstates⟩ := hstart.passes hctx goal budget.maxDepth 1
  exact ⟨hresult, hstates.tally.steps⟩

/-- **Searches from alike contexts are alike**: they take the same number of
steps, and what they return are alike results, each renumbered for its own
context. -/
theorem search (hctx : L.Contexts ctx ctx')
    (hnext : L.next (ctx.maxNumber + 1) (ctx'.maxNumber + 1)) (goal : Formula) (budget : Budget) :
    (NaturalDeduction.search (L.formula goal) ctx' budget).steps
        = (NaturalDeduction.search goal ctx budget).steps
      ∧ ∃ raw raw', L.Results raw raw'
        ∧ (NaturalDeduction.search goal ctx budget).result
          = raw.map (·.renumber (ctx.maxNumber + 1))
        ∧ (NaturalDeduction.search (L.formula goal) ctx' budget).result
          = raw'.map (·.renumber (ctx'.maxNumber + 1)) := by
  obtain ⟨hresult, hsteps⟩ := passes_start hctx hnext goal budget
  exact ⟨hsteps, _, _, hresult, rfl, rfl⟩

end Searches

end Likeness

end NaturalDeduction
