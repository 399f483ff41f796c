import Mathlib.Data.Int.Order.Basic
import Mathlib.Data.Nat.Basic
import Mathlib.Order.Monotone.Defs
import NaturalDeduction.Search.Searcher

/-!
# An algebra of attempts

A searcher is a function of the tally, written out case by case. All of them
are put together in the same few ways: an attempt succeeds or fails at once,
asks the prover for the goals below and goes on according to what comes
back, or takes a fresh number. Written with these (`Attempt.succeed`,
`Attempt.fail`, `Attempt.branch`, `Attempt.withFresh`), a searcher is an
expression, and what holds of all searchers is proved by one lemma for each
of the four.

Three things are proved in this way here and in the modules that follow.
An attempt *grows* if it only moves the tally on: numbers and steps go up,
and a limit that has been met stays met. It *finds* what has a property if
every proof it comes back with has it. And it *succeeds* as long as the tally
stays quiet if it always comes back with a proof, unless a limit is met on
the way.
-/

namespace NaturalDeduction

/-! ## The order of tallies -/

namespace Tally

/-- **A tally at a later moment** has handed out no fewer numbers, taken no
fewer steps and met every limit that was met before. -/
structure Later (t t' : Tally) : Prop where
  nextNumber : t.nextNumber ≤ t'.nextNumber
  steps : t.steps ≤ t'.steps
  cutOff : t.cutOff = true → t'.cutOff = true
  outOfSteps : t.outOfSteps = true → t'.outOfSteps = true

instance : Preorder Tally where
  le := Later
  le_refl t := ⟨le_rfl, le_rfl, id, id⟩
  le_trans _ _ _ h h' := ⟨h.nextNumber.trans h'.nextNumber, h.steps.trans h'.steps,
    h'.cutOff ∘ h.cutOff, h'.outOfSteps ∘ h.outOfSteps⟩

variable {t t' : Tally}

theorem later (h : t ≤ t') : Later t t' := h

theorem cutOff_of_le (h : t ≤ t') (hc : t'.cutOff = false) : t.cutOff = false :=
  Bool.eq_false_iff.mpr fun ht => Bool.eq_false_iff.mp hc ((later h).cutOff ht)

theorem outOfSteps_of_le (h : t ≤ t') (ho : t'.outOfSteps = false) : t.outOfSteps = false :=
  Bool.eq_false_iff.mpr fun ht => Bool.eq_false_iff.mp ho ((later h).outOfSteps ht)

theorem le_fresh (t : Tally) : t ≤ t.fresh.2 :=
  Later.mk (Int.le_add_of_nonneg_right (by decide)) le_rfl id id

end Tally

namespace Attempt

/-! ## Putting attempts together -/

/-- The attempt that comes back with a proof at once. -/
def succeed (p : ProofTree) : Attempt := fun t => (.ok p, t)

/-- The attempt that fails at once. -/
def fail (e : Exhausted) : Attempt := fun t => (.error e, t)

/-- **Going on after an attempt**, with the proof or with the failure it
came back with. -/
def branch (a : Attempt) (onProof : ProofTree → Attempt) (onFailure : Exhausted → Attempt) :
    Attempt := fun t =>
  match a t with
  | (.ok p, t) => onProof p t
  | (.error e, t) => onFailure e t

/-- Going on with a fresh number. -/
def withFresh (k : Int → Attempt) : Attempt := fun t => k t.fresh.1 t.fresh.2

variable {a : Attempt} {k : ProofTree → Attempt} {b : Exhausted → Attempt} {t t₁ : Tally}

theorem branch_of_ok {p : ProofTree} (h : a t = (.ok p, t₁)) : branch a k b t = k p t₁ := by
  rw [branch, h]

theorem branch_of_error {e : Exhausted} (h : a t = (.error e, t₁)) :
    branch a k b t = b e t₁ := by
  rw [branch, h]

/-- A result that gives something away about a proof has one. -/
theorem exists_proof {r : Except Exhausted ProofTree} {α : Type} {view : ProofTree → α} {x : α}
    (h : r.toOption.map view = some x) : ∃ p, r = .ok p ∧ view p = x := by
  cases r with
  | error e => cases h
  | ok p => exact ⟨p, rfl, Option.some.inj h⟩

/-! ## Growing -/

/-- **An attempt that only moves the tally on.** -/
def Grows (a : Attempt) : Prop := ∀ t, t ≤ (a t).2

theorem grows_succeed (p : ProofTree) : (succeed p).Grows := fun _ => le_rfl

theorem grows_fail (e : Exhausted) : (fail e).Grows := fun _ => le_rfl

theorem Grows.branch (ha : a.Grows) (hk : ∀ p, (k p).Grows) (hb : ∀ e, (b e).Grows) :
    (branch a k b).Grows := by
  intro t
  have hat := ha t
  rcases h : a t with ⟨e | p, t₁⟩ <;> rw [h] at hat
  · rw [branch_of_error h]
    exact hat.trans (hb e t₁)
  · rw [branch_of_ok h]
    exact hat.trans (hk p t₁)

theorem Grows.withFresh {k : Int → Attempt} (hk : ∀ n, (k n).Grows) : (withFresh k).Grows :=
  fun t => t.le_fresh.trans (hk t.fresh.1 t.fresh.2)

/-! ## Finding -/

/-- **What an attempt finds**: when it is started with no number from `n` on
handed out, the proof it comes back with has the property, which may refer
to the numbers handed out by then. -/
def Finds (a : Attempt) (n : Int) (property : Int → ProofTree → Prop) : Prop :=
  ∀ t p, n ≤ t.nextNumber → (a t).1 = .ok p → property (a t).2.nextNumber p

variable {n : Int} {P Q : Int → ProofTree → Prop}

theorem finds_succeed {p : ProofTree} (h : ∀ m, n ≤ m → Q m p) : (succeed p).Finds n Q := by
  intro t q hn hq
  obtain rfl := Except.ok.inj hq
  exact h t.nextNumber hn

theorem finds_fail (e : Exhausted) : (fail e).Finds n Q := fun _ _ _ hp => nomatch hp

theorem Finds.branch (hg : a.Grows) (ha : a.Finds n P)
    (hk : ∀ p m, n ≤ m → P m p → (k p).Finds m Q) (hb : ∀ e, (b e).Finds n Q) :
    (branch a k b).Finds n Q := by
  intro t q hn hq
  have hgt := hg t
  have hat := ha t
  rcases h : a t with ⟨e | p, t₁⟩ <;> rw [h] at hgt hat
  · rw [branch_of_error h] at hq ⊢
    exact hb e t₁ q (hn.trans (Tally.later hgt).nextNumber) hq
  · rw [branch_of_ok h] at hq ⊢
    exact hk p t₁.nextNumber (hn.trans (Tally.later hgt).nextNumber) (hat p hn rfl) t₁ q le_rfl hq

theorem Finds.withFresh {k : Int → Attempt} (hk : ∀ m, n ≤ m → (k m).Finds (m + 1) Q) :
    (withFresh k).Finds n Q :=
  fun t q hn hq => hk t.nextNumber hn t.fresh.2 q le_rfl hq

/-! ## Succeeding -/

/-- **An attempt that succeeds while the tally is quiet**: it comes back with
a proof unless the tally is no longer quiet by then. -/
def Succeeds (quiet : Tally → Prop) (a : Attempt) : Prop :=
  ∀ t, quiet (a t).2 → ∃ p, (a t).1 = .ok p

variable {quiet : Tally → Prop}

theorem succeeds_succeed (p : ProofTree) : Succeeds quiet (succeed p) := fun _ _ => ⟨p, rfl⟩

/-- What goes on after an attempt that succeeds only has to succeed with a
proof. The failure is excluded by the tally, which could not have become
quiet again. -/
theorem Succeeds.branch (hquiet : Antitone quiet) (ha : Succeeds quiet a)
    (hk : ∀ p, Succeeds quiet (k p)) (hb : ∀ e, (b e).Grows) :
    Succeeds quiet (branch a k b) := by
  intro t ht
  have hat := ha t
  rcases h : a t with ⟨e | p, t₁⟩ <;> rw [h] at hat
  · rw [branch_of_error h] at ht
    obtain ⟨p, hp⟩ := hat (hquiet (hb e t₁) ht)
    cases hp
  · rw [branch_of_ok h] at ht ⊢
    exact hk p t₁ ht

/-- An attempt that goes on to succeed whatever comes back succeeds. -/
theorem succeeds_branch (hk : ∀ p, Succeeds quiet (k p)) (hb : ∀ e, Succeeds quiet (b e)) :
    Succeeds quiet (branch a k b) := by
  intro t ht
  rcases h : a t with ⟨e | p, t₁⟩
  · rw [branch_of_error h] at ht ⊢
    exact hb e t₁ ht
  · rw [branch_of_ok h] at ht ⊢
    exact hk p t₁ ht

theorem Succeeds.withFresh {k : Int → Attempt} (hk : ∀ n, Succeeds quiet (k n)) :
    Succeeds quiet (withFresh k) := fun t ht => hk t.fresh.1 t.fresh.2 ht

end Attempt

/-! ## The searchers as expressions -/

namespace Search

open Attempt

variable (prove : Prover) (goal left right : Formula) (ctx : Context)

theorem byAndIntro_and :
    byAndIntro prove (.and left right) ctx =
      (prove left ctx).branch (fun p => (prove right ctx).branch
        (fun q => succeed (.infer (.and left right) .andIntro [p, q])) fail) fail := by
  funext t
  simp only [byAndIntro, branch]
  rcases prove left ctx t with ⟨e | p, t₁⟩
  · rfl
  · dsimp only
    rcases prove right ctx t₁ with ⟨e | q, t₂⟩ <;> rfl

theorem byOrIntro_or :
    byOrIntro prove (.or left right) ctx =
      (prove left ctx).branch (fun p => succeed (.infer (.or left right) .orIntroLeft [p]))
        (fun _ => (prove right ctx).branch
          (fun p => succeed (.infer (.or left right) .orIntroRight [p]))
          (fun _ => noRule (.or left right))) := by
  funext t
  simp only [byOrIntro, branch]
  rcases prove left ctx t with ⟨e | p, t₁⟩
  · dsimp only
    rcases prove right ctx t₁ with ⟨e | q, t₂⟩ <;> rfl
  · rfl

theorem byImpIntro_imp :
    byImpIntro prove (.imp left right) ctx =
      withFresh fun n => (prove right (ctx.push left n)).branch
        (fun p => succeed
          { ProofTree.infer (.imp left right) .impIntro [p] with discharges := [some n] })
        fail := by
  funext t
  simp only [byImpIntro, withFresh, branch]
  rcases prove right (ctx.push left t.fresh.1) t.fresh.2 with ⟨e | p, t₁⟩ <;> rfl

theorem splitCases_eq (proof : ProofTree) :
    splitCases prove goal ctx left right proof =
      if (ctx.lookup left).isSome || (ctx.lookup right).isSome then noRule goal
      else withFresh fun m => (prove goal (ctx.push left m)).branch
        (fun p => withFresh fun n => (prove goal (ctx.push right n)).branch
          (fun q => succeed { ProofTree.infer goal .orElim [proof, p, q] with
            discharges := [some m, some n] }) fail) fail := by
  unfold splitCases
  split
  · rfl
  · funext t
    simp only [withFresh, branch]
    rcases prove goal (ctx.push left t.fresh.1) t.fresh.2 with ⟨e | p, t₁⟩
    · rfl
    · dsimp only
      rcases prove goal (ctx.push right t₁.fresh.1) t₁.fresh.2 with ⟨e | q, t₂⟩ <;> rfl

variable (split : Bool) (proof : ProofTree)

/-- Following a fact, if the goal can come out of it. -/
def follow (fact : Formula) (proof : ProofTree) : Attempt :=
  if reaches split fact goal then useFact prove split goal ctx fact proof else noRule goal

theorem follow_apply (fact : Formula) (t : Tally) :
    follow prove goal ctx split fact proof t =
      if reaches split fact goal then useFact prove split goal ctx fact proof t
      else noRule goal t := by
  unfold follow
  split <;> rfl

theorem useFact_self : useFact prove split goal ctx goal proof = succeed proof := by
  unfold useFact
  rw [if_pos rfl]
  rfl

variable {prove goal left right ctx split proof}

theorem useFact_and (h : .and left right ≠ goal) :
    useFact prove split goal ctx (.and left right) proof =
      (follow prove goal ctx split left (.infer left .andElimLeft [proof])).branch succeed
        (fun _ => (follow prove goal ctx split right (.infer right .andElimRight [proof])).branch
          succeed (fun _ => noRule goal)) := by
  funext t
  rw [useFact, if_neg h]
  simp only [← follow_apply, branch]
  rcases follow prove goal ctx split left (.infer left .andElimLeft [proof]) t with ⟨e | p, t₁⟩
  · dsimp only
    rcases follow prove goal ctx split right (.infer right .andElimRight [proof]) t₁ with
      ⟨e | p, t₂⟩ <;> rfl
  · rfl

theorem useFact_imp (h : .imp left right ≠ goal) :
    useFact prove split goal ctx (.imp left right) proof =
      if reaches split right goal then
        (prove left ctx).branch
          (fun p => useFact prove split goal ctx right (.infer right .impElim [p, proof]))
          (fun _ => noRule goal)
      else noRule goal := by
  funext t
  rw [useFact, if_neg h]
  split
  · unfold branch
    rcases prove left ctx t with ⟨e | p, t₁⟩ <;> rfl
  · rfl

theorem useFact_or (h : .or left right ≠ goal) :
    useFact prove split goal ctx (.or left right) proof =
      if split then splitCases prove goal ctx left right proof else noRule goal := by
  rw [useFact, if_neg h]

theorem useFact_atom {name : String} (h : .atom name ≠ goal) :
    useFact prove split goal ctx (.atom name) proof = noRule goal := by
  rw [useFact, if_neg h]

theorem useFact_neg {body : Formula} (h : .neg body ≠ goal) :
    useFact prove split goal ctx (.neg body) proof = noRule goal := by
  rw [useFact, if_neg h]

/-- **Induction along the taking apart of a fact.** What holds of a fact that
is the goal, of giving up, and of each way of going on if it holds of the
facts gone on with, holds of taking any fact apart. -/
theorem useFact_induction {motive : Formula → ProofTree → Attempt → Prop}
    (self : ∀ proof, motive goal proof (succeed proof))
    (dead : ∀ fact proof, motive fact proof (noRule goal))
    (and : ∀ left right proof, (∀ q, motive left q (follow prove goal ctx split left q)) →
      (∀ q, motive right q (follow prove goal ctx split right q)) →
      motive (.and left right) proof
        ((follow prove goal ctx split left (.infer left .andElimLeft [proof])).branch succeed
          fun _ => (follow prove goal ctx split right (.infer right .andElimRight [proof])).branch
            succeed fun _ => noRule goal))
    (imp : ∀ left right proof, (∀ q, motive right q (useFact prove split goal ctx right q)) →
      motive (.imp left right) proof
        ((prove left ctx).branch
          (fun p => useFact prove split goal ctx right (.infer right .impElim [p, proof]))
          fun _ => noRule goal))
    (or : ∀ left right proof,
      motive (.or left right) proof (splitCases prove goal ctx left right proof))
    (fact : Formula) (proof : ProofTree) :
    motive fact proof (useFact prove split goal ctx fact proof) := by
  have hfollow : ∀ {f : Formula} (q : ProofTree), motive f q (useFact prove split goal ctx f q) →
      motive f q (follow prove goal ctx split f q) := by
    intro f q hq
    unfold follow
    split
    · exact hq
    · exact dead f q
  -- a fact that is the goal is not taken apart, whatever its shape
  have hself : ∀ {f : Formula} {q : ProofTree},
      (f ≠ goal → motive f q (useFact prove split goal ctx f q)) →
        motive f q (useFact prove split goal ctx f q) := by
    intro f q hne
    by_cases hg : f = goal
    · rw [hg, useFact_self]
      exact self q
    · exact hne hg
  induction fact generalizing proof with
  | atom name =>
    refine hself fun hg => ?_
    rw [useFact_atom hg]
    exact dead _ proof
  | neg body =>
    refine hself fun hg => ?_
    rw [useFact_neg hg]
    exact dead _ proof
  | or left right =>
    refine hself fun hg => ?_
    rw [useFact_or hg]
    split
    · exact or left right proof
    · exact dead _ proof
  | and left right ihl ihr =>
    refine hself fun hg => ?_
    rw [useFact_and hg]
    exact and left right proof (fun q => hfollow q (ihl q)) (fun q => hfollow q (ihr q))
  | imp left right _ ihr =>
    refine hself fun hg => ?_
    rw [useFact_imp hg]
    split
    · exact imp left right proof ihr
    · exact dead _ proof

theorem eliminateFrom_cons {a : Assumption} {rest : List Assumption} :
    eliminateFrom prove split goal ctx (a :: rest) =
      if a.formula ≠ goal ∧ reaches split a.formula goal then
        (useFact prove split goal ctx a.formula (.ofAssumption a)).branch succeed
          (fun _ => eliminateFrom prove split goal ctx rest)
      else eliminateFrom prove split goal ctx rest := by
  funext t
  rw [eliminateFrom]
  simp only [Bool.and_eq_true, decide_eq_true_eq]
  split
  · rw [branch, use]
    show _ = match useFact prove split goal ctx (ProofTree.ofAssumption a).claim _ t with
      | (.ok p, t) => succeed p t
      | (.error e, t) => _
    rcases useFact prove split goal ctx (ProofTree.ofAssumption a).claim (.ofAssumption a) t with
      ⟨e | p, t₁⟩ <;> rfl
  · rfl

theorem firstOf_cons {s : Searcher} {rest : List Searcher} :
    firstOf prove goal ctx (s :: rest) =
      (s.run prove goal ctx).branch succeed (fun _ => firstOf prove goal ctx rest) := by
  funext t
  simp only [firstOf, branch]
  rcases s.run prove goal ctx t with ⟨e | p, t₁⟩ <;> rfl

section FindProof

variable {maxSteps room : Nat} {pending : List Pursuit} {t : Tally}

theorem findProof_of_steps (h : maxSteps ≤ t.steps) :
    findProof maxSteps room pending goal ctx t =
      (.error ⟨goal, .budget⟩, { t with outOfSteps := true }) := by
  cases room <;> simp only [findProof, if_pos h]

theorem findProof_zero (h : ¬ maxSteps ≤ t.steps) :
    findProof maxSteps 0 pending goal ctx t =
      (.error ⟨goal, .budget⟩, { t with cutOff := true }) := by
  simp only [findProof, if_neg h]

theorem findProof_of_pending (h : ¬ maxSteps ≤ t.steps)
    (hp : pending.any (·.same (.of goal ctx)) = true) :
    findProof maxSteps (room + 1) pending goal ctx t = noRule goal t := by
  simp only [findProof, if_neg h, if_pos hp]

theorem findProof_succ (h : ¬ maxSteps ≤ t.steps)
    (hp : ¬ pending.any (·.same (.of goal ctx)) = true) :
    findProof maxSteps (room + 1) pending goal ctx t =
      firstOf (findProof maxSteps room (.of goal ctx :: pending)) goal ctx Searcher.all
        { t with steps := t.steps + 1 } := by
  simp only [findProof, if_neg h, if_neg hp]

end FindProof

/-- A prover all of whose attempts grow. -/
def ProverGrows (prove : Prover) : Prop := ∀ goal ctx, (prove goal ctx).Grows

end Search

end NaturalDeduction
