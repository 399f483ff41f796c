import Mathlib.Order.UpperLower.Principal
import NaturalDeduction.Proofs.Acceptance
import NaturalDeduction.Valuation

/-!
# Kripke models

The calculus is intuitionistic, and it has no rule for negation: a negated
formula is a letter, which has nothing to do with the formula it negates.
Its models are the Kripke models in which the letters are the atoms *and*
the negated formulas, each true in an upward-closed set of worlds of its
own.

Derivations preserve forcing (`IsDerivation.forces`), so whatever the check
accepts is forced wherever its context is. A single world in which a letter
is true when a valuation makes it true is such a model, whatever negation
means there, and in it forcing is truth (`KripkeModel.forces_classical_iff`).
So what the check accepts is also true in the sense of truth tables, in which
negation *does* have a meaning.
-/

universe u

namespace NaturalDeduction

/-- **A Kripke model** over a preorder of worlds. -/
structure KripkeModel (W : Type u) [Preorder W] where
  /-- Where an atom is true. -/
  atom : String → UpperSet W
  /-- Where the negation of a formula is true, as a letter of its own. -/
  neg : Formula → UpperSet W

namespace KripkeModel

variable {W : Type u} [Preorder W] (M : KripkeModel W)

/-- **Forcing**: what holds in a world. -/
def Forces : Formula → W → Prop
  | .atom name, w => w ∈ M.atom name
  | .neg body, w => w ∈ M.neg body
  | .and left right, w => Forces left w ∧ Forces right w
  | .or left right, w => Forces left w ∨ Forces right w
  | .imp left right, w => ∀ v, w ≤ v → Forces left v → Forces right v

/-- What is forced stays forced. -/
theorem Forces.mono {f : Formula} {w v : W} (hf : M.Forces f w) (h : w ≤ v) :
    M.Forces f v := by
  induction f with
  | atom name => exact (M.atom name).upper h hf
  | neg body => exact (M.neg body).upper h hf
  | and left right ihl ihr => exact ⟨ihl hf.1, ihr hf.2⟩
  | or left right ihl ihr => exact hf.imp ihl ihr
  | imp left right => exact fun u hu => hf u (h.trans hu)

/-- A world forces a context when it forces every formula of it. -/
def ForcesAll (ctx : Context) (w : W) : Prop := ∀ f ∈ ctx.formulas, M.Forces f w

variable {M}

theorem ForcesAll.mono {ctx : Context} {w v : W} (hc : M.ForcesAll ctx w) (h : w ≤ v) :
    M.ForcesAll ctx v := fun f hf => (hc f hf).mono M h

theorem ForcesAll.assume {ctx : Context} {w : W} {f : Formula} (hc : M.ForcesAll ctx w)
    (hf : M.Forces f w) (slot : Option Int) : M.ForcesAll (ctx.assume f slot) w := by
  cases slot with
  | none => exact hc
  | some n =>
    intro g hg
    rw [Context.assume_some, Context.formulas_push, List.mem_append, List.mem_singleton] at hg
    obtain hg | rfl := hg
    · exact hc g hg
    · exact hf

end KripkeModel

/-- **Derivations preserve forcing.** -/
theorem ProofTree.IsDerivation.forces {W : Type u} [Preorder W] {M : KripkeModel W}
    {ctx : Context} {p : ProofTree} (h : IsDerivation ctx p) {w : W}
    (hw : M.ForcesAll ctx w) : M.Forces p.claim w := by
  induction h generalizing w with
  | assumption ha => exact hw _ (Context.formula_mem_formulas ha)
  | andIntro _ _ ihp ihq => exact ⟨ihp hw, ihq hw⟩
  | andElimLeft _ hc ihp =>
    have hand := ihp hw
    rw [hc] at hand
    exact hand.1
  | andElimRight _ hc ihp =>
    have hand := ihp hw
    rw [hc] at hand
    exact hand.2
  | orIntroLeft _ ihp => exact Or.inl (ihp hw)
  | orIntroRight _ ihp => exact Or.inr (ihp hw)
  | orElim _ hc _ _ hpq ihd ihp ihq =>
    have hor := ihd hw
    rw [hc] at hor
    obtain hleft | hright := hor
    · exact ihp (hw.assume hleft _)
    · rw [← hpq]
      exact ihq (hw.assume hright _)
  | impIntro _ ihp => exact fun v hv hleft => ihp ((hw.mono hv).assume hleft _)
  | impElim _ _ hc ihp ihq =>
    have himp := ihq hw
    rw [hc] at himp
    exact himp w le_rfl (ihp hw)

/-! ## One world: truth tables -/

namespace Formula

/-- The truth value of a formula when every name has a value. -/
def truth (value : String → Bool) : Formula → Bool
  | atom name => value name
  | neg body => !body.truth value
  | and left right => left.truth value && right.truth value
  | or left right => left.truth value || right.truth value
  | imp left right => !left.truth value || right.truth value

theorem mem_insertName {name other : String} {names : List String} :
    name ∈ insertName other names ↔ name = other ∨ name ∈ names := by
  induction names with
  | nil => simp [insertName]
  | cons first rest ih =>
    unfold insertName
    split
    · rw [List.mem_cons]
    · split
      · rename_i h
        simp [h]
      · rw [List.mem_cons, ih, List.mem_cons]
        exact or_left_comm

theorem mem_atoms {name : String} {f : Formula} : name ∈ f.atoms ↔ name ∈ f.names := by
  unfold atoms
  induction f.names with
  | nil => rfl
  | cons first rest ih => rw [List.foldr_cons, mem_insertName, ih, List.mem_cons]

end Formula

/-- The value of a name under a valuation, with every name it lacks made
false. -/
def Valuation.filled (v : Valuation) (name : String) : Bool :=
  (v.lookup name).getD false

namespace Formula

variable {f : Formula} {v : Valuation}

/-- Evaluation that comes to a value comes to the truth value, whatever the
names that it did not get to are given. -/
theorem truth_of_evaluate {b : Bool} (h : f.evaluate v = .ok b) : f.truth v.filled = b := by
  induction f generalizing b with
  | atom name =>
    unfold evaluate at h
    cases hv : v.lookup name <;> simp_all [truth, Valuation.filled]
  | neg body ih =>
    unfold evaluate at h
    rcases hb : body.evaluate v with e | value <;> rw [hb] at h
    · cases h
    · cases h
      rw [truth, ih hb]
  | and left right ihl ihr =>
    unfold evaluate at h
    rcases hl : left.evaluate v with e | _ | _ <;> rw [hl] at h
    · cases h
    · cases h
      rw [truth, ihl hl, Bool.false_and]
    · rw [truth, ihl hl, ihr h, Bool.true_and]
  | or left right ihl ihr =>
    unfold evaluate at h
    rcases hl : left.evaluate v with e | _ | _ <;> rw [hl] at h
    · cases h
    · rw [truth, ihl hl, ihr h, Bool.false_or]
    · cases h
      rw [truth, ihl hl, Bool.true_or]
  | imp left right ihl ihr =>
    unfold evaluate at h
    rcases hl : left.evaluate v with e | _ | _ <;> rw [hl] at h
    · cases h
    · cases h
      rw [truth, ihl hl, Bool.not_false, Bool.true_or]
    · rw [truth, ihl hl, ihr h, Bool.not_true, Bool.false_or]

/-- Evaluation that stops has got to a name of the formula without a
value. -/
theorem unassigned_of_evaluate {e : UnassignedName} (h : f.evaluate v = .error e) :
    e.name ∈ f.names ∧ v.lookup e.name = none := by
  induction f with
  | atom name =>
    unfold evaluate at h
    cases hv : v.lookup name with
    | some value => rw [hv] at h; cases h
    | none =>
      rw [hv] at h
      cases h
      exact ⟨List.mem_singleton_self name, hv⟩
  | neg body ih =>
    unfold evaluate at h
    cases hb : body.evaluate v <;> simp_all [names]
  | and left right ihl ihr =>
    unfold evaluate at h
    rcases hl : left.evaluate v with _ | _ | _ <;> simp_all [names]
  | or left right ihl ihr =>
    unfold evaluate at h
    rcases hl : left.evaluate v with _ | _ | _ <;> simp_all [names]
  | imp left right ihl ihr =>
    unfold evaluate at h
    rcases hl : left.evaluate v with _ | _ | _ <;> simp_all [names]

end Formula

namespace KripkeModel

variable {W : Type u} [Preorder W]

/-- **The model in which all worlds agree**: a letter is true when the values
of the names make it true. One world is enough for it. -/
def classical (value : String → Bool) : KripkeModel W where
  atom name := ⟨{_w | value name = true}, fun _ _ _ h => h⟩
  neg body := ⟨{_w | body.neg.truth value = true}, fun _ _ _ h => h⟩

/-- If all worlds agree, forcing is truth. -/
theorem forces_classical_iff {value : String → Bool} {f : Formula} {w : W} :
    (classical value).Forces f w ↔ f.truth value = true := by
  induction f generalizing w with
  | atom name => exact Iff.rfl
  | neg body => exact Iff.rfl
  | and left right ihl ihr =>
    rw [Formula.truth, Bool.and_eq_true, ← ihl, ← ihr]
    rfl
  | or left right ihl ihr =>
    rw [Formula.truth, Bool.or_eq_true, ← ihl, ← ihr]
    rfl
  | imp left right ihl ihr =>
    rw [Formula.truth, Bool.or_eq_true, Bool.not_eq_true', ← Bool.not_eq_true, ← imp_iff_not_or]
    exact ⟨fun h hl => ihr.mp (h w le_rfl (ihl.mpr hl)),
      fun h v _ hl => ihr.mpr (h (ihl.mp hl))⟩

end KripkeModel

namespace ProofTree

/-- What is derived from true formulas is true. -/
theorem IsDerivation.truth {ctx : Context} {p : ProofTree} (h : IsDerivation ctx p)
    {value : String → Bool} (hctx : ∀ f ∈ ctx.formulas, f.truth value = true) :
    p.claim.truth value = true :=
  KripkeModel.forces_classical_iff.mp
    (h.forces (w := ()) fun f hf => KripkeModel.forces_classical_iff.mpr (hctx f hf))

/-- **The check is sound.** A world of a Kripke model that forces the
context of an accepted tree forces its claim. A valuation that makes the
context true makes the claim true, unless it lacks an atom of the claim
that evaluation gets to. -/
theorem check_sound {p : ProofTree} {ctx : Context} (h : p.check ctx = .ok ()) :
    (∀ (W : Type u) [Preorder W] (M : KripkeModel W) (w : W),
      (∀ f ∈ ctx.formulas, M.Forces f w) → M.Forces p.claim w)
    ∧ ∀ v : Valuation, (∀ f ∈ ctx.formulas, f.evaluate v = .ok true) →
      p.claim.evaluate v = .ok true
        ∨ ∃ name ∈ p.claim.atoms, v.lookup name = none ∧ p.claim.evaluate v = .error ⟨name⟩ := by
  have hd := isDerivation_of_check h
  refine ⟨fun W _ M w hw => hd.forces hw, fun v hv => ?_⟩
  have htrue := hd.truth fun f hf => Formula.truth_of_evaluate (hv f hf)
  cases he : p.claim.evaluate v with
  | ok b =>
    rw [Formula.truth_of_evaluate he] at htrue
    exact Or.inl (congrArg Except.ok htrue)
  | error e =>
    obtain ⟨hmem, hnone⟩ := Formula.unassigned_of_evaluate he
    exact Or.inr ⟨e.name, Formula.mem_atoms.mpr hmem, hnone, rfl⟩

/-- A tree that exchanges the sides of `A ∨ B`, beside the letter `¬ C`, and
also discharges a number for nothing. -/
def exchange : ProofTree :=
  let exchanged : Formula := .or (.atom "B") (.atom "A")
  let cases : ProofTree :=
    ⟨exchanged, .orElim,
      [.ofAssumption ⟨.or (.atom "A") (.atom "B"), 3⟩,
        .infer exchanged .orIntroRight [.ofAssumption ⟨.atom "A", 4⟩],
        .infer exchanged .orIntroLeft [.ofAssumption ⟨.atom "B", 5⟩]],
      none, [some 4, some 5]⟩
  ⟨.and exchanged (.neg (.atom "C")), .andIntro,
    [cases, .ofAssumption ⟨.neg (.atom "C"), -2⟩], none, [some 9, none]⟩

/-- In the model, `A` comes to be true only in the second of two worlds, and so
do all letters `¬ f` but `¬ C`. -/
theorem check_sound_exchange :
    exchange.check ⟨[⟨.or (.atom "A") (.atom "B"), 3⟩, ⟨.neg (.atom "C"), -2⟩]⟩ = .ok ()
      ∧ KripkeModel.Forces
          ⟨fun name => UpperSet.Ici (name == "A"), fun body => UpperSet.Ici (body != .atom "C")⟩
          (.and (.or (.atom "B") (.atom "A")) (.neg (.atom "C"))) false
      ∧ (Formula.and (.or (.atom "B") (.atom "A")) (.neg (.atom "C"))).evaluate
          [("A", false), ("B", true), ("C", false)] = .ok true := by
  have hcheck : exchange.check
      ⟨[⟨.or (.atom "A") (.atom "B"), 3⟩, ⟨.neg (.atom "C"), -2⟩]⟩ = .ok () := by
    decide +kernel
  obtain ⟨hforces, htrue⟩ := check_sound.{0} hcheck
  refine ⟨hcheck, hforces Bool _ false ?_, (htrue _ ?_).resolve_right ?_⟩
  · intro f hf
    obtain rfl | rfl : f = .or (.atom "A") (.atom "B") ∨ f = .neg (.atom "C") := by
      simpa [Context.formulas] using hf
    · exact Or.inr (UpperSet.mem_Ici_iff.mpr (by decide))
    · exact UpperSet.mem_Ici_iff.mpr (by decide)
  · intro f hf
    obtain rfl | rfl : f = .or (.atom "A") (.atom "B") ∨ f = .neg (.atom "C") := by
      simpa [Context.formulas] using hf
    · rfl
    · rfl
  · rintro ⟨name, -, -, herror⟩
    cases herror

end ProofTree

end NaturalDeduction
