import Mathlib.Data.List.Nodup
import Mathlib.Data.List.Flatten
import NaturalDeduction.ProofTree.Check

/-!
# Derivations

A tree is a *derivation* under a context when it is built by the rules, each
premise being a derivation under the context that the rule opens for it, and
a leaf using an assumption that is live. This says nothing about the numbers:
a derivation may discharge a number twice, or discharge one that is in use
already. What a derivation is can be read off its root (`IsDerivation.root`,
`isDerivation_of_root`), and whether the root has the shape of its rule is
what `ProofTree.fits` decides (`fits_iff_hasShape`).
-/

namespace NaturalDeduction

/-! ## Looking things up in a context -/

namespace Context

variable {ctx : Context} {f : Formula} {n : Int} {a : Assumption}

@[simp] theorem assumptions_push (ctx : Context) (f : Formula) (n : Int) :
    (ctx.push f n).assumptions = ctx.assumptions ++ [⟨f, n⟩] := rfl

@[simp] theorem formulas_push (ctx : Context) (f : Formula) (n : Int) :
    (ctx.push f n).formulas = ctx.formulas ++ [f] := by
  simp [formulas]

@[simp] theorem numbers_push (ctx : Context) (f : Formula) (n : Int) :
    (ctx.push f n).numbers = ctx.numbers ++ [n] := by
  simp [numbers]

theorem number_mem_numbers (h : a ∈ ctx.assumptions) : a.number ∈ ctx.numbers :=
  List.mem_map_of_mem h

theorem formula_mem_formulas (h : a ∈ ctx.assumptions) : a.formula ∈ ctx.formulas :=
  List.mem_map_of_mem h

theorem mem_of_get (h : ctx.get n = some a) : a ∈ ctx.assumptions ∧ a.number = n :=
  ⟨List.mem_of_find?_eq_some h, by simpa using List.find?_some h⟩

theorem get_isSome_iff : (ctx.get n).isSome ↔ n ∈ ctx.numbers := by
  simp [get, numbers]

/-- Where the numbers are distinct, an assumption is what its number is
looked up as. -/
theorem get_number (hn : ctx.numbers.Nodup) (h : a ∈ ctx.assumptions) :
    ctx.get a.number = some a := by
  obtain ⟨b, hb⟩ := Option.isSome_iff_exists.mp (get_isSome_iff.mpr (number_mem_numbers h))
  obtain ⟨hmem, hnum⟩ := mem_of_get hb
  rw [hb, List.inj_on_of_nodup_map hn hmem h hnum]

theorem mem_of_lookup (h : ctx.lookup f = some a) : a ∈ ctx.assumptions ∧ a.formula = f :=
  ⟨List.mem_reverse.mp (List.mem_of_find?_eq_some h), by simpa using List.find?_some h⟩

theorem lookup_isSome_iff : (ctx.lookup f).isSome ↔ f ∈ ctx.formulas := by
  simp [lookup, formulas]

/-- The context with a formula assumed under the number in a slot; an empty
slot assumes nothing. -/
def assume (ctx : Context) (f : Formula) (slot : Option Int) : Context :=
  ctx.opened (slot.map fun n => ⟨f, n⟩)

@[simp] theorem opened_none (ctx : Context) : ctx.opened none = ctx := rfl

@[simp] theorem assume_none (ctx : Context) (f : Formula) : ctx.assume f none = ctx := rfl

@[simp] theorem assume_some (ctx : Context) (f : Formula) (n : Int) :
    ctx.assume f (some n) = ctx.push f n := rfl

theorem numbers_opened (ctx : Context) (o : Option Assumption) :
    (ctx.opened o).numbers = ctx.numbers ++ (o.map (·.number)).toList := by
  cases o with
  | none => simp
  | some a => exact numbers_push ctx a.formula a.number

end Context

namespace ProofTree

/-- **Induction on a tree**, through the list of its premises. -/
theorem induction {motive : ProofTree → Prop}
    (node : ∀ p : ProofTree, (∀ q ∈ p.premises, motive q) → motive p) (p : ProofTree) :
    motive p :=
  @ProofTree.rec motive (fun ps => ∀ q ∈ ps, motive q)
    (fun claim rule premises reference discharges ih =>
      node ⟨claim, rule, premises, reference, discharges⟩ ih)
    (fun _ h => absurd h List.not_mem_nil)
    (fun _ _ hp hps => List.forall_mem_cons.mpr ⟨hp, hps⟩) p

/-! ## Shapes

What `fits` decides, with one constructor for each rule. Everything else that is
said about the shape of a node is read off these. -/

/-- **A node that has the shape of its rule.** -/
inductive HasShape : ProofTree → Prop where
  | assumption {claim : Formula} {n : Int} {ds : List (Option Int)} :
      HasShape ⟨claim, .assumption, [], some n, ds⟩
  | andIntro {p q : ProofTree} {ref : Option Int} {ds : List (Option Int)} :
      HasShape ⟨.and p.claim q.claim, .andIntro, [p, q], ref, ds⟩
  | andElimLeft {p : ProofTree} {left right : Formula} {ref : Option Int}
      {ds : List (Option Int)} (hc : p.claim = .and left right) :
      HasShape ⟨left, .andElimLeft, [p], ref, ds⟩
  | andElimRight {p : ProofTree} {left right : Formula} {ref : Option Int}
      {ds : List (Option Int)} (hc : p.claim = .and left right) :
      HasShape ⟨right, .andElimRight, [p], ref, ds⟩
  | orIntroLeft {p : ProofTree} {right : Formula} {ref : Option Int} {ds : List (Option Int)} :
      HasShape ⟨.or p.claim right, .orIntroLeft, [p], ref, ds⟩
  | orIntroRight {p : ProofTree} {left : Formula} {ref : Option Int} {ds : List (Option Int)} :
      HasShape ⟨.or left p.claim, .orIntroRight, [p], ref, ds⟩
  | orElim {d p q : ProofTree} {left right : Formula} {m n ref : Option Int}
      (hc : d.claim = .or left right) (hpq : q.claim = p.claim) :
      HasShape ⟨p.claim, .orElim, [d, p, q], ref, [m, n]⟩
  | impIntro {p : ProofTree} {left : Formula} {n ref : Option Int} :
      HasShape ⟨.imp left p.claim, .impIntro, [p], ref, [n]⟩
  | impElim {p q : ProofTree} {claim : Formula} {ref : Option Int} {ds : List (Option Int)}
      (hc : q.claim = .imp p.claim claim) : HasShape ⟨claim, .impElim, [p, q], ref, ds⟩

theorem HasShape.fits {p : ProofTree} (h : p.HasShape) : p.fits := by
  cases h with
  | assumption | andIntro | orIntroLeft | orIntroRight | impIntro => simp [ProofTree.fits]
  | andElimLeft hc | andElimRight hc | impElim hc => simp [ProofTree.fits, hc]
  | orElim hc hpq => simp [ProofTree.fits, hc, hpq]

/-- The converse: the rule says how many premises there are and how their claims
look, or the node does not fit. -/
theorem hasShape_of_fits {p : ProofTree} (h : p.fits) : p.HasShape := by
  obtain ⟨claim, rule, premises, reference, discharges⟩ := p
  cases rule with
  | assumption =>
    obtain ⟨rfl, hsome⟩ : premises = [] ∧ reference.isSome := by simpa [fits] using h
    obtain ⟨n, rfl⟩ := Option.isSome_iff_exists.mp hsome
    exact .assumption
  | andIntro =>
    simp only [fits] at h
    split at h
    · rename_i hmap
      obtain ⟨p, ps, rfl, rfl, hps⟩ := List.map_eq_cons_iff.mp hmap
      obtain ⟨q, rfl, rfl⟩ := List.map_eq_singleton_iff.mp hps
      obtain rfl := of_decide_eq_true h
      exact .andIntro
    · cases h
  | andElimLeft =>
    simp only [fits] at h
    split at h
    · rename_i hmap
      obtain ⟨p, rfl, hc⟩ := List.map_eq_singleton_iff.mp hmap
      obtain rfl := of_decide_eq_true h
      exact .andElimLeft hc
    · cases h
  | andElimRight =>
    simp only [fits] at h
    split at h
    · rename_i hmap
      obtain ⟨p, rfl, hc⟩ := List.map_eq_singleton_iff.mp hmap
      obtain rfl := of_decide_eq_true h
      exact .andElimRight hc
    · cases h
  | orIntroLeft =>
    simp only [fits] at h
    split at h
    · rename_i hmap
      obtain ⟨p, rfl, rfl⟩ := List.map_eq_singleton_iff.mp hmap
      obtain rfl := of_decide_eq_true h
      exact .orIntroLeft
    · cases h
  | orIntroRight =>
    simp only [fits] at h
    split at h
    · rename_i hmap
      obtain ⟨p, rfl, rfl⟩ := List.map_eq_singleton_iff.mp hmap
      obtain rfl := of_decide_eq_true h
      exact .orIntroRight
    · cases h
  | orElim =>
    simp only [fits] at h
    split at h
    · rename_i hmap
      obtain ⟨d, ps, rfl, hc, hps⟩ := List.map_eq_cons_iff.mp hmap
      obtain ⟨p, qs, rfl, rfl, hqs⟩ := List.map_eq_cons_iff.mp hps
      obtain ⟨q, rfl, rfl⟩ := List.map_eq_singleton_iff.mp hqs
      simp only [Bool.and_eq_true, decide_eq_true_eq] at h
      obtain ⟨rfl, hpq⟩ := h
      exact .orElim hc hpq
    · cases h
  | impIntro =>
    simp only [fits] at h
    split at h
    · rename_i hmap
      obtain ⟨p, rfl, rfl⟩ := List.map_eq_singleton_iff.mp hmap
      obtain rfl := of_decide_eq_true h
      exact .impIntro
    · cases h
  | impElim =>
    simp only [fits] at h
    split at h
    · rename_i hmap
      obtain ⟨p, ps, rfl, rfl, hps⟩ := List.map_eq_cons_iff.mp hmap
      obtain ⟨q, rfl, rfl⟩ := List.map_eq_singleton_iff.mp hps
      exact .impElim (of_decide_eq_true h)
    · cases h

/-- **Fitting a rule is having its shape.** -/
theorem fits_iff_hasShape {p : ProofTree} : p.fits ↔ p.HasShape :=
  ⟨hasShape_of_fits, HasShape.fits⟩

/-! ## Derivations

One constructor for each rule. References of inferences and discharges of
nodes that open nothing are not looked at, so they may be anything. -/

/-- **A derivation under a context.** -/
inductive IsDerivation : Context → ProofTree → Prop where
  | assumption {ctx : Context} {a : Assumption} {ds : List (Option Int)}
      (h : a ∈ ctx.assumptions) :
      IsDerivation ctx ⟨a.formula, .assumption, [], some a.number, ds⟩
  | andIntro {ctx : Context} {p q : ProofTree} {ref : Option Int} {ds : List (Option Int)}
      (hp : IsDerivation ctx p) (hq : IsDerivation ctx q) :
      IsDerivation ctx ⟨.and p.claim q.claim, .andIntro, [p, q], ref, ds⟩
  | andElimLeft {ctx : Context} {p : ProofTree} {left right : Formula} {ref : Option Int}
      {ds : List (Option Int)} (hp : IsDerivation ctx p) (hc : p.claim = .and left right) :
      IsDerivation ctx ⟨left, .andElimLeft, [p], ref, ds⟩
  | andElimRight {ctx : Context} {p : ProofTree} {left right : Formula} {ref : Option Int}
      {ds : List (Option Int)} (hp : IsDerivation ctx p) (hc : p.claim = .and left right) :
      IsDerivation ctx ⟨right, .andElimRight, [p], ref, ds⟩
  | orIntroLeft {ctx : Context} {p : ProofTree} {right : Formula} {ref : Option Int}
      {ds : List (Option Int)} (hp : IsDerivation ctx p) :
      IsDerivation ctx ⟨.or p.claim right, .orIntroLeft, [p], ref, ds⟩
  | orIntroRight {ctx : Context} {p : ProofTree} {left : Formula} {ref : Option Int}
      {ds : List (Option Int)} (hp : IsDerivation ctx p) :
      IsDerivation ctx ⟨.or left p.claim, .orIntroRight, [p], ref, ds⟩
  | orElim {ctx : Context} {d p q : ProofTree} {left right : Formula}
      {m n ref : Option Int} (hd : IsDerivation ctx d) (hc : d.claim = .or left right)
      (hp : IsDerivation (ctx.assume left m) p) (hq : IsDerivation (ctx.assume right n) q)
      (hpq : q.claim = p.claim) :
      IsDerivation ctx ⟨p.claim, .orElim, [d, p, q], ref, [m, n]⟩
  | impIntro {ctx : Context} {p : ProofTree} {left : Formula} {n ref : Option Int}
      (hp : IsDerivation (ctx.assume left n) p) :
      IsDerivation ctx ⟨.imp left p.claim, .impIntro, [p], ref, [n]⟩
  | impElim {ctx : Context} {p q : ProofTree} {claim : Formula} {ref : Option Int}
      {ds : List (Option Int)} (hp : IsDerivation ctx p) (hq : IsDerivation ctx q)
      (hc : q.claim = .imp p.claim claim) :
      IsDerivation ctx ⟨claim, .impElim, [p, q], ref, ds⟩

@[simp] theorem opened_opening (ctx : Context) (f : Formula) (slot : Option Int) :
    ctx.opened (opening (some f) (some slot)) = ctx.assume f slot := by
  cases slot <;> rfl

/-- **A derivation, read off its root**: the root fits its rule, a leaf uses
a live assumption, and each premise is a derivation under the context that
the root opens for it. -/
theorem IsDerivation.root {ctx : Context} {p : ProofTree} (h : IsDerivation ctx p) :
    p.fits
      ∧ (p.rule = .assumption →
          ∃ a ∈ ctx.assumptions, a.formula = p.claim ∧ p.reference = some a.number)
      ∧ ∀ s ∈ pairUp p.premises p.openings, IsDerivation (ctx.opened s.2) s.1 := by
  cases h with
  | assumption h => exact ⟨by simp [fits], fun _ => ⟨_, h, rfl, rfl⟩, by simp [pairUp]⟩
  | andIntro hp hq => simpa [fits, pairUp, openings] using ⟨hp, hq⟩
  | andElimLeft hp hc => simpa [fits, pairUp, openings, hc] using hp
  | andElimRight hp hc => simpa [fits, pairUp, openings, hc] using hp
  | orIntroLeft hp => simpa [fits, pairUp, openings] using hp
  | orIntroRight hp => simpa [fits, pairUp, openings] using hp
  | orElim hd hc hp hq hpq =>
    simpa [fits, pairUp, openings, Formula.firstPart, Formula.secondPart?, hc, hpq]
      using ⟨hd, hp, hq⟩
  | impIntro hp => simpa [fits, pairUp, openings, Formula.firstPart] using hp
  | impElim hp hq hc => simpa [fits, pairUp, openings, hc] using ⟨hp, hq⟩

/-- The converse: a root that fits its rule makes a derivation of what is
below it. -/
theorem isDerivation_of_root {ctx : Context} {p : ProofTree} (hfits : p.fits)
    (hleaf : p.rule = .assumption →
      ∃ a ∈ ctx.assumptions, a.formula = p.claim ∧ p.reference = some a.number)
    (hprem : ∀ s ∈ pairUp p.premises p.openings, IsDerivation (ctx.opened s.2) s.1) :
    IsDerivation ctx p := by
  cases fits_iff_hasShape.mp hfits with
  | assumption =>
    obtain ⟨a, ha, rfl, href⟩ := hleaf rfl
    obtain rfl := Option.some.inj href
    exact .assumption ha
  | andIntro =>
    simp only [openings, pairUp, List.forall_mem_cons] at hprem
    exact .andIntro hprem.1 hprem.2.1
  | andElimLeft hc =>
    simp only [openings, pairUp, List.forall_mem_cons] at hprem
    exact .andElimLeft hprem.1 hc
  | andElimRight hc =>
    simp only [openings, pairUp, List.forall_mem_cons] at hprem
    exact .andElimRight hprem.1 hc
  | orIntroLeft =>
    simp only [openings, pairUp, List.forall_mem_cons] at hprem
    exact .orIntroLeft hprem.1
  | orIntroRight =>
    simp only [openings, pairUp, List.forall_mem_cons] at hprem
    exact .orIntroRight hprem.1
  | orElim hc hpq =>
    simp [openings, pairUp, hc, Formula.firstPart, Formula.secondPart?] at hprem
    exact .orElim hprem.1 hc hprem.2.1 hprem.2.2 hpq
  | impIntro =>
    simp [openings, pairUp, Formula.firstPart] at hprem
    exact .impIntro hprem
  | impElim hc =>
    simp only [openings, pairUp, List.forall_mem_cons] at hprem
    exact .impElim hprem.1 hprem.2.1 hc

/-! ## Pairing premises with what is opened for them -/

section PairUp

variable {α β : Type} {as : List α} {bs : List (Option β)}

theorem pairUp_cons (a : α) (as : List α) (bs : List (Option β)) :
    pairUp (a :: as) bs = (a, bs.head?.join) :: pairUp as bs.tail := by
  cases bs <;> rfl

/-- Pairs stand in the place of their first part. -/
theorem mem_pairUp_iff {s : α × Option β} :
    s ∈ pairUp as bs ↔ ∃ i : Nat, as[i]? = some s.1 ∧ bs[i]?.join = s.2 := by
  induction as generalizing bs with
  | nil => simp [pairUp]
  | cons a as ih =>
    rw [pairUp_cons, List.mem_cons, ih]
    constructor
    · rintro (rfl | ⟨i, ha, hb⟩)
      · exact ⟨0, rfl, by rw [List.head?_eq_getElem?]⟩
      · exact ⟨i + 1, ha, by rwa [List.getElem?_tail] at hb⟩
    · rintro ⟨i, ha, hb⟩
      cases i with
      | zero =>
        rw [← List.head?_eq_getElem?] at hb
        exact Or.inl (Prod.ext (Option.some.inj ha).symm hb.symm)
      | succ i => exact Or.inr ⟨i, ha, by rwa [List.getElem?_tail]⟩

theorem mem_of_mem_pairUp {s : α × Option β} (h : s ∈ pairUp as bs) : s.1 ∈ as := by
  obtain ⟨i, ha, -⟩ := mem_pairUp_iff.mp h
  exact List.mem_of_getElem? ha

theorem opening_mem_of_mem_pairUp {a : α} {b : β} (h : (a, some b) ∈ pairUp as bs) :
    some b ∈ bs := by
  obtain ⟨i, -, hb⟩ := mem_pairUp_iff.mp h
  exact List.mem_of_getElem? (Option.join_eq_some_iff.mp hb)

end PairUp

/-! ## Numbers that are discharged -/

theorem allDischargedOf_eq (ps : List ProofTree) :
    allDischargedOf ps = ps.flatMap allDischarged := by
  induction ps with
  | nil => rfl
  | cons p ps ih => rw [allDischargedOf, List.flatMap_cons, ih]

@[simp] theorem allDischarged_mk (claim : Formula) (rule : Rule) (ps : List ProofTree)
    (ref : Option Int) (ds : List (Option Int)) :
    allDischarged ⟨claim, rule, ps, ref, ds⟩ = ds.filterMap id ++ ps.flatMap allDischarged := by
  rw [allDischarged, allDischargedOf_eq]

theorem allDischarged_eq (p : ProofTree) :
    p.allDischarged = p.discharged ++ allDischargedOf p.premises := by
  obtain ⟨claim, rule, premises, reference, discharges⟩ := p
  rw [allDischarged]
  rfl

theorem allDischarged_subset {p q : ProofTree} (hq : q ∈ p.premises) :
    q.allDischarged ⊆ p.allDischarged := by
  intro n hn
  rw [allDischarged_eq, allDischargedOf_eq]
  exact List.mem_append_right _ (List.mem_flatMap.mpr ⟨q, hq, hn⟩)

/-- What a node opens it discharges. -/
theorem number_mem_discharged {p : ProofTree} {a : Assumption} (h : some a ∈ p.openings) :
    a.number ∈ p.discharged := by
  have hslot : ∀ (f : Option Formula) (i : Nat), some a = opening f p.discharges[i]? →
      a.number ∈ p.discharged := by
    intro f i ha
    unfold opening at ha
    split at ha
    · rename_i _ n hn
      obtain rfl := Option.some.inj ha
      exact List.mem_filterMap.mpr ⟨some n, List.mem_of_getElem? hn, rfl⟩
    · cases ha
  unfold openings at h
  split at h
  · exact hslot _ 0 (List.mem_singleton.mp h)
  · split at h
    · cases h
    · simp only [List.mem_cons, reduceCtorEq, List.not_mem_nil, or_false, false_or] at h
      exact h.elim (hslot _ 0) (hslot _ 1)
  · cases h

end ProofTree

end NaturalDeduction
