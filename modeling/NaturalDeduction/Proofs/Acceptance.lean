import NaturalDeduction.Proofs.Derivation

/-!
# What the check accepts

`ProofTree.check` decides whether a tree is a proof by visiting it from the
root down, and what it does at a node depends on the numbers it has met
elsewhere. Here the same is said without a visit, in terms of derivations.

The two are not the same thing, and the difference is only in the numbers.
What the check accepts is a derivation (`isDerivation_of_visit`), whatever the
context. Under a context whose numbers are distinct it accepts a derivation if
and only if the numbers that its inferences discharge are distinct and not in
use (`check_eq_ok_iff_fresh`). Soundness needs the first only; that the proofs
found by the search are accepted needs the second.
-/

namespace NaturalDeduction

namespace ProofTree

/-! ## What a visit does

One lemma for each part of the check says all that an accepted visit can
have done; nothing below unfolds the check itself. -/

theorem checkLeaf_eq_ok_iff {ctx : Context} {claim : Formula} {n : Int} :
    checkLeaf ctx claim n = .ok () ↔ ∃ a, ctx.get n = some a ∧ a.formula = claim := by
  unfold checkLeaf
  cases ctx.get n with
  | none => simp
  | some a => by_cases h : a.formula = claim <;> simp [h]

theorem discharge_eq_ok_iff {ctx : Context} {ns used used' : List Int} :
    discharge ctx ns used = .ok used' ↔
      ns.Nodup ∧ (∀ n ∈ ns, n ∉ used ∧ n ∉ ctx.numbers) ∧ used' = ns.reverse ++ used := by
  induction ns generalizing used with
  | nil => simp [discharge, eq_comm]
  | cons n ns ih =>
    unfold discharge
    by_cases hn : used.contains n || (ctx.get n).isSome
    · rw [if_pos hn]
      simp only [Bool.or_eq_true, List.contains_iff_mem, Context.get_isSome_iff] at hn
      simp only [reduceCtorEq, false_iff]
      rintro ⟨-, h, -⟩
      exact hn.elim (h n List.mem_cons_self).1 (h n List.mem_cons_self).2
    · rw [if_neg hn, ih]
      simp only [Bool.or_eq_true, List.contains_iff_mem, Context.get_isSome_iff, not_or] at hn
      simp only [List.nodup_cons, List.mem_cons, List.reverse_cons, List.append_assoc,
        List.singleton_append, forall_eq_or_imp]
      constructor
      · rintro ⟨hnd, h, rfl⟩
        exact ⟨⟨fun hmem => (h n hmem).1 (Or.inl rfl), hnd⟩,
          ⟨hn, fun k hk => ⟨fun hu => (h k hk).1 (Or.inr hu), (h k hk).2⟩⟩, rfl⟩
      · rintro ⟨⟨hnmem, hnd⟩, ⟨-, h⟩, rfl⟩
        refine ⟨hnd, fun k hk => ⟨?_, (h k hk).2⟩, rfl⟩
        rintro (rfl | hu)
        · exact hnmem hk
        · exact (h k hk).1 hu

@[simp] theorem visitEach_nil (ctx : Context) (used : List Int) (os : List (Option Assumption)) :
    visitEach ctx used [] os = .ok used := rfl

theorem visitEach_cons_eq_ok_iff {ctx : Context} {used used' : List Int} {p : ProofTree}
    {ps : List ProofTree} {os : List (Option Assumption)} :
    visitEach ctx used (p :: ps) os = .ok used' ↔
      ∃ u, visit (ctx.opened os.head?.join) used p = .ok u
        ∧ visitEach ctx u ps os.tail = .ok used' := by
  rw [visitEach]
  cases visit (ctx.opened os.head?.join) used p <;> simp

/-- **An accepted visit.** The node fits its rule, and it is a leaf that
refers to a live assumption of its formula, or it discharges what it
discharges and its premises are visited. -/
theorem visit_eq_ok_iff {ctx : Context} {used used' : List Int} {p : ProofTree} :
    visit ctx used p = .ok used' ↔
      p.fits ∧
        ((p.rule = .assumption ∧ used' = used
            ∧ ∃ a, a.formula = p.claim ∧ ∃ n, p.reference = some n ∧ ctx.get n = some a)
          ∨ (p.rule ≠ .assumption ∧ ∃ u, discharge ctx p.discharged used = .ok u
            ∧ visitEach ctx u p.premises p.openings = .ok used')) := by
  obtain ⟨claim, rule, premises, reference, discharges⟩ := p
  cases hfits : fits ⟨claim, rule, premises, reference, discharges⟩ with
  | false => simp [visit, hfits]
  | true =>
    by_cases hrule : rule = .assumption
    · subst hrule
      cases reference with
      | none => simp [fits] at hfits
      | some n =>
        have hleaf := @checkLeaf_eq_ok_iff ctx claim n
        rw [visit]
        cases hc : checkLeaf ctx claim n with
        | ok _ =>
          obtain ⟨a, hget, hclaim⟩ := hleaf.mp hc
          have hlive : ∃ a : Assumption, a.formula = claim ∧ ctx.get n = some a :=
            ⟨a, hclaim, hget⟩
          simp [hfits, hlive, eq_comm (a := used)]
        | error v =>
          have hdead : ¬ ∃ a : Assumption, a.formula = claim ∧ ctx.get n = some a := by
            rintro ⟨a, hclaim, hget⟩
            rw [hleaf.mpr ⟨a, hget, hclaim⟩] at hc
            exact absurd hc (by simp)
          simp [hfits, hdead]
    · rw [visit]
      · cases discharge ctx (discharged ⟨claim, rule, premises, reference, discharges⟩) used <;>
          simp [hfits, hrule]
      · exact fun _ h _ => hrule h

theorem visit_of_visitEach {ctx : Context} {used used' : List Int} {ps : List ProofTree}
    {os : List (Option Assumption)} (h : visitEach ctx used ps os = .ok used') :
    ∀ s ∈ pairUp ps os, ∃ u u', visit (ctx.opened s.2) u s.1 = .ok u' := by
  induction ps generalizing os used with
  | nil => simp [pairUp]
  | cons p ps ih =>
    obtain ⟨u, hp, hps⟩ := visitEach_cons_eq_ok_iff.mp h
    rw [pairUp_cons]
    exact List.forall_mem_cons.mpr ⟨⟨used, u, hp⟩, ih hps⟩

/-! ## What is accepted is a derivation, and conversely -/

/-- **What a visit accepts is a derivation**, whatever has been discharged
elsewhere. -/
theorem isDerivation_of_visit (p : ProofTree) {ctx : Context} {used used' : List Int}
    (h : visit ctx used p = .ok used') : IsDerivation ctx p := by
  induction p using ProofTree.induction generalizing ctx used used' with
  | node p ih =>
    obtain ⟨hfits, ⟨hrule, -, a, hclaim, n, href, hget⟩ | ⟨hrule, u, -, hprem⟩⟩ :=
      visit_eq_ok_iff.mp h
    · obtain ⟨hmem, rfl⟩ := Context.mem_of_get hget
      refine isDerivation_of_root hfits (fun _ => ⟨a, hmem, hclaim, href⟩) ?_
      have hnil : p.premises = [] := by simpa [fits, hrule, href] using hfits
      simp [hnil, pairUp]
    · refine isDerivation_of_root hfits (fun hr => absurd hr hrule) fun s hs => ?_
      obtain ⟨v, v', hv⟩ := visit_of_visitEach hprem s hs
      exact ih s.1 (mem_of_mem_pairUp hs) hv

/-- **Numbers that can be discharged**: they are distinct, and neither used
elsewhere nor live, where the live ones are distinct as well. -/
structure Fresh (ctx : Context) (used ns : List Int) : Prop where
  live : ctx.numbers.Nodup
  nodup : ns.Nodup
  notUsed : ∀ n ∈ ns, n ∉ used
  notLive : ∀ n ∈ ns, n ∉ ctx.numbers

mutual

/-- **The numbers that the inferences of a tree discharge**, each node before its
premises. A leaf may carry discharges too, and the check passes them over. -/
def inferenceDischarges : ProofTree → List Int
  | ⟨_, rule, premises, _, discharges⟩ =>
    (if rule = .assumption then [] else discharges.filterMap id) ++ inferenceDischargesOf premises

/-- The numbers that the inferences of a list of trees discharge. -/
def inferenceDischargesOf : List ProofTree → List Int
  | [] => []
  | p :: ps => p.inferenceDischarges ++ inferenceDischargesOf ps

end

theorem inferenceDischarges_eq (p : ProofTree) :
    p.inferenceDischarges = (if p.rule = .assumption then [] else p.discharged)
      ++ inferenceDischargesOf p.premises := by
  obtain ⟨claim, rule, premises, reference, discharges⟩ := p
  rw [inferenceDischarges]
  rfl

theorem inferenceDischarges_leaf {p : ProofTree} (hfits : p.fits) (hrule : p.rule = .assumption) :
    p.inferenceDischarges = [] := by
  have hnil : p.premises = [] := by
    cases fits_iff_hasShape.mp hfits with
    | assumption => rfl
    | _ => cases hrule
  rw [inferenceDischarges_eq, if_pos hrule, hnil]
  rfl

theorem inferenceDischargesOf_eq (ps : List ProofTree) :
    inferenceDischargesOf ps = ps.flatMap inferenceDischarges := by
  induction ps with
  | nil => rfl
  | cons p ps ih => rw [inferenceDischargesOf, List.flatMap_cons, ih]

/-- What inferences discharge is among what is discharged anywhere. -/
theorem inferenceDischarges_sublist (p : ProofTree) :
    p.inferenceDischarges.Sublist p.allDischarged := by
  induction p using ProofTree.induction with
  | node p ih =>
    have hpremises : (inferenceDischargesOf p.premises).Sublist (allDischargedOf p.premises) := by
      rw [inferenceDischargesOf_eq, allDischargedOf_eq]
      exact List.Sublist.flatMap_right _ ih
    rw [inferenceDischarges_eq, allDischarged_eq]
    split
    · exact (List.nil_sublist _).append hpremises
    · exact (List.Sublist.refl _).append hpremises

section Fresh

variable {ctx : Context} {used ns ms : List Int}

theorem Fresh.sublist (h : Fresh ctx used ns) (hsub : ms.Sublist ns) : Fresh ctx used ms :=
  ⟨h.live, h.nodup.sublist hsub, fun n hn => h.notUsed n (hsub.subset hn),
    fun n hn => h.notLive n (hsub.subset hn)⟩

/-- Numbers can be discharged together if they can be discharged one part after
the other. -/
theorem fresh_append_iff :
    Fresh ctx used (ns ++ ms) ↔ Fresh ctx used ns ∧ Fresh ctx (ns.reverse ++ used) ms := by
  constructor
  · intro h
    obtain ⟨-, hms, hdisj⟩ := List.nodup_append'.mp h.nodup
    refine ⟨h.sublist (List.sublist_append_left ns ms), h.live, hms, fun n hn => ?_,
      fun n hn => h.notLive n (List.mem_append_right ns hn)⟩
    rw [List.mem_append, List.mem_reverse, not_or]
    exact ⟨fun hns => hdisj hns hn, h.notUsed n (List.mem_append_right ns hn)⟩
  · rintro ⟨hns, hms⟩
    have hnot : ∀ n ∈ ms, n ∉ ns ∧ n ∉ used := fun n hn => by
      simpa only [List.mem_append, List.mem_reverse, not_or] using hms.notUsed n hn
    refine ⟨hns.live, List.nodup_append'.mpr ⟨hns.nodup, hms.nodup, fun n hn hn' =>
      (hnot n hn').1 hn⟩, fun n hn => ?_, fun n hn => ?_⟩
    · exact (List.mem_append.mp hn).elim (hns.notUsed n) fun hn => (hnot n hn).2
    · exact (List.mem_append.mp hn).elim (hns.notLive n) (hms.notLive n)

/-- An assumption that is opened under a number just discharged makes no
difference, as a number that was used is refused anyway. -/
theorem fresh_opened_iff {o : Option Assumption}
    (ho : ∀ a ∈ o, a.number ∈ used ∧ a.number ∉ ctx.numbers) :
    Fresh (ctx.opened o) used ns ↔ Fresh ctx used ns := by
  cases o with
  | none => exact Iff.rfl
  | some a =>
    obtain ⟨hused, hlive⟩ := ho a rfl
    have hnumbers : (ctx.opened (some a)).numbers = ctx.numbers ++ [a.number] :=
      ctx.numbers_opened (some a)
    constructor
    · intro h
      have hnd := h.live
      rw [hnumbers] at hnd
      refine ⟨(List.nodup_append'.mp hnd).1, h.nodup, h.notUsed, fun n hn hmem => ?_⟩
      exact h.notLive n hn (hnumbers ▸ List.mem_append_left _ hmem)
    · intro h
      have hnd : (ctx.opened (some a)).numbers.Nodup := by
        rw [hnumbers, ← List.concat_eq_append]
        exact h.live.concat hlive
      refine ⟨hnd, h.nodup, h.notUsed, fun n hn => ?_⟩
      rw [hnumbers, List.mem_append, List.mem_singleton, not_or]
      refine ⟨h.notLive n hn, ?_⟩
      rintro rfl
      exact h.notUsed _ hn hused

theorem discharge_eq_ok_iff_fresh (hctx : ctx.numbers.Nodup) {u : List Int} :
    discharge ctx ns used = .ok u ↔ Fresh ctx used ns ∧ u = ns.reverse ++ used := by
  rw [discharge_eq_ok_iff]
  exact ⟨fun ⟨hnd, h, hu⟩ => ⟨⟨hctx, hnd, fun n hn => (h n hn).1, fun n hn => (h n hn).2⟩, hu⟩,
    fun ⟨h, hu⟩ => ⟨h.nodup, fun n hn => ⟨h.notUsed n hn, h.notLive n hn⟩, hu⟩⟩

end Fresh

/-- **What a visit comes to**: it accepts the derivations whose inferences
discharge fresh numbers, and these are then used up. -/
def VisitSpec (ctx : Context) (p : ProofTree) : Prop :=
  ∀ used u, visit ctx used p = .ok u ↔
    IsDerivation ctx p ∧ Fresh ctx used p.inferenceDischarges
      ∧ u = p.inferenceDischarges.reverse ++ used

/-- Premises are visited under what has been discharged for them. -/
theorem visitEach_eq_ok_iff {ctx : Context} (hctx : ctx.numbers.Nodup) {used u : List Int}
    {ps : List ProofTree} {os : List (Option Assumption)}
    (hos : ∀ a, some a ∈ os → a.number ∈ used ∧ a.number ∉ ctx.numbers)
    (ih : ∀ s ∈ pairUp ps os, VisitSpec (ctx.opened s.2) s.1) :
    visitEach ctx used ps os = .ok u ↔
      (∀ s ∈ pairUp ps os, IsDerivation (ctx.opened s.2) s.1)
        ∧ Fresh ctx used (inferenceDischargesOf ps)
        ∧ u = (inferenceDischargesOf ps).reverse ++ used := by
  induction ps generalizing os used with
  | nil =>
    have hnone : Fresh ctx used [] := ⟨hctx, List.nodup_nil, nofun, nofun⟩
    simpa [pairUp, inferenceDischargesOf, hnone] using eq_comm
  | cons p ps ihps =>
    have hhead : ∀ a ∈ os.head?.join, a.number ∈ used ∧ a.number ∉ ctx.numbers := by
      intro a ha
      cases os with
      | nil => cases ha
      | cons o os => exact hos a (Option.mem_def.mp ha ▸ List.mem_cons_self)
    have htail : ∀ a, some a ∈ os.tail →
        a.number ∈ p.inferenceDischarges.reverse ++ used ∧ a.number ∉ ctx.numbers := fun a ha =>
      (hos a (List.mem_of_mem_tail ha)).imp_left (List.mem_append_right _)
    rw [pairUp_cons, List.forall_mem_cons] at ih ⊢
    rw [visitEach_cons_eq_ok_iff, inferenceDischargesOf, fresh_append_iff, List.reverse_append,
      List.append_assoc]
    constructor
    · rintro ⟨v, hp, hps⟩
      obtain ⟨hder, hfresh, rfl⟩ := (ih.1 used v).mp hp
      obtain ⟨hders, hfreshes, hu⟩ := (ihps htail ih.2).mp hps
      exact ⟨⟨hder, hders⟩, ⟨(fresh_opened_iff hhead).mp hfresh, hfreshes⟩, hu⟩
    · rintro ⟨⟨hder, hders⟩, ⟨hfresh, hfreshes⟩, hu⟩
      exact ⟨_, (ih.1 used _).mpr ⟨hder, (fresh_opened_iff hhead).mpr hfresh, rfl⟩,
        (ihps htail ih.2).mpr ⟨hders, hfreshes, hu⟩⟩

/-- A leaf uses up nothing. -/
theorem visitSpec_leaf {ctx : Context} (hctx : ctx.numbers.Nodup) {p : ProofTree}
    (hrule : p.rule = .assumption) : VisitSpec ctx p := by
  intro used u
  have hnone : Fresh ctx used [] := ⟨hctx, List.nodup_nil, nofun, nofun⟩
  constructor
  · intro hvisit
    obtain ⟨hfits, ⟨-, hu, -⟩ | ⟨hnot, -⟩⟩ := visit_eq_ok_iff.mp hvisit
    · rw [inferenceDischarges_leaf hfits hrule]
      exact ⟨isDerivation_of_visit p hvisit, hnone, hu⟩
    · exact absurd hrule hnot
  · rintro ⟨hder, -, hu⟩
    obtain ⟨hfits, hleaf, -⟩ := hder.root
    obtain ⟨a, ha, hclaim, href⟩ := hleaf hrule
    rw [inferenceDischarges_leaf hfits hrule] at hu
    exact visit_eq_ok_iff.mpr ⟨hfits, Or.inl ⟨hrule, hu, a, hclaim, a.number, href,
      Context.get_number hctx ha⟩⟩

/-- An inference uses up what it discharges, and then its premises what they
do. -/
theorem visitSpec_inference {ctx : Context} (hctx : ctx.numbers.Nodup) {p : ProofTree}
    (hrule : p.rule ≠ .assumption)
    (ih : ∀ s ∈ pairUp p.premises p.openings, (ctx.opened s.2).numbers.Nodup →
      VisitSpec (ctx.opened s.2) s.1) : VisitSpec ctx p := by
  intro used u
  have hpremises : Fresh ctx used p.discharged →
      (visitEach ctx (p.discharged.reverse ++ used) p.premises p.openings = .ok u ↔
        (∀ s ∈ pairUp p.premises p.openings, IsDerivation (ctx.opened s.2) s.1)
          ∧ Fresh ctx (p.discharged.reverse ++ used) (inferenceDischargesOf p.premises)
          ∧ u = (inferenceDischargesOf p.premises).reverse ++ (p.discharged.reverse ++ used)) := by
    intro hfresh
    have hopened : ∀ a, some a ∈ p.openings →
        a.number ∈ p.discharged.reverse ++ used ∧ a.number ∉ ctx.numbers := fun a ha =>
      ⟨List.mem_append_left _ (List.mem_reverse.mpr (number_mem_discharged ha)),
        hfresh.notLive _ (number_mem_discharged ha)⟩
    have hnone : Fresh ctx (p.discharged.reverse ++ used) [] :=
      ⟨hctx, List.nodup_nil, nofun, nofun⟩
    refine visitEach_eq_ok_iff hctx hopened fun ⟨q, o⟩ hs => ih (q, o) hs ?_
    refine ((fresh_opened_iff fun a ha => hopened a ?_).mpr hnone).live
    obtain rfl := Option.mem_def.mp ha
    exact opening_mem_of_mem_pairUp hs
  rw [inferenceDischarges_eq, if_neg hrule, fresh_append_iff, List.reverse_append,
    List.append_assoc, visit_eq_ok_iff]
  constructor
  · rintro ⟨hfits, ⟨hleaf, -⟩ | ⟨-, v, hdischarge, hvisit⟩⟩
    · exact absurd hleaf hrule
    · obtain ⟨hfresh, rfl⟩ := (discharge_eq_ok_iff_fresh hctx).mp hdischarge
      obtain ⟨hders, hfreshes, hu⟩ := (hpremises hfresh).mp hvisit
      exact ⟨isDerivation_of_root hfits (fun hleaf => absurd hleaf hrule) hders,
        ⟨hfresh, hfreshes⟩, hu⟩
  · rintro ⟨hder, ⟨hfresh, hfreshes⟩, hu⟩
    obtain ⟨hfits, -, hders⟩ := hder.root
    exact ⟨hfits, Or.inr ⟨hrule, _, (discharge_eq_ok_iff_fresh hctx).mpr ⟨hfresh, rfl⟩,
      (hpremises hfresh).mpr ⟨hders, hfreshes, hu⟩⟩⟩

/-- **What the check does, without a visit**: under distinct numbers it accepts
exactly the derivations whose inferences discharge fresh numbers. -/
theorem visitSpec (p : ProofTree) {ctx : Context} (hctx : ctx.numbers.Nodup) :
    VisitSpec ctx p := by
  induction p using ProofTree.induction generalizing ctx with
  | node p ih =>
    by_cases hrule : p.rule = .assumption
    · exact visitSpec_leaf hctx hrule
    · exact visitSpec_inference hctx hrule fun s hs => ih s.1 (mem_of_mem_pairUp hs)

/-! ## The check -/

theorem isDerivation_of_check {p : ProofTree} {ctx : Context} (h : p.check ctx = .ok ()) :
    IsDerivation ctx p := by
  unfold check at h
  cases hv : visit ctx [] p with
  | ok u => exact isDerivation_of_visit p hv
  | error v => rw [hv] at h; cases h

/-- **What is accepted**, under distinct numbers. -/
theorem check_eq_ok_iff_fresh {p : ProofTree} {ctx : Context} (hctx : ctx.numbers.Nodup) :
    p.check ctx = .ok () ↔ IsDerivation ctx p ∧ Fresh ctx [] p.inferenceDischarges := by
  have hspec := visitSpec p hctx []
  unfold check
  constructor
  · intro h
    cases hv : visit ctx [] p with
    | ok u => exact ((hspec u).mp hv).imp_right And.left
    | error v =>
      rw [hv] at h
      cases h
  · rintro ⟨hder, hfresh⟩
    rw [(hspec _).mpr ⟨hder, hfresh, rfl⟩]

theorem IsDerivation.check_ok {p : ProofTree} {ctx : Context} (h : IsDerivation ctx p)
    (hf : Fresh ctx [] p.allDischarged) : p.check ctx = .ok () :=
  (check_eq_ok_iff_fresh hf.live).mpr ⟨h, hf.sublist (inferenceDischarges_sublist p)⟩

end ProofTree

end NaturalDeduction
