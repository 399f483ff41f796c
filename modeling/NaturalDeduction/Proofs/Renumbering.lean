import NaturalDeduction.ProofTree.Renumber
import NaturalDeduction.Proofs.Acceptance

/-!
# Renumbering keeps derivations

Renumbering replaces numbers throughout a tree, so it has to keep apart what
was apart and to follow each leaf to what it uses. What it needs for that is
little: a number that a leaf refers to and that is discharged somewhere must
be given a new number at all (`IsDerivation.mapNumbers`). No injectivity is
asked for, since a derivation may give one number to two live assumptions;
that the new numbers are distinct is a fact about the list of them
(`allDischarged_renumber`), and is what the check wants besides.
-/

namespace NaturalDeduction

namespace ProofTree

/-! ## Leaves and references -/

theorem leavesOf_eq (ps : List ProofTree) : leavesOf ps = ps.flatMap leaves := by
  induction ps with
  | nil => rfl
  | cons p ps ih => rw [leavesOf, List.flatMap_cons, ih]

theorem leaves_eq (p : ProofTree) :
    p.leaves = (if p.rule = .assumption then [p] else []) ++ p.premises.flatMap leaves := by
  obtain ⟨claim, rule, premises, reference, discharges⟩ := p
  rw [leaves, leavesOf_eq]
  split
  · rfl
  · exact (List.nil_append _).symm

theorem leaves_subset {p q : ProofTree} (hq : q ∈ p.premises) : q.leaves ⊆ p.leaves := by
  intro leaf hleaf
  rw [leaves_eq]
  exact List.mem_append_right _ (List.mem_flatMap.mpr ⟨q, hq, hleaf⟩)

theorem mem_referenced {p : ProofTree} {n : Int} :
    n ∈ p.referenced ↔ ∃ leaf ∈ p.leaves, leaf.reference = some n :=
  List.mem_filterMap

theorem mem_referenced_of_premise {p q : ProofTree} {n : Int} (hq : q ∈ p.premises)
    (hn : n ∈ q.referenced) : n ∈ p.referenced := by
  obtain ⟨leaf, hleaf, href⟩ := mem_referenced.mp hn
  exact mem_referenced.mpr ⟨leaf, leaves_subset hq hleaf, href⟩

/-! ## Replacing numbers -/

section MapNumbers

variable (new : Int → Option Int)

theorem mapNumbersOf_eq (ps : List ProofTree) :
    mapNumbersOf new ps = ps.map (mapNumbers new) := by
  induction ps with
  | nil => rfl
  | cons p ps ih => rw [mapNumbersOf, List.map_cons, ih]

theorem mapNumbers_mk (claim : Formula) (rule : Rule) (ps : List ProofTree) (ref : Option Int)
    (ds : List (Option Int)) :
    mapNumbers new ⟨claim, rule, ps, ref, ds⟩ =
      ⟨claim, rule, ps.map (mapNumbers new), ref.map fun n => (new n).getD n,
        ds.map (·.bind new)⟩ := by
  rw [mapNumbers, mapNumbersOf_eq]

@[simp] theorem claim_mapNumbers (p : ProofTree) : (p.mapNumbers new).claim = p.claim := by
  obtain ⟨claim, rule, premises, reference, discharges⟩ := p
  rfl

@[simp] theorem rule_mapNumbers (p : ProofTree) : (p.mapNumbers new).rule = p.rule := by
  obtain ⟨claim, rule, premises, reference, discharges⟩ := p
  rfl

/-- The numbers discharged are replaced, and those without a new number are
left out. -/
theorem allDischarged_mapNumbers (p : ProofTree) :
    (p.mapNumbers new).allDischarged = p.allDischarged.filterMap new := by
  induction p using ProofTree.induction with
  | node p ih =>
    obtain ⟨claim, rule, premises, reference, discharges⟩ := p
    rw [mapNumbers_mk, allDischarged_mk, allDischarged_mk, List.filterMap_append,
      List.filterMap_map, List.filterMap_filterMap, List.flatMap_map, List.filterMap_flatMap]
    refine congrArg₂ (· ++ ·) ?_ (List.flatMap_congr fun q hq => ih q hq)
    exact List.filterMap_congr fun slot _ => by cases slot <;> rfl

theorem leaves_mapNumbers (p : ProofTree) :
    (p.mapNumbers new).leaves = p.leaves.map (mapNumbers new) := by
  induction p using ProofTree.induction with
  | node p ih =>
    obtain ⟨claim, rule, premises, reference, discharges⟩ := p
    rw [leaves_eq, leaves_eq, mapNumbers_mk, List.map_append, List.flatMap_map, List.map_flatMap]
    refine congrArg₂ (· ++ ·) ?_ (List.flatMap_congr fun q hq => ih q hq)
    dsimp only
    split
    · rw [List.map_singleton, mapNumbers_mk]
    · rfl

theorem reference_mapNumbers (p : ProofTree) :
    (p.mapNumbers new).reference = p.reference.map fun n => (new n).getD n := by
  obtain ⟨claim, rule, premises, reference, discharges⟩ := p
  rfl

/-- **A context after replacing numbers**: it has every assumption that is
referred to, under its new number if it has one. -/
def Renames (refs : List Int) (ctx ctx' : Context) : Prop :=
  ∀ a ∈ ctx.assumptions, a.number ∈ refs →
    ⟨a.formula, (new a.number).getD a.number⟩ ∈ ctx'.assumptions

variable {new}

theorem Renames.assume {refs : List Int} {ctx ctx' : Context} (h : Renames new refs ctx ctx')
    (f : Formula) {slot : Option Int} (hslot : ∀ n ∈ slot, n ∈ refs → (new n).isSome) :
    Renames new refs (ctx.assume f slot) (ctx'.assume f (slot.bind new)) := by
  cases slot with
  | none => exact h
  | some n =>
    intro a ha href
    rw [Context.assume_some, Context.assumptions_push, List.mem_append, List.mem_singleton] at ha
    rw [Option.bind_some]
    obtain ha | rfl := ha
    · have hmem := h a ha href
      cases new n with
      | none => exact hmem
      | some m => exact List.mem_append_left _ hmem
    · obtain ⟨m, hm⟩ := Option.isSome_iff_exists.mp (hslot n rfl href)
      dsimp only
      rw [hm]
      exact List.mem_append_right _ (List.mem_singleton_self _)

/-- What is asked of the new numbers: all that the tree refers to is among
`refs`, and what it discharges of these has a new number. -/
structure Covers (new : Int → Option Int) (refs : List Int) (p : ProofTree) : Prop where
  referenced : ∀ n ∈ p.referenced, n ∈ refs
  discharged : ∀ n ∈ p.allDischarged, n ∈ refs → (new n).isSome

theorem Covers.premise {p q : ProofTree} {refs : List Int} (h : Covers new refs p)
    (hq : q ∈ p.premises) : Covers new refs q :=
  ⟨fun n hn => h.referenced n (mem_referenced_of_premise hq hn),
    fun n hn => h.discharged n (allDischarged_subset hq hn)⟩

theorem Covers.slot {p : ProofTree} {refs : List Int} (h : Covers new refs p)
    {slot : Option Int} (hslot : slot ∈ p.discharges) :
    ∀ n ∈ slot, n ∈ refs → (new n).isSome := by
  rintro n rfl
  refine h.discharged n ?_
  rw [allDischarged_eq]
  exact List.mem_append_left _ (List.mem_filterMap.mpr ⟨some n, hslot, rfl⟩)

/-- **Replacing numbers keeps derivations** if each number that is both
referred to and discharged has a new number. -/
theorem IsDerivation.mapNumbers {p : ProofTree} {ctx ctx' : Context} {refs : List Int}
    (h : IsDerivation ctx p) (hp : Covers new refs p) (hctx : Renames new refs ctx ctx') :
    IsDerivation ctx' (p.mapNumbers new) := by
  induction h generalizing ctx' with
  | @assumption ctx a ds ha =>
    have href : a.number ∈ refs := by
      refine hp.referenced _ (mem_referenced.mpr ⟨⟨a.formula, .assumption, [], some a.number, ds⟩,
        ?_, rfl⟩)
      rw [leaves_eq]
      exact List.mem_cons_self
    exact .assumption (hctx a ha href)
  | @andIntro ctx p q ref ds _ _ ihp ihq =>
    rw [mapNumbers_mk, ← claim_mapNumbers new p, ← claim_mapNumbers new q]
    exact .andIntro (ihp (hp.premise (by simp)) hctx) (ihq (hp.premise (by simp)) hctx)
  | andElimLeft _ hc ih =>
    rw [mapNumbers_mk]
    exact .andElimLeft (ih (hp.premise (by simp)) hctx) ((claim_mapNumbers new _).trans hc)
  | andElimRight _ hc ih =>
    rw [mapNumbers_mk]
    exact .andElimRight (ih (hp.premise (by simp)) hctx) ((claim_mapNumbers new _).trans hc)
  | @orIntroLeft ctx p right ref ds _ ih =>
    rw [mapNumbers_mk, ← claim_mapNumbers new p]
    exact .orIntroLeft (ih (hp.premise (by simp)) hctx)
  | @orIntroRight ctx p left ref ds _ ih =>
    rw [mapNumbers_mk, ← claim_mapNumbers new p]
    exact .orIntroRight (ih (hp.premise (by simp)) hctx)
  | @orElim ctx d p q left right m n ref _ hc _ _ hpq ihd ihp ihq =>
    rw [mapNumbers_mk, ← claim_mapNumbers new p]
    exact .orElim (ihd (hp.premise (by simp)) hctx) ((claim_mapNumbers new d).trans hc)
      (ihp (hp.premise (by simp)) (hctx.assume left (hp.slot (by simp))))
      (ihq (hp.premise (by simp)) (hctx.assume right (hp.slot (by simp))))
      (by rw [claim_mapNumbers, claim_mapNumbers, hpq])
  | @impIntro ctx p left n ref _ ih =>
    rw [mapNumbers_mk, ← claim_mapNumbers new p]
    exact .impIntro (ih (hp.premise (by simp)) (hctx.assume left (hp.slot (by simp))))
  | impElim _ _ hc ihp ihq =>
    rw [mapNumbers_mk]
    exact .impElim (ihp (hp.premise (by simp)) hctx) (ihq (hp.premise (by simp)) hctx)
      (by rw [claim_mapNumbers, claim_mapNumbers, hc])

end MapNumbers

/-! ## The new numbers -/

theorem firstOccurrences_of_nodup {ns : List Int} (h : ns.Nodup) : firstOccurrences ns = ns := by
  induction ns with
  | nil => rfl
  | cons n ns ih =>
    obtain ⟨hn, hns⟩ := List.nodup_cons.mp h
    rw [firstOccurrences, ih hns, List.filter_eq_self.mpr]
    intro m hm
    exact decide_eq_true fun h => hn (h ▸ hm)

theorem newNumber?_eq (first : Int) (order : List Int) (n : Int) :
    newNumber? first order n = (order.idxOf? n).map fun i : Nat => first + i := by
  unfold newNumber?
  cases order.idxOf? n <;> rfl

theorem newNumber?_isSome_iff {first n : Int} {order : List Int} :
    (newNumber? first order n).isSome ↔ n ∈ order := by
  rw [newNumber?_eq, Option.isSome_map, ← Option.ne_none_iff_isSome, ne_eq,
    List.idxOf?_eq_none_iff, not_not]

/-- The members of a list without repetitions get consecutive numbers. -/
theorem filterMap_newNumber? (first : Int) {order : List Int} (h : order.Nodup) :
    order.filterMap (newNumber? first order) =
      (List.range order.length).map fun i : Nat => first + i := by
  induction order generalizing first with
  | nil => rfl
  | cons n ns ih =>
    obtain ⟨hn, hns⟩ := List.nodup_cons.mp h
    have hhead : newNumber? first (n :: ns) n = some first := by
      simp [newNumber?_eq, List.idxOf?_cons]
    have htail : ∀ m ∈ ns, newNumber? first (n :: ns) m = newNumber? (first + 1) ns m := by
      intro m hm
      have hne : (n == m) = false := beq_eq_false_iff_ne.mpr fun h => hn (h ▸ hm)
      rw [newNumber?_eq, newNumber?_eq, List.idxOf?_cons, hne]
      cases ns.idxOf? m with
      | none => rfl
      | some i =>
        refine congrArg some ?_
        push_cast
        omega
    rw [List.filterMap_cons_some hhead, List.filterMap_congr htail, ih (first + 1) hns,
      List.length_cons, List.range_succ_eq_map, List.map_cons, List.map_map]
    refine congrArg₂ List.cons (by simp) (List.map_congr_left fun i _ => ?_)
    rw [Function.comp_apply]
    push_cast
    omega

/-! ## Renumbering -/

section Renumber

variable {p : ProofTree} {ctx : Context} {first : Int}

theorem bound_eq (hnd : p.allDischarged.Nodup) :
    p.bound = p.allDischarged.filter (p.referenced.contains ·) := by
  rw [bound, firstOccurrences_of_nodup (hnd.filter _)]

theorem mem_bound {n : Int} (hnd : p.allDischarged.Nodup) :
    n ∈ p.bound ↔ n ∈ p.allDischarged ∧ n ∈ p.referenced := by
  rw [bound_eq hnd, List.mem_filter, List.contains_iff_mem]

/-- A number that is not discharged stays. -/
theorem newNumber?_bound_eq_none {n : Int} (hnd : p.allDischarged.Nodup)
    (hn : n ∉ p.allDischarged) : newNumber? first p.bound n = none := by
  rw [← Option.not_isSome_iff_eq_none, newNumber?_isSome_iff, mem_bound hnd]
  exact fun hmem => hn hmem.1

/-- **Renumbering keeps derivations** whose discharges are distinct and not in
use. -/
theorem IsDerivation.renumber (h : IsDerivation ctx p) (hnd : p.allDischarged.Nodup)
    (hlive : ∀ n ∈ p.allDischarged, n ∉ ctx.numbers) : IsDerivation ctx (p.renumber first) := by
  have hcovers : Covers (newNumber? first p.bound) p.referenced p :=
    ⟨fun _ hn => hn,
      fun _ hn href => newNumber?_isSome_iff.mpr ((mem_bound hnd).mpr ⟨hn, href⟩)⟩
  refine h.mapNumbers hcovers fun a ha _ => ?_
  -- a number of the context is not discharged, so it stays
  rw [newNumber?_bound_eq_none hnd fun hmem => hlive _ hmem (Context.number_mem_numbers ha)]
  exact ha

/-- **The discharges count up** from the first number, in the order in which
the tree is read. -/
theorem allDischarged_renumber (hnd : p.allDischarged.Nodup) :
    (p.renumber first).allDischarged =
      (List.range p.bound.length).map fun i : Nat => first + i := by
  have hkept : p.allDischarged.filterMap (newNumber? first p.bound) =
      p.bound.filterMap (newNumber? first p.bound) := by
    conv_rhs => rw [bound_eq hnd, List.filterMap_filter]
    refine List.filterMap_congr fun n hn => ?_
    split
    · rw [bound_eq hnd]
    · rename_i hnot
      rw [← Option.not_isSome_iff_eq_none, newNumber?_isSome_iff, mem_bound hnd]
      exact fun hmem => hnot (List.contains_iff_mem.mpr hmem.2)
  have hbound : p.bound.Nodup := bound_eq hnd ▸ hnd.filter _
  rw [ProofTree.renumber, allDischarged_mapNumbers, hkept, filterMap_newNumber? first hbound]

/-- **Every discharge that is kept is referred to.** -/
theorem mem_referenced_renumber (hnd : p.allDischarged.Nodup) {n : Int}
    (hn : n ∈ (p.renumber first).allDischarged) : n ∈ (p.renumber first).referenced := by
  rw [ProofTree.renumber, allDischarged_mapNumbers, List.mem_filterMap] at hn
  obtain ⟨m, -, hm⟩ := hn
  have hbound : m ∈ p.bound := newNumber?_isSome_iff.mp (Option.isSome_of_eq_some hm)
  obtain ⟨leaf, hleaf, href⟩ := mem_referenced.mp ((mem_bound hnd).mp hbound).2
  refine mem_referenced.mpr ⟨leaf.mapNumbers (newNumber? first p.bound), ?_, ?_⟩
  · rw [ProofTree.renumber, leaves_mapNumbers]
    exact List.mem_map_of_mem hleaf
  · rw [reference_mapNumbers, href, Option.map_some, hm, Option.getD_some]

/-- The discharges of a renumbered tree can be discharged, if the context's
numbers are distinct and below the first one. -/
theorem fresh_renumber (hnd : p.allDischarged.Nodup) (hctx : ctx.numbers.Nodup)
    (hfirst : ∀ n ∈ ctx.numbers, n < first) :
    Fresh ctx [] (p.renumber first).allDischarged := by
  rw [allDischarged_renumber hnd]
  refine ⟨hctx, ?_, fun _ _ => List.not_mem_nil, fun n hn hlive => ?_⟩
  · refine List.nodup_range.map fun i j hij => ?_
    omega
  · obtain ⟨i, -, rfl⟩ := List.mem_map.mp hn
    have := hfirst _ hlive
    omega

end Renumber

end ProofTree

end NaturalDeduction
