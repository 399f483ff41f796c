import NaturalDeduction.Proofs.AlikeSearches
import NaturalDeduction.Proofs.SearchSoundness

/-!
# Numbers have no influence on a search

The numbers of a context may be anything: negative, huge, the same number for
several assumptions. A search writes them down and never looks at them, so the
contexts with given formulas all lead to one and the same proof, and only in
the end the numbers are put in. The proof before that is a `Scheme`: its leaves
are labelled by the position of an assumption in the context, or by a discharge
counted from one on, and `Scheme.numbered` puts in the numbers of a context and
the ones after its largest.

To find the scheme the formulas are numbered downwards from zero
(`Context.downFrom`), so that a number that is not positive is a position and a
positive one a discharge. The search from there is like the search from any
other context with these formulas (`Likeness.ofNumbers`). The two proofs are
renumbered each for itself, and that makes no difference, as renumbering
commutes with any change of numbers that keeps the discharges apart from
everything else (`ProofTree.renumber_relabel`).
-/

namespace NaturalDeduction

/-! ## Proofs without numbers -/

/-- **What a leaf is labelled by** as long as there are no numbers: the position
of an assumption in a context of a given size, or which of the discharges it
is, counted from one. -/
inductive Label (size : Nat) where
  /-- An assumption of the context. -/
  | position (j : Fin size)
  /-- A discharge. -/
  | ordinal (k : Nat)
deriving DecidableEq, Repr

/-- The number of a label, if positions have these numbers and `last` is the last
one in use. -/
def Label.number {size : Nat} (number : Fin size → Int) (last : Int) : Label size → Int
  | position j => number j
  | ordinal k => last + k

/-- **A proof without numbers**, in a context of a given size. -/
structure Scheme (size : Nat) where
  /-- What the node states. -/
  claim : Formula
  /-- The rule that yields it. -/
  rule : Rule
  /-- The proofs of the premises. -/
  premises : List (Scheme size)
  /-- What a leaf uses. -/
  reference : Option (Label size)
  /-- Which discharges of the proof are those of the node. -/
  discharges : List (Option Nat)

namespace Scheme

variable {size : Nat}

mutual

/-- **The proof with its numbers put in**: a position is replaced by the number
of the assumption there, and the `k`-th discharge by the `k`-th number after
the last one in use. -/
def numbered (number : Fin size → Int) (last : Int) : Scheme size → ProofTree
  | ⟨claim, rule, premises, reference, discharges⟩ =>
    ⟨claim, rule, numberedOf number last premises, reference.map (Label.number number last),
      discharges.map fun slot => slot.map fun k : Nat => last + k⟩

/-- A list of proofs with their numbers put in. -/
def numberedOf (number : Fin size → Int) (last : Int) : List (Scheme size) → List ProofTree
  | [] => []
  | t :: ts => t.numbered number last :: numberedOf number last ts

end

mutual

/-- The discharges of a proof, each node before its premises. -/
def ordinals : Scheme size → List Nat
  | ⟨_, _, premises, _, discharges⟩ => discharges.filterMap id ++ ordinalsOf premises

/-- The discharges of a list of proofs. -/
def ordinalsOf : List (Scheme size) → List Nat
  | [] => []
  | t :: ts => t.ordinals ++ ordinalsOf ts

end

mutual

/-- The labels of the leaves of a proof. -/
def labels : Scheme size → List (Label size)
  | ⟨_, rule, premises, reference, _⟩ =>
    (if rule = .assumption then reference.toList else []) ++ labelsOf premises

/-- The labels of the leaves of a list of proofs. -/
def labelsOf : List (Scheme size) → List (Label size)
  | [] => []
  | t :: ts => t.labels ++ labelsOf ts

end

end Scheme

/-- **A proof whose discharges are counted**: they are numbered from one on, in the
order in which the proof is read, and a leaf that is not labelled by a position
is labelled by one of them. -/
structure Scheme.Counted {size : Nat} (t : Scheme size) : Prop where
  /-- The discharges are 1, 2 and so on. -/
  consecutive : t.ordinals = List.range' 1 t.ordinals.length
  /-- No leaf refers to a discharge that is not there. -/
  bound : ∀ k, .ordinal k ∈ t.labels → k ∈ t.ordinals

/-! ## Changing numbers -/

namespace ProofTree

variable {f : Int → Int} {p : ProofTree}

/-- **A tree with every number changed.** -/
def relabel (f : Int → Int) : ProofTree → ProofTree := mapNumbers fun n => some (f n)

theorem relabel_mk (f : Int → Int) (claim : Formula) (rule : Rule) (ps : List ProofTree)
    (ref : Option Int) (ds : List (Option Int)) :
    relabel f ⟨claim, rule, ps, ref, ds⟩ =
      ⟨claim, rule, ps.map (relabel f), ref.map f, ds.map (·.map f)⟩ := by
  rw [relabel, mapNumbers_mk]
  congr 1
  exact List.map_congr_left fun slot _ => by cases slot <;> rfl

theorem allDischarged_relabel (f : Int → Int) (p : ProofTree) :
    (p.relabel f).allDischarged = p.allDischarged.map f := by
  rw [relabel, allDischarged_mapNumbers]
  exact congrFun List.filterMap_eq_map p.allDischarged

theorem referenced_relabel (f : Int → Int) (p : ProofTree) :
    (p.relabel f).referenced = p.referenced.map f := by
  rw [referenced, relabel, leaves_mapNumbers, List.filterMap_map, referenced, List.map_filterMap]
  exact List.filterMap_congr fun leaf _ => reference_mapNumbers _ leaf

theorem referenced_eq (p : ProofTree) :
    p.referenced = (if p.rule = .assumption then p.reference.toList else [])
      ++ p.premises.flatMap referenced := by
  unfold referenced
  rw [leaves_eq, List.filterMap_append, List.filterMap_flatMap]
  refine congrArg (· ++ _) ?_
  split
  · cases href : p.reference with
    | none => exact List.filterMap_cons_none href
    | some n => exact List.filterMap_cons_some href
  · rfl

/-- A change of numbers can be made before new numbers are given out or after,
if the new numbers are changed alike. -/
theorem mapNumbers_relabel {new new' : Int → Option Int} (h : ∀ n, new' (f n) = (new n).map f)
    (p : ProofTree) : (p.relabel f).mapNumbers new' = (p.mapNumbers new).relabel f := by
  induction p using ProofTree.induction with
  | node p ih =>
    obtain ⟨claim, rule, premises, reference, discharges⟩ := p
    rw [relabel_mk, mapNumbers_mk, mapNumbers_mk, relabel_mk, List.map_map, List.map_map,
      List.map_map, List.map_map]
    congr 1
    · exact List.map_congr_left fun q hq => ih q hq
    · cases reference with
      | none => rfl
      | some n =>
        show some ((new' (f n)).getD (f n)) = some (f ((new n).getD n))
        rw [h]
        cases new n <;> rfl
    · refine List.map_congr_left fun slot _ => ?_
      cases slot with
      | none => rfl
      | some n => exact h n

theorem idxOf?_map {order : List Int} {n : Int} (h : ∀ b ∈ order, f n = f b → n = b) :
    (order.map f).idxOf? (f n) = order.idxOf? n := by
  induction order with
  | nil => rfl
  | cons b order ih =>
    obtain ⟨hb, horder⟩ := List.forall_mem_cons.mp h
    have hbeq : (f b == f n) = (b == n) := by
      rw [Bool.eq_iff_iff, beq_iff_eq, beq_iff_eq]
      exact ⟨fun heq => (hb heq.symm).symm, congrArg f⟩
    rw [List.map_cons, List.idxOf?_cons, List.idxOf?_cons, hbeq, ih horder]

/-- **Renumbering commutes with a change of numbers** that takes no other number
for a discharge and counts on where the renumbering starts. -/
theorem renumber_relabel {first first' : Int} (hnd : p.allDischarged.Nodup)
    (hf : ∀ n, ∀ d ∈ p.allDischarged, f n = f d → n = d)
    (hfirst : ∀ i : Nat, f (first + i) = first' + i) :
    (p.relabel f).renumber first' = (p.renumber first).relabel f := by
  have hnd' : (p.relabel f).allDischarged.Nodup := by
    rw [allDischarged_relabel]
    exact hnd.map_on fun m _ n hn => hf m n hn
  have hbound : (p.relabel f).bound = p.bound.map f := by
    rw [bound_eq hnd', bound_eq hnd, allDischarged_relabel, referenced_relabel, List.filter_map]
    refine congrArg (List.map f) (List.filter_congr fun d hd => ?_)
    rw [Function.comp_apply, Bool.eq_iff_iff, List.contains_iff_mem, List.contains_iff_mem,
      List.mem_map]
    exact ⟨fun ⟨n, hn, heq⟩ => hf n d hd heq ▸ hn, fun hmem => ⟨d, hmem, rfl⟩⟩
  refine mapNumbers_relabel (fun n => ?_) p
  rw [hbound, newNumber?_eq, newNumber?_eq,
    idxOf?_map fun b hb => hf n b ((mem_bound hnd).mp hb).1, Option.map_map]
  exact congrArg (Option.map · _) (funext fun i => (hfirst i).symm)

end ProofTree

/-! ## Numbers as labels -/

namespace Label

variable {size : Nat}

/-- **The label that a number stands for**: positions are numbered downwards from
zero, discharges upwards from one. -/
def ofNumber (size : Nat) (n : Int) : Label size :=
  if h : n ≤ 0 ∧ (-n).toNat < size then position ⟨(-n).toNat, h.2⟩ else ordinal n.toNat

theorem ofNumber_of_pos {n : Int} (h : 0 < n) : ofNumber size n = ordinal n.toNat :=
  dif_neg fun hn => by omega

theorem ofNumber_position (j : Fin size) : ofNumber size (-(j : Nat)) = position j := by
  have hj : (-(-((j : Nat) : Int))).toNat = j := by rw [Int.neg_neg, Int.toNat_natCast]
  rw [ofNumber, dif_pos ⟨by omega, by rw [hj]; exact j.isLt⟩]
  exact congrArg position (Fin.ext hj)

variable (number : Fin size → Int) (last : Int)

/-- The number that a number is replaced by when it stands for a label. -/
def replace (n : Int) : Int := (ofNumber size n).number number last

theorem replace_of_pos {n : Int} (h : 0 < n) : replace number last n = last + n := by
  rw [replace, ofNumber_of_pos h, Label.number, Int.toNat_of_nonneg h.le]

theorem replace_position (j : Fin size) : replace number last (-(j : Nat)) = number j := by
  rw [replace, ofNumber_position, Label.number]

variable {number last}

theorem replace_le (hlast : ∀ j, number j ≤ last) {n : Int} (h : n ≤ 0) :
    replace number last n ≤ last := by
  unfold replace ofNumber
  split
  · exact hlast _
  · rw [Label.number, Int.toNat_of_nonpos h]
    exact (Int.add_zero last).le

/-- Nothing else is replaced by the number of a discharge. -/
theorem eq_of_replace_eq (hlast : ∀ j, number j ≤ last) {m n : Int} (hn : 0 < n)
    (h : replace number last m = replace number last n) : m = n := by
  rw [replace_of_pos number last hn] at h
  by_cases hm : m ≤ 0
  · have hle := replace_le hlast hm
    omega
  · rw [replace_of_pos number last (by omega)] at h
    omega

end Label

namespace Scheme

variable {size : Nat}

mutual

/-- **The tree without its numbers**, if they stand for labels. -/
def ofTree (size : Nat) : ProofTree → Scheme size
  | ⟨claim, rule, premises, reference, discharges⟩ =>
    ⟨claim, rule, ofTrees size premises, reference.map (Label.ofNumber size),
      discharges.map fun slot => slot.map Int.toNat⟩

/-- A list of trees without their numbers. -/
def ofTrees (size : Nat) : List ProofTree → List (Scheme size)
  | [] => []
  | p :: ps => ofTree size p :: ofTrees size ps

end

theorem ofTrees_eq (ps : List ProofTree) : ofTrees size ps = ps.map (ofTree size) := by
  induction ps with
  | nil => rfl
  | cons p ps ih => rw [ofTrees, List.map_cons, ih]

theorem numberedOf_eq (number : Fin size → Int) (last : Int) (ts : List (Scheme size)) :
    numberedOf number last ts = ts.map (numbered number last) := by
  induction ts with
  | nil => rfl
  | cons t ts ih => rw [numberedOf, List.map_cons, ih]

theorem ordinalsOf_eq (ts : List (Scheme size)) : ordinalsOf ts = ts.flatMap ordinals := by
  induction ts with
  | nil => rfl
  | cons t ts ih => rw [ordinalsOf, List.flatMap_cons, ih]

/-- **Putting numbers in replaces those that stood for labels.** -/
theorem numbered_ofTree (number : Fin size → Int) (last : Int) {p : ProofTree}
    (h : ∀ n ∈ p.allDischarged, 0 < n) :
    (ofTree size p).numbered number last = p.relabel (Label.replace number last) := by
  induction p using ProofTree.induction with
  | node p ih =>
    have hpremises : ∀ q ∈ p.premises,
        (ofTree size q).numbered number last = q.relabel (Label.replace number last) :=
      fun q hq => ih q hq fun n hn => h n (ProofTree.allDischarged_subset hq hn)
    obtain ⟨claim, rule, premises, reference, discharges⟩ := p
    rw [ofTree, numbered, ProofTree.relabel_mk, ofTrees_eq, numberedOf_eq, List.map_map,
      List.map_congr_left (f := numbered number last ∘ ofTree size) hpremises, Option.map_map,
      List.map_map]
    congr 1
    refine List.map_congr_left fun slot hslot => ?_
    cases slot with
    | none => rfl
    | some n =>
      have hn : 0 < n := h n <| by
        rw [ProofTree.allDischarged_mk]
        exact List.mem_append_left _ (List.mem_filterMap.mpr ⟨some n, hslot, rfl⟩)
      show some (last + (n.toNat : Int)) = some (Label.replace number last n)
      rw [Label.replace_of_pos number last hn, Int.toNat_of_nonneg hn.le]

theorem ordinals_ofTree (p : ProofTree) :
    (ofTree size p).ordinals = p.allDischarged.map Int.toNat := by
  induction p using ProofTree.induction with
  | node p ih =>
    obtain ⟨claim, rule, premises, reference, discharges⟩ := p
    rw [ofTree, ordinals, ofTrees_eq, ordinalsOf_eq, List.flatMap_map, List.filterMap_map,
      ProofTree.allDischarged_mk, List.map_append, List.map_filterMap, List.map_flatMap,
      List.flatMap_congr ih]
    rfl

theorem labelsOf_eq (ts : List (Scheme size)) : labelsOf ts = ts.flatMap labels := by
  induction ts with
  | nil => rfl
  | cons t ts ih => rw [labelsOf, List.flatMap_cons, ih]

theorem labels_ofTree (p : ProofTree) :
    (ofTree size p).labels = p.referenced.map (Label.ofNumber size) := by
  induction p using ProofTree.induction with
  | node p ih =>
    obtain ⟨claim, rule, premises, reference, discharges⟩ := p
    rw [ofTree, labels, ofTrees_eq, labelsOf_eq, List.flatMap_map, List.flatMap_congr ih,
      ProofTree.referenced_eq, List.map_append, List.map_flatMap]
    refine congrArg (· ++ _) ?_
    dsimp only
    split
    · cases reference <;> rfl
    · rfl

end Scheme

/-! ## Contexts with the same formulas -/

namespace Context

/-- **The formulas numbered downwards from zero.** -/
def downFrom (fs : List Formula) : Context := ⟨fs.mapIdx fun i f => ⟨f, -i⟩⟩

theorem exists_position_of_mem {fs : List Formula} {n : Int} (h : n ∈ (downFrom fs).numbers) :
    ∃ j : Fin fs.length, n = -(j : Nat) := by
  obtain ⟨a, ha, rfl⟩ := List.mem_map.mp h
  obtain ⟨i, hi, rfl⟩ := List.mem_mapIdx.mp ha
  exact ⟨⟨i, hi⟩, rfl⟩

theorem not_mem_numbers_downFrom {fs : List Formula} {n : Int} (h : 0 < n) :
    n ∉ (downFrom fs).numbers := fun hmem => by
  obtain ⟨j, rfl⟩ := exists_position_of_mem hmem
  omega

/-- Every positive number is free. -/
theorem maxNumber_downFrom (fs : List Formula) : (downFrom fs).maxNumber = 0 := by
  cases fs with
  | nil => rfl
  | cons f fs =>
    have hzero : 0 ∈ (downFrom (f :: fs)).numbers := by
      simp [downFrom, numbers, List.mapIdx_cons]
    have hle : ∀ n ∈ (downFrom (f :: fs)).numbers, n ≤ 0 := fun n hn => by
      obtain ⟨j, rfl⟩ := exists_position_of_mem hn
      omega
    exact Option.some.inj
      ((max?_numbers hzero).symm.trans (List.max?_eq_some_iff.mpr ⟨hzero, hle⟩))

variable {fs : List Formula} (ctx : Context) (h : ctx.formulas = fs)

/-- The number of the assumption at a position of a context with given
formulas. -/
def numberOf (j : Fin fs.length) : Int :=
  (ctx.assumptions.get (j.cast (by rw [← h, formulas, List.length_map]))).number

theorem numberOf_le_maxNumber (j : Fin fs.length) : ctx.numberOf h j ≤ ctx.maxNumber :=
  le_maxNumber (number_mem_numbers (List.get_mem ..))

end Context

/-- **A search is like the one with its labels replaced by numbers.** -/
def Likeness.ofNumbers {size : Nat} (number : Fin size → Int) (last : Int) : Likeness where
  formula := id
  number m n := Label.replace number last m = n
  next m n := 0 < m ∧ last + m = n
  injective := Function.injective_id
  formula_and _ _ := rfl
  formula_or _ _ := rfl
  formula_imp _ _ := rfl
  isBinary_formula _ h := h
  number_of_next m n h := (Label.replace_of_pos number last h.1).trans h.2
  next_succ m n h := ⟨by omega, by omega⟩

section OfNumbers

variable {size : Nat} {number : Fin size → Int} {last : Int}

theorem Likeness.map_eq_of_rel {slot slot' : Option Int}
    (h : Option.Rel (Likeness.ofNumbers number last).number slot slot') :
    slot.map (Label.replace number last) = slot' := by
  cases h with
  | none => rfl
  | some h => exact congrArg some h

/-- Trees that are alike up to numbers are the same tree with other numbers. -/
theorem Likeness.Trees.eq_relabel {p p' : ProofTree}
    (h : (Likeness.ofNumbers number last).Trees p p') :
    p' = p.relabel (Label.replace number last) := by
  induction p using ProofTree.induction generalizing p' with
  | node p ih =>
    obtain ⟨claim, rule, premises, reference, discharges⟩ := p
    obtain ⟨claim', rule', premises', reference', discharges'⟩ := p'
    cases h with
    | node hclaim hrule hpremises hreference hdischarges =>
    have hps : premises.map (ProofTree.relabel (Label.replace number last)) = premises' :=
      map_eq_of_forall₂ (((List.forall₂_and_left _ _).mpr ⟨fun q hq => @ih q hq, hpremises⟩).imp
        fun q q' hq => (hq.1 hq.2).symm)
    have hds : discharges.map (·.map (Label.replace number last)) = discharges' :=
      map_eq_of_forall₂ (hdischarges.imp fun _ _ hslot => map_eq_of_rel hslot)
    have href : reference.map (Label.replace number last) = reference' := map_eq_of_rel hreference
    obtain rfl : claim' = claim := hclaim
    obtain rfl : rule' = rule := hrule
    rw [ProofTree.relabel_mk, hps, hds, href]

theorem Likeness.contexts_downFrom {fs : List Formula} {ctx : Context} (h : ctx.formulas = fs) :
    (Likeness.ofNumbers (ctx.numberOf h) ctx.maxNumber).Contexts (.downFrom fs) ctx := by
  subst h
  refine List.forall₂_iff_get.mpr ⟨?_, fun i hi hi' => ?_⟩
  · rw [Context.downFrom, List.length_mapIdx, Context.formulas, List.length_map]
  · have hj : i < ctx.formulas.length := by rwa [Context.formulas, List.length_map]
    have hentry : (Context.downFrom ctx.formulas).assumptions.get ⟨i, hi⟩
        = ⟨ctx.formulas.get ⟨i, hj⟩, -i⟩ := List.getElem_mapIdx ..
    rw [hentry]
    refine ⟨?_, Label.replace_position (ctx.numberOf rfl) ctx.maxNumber ⟨i, hj⟩⟩
    exact (List.getElem_map Assumption.formula).symm

end OfNumbers

/-! ## Proofs found without numbers -/

section Found

variable {fs : List Formula} {raw : ProofTree}

theorem ProofTree.pos_of_mem_renumber (hnd : raw.allDischarged.Nodup) {n : Int}
    (hn : n ∈ (raw.renumber 1).allDischarged) : 0 < n := by
  rw [allDischarged_renumber hnd] at hn
  obtain ⟨i, -, rfl⟩ := List.mem_map.mp hn
  omega

/-- A leaf of a derivation from the formulas numbered downwards is labelled by a
position or by a discharge. -/
theorem ProofTree.IsDerivation.ofNumber_mem {p : ProofTree} (h : p.IsDerivation (.downFrom fs))
    (hnd : p.allDischarged.Nodup) (hpos : ∀ n ∈ p.allDischarged, 0 < n) {n : Int}
    (hn : n ∈ p.referenced) {k : Nat} (hk : Label.ofNumber fs.length n = .ordinal k) :
    k ∈ p.allDischarged.map Int.toNat := by
  obtain ⟨leaf, hleaf, href⟩ := mem_referenced.mp hn
  obtain ⟨above, habove⟩ := mem_leaves_iff.mp hleaf
  obtain ⟨m, hm, ⟨hmem, -⟩ | ⟨-, hone⟩⟩ := h.reference_bound hnd
    (fun d hd => Context.not_mem_numbers_downFrom (hpos d hd)) habove
  all_goals obtain rfl := Option.some.inj (href.symm.trans hm)
  · obtain ⟨j, rfl⟩ := Context.exists_position_of_mem hmem
    rw [Label.ofNumber_position] at hk
    cases hk
  · have hdischarged : n ∈ p.allDischarged := habove.mem_allDischarged (by omega)
    rw [Label.ofNumber_of_pos (hpos n hdischarged)] at hk
    obtain rfl := Label.ordinal.inj hk
    exact List.mem_map_of_mem hdischarged

/-- **The discharges of a proof without numbers are counted**, once it is
renumbered. -/
theorem Scheme.counted_ofTree (h : raw.IsDerivation (.downFrom fs))
    (hnd : raw.allDischarged.Nodup) (hpos : ∀ n ∈ raw.allDischarged, 0 < n) :
    (ofTree fs.length (raw.renumber 1)).Counted := by
  have hall : (raw.renumber 1).allDischarged =
      (List.range raw.bound.length).map fun i : Nat => 1 + (i : Int) :=
    ProofTree.allDischarged_renumber hnd
  have hder : (raw.renumber 1).IsDerivation (.downFrom fs) :=
    h.renumber hnd fun n hn => Context.not_mem_numbers_downFrom (hpos n hn)
  have hnd' : (raw.renumber 1).allDischarged.Nodup := by
    rw [hall]
    exact List.nodup_range.map fun i j hij => by omega
  refine ⟨?_, fun k hk => ?_⟩
  · rw [ordinals_ofTree, hall, List.map_map, List.length_map, List.length_range,
      List.range'_eq_map_range]
    refine List.map_congr_left fun i _ => ?_
    rw [Function.comp_apply]
    omega
  · rw [labels_ofTree] at hk
    obtain ⟨n, hn, hlabel⟩ := List.mem_map.mp hk
    rw [ordinals_ofTree]
    exact hder.ofNumber_mem hnd' (fun m hm => ProofTree.pos_of_mem_renumber hnd hm) hn hlabel

/-- Renumbered for their contexts, a proof without numbers and the proof with the
numbers of a context come to the same. -/
theorem ProofTree.renumber_eq_numbered {ctx : Context} (h : ctx.formulas = fs)
    (hnd : raw.allDischarged.Nodup) (hpos : ∀ n ∈ raw.allDischarged, 0 < n) :
    (raw.relabel (Label.replace (ctx.numberOf h) ctx.maxNumber)).renumber (ctx.maxNumber + 1) =
      (Scheme.ofTree fs.length (raw.renumber 1)).numbered (ctx.numberOf h) ctx.maxNumber := by
  have hcount : ∀ i : Nat, Label.replace (ctx.numberOf h) ctx.maxNumber (1 + i)
      = ctx.maxNumber + 1 + i := fun i => by
    rw [Label.replace_of_pos _ _ (by omega)]
    omega
  rw [Scheme.numbered_ofTree _ _ fun n hn => pos_of_mem_renumber hnd hn]
  exact renumber_relabel hnd
    (fun n d hd => Label.eq_of_replace_eq (ctx.numberOf_le_maxNumber h) (hpos d hd)) hcount

end Found

/-! ## Searching without numbers -/

namespace Search

variable {goal : Formula} {ctx : Context} {budget : Budget} {fs : List Formula}

/-- **What a search from some formulas comes to**, before there are numbers. -/
def scheme (goal : Formula) (fs : List Formula) (budget : Budget) :
    Except Exhausted (Scheme fs.length) :=
  (search goal (.downFrom fs) budget).result.map (Scheme.ofTree fs.length)

/-- A proof that is found from the formulas numbered downwards is a derivation,
and discharges distinct positive numbers. -/
theorem FoundIn.downFrom {n : Nat} {raw : ProofTree}
    (h : FoundIn goal (.downFrom fs) budget n raw) :
    raw.IsDerivation (.downFrom fs) ∧ raw.allDischarged.Nodup
      ∧ ∀ m ∈ raw.allDischarged, 0 < m := by
  obtain ⟨hi, -, hbuilt⟩ := h.builtFor
  rw [Context.maxNumber_downFrom] at hbuilt
  exact ⟨hbuilt.isDerivation, hbuilt.distinctIn.nodup, fun m hm =>
    Int.lt_of_add_one_le (hbuilt.distinctIn.bounds m hm).1⟩

theorem counted_scheme {t : Scheme fs.length} (h : scheme goal fs budget = .ok t) : t.Counted := by
  unfold scheme at h
  rcases hresult : (search goal (.downFrom fs) budget).result with e | p <;> rw [hresult] at h
  · cases h
  · obtain rfl := Except.ok.inj h
    obtain ⟨n, raw, hfound, rfl⟩ := exists_foundIn hresult
    obtain ⟨hder, hnd, hpos⟩ := hfound.downFrom
    rw [Context.maxNumber_downFrom]
    exact Scheme.counted_ofTree hder hnd hpos

/-- **A search puts numbers into its scheme**, and takes the steps that the scheme
takes. -/
theorem result_eq_scheme (h : ctx.formulas = fs) :
    (search goal ctx budget).steps = (search goal (.downFrom fs) budget).steps
      ∧ (search goal ctx budget).result =
        (scheme goal fs budget).map (Scheme.numbered (ctx.numberOf h) ctx.maxNumber) := by
  have hzero := Context.maxNumber_downFrom fs
  have hnext : (Likeness.ofNumbers (ctx.numberOf h) ctx.maxNumber).next
      ((Context.downFrom fs).maxNumber + 1) (ctx.maxNumber + 1) := by
    rw [hzero]
    exact ⟨by decide, rfl⟩
  obtain ⟨halike, hsteps⟩ :=
    Likeness.passes_start (Likeness.contexts_downFrom h) hnext goal budget
  refine ⟨hsteps, ?_⟩
  have hresult : ∀ c : Context, (search goal c budget).result =
      (passes goal c budget.maxDepth 1 (.start budget (c.maxNumber + 1))).1.map
        (·.renumber (c.maxNumber + 1)) := fun _ => rfl
  have hfound := @exists_foundIn_of_passes goal (.downFrom fs) budget
  change Likeness.Results _ _
    (passes goal ctx budget.maxDepth 1 (.start budget (ctx.maxNumber + 1))).1 at halike
  rw [scheme, hresult, hresult]
  -- of what the passes come to, nothing is used but that it is alike and was found
  generalize (passes goal ctx _ _ _).1 = result at halike ⊢
  generalize (passes goal (.downFrom fs) _ _ _).1 = raw at halike hfound ⊢
  cases halike with
  | ok hp =>
    obtain ⟨n, hfound⟩ := hfound rfl
    obtain ⟨-, hnd, hpos⟩ := hfound.downFrom
    rw [hzero, hp.eq_relabel]
    exact congrArg Except.ok (ProofTree.renumber_eq_numbered h hnd hpos)
  | error he => exact congrArg Except.error (congrArg₂ Exhausted.mk he.goal he.reason)

/-- **Numbers have no influence on a search.** For a goal, some formulas and a
budget there is one outcome, a failure or a proof without numbers whose
discharges are counted from one, and one number of steps. From every context
with these formulas, in this order and under any numbers, the search takes so
many steps, and it fails in this way or returns this proof with numbers put in:
for a position the number of the assumption there, for the `k`-th discharge the
`k`-th number after the largest of the context. -/
theorem search_ignores_numbers (goal : Formula) (fs : List Formula) (budget : Budget) :
    ∃ (outcome : Except Exhausted (Scheme fs.length)) (steps : Nat),
      (∀ t, outcome = .ok t → t.Counted)
      ∧ ∀ (ctx : Context) (h : ctx.formulas = fs),
        (search goal ctx budget).steps = steps
        ∧ (search goal ctx budget).result =
          outcome.map (Scheme.numbered (ctx.numberOf h) ctx.maxNumber) :=
  ⟨scheme goal fs budget, (search goal (.downFrom fs) budget).steps, fun _ => counted_scheme,
    fun _ => result_eq_scheme⟩

/-- `A ∨ B` and `B → A`, under any two numbers. -/
def casesUnder (m n : Int) : Context :=
  ⟨[⟨.or (.atom "A") (.atom "B"), m⟩, ⟨.imp (.atom "B") (.atom "A"), n⟩]⟩

/-- The proof of `C → A ∧ C` from them is the same with its three discharges, whether
the assumptions share a number or have numbers out of order. -/
theorem search_ignores_numbers_cases :
    ∃ t : Scheme 2,
      (search (.imp (.atom "C") (.and (.atom "A") (.atom "C"))) (casesUnder 7 7)
        { maxDepth := 6, maxSteps := 60 }).result
          = .ok (t.numbered ((casesUnder 7 7).numberOf rfl) 7)
      ∧ (search (.imp (.atom "C") (.and (.atom "A") (.atom "C"))) (casesUnder 100 (-3))
        { maxDepth := 6, maxSteps := 60 }).result
          = .ok (t.numbered ((casesUnder 100 (-3)).numberOf rfl) 100)
      ∧ (t.numbered ((casesUnder 7 7).numberOf rfl) 7).allDischarged = [8, 9, 10] := by
  have hdischarged : (search (.imp (.atom "C") (.and (.atom "A") (.atom "C"))) (casesUnder 7 7)
      { maxDepth := 6, maxSteps := 60 }).result.toOption.map ProofTree.allDischarged
        = some [8, 9, 10] := by
    decide +kernel
  obtain ⟨p, hp, hnumbers⟩ := Attempt.exists_proof hdischarged
  obtain ⟨outcome, steps, -, hall⟩ := search_ignores_numbers
    (.imp (.atom "C") (.and (.atom "A") (.atom "C"))) (casesUnder 7 7).formulas
    { maxDepth := 6, maxSteps := 60 }
  obtain ⟨-, hshared⟩ := hall (casesUnder 7 7) rfl
  obtain ⟨-, horder⟩ := hall (casesUnder 100 (-3)) rfl
  cases outcome with
  | error e =>
    rw [hp] at hshared
    cases hshared
  | ok t =>
    have hpt : p = t.numbered ((casesUnder 7 7).numberOf rfl) 7 :=
      Except.ok.inj (hp.symm.trans hshared)
    exact ⟨t, hshared, horder, hpt ▸ hnumbers⟩

end Search

end NaturalDeduction
