import NaturalDeduction.Proofs.Renumbering

/-!
# Where the leaves of a derivation stand

What a leaf refers to is either there from the start or opened above it. In
a derivation whose discharges are distinct and not in use there is no third
possibility and no choice: each leaf refers to a number of the context, and
then no node above it discharges that number, or to a number that is not of
the context, and then exactly one node above it does
(`IsDerivation.reference_bound`).
-/

namespace NaturalDeduction

namespace ProofTree

/-- **A leaf of a tree and the nodes above it**, from the root down. -/
inductive LeafAt : ProofTree → List ProofTree → ProofTree → Prop where
  | here {p : ProofTree} (h : p.rule = .assumption) : LeafAt p [] p
  | under {p q leaf : ProofTree} {above : List ProofTree} (hq : q ∈ p.premises)
      (h : LeafAt q above leaf) : LeafAt p (p :: above) leaf

theorem LeafAt.mem_leaves {p leaf : ProofTree} {above : List ProofTree}
    (h : p.LeafAt above leaf) : leaf ∈ p.leaves := by
  induction h with
  | here hrule =>
    rw [leaves_eq, if_pos hrule]
    exact List.mem_cons_self
  | under hq _ ih => exact leaves_subset hq ih

/-- The leaves of a tree are those that stand somewhere in it. -/
theorem mem_leaves_iff {p leaf : ProofTree} :
    leaf ∈ p.leaves ↔ ∃ above, p.LeafAt above leaf := by
  refine ⟨fun h => ?_, fun ⟨_, h⟩ => h.mem_leaves⟩
  induction p using ProofTree.induction with
  | node p ih =>
    rw [leaves_eq, List.mem_append] at h
    obtain h | h := h
    · split at h
      · rename_i hrule
        obtain rfl := List.mem_singleton.mp h
        exact ⟨[], .here hrule⟩
      · cases h
    · obtain ⟨q, hq, hleaf⟩ := List.mem_flatMap.mp h
      obtain ⟨above, habove⟩ := ih q hq hleaf
      exact ⟨p :: above, .under hq habove⟩

/-- What a node above a leaf discharges is discharged in the tree. -/
theorem LeafAt.discharged_mem {p leaf a : ProofTree} {above : List ProofTree} {n : Int}
    (h : p.LeafAt above leaf) (ha : a ∈ above) (hn : n ∈ a.discharged) :
    n ∈ p.allDischarged := by
  induction h with
  | here => cases ha
  | @under p q leaf above hq _ ih =>
    obtain rfl | ha := List.mem_cons.mp ha
    · exact allDischarged_eq a ▸ List.mem_append_left _ hn
    · exact allDischarged_subset hq (ih ha)

theorem exists_mem_pairUp {α β : Type} {as : List α} {a : α} (h : a ∈ as)
    (bs : List (Option β)) : ∃ o, (o = none ∨ o ∈ bs) ∧ (a, o) ∈ pairUp as bs := by
  obtain ⟨i, hi⟩ := List.mem_iff_getElem?.mp h
  refine ⟨bs[i]?.join, ?_, mem_pairUp_iff.mpr ⟨i, hi, rfl⟩⟩
  cases hb : bs[i]? with
  | none => exact Or.inl rfl
  | some b => exact Or.inr (List.mem_of_getElem? hb)

/-- How many of the nodes above a leaf discharge a number. -/
def dischargers (n : Int) (above : List ProofTree) : Nat :=
  above.countP fun a => n ∈ a.discharged

theorem dischargers_cons_of_mem {n : Int} {p : ProofTree} {above : List ProofTree}
    (h : n ∈ p.discharged) : dischargers n (p :: above) = dischargers n above + 1 :=
  List.countP_cons_of_pos (decide_eq_true h)

theorem dischargers_cons_of_not_mem {n : Int} {p : ProofTree} {above : List ProofTree}
    (h : n ∉ p.discharged) : dischargers n (p :: above) = dischargers n above :=
  List.countP_cons_of_neg (by rwa [decide_eq_true_eq])

/-- A number that some node above a leaf discharges is discharged in the
tree. -/
theorem LeafAt.mem_allDischarged {p leaf : ProofTree} {above : List ProofTree} {n : Int}
    (h : p.LeafAt above leaf) (hn : 0 < dischargers n above) : n ∈ p.allDischarged := by
  obtain ⟨a, ha, hmem⟩ := List.countP_pos_iff.mp hn
  exact h.discharged_mem ha (of_decide_eq_true hmem)

/-- **A leaf refers to the context or to exactly one node above it.** -/
theorem IsDerivation.reference_bound {p leaf : ProofTree} {ctx : Context}
    {above : List ProofTree} (h : IsDerivation ctx p) (hnd : p.allDischarged.Nodup)
    (hlive : ∀ n ∈ p.allDischarged, n ∉ ctx.numbers) (hleaf : p.LeafAt above leaf) :
    ∃ n, leaf.reference = some n ∧
      ((n ∈ ctx.numbers ∧ dischargers n above = 0)
        ∨ (n ∉ ctx.numbers ∧ dischargers n above = 1)) := by
  -- the context grows on the way down, by what the nodes passed discharge
  induction hleaf generalizing ctx with
  | here hrule =>
    obtain ⟨a, ha, -, href⟩ := h.root.2.1 hrule
    exact ⟨a.number, href, Or.inl ⟨Context.number_mem_numbers ha, rfl⟩⟩
  | @under p q leaf above hq hleaf ih =>
    obtain ⟨o, ho, hpair⟩ := exists_mem_pairUp hq p.openings
    have hder : IsDerivation (ctx.opened o) q := h.root.2.2 _ hpair
    rw [allDischarged_eq, allDischargedOf_eq] at hnd
    obtain ⟨-, hndps, hdisj⟩ := List.nodup_append'.mp hnd
    have hnotlive : ∀ n ∈ p.discharged, n ∉ ctx.numbers := fun n hn =>
      hlive n (allDischarged_eq p ▸ List.mem_append_left _ hn)
    have hnotq : ∀ n ∈ p.discharged, n ∉ q.allDischarged := fun n hn hnq =>
      hdisj hn (List.mem_flatMap.mpr ⟨q, hq, hnq⟩)
    have hopened : ∀ n ∈ (ctx.opened o).numbers, n ∈ ctx.numbers ∨ n ∈ p.discharged := by
      intro n hn
      rw [Context.numbers_opened, List.mem_append] at hn
      refine hn.imp_right fun hn => ?_
      cases o with
      | none => cases hn
      | some a =>
        obtain rfl := List.mem_singleton.mp hn
        exact number_mem_discharged (ho.resolve_left (Option.some_ne_none a))
    obtain ⟨n, href, hn⟩ := ih hder ((List.nodup_flatMap.mp hndps).1 q hq) fun n hn hmem =>
      (hopened n hmem).elim (hlive n (allDischarged_subset hq hn)) fun hd => hnotq n hd hn
    refine ⟨n, href, ?_⟩
    obtain ⟨hmem, hzero⟩ | ⟨hmem, hone⟩ := hn
    · by_cases hd : n ∈ p.discharged
      · exact Or.inr ⟨hnotlive n hd, by rw [dischargers_cons_of_mem hd, hzero]⟩
      · refine Or.inl ⟨(hopened n hmem).resolve_right hd, ?_⟩
        rw [dischargers_cons_of_not_mem hd, hzero]
    · -- one node of the premise discharges the number, so this one does not
      have hd : n ∉ p.discharged := fun hd =>
        hnotq n hd (hleaf.mem_allDischarged (by omega))
      refine Or.inr ⟨fun h => hmem ?_, by rw [dischargers_cons_of_not_mem hd, hone]⟩
      rw [Context.numbers_opened]
      exact List.mem_append_left _ h

end ProofTree

end NaturalDeduction
