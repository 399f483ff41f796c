import NaturalDeduction.Proofs.Renumbering

/-!
# What a proof is, place by place

The check goes through a tree once, in one order, with a context that grows on
the way down and a list of the numbers met so far. What it decides can be said
about the places of the tree, in no order at all: every node has the shape of
its rule, every leaf refers to an assumption that is live where the leaf
stands, and the numbers discharged are distinct and none of them is in use
(`ProofTree.Conforms`).

A place is the list of the premises taken to get there from the root, and not
the subtree found there, which may occur at several places with different
assumptions live. An assumption is live at a place if it is in the context or
if some node above opened it for the premise on the way (`ProofTree.LiveAt`).

In one point the check falls short of what it is meant to decide. It is done
with a leaf once it has looked its reference up, and so it never sees the
numbers that a leaf carries as discharges. It accepts the trees that conform
when those are left out (`ProofTree.check_eq_ok_iff_conforms`), and a leaf may
discharge a number in use. Where leaves carry none, nothing is left out
(`ProofTree.inferenceDischarges_eq_allDischarged`).
-/

namespace NaturalDeduction

namespace ProofTree

/-! ## Places -/

/-- **The node at a place**, if the tree has the place. -/
def nodeAt? : ProofTree → List Nat → Option ProofTree
  | p, [] => some p
  | p, i :: place => (p.premises[i]?).bind fun q => q.nodeAt? place

theorem nodeAt?_cons {p q : ProofTree} {i : Nat} (hq : p.premises[i]? = some q)
    (place : List Nat) : p.nodeAt? (i :: place) = q.nodeAt? place := by
  rw [nodeAt?, hq, Option.bind_some]

theorem nodeAt?_cons_eq_some_iff {p node : ProofTree} {i : Nat} {place : List Nat} :
    p.nodeAt? (i :: place) = some node ↔
      ∃ q, p.premises[i]? = some q ∧ q.nodeAt? place = some node :=
  Option.bind_eq_some_iff

/-- **What a node opens for a premise**: a to-introduction its antecedent, an
or-elimination the sides of the disjunction for the two cases, each under the
number it discharges. -/
inductive Opens : ProofTree → Nat → Assumption → Prop where
  | impIntro {p : ProofTree} {left right : Formula} {n : Int} (hrule : p.rule = .impIntro)
      (hclaim : p.claim = .imp left right) (hn : p.discharges[0]? = some (some n)) :
      Opens p 0 ⟨left, n⟩
  | leftCase {p d : ProofTree} {left right : Formula} {n : Int} (hrule : p.rule = .orElim)
      (hd : p.premises[0]? = some d) (hclaim : d.claim = .or left right)
      (hn : p.discharges[0]? = some (some n)) : Opens p 1 ⟨left, n⟩
  | rightCase {p d : ProofTree} {left right : Formula} {n : Int} (hrule : p.rule = .orElim)
      (hd : p.premises[0]? = some d) (hclaim : d.claim = .or left right)
      (hn : p.discharges[1]? = some (some n)) : Opens p 2 ⟨right, n⟩

/-- **The assumptions that are live at a place.** -/
def LiveAt (ctx : Context) (p : ProofTree) (place : List Nat) (a : Assumption) : Prop :=
  a ∈ ctx.assumptions ∨ ∃ above i below node,
    place = above ++ i :: below ∧ p.nodeAt? above = some node ∧ node.Opens i a

/-- **A tree that is well formed at every place**: what the specification of the
check says about nodes. -/
structure Grounded (ctx : Context) (p : ProofTree) : Prop where
  /-- Every node has the shape of its rule. -/
  shape : ∀ place node, p.nodeAt? place = some node → node.HasShape
  /-- Every leaf refers to an assumption of its own claim that is live there. -/
  live : ∀ place leaf, p.nodeAt? place = some leaf → leaf.rule = .assumption →
    ∃ a, p.LiveAt ctx place a ∧ a.formula = leaf.claim ∧ leaf.reference = some a.number

/-- **The specification of the check**: what makes a tree a proof under a context,
when the numbers that it discharges are `ns`. -/
structure Conforms (ctx : Context) (p : ProofTree) (ns : List Int) : Prop
    extends Grounded ctx p where
  /-- No number is discharged twice. -/
  distinct : ns.Nodup
  /-- No number is discharged that is in use. -/
  unused : ∀ n ∈ ns, n ∉ ctx.numbers

/-! ## What holds of every node -/

/-- **A property of all nodes of a tree**, at whatever place they stand. -/
def Everywhere (P : ProofTree → Prop) (p : ProofTree) : Prop :=
  ∀ place node, p.nodeAt? place = some node → P node

section Everywhere

variable {P : ProofTree → Prop}

theorem Everywhere.root {p : ProofTree} (h : p.Everywhere P) : P p := h [] p rfl

/-- What holds of all nodes holds of the root and of all nodes of the
premises. -/
theorem everywhere_iff {p : ProofTree} :
    p.Everywhere P ↔ P p ∧ ∀ q ∈ p.premises, q.Everywhere P := by
  constructor
  · intro h
    refine ⟨h.root, fun q hq place node hnode => ?_⟩
    obtain ⟨i, hi⟩ := List.mem_iff_getElem?.mp hq
    exact h (i :: place) node (nodeAt?_cons_eq_some_iff.mpr ⟨q, hi, hnode⟩)
  · rintro ⟨hroot, hpremises⟩ place node hnode
    cases place with
    | nil => exact Option.some.inj hnode ▸ hroot
    | cons i place =>
      obtain ⟨q, hq, hnode⟩ := nodeAt?_cons_eq_some_iff.mp hnode
      exact hpremises q (List.mem_of_getElem? hq) place node hnode

theorem Everywhere.pair {p q : ProofTree} (hp : p.Everywhere P) (hq : q.Everywhere P) :
    ∀ r ∈ [p, q], r.Everywhere P :=
  List.forall_mem_cons.mpr ⟨hp, List.forall_mem_singleton.mpr hq⟩

theorem nodeAt?_mapNumbers (new : Int → Option Int) (p : ProofTree) (place : List Nat) :
    (p.mapNumbers new).nodeAt? place = (p.nodeAt? place).map (mapNumbers new) := by
  induction place generalizing p with
  | nil => rfl
  | cons i place ih =>
    obtain ⟨claim, rule, premises, reference, discharges⟩ := p
    rw [mapNumbers_mk, nodeAt?, nodeAt?, List.getElem?_map]
    cases premises[i]? with
    | none => rfl
    | some q => exact ih q

/-- What does not depend on the numbers of a node is not lost when they are
replaced. -/
theorem Everywhere.mapNumbers {new : Int → Option Int} {p : ProofTree} (h : p.Everywhere P)
    (hP : ∀ node, P node → P (node.mapNumbers new)) : (p.mapNumbers new).Everywhere P := by
  intro place node hnode
  rw [nodeAt?_mapNumbers] at hnode
  obtain ⟨old, hold, rfl⟩ := Option.map_eq_some_iff.mp hnode
  exact hP old (h place old hold)

end Everywhere

/-! ## Scopes -/

theorem opening_eq_some_iff {f : Option Formula} {slot : Option (Option Int)} {a : Assumption} :
    opening f slot = some a ↔ f = some a.formula ∧ slot = some (some a.number) := by
  obtain ⟨formula, number⟩ := a
  rcases f with _ | f <;> rcases slot with _ | _ | n <;> simp [opening]

/-- What the check opens for a premise is what the node opens for it. -/
theorem HasShape.openings_eq_iff {p : ProofTree} (h : p.HasShape) {i : Nat} {a : Assumption} :
    p.openings[i]?.join = some a ↔ p.Opens i a := by
  constructor
  · intro ha
    cases h with
    | impIntro =>
      match i with
      | 0 =>
        obtain ⟨hf, hn⟩ := opening_eq_some_iff.mp ha
        obtain rfl := Option.some.inj hf
        exact .impIntro rfl rfl hn
      | i + 1 => cases ha
    | orElim hc hpq =>
      match i with
      | 0 => cases ha
      | 1 =>
        obtain ⟨hf, hn⟩ := opening_eq_some_iff.mp ha
        obtain rfl := Option.some.inj (hc ▸ hf)
        exact .leftCase rfl rfl hc hn
      | 2 =>
        obtain ⟨hf, hn⟩ := opening_eq_some_iff.mp ha
        obtain rfl := Option.some.inj (hc ▸ hf)
        exact .rightCase rfl rfl hc hn
      | i + 3 => cases ha
    | _ => cases ha
  · rintro (⟨hrule, hclaim, hn⟩ | ⟨hrule, hd, hclaim, hn⟩ | ⟨hrule, hd, hclaim, hn⟩)
    · simp [openings, hrule, hclaim, hn, opening, Formula.firstPart]
    · obtain ⟨ps, hps⟩ := List.head?_eq_some_iff.mp (List.head?_eq_getElem? ▸ hd)
      simp [openings, hrule, hps, hclaim, hn, opening, Formula.firstPart]
    · obtain ⟨ps, hps⟩ := List.head?_eq_some_iff.mp (List.head?_eq_getElem? ▸ hd)
      simp [openings, hrule, hps, hclaim, hn, opening, Formula.secondPart?]

/-- A node that has the shape of its rule has what its scopes are read off. -/
theorem HasShape.scopes_isSome {p : ProofTree} (h : p.HasShape) : p.scopes?.isSome := by
  have hscopes : p.hasScopes := by
    cases h with
    | orElim hc hpq => simp [hasScopes, hc, Formula.isBinary]
    | _ => rfl
  simp [scopes?, hscopes]

/-! ## Below the root

A place below the root is a place of a premise, and what is live there is what
is live in the premise, under the context that the root opens for it. -/

theorem mem_opened {ctx : Context} {o : Option Assumption} {a : Assumption} :
    a ∈ (ctx.opened o).assumptions ↔ a ∈ ctx.assumptions ∨ o = some a := by
  cases o with
  | none => simp
  | some b => simp [Context.opened, eq_comm]

theorem liveAt_root {ctx : Context} {p : ProofTree} {a : Assumption} :
    p.LiveAt ctx [] a ↔ a ∈ ctx.assumptions := by
  simp [LiveAt]

/-- What is live at a place of a premise was opened by the root for that premise,
or is live there in the premise itself. -/
theorem liveAt_premise {ctx : Context} {p q : ProofTree} (hp : p.HasShape) {i : Nat}
    (hq : p.premises[i]? = some q) {place : List Nat} {a : Assumption} :
    p.LiveAt ctx (i :: place) a ↔ q.LiveAt (ctx.opened p.openings[i]?.join) place a := by
  unfold LiveAt
  rw [mem_opened, hp.openings_eq_iff, or_assoc]
  refine or_congr_right ⟨?_, ?_⟩
  · rintro ⟨above, j, below, node, hplace, hnode, hopens⟩
    -- the node that opened it is the root, or stands in the premise
    cases above with
    | nil =>
      obtain ⟨rfl, rfl⟩ := List.cons.inj hplace
      obtain rfl := Option.some.inj hnode
      exact Or.inl hopens
    | cons k above =>
      obtain ⟨rfl, rfl⟩ := List.cons.inj hplace
      obtain ⟨q', hq', hnode⟩ := nodeAt?_cons_eq_some_iff.mp hnode
      obtain rfl := Option.some.inj (hq.symm.trans hq')
      exact Or.inr ⟨above, j, below, node, rfl, hnode, hopens⟩
  · rintro (hopens | ⟨above, j, below, node, rfl, hnode, hopens⟩)
    · exact ⟨[], i, place, p, rfl, rfl, hopens⟩
    · exact ⟨i :: above, j, below, node, rfl,
        nodeAt?_cons_eq_some_iff.mpr ⟨q, hq, hnode⟩, hopens⟩

/-- **A grounded tree, read off its root.** -/
theorem grounded_iff {ctx : Context} {p : ProofTree} :
    Grounded ctx p ↔ p.HasShape
      ∧ (p.rule = .assumption →
          ∃ a ∈ ctx.assumptions, a.formula = p.claim ∧ p.reference = some a.number)
      ∧ ∀ s ∈ pairUp p.premises p.openings, Grounded (ctx.opened s.2) s.1 := by
  constructor
  · intro h
    have hshape : p.HasShape := h.shape [] p rfl
    refine ⟨hshape, fun hrule => ?_, fun s hs => ?_⟩
    · obtain ⟨a, hlive, ha⟩ := h.live [] p rfl hrule
      exact ⟨a, liveAt_root.mp hlive, ha⟩
    · obtain ⟨i, hq, ho⟩ := mem_pairUp_iff.mp hs
      have hbelow : ∀ {place node}, s.1.nodeAt? place = some node →
          p.nodeAt? (i :: place) = some node := fun hnode =>
        nodeAt?_cons_eq_some_iff.mpr ⟨s.1, hq, hnode⟩
      refine ⟨fun place node hnode => h.shape _ node (hbelow hnode),
        fun place leaf hleaf hrule => ?_⟩
      obtain ⟨a, hlive, ha⟩ := h.live _ leaf (hbelow hleaf) hrule
      exact ⟨a, ho ▸ (liveAt_premise hshape hq).mp hlive, ha⟩
  · rintro ⟨hshape, hleaf, hprem⟩
    have hpremise : ∀ {i q}, p.premises[i]? = some q →
        Grounded (ctx.opened p.openings[i]?.join) q := fun hq =>
      hprem (_, _) (mem_pairUp_iff.mpr ⟨_, hq, rfl⟩)
    refine ⟨fun place node hnode => ?_, fun place leaf hnode hrule => ?_⟩
    · cases place with
      | nil => exact Option.some.inj hnode ▸ hshape
      | cons i place =>
        obtain ⟨q, hq, hnode⟩ := nodeAt?_cons_eq_some_iff.mp hnode
        exact (hpremise hq).shape place node hnode
    · cases place with
      | nil =>
        obtain rfl := Option.some.inj hnode
        obtain ⟨a, hmem, ha⟩ := hleaf hrule
        exact ⟨a, liveAt_root.mpr hmem, ha⟩
      | cons i place =>
        obtain ⟨q, hq, hnode⟩ := nodeAt?_cons_eq_some_iff.mp hnode
        obtain ⟨a, hlive, ha⟩ := (hpremise hq).live place leaf hnode hrule
        exact ⟨a, (liveAt_premise hshape hq).mpr hlive, ha⟩

/-- **Derivations are the trees that are well formed at every place.** -/
theorem isDerivation_iff_grounded {ctx : Context} {p : ProofTree} :
    IsDerivation ctx p ↔ Grounded ctx p := by
  induction p using ProofTree.induction generalizing ctx with
  | node p ih =>
    rw [grounded_iff]
    constructor
    · intro h
      obtain ⟨hfits, hleaf, hprem⟩ := h.root
      exact ⟨fits_iff_hasShape.mp hfits, hleaf, fun s hs =>
        (ih s.1 (mem_of_mem_pairUp hs)).mp (hprem s hs)⟩
    · rintro ⟨hshape, hleaf, hprem⟩
      exact isDerivation_of_root hshape.fits hleaf fun s hs =>
        (ih s.1 (mem_of_mem_pairUp hs)).mpr (hprem s hs)

/-! ## What the check decides -/

/-- Where leaves discharge nothing, inferences discharge all that is discharged. -/
theorem inferenceDischarges_eq_allDischarged {p : ProofTree}
    (h : ∀ leaf ∈ p.leaves, leaf.discharged = []) : p.inferenceDischarges = p.allDischarged := by
  induction p using ProofTree.induction with
  | node p ih =>
    have hroot : (if p.rule = .assumption then [] else p.discharged) = p.discharged := by
      split
      · rename_i hrule
        exact (h p (by rw [leaves_eq, if_pos hrule]; exact List.mem_cons_self)).symm
      · rfl
    have hpremises : ∀ q ∈ p.premises, q.inferenceDischarges = q.allDischarged := fun q hq =>
      ih q hq fun leaf hleaf => h leaf (leaves_subset hq hleaf)
    rw [inferenceDischarges_eq, allDischarged_eq, hroot, inferenceDischargesOf_eq,
      allDischargedOf_eq, List.flatMap_congr hpremises]

theorem check_eq_ok_iff_conforms {p : ProofTree} {ctx : Context} (hctx : ctx.numbers.Nodup) :
    p.check ctx = .ok () ↔ Conforms ctx p p.inferenceDischarges := by
  rw [check_eq_ok_iff_fresh hctx, isDerivation_iff_grounded]
  exact ⟨fun ⟨hg, hf⟩ => ⟨hg, hf.nodup, hf.notLive⟩,
    fun h => ⟨h.toGrounded, hctx, h.distinct, nofun, h.unused⟩⟩

/-- **What the check decides**, under distinct numbers. It accepts the trees that
conform when only inferences count as discharging, and refuses all others with
a violation. Where leaves carry no discharges these are the trees that conform.
It never stops at a node for want of a scope, as a node that fits its rule has
them all. -/
theorem check_decides (p : ProofTree) {ctx : Context} (hctx : ctx.numbers.Nodup) :
    (p.check ctx = .ok () ↔ Conforms ctx p p.inferenceDischarges)
      ∧ (¬ Conforms ctx p p.inferenceDischarges → ∃ v, p.check ctx = .error v)
      ∧ ((∀ leaf ∈ p.leaves, leaf.discharged = []) →
          (p.check ctx = .ok () ↔ Conforms ctx p p.allDischarged))
      ∧ ∀ place node, p.nodeAt? place = some node → node.fits → node.scopes?.isSome := by
  have haccepts := check_eq_ok_iff_conforms (p := p) hctx
  refine ⟨haccepts, fun hnot => ?_, fun hleaves => ?_, fun _ node _ hfits => ?_⟩
  · cases hcheck : p.check ctx with
    | ok _ => exact absurd (haccepts.mp hcheck) hnot
    | error v => exact ⟨v, rfl⟩
  · rw [haccepts, inferenceDischarges_eq_allDischarged hleaves]
  · exact (fits_iff_hasShape.mp hfits).scopes_isSome

/-- A proof of `A → A` that discharges the number given. -/
def identityTree (n : Int) : ProofTree :=
  ⟨.imp (.atom "A") (.atom "A"), .impIntro, [⟨.atom "A", .assumption, [], some n, []⟩], none,
    [some n]⟩

/-- Under a context that has the number 1, the identity may discharge 2 and may
not discharge 1. -/
theorem check_decides_identityTree :
    Conforms ⟨[⟨.atom "B", 1⟩]⟩ (identityTree 2) [2]
      ∧ ¬ Conforms ⟨[⟨.atom "B", 1⟩]⟩ (identityTree 1) [1] := by
  have hctx : (Context.mk [⟨.atom "B", 1⟩]).numbers.Nodup := by decide
  have hleaves : ∀ n, ∀ leaf ∈ (identityTree n).leaves, leaf.discharged = [] := by
    intro n leaf hleaf
    obtain rfl := List.mem_singleton.mp hleaf
    rfl
  constructor
  · exact ((check_decides (identityTree 2) hctx).2.2.1 (hleaves 2)).mp (by decide +kernel)
  · intro h
    have hok := ((check_decides (identityTree 1) hctx).2.2.1 (hleaves 1)).mpr h
    exact absurd hok (by decide +kernel)

/-- **A leaf may discharge a number in use**: the check accepts it, and it does
not conform. -/
theorem check_ok_of_discharging_leaf :
    ProofTree.check ⟨.atom "A", .assumption, [], some 1, [some 1]⟩ ⟨[⟨.atom "A", 1⟩]⟩ = .ok ()
      ∧ ¬ Conforms ⟨[⟨.atom "A", 1⟩]⟩ ⟨.atom "A", .assumption, [], some 1, [some 1]⟩
        (allDischarged ⟨.atom "A", .assumption, [], some 1, [some 1]⟩) := by
  refine ⟨by decide +kernel, fun h => ?_⟩
  exact h.unused 1 (by decide) (by decide)

end ProofTree

end NaturalDeduction
