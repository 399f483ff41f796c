import NaturalDeduction.Proofs.CheckSpecification
import NaturalDeduction.Proofs.NodeLines

/-!
# Where the bars of a drawing are drawn

The plain drawing is made from the leaves up: the lines of a premise get two
characters in front of them at every node on the way to the root, and in this
the first line of a premise is treated unlike the others, and the last premise
unlike those before it. What a line has in front of it in the end can be said
without going through all this, from the place of its node alone
(`ProofTree.margin`). There is a pair of characters for each node above it
except the root, from the top down, and it is a bar exactly if that node is
followed by another premise; after them there is the plus sign of the node
itself.

The lines come in the order of the places (`ProofTree.nodes`), which is that of
`List.Lex`: a node before all that is above it in the proof, and the nodes of
one premise before those of the next.
-/

namespace NaturalDeduction.ProofTree

/-! ## The nodes in order -/

mutual

/-- **The nodes of a tree and their places**, each node before its premises. -/
def nodes : ProofTree → List (List Nat × ProofTree)
  | ⟨claim, rule, premises, reference, discharges⟩ =>
    ([], ⟨claim, rule, premises, reference, discharges⟩) :: nodesOf 0 premises

/-- The nodes of a list of premises, the first of which is the `i`-th. -/
def nodesOf (i : Nat) : List ProofTree → List (List Nat × ProofTree)
  | [] => []
  | p :: ps => p.nodes.map (fun e => (i :: e.1, e.2)) ++ nodesOf (i + 1) ps

end

theorem nodes_eq (p : ProofTree) : p.nodes = ([], p) :: nodesOf 0 p.premises := by
  obtain ⟨claim, rule, premises, reference, discharges⟩ := p
  rw [nodes]

theorem mem_nodesOf_iff {ps : List ProofTree} {i : Nat} {place : List Nat} {node : ProofTree} :
    (place, node) ∈ nodesOf i ps ↔
      ∃ k below, place = (i + k) :: below ∧ ∃ q, ps[k]? = some q ∧ (below, node) ∈ q.nodes := by
  induction ps generalizing i with
  | nil => simp [nodesOf]
  | cons p ps ih =>
    rw [nodesOf, List.mem_append, ih]
    constructor
    · rintro (h | ⟨k, below, rfl, q, hq, hnode⟩)
      · obtain ⟨⟨below, node'⟩, hnode, heq⟩ := List.mem_map.mp h
        obtain ⟨rfl, rfl⟩ := Prod.mk.inj heq
        exact ⟨0, below, rfl, p, rfl, hnode⟩
      · exact ⟨k + 1, below, by rw [Nat.add_assoc, Nat.add_comm 1 k], q, hq, hnode⟩
    · rintro ⟨k, below, rfl, q, hq, hnode⟩
      cases k with
      | zero =>
        obtain rfl := Option.some.inj hq
        exact .inl (List.mem_map.mpr ⟨(below, node), hnode, rfl⟩)
      | succ k =>
        exact .inr ⟨k, below, by rw [Nat.add_assoc, Nat.add_comm 1 k], q, hq, hnode⟩

/-- **Each node stands in the list with its own place**, and nothing else does. -/
theorem mem_nodes_iff {p node : ProofTree} {place : List Nat} :
    (place, node) ∈ p.nodes ↔ p.nodeAt? place = some node := by
  induction p using ProofTree.induction generalizing place with
  | node p ih =>
    rw [nodes_eq, List.mem_cons, mem_nodesOf_iff]
    cases place with
    | nil => simp [nodeAt?, eq_comm]
    | cons i place =>
      rw [nodeAt?_cons_eq_some_iff]
      simp only [Prod.mk.injEq, reduceCtorEq, false_and, false_or, Nat.zero_add, List.cons.injEq]
      constructor
      · rintro ⟨k, below, ⟨rfl, rfl⟩, q, hq, hnode⟩
        exact ⟨q, hq, (ih q (List.mem_of_getElem? hq)).mp hnode⟩
      · rintro ⟨q, hq, hnode⟩
        exact ⟨i, place, ⟨rfl, rfl⟩, q, hq, (ih q (List.mem_of_getElem? hq)).mpr hnode⟩

/-- What holds of all nodes, said of the list. -/
theorem everywhere_iff_nodes {P : ProofTree → Prop} {p : ProofTree} :
    p.Everywhere P ↔ ∀ e ∈ p.nodes, P e.2 :=
  ⟨fun h e he => h e.1 e.2 (mem_nodes_iff.mp he), fun h place node hnode =>
    h (place, node) (mem_nodes_iff.mpr hnode)⟩

theorem pairwise_nodesOf {ps : List ProofTree}
    (h : ∀ p ∈ ps, p.nodes.Pairwise fun e f => List.Lex (· < ·) e.1 f.1) (i : Nat) :
    (nodesOf i ps).Pairwise fun e f => List.Lex (· < ·) e.1 f.1 := by
  induction ps generalizing i with
  | nil => exact .nil
  | cons p ps ih =>
    rw [List.forall_mem_cons] at h
    refine List.pairwise_append.mpr ⟨List.pairwise_map.mpr (h.1.imp .cons), ih h.2 (i + 1), ?_⟩
    rintro e he ⟨place, node⟩ hf
    obtain ⟨e', -, rfl⟩ := List.mem_map.mp he
    obtain ⟨k, below, rfl, -⟩ := mem_nodesOf_iff.mp hf
    exact .rel (by omega)

/-- **The nodes stand in pre-order.** -/
theorem pairwise_nodes (p : ProofTree) :
    p.nodes.Pairwise fun e f => List.Lex (· < ·) e.1 f.1 := by
  induction p using ProofTree.induction with
  | node p ih =>
    rw [nodes_eq]
    refine List.pairwise_cons.mpr ⟨?_, pairwise_nodesOf ih 0⟩
    rintro ⟨place, node⟩ hmem
    obtain ⟨k, below, rfl, -⟩ := mem_nodesOf_iff.mp hmem
    exact .nil

/-! ## Margins -/

/-- **Whether a node is followed by another premise** of the same node. -/
def hasLaterSibling (p : ProofTree) (place : List Nat) : Bool :=
  match p.nodeAt? place.dropLast, place.getLast? with
  | some parent, some i => i + 1 < parent.premises.length
  | _, _ => false

/-- The places above a place, from the top down, without the root and without
the place itself. -/
def ancestors (place : List Nat) : List (List Nat) :=
  (List.range (place.length - 1)).map fun k => place.take (k + 1)

/-- **What stands in front of the line of a node**: nothing for the root, and
for any other node a pair of characters for each node above it, and a plus
sign. -/
def margin (p : ProofTree) : List Nat → String
  | [] => ""
  | i :: place =>
    String.join ((ancestors (i :: place)).map fun above =>
      if p.hasLaterSibling above then "| " else "  ") ++ "+ "

theorem ancestors_cons_cons (i j : Nat) (place : List Nat) :
    ancestors (i :: j :: place) = [i] :: (ancestors (j :: place)).map (i :: ·) := by
  simp [ancestors, List.range_succ_eq_map]

section Premise

variable {p q : ProofTree} {i : Nat}

theorem hasLaterSibling_premise (hq : p.premises[i]? = some q) (j : Nat) (place : List Nat) :
    p.hasLaterSibling (i :: j :: place) = q.hasLaterSibling (j :: place) := by
  rw [hasLaterSibling, List.dropLast_cons_cons, nodeAt?_cons hq, List.getLast?_cons_cons,
    hasLaterSibling]

/-- Below a premise the margin is that of the premise, with one more pair of
characters in front. -/
theorem margin_premise (hq : p.premises[i]? = some q) (j : Nat) (place : List Nat) :
    p.margin (i :: j :: place)
      = (if i + 1 < p.premises.length then "| " else "  ") ++ q.margin (j :: place) := by
  have hfirst : p.hasLaterSibling [i] = decide (i + 1 < p.premises.length) := rfl
  have hbelow : ∀ above ∈ ancestors (j :: place),
      p.hasLaterSibling (i :: above) = q.hasLaterSibling above := by
    intro above habove
    obtain ⟨k, -, rfl⟩ := List.mem_map.mp habove
    exact hasLaterSibling_premise hq j (place.take k)
  rw [margin, margin, ancestors_cons_cons, List.map_cons, String.join_cons, List.map_map,
    String.append_assoc]
  simp only [hfirst, decide_eq_true_eq]
  congr 3
  exact List.map_congr_left fun above habove => by
    rw [Function.comp_apply, hbelow above habove]

end Premise

/-- The line of a node, with its margin. -/
def lineAt (p : ProofTree) (place : List Nat) (node : ProofTree) : String :=
  p.margin place ++ node.plainLine

/-! ## The drawing -/

/-- The lines of a premise hung off its node are its lines in the whole
drawing. -/
theorem hang_plainLines {p q : ProofTree} {i : Nat} (hq : p.premises[i]? = some q) {last : Bool}
    (hlast : last = true ↔ ¬ i + 1 < p.premises.length)
    (hlines : q.plainLines = q.nodes.map fun e => q.lineAt e.1 e.2) :
    hang last q.plainLines = q.nodes.map fun e => p.lineAt (i :: e.1) e.2 := by
  have hbar : (if last then "  " else "| ") = if i + 1 < p.premises.length then "| " else "  " := by
    by_cases hlater : i + 1 < p.premises.length <;> simp_all
  rw [hlines, nodes_eq, List.map_cons, List.map_cons, hang, hbar, List.map_map]
  refine congrArg₂ List.cons ?_ ?_
  · simp [lineAt, margin, ancestors]
  · refine List.map_congr_left fun e he => ?_
    obtain ⟨place, node⟩ := e
    obtain ⟨k, below, rfl, -⟩ := mem_nodesOf_iff.mp he
    rw [Function.comp_apply, lineAt, lineAt, margin_premise hq, String.append_assoc]

/-- The lines below a node are those of the nodes below it. -/
theorem plainLinesBelow_eq {p : ProofTree} {ps : List ProofTree} {i : Nat}
    (hps : p.premises.drop i = ps)
    (h : ∀ q ∈ ps, q.plainLines = q.nodes.map fun e => q.lineAt e.1 e.2) :
    plainLinesBelow ps = (nodesOf i ps).map fun e => p.lineAt e.1 e.2 := by
  induction ps generalizing i with
  | nil => rfl
  | cons q ps ih =>
    rw [List.forall_mem_cons] at h
    have hq : p.premises[i]? = some q := by
      rw [← List.head?_drop, hps, List.head?_cons]
    have hrest : p.premises.drop (i + 1) = ps := by
      rw [← List.tail_drop, hps, List.tail_cons]
    have hlast : ps.isEmpty = true ↔ ¬ i + 1 < p.premises.length := by
      rw [List.isEmpty_iff, ← hrest, List.drop_eq_nil_iff, Nat.not_lt]
    rw [plainLinesBelow, nodesOf, List.map_append, List.map_map, ih hrest h.2,
      hang_plainLines hq hlast h.1]
    rfl

theorem plainLines_eq_cons (p : ProofTree) :
    p.plainLines = p.plainLine :: plainLinesBelow p.premises := by
  obtain ⟨claim, rule, premises, reference, discharges⟩ := p
  rw [plainLines]

/-- **Every line of the drawing is known from the place of its node.** -/
theorem plainLines_eq (p : ProofTree) :
    p.plainLines = p.nodes.map fun e => p.lineAt e.1 e.2 := by
  induction p using ProofTree.induction with
  | node p ih =>
    have hroot : p.lineAt [] p = p.plainLine := String.empty_append
    rw [plainLines_eq_cons, nodes_eq, List.map_cons, hroot, plainLinesBelow_eq List.drop_zero ih]

theorem oneLine_join {parts : List String} (h : ∀ t ∈ parts, Text.OneLine t) :
    Text.OneLine (String.join parts) := by
  simpa [Text.OneLine, String.toList_join] using h

theorem oneLine_margin (p : ProofTree) (place : List Nat) : Text.OneLine (p.margin place) := by
  cases place with
  | nil => exact (by decide : Text.OneLine "")
  | cons i place =>
    refine Text.oneLine_append.mpr ⟨oneLine_join fun t ht => ?_, by decide⟩
    obtain ⟨above, -, rfl⟩ := List.mem_map.mp ht
    split <;> decide

/-- The drawing can be taken apart into its lines, up to the empty one after
the last newline, if no claim has a newline in it. -/
theorem lines_drawPlain {p : ProofTree}
    (hclaims : p.Everywhere fun node => Text.OneLine node.claim.plain) :
    Text.lines p.drawPlain = p.plainLines ++ [""] := by
  refine Text.lines_joinLines_newline (by simp [plainLines_eq_cons]) fun l hl => ?_
  rw [plainLines_eq] at hl
  obtain ⟨⟨place, node⟩, hmem, rfl⟩ := List.mem_map.mp hl
  refine Text.oneLine_append.mpr ⟨p.oneLine_margin place, oneLine_plainLine ?_⟩
  exact hclaims place node (mem_nodes_iff.mp hmem)

/-- **The bars of the drawing stand where they belong.** The drawing has one
line for each node, in pre-order, and the line of a node is its own line behind
the margin of its place. These are the lines of the text, up to the empty one
after the last newline, if no claim has a newline in it. -/
theorem drawPlain_lines (p : ProofTree) :
    p.drawPlain = Text.joinLines (p.nodes.map fun e => p.margin e.1 ++ e.2.plainLine) ++ "\n"
    ∧ ((p.Everywhere fun node => Text.OneLine node.claim.plain) →
      Text.lines p.drawPlain
        = (p.nodes.map fun e => p.margin e.1 ++ e.2.plainLine) ++ [""])
    ∧ (∀ place node, (place, node) ∈ p.nodes ↔ p.nodeAt? place = some node)
    ∧ p.nodes.Pairwise (fun e f => List.Lex (· < ·) e.1 f.1) := by
  have hlines : p.plainLines = p.nodes.map fun e => p.margin e.1 ++ e.2.plainLine :=
    p.plainLines_eq
  refine ⟨?_, fun hclaims => ?_, fun place node => mem_nodes_iff, p.pairwise_nodes⟩
  · rw [drawPlain, hlines]
  · rw [lines_drawPlain hclaims, hlines]

/-- A proof of `B ∨ A` from `A ∨ B`, by cases. -/
def swapCases : ProofTree :=
  ⟨.or (.atom "B") (.atom "A"), .orElim,
    [.ofAssumption ⟨.or (.atom "A") (.atom "B"), 1⟩,
      infer (.or (.atom "B") (.atom "A")) .orIntroRight [.ofAssumption ⟨.atom "A", 2⟩],
      infer (.or (.atom "B") (.atom "A")) .orIntroLeft [.ofAssumption ⟨.atom "B", 3⟩]],
    none, [some 2, some 3]⟩

/-- A proof of `A ∨ B → B ∨ A`. -/
def swapTree : ProofTree :=
  ⟨.imp (.or (.atom "A") (.atom "B")) (.or (.atom "B") (.atom "A")), .impIntro, [swapCases], none,
    [some 1]⟩

/-- The first case has a bar beside it and the second has not. -/
theorem drawPlain_lines_swapTree :
    Text.lines swapTree.drawPlain =
      ["A ∨ B → B ∨ A : 1",
        "+ B ∨ A : 2, 3",
        "  + A ∨ B from: 1",
        "  + B ∨ A",
        "  | + A from: 2",
        "  + B ∨ A",
        "    + B from: 3",
        ""] := by
  have hclaims : swapTree.Everywhere fun node => Text.OneLine node.claim.plain :=
    everywhere_iff_nodes.mpr (by decide +kernel)
  rw [(drawPlain_lines swapTree).2.1 hclaims]
  decide +kernel

end NaturalDeduction.ProofTree
