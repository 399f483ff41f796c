import NaturalDeduction.Proofs.CheckSpecification

/-!
# What the leaves of a proof are bound to

A leaf refers to an assumption by a number, and the number is all it has. What
it means by it is an assumption of the context or one that a node above has
opened, in one of its slots for discharges (`ProofTree.Origin`). In a tree that
the check accepts every leaf has an origin and no leaf has two
(`ProofTree.Anchored`), so that the origins say what the tree means and the
numbers do not matter.

Two things are needed for this. A context may have a number twice, and then
only the oldest of the assumptions can be referred to. The check does not tell
a context from the one that has those alone (`ProofTree.check_visible`), and
about that one everything is known. And a slot is found by its number, as the
numbers discharged are those in the slots of the tree, one after the other
(`ProofTree.allDischarged_eq_filterMap`).
-/

namespace NaturalDeduction

/-! ## Numbers that occur twice -/

namespace Context

/-- The first assumption of each number. -/
def firstOfEach : List Assumption → List Assumption
  | [] => []
  | a :: as => a :: (firstOfEach as).filter (·.number ≠ a.number)

/-- **The assumptions that can be referred to**: of those that share a number,
the oldest. -/
def visible (ctx : Context) : Context := ⟨firstOfEach ctx.assumptions⟩

theorem find?_firstOfEach (as : List Assumption) (n : Int) :
    (firstOfEach as).find? (·.number = n) = as.find? (·.number = n) := by
  induction as with
  | nil => rfl
  | cons a as ih =>
    rw [firstOfEach, List.find?_cons, List.find?_cons, List.find?_filter, ← ih]
    by_cases ha : a.number = n
    · simp [ha]
    · -- what is left out has another number than the one looked for
      have hkept : (fun b : Assumption => decide (decide (b.number ≠ a.number) = true ∧
          decide (b.number = n) = true)) = fun b => decide (b.number = n) := by
        funext b
        by_cases hb : b.number = n <;> simp [hb, Ne.symm ha]
      rw [hkept]

theorem get_visible (ctx : Context) (n : Int) : ctx.visible.get n = ctx.get n :=
  find?_firstOfEach ctx.assumptions n

theorem mem_numbers_visible {ctx : Context} {n : Int} :
    n ∈ ctx.visible.numbers ↔ n ∈ ctx.numbers := by
  rw [← get_isSome_iff, ← get_isSome_iff, get_visible]

theorem nodup_numbers_visible (ctx : Context) : ctx.visible.numbers.Nodup := by
  show ((firstOfEach ctx.assumptions).map (·.number)).Nodup
  induction ctx.assumptions with
  | nil => exact List.nodup_nil
  | cons a as ih =>
    rw [firstOfEach, List.map_cons, List.nodup_cons]
    refine ⟨fun hmem => ?_, ih.sublist (List.filter_sublist.map _)⟩
    obtain ⟨b, hb, hnumber⟩ := List.mem_map.mp hmem
    exact of_decide_eq_true (List.mem_filter.mp hb).2 hnumber

theorem get_opened (ctx : Context) (o : Option Assumption) (n : Int) :
    (ctx.opened o).get n = (ctx.get n).or (o.toList.find? (·.number = n)) := by
  cases o with
  | none => exact (Option.or_none).symm
  | some a => exact List.find?_append

end Context

namespace ProofTree

/-- Premises are accepted under another context if each of them is. -/
theorem visitEach_of_visit {ctx ctx' : Context} {ps : List ProofTree}
    (h : ∀ q ∈ ps, ∀ o used u, visit (ctx.opened o) used q = .ok u →
      visit (ctx'.opened o) used q = .ok u)
    {os : List (Option Assumption)} {used u : List Int}
    (hvisit : visitEach ctx used ps os = .ok u) : visitEach ctx' used ps os = .ok u := by
  induction ps generalizing os used with
  | nil => exact hvisit
  | cons q ps ih =>
    obtain ⟨v, hq, hps⟩ := visitEach_cons_eq_ok_iff.mp hvisit
    exact visitEach_cons_eq_ok_iff.mpr ⟨v, h q List.mem_cons_self _ _ _ hq,
      ih (fun r hr => h r (List.mem_cons_of_mem q hr)) hps⟩

/-- A visit depends on what numbers are looked up as, and on nothing else of
the context. -/
theorem visit_of_get {p : ProofTree} {ctx ctx' : Context} (hget : ∀ n, ctx.get n = ctx'.get n)
    {used u : List Int} (h : visit ctx used p = .ok u) : visit ctx' used p = .ok u := by
  induction p using ProofTree.induction generalizing ctx ctx' used u with
  | node p ih =>
    obtain ⟨hfits, ⟨hrule, hused, a, hclaim, n, href, ha⟩ | ⟨hrule, v, hdischarge, hprem⟩⟩ :=
      visit_eq_ok_iff.mp h
    · exact visit_eq_ok_iff.mpr
        ⟨hfits, .inl ⟨hrule, hused, a, hclaim, n, href, (hget n).symm.trans ha⟩⟩
    · obtain ⟨hnd, hnew, hv⟩ := discharge_eq_ok_iff.mp hdischarge
      have hdischarge' : discharge ctx' p.discharged used = .ok v := by
        refine discharge_eq_ok_iff.mpr ⟨hnd, fun n hn => ⟨(hnew n hn).1, ?_⟩, hv⟩
        rw [← Context.get_isSome_iff, ← hget, Context.get_isSome_iff]
        exact (hnew n hn).2
      refine visit_eq_ok_iff.mpr ⟨hfits, .inr ⟨hrule, v, hdischarge', ?_⟩⟩
      refine visitEach_of_visit (fun q hq o used u => ih q hq fun n => ?_) hprem
      rw [Context.get_opened, Context.get_opened, hget]

theorem check_of_get {p : ProofTree} {ctx ctx' : Context} (hget : ∀ n, ctx.get n = ctx'.get n)
    (h : p.check ctx = .ok ()) : p.check ctx' = .ok () := by
  unfold check at h ⊢
  cases hv : visit ctx [] p with
  | ok u => rw [visit_of_get hget hv]
  | error v =>
    rw [hv] at h
    cases h

/-- **The check sees the oldest assumption of each number only.** -/
theorem check_visible {p : ProofTree} {ctx : Context} :
    p.check ctx.visible = .ok () ↔ p.check ctx = .ok () :=
  ⟨check_of_get ctx.get_visible, check_of_get fun n => (ctx.get_visible n).symm⟩

end ProofTree

/-! ## Slots -/

/-- Which discharge of a rule has the number that is opened for a premise, if one
is opened for it. -/
def Rule.slotFor? : (rule : Rule) → (premise : Nat) → Option Nat
  | .impIntro, 0 => some 0
  | .orElim, 1 => some 0
  | .orElim, 2 => some 1
  | _, _ => none

namespace ProofTree

/-- **A slot for a discharge**: the place of a node, and which of its
discharges. -/
structure Slot where
  /-- Where the node stands. -/
  place : List Nat
  /-- Which of its discharges it is. -/
  index : Nat
deriving DecidableEq, Repr

/-- A slot of the `i`-th premise, as a slot of the whole tree. -/
def Slot.under (i : Nat) (s : Slot) : Slot := ⟨i :: s.place, s.index⟩

/-- **The number in a slot**, if it has one. -/
def slotNumber? (p : ProofTree) (s : Slot) : Option Int :=
  (p.nodeAt? s.place).bind fun node => node.discharges[s.index]?.join

mutual

/-- **The slots of a tree**, each node before its premises. -/
def slots : ProofTree → List Slot
  | ⟨_, _, premises, _, discharges⟩ =>
    (List.range discharges.length).map (Slot.mk []) ++ slotsOf 0 premises

/-- The slots of a list of premises, the first of which is the `i`-th. -/
def slotsOf (i : Nat) : List ProofTree → List Slot
  | [] => []
  | p :: ps => p.slots.map (Slot.under i) ++ slotsOf (i + 1) ps

end

theorem slotNumber?_under {p q : ProofTree} {i : Nat} (hq : p.premises[i]? = some q) (s : Slot) :
    p.slotNumber? (s.under i) = q.slotNumber? s := by
  rw [slotNumber?, slotNumber?, Slot.under, nodeAt?_cons hq]

/-- The slots of the premises from the `i`-th on hold what they hold in each
premise by itself. -/
theorem filterMap_slotsOf {p : ProofTree} {ps : List ProofTree} {i : Nat}
    (hps : ∀ k, p.premises[i + k]? = ps[k]?) :
    (slotsOf i ps).filterMap p.slotNumber? =
      ps.flatMap fun q => q.slots.filterMap q.slotNumber? := by
  induction ps generalizing i with
  | nil => rfl
  | cons q ps ih =>
    have hrest : ∀ k, p.premises[i + 1 + k]? = ps[k]? := fun k => by
      rw [Nat.add_assoc, Nat.add_comm 1 k]
      exact hps (k + 1)
    have hq : p.slotNumber? ∘ Slot.under i = q.slotNumber? := funext (slotNumber?_under (hps 0))
    rw [slotsOf, List.filterMap_append, ih hrest, List.filterMap_map, hq, List.flatMap_cons]

theorem filterMap_range_getElem? {α : Type} (l : List (Option α)) :
    (List.range l.length).filterMap (fun i => l[i]?.join) = l.filterMap id := by
  induction l with
  | nil => rfl
  | cons a l ih =>
    rw [List.length_cons, List.range_succ_eq_map, List.filterMap_cons, List.filterMap_map,
      List.filterMap_cons, ← ih]
    rfl

/-- **The numbers discharged are those in the slots**, in the order in which the
tree is read. -/
theorem allDischarged_eq_filterMap (p : ProofTree) :
    p.allDischarged = p.slots.filterMap p.slotNumber? := by
  induction p using ProofTree.induction with
  | node p ih =>
    have hroot : p.slotNumber? ∘ Slot.mk [] = fun i => p.discharges[i]?.join := rfl
    have hpremises : (slotsOf 0 p.premises).filterMap p.slotNumber? =
        p.premises.flatMap allDischarged := by
      rw [filterMap_slotsOf fun k => by rw [Nat.zero_add]]
      exact List.flatMap_congr fun q hq => (ih q hq).symm
    obtain ⟨claim, rule, premises, reference, discharges⟩ := p
    rw [slots, List.filterMap_append, List.filterMap_map, hroot, filterMap_range_getElem?,
      hpremises, allDischarged_mk]

theorem mem_slotsOf {ps : List ProofTree} {q : ProofTree} {i k : Nat} {s : Slot}
    (hq : ps[k]? = some q) (hs : s ∈ q.slots) : s.under (i + k) ∈ slotsOf i ps := by
  induction ps generalizing i k with
  | nil => cases hq
  | cons p ps ih =>
    rw [slotsOf, List.mem_append]
    cases k with
    | zero =>
      obtain rfl := Option.some.inj hq
      exact .inl (List.mem_map_of_mem hs)
    | succ k =>
      rw [Nat.add_comm k 1, ← Nat.add_assoc]
      exact .inr (ih hq)

/-- A slot with a number is a slot of the tree. -/
theorem mem_slots {p : ProofTree} {s : Slot} {n : Int} (h : p.slotNumber? s = some n) :
    s ∈ p.slots := by
  obtain ⟨place, index⟩ := s
  induction place generalizing p with
  | nil =>
    have hlt : index < p.discharges.length := by
      obtain ⟨hlt, -⟩ := List.getElem?_eq_some_iff.mp (Option.join_eq_some_iff.mp h)
      exact hlt
    obtain ⟨claim, rule, premises, reference, discharges⟩ := p
    rw [slots]
    exact List.mem_append_left _ (List.mem_map_of_mem (List.mem_range.mpr hlt))
  | cons i place ih =>
    obtain ⟨node, hnode, hnumber⟩ := Option.bind_eq_some_iff.mp h
    obtain ⟨q, hq, hnode⟩ := nodeAt?_cons_eq_some_iff.mp hnode
    have hs : Slot.mk place index ∈ q.slots :=
      ih (Option.bind_eq_some_iff.mpr ⟨node, hnode, hnumber⟩)
    have hmem := mem_slotsOf (i := 0) hq hs
    rw [Nat.zero_add] at hmem
    obtain ⟨claim, rule, premises, reference, discharges⟩ := p
    rw [slots]
    exact List.mem_append_right _ hmem

theorem mem_allDischarged_iff {p : ProofTree} {n : Int} :
    n ∈ p.allDischarged ↔ ∃ s, p.slotNumber? s = some n := by
  rw [allDischarged_eq_filterMap, List.mem_filterMap]
  exact ⟨fun ⟨s, _, hs⟩ => ⟨s, hs⟩, fun ⟨s, hs⟩ => ⟨s, mem_slots hs, hs⟩⟩

theorem eq_of_nodup_filterMap {α β : Type} {f : α → Option β} {l : List α}
    (h : (l.filterMap f).Nodup) {x y : α} (hx : x ∈ l) (hy : y ∈ l) {b : β} (hfx : f x = some b)
    (hfy : f y = some b) : x = y := by
  induction l with
  | nil => cases hx
  | cons a l ih =>
    have hnotin : ∀ z ∈ l, f z = some b → f a ≠ some b := fun z hz hfz hfa => by
      rw [List.filterMap_cons_some hfa, List.nodup_cons] at h
      exact h.1 (List.mem_filterMap.mpr ⟨z, hz, hfz⟩)
    have hl : (l.filterMap f).Nodup := h.sublist ((List.sublist_cons_self a l).filterMap f)
    obtain rfl | hxl := List.mem_cons.mp hx <;> obtain rfl | hyl := List.mem_cons.mp hy
    · rfl
    · exact absurd hfx (hnotin y hyl hfy)
    · exact absurd hfy (hnotin x hxl hfx)
    · exact ih hl hxl hyl

/-- **A slot is found by its number**, where no number is discharged twice. -/
theorem slot_eq_of_number {p : ProofTree} (h : p.allDischarged.Nodup) {s s' : Slot} {n : Int}
    (hs : p.slotNumber? s = some n) (hs' : p.slotNumber? s' = some n) : s = s' :=
  eq_of_nodup_filterMap (allDischarged_eq_filterMap p ▸ h) (mem_slots hs) (mem_slots hs') hs hs'

/-! ## Leaves -/

/-- **The number that the leaf at a place refers to**, if a leaf stands
there. -/
def leafNumber? (p : ProofTree) (place : List Nat) : Option Int :=
  (p.nodeAt? place).bind fun leaf => if leaf.rule = .assumption then leaf.reference else none

theorem leafNumber?_cons {p q : ProofTree} {i : Nat} (hq : p.premises[i]? = some q)
    (place : List Nat) : p.leafNumber? (i :: place) = q.leafNumber? place := by
  rw [leafNumber?, leafNumber?, nodeAt?_cons hq]

theorem leafNumber?_eq_some_iff {p : ProofTree} {place : List Nat} {n : Int} :
    p.leafNumber? place = some n ↔
      ∃ leaf, p.nodeAt? place = some leaf ∧ leaf.rule = .assumption ∧ leaf.reference = some n := by
  rw [leafNumber?, Option.bind_eq_some_iff]
  simp only [Option.ite_none_right_eq_some]

theorem mem_leaves_iff_nodeAt? {p leaf : ProofTree} :
    leaf ∈ p.leaves ↔ ∃ place, p.nodeAt? place = some leaf ∧ leaf.rule = .assumption := by
  constructor
  · intro h
    induction p using ProofTree.induction with
    | node p ih =>
      rw [leaves_eq, List.mem_append] at h
      obtain h | h := h
      · split at h
        · next hrule =>
          obtain rfl := List.mem_singleton.mp h
          exact ⟨[], rfl, hrule⟩
        · cases h
      · obtain ⟨q, hq, hleaf⟩ := List.mem_flatMap.mp h
        obtain ⟨place, hplace, hrule⟩ := ih q hq hleaf
        obtain ⟨i, hi⟩ := List.mem_iff_getElem?.mp hq
        exact ⟨i :: place, nodeAt?_cons_eq_some_iff.mpr ⟨q, hi, hplace⟩, hrule⟩
  · rintro ⟨place, hplace, hrule⟩
    induction place generalizing p with
    | nil =>
      obtain rfl := Option.some.inj hplace
      rw [leaves_eq, if_pos hrule]
      exact List.mem_cons_self
    | cons i place ih =>
      obtain ⟨q, hq, hplace⟩ := nodeAt?_cons_eq_some_iff.mp hplace
      exact leaves_subset (List.mem_of_getElem? hq) (ih hplace)

theorem mem_referenced_iff {p : ProofTree} {n : Int} :
    n ∈ p.referenced ↔ ∃ place, p.leafNumber? place = some n := by
  simp only [mem_referenced, mem_leaves_iff_nodeAt?, leafNumber?_eq_some_iff]
  exact ⟨fun ⟨leaf, ⟨place, hleaf, hrule⟩, href⟩ => ⟨place, leaf, hleaf, hrule, href⟩,
    fun ⟨place, leaf, hleaf, hrule, href⟩ => ⟨leaf, ⟨place, hleaf, hrule⟩, href⟩⟩

/-! ## Origins -/

/-- **Where an assumption comes from.** -/
inductive Origin where
  /-- It is an assumption of the context. -/
  | assumed (index : Nat)
  /-- A node opened it, under the number in one of its slots. -/
  | opened (slot : Slot)
deriving DecidableEq, Repr

/-- **A slot reaches a place**: the node of the slot stands above the place, and
the slot is the one for the premise on the way. -/
def Reaches (p : ProofTree) (s : Slot) (place : List Nat) : Prop :=
  ∃ node i below, p.nodeAt? s.place = some node ∧ node.rule.slotFor? i = some s.index
    ∧ place = s.place ++ i :: below

/-- **What a leaf refers to**: the first assumption of the context that has the
number of the leaf, or a slot that has this number and reaches the leaf. -/
def RefersTo (ctx : Context) (p : ProofTree) (place : List Nat) : Origin → Prop
  | .assumed index =>
    ∃ n, p.leafNumber? place = some n ∧ ctx.numbers.idxOf? n = some index
  | .opened s =>
    ∃ n, p.leafNumber? place = some n ∧ p.slotNumber? s = some n ∧ p.Reaches s place

/-- **A tree whose leaves are anchored**: the numbers it discharges are distinct
and not in use, and every leaf refers to something. -/
structure Anchored (ctx : Context) (p : ProofTree) : Prop where
  /-- No number is discharged twice. -/
  distinct : p.allDischarged.Nodup
  /-- No number is discharged that the context has. -/
  unused : ∀ n ∈ p.allDischarged, n ∉ ctx.numbers
  /-- Every leaf has an origin. -/
  origin : ∀ place leaf, p.nodeAt? place = some leaf → leaf.rule = .assumption →
    ∃ o, p.RefersTo ctx place o

section Anchored

variable {ctx : Context} {p : ProofTree} {place : List Nat} {o o' : Origin}

theorem RefersTo.exists_leafNumber (h : p.RefersTo ctx place o) :
    ∃ n, p.leafNumber? place = some n := by
  cases o with
  | assumed index =>
    obtain ⟨n, hn, -⟩ := h
    exact ⟨n, hn⟩
  | opened s =>
    obtain ⟨n, hn, -⟩ := h
    exact ⟨n, hn⟩

theorem getElem?_of_idxOf? {ns : List Int} {n : Int} {i : Nat} (h : ns.idxOf? n = some i) :
    ns[i]? = some n := by
  obtain ⟨hi, hn, -⟩ := List.idxOf?_eq_some_iff.mp h
  rw [List.getElem?_eq_getElem hi, hn]

theorem mem_of_idxOf? {ns : List Int} {n : Int} {i : Nat} (h : ns.idxOf? n = some i) : n ∈ ns :=
  List.mem_of_getElem? (getElem?_of_idxOf? h)

/-- **No leaf has two origins.** -/
theorem Anchored.origin_unique (h : Anchored ctx p) (ho : p.RefersTo ctx place o)
    (ho' : p.RefersTo ctx place o') : o = o' := by
  have hseparate : ∀ {n index s}, ctx.numbers.idxOf? n = some index →
      p.slotNumber? s ≠ some n := fun hindex hs =>
    h.unused _ (mem_allDischarged_iff.mpr ⟨_, hs⟩) (mem_of_idxOf? hindex)
  cases o with
  | assumed index =>
    obtain ⟨n, hn, hindex⟩ := ho
    cases o' with
    | assumed index' =>
      obtain ⟨n', hn', hindex'⟩ := ho'
      obtain rfl := Option.some.inj (hn.symm.trans hn')
      rw [Option.some.inj (hindex.symm.trans hindex')]
    | opened s =>
      obtain ⟨n', hn', hs, -⟩ := ho'
      obtain rfl := Option.some.inj (hn.symm.trans hn')
      exact absurd hs (hseparate hindex)
  | opened s =>
    obtain ⟨n, hn, hs, -⟩ := ho
    cases o' with
    | assumed index =>
      obtain ⟨n', hn', hindex⟩ := ho'
      obtain rfl := Option.some.inj (hn.symm.trans hn')
      exact absurd hs (hseparate hindex)
    | opened s' =>
      obtain ⟨n', hn', hs', -⟩ := ho'
      obtain rfl := Option.some.inj (hn.symm.trans hn')
      rw [slot_eq_of_number h.distinct hs hs']

/-- What a node opens for a premise is in the slot for it. -/
theorem Opens.slot {node : ProofTree} {i : Nat} {a : Assumption} (h : node.Opens i a) :
    ∃ index, node.rule.slotFor? i = some index
      ∧ node.discharges[index]? = some (some a.number) := by
  cases h with
  | impIntro hrule _ hn => exact ⟨0, by rw [hrule]; rfl, hn⟩
  | leftCase hrule _ _ hn => exact ⟨0, by rw [hrule]; rfl, hn⟩
  | rightCase hrule _ _ hn => exact ⟨1, by rw [hrule]; rfl, hn⟩

/-- A leaf that refers to a live assumption has an origin. -/
theorem exists_origin_of_liveAt {leaf : ProofTree} {a : Assumption}
    (hleaf : p.nodeAt? place = some leaf) (hrule : leaf.rule = .assumption)
    (href : leaf.reference = some a.number) (hlive : p.LiveAt ctx.visible place a) :
    ∃ o, p.RefersTo ctx place o := by
  have hnumber : p.leafNumber? place = some a.number :=
    leafNumber?_eq_some_iff.mpr ⟨leaf, hleaf, hrule, href⟩
  obtain hmem | ⟨above, i, below, node, rfl, hnode, hopens⟩ := hlive
  · have hmem : a.number ∈ ctx.numbers :=
      Context.mem_numbers_visible.mp (Context.number_mem_numbers hmem)
    obtain ⟨index, hindex⟩ := Option.isSome_iff_exists.mp (List.isSome_idxOf?.mpr hmem)
    exact ⟨.assumed index, a.number, hnumber, hindex⟩
  · obtain ⟨index, hindex, hn⟩ := hopens.slot
    have hslot : p.slotNumber? ⟨above, index⟩ = some a.number := by
      rw [slotNumber?, hnode, Option.bind_some, hn, Option.join_some]
    exact ⟨.opened ⟨above, index⟩, a.number, hnumber, hslot, node, i, below, hnode, hindex, rfl⟩

/-- **The leaves of an accepted tree are anchored**, if they discharge nothing
themselves. -/
theorem anchored_of_check (h : p.check ctx = .ok ())
    (hleaves : ∀ leaf ∈ p.leaves, leaf.discharged = []) : Anchored ctx p := by
  have hconforms : Conforms ctx.visible p p.allDischarged := by
    rw [← inferenceDischarges_eq_allDischarged hleaves]
    exact (check_eq_ok_iff_conforms ctx.nodup_numbers_visible).mp (check_visible.mpr h)
  refine ⟨hconforms.distinct, fun n hn hmem => ?_, fun place leaf hleaf hrule => ?_⟩
  · exact hconforms.unused n hn (Context.mem_numbers_visible.mpr hmem)
  · obtain ⟨a, hlive, -, href⟩ := hconforms.live place leaf hleaf hrule
    exact exists_origin_of_liveAt hleaf hrule href hlive

end Anchored

end ProofTree

end NaturalDeduction
