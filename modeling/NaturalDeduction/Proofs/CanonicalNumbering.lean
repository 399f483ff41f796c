import NaturalDeduction.Proofs.Bindings

/-!
# Renumbering is a canonical form

Two proofs that differ in the choice of numbers only are the same proof. What
is left of a proof when its numbers are taken away is a tree of claims and
rules (`ProofTree.bare`), and with it what each leaf refers to. Renumbering
changes neither: a leaf goes on to refer to the same assumption of the context
or to the same slot (`ProofTree.refersTo_renumber_iff`).

It also leaves no choice. After it a slot has a number only if some leaf refers
to it, and the numbers count up from the first one on in the order in which the
tree is read (`ProofTree.Canonical`). Of trees with the same claims, rules and
origins there is at most one like this (`ProofTree.Canonical.eq_of_bare`): the
slots with a number are known, so the numbers are, slot after slot, and through
their origins those of the leaves.
-/

namespace NaturalDeduction

namespace ProofTree

/-! ## Trees without numbers -/

mutual

/-- **A tree without its numbers.** What is left are its claims and rules, and
how many discharges a node has. -/
def bare : ProofTree → ProofTree
  | ⟨claim, rule, premises, _, discharges⟩ =>
    ⟨claim, rule, bareOf premises, none, discharges.map fun _ => none⟩

/-- A list of trees without their numbers. -/
def bareOf : List ProofTree → List ProofTree
  | [] => []
  | p :: ps => p.bare :: bareOf ps

end

theorem bareOf_eq (ps : List ProofTree) : bareOf ps = ps.map bare := by
  induction ps with
  | nil => rfl
  | cons p ps ih => rw [bareOf, List.map_cons, ih]

theorem bare_mk (claim : Formula) (rule : Rule) (ps : List ProofTree) (ref : Option Int)
    (ds : List (Option Int)) :
    bare ⟨claim, rule, ps, ref, ds⟩ = ⟨claim, rule, ps.map bare, none, ds.map fun _ => none⟩ := by
  rw [bare, bareOf_eq]

theorem bare_mapNumbers (new : Int → Option Int) (p : ProofTree) :
    (p.mapNumbers new).bare = p.bare := by
  induction p using ProofTree.induction with
  | node p ih =>
    obtain ⟨claim, rule, premises, reference, discharges⟩ := p
    rw [mapNumbers_mk, bare_mk, bare_mk, List.map_map, List.map_map,
      List.map_congr_left (f := bare ∘ mapNumbers new) ih]
    rfl

theorem slotsOf_map_bare {ps : List ProofTree} (h : ∀ q ∈ ps, q.bare.slots = q.slots) (i : Nat) :
    slotsOf i (ps.map bare) = slotsOf i ps := by
  induction ps generalizing i with
  | nil => rfl
  | cons q ps ih =>
    rw [List.map_cons, slotsOf, slotsOf, h q List.mem_cons_self,
      ih (fun r hr => h r (List.mem_cons_of_mem q hr))]

/-- The slots are there without the numbers. -/
theorem slots_bare (p : ProofTree) : p.bare.slots = p.slots := by
  induction p using ProofTree.induction with
  | node p ih =>
    obtain ⟨claim, rule, premises, reference, discharges⟩ := p
    rw [bare_mk, slots, slots, List.length_map, slotsOf_map_bare ih]

/-! ## Numbers where they belong -/

/-- **A node with numbers only where they belong**: a reference at a leaf, and
discharges at a rule that opens assumptions. -/
structure Tidy (node : ProofTree) : Prop where
  /-- Only leaves refer to something. -/
  reference : node.rule ≠ .assumption → node.reference = none
  /-- Only rules that open assumptions discharge them. -/
  discharged : node.rule ≠ .impIntro → node.rule ≠ .orElim → node.discharged = []

theorem discharged_mapNumbers (new : Int → Option Int) (p : ProofTree) :
    (p.mapNumbers new).discharged = p.discharged.filterMap new := by
  obtain ⟨claim, rule, premises, reference, discharges⟩ := p
  rw [mapNumbers_mk, discharged, discharged, List.filterMap_map, List.filterMap_filterMap]
  exact List.filterMap_congr fun slot _ => by cases slot <;> rfl

theorem Tidy.mapNumbers {node : ProofTree} (h : node.Tidy) (new : Int → Option Int) :
    (node.mapNumbers new).Tidy := by
  refine ⟨fun hrule => ?_, fun himp hor => ?_⟩
  · rw [rule_mapNumbers] at hrule
    rw [reference_mapNumbers, h.reference hrule, Option.map_none]
  · rw [rule_mapNumbers] at himp hor
    rw [discharged_mapNumbers, h.discharged himp hor, List.filterMap_nil]

theorem Everywhere.discharged_leaves {p : ProofTree} (h : p.Everywhere Tidy) :
    ∀ leaf ∈ p.leaves, leaf.discharged = [] := by
  intro leaf hleaf
  obtain ⟨place, hplace, hrule⟩ := mem_leaves_iff_nodeAt?.mp hleaf
  refine (h place leaf hplace).discharged ?_ ?_
  all_goals
    rw [hrule]
    decide

theorem getElem?_eq_of_join {α : Type} {l l' : List (Option α)} (hlength : l.length = l'.length)
    {i : Nat} (hjoin : l[i]?.join = l'[i]?.join) : l[i]? = l'[i]? := by
  by_cases hi : i < l.length
  · rw [List.getElem?_eq_getElem hi, List.getElem?_eq_getElem (hlength ▸ hi)] at hjoin ⊢
    exact congrArg some hjoin
  · rw [List.getElem?_eq_none (by omega), List.getElem?_eq_none (by omega)]

/-- **A tree is known by its claims and rules, its slots and its leaves**, if it
has numbers only where they belong. -/
theorem eq_of_numbers {p q : ProofTree} (hp : p.Everywhere Tidy) (hq : q.Everywhere Tidy)
    (hbare : p.bare = q.bare) (hslot : ∀ s, p.slotNumber? s = q.slotNumber? s)
    (hleaf : ∀ place, p.leafNumber? place = q.leafNumber? place) : p = q := by
  induction p using ProofTree.induction generalizing q with
  | node p ih =>
    obtain ⟨htidy, hpremises⟩ := everywhere_iff.mp hp
    obtain ⟨htidy', hpremises'⟩ := everywhere_iff.mp hq
    obtain ⟨claim, rule, ps, ref, ds⟩ := p
    obtain ⟨claim', rule', ps', ref', ds'⟩ := q
    rw [bare_mk, bare_mk] at hbare
    injection hbare with hclaim hrule hps _ hds
    subst hclaim hrule
    have hlength : ds.length = ds'.length := by
      simpa only [List.length_map] using congrArg List.length hds
    have hdischarges : ds = ds' :=
      List.ext_getElem? fun i => getElem?_eq_of_join hlength (hslot ⟨[], i⟩)
    have hreference : ref = ref' := by
      by_cases hrule : rule = .assumption
      · simpa only [leafNumber?, nodeAt?, Option.bind_some, if_pos hrule] using hleaf []
      · exact (htidy.reference hrule).trans (htidy'.reference hrule).symm
    have hsame : ps = ps' := by
      -- The bare premises agree place by place, so the two lists end together.
      refine List.ext_getElem? fun i => ?_
      have hi : (ps[i]?).map bare = (ps'[i]?).map bare := by
        rw [← List.getElem?_map, hps, List.getElem?_map]
      cases ha : ps[i]? with
      | none =>
        rw [ha] at hi
        exact (Option.map_eq_none_iff.mp hi.symm).symm
      | some a =>
        rw [ha] at hi
        obtain ⟨b, hb, hab⟩ := Option.map_eq_some_iff.mp hi.symm
        have hmem := List.mem_of_getElem? ha
        have hmem' := List.mem_of_getElem? hb
        have hslots : ∀ s, a.slotNumber? s = b.slotNumber? s := fun s => by
          have h := hslot (s.under i)
          rwa [slotNumber?_under ha, slotNumber?_under hb] at h
        have hleaves : ∀ place, a.leafNumber? place = b.leafNumber? place := fun place => by
          have h := hleaf (i :: place)
          rwa [leafNumber?_cons ha, leafNumber?_cons hb] at h
        rw [hb, ih a hmem (hpremises a hmem) (hpremises' b hmem') hab.symm hslots hleaves]
    rw [hdischarges, hreference, hsame]

/-! ## What renumbering keeps -/

section MapNumbers

variable (new : Int → Option Int) (p : ProofTree)

theorem leafNumber?_mapNumbers (place : List Nat) :
    (p.mapNumbers new).leafNumber? place =
      (p.leafNumber? place).map fun n => (new n).getD n := by
  rw [leafNumber?, leafNumber?, nodeAt?_mapNumbers]
  cases p.nodeAt? place with
  | none => rfl
  | some leaf =>
    simp only [Option.map_some, Option.bind_some, rule_mapNumbers, reference_mapNumbers]
    split <;> rfl

theorem slotNumber?_mapNumbers (s : Slot) :
    (p.mapNumbers new).slotNumber? s = (p.slotNumber? s).bind new := by
  rw [slotNumber?, slotNumber?, nodeAt?_mapNumbers]
  cases p.nodeAt? s.place with
  | none => rfl
  | some node =>
    obtain ⟨claim, rule, premises, reference, discharges⟩ := node
    rw [Option.map_some, Option.bind_some, Option.bind_some, mapNumbers_mk, List.getElem?_map]
    rcases discharges[s.index]? with _ | _ | n <;> rfl

variable {p}

theorem Reaches.mapNumbers {s : Slot} {place : List Nat} (h : p.Reaches s place) :
    (p.mapNumbers new).Reaches s place := by
  obtain ⟨node, i, below, hnode, hslot, hplace⟩ := h
  refine ⟨node.mapNumbers new, i, below, ?_, ?_, hplace⟩
  · rw [nodeAt?_mapNumbers, hnode, Option.map_some]
  · rw [rule_mapNumbers, hslot]

end MapNumbers

section Renumber

variable {ctx : Context} {first : Int} {p q : ProofTree} {place : List Nat} {o : Origin}

/-- A leaf goes on to refer to what it referred to. -/
theorem RefersTo.renumber (h : Anchored ctx p) (ho : p.RefersTo ctx place o) :
    (p.renumber first).RefersTo ctx place o := by
  cases o with
  | assumed index =>
    obtain ⟨n, hn, hindex⟩ := ho
    have hstays : newNumber? first p.bound n = none :=
      newNumber?_bound_eq_none h.distinct fun hmem => h.unused n hmem (mem_of_idxOf? hindex)
    refine ⟨n, ?_, hindex⟩
    rw [ProofTree.renumber, leafNumber?_mapNumbers, hn, Option.map_some, hstays, Option.getD_none]
  | opened s =>
    obtain ⟨n, hn, hs, hreaches⟩ := ho
    have hsome : (newNumber? first p.bound n).isSome := newNumber?_isSome_iff.mpr <|
      (mem_bound h.distinct).mpr
        ⟨mem_allDischarged_iff.mpr ⟨s, hs⟩, mem_referenced_iff.mpr ⟨place, hn⟩⟩
    obtain ⟨m, hm⟩ := Option.isSome_iff_exists.mp hsome
    refine ⟨m, ?_, ?_, hreaches.mapNumbers _⟩
    · rw [ProofTree.renumber, leafNumber?_mapNumbers, hn, Option.map_some, hm, Option.getD_some]
    · rw [ProofTree.renumber, slotNumber?_mapNumbers, hs, Option.bind_some, hm]

theorem fresh_visible_renumber (h : Anchored ctx p) (hfirst : ∀ n ∈ ctx.numbers, n < first) :
    Fresh ctx.visible [] (p.renumber first).allDischarged :=
  fresh_renumber h.distinct ctx.nodup_numbers_visible fun n hn =>
    hfirst n (Context.mem_numbers_visible.mp hn)

theorem Anchored.renumber (h : Anchored ctx p) (hfirst : ∀ n ∈ ctx.numbers, n < first) :
    Anchored ctx (p.renumber first) := by
  have hfresh := fresh_visible_renumber h hfirst
  refine ⟨hfresh.nodup, fun n hn hmem => ?_, fun place leaf hleaf hrule => ?_⟩
  · exact hfresh.notLive n hn (Context.mem_numbers_visible.mpr hmem)
  · rw [ProofTree.renumber, nodeAt?_mapNumbers] at hleaf
    obtain ⟨old, hold, rfl⟩ := Option.map_eq_some_iff.mp hleaf
    obtain ⟨o, ho⟩ := h.origin place old hold (rule_mapNumbers _ old ▸ hrule)
    exact ⟨o, ho.renumber h⟩

/-- **Renumbering keeps the origin of every leaf**, and gives it no other. -/
theorem refersTo_renumber_iff (h : Anchored ctx p) (hfirst : ∀ n ∈ ctx.numbers, n < first) :
    (p.renumber first).RefersTo ctx place o ↔ p.RefersTo ctx place o := by
  refine ⟨fun ho => ?_, fun ho => ho.renumber h⟩
  obtain ⟨m, hm⟩ := ho.exists_leafNumber
  rw [ProofTree.renumber, leafNumber?_mapNumbers] at hm
  obtain ⟨n, hn, -⟩ := Option.map_eq_some_iff.mp hm
  obtain ⟨leaf, hleaf, hrule, -⟩ := leafNumber?_eq_some_iff.mp hn
  obtain ⟨o', ho'⟩ := h.origin place leaf hleaf hrule
  rwa [(h.renumber hfirst).origin_unique ho (ho'.renumber h)]

/-- A slot that keeps a number is what some leaf refers to. -/
theorem exists_refersTo_of_slotNumber (h : Anchored ctx p) {s : Slot} {m : Int}
    (hs : (p.renumber first).slotNumber? s = some m) :
    ∃ place, p.RefersTo ctx place (.opened s) := by
  rw [ProofTree.renumber, slotNumber?_mapNumbers, Option.bind_eq_some_iff] at hs
  obtain ⟨n, hn, hm⟩ := hs
  have hbound : n ∈ p.bound := newNumber?_isSome_iff.mp (Option.isSome_of_eq_some hm)
  obtain ⟨hdischarged, hreferenced⟩ := (mem_bound h.distinct).mp hbound
  obtain ⟨place, hplace⟩ := mem_referenced_iff.mp hreferenced
  obtain ⟨leaf, hleaf, hrule, -⟩ := leafNumber?_eq_some_iff.mp hplace
  obtain ⟨o, ho⟩ := h.origin place leaf hleaf hrule
  cases o with
  | assumed index =>
    obtain ⟨n', hn', hindex⟩ := ho
    obtain rfl := Option.some.inj (hplace.symm.trans hn')
    exact absurd (mem_of_idxOf? hindex) (h.unused n hdischarged)
  | opened s' =>
    obtain ⟨n', hn', hs', hreaches⟩ := ho
    obtain rfl := Option.some.inj (hplace.symm.trans hn')
    obtain rfl := slot_eq_of_number h.distinct hn hs'
    exact ⟨place, n, hplace, hn, hreaches⟩

end Renumber

/-! ## Canonical numbers -/

/-- **A tree in canonical numbers**: its leaves are anchored, a slot has a number
only if a leaf refers to it, and the numbers count up from the first in the
order in which the tree is read. -/
structure Canonical (ctx : Context) (first : Int) (p : ProofTree) : Prop
    extends Anchored ctx p where
  /-- No slot has a number that no leaf uses. -/
  used : ∀ s n, p.slotNumber? s = some n → ∃ place, p.RefersTo ctx place (.opened s)
  /-- The numbers are consecutive. -/
  consecutive :
    p.allDischarged = (List.range p.allDischarged.length).map fun i : Nat => first + i

section Canonical

variable {ctx : Context} {first : Int} {p q : ProofTree}

theorem Anchored.canonical_renumber (h : Anchored ctx p)
    (hfirst : ∀ n ∈ ctx.numbers, n < first) : Canonical ctx first (p.renumber first) := by
  refine ⟨h.renumber hfirst, fun s m hs => ?_, ?_⟩
  · obtain ⟨place, ho⟩ := exists_refersTo_of_slotNumber h hs
    exact ⟨place, ho.renumber h⟩
  · rw [allDischarged_renumber h.distinct, List.length_map, List.length_range]

/-- **A slot has a number if and only if a leaf refers to it.** -/
theorem Canonical.slotNumber?_isSome_iff (h : Canonical ctx first p) (s : Slot) :
    (p.slotNumber? s).isSome ↔ ∃ place, p.RefersTo ctx place (.opened s) := by
  refine ⟨fun hs => ?_, fun ⟨place, n, _, hs, _⟩ => Option.isSome_of_eq_some hs⟩
  obtain ⟨n, hn⟩ := Option.isSome_iff_exists.mp hs
  exact h.used s n hn

theorem eq_of_filterMap_eq {α β : Type} {f g : α → Option β} {l : List α}
    (hsome : ∀ x, (f x).isSome = (g x).isSome) (h : l.filterMap f = l.filterMap g) :
    ∀ x ∈ l, f x = g x := by
  induction l with
  | nil => exact fun _ hx => nomatch hx
  | cons a l ih =>
    have ha := hsome a
    cases hf : f a with
    | none =>
      rw [hf, Option.isSome_none, eq_comm, Option.isSome_eq_false_iff, Option.isNone_iff_eq_none]
        at ha
      rw [List.filterMap_cons_none hf, List.filterMap_cons_none ha] at h
      exact List.forall_mem_cons.mpr ⟨hf.trans ha.symm, ih h⟩
    | some b =>
      rw [hf, Option.isSome_some, eq_comm] at ha
      obtain ⟨c, hc⟩ := Option.isSome_iff_exists.mp ha
      rw [List.filterMap_cons_some hf, List.filterMap_cons_some hc] at h
      obtain ⟨rfl, htail⟩ := List.cons.inj h
      exact List.forall_mem_cons.mpr ⟨hf.trans hc.symm, ih htail⟩

/-- **The same slots have the same numbers.** Which slots have a number is known
from the origins, and what number from their order. -/
theorem Canonical.slotNumber?_eq (hp : Canonical ctx first p) (hq : Canonical ctx first q)
    (hbare : p.bare = q.bare) (ho : ∀ place o, p.RefersTo ctx place o ↔ q.RefersTo ctx place o)
    (s : Slot) : p.slotNumber? s = q.slotNumber? s := by
  have hslots : p.slots = q.slots := by rw [← slots_bare p, hbare, slots_bare]
  have hsome : ∀ s, (p.slotNumber? s).isSome = (q.slotNumber? s).isSome := fun s => by
    rw [Bool.eq_iff_iff, hp.slotNumber?_isSome_iff, hq.slotNumber?_isSome_iff]
    exact exists_congr fun place => ho place _
  have hlength : p.allDischarged.length = q.allDischarged.length := by
    rw [allDischarged_eq_filterMap, allDischarged_eq_filterMap, hslots,
      List.length_filterMap_eq_countP, List.length_filterMap_eq_countP]
    exact congrArg (fun c => List.countP c q.slots) (funext hsome)
  have hall : p.slots.filterMap p.slotNumber? = p.slots.filterMap q.slotNumber? := by
    rw [← allDischarged_eq_filterMap, hp.consecutive, hlength, ← hq.consecutive, hslots,
      allDischarged_eq_filterMap]
  by_cases hs : s ∈ p.slots
  · exact eq_of_filterMap_eq hsome hall s hs
  · have hnone : ∀ {r : ProofTree}, s ∉ r.slots → r.slotNumber? s = none := fun hnot =>
      Option.eq_none_iff_forall_ne_some.mpr fun n hn => hnot (mem_slots hn)
    rw [hnone hs, hnone (hslots ▸ hs)]

theorem leafNumber?_of_origins (h : Anchored ctx p)
    (hslot : ∀ s, p.slotNumber? s = q.slotNumber? s)
    (ho : ∀ place o, p.RefersTo ctx place o → q.RefersTo ctx place o) {place : List Nat} {n : Int}
    (hn : p.leafNumber? place = some n) : q.leafNumber? place = some n := by
  obtain ⟨leaf, hleaf, hrule, -⟩ := leafNumber?_eq_some_iff.mp hn
  obtain ⟨o, horigin⟩ := h.origin place leaf hleaf hrule
  have horigin' := ho place o horigin
  cases o with
  | assumed index =>
    obtain ⟨m, hm, hindex⟩ := horigin
    obtain ⟨m', hm', hindex'⟩ := horigin'
    obtain rfl := Option.some.inj (hn.symm.trans hm)
    rw [hm', ← getElem?_of_idxOf? hindex', getElem?_of_idxOf? hindex]
  | opened s =>
    obtain ⟨m, hm, hs, -⟩ := horigin
    obtain ⟨m', hm', hs', -⟩ := horigin'
    obtain rfl := Option.some.inj (hn.symm.trans hm)
    rw [hm', ← hs', ← hslot, hs]

/-- **There is one tree in canonical numbers** with given claims, rules and
origins. -/
theorem Canonical.eq_of_bare (hp : Canonical ctx first p) (hq : Canonical ctx first q)
    (htidy : p.Everywhere Tidy) (htidy' : q.Everywhere Tidy) (hbare : p.bare = q.bare)
    (ho : ∀ place o, p.RefersTo ctx place o ↔ q.RefersTo ctx place o) : p = q := by
  have hslot := hp.slotNumber?_eq hq hbare ho
  refine eq_of_numbers htidy htidy' hbare hslot fun place => Option.ext fun n => ⟨?_, ?_⟩
  · exact leafNumber?_of_origins hp.toAnchored hslot fun place o => (ho place o).mp
  · exact leafNumber?_of_origins hq.toAnchored (fun s => (hslot s).symm) fun place o =>
      (ho place o).mpr

end Canonical

/-! ## Renumbering -/

section Renumber

variable {ctx : Context} {first : Int} {p q : ProofTree}

theorem Everywhere.tidy_renumber (h : p.Everywhere Tidy) : (p.renumber first).Everywhere Tidy :=
  h.mapNumbers fun _ hnode => hnode.mapNumbers _

/-- Trees that agree in all but their numbers are renumbered alike. -/
theorem renumber_eq_of_bare (hp : Anchored ctx p) (hq : Anchored ctx q)
    (hfirst : ∀ n ∈ ctx.numbers, n < first) (htidy : p.Everywhere Tidy)
    (htidy' : q.Everywhere Tidy) (hbare : p.bare = q.bare)
    (ho : ∀ place o, p.RefersTo ctx place o ↔ q.RefersTo ctx place o) :
    p.renumber first = q.renumber first := by
  refine (hp.canonical_renumber hfirst).eq_of_bare (hq.canonical_renumber hfirst)
    htidy.tidy_renumber htidy'.tidy_renumber ?_ fun place o => ?_
  · rw [renumber, renumber, bare_mapNumbers, bare_mapNumbers, hbare]
  · rw [refersTo_renumber_iff hp hfirst, refersTo_renumber_iff hq hfirst, ho]

theorem check_renumber (h : Anchored ctx p) (hfirst : ∀ n ∈ ctx.numbers, n < first)
    (hcheck : p.check ctx = .ok ()) : (p.renumber first).check ctx = .ok () := by
  have hder : IsDerivation ctx.visible p := isDerivation_of_check (check_visible.mpr hcheck)
  have hunused : ∀ n ∈ p.allDischarged, n ∉ ctx.visible.numbers := fun n hn hmem =>
    h.unused n hn (Context.mem_numbers_visible.mp hmem)
  exact check_visible.mp
    ((hder.renumber h.distinct hunused).check_ok (fresh_visible_renumber h hfirst))

/-- **Renumbering is a canonical form.** Take an accepted tree with numbers only
where they belong, and a first number above those of the context. The
renumbered tree is accepted, it has the same claims and rules, and each leaf
has one origin, the same in both trees. A slot is empty exactly if no leaf
refers to it, and the numbers in the others count up from the first. Any other
such tree that agrees with the given one in all but its numbers is renumbered
to the same tree, and so is the renumbered tree itself. -/
theorem renumber_canonical (htidy : p.Everywhere Tidy) (hcheck : p.check ctx = .ok ())
    (hfirst : ∀ n ∈ ctx.numbers, n < first) :
    (p.renumber first).check ctx = .ok ()
    ∧ (p.renumber first).bare = p.bare
    ∧ (∀ place leaf, p.nodeAt? place = some leaf → leaf.rule = .assumption →
      ∃ o, (∀ o', p.RefersTo ctx place o' ↔ o' = o)
        ∧ ∀ o', (p.renumber first).RefersTo ctx place o' ↔ o' = o)
    ∧ (∀ s ∈ p.slots, (p.renumber first).slotNumber? s = none ↔
      ∀ place, ¬ p.RefersTo ctx place (.opened s))
    ∧ (p.renumber first).allDischarged =
      (List.range (p.renumber first).allDischarged.length).map (fun i : Nat => first + i)
    ∧ (∀ q : ProofTree, q.Everywhere Tidy → q.check ctx = .ok () → q.bare = p.bare →
      (∀ place o, q.RefersTo ctx place o ↔ p.RefersTo ctx place o) →
      q.renumber first = p.renumber first)
    ∧ (p.renumber first).renumber first = p.renumber first := by
  have hp : Anchored ctx p := anchored_of_check hcheck htidy.discharged_leaves
  have hcanonical := hp.canonical_renumber hfirst
  have hbare : (p.renumber first).bare = p.bare := bare_mapNumbers _ p
  refine ⟨check_renumber hp hfirst hcheck, hbare, fun place leaf hleaf hrule => ?_,
    fun s _ => ?_, hcanonical.consecutive, fun q hq hcheck' hbare' ho => ?_, ?_⟩
  · obtain ⟨o, ho⟩ := hp.origin place leaf hleaf hrule
    have hone : ∀ o', p.RefersTo ctx place o' ↔ o' = o := fun o' =>
      ⟨fun ho' => hp.origin_unique ho' ho, fun heq => heq ▸ ho⟩
    exact ⟨o, hone, fun o' => (refersTo_renumber_iff hp hfirst).trans (hone o')⟩
  · rw [← Option.not_isSome_iff_eq_none, hcanonical.slotNumber?_isSome_iff, not_exists]
    exact forall_congr' fun place => not_congr (refersTo_renumber_iff hp hfirst)
  · exact renumber_eq_of_bare (anchored_of_check hcheck' hq.discharged_leaves) hp hfirst hq htidy
      hbare' ho
  · exact renumber_eq_of_bare hcanonical.toAnchored hp hfirst htidy.tidy_renumber htidy hbare
      fun place o => refersTo_renumber_iff hp hfirst

/-- A proof of `A → B → A`, with the number of `A` and that of `B`, which nothing
refers to and which may be left out. -/
def constTree (n : Int) (unused : Option Int) : ProofTree :=
  ⟨.imp (.atom "A") (.imp (.atom "B") (.atom "A")), .impIntro,
    [⟨.imp (.atom "B") (.atom "A"), .impIntro, [.ofAssumption ⟨.atom "A", n⟩], none, [unused]⟩],
    none, [some n]⟩

theorem tidy_constTree (n : Int) (unused : Option Int) : (constTree n unused).Everywhere Tidy := by
  have hleaf : (ofAssumption ⟨.atom "A", n⟩).Everywhere Tidy :=
    everywhere_iff.mpr ⟨⟨fun h => absurd rfl h, fun _ _ => rfl⟩, nofun⟩
  have hinner : (ProofTree.mk (.imp (.atom "B") (.atom "A")) .impIntro
      [.ofAssumption ⟨.atom "A", n⟩] none [unused]).Everywhere Tidy :=
    everywhere_iff.mpr ⟨⟨fun _ => rfl, fun h => absurd rfl h⟩, List.forall_mem_singleton.mpr hleaf⟩
  exact everywhere_iff.mpr
    ⟨⟨fun _ => rfl, fun h => absurd rfl h⟩, List.forall_mem_singleton.mpr hinner⟩

theorem place_eq_of_leafNumber_constTree {n m : Int} {unused : Option Int} {place : List Nat}
    (h : (constTree n unused).leafNumber? place = some m) : place = [0, 0] := by
  match place with
  | [0, 0] => rfl
  | [] | [0] | 0 :: 0 :: _ :: _ | 0 :: (_ + 1) :: _ | (_ + 1) :: _ => cases h

theorem refersTo_constTree_iff {n : Int} {unused : Option Int}
    (h : Anchored ctx (constTree n unused)) {place : List Nat} {o : Origin} :
    (constTree n unused).RefersTo ctx place o ↔ place = [0, 0] ∧ o = .opened ⟨[], 0⟩ := by
  have horigin : (constTree n unused).RefersTo ctx [0, 0] (.opened ⟨[], 0⟩) :=
    ⟨n, rfl, rfl, constTree n unused, 0, [0], rfl, rfl, rfl⟩
  constructor
  · intro ho
    obtain ⟨m, hm⟩ := ho.exists_leafNumber
    obtain rfl := place_eq_of_leafNumber_constTree hm
    exact ⟨rfl, h.origin_unique ho horigin⟩
  · rintro ⟨rfl, rfl⟩
    exact horigin

/-- Two proofs of `A → B → A` that chose their numbers differently, and of which
only one numbers what it does not use, are renumbered to the same tree. The
context has a number twice. -/
theorem renumber_canonical_const :
    let ctx : Context := ⟨[⟨.atom "C", 1⟩, ⟨.atom "D", 1⟩]⟩
    ((constTree 7 (some 5)).renumber 2).check ctx = .ok ()
      ∧ (constTree 7 (some 5)).renumber 2 = constTree 2 none
      ∧ (constTree 4 none).renumber 2 = (constTree 7 (some 5)).renumber 2 := by
  intro ctx
  have hcheck : (constTree 7 (some 5)).check ctx = .ok () := by decide +kernel
  have hcheck' : (constTree 4 none).check ctx = .ok () := by decide +kernel
  have hfirst : ∀ n ∈ ctx.numbers, n < 2 := by decide
  obtain ⟨haccepted, -, -, -, -, hsame, -⟩ :=
    renumber_canonical (tidy_constTree 7 (some 5)) hcheck hfirst
  refine ⟨haccepted, by decide +kernel, hsame _ (tidy_constTree 4 none) hcheck' (by decide +kernel)
    fun place o => ?_⟩
  rw [refersTo_constTree_iff (anchored_of_check hcheck' (tidy_constTree 4 none).discharged_leaves),
    refersTo_constTree_iff
      (anchored_of_check hcheck (tidy_constTree 7 (some 5)).discharged_leaves)]

end Renumber

end ProofTree

end NaturalDeduction
