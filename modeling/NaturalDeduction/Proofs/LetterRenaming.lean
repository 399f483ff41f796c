import NaturalDeduction.Proofs.AlikeSearches
import NaturalDeduction.Proofs.Renumbering

/-!
# Renaming letters

A search takes conjunctions, disjunctions and implications apart and nothing
else. Atoms and negations are its letters: a negation is compared as a whole
and never opened, so that a search with `¬A` is a search with one more atom.
This is said by renaming. An injective map from letters to names turns every
formula into one without negation, of the same shape, and a search among the
new formulas reports exactly what the old one reports, renamed
(`Search.search_rename`): the proof found has the same rules, numbers and
discharges, and a failure has the same reason.

Such maps exist although there are as many letters as formulas: writing a
formula out by its constructors gives each letter a name of its own
(`Letter.spelling`).
-/

namespace NaturalDeduction

/-- **A letter**: what a search does not take apart. A negation is one letter,
whatever its body. -/
inductive Letter where
  | atom (name : String)
  | neg (body : Formula)
deriving DecidableEq, Repr

/-! ## Renaming -/

namespace Formula

variable (s : Letter → String)

/-- **The formula with its letters renamed** to atoms. -/
def rename : Formula → Formula
  | atom name => atom (s (.atom name))
  | neg body => atom (s (.neg body))
  | and left right => and left.rename right.rename
  | or left right => or left.rename right.rename
  | imp left right => imp left.rename right.rename

variable {s}

/-- Letters that stay apart keep formulas apart. -/
theorem rename_injective (hs : Function.Injective s) : Function.Injective (rename s) := by
  intro f
  induction f with
  | atom name | neg body =>
    intro g h
    cases g with
    | atom name' | neg body' =>
      have hletter := hs (Formula.atom.inj h)
      cases hletter <;> rfl
    | and left right | or left right | imp left right => cases h
  | and left right ihl ihr =>
    intro g h
    cases g with
    | and left' right' =>
      obtain ⟨hl, hr⟩ := Formula.and.inj h
      rw [ihl hl, ihr hr]
    | atom name | neg body | or left' right' | imp left' right' => cases h
  | or left right ihl ihr =>
    intro g h
    cases g with
    | or left' right' =>
      obtain ⟨hl, hr⟩ := Formula.or.inj h
      rw [ihl hl, ihr hr]
    | atom name | neg body | and left' right' | imp left' right' => cases h
  | imp left right ihl ihr =>
    intro g h
    cases g with
    | imp left' right' =>
      obtain ⟨hl, hr⟩ := Formula.imp.inj h
      rw [ihl hl, ihr hr]
    | atom name | neg body | and left' right' | or left' right' => cases h

end Formula

/-- The context with the letters of its formulas renamed. -/
def Context.rename (s : Letter → String) (ctx : Context) : Context :=
  ⟨ctx.assumptions.map fun a => { a with formula := a.formula.rename s }⟩

namespace ProofTree

variable (new : Formula → Formula)

mutual

/-- The tree with its claims replaced, and all else as it was. -/
def mapClaims : ProofTree → ProofTree
  | ⟨claim, rule, premises, reference, discharges⟩ =>
    ⟨new claim, rule, mapClaimsOf premises, reference, discharges⟩

/-- A list of trees with their claims replaced. -/
def mapClaimsOf : List ProofTree → List ProofTree
  | [] => []
  | p :: ps => p.mapClaims :: mapClaimsOf ps

end

theorem mapClaimsOf_eq (ps : List ProofTree) : mapClaimsOf new ps = ps.map (mapClaims new) := by
  induction ps with
  | nil => rfl
  | cons p ps ih => rw [mapClaimsOf, List.map_cons, ih]

theorem mapClaims_mk (claim : Formula) (rule : Rule) (ps : List ProofTree) (ref : Option Int)
    (ds : List (Option Int)) :
    mapClaims new ⟨claim, rule, ps, ref, ds⟩ =
      ⟨new claim, rule, ps.map (mapClaims new), ref, ds⟩ := by
  rw [mapClaims, mapClaimsOf_eq]

theorem allDischarged_mapClaims (p : ProofTree) :
    (p.mapClaims new).allDischarged = p.allDischarged := by
  induction p using ProofTree.induction with
  | node p ih =>
    obtain ⟨claim, rule, premises, reference, discharges⟩ := p
    rw [mapClaims_mk, allDischarged_mk, allDischarged_mk, List.flatMap_map]
    exact congrArg _ (List.flatMap_congr fun q hq => ih q hq)

theorem reference_mapClaims (p : ProofTree) : (p.mapClaims new).reference = p.reference := by
  obtain ⟨claim, rule, premises, reference, discharges⟩ := p
  rfl

theorem leaves_mapClaims (p : ProofTree) :
    (p.mapClaims new).leaves = p.leaves.map (mapClaims new) := by
  induction p using ProofTree.induction with
  | node p ih =>
    obtain ⟨claim, rule, premises, reference, discharges⟩ := p
    rw [leaves_eq, leaves_eq, mapClaims_mk, List.map_append, List.flatMap_map, List.map_flatMap]
    refine congrArg₂ (· ++ ·) ?_ (List.flatMap_congr fun q hq => ih q hq)
    dsimp only
    split
    · rw [List.map_singleton, mapClaims_mk]
    · rfl

theorem referenced_mapClaims (p : ProofTree) : (p.mapClaims new).referenced = p.referenced := by
  unfold referenced
  rw [leaves_mapClaims, List.filterMap_map]
  exact List.filterMap_congr fun leaf _ => reference_mapClaims new leaf

theorem mapNumbers_mapClaims (number : Int → Option Int) (p : ProofTree) :
    (p.mapClaims new).mapNumbers number = (p.mapNumbers number).mapClaims new := by
  induction p using ProofTree.induction with
  | node p ih =>
    obtain ⟨claim, rule, premises, reference, discharges⟩ := p
    rw [mapClaims_mk, mapNumbers_mk, mapNumbers_mk, mapClaims_mk, List.map_map, List.map_map]
    congr 1
    exact List.map_congr_left fun q hq => ih q hq

/-- **Renumbering does not look at claims.** -/
theorem renumber_mapClaims (first : Int) (p : ProofTree) :
    (p.mapClaims new).renumber first = (p.renumber first).mapClaims new := by
  have hbound : (p.mapClaims new).bound = p.bound := by
    unfold bound
    rw [allDischarged_mapClaims, referenced_mapClaims]
  rw [renumber, hbound, mapNumbers_mapClaims, renumber]

end ProofTree

/-- **A report with the letters renamed**: the claims of the proof or the goal
of the failure, and the goal asked for. -/
def SearchReport.rename (s : Letter → String) (r : SearchReport) : SearchReport where
  goal := r.goal.rename s
  budget := r.budget
  result :=
    match r.result with
    | .ok proof => .ok (proof.mapClaims (·.rename s))
    | .error e => .error ⟨e.goal.rename s, e.reason⟩
  steps := r.steps

/-! ## Renaming as a likeness -/

/-- **A search is like the one with its letters renamed**, number for number. -/
def Likeness.ofLetters (s : Letter → String) (hs : Function.Injective s) : Likeness where
  formula := Formula.rename s
  number m n := m = n
  next m n := m = n
  injective := Formula.rename_injective hs
  formula_and _ _ := rfl
  formula_or _ _ := rfl
  formula_imp _ _ := rfl
  isBinary_formula f h := by
    cases f with
    | atom name | neg body => rfl
    | and left right | or left right | imp left right => cases h
  number_of_next _ _ h := h
  next_succ _ _ h := congrArg (· + 1) h

section OfLetters

variable {s : Letter → String} {hs : Function.Injective s}

theorem Likeness.eq_of_rel {slot slot' : Option Int}
    (h : Option.Rel (Likeness.ofLetters s hs).number slot slot') : slot = slot' := by
  cases h with
  | none => rfl
  | some h => exact congrArg some h

/-- Trees that are alike up to renaming are renamed ones. -/
theorem Likeness.Trees.eq_mapClaims {p p' : ProofTree} (h : (Likeness.ofLetters s hs).Trees p p') :
    p' = p.mapClaims (·.rename s) := by
  induction p using ProofTree.induction generalizing p' with
  | node p ih =>
    obtain ⟨claim, rule, premises, reference, discharges⟩ := p
    obtain ⟨claim', rule', premises', reference', discharges'⟩ := p'
    cases h with
    | node hclaim hrule hpremises hreference hdischarges =>
    have hps : premises.map (ProofTree.mapClaims (·.rename s)) = premises' :=
      map_eq_of_forall₂ (((List.forall₂_and_left _ _).mpr ⟨fun q hq => @ih q hq, hpremises⟩).imp
        fun q q' hq => (hq.1 hq.2).symm)
    have hds : discharges.map id = discharges' :=
      map_eq_of_forall₂ (hdischarges.imp fun _ _ hslot => eq_of_rel hslot)
    have href : reference = reference' := eq_of_rel hreference
    obtain rfl : claim' = claim.rename s := hclaim
    obtain rfl : rule' = rule := hrule
    rw [ProofTree.mapClaims_mk, hps, href, ← hds, List.map_id]

theorem Likeness.contexts_rename (ctx : Context) :
    (Likeness.ofLetters s hs).Contexts ctx (ctx.rename s) :=
  List.forall₂_map_right_iff.mpr (List.forall₂_same.mpr fun _ _ => ⟨rfl, rfl⟩)

theorem Context.maxNumber_rename (ctx : Context) : (ctx.rename s).maxNumber = ctx.maxNumber := by
  unfold maxNumber numbers rename
  rw [List.map_map]
  rfl

end OfLetters

/-! ## A name for each letter -/

namespace Formula

/-- **A formula written out** by its constructors, in front of what follows.
In the name of an atom, each character has a point before it. -/
def spell : Formula → List Char → List Char
  | atom name, rest => 'A' :: name.toList.foldr (fun c cs => '.' :: c :: cs) (';' :: rest)
  | neg body, rest => '¬' :: body.spell rest
  | and left right, rest => '∧' :: left.spell (right.spell rest)
  | or left right, rest => '∨' :: left.spell (right.spell rest)
  | imp left right, rest => '→' :: left.spell (right.spell rest)

theorem eq_of_dotted_eq {cs ds us vs : List Char}
    (h : cs.foldr (fun c rest => '.' :: c :: rest) (';' :: us)
      = ds.foldr (fun c rest => '.' :: c :: rest) (';' :: vs)) : cs = ds ∧ us = vs := by
  induction cs generalizing ds with
  | nil =>
    cases ds with
    | nil => exact ⟨rfl, (List.cons.inj h).2⟩
    | cons d ds => exact absurd (List.cons.inj h).1 (by decide)
  | cons c cs ih =>
    cases ds with
    | nil => exact absurd (List.cons.inj h).1 (by decide)
    | cons d ds =>
      obtain ⟨hc, hrest⟩ := List.cons.inj (List.cons.inj h).2
      obtain ⟨hcs, huv⟩ := ih hrest
      exact ⟨congrArg₂ List.cons hc hcs, huv⟩

/-- **A formula can be told from what it is spelled as**, whatever follows. -/
theorem eq_of_spell_eq {f g : Formula} {us vs : List Char} (h : f.spell us = g.spell vs) :
    f = g ∧ us = vs := by
  -- the first character tells which constructor it is
  induction f generalizing g us vs with
  | atom name =>
    cases g with
    | atom name' =>
      obtain ⟨hcs, huv⟩ := eq_of_dotted_eq (List.cons.inj h).2
      exact ⟨congrArg atom (String.toList_injective hcs), huv⟩
    | neg body | and left right | or left right | imp left right =>
      exact absurd (List.cons.inj h).1 (by decide)
  | neg body ih =>
    cases g with
    | neg body' =>
      obtain ⟨hbody, huv⟩ := ih (List.cons.inj h).2
      exact ⟨congrArg neg hbody, huv⟩
    | atom name | and left right | or left right | imp left right =>
      exact absurd (List.cons.inj h).1 (by decide)
  | and left right ihl ihr =>
    cases g with
    | and left' right' =>
      obtain ⟨hl, hrest⟩ := ihl (List.cons.inj h).2
      obtain ⟨hr, huv⟩ := ihr hrest
      exact ⟨congrArg₂ and hl hr, huv⟩
    | atom name | neg body | or left' right' | imp left' right' =>
      exact absurd (List.cons.inj h).1 (by decide)
  | or left right ihl ihr =>
    cases g with
    | or left' right' =>
      obtain ⟨hl, hrest⟩ := ihl (List.cons.inj h).2
      obtain ⟨hr, huv⟩ := ihr hrest
      exact ⟨congrArg₂ or hl hr, huv⟩
    | atom name | neg body | and left' right' | imp left' right' =>
      exact absurd (List.cons.inj h).1 (by decide)
  | imp left right ihl ihr =>
    cases g with
    | imp left' right' =>
      obtain ⟨hl, hrest⟩ := ihl (List.cons.inj h).2
      obtain ⟨hr, huv⟩ := ihr hrest
      exact ⟨congrArg₂ imp hl hr, huv⟩
    | atom name | neg body | and left' right' | or left' right' =>
      exact absurd (List.cons.inj h).1 (by decide)

end Formula

namespace Letter

/-- A letter as a formula. -/
def formula : Letter → Formula
  | atom name => .atom name
  | neg body => .neg body

theorem formula_injective : Function.Injective formula := by
  intro a b h
  cases a <;> cases b <;> cases h <;> rfl

/-- **A name for each letter**: the formula that it is, spelled out. -/
def spelling (a : Letter) : String := String.ofList (a.formula.spell [])

theorem spelling_injective : Function.Injective spelling := by
  intro a b h
  exact formula_injective (Formula.eq_of_spell_eq (String.ofList_injective h)).1

end Letter

namespace Search

/-- **Searching sees only shape**: renaming the letters of the goal and of
the context renames the report and changes nothing else in it, neither the
kind of outcome nor its reason, neither the number of steps nor the rules,
numbers and discharges of the proof. -/
theorem search_rename (s : Letter → String) (hs : Function.Injective s) (goal : Formula)
    (ctx : Context) (budget : Budget) :
    search (goal.rename s) (ctx.rename s) budget = (search goal ctx budget).rename s := by
  have hctx : (Likeness.ofLetters s hs).Contexts ctx (ctx.rename s) :=
    Likeness.contexts_rename ctx
  have hnext : ctx.maxNumber + 1 = (ctx.rename s).maxNumber + 1 := by
    rw [Context.maxNumber_rename]
  obtain ⟨hsteps, raw, raw', halike, hresult, hresult'⟩ :=
    Likeness.search hctx hnext goal budget
  have himage : (search (goal.rename s) (ctx.rename s) budget).result
      = ((search goal ctx budget).rename s).result := by
    rw [SearchReport.rename, hresult]
    refine hresult'.trans ?_
    rw [← hnext]
    cases halike with
    | ok hp =>
      rw [hp.eq_mapClaims]
      exact congrArg Except.ok (ProofTree.renumber_mapClaims _ _ _)
    | error he =>
      exact congrArg Except.error (congrArg₂ Exhausted.mk he.goal he.reason)
  show SearchReport.mk _ _ _ _ = SearchReport.mk _ _ _ _
  exact congrArg₂ (SearchReport.mk _ _) himage hsteps

/-- `A ∨ ¬B` and `¬B → A`, assumed out of order. -/
def negatedCase : Context :=
  ⟨[⟨.or (.atom "A") (.neg (.atom "B")), 7⟩, ⟨.imp (.neg (.atom "B")) (.atom "A"), -3⟩]⟩

/-- The proof of `¬C → A ∧ ¬C` goes by cases of `A` and `¬B`, and with the
letters spelled out it is the same proof. -/
theorem search_rename_spelling :
    ∃ p : ProofTree,
      (search (.imp (.neg (.atom "C")) (.and (.atom "A") (.neg (.atom "C")))) negatedCase
        { maxDepth := 6, maxSteps := 60 }).result = .ok p
      ∧ p.allDischarged = [8, 9, 10]
      ∧ (search (.imp (.atom "¬A.C;") (.and (.atom "A.A;") (.atom "¬A.C;")))
          ⟨[⟨.or (.atom "A.A;") (.atom "¬A.B;"), 7⟩, ⟨.imp (.atom "¬A.B;") (.atom "A.A;"), -3⟩]⟩
          { maxDepth := 6, maxSteps := 60 }).result
        = .ok (p.mapClaims (·.rename Letter.spelling)) := by
  have hdischarged : (search (.imp (.neg (.atom "C")) (.and (.atom "A") (.neg (.atom "C"))))
      negatedCase { maxDepth := 6, maxSteps := 60 }).result.toOption.map ProofTree.allDischarged
        = some [8, 9, 10] := by
    decide +kernel
  obtain ⟨p, hp, hnumbers⟩ := Attempt.exists_proof hdischarged
  have himage := congrArg SearchReport.result (search_rename Letter.spelling
    Letter.spelling_injective (.imp (.neg (.atom "C")) (.and (.atom "A") (.neg (.atom "C"))))
    negatedCase { maxDepth := 6, maxSteps := 60 })
  rw [SearchReport.rename, hp] at himage
  exact ⟨p, hp, hnumbers, himage⟩

end Search

end NaturalDeduction
