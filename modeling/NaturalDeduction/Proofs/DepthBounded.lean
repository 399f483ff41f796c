import Mathlib.Data.Finset.Insert
import NaturalDeduction.Formula

/-!
# Derivability within a depth

The calculus the search works in, without the search: no order in which
things are tried, no numbers, and nothing that keeps a goal from being
pursued. What is assumed is a finite set of formulas.

A goal is derivable within one more level of depth if it is assumed, if an
introduction yields it from goals one level below, or if it comes out of
what is assumed: a *fact* is what taking members of the set apart gives,
where an implication is taken apart once its antecedent is derivable one
level below, and a disjunction that is a fact may be split, the goal being
derived one level below in each case.

Facts are defined from the members down to the fact. The search follows
them the other way, from the assumption it starts with towards what it is
after, which is what `Chain` describes; `Fact.exists_chain` ties the two.
-/

namespace NaturalDeduction

/-! ## Facts -/

section Facts

variable (G : Finset Formula) (provable : Formula → Prop)

/-- **A fact**: what comes out of members of `G` by taking them apart, with
the antecedents that are `provable`. -/
inductive Fact : Formula → Prop where
  | member {f : Formula} (h : f ∈ G) : Fact f
  | andLeft {left right : Formula} (h : Fact (.and left right)) : Fact left
  | andRight {left right : Formula} (h : Fact (.and left right)) : Fact right
  | impApply {left right : Formula} (h : Fact (.imp left right)) (hl : provable left) : Fact right

/-- **A chain**: a formula that `target` comes out of by taking it apart. -/
inductive Chain (target : Formula) : Formula → Prop where
  | here : Chain target target
  | andLeft {left right : Formula} (h : Chain target left) : Chain target (.and left right)
  | andRight {left right : Formula} (h : Chain target right) : Chain target (.and left right)
  | impApply {left right : Formula} (hl : provable left) (h : Chain target right) :
      Chain target (.imp left right)

end Facts

variable {G G' : Finset Formula} {provable provable' : Formula → Prop} {f g goal : Formula}

theorem Fact.mono (hG : G ⊆ G') (hp : ∀ f, provable f → provable' f) (h : Fact G provable f) :
    Fact G' provable' f := by
  induction h with
  | member hf => exact .member (hG hf)
  | andLeft _ ih => exact .andLeft ih
  | andRight _ ih => exact .andRight ih
  | impApply _ hl ih => exact .impApply ih (hp _ hl)

theorem Chain.trans (h : Chain provable g f) (h' : Chain provable goal g) :
    Chain provable goal f := by
  induction h with
  | here => exact h'
  | andLeft _ ih => exact .andLeft ih
  | andRight _ ih => exact .andRight ih
  | impApply hl _ ih => exact .impApply hl ih

/-- A fact is at the end of a chain that starts from a member. -/
theorem Fact.exists_chain (h : Fact G provable f) : ∃ a ∈ G, Chain provable f a := by
  induction h with
  | member hf => exact ⟨_, hf, .here⟩
  | andLeft _ ih =>
    obtain ⟨a, ha, hc⟩ := ih
    exact ⟨a, ha, hc.trans (.andLeft .here)⟩
  | andRight _ ih =>
    obtain ⟨a, ha, hc⟩ := ih
    exact ⟨a, ha, hc.trans (.andRight .here)⟩
  | impApply _ hl ih =>
    obtain ⟨a, ha, hc⟩ := ih
    exact ⟨a, ha, hc.trans (.impApply hl .here)⟩

/-! ## Derivability -/

/-- **One more level of depth** above what is derivable `below`. -/
inductive OneMore (below : Finset Formula → Formula → Prop) (G : Finset Formula) :
    Formula → Prop where
  | member {f : Formula} (h : f ∈ G) : OneMore below G f
  | andIntro {left right : Formula} (hl : below G left) (hr : below G right) :
      OneMore below G (.and left right)
  | orIntroLeft {left right : Formula} (h : below G left) : OneMore below G (.or left right)
  | orIntroRight {left right : Formula} (h : below G right) : OneMore below G (.or left right)
  | impIntro {left right : Formula} (h : below (insert left G) right) :
      OneMore below G (.imp left right)
  | fact {f : Formula} (h : Fact G (below G) f) : OneMore below G f
  | cases {left right f : Formula} (h : Fact G (below G) (.or left right))
      (hl : below (insert left G) f) (hr : below (insert right G) f) : OneMore below G f

/-- **Derivability within a depth** from a finite set of formulas. -/
def Derivable : (depth : Nat) → Finset Formula → Formula → Prop
  | 0, _, _ => False
  | depth + 1, G, f => OneMore (Derivable depth) G f

theorem OneMore.mono {below below' : Finset Formula → Formula → Prop}
    (hb : ∀ {G G' : Finset Formula} {f : Formula}, G ⊆ G' → below G f → below' G' f)
    (hG : G ⊆ G') (h : OneMore below G f) : OneMore below' G' f := by
  cases h with
  | member hf => exact .member (hG hf)
  | andIntro hl hr => exact .andIntro (hb hG hl) (hb hG hr)
  | orIntroLeft h => exact .orIntroLeft (hb hG h)
  | orIntroRight h => exact .orIntroRight (hb hG h)
  | impIntro h => exact .impIntro (hb (Finset.insert_subset_insert _ hG) h)
  | fact h => exact .fact (h.mono hG fun _ => hb hG)
  | cases h hl hr =>
    exact .cases (h.mono hG fun _ => hb hG) (hb (Finset.insert_subset_insert _ hG) hl)
      (hb (Finset.insert_subset_insert _ hG) hr)

/-- **More room and more assumptions lose nothing.** -/
theorem Derivable.mono {d d' : Nat} (hd : d ≤ d') (hG : G ⊆ G') (h : Derivable d G f) :
    Derivable d' G' f := by
  induction d generalizing d' G G' f with
  | zero => exact h.elim
  | succ d ih =>
    cases d' with
    | zero => exact absurd hd (Nat.not_succ_le_zero d)
    | succ d' => exact OneMore.mono (fun hG h => ih (Nat.le_of_succ_le_succ hd) hG h) hG h

theorem Derivable.mono_depth {d d' : Nat} (hd : d ≤ d') (h : Derivable d G f) :
    Derivable d' G f := h.mono hd (Finset.Subset.refl G)

/-- What is derivable becomes derivable at some level, and was not one level
below. -/
theorem Derivable.exists_first {d : Nat} (h : Derivable d G f) :
    ∃ e, e < d ∧ OneMore (Derivable e) G f ∧ ¬ Derivable e G f := by
  induction d with
  | zero => exact h.elim
  | succ d ih =>
    by_cases hd : Derivable d G f
    · obtain ⟨e, he, hfirst⟩ := ih hd
      exact ⟨e, Nat.lt_succ_of_lt he, hfirst⟩
    · exact ⟨d, Nat.lt_succ_self d, h, hd⟩

/-! ## Derivability at any depth -/

/-- **Provability**: derivability within some depth. -/
def Provable (G : Finset Formula) (f : Formula) : Prop := ∃ d, Derivable d G f

theorem Provable.mono (hG : G ⊆ G') (h : Provable G f) : Provable G' f :=
  h.imp fun _ hd => hd.mono le_rfl hG

/-- A fact needs finitely many antecedents, so some depth does for all. -/
theorem Fact.exists_depth (h : Fact G (Provable G) f) : ∃ d, Fact G (Derivable d G) f := by
  induction h with
  | member hf => exact ⟨0, .member hf⟩
  | andLeft _ ih => exact ih.imp fun _ h => .andLeft h
  | andRight _ ih => exact ih.imp fun _ h => .andRight h
  | impApply _ hl ih =>
    obtain ⟨d, hd⟩ := ih
    obtain ⟨e, he⟩ := hl
    have hmax : Fact G (Derivable (max d e) G) _ :=
      hd.mono (Finset.Subset.refl G) fun _ h => h.mono_depth (le_max_left d e)
    exact ⟨max d e, .impApply hmax (he.mono_depth (le_max_right d e))⟩

/-- **Provability is closed under every step of the calculus.** -/
theorem Provable.of_oneMore (h : OneMore Provable G f) : Provable G f := by
  cases h with
  | member hf => exact ⟨1, .member hf⟩
  | andIntro hl hr =>
    obtain ⟨d, hd⟩ := hl
    obtain ⟨e, he⟩ := hr
    exact ⟨max d e + 1, .andIntro (hd.mono_depth (le_max_left d e))
      (he.mono_depth (le_max_right d e))⟩
  | orIntroLeft h =>
    obtain ⟨d, hd⟩ := h
    exact ⟨d + 1, .orIntroLeft hd⟩
  | orIntroRight h =>
    obtain ⟨d, hd⟩ := h
    exact ⟨d + 1, .orIntroRight hd⟩
  | impIntro h =>
    obtain ⟨d, hd⟩ := h
    exact ⟨d + 1, .impIntro hd⟩
  | fact h =>
    obtain ⟨d, hd⟩ := h.exists_depth
    exact ⟨d + 1, .fact hd⟩
  | cases h hl hr =>
    obtain ⟨c, hc⟩ := h.exists_depth
    obtain ⟨d, hd⟩ := hl
    obtain ⟨e, he⟩ := hr
    have hc' : Fact G (Derivable (max c (max d e)) G) _ :=
      hc.mono (Finset.Subset.refl G) fun _ h => h.mono_depth (le_max_left _ _)
    exact ⟨max c (max d e) + 1, .cases hc'
      (hd.mono_depth ((le_max_left d e).trans (le_max_right c _)))
      (he.mono_depth ((le_max_right d e).trans (le_max_right c _)))⟩

end NaturalDeduction
