import NaturalDeduction.Formula.Printer
import NaturalDeduction.Proofs.Grammar
import NaturalDeduction.Proofs.Scanning

/-!
# Reading what was printed

The printer and the reader each have their own idea of precedence: the
printer asks of two formulas whether the one needs parentheses in the other,
the reader has a phrase for each strength of binding. They fit together. Each
formula is printed as the phrase of its outermost connective (`Formula.phrase`),
and where that is not a phrase an operand can be, there are parentheses around
it. So a printed formula is derived by the grammar and is read as itself, if it
does not nest too deep for the reader. How deep it nests is a matter of the
formula alone (`Formula.nest`), and is the same in both styles.

The printer writes parentheses that the reader could do without: around an
implication to the right of another, and around an `and` below an `or`. Each of
them opens a level, so a formula that was read may nest deeper in print than in
the text it was read from. It nests at most about twice as deep
(`Parser.Derives.nest_le`), and half the levels allowed are therefore safe; past
them there are texts that are read as a formula whose own print is refused, such
as a long enough chain of arrows (`Formula.arrows`).
-/

open NaturalDeduction.Token NaturalDeduction.Parser

namespace NaturalDeduction

/-! ## Texts that spell a phrase -/

namespace Parser

/-- **Characters that spell a phrase**: wherever they stand, the tokens they are
scanned into are derived as the phrase, with `m` levels open at the deepest. -/
def Spells (phrase : Phrase) (m : Nat) (cs : List Char) (f : Formula) : Prop :=
  ∀ position, ∃ ts, scanFrom position cs = .ok ts ∧ Derives phrase m ts f

namespace Spells

variable {phrase tight loose : Phrase} {m n k : Nat} {cs ds : List Char} {f g h : Formula}

/-- A phrase is also a looser one. -/
theorem imp_phrase (hf : Spells tight m cs f)
    (rule : ∀ {ts}, Derives tight m ts f → Derives loose m ts f) : Spells loose m cs f := by
  intro position
  obtain ⟨ts, hscan, hder⟩ := hf position
  exact ⟨ts, hscan, rule hder⟩

theorem name {name : String} (h : IsName name) : Spells .neg 0 name.toList (.atom name) :=
  fun position => ⟨_, scanFrom_name h position, .atom rfl⟩

/-- Parentheses open a level, and make an operand of anything. -/
theorem enclosed (hf : Spells .impl m cs f) : Spells .neg (m + 1) ('(' :: cs ++ [')']) f := by
  intro position
  obtain ⟨ts, hscan, hder⟩ := hf (position + 1)
  have hclose : scanFrom (position + 1 + cs.length) [')']
      = .ok [⟨.closeParen, String.ofList [')'], position + 1 + cs.length⟩] :=
    scanFrom_of_glyph rfl (scanFrom_nil _)
  have hbreaks : Breaks [')'] := breaks_cons (by decide)
  exact ⟨_, scanFrom_of_glyph rfl (scanFrom_append hbreaks hscan hclose), .paren rfl rfl hder⟩

end Spells

end Parser

/-- A connective in print is one token. -/
theorem Connective.scanFrom_symbol (style : Style) (c : Connective) (position : Nat) :
    scanFrom position (c.symbol style).toList
      = .ok [⟨.connective c, c.symbol style, position⟩] := by
  obtain ⟨d, ds, hsymbol, hlead⟩ : ∃ d ds, (c.symbol style).toList = d :: ds
      ∧ lead d ds = .token (.connective c) ds := by
    cases style <;> cases c <;> exact ⟨_, _, rfl, by decide⟩
  rw [hsymbol, scanFrom_of_whole hlead, ← hsymbol, String.ofList_toList]

namespace Parser.Spells

variable {phrase tight loose : Phrase} {m n k : Nat} {cs ds : List Char} {f g h : Formula}

/-- Two phrases with a connective between them, set off by blanks. -/
theorem joined {first second whole : Phrase} (style : Style) {c : Connective}
    (rule : ∀ {t ts us}, t.kind = .connective c → Derives first m ts f → Derives second n us g →
      Derives whole k (ts ++ t :: us) h)
    (hf : Spells first m cs f) (hg : Spells second n ds g) :
    Spells whole k (cs ++ ' ' :: ((c.symbol style).toList ++ ' ' :: ds)) h := by
  intro position
  have hblank : Breaks (' ' :: ds) := breaks_cons (by decide)
  have hblank' : Breaks (' ' :: ((c.symbol style).toList ++ ' ' :: ds)) := breaks_cons (by decide)
  obtain ⟨ts, hts, hleft⟩ := hf position
  obtain ⟨us, hus, hright⟩ := hg (position + cs.length + 1 + (c.symbol style).toList.length + 1)
  have hsymbol := scanFrom_append hblank (c.scanFrom_symbol style _) (scanFrom_of_blank rfl hus)
  exact ⟨_, scanFrom_append hblank' hts (scanFrom_of_blank rfl hsymbol), rule rfl hleft hright⟩

/-- A negation opens a level. -/
theorem negated (style : Style) (hf : Spells .neg m cs f) :
    Spells .neg (m + 1)
      ((Connective.neg.symbol style).toList ++ (style.negationGap.toList ++ cs)) (.neg f) := by
  intro position
  cases style with
  | plain =>
    obtain ⟨ts, hts, hder⟩ := hf (position + 1)
    exact ⟨_, scanFrom_of_glyph rfl hts, .not rfl hder⟩
  | tex =>
    have hblank : Breaks (' ' :: cs) := breaks_cons (by decide)
    obtain ⟨ts, hts, hder⟩ :=
      hf (position + (Connective.neg.symbol .tex).toList.length + 1)
    exact ⟨_, scanFrom_append hblank (Connective.neg.scanFrom_symbol .tex position)
      (scanFrom_of_blank rfl hts), .not rfl hder⟩

end Parser.Spells

/-! ## What is printed -/

namespace Formula

/-- **A formula whose names can be read.** Formulas can also be built, and then
a name may be any text. -/
def Legible (f : Formula) : Prop := ∀ name ∈ f.names, IsName name

instance : DecidablePred Legible := fun f =>
  inferInstanceAs (Decidable (∀ name ∈ f.names, IsName name))

/-- The levels of an operand: parentheses open one more. -/
def levels (enclosed : Bool) (inside : Nat) : Nat :=
  if enclosed then inside + 1 else inside

/-- **How deep a formula nests in print**, in the levels that the reader counts:
one for each parenthesis, for each negation, and for the right side of each
implication. -/
def nest : Formula → Nat
  | atom _ => 0
  | neg body => levels (body.needsParensWithin (neg body)) body.nest + 1
  | and left right =>
    max (levels (left.needsParensWithin (and left right)) left.nest)
      (levels (right.needsParensWithin (and left right)) right.nest)
  | or left right =>
    max (levels (left.needsParensWithin (or left right)) left.nest)
      (levels (right.needsParensWithin (or left right)) right.nest)
  | imp left right =>
    max (levels (left.needsParensWithin (imp left right)) left.nest)
      (levels (right.needsParensWithin (imp left right)) right.nest + 1)

/-- The phrase that a formula is printed as. -/
def phrase : Formula → Phrase
  | atom _ | neg _ => .neg
  | and _ _ => .conj
  | or _ _ => .disj
  | imp _ _ => .impl

/-- The phrase that an operand of a formula is read as; the right side of an
implication may also be looser. -/
def operandPhrase : Formula → Phrase
  | atom _ | neg _ | and _ _ => .neg
  | or _ _ => .conj
  | imp _ _ => .disj

end Formula

namespace Parser.Derives

variable {m : Nat} {ts : List Token} {f : Formula}

theorem of_neg (h : Derives .neg m ts f) : ∀ phrase, Derives phrase m ts f
  | .neg => h
  | .conj => .ofNeg h
  | .disj => .ofConj (.ofNeg h)
  | .impl => .ofDisj (.ofConj (.ofNeg h))

/-- What a formula is printed as can stand alone. -/
theorem impl_of_phrase (h : Derives f.phrase m ts f) : Derives .impl m ts f := by
  cases f with
  | atom _ | neg _ => exact of_neg h .impl
  | and _ _ => exact .ofDisj (.ofConj h)
  | or _ _ => exact .ofDisj h
  | imp _ _ => exact h

/-- **Parentheses are left out where the grammar allows it**: a formula that
needs none is printed as a phrase that an operand can be. -/
theorem operand_of_phrase {parent : Formula} (h : Derives f.phrase m ts f)
    (hparens : f.needsParensWithin parent = false) : Derives parent.operandPhrase m ts f := by
  cases f with
  | atom _ | neg _ => exact of_neg h _
  | and _ _ =>
    cases parent with
    | imp _ _ => exact .ofConj h
    | _ => cases hparens
  | or _ _ =>
    cases parent with
    | imp _ _ => exact h
    | _ => cases hparens
  | imp _ _ => cases parent <;> cases hparens

end Parser.Derives

namespace Formula

variable {f : Formula}

theorem toList_joinOperands (style : Style) (c : Connective) (left right : String) :
    (joinOperands style c left right).toList
      = left.toList ++ ' ' :: ((c.symbol style).toList ++ ' ' :: right.toList) := by
  simp [joinOperands]

/-- An operand in print, in parentheses if it needs them. -/
theorem spells_operand {style : Style} {x : Formula} (parent : Formula)
    (h : Spells x.phrase x.nest (x.text style).toList x) :
    Spells parent.operandPhrase (levels (x.needsParensWithin parent) x.nest)
      (enclose (x.needsParensWithin parent) (x.text style)).toList x := by
  cases hparens : x.needsParensWithin parent with
  | false => exact h.imp_phrase fun hder => hder.operand_of_phrase hparens
  | true =>
    have htext : (enclose true (x.text style)).toList = '(' :: (x.text style).toList ++ [')'] := by
      simp [enclose]
    rw [htext]
    exact (h.imp_phrase Derives.impl_of_phrase).enclosed.imp_phrase fun hder => hder.of_neg _

/-- **A printed formula spells itself**, as the phrase of its outermost
connective. -/
theorem spells_text (style : Style) (h : f.Legible) :
    Spells f.phrase f.nest (f.text style).toList f := by
  induction f with
  | atom name => exact .name (h name (List.mem_singleton_self name))
  | neg body ih =>
    rw [text, String.toList_append, String.toList_append, List.append_assoc]
    exact .negated style (spells_operand (neg body) (ih h))
  | and left right ihl ihr =>
    rw [text, toList_joinOperands]
    exact .joined style .and
      (spells_operand (and left right) (ihl fun n hn => h n (List.mem_append_left _ hn)))
      (spells_operand (and left right) (ihr fun n hn => h n (List.mem_append_right _ hn)))
  | or left right ihl ihr =>
    rw [text, toList_joinOperands]
    exact .joined style .or
      (spells_operand (or left right) (ihl fun n hn => h n (List.mem_append_left _ hn)))
      (spells_operand (or left right) (ihr fun n hn => h n (List.mem_append_right _ hn)))
  | imp left right ihl ihr =>
    rw [text, toList_joinOperands]
    exact .joined style (fun ht hf hg => .imp ht hf (.ofDisj hg))
      (spells_operand (imp left right) (ihl fun n hn => h n (List.mem_append_left _ hn)))
      (spells_operand (imp left right) (ihr fun n hn => h n (List.mem_append_right _ hn)))

/-! ## Print and read -/

/-- A text that spells a formula is read as it, within the levels allowed. -/
theorem parse_of_spells {text : String} {m : Nat} (h : Spells .impl m text.toList f)
    (hm : m ≤ maxNesting) : parse text = .ok f := by
  obtain ⟨ts, hscan, hder⟩ := h 0
  rw [parse, scan, hscan]
  exact formulaOfTokens_eq_ok_iff_derives.mpr ⟨m, hm, hder⟩

/-- A text that spells a formula and goes too deep is refused for its depth. -/
theorem parse_of_spells_deep {text : String} {m : Nat} (h : Spells .impl m text.toList f)
    (hm : maxNesting < m) : ∃ t, parse text = .error (errorAt .nesting t) := by
  obtain ⟨ts, hscan, hder⟩ := h 0
  rw [parse, scan, hscan]
  exact formulaOfTokens_eq_nesting hder hm

/-- In print a formula spells itself, and nests as deep in one style as in the
other. -/
theorem spells_printed (h : f.Legible) {printed : String} (hprinted : printed ∈ [f.plain, f.tex]) :
    Spells .impl f.nest printed.toList f := by
  obtain ⟨style, rfl⟩ : ∃ style, printed = f.text style := by
    obtain rfl | hprinted := List.mem_cons.mp hprinted
    · exact ⟨.plain, rfl⟩
    · exact ⟨.tex, List.mem_singleton.mp hprinted⟩
  exact (spells_text style h).imp_phrase Derives.impl_of_phrase

/-- `A → A → … → A`, with a number of arrows. -/
def arrows : Nat → Formula
  | 0 => atom "A"
  | n + 1 => imp (atom "A") (arrows n)

theorem legible_arrows (n : Nat) : (arrows n).Legible := by
  induction n with
  | zero => decide
  | succ n ih =>
    intro name hname
    obtain rfl | hname := List.mem_cons.mp hname
    · decide
    · exact ih name hname

/-- In print all implications but the first are in parentheses. -/
theorem nest_arrows (n : Nat) : (arrows (n + 1)).nest = 2 * n + 1 := by
  induction n with
  | zero => rfl
  | succ n ih =>
    have hstep : (arrows (n + 1 + 1)).nest = max 0 ((arrows (n + 1)).nest + 1 + 1) := rfl
    rw [hstep, ih]
    omega

/-- **What is printed is read again, up to the levels allowed and no further.**
In either style a formula whose names can be read is read as itself, or nests
too deep and is refused for that. -/
theorem parse_printed (f : Formula) (h : f.Legible) :
    ∀ printed ∈ [f.plain, f.tex],
      (f.nest ≤ maxNesting → parse printed = .ok f)
      ∧ (maxNesting < f.nest → ∃ e, parse printed = .error e
        ∧ e.cause.kind = .unexpected ∧ e.cause.detail = "nesting too deep") := by
  intro printed hprinted
  have hspells := spells_printed h hprinted
  refine ⟨parse_of_spells hspells, fun hdeep => ?_⟩
  obtain ⟨t, ht⟩ := parse_of_spells_deep hspells hdeep
  exact ⟨_, ht, rfl, rfl⟩

/-- `¬(A ∧ not_) → (p' ∨ A → _1)` is read again, and a chain of 51 arrows nests
too deep by one. -/
theorem parse_printed_arrows :
    (∀ printed ∈ ["¬(A ∧ not_) → (p' ∨ A → _1)",
        "\\lnot (A \\land not_) \\to (p' \\lor A \\to _1)"],
      parse printed = .ok (imp (neg (and (atom "A") (atom "not_")))
        (imp (or (atom "p'") (atom "A")) (atom "_1"))))
    ∧ ∀ printed ∈ [(arrows 51).plain, (arrows 51).tex], ∃ e, parse printed = .error e
      ∧ e.cause.kind = .unexpected ∧ e.cause.detail = "nesting too deep" := by
  refine ⟨fun printed hprinted => ?_, fun printed hprinted => ?_⟩
  · exact (parse_printed (imp (neg (and (atom "A") (atom "not_")))
      (imp (or (atom "p'") (atom "A")) (atom "_1"))) (by decide) printed hprinted).1 (by decide)
  · have hdeep : maxNesting < (arrows 51).nest := by
      rw [nest_arrows]
      decide
    exact (parse_printed _ (legible_arrows 51) printed hprinted).2 hdeep

end Formula

/-! ## Read, print and read -/

namespace Parser.Derives

variable {phrase : Phrase} {m : Nat} {ts : List Token} {f : Formula}

/-- The names in a formula are those of the atoms it was read from. -/
theorem exists_token (h : Derives phrase m ts f) {name : String} (hname : name ∈ f.names) :
    ∃ t ∈ ts, t.kind = .atom ∧ t.text = name := by
  induction h with
  | @atom t ht => exact ⟨t, List.mem_singleton_self t, ht, (List.mem_singleton.mp hname).symm⟩
  | not _ _ ih =>
    obtain ⟨t, ht, htext⟩ := ih hname
    exact ⟨t, List.mem_cons_of_mem _ ht, htext⟩
  | paren _ _ _ ih =>
    obtain ⟨t, ht, htext⟩ := ih hname
    exact ⟨t, List.mem_append_left _ (List.mem_cons_of_mem _ ht), htext⟩
  | ofNeg _ ih | ofConj _ ih | ofDisj _ ih => exact ih hname
  | and _ _ _ ihf ihg | or _ _ _ ihf ihg | imp _ _ _ ihf ihg =>
    obtain hname | hname := List.mem_append.mp hname
    · obtain ⟨t, ht, htext⟩ := ihf hname
      exact ⟨t, List.mem_append_left _ ht, htext⟩
    · obtain ⟨t, ht, htext⟩ := ihg hname
      exact ⟨t, List.mem_append_right _ (List.mem_cons_of_mem _ ht), htext⟩

end Parser.Derives

namespace Parser.Phrase

/-- How deep what is read as a phrase can nest in print, with its parentheses if
it is an operand, when it was read from a text that goes `m` levels deep. -/
def NestsWithin : Phrase → Nat → Formula → Prop
  | neg, m, f => Formula.levels f.isBinary f.nest ≤ 2 * m
  | conj, m, f => f.nest ≤ 2 * m
  | disj, m, f => Formula.levels f.isImp f.nest ≤ 2 * m + 1
  | impl, m, f => f.nest ≤ 2 * m + 1

end Parser.Phrase

namespace Formula

theorem le_levels (enclosed : Bool) (n : Nat) : n ≤ levels enclosed n := by
  cases enclosed
  · exact Nat.le_refl n
  · exact Nat.le_succ n

theorem levels_le (enclosed : Bool) (n : Nat) : levels enclosed n ≤ n + 1 := by
  cases enclosed
  · exact Nat.le_succ n
  · exact Nat.le_refl (n + 1)

end Formula

namespace Parser.Derives

open Formula

variable {phrase : Phrase} {m : Nat} {ts : List Token} {f : Formula}

/-- **Print nests at most about twice as deep as the text that was read**, as
the printer puts at most one pair of parentheses where the text had a level. -/
theorem nest_le (h : Derives phrase m ts f) : phrase.NestsWithin m f := by
  induction h with
  | atom _ => exact Nat.le_refl 0
  | @not _ m _ f _ _ ih =>
    have hbody : levels f.isBinary f.nest ≤ 2 * m := ih
    show levels f.isBinary f.nest + 1 ≤ 2 * (m + 1)
    omega
  | @paren _ _ m _ f _ _ _ ih =>
    have hinside : f.nest ≤ 2 * m + 1 := ih
    have hlevels := levels_le f.isBinary f.nest
    show levels f.isBinary f.nest ≤ 2 * (m + 1)
    omega
  | @ofNeg m _ f _ ih => exact (le_levels f.isBinary f.nest).trans ih
  | @and _ m n _ _ f g _ _ _ ihf ihg =>
    have hf : levels f.isBinary f.nest ≤ 2 * m := ihf
    have hg : levels g.isBinary g.nest ≤ 2 * n := ihg
    show max (levels f.isBinary f.nest) (levels g.isBinary g.nest) ≤ 2 * max m n
    omega
  | @ofConj m _ f _ ih => exact (levels_le f.isImp f.nest).trans (Nat.succ_le_succ ih)
  | @or _ m n _ _ f g _ _ _ ihf ihg =>
    have hf : levels f.isBinary f.nest ≤ 2 * m + 1 :=
      (levels_le f.isBinary f.nest).trans (Nat.succ_le_succ ihf)
    have hg : levels g.isBinary g.nest ≤ 2 * n + 1 :=
      (levels_le g.isBinary g.nest).trans (Nat.succ_le_succ ihg)
    show max (levels f.isBinary f.nest) (levels g.isBinary g.nest) ≤ 2 * max m n + 1
    omega
  | @ofDisj m _ f _ ih => exact (le_levels f.isImp f.nest).trans ih
  | @imp _ m n _ _ f g _ _ _ ihf ihg =>
    have hf : levels f.isImp f.nest ≤ 2 * m + 1 := ihf
    have hg : levels g.isImp g.nest ≤ 2 * n + 1 + 1 :=
      (levels_le g.isImp g.nest).trans (Nat.succ_le_succ ihg)
    show max (levels f.isImp f.nest) (levels g.isImp g.nest + 1) ≤ 2 * max m (n + 1) + 1
    omega

end Parser.Derives

namespace Formula

variable {f : Formula} {text : String}

/-- A formula that was read is derived from the tokens of its text. -/
theorem exists_derives_of_parse (h : parse text = .ok f) :
    ∃ tokens, scan text = .ok tokens ∧ ∃ m ≤ maxNesting, Derives .impl m tokens f := by
  rw [parse] at h
  cases hscan : scan text with
  | error e =>
    rw [hscan] at h
    cases h
  | ok tokens =>
    rw [hscan] at h
    exact ⟨tokens, rfl, formulaOfTokens_eq_ok_iff_derives.mp h⟩

/-- **A formula that was read has names that can be read.** -/
theorem legible_of_parse (h : parse text = .ok f) : f.Legible := by
  intro name hname
  obtain ⟨tokens, hscan, m, -, hder⟩ := exists_derives_of_parse h
  obtain ⟨t, ht, hkind, rfl⟩ := hder.exists_token hname
  exact isName_of_scanFrom hscan ht hkind

/-- The text `A → A → … → A`, in which `to` needs no parentheses on its right. -/
def arrowsText : Nat → String
  | 0 => "A"
  | n + 1 => joinOperands .plain .imp "A" (arrowsText n)

theorem spells_arrowsText (n : Nat) : Spells .impl n (arrowsText n).toList (arrows n) := by
  have hname : Spells .disj 0 "A".toList (atom "A") :=
    (Spells.name (by decide)).imp_phrase fun hder => hder.of_neg .disj
  induction n with
  | zero => exact hname.imp_phrase .ofDisj
  | succ n ih =>
    have hdepth : max 0 (n + 1) = n + 1 := Nat.max_eq_right (Nat.zero_le (n + 1))
    have hjoined : Spells .impl (max 0 (n + 1))
        ("A".toList
          ++ ' ' :: ((Connective.imp.symbol .plain).toList ++ ' ' :: (arrowsText n).toList))
        (arrows (n + 1)) := .joined .plain .imp hname ih
    rw [arrowsText, toList_joinOperands, ← hdepth]
    exact hjoined

/-- **Not everything that is read can be read again.** A chain of 51 arrows is
read, and its print is refused in either style. -/
theorem parse_printed_arrows_refused :
    parse (arrowsText 51) = .ok (arrows 51)
    ∧ ∀ printed ∈ [(arrows 51).plain, (arrows 51).tex],
      ∃ t, parse printed = .error (errorAt .nesting t) :=
  ⟨parse_of_spells (spells_arrowsText 51) (by decide), fun _ hprinted =>
    parse_of_spells_deep (spells_printed (legible_arrows 51) hprinted)
      (by rw [nest_arrows]; decide)⟩

/-- **What was read is read again from its print exactly if it does not nest too
deep there.** It does not if the text that it was read from went less than half
as deep as allowed. -/
theorem parse_printed_of_parse (h : parse text = .ok f) :
    (∀ printed ∈ [f.plain, f.tex], parse printed = .ok f ↔ f.nest ≤ maxNesting)
    ∧ ∀ tokens m, scan text = .ok tokens → Derives .impl m tokens f → 2 * m < maxNesting →
      ∀ printed ∈ [f.plain, f.tex], parse printed = .ok f := by
  have hiff : ∀ printed ∈ [f.plain, f.tex], parse printed = .ok f ↔ f.nest ≤ maxNesting := by
    intro printed hprinted
    have hspells := spells_printed (legible_of_parse h) hprinted
    refine ⟨fun hread => ?_, parse_of_spells hspells⟩
    by_contra hdeep
    obtain ⟨t, ht⟩ := parse_of_spells_deep hspells (Nat.lt_of_not_le hdeep)
    rw [hread] at ht
    cases ht
  refine ⟨hiff, fun tokens m _ hder hm printed hprinted => (hiff printed hprinted).mpr ?_⟩
  have hnest : f.nest ≤ 2 * m + 1 := hder.nest_le
  omega

/-- A chain of 49 arrows stays within half the levels allowed and is read again,
and one of 51 is read but not again. -/
theorem parse_printed_of_parse_arrows :
    (parse (arrowsText 49) = .ok (arrows 49)
      ∧ ∀ printed ∈ [(arrows 49).plain, (arrows 49).tex], parse printed = .ok (arrows 49))
    ∧ parse (arrowsText 51) = .ok (arrows 51)
      ∧ ∀ printed ∈ [(arrows 51).plain, (arrows 51).tex], parse printed ≠ .ok (arrows 51) := by
  have hread : ∀ n ≤ maxNesting, parse (arrowsText n) = .ok (arrows n) := fun n =>
    parse_of_spells (spells_arrowsText n)
  obtain ⟨tokens, hscan, hder⟩ := spells_arrowsText 49 0
  have hdeep : ¬ (arrows 51).nest ≤ maxNesting := by
    rw [nest_arrows]
    decide
  have h49 := hread 49 (by decide)
  have h51 := hread 51 (by decide)
  refine ⟨⟨h49, (parse_printed_of_parse h49).2 tokens 49 hscan hder (by decide)⟩, h51,
    fun printed hprinted hagain => ?_⟩
  exact hdeep (((parse_printed_of_parse h51).1 printed hprinted).mp hagain)

end Formula

end NaturalDeduction
