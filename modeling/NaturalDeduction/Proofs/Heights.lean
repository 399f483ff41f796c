import NaturalDeduction.Proofs.RoundTrip

/-!
# How high a formula that was read can be

All that works on a formula after it was read goes down its height, so the
height has to be bounded. The reader does not look at it. It counts levels, and
an `and` or an `or` makes a formula higher without opening one.

What keeps the height within bounds all the same is the grammar. Chains are
refused, so between one level and the next there is at most one `and` below one
`or` below one `to`, and each level adds at most three edges. Where no level can
be opened any more there is no room for a `to`, and two edges are left. This
gives a bound for each phrase (`Parser.Phrase.maxHeight`), and all of them have
to be carried along, as each phrase is made of tighter ones. An operand of `and`
has the bound of what stands in its parentheses, which go one level less deep.

The bound is reached at every depth (`Formula.tower`), by putting all three
connectives on top of what stands in parentheses.
-/

open NaturalDeduction.Token NaturalDeduction.Parser

namespace NaturalDeduction

/-- **The height of a formula**: the number of edges from its outermost
connective down to its deepest atom. -/
def Formula.height : Formula → Nat
  | atom _ => 0
  | neg body => body.height + 1
  | and left right | or left right | imp left right => max left.height right.height + 1

/-- **How high a phrase can be** that goes `m` levels deep. -/
def Parser.Phrase.maxHeight : Phrase → Nat → Nat
  | neg, m => 3 * m - 1
  | conj, m => 3 * m - 1 + 1
  | disj, m => 3 * m - 1 + 2
  | impl, m => 3 * m + 2

/-- **What the grammar derives is no higher than its levels allow.** -/
theorem Parser.Derives.height_le {phrase : Phrase} {m : Nat} {ts : List Token} {f : Formula}
    (h : Derives phrase m ts f) : f.height ≤ phrase.maxHeight m := by
  induction h with
  | atom _ => exact Nat.le_refl 0
  | @not _ m _ f _ _ ih =>
    have hbody : f.height ≤ 3 * m - 1 := ih
    show f.height + 1 ≤ 3 * (m + 1) - 1
    omega
  | @paren _ _ m _ f _ _ _ ih => exact ih
  | ofNeg _ ih => exact Nat.le_succ_of_le ih
  | @and _ m n _ _ f g _ _ _ ihf ihg =>
    have hf : f.height ≤ 3 * m - 1 := ihf
    have hg : g.height ≤ 3 * n - 1 := ihg
    show max f.height g.height + 1 ≤ 3 * max m n - 1 + 1
    omega
  | ofConj _ ih => exact Nat.le_succ_of_le ih
  | @or _ m n _ _ f g _ _ _ ihf ihg =>
    have hf : f.height ≤ 3 * m - 1 + 1 := ihf
    have hg : g.height ≤ 3 * n - 1 + 1 := ihg
    show max f.height g.height + 1 ≤ 3 * max m n - 1 + 2
    omega
  | @ofDisj m _ f _ ih =>
    have hf : f.height ≤ 3 * m - 1 + 2 := ih
    show f.height ≤ 3 * m + 2
    omega
  | @imp _ m n _ _ f g _ _ _ ihf ihg =>
    -- The `to` has opened a level, so the third edge of that level is free.
    have hf : f.height ≤ 3 * m - 1 + 2 := ihf
    have hg : g.height ≤ 3 * n + 2 := ihg
    show max f.height g.height + 1 ≤ 3 * max m (n + 1) + 2
    omega

namespace Formula

/-! ## The highest formulas -/

/-- **A formula as high as its levels allow**: on top of each level stand an
`and`, an `or` and a `to`. -/
def tower : Nat → Formula
  | 0 => or (and (atom "A") (atom "A")) (atom "A")
  | n + 1 => imp (or (and (tower n) (atom "A")) (atom "A")) (atom "A")

/-- The text of a tower, which has one pair of parentheses for each level. -/
def towerText : Nat → String
  | 0 => joinOperands .plain .or (joinOperands .plain .and "A" "A") "A"
  | n + 1 =>
    joinOperands .plain .imp
      (joinOperands .plain .or
        (joinOperands .plain .and (enclose true (towerText n)) "A") "A") "A"

theorem height_tower (n : Nat) : (tower n).height = 3 * n + 2 := by
  induction n with
  | zero => rfl
  | succ n ih =>
    have hstep : (tower (n + 1)).height
        = max (max (max (tower n).height 0 + 1) 0 + 1) 0 + 1 := rfl
    rw [hstep, ih]
    omega

theorem spells_towerText (n : Nat) : Spells .impl n (towerText n).toList (tower n) := by
  have hname : Spells .neg 0 "A".toList (atom "A") := .name (by decide)
  have hconj : Spells .conj 0 "A".toList (atom "A") := hname.imp_phrase .ofNeg
  induction n with
  | zero =>
    have hand : Spells .conj 0 (joinOperands .plain .and "A" "A").toList
        (and (atom "A") (atom "A")) := by
      rw [toList_joinOperands]
      exact .joined .plain .and hname hname
    rw [towerText, toList_joinOperands]
    exact (Spells.joined (k := 0) .plain .or hand hconj).imp_phrase .ofDisj
  | succ n ih =>
    have hparens : Spells .neg (n + 1) (enclose true (towerText n)).toList (tower n) := by
      have htext : (enclose true (towerText n)).toList = '(' :: (towerText n).toList ++ [')'] := by
        simp [enclose]
      rw [htext]
      exact ih.enclosed
    have hand : Spells .conj (n + 1)
        (joinOperands .plain .and (enclose true (towerText n)) "A").toList
        (and (tower n) (atom "A")) := by
      rw [toList_joinOperands]
      exact .joined .plain .and hparens hname
    have hor : Spells .disj (n + 1)
        (joinOperands .plain .or
          (joinOperands .plain .and (enclose true (towerText n)) "A") "A").toList
        (or (and (tower n) (atom "A")) (atom "A")) := by
      rw [toList_joinOperands]
      exact .joined .plain .or hand hconj
    have himpl : Spells .impl 0 "A".toList (atom "A") :=
      hname.imp_phrase fun hder => hder.of_neg .impl
    have hdepth : max (n + 1) (0 + 1) = n + 1 := by omega
    have htower := Spells.joined .plain .imp hor himpl
    rw [hdepth] at htower
    rw [towerText, toList_joinOperands]
    exact htower

theorem parse_towerText {n : Nat} (h : n ≤ maxNesting) : parse (towerText n) = .ok (tower n) :=
  parse_of_spells (spells_towerText n) h

/-! ## Texts -/

/-- **The limit on levels bounds the height of every formula that is read**, at
three edges for each level and two more, and there is a text whose formula is
as high as that. -/
theorem parse_height_le :
    (∀ text f, parse text = .ok f → f.height ≤ 3 * maxNesting + 2)
    ∧ 3 * maxNesting + 2 = 302
    ∧ ∃ text f, parse text = .ok f ∧ f.height = 302 := by
  refine ⟨fun text f h => ?_, rfl, towerText 100, tower 100, parse_towerText (Nat.le_refl 100),
    height_tower 100⟩
  obtain ⟨tokens, -, m, hm, hder⟩ := exists_derives_of_parse h
  have hheight : f.height ≤ 3 * m + 2 := hder.height_le
  omega

/-- A chain of a hundred arrows uses all levels, and with one edge for each of
them stays far below the bound. -/
theorem parse_height_le_arrows :
    parse (arrowsText 100) = .ok (arrows 100) ∧ (arrows 100).height ≤ 302 := by
  have hread : parse (arrowsText 100) = .ok (arrows 100) :=
    parse_of_spells (spells_arrowsText 100) (Nat.le_refl 100)
  exact ⟨hread, parse_height_le.1 _ _ hread⟩

end Formula

end NaturalDeduction
