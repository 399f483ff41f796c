import NaturalDeduction.Proofs.Scanning

/-!
# Lexemes and the longest match

What a text may be cut into is said without a scanner by classes of lexemes: a
run of blanks, a command, a word, an arrow, a glyph (`Token.Lexeme`). Which of
several lexemes a text starts with is then settled by one rule, that the longest
one counts (`Token.Longest`), and only after that it is asked what the lexeme
stands for (`Token.Denotes`). The order matters: a command takes all letters that
follow it, so that `\landB` is one lexeme, which stands for nothing, and not
`\land` followed by a name.

The scanner follows another plan. It looks at one character, commits itself to a
class, and takes characters as long as they belong to the class. That this comes
to the same rests on the classes having no first character in common, so that all
lexemes at a place are of one class and the longest of them is the one that takes
all it can (`Token.longest_takeWhile`).
-/

namespace NaturalDeduction

namespace Token

/-- **A lexeme**: what may be cut off a text in one piece. -/
inductive Lexeme : List Char → Prop where
  /-- A run of blanks. -/
  | blanks {c : Char} {cs : List Char} (hc : Text.isBlank c = true)
      (hcs : ∀ d ∈ cs, Text.isBlank d = true) : Lexeme (c :: cs)
  /-- A backslash with at least one letter after it. -/
  | command {cs : List Char} (hne : cs ≠ []) (hcs : ∀ d ∈ cs, isLetter d = true) :
      Lexeme ('\\' :: cs)
  /-- A word. -/
  | word {c : Char} {cs : List Char} (hc : isWordStart c = true)
      (hcs : ∀ d ∈ cs, isWordPart d = true) : Lexeme (c :: cs)
  /-- An arrow made of two characters. -/
  | arrow : Lexeme ['-', '>']
  /-- A character that stands for something on its own. -/
  | glyph {c : Char} {kind : Kind} (h : kindOfGlyph? c = some kind) : Lexeme [c]

/-- **What a lexeme stands for.** Blanks stand for nothing, and neither does a
command that is none of the connectives. -/
inductive Denotes : List Char → Kind → Prop where
  | command {cs : List Char} {c : Connective} (h : connectiveOfCommand? cs = some c) :
      Denotes ('\\' :: cs) (.connective c)
  | keyword {cs : List Char} {c : Connective} (h : connectiveOfWord? cs = some c) :
      Denotes cs (.connective c)
  | name {cs : List Char} (h : IsName (String.ofList cs)) : Denotes cs .atom
  | arrow : Denotes ['-', '>'] (.connective .imp)
  | glyph {c : Char} {kind : Kind} (h : kindOfGlyph? c = some kind) : Denotes [c] kind

/-- No lexeme stands for the end of a text. -/
theorem Denotes.ne_finish {cs : List Char} {kind : Kind} (h : Denotes cs kind) :
    kind ≠ .finish := by
  rintro rfl
  cases h with
  | glyph h =>
    unfold kindOfGlyph? at h
    split at h <;> cases h

/-- **The longest lexeme at the start of a text.** -/
structure Longest (cs text : List Char) : Prop where
  /-- The text starts with it. -/
  front : cs <+: text
  /-- It is a lexeme. -/
  lexeme : Lexeme cs
  /-- No lexeme that the text starts with is longer. -/
  longest : ∀ ds, ds <+: text → Lexeme ds → ds.length ≤ cs.length

theorem Longest.unique {cs ds text : List Char} (h : Longest cs text) (h' : Longest ds text) :
    cs = ds := by
  have hlength : cs.length = ds.length :=
    Nat.le_antisymm (h'.longest cs h.front h.lexeme) (h.longest ds h'.front h'.lexeme)
  exact (List.prefix_of_prefix_length_le h.front h'.front hlength.le).eq_of_length hlength

/-! ## First characters -/

section FirstCharacters

variable {c : Char} {tail : List Char} {kind : Kind}

/-- A glyph starts no other lexeme. -/
theorem glyph_apart (h : kindOfGlyph? c = some kind) :
    Text.isBlank c = false ∧ c ≠ '\\' ∧ isWordStart c = false ∧ c ≠ '-' := by
  unfold kindOfGlyph? at h
  split at h
  any_goals decide
  cases h

theorem Lexeme.tail_of_command (h : Lexeme ('\\' :: tail)) :
    tail ≠ [] ∧ ∀ d ∈ tail, isLetter d = true := by
  cases h with
  | blanks hc _ => exact absurd hc (by decide)
  | command hne hcs => exact ⟨hne, hcs⟩
  | word hc _ => exact absurd hc (by decide)
  | glyph h => cases h

theorem Lexeme.tail_of_word (hc : isWordStart c = true) (h : Lexeme (c :: tail)) :
    ∀ d ∈ tail, isWordPart d = true := by
  cases h with
  | blanks hblank _ =>
    rw [not_isBlank_of_isWordStart hc] at hblank
    cases hblank
  | command => exact absurd hc (by decide)
  | word _ hcs => exact hcs
  | arrow => exact absurd hc (by decide)
  | glyph => exact nofun

theorem Lexeme.tail_of_arrow (h : Lexeme ('-' :: tail)) : tail = ['>'] := by
  cases h with
  | blanks hc _ => exact absurd hc (by decide)
  | word hc _ => exact absurd hc (by decide)
  | arrow => rfl
  | glyph h => cases h

theorem Lexeme.tail_of_glyph (hc : kindOfGlyph? c = some kind) (h : Lexeme (c :: tail)) :
    tail = [] := by
  obtain ⟨hblank, hbackslash, hword, hminus⟩ := glyph_apart hc
  cases h with
  | blanks hc _ =>
    rw [hblank] at hc
    cases hc
  | command => exact absurd rfl hbackslash
  | word hc _ =>
    rw [hword] at hc
    cases hc
  | arrow => exact absurd rfl hminus
  | glyph => rfl

/-- A lexeme at the start of a text has the first character of the text. -/
theorem Lexeme.exists_cons {rest ds : List Char} (h : Lexeme ds) (hds : ds <+: c :: rest) :
    ∃ tail, ds = c :: tail ∧ tail <+: rest := by
  cases ds with
  | nil => cases h
  | cons d tail =>
    obtain ⟨rfl, htail⟩ := List.cons_prefix_cons.mp hds
    exact ⟨tail, rfl, htail⟩

end FirstCharacters

/-! ## Taking as much as one can -/

theorem isPrefix_takeWhile {p : Char → Bool} {cs rest : List Char} (h : cs <+: rest)
    (hcs : ∀ d ∈ cs, p d = true) : cs <+: rest.takeWhile p := by
  obtain ⟨after, rfl⟩ := h
  rw [List.takeWhile_append_of_pos hcs]
  exact List.prefix_append cs _

/-- **A lexeme that takes all it can of its class is the longest**, if its first
character leaves no other class. -/
theorem longest_takeWhile {p : Char → Bool} {c : Char} {rest : List Char}
    (hlexeme : Lexeme (c :: rest.takeWhile p))
    (hclass : ∀ tail, Lexeme (c :: tail) → ∀ d ∈ tail, p d = true) :
    Longest (c :: rest.takeWhile p) (c :: rest) := by
  refine ⟨List.cons_prefix_cons.mpr ⟨rfl, List.takeWhile_prefix p⟩, hlexeme, fun ds hds h => ?_⟩
  obtain ⟨tail, rfl, htail⟩ := h.exists_cons hds
  exact Nat.succ_le_succ (isPrefix_takeWhile htail (hclass tail h)).length_le

/-- What is taken stays the same if the text is cut off behind it. -/
theorem takeWhile_eq_of_front {p : Char → Bool} {front rest : List Char}
    (htaken : rest.takeWhile p <+: front) (hfront : front <+: rest) :
    front.takeWhile p = rest.takeWhile p := by
  have htaken' : rest.takeWhile p <+: front.takeWhile p :=
    isPrefix_takeWhile htaken fun d hd => List.mem_takeWhile_imp hd
  have hback : front.takeWhile p <+: rest.takeWhile p :=
    isPrefix_takeWhile ((List.takeWhile_prefix p).trans hfront)
      fun d hd => List.mem_takeWhile_imp hd
  exact hback.eq_of_length_le htaken'.length_le

/-! ## What the scanner finds -/

section Lead

variable {c : Char} {rest tail front : List Char} {kind : Kind}

theorem lead_eq_blank_iff : lead c rest = .blank ↔ Text.isBlank c = true := by
  unfold lead
  constructor
  · intro h
    split at h
    · assumption
    split at h
    · dsimp only at h
      split at h <;> cases h
    split at h
    · dsimp only at h
      split at h <;> cases h
    split at h
    · cases h
    · split at h <;> cases h
  · intro h
    rw [if_pos h]

/-- **What the scanner takes for a token is the longest lexeme**, and it takes it
for what the lexeme stands for. -/
theorem longest_of_lead (h : lead c rest = .token kind tail) :
    Longest (c :: tail) (c :: rest) ∧ Denotes (c :: tail) kind := by
  have hlead := h
  unfold lead at h
  split at h
  · cases h
  split at h
  · next hbackslash =>
    dsimp only at h
    split at h
    · next connective hcommand =>
      cases h
      obtain rfl := hbackslash
      have hne : rest.takeWhile isLetter ≠ [] := by
        intro hnil
        have hempty : connectiveOfCommand? [] = none := by decide
        rw [hnil, hempty] at hcommand
        cases hcommand
      exact ⟨longest_takeWhile (.command hne fun d hd => List.mem_takeWhile_imp hd)
        fun tail htail => htail.tail_of_command.2, .command hcommand⟩
    · cases h
  split at h
  · next hstart =>
    have hlongest : Longest (c :: rest.takeWhile isWordPart) (c :: rest) :=
      longest_takeWhile (.word hstart fun d hd => List.mem_takeWhile_imp hd)
        fun tail htail => htail.tail_of_word hstart
    dsimp only at h
    split at h
    · next connective hword =>
      cases h
      exact ⟨hlongest, .keyword hword⟩
    · cases h
      exact ⟨hlongest, .name (isName_of_lead hlead)⟩
  split at h
  · next harrow =>
    cases h
    simp only [Bool.and_eq_true, decide_eq_true_eq] at harrow
    obtain ⟨rfl, hhead⟩ := harrow
    obtain ⟨after, rfl⟩ := List.head?_eq_some_iff.mp hhead
    refine ⟨⟨⟨after, rfl⟩, .arrow, fun ds hds hlexeme => ?_⟩, .arrow⟩
    obtain ⟨tail, rfl, -⟩ := hlexeme.exists_cons hds
    rw [hlexeme.tail_of_arrow]
  · split at h
    · next hglyph =>
      cases h
      refine ⟨⟨⟨rest, rfl⟩, .glyph hglyph, fun ds hds hlexeme => ?_⟩, .glyph hglyph⟩
      obtain ⟨tail, rfl, -⟩ := hlexeme.exists_cons hds
      rw [hlexeme.tail_of_glyph hglyph]
    · cases h

/-- A command that is no connective stands for nothing. -/
theorem not_denotes_command (h : connectiveOfCommand? tail = none) (kind : Kind) :
    ¬ Denotes ('\\' :: tail) kind := by
  intro hdenotes
  cases hdenotes with
  | command h' =>
    rw [h] at h'
    cases h'
  | @keyword _ connective h' =>
    -- The lower case of a backslash is a backslash, and no word starts with one.
    have hword := List.find?_some h'
    rw [beq_iff_eq] at hword
    have hhead : connective.word.toList.head? = some '\\' := by
      rw [hword, String.toList_ofList]
      rfl
    revert hhead
    cases connective <;> decide
  | name h' =>
    have hstart := h'.1
    rw [String.toList_ofList] at hstart
    have hbackslash : isWordStart '\\' = true := hstart
    exact absurd hbackslash (by decide)
  | glyph h' => cases h'

/-- **Where the scanner finds no token there is none**: the text starts with no
lexeme at all, and one character of it is unknown, or its longest lexeme is a
command that stands for nothing. -/
theorem unknown_of_lead (h : lead c rest = .unknown tail) :
    (tail = [] ∧ ∀ cs, cs <+: c :: rest → ¬ Lexeme cs)
    ∨ (Longest (c :: tail) (c :: rest) ∧ Text.isBlank c = false
      ∧ ∀ kind, ¬ Denotes (c :: tail) kind) := by
  unfold lead at h
  split at h
  · cases h
  next hblank =>
  split at h
  · next hbackslash =>
    dsimp only at h
    split at h
    · cases h
    · next hcommand =>
      cases h
      obtain rfl := hbackslash
      by_cases hne : rest.takeWhile isLetter = []
      · refine .inl ⟨hne, fun cs hcs hlexeme => ?_⟩
        obtain ⟨tail, rfl, htail⟩ := hlexeme.exists_cons hcs
        obtain ⟨hne', hletters⟩ := hlexeme.tail_of_command
        have htaken := isPrefix_takeWhile htail hletters
        rw [hne] at htaken
        exact hne' (List.prefix_nil.mp htaken)
      · refine .inr ⟨longest_takeWhile (.command hne fun d hd => List.mem_takeWhile_imp hd)
          fun tail htail => htail.tail_of_command.2, by decide, not_denotes_command hcommand⟩
  next hbackslash =>
  split at h
  · dsimp only at h
    split at h <;> cases h
  next hstart =>
  split at h
  · cases h
  next harrow =>
  split at h
  · cases h
  · next hglyph =>
    cases h
    refine .inl ⟨rfl, fun cs hcs hlexeme => ?_⟩
    obtain ⟨tail, rfl, htail⟩ := hlexeme.exists_cons hcs
    cases hlexeme with
    | blanks hc _ => exact hblank hc
    | command => exact hbackslash rfl
    | word hc _ => exact hstart hc
    | arrow =>
      obtain ⟨after, rfl⟩ := htail
      exact harrow rfl
    | glyph h' =>
      rw [hglyph] at h'
      cases h'

/-- **A token does not depend on what follows it**: cut off anywhere behind it,
the text starts with the same token. -/
theorem lead_of_front (h : lead c rest = .token kind tail) (htail : tail <+: front)
    (hfront : front <+: rest) : lead c front = .token kind tail := by
  unfold lead at h ⊢
  split at h
  · cases h
  next hblank =>
  rw [if_neg hblank]
  split at h
  · next hbackslash =>
    rw [if_pos hbackslash]
    dsimp only at h ⊢
    split at h
    · next hcommand =>
      cases h
      rw [takeWhile_eq_of_front htail hfront, hcommand]
    · cases h
  next hbackslash =>
  rw [if_neg hbackslash]
  split at h
  · next hstart =>
    rw [if_pos hstart]
    dsimp only at h ⊢
    split at h
    all_goals
      next hword =>
      cases h
      rw [takeWhile_eq_of_front htail hfront, hword]
  next hstart =>
  rw [if_neg hstart]
  split at h
  · next harrow =>
    cases h
    obtain ⟨after, rfl⟩ := htail
    simp only [Bool.and_eq_true, decide_eq_true_eq] at harrow
    obtain rfl := harrow.1
    rfl
  · split at h
    · next hglyph =>
      cases h
      have hminus : c ≠ '-' := (glyph_apart hglyph).2.2.2
      simp only [hminus, decide_false, Bool.false_and, Bool.false_eq_true, if_false]
    · cases h

end Lead

end Token

end NaturalDeduction
