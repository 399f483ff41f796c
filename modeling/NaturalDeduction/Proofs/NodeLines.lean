import NaturalDeduction.ProofTree.Drawing
import NaturalDeduction.Proofs.Lines
import NaturalDeduction.Proofs.RoundTrip

/-!
# What the line of a node says

In the plain drawing a node has one line: its claim, and after it the number
that a leaf refers to or the numbers that an inference discharges
(`ProofTree.Note`). There is nothing to mark where the one ends and the other
begins, except that a printed formula has no colon in it and each of the two
notes has one. So the claim is what stands before the colon, less the word or
the blank that belongs to the note, and the line says no less than its parts
(`ProofTree.eq_of_plainLine_eq`).

That a formula can be told from its print is known from reading it again, and
not only up to the depth that the reader allows (`Formula.plain_injective`). It
needs names that can be read: an atom may be called `A from: 1`.
-/

namespace NaturalDeduction

/-- **A list is cut at its first separator**: two ways of putting it together
from a part without separators and a part that begins with one, or is empty,
are the same. -/
theorem eq_of_append_eq {α : Type} {sep : α → Prop} {xs ys us vs : List α}
    (hxs : ∀ x ∈ xs, ¬ sep x) (hys : ∀ y ∈ ys, ¬ sep y) (hus : ∀ u ∈ us.head?, sep u)
    (hvs : ∀ v ∈ vs.head?, sep v) (h : xs ++ us = ys ++ vs) : xs = ys ∧ us = vs := by
  -- the longer of the first parts would have the separator inside
  rcases List.append_eq_append_iff.mp h with ⟨more, rfl, rfl⟩ | ⟨more, rfl, rfl⟩
  · cases more with
    | nil => simp
    | cons b more => exact absurd (hus b rfl) (hys b (by simp))
  · cases more with
    | nil => simp
    | cons b more => exact absurd (hvs b rfl) (hxs b (by simp))

/-! ## Numbers -/

/-- A natural number is printed with digits. -/
theorem not_mem_repr {c : Char} (hdigit : c.isDigit = false) (n : Nat) : c ∉ n.repr.toList := by
  intro hc
  rw [Nat.toList_repr] at hc
  have htrue := Nat.isDigit_of_mem_toDigits (by decide) (by decide) hc
  exact absurd (htrue.symm.trans hdigit) (by decide)

/-- A number is printed with digits and a minus sign. -/
theorem not_mem_toString {c : Char} (hdigit : c.isDigit = false) (hsign : c ≠ '-') (n : Int) :
    c ∉ (toString n).toList := by
  rw [Int.toString_eq_repr, Int.repr_eq_if]
  split
  · exact not_mem_repr hdigit _
  · rw [String.toList_append, List.mem_append, not_or]
    exact ⟨fun h => hsign (List.mem_singleton.mp h), not_mem_repr hdigit _⟩

theorem eq_of_repr_eq {m n : Nat} (h : m.repr = n.repr) : m = n := by
  have hdigits := congrArg String.toList h
  rw [Nat.toList_repr, Nat.toList_repr] at hdigits
  calc
    m = Nat.ofDigitChars 10 (Nat.toDigits 10 m) 0 := Nat.ofDigitChars_ten_toDigits.symm
    _ = Nat.ofDigitChars 10 (Nat.toDigits 10 n) 0 := by rw [hdigits]
    _ = n := Nat.ofDigitChars_ten_toDigits

/-- **A number can be told from its print**: the sign is no digit, and the
digits are read back. -/
theorem toString_injective : Function.Injective (toString : Int → String) := by
  have hsign : ∀ (n : Nat) (text : String), n.repr ≠ "-" ++ text := fun n text h => by
    refine not_mem_repr (c := '-') (by decide) n ?_
    rw [h, String.toList_append]
    exact List.mem_cons_self
  intro m n h
  rw [Int.toString_eq_repr, Int.toString_eq_repr, Int.repr_eq_if, Int.repr_eq_if] at h
  split at h <;> split at h
  · have habs := eq_of_repr_eq h
    omega
  · exact absurd h (hsign _ _)
  · exact absurd h.symm (hsign _ _)
  · have habs := eq_of_repr_eq ((String.append_right_inj "-").mp h)
    omega

theorem toString_ne_none (n : Int) : toString n ≠ "None" := by
  intro h
  have hletter : 'N' ∉ (toString n).toList := not_mem_toString (by decide) (by decide) n
  rw [h] at hletter
  exact hletter (by decide)

namespace ProofTree

theorem referenceText_injective : Function.Injective referenceText := by
  intro m n h
  match m, n with
  | none, none => rfl
  | none, some n => exact absurd h.symm (toString_ne_none n)
  | some m, none => exact absurd h (toString_ne_none m)
  | some m, some n => exact congrArg some (toString_injective h)

/-- What follows the first number of a list. -/
def furtherNumbers : List Int → List Char
  | [] => []
  | n :: ns => ',' :: ' ' :: (numbersText (n :: ns)).toList

theorem toList_numbersText (n : Int) (ns : List Int) :
    (numbersText (n :: ns)).toList = (toString n).toList ++ furtherNumbers ns := by
  cases ns with
  | nil => simp [numbersText, furtherNumbers]
  | cons m ns => simp [numbersText, furtherNumbers]

theorem head_furtherNumbers (ns : List Int) : ∀ c ∈ (furtherNumbers ns).head?, c = ',' := by
  cases ns with
  | nil => exact nofun
  | cons n ns => exact fun c hc => (Option.some.inj hc).symm

theorem numbersText_cons_eq {n m : Int} {ns ms : List Int}
    (h : numbersText (n :: ns) = numbersText (m :: ms)) :
    n = m ∧ furtherNumbers ns = furtherNumbers ms := by
  have htext := congrArg String.toList h
  rw [toList_numbersText, toList_numbersText] at htext
  have hcomma : ∀ k : Int, ∀ c ∈ (toString k).toList, c ≠ ',' := fun k c hc heq =>
    not_mem_toString (by decide) (by decide) k (heq ▸ hc)
  obtain ⟨hfirst, hfurther⟩ := eq_of_append_eq (hcomma n) (hcomma m) (head_furtherNumbers ns)
    (head_furtherNumbers ms) htext
  exact ⟨toString_injective (String.toList_injective hfirst), hfurther⟩

/-- A list of numbers can be told from its print. -/
theorem eq_of_numbersText_eq {n m : Int} {ns ms : List Int}
    (h : numbersText (n :: ns) = numbersText (m :: ms)) : n :: ns = m :: ms := by
  induction ns generalizing n m ms with
  | nil =>
    obtain ⟨rfl, hfurther⟩ := numbersText_cons_eq h
    cases ms with
    | nil => rfl
    | cons m' ms => cases hfurther
  | cons n' ns ih =>
    obtain ⟨rfl, hfurther⟩ := numbersText_cons_eq h
    cases ms with
    | nil => cases hfurther
    | cons m' ms =>
      have hrest := (List.cons.inj (List.cons.inj hfurther).2).2
      rw [ih (String.toList_injective hrest)]

theorem oneLine_toString (n : Int) : Text.OneLine (toString n) :=
  not_mem_toString (by decide) (by decide) n

theorem oneLine_numbersText (ns : List Int) : Text.OneLine (numbersText ns) := by
  induction ns with
  | nil => decide
  | cons n ns ih =>
    show '\n' ∉ (numbersText (n :: ns)).toList
    rw [toList_numbersText, List.mem_append, not_or]
    refine ⟨oneLine_toString n, ?_⟩
    cases ns with
    | nil => exact List.not_mem_nil
    | cons m ns => simpa [furtherNumbers, Text.OneLine] using ih

end ProofTree

/-! ## Formulas -/

namespace Formula

variable {f g : Formula}

/-- **A formula can be told from its print.** -/
theorem plain_injective (hf : f.Legible) (hg : g.Legible) (h : f.plain = g.plain) : f = g := by
  have hprinted : ∀ x : Formula, x.plain ∈ [x.plain, x.tex] := fun x => List.mem_cons_self
  obtain ⟨ts, hscan, hder⟩ := spells_printed hf (hprinted f) 0
  obtain ⟨us, hscan', hder'⟩ := spells_printed hg (hprinted g) 0
  rw [h, hscan'] at hscan
  obtain rfl := Except.ok.inj hscan
  exact hder.unique hder'

/-- The characters in print that belong to no name. -/
def signs : List Char := [' ', '(', ')', '¬', '∧', '∨', '→']

theorem mem_enclose {needed : Bool} {text : String} {c : Char}
    (h : c ∈ (enclose needed text).toList) : c ∈ text.toList ∨ c ∈ signs := by
  cases needed with
  | false => exact .inl h
  | true =>
    simp only [enclose, if_true, String.toList_append, List.mem_append] at h
    rcases h with (h | h) | h
    · exact .inr (List.mem_singleton.mp h ▸ by decide)
    · exact .inl h
    · exact .inr (List.mem_singleton.mp h ▸ by decide)

theorem mem_joinOperands {k : Connective} {left right : String} {c : Char}
    (h : c ∈ (joinOperands .plain k left right).toList) :
    c ∈ left.toList ∨ c ∈ right.toList ∨ c ∈ signs := by
  have hsymbol : ∀ d ∈ (k.symbol .plain).toList, d ∈ signs := by
    cases k <;> simp [Connective.symbol, signs]
  have hblank : ' ' ∈ signs := by decide
  rw [toList_joinOperands] at h
  simp only [List.mem_append, List.mem_cons] at h
  rcases h with h | rfl | h | rfl | h
  · exact .inl h
  · exact .inr (.inr hblank)
  · exact .inr (.inr (hsymbol c h))
  · exact .inr (.inr hblank)
  · exact .inr (.inl h)

theorem isWordPart_of_isName {name : String} (h : Token.IsName name) :
    ∀ c ∈ name.toList, Token.isWordPart c = true := by
  obtain ⟨hstart, hparts, -⟩ := h
  cases hname : name.toList with
  | nil => exact nofun
  | cons d ds =>
    rw [hname] at hstart hparts
    have hd : Token.isWordStart d = true := hstart
    refine List.forall_mem_cons.mpr ⟨?_, List.all_eq_true.mp hparts⟩
    rcases Bool.or_eq_true_iff.mp hd with hd | hd
    · simp [Token.isWordPart, Char.isAlphanum, hd]
    · simp [Token.isWordPart, hd]

/-- **What a formula is printed with**: the characters of names, blanks,
parentheses and connectives. -/
theorem mem_plain (h : f.Legible) {c : Char} (hc : c ∈ f.plain.toList) :
    Token.isWordPart c = true ∨ c ∈ signs := by
  have hoperand : ∀ {x : Formula} {needed : Bool},
      (c ∈ x.plain.toList → Token.isWordPart c = true ∨ c ∈ signs) →
      c ∈ (enclose needed x.plain).toList → Token.isWordPart c = true ∨ c ∈ signs :=
    fun hx hmem => (mem_enclose hmem).elim hx .inr
  induction f with
  | atom name => exact .inl (isWordPart_of_isName (h name (List.mem_singleton_self name)) c hc)
  | neg body ih =>
    rw [plain, text, String.toList_append, List.mem_append] at hc
    rcases hc with hc | hc
    · exact .inr (List.mem_singleton.mp hc ▸ by decide)
    · exact hoperand (ih h) hc
  | and left right ihl ihr | or left right ihl ihr | imp left right ihl ihr =>
    rcases mem_joinOperands hc with hc | hc | hc
    · exact hoperand (ihl fun n hn => h n (List.mem_append_left _ hn)) hc
    · exact hoperand (ihr fun n hn => h n (List.mem_append_right _ hn)) hc
    · exact .inr hc

theorem ne_colon_of_mem_plain (h : f.Legible) : ∀ c ∈ f.plain.toList, c ≠ ':' := by
  rintro c hc rfl
  rcases mem_plain h hc with hword | hsign
  · exact absurd hword (by decide)
  · exact absurd hsign (by decide)

theorem oneLine_plain (h : f.Legible) : Text.OneLine f.plain := by
  intro hc
  rcases mem_plain h hc with hword | hsign
  · exact absurd hword (by decide)
  · exact absurd hsign (by decide)

end Formula

/-! ## Lines -/

namespace ProofTree

/-- **What the line of a node says besides its claim.** -/
inductive Note where
  /-- The number that a leaf refers to, if it has one. -/
  | refers (number : Option Int)
  /-- The numbers that an inference discharges. -/
  | closes (numbers : List Int)
deriving DecidableEq, Repr

/-- The note of a node. -/
def note (p : ProofTree) : Note :=
  if p.rule = .assumption then .refers p.reference else .closes p.discharged

/-- The note as it stands on the line. -/
def Note.text : Note → String
  | refers number => " from: " ++ referenceText number
  | closes [] => ""
  | closes (n :: ns) => " : " ++ numbersText (n :: ns)

/-- **A line is a claim and a note.** -/
theorem plainLine_eq (p : ProofTree) : p.plainLine = p.claim.plain ++ p.note.text := by
  unfold plainLine note
  split
  · rw [Note.text, String.append_assoc]
  · cases hd : p.discharged with
    | nil => simp [Note.text]
    | cons n ns => simp [Note.text, String.append_assoc]

/-- What a note has before its colon. -/
def Note.gap : Note → List Char
  | refers _ => [' ', 'f', 'r', 'o', 'm']
  | closes [] => []
  | closes (_ :: _) => [' ']

/-- A note from its colon on. -/
def Note.body : Note → List Char
  | refers number => ':' :: ' ' :: (referenceText number).toList
  | closes [] => []
  | closes (n :: ns) => ':' :: ' ' :: (numbersText (n :: ns)).toList

theorem toList_text (k : Note) : k.text.toList = k.gap ++ k.body := by
  rcases k with number | (_ | ⟨n, ns⟩) <;> simp [Note.text, Note.gap, Note.body]

theorem ne_colon_of_mem_gap (k : Note) : ∀ c ∈ k.gap, c ≠ ':' := by
  rcases k with number | (_ | ⟨n, ns⟩) <;> simp [Note.gap]

theorem head_body (k : Note) : ∀ c ∈ k.body.head?, c = ':' := by
  rcases k with number | (_ | ⟨n, ns⟩) <;> simp [Note.body]

/-- The two kinds of note have different letters before the colon. -/
theorem eq_of_body_eq {cs ds : List Char} {k l : Note} (hgap : cs ++ k.gap = ds ++ l.gap)
    (hbody : k.body = l.body) : k = l := by
  have hlast := congrArg List.getLast? hgap
  match k, l with
  | .refers m, .refers n =>
    have htext : (referenceText m).toList = (referenceText n).toList := by
      simpa [Note.body] using hbody
    exact congrArg Note.refers (referenceText_injective (String.toList_injective htext))
  | .refers _, .closes (_ :: _) | .closes (_ :: _), .refers _ => simp [Note.gap] at hlast
  | .refers _, .closes [] | .closes [], .refers _ => cases hbody
  | .closes [], .closes [] => rfl
  | .closes [], .closes (_ :: _) | .closes (_ :: _), .closes [] => cases hbody
  | .closes (n :: ns), .closes (m :: ms) =>
    have htext : (numbersText (n :: ns)).toList = (numbersText (m :: ms)).toList := by
      simpa [Note.body] using hbody
    exact congrArg Note.closes (eq_of_numbersText_eq (String.toList_injective htext))

/-- Claims without a colon, each with a note: where the lines are the same, both
parts are. -/
theorem eq_of_append_note {cs ds : List Char} {k l : Note} (hcs : ∀ c ∈ cs, c ≠ ':')
    (hds : ∀ c ∈ ds, c ≠ ':') (h : cs ++ k.text.toList = ds ++ l.text.toList) :
    cs = ds ∧ k = l := by
  rw [toList_text, toList_text, ← List.append_assoc, ← List.append_assoc] at h
  obtain ⟨hgap, hbody⟩ := eq_of_append_eq
    (List.forall_mem_append.mpr ⟨hcs, ne_colon_of_mem_gap k⟩)
    (List.forall_mem_append.mpr ⟨hds, ne_colon_of_mem_gap l⟩) (head_body k) (head_body l) h
  obtain rfl := eq_of_body_eq hgap hbody
  exact ⟨List.append_cancel_right hgap, rfl⟩

/-- **The line of a node tells its claim and its note**, if the names in it can
be read. -/
theorem eq_of_plainLine_eq {p q : ProofTree} (hp : p.claim.Legible) (hq : q.claim.Legible)
    (h : p.plainLine = q.plainLine) : p.claim = q.claim ∧ p.note = q.note := by
  have htext := congrArg String.toList h
  rw [plainLine_eq, plainLine_eq, String.toList_append, String.toList_append] at htext
  obtain ⟨hclaim, hnote⟩ := eq_of_append_note (Formula.ne_colon_of_mem_plain hp)
    (Formula.ne_colon_of_mem_plain hq) htext
  exact ⟨Formula.plain_injective hp hq (String.toList_injective hclaim), hnote⟩

theorem oneLine_plainLine {p : ProofTree} (h : Text.OneLine p.claim.plain) :
    Text.OneLine p.plainLine := by
  rw [plainLine_eq, Text.oneLine_append]
  refine ⟨h, ?_⟩
  match p.note with
  | .refers none => decide
  | .refers (some n) => exact Text.oneLine_append.mpr ⟨by decide, oneLine_toString n⟩
  | .closes [] => decide
  | .closes (n :: ns) => exact Text.oneLine_append.mpr ⟨by decide, oneLine_numbersText (n :: ns)⟩

end ProofTree

end NaturalDeduction
