import Mathlib.Data.List.TakeWhile
import NaturalDeduction.Token

/-!
# Scanning a text in pieces

A token takes as many characters as it can, so a text that is put together
from pieces need not have the tokens of its pieces: `A` followed by `B` is
one name. It has them if each piece after the first starts with a character
that no word and no command goes on with (`Token.Breaks`), which a blank and
a parenthesis are. Then nothing reaches over from one piece into the next
(`Token.scanFrom_append`), and a text can be scanned along the way in which
it was written.

The other side of names: the names of atoms that a scan gives are exactly the
words that spell no connective (`Token.IsName`), in that it gives no others
(`Token.isName_of_scanFrom`) and gives each of them as the single token it is
(`Token.scanFrom_name`).
-/

namespace NaturalDeduction

namespace Token

/-! ## Where a piece may end -/

/-- **A text that nothing reaches into**: it is empty or starts with a
character that no word goes on with. -/
def Breaks (cs : List Char) : Prop :=
  ∀ c ∈ cs.head?, isWordPart c = false

theorem breaks_cons {c : Char} {cs : List Char} (h : isWordPart c = false) : Breaks (c :: cs) := by
  intro d hd
  obtain rfl : c = d := Option.some.inj hd
  exact h

theorem isWordPart_of_isLetter {c : Char} (h : isLetter c = true) : isWordPart c = true := by
  simp only [isLetter] at h
  simp [isWordPart, Char.isAlphanum, h]

theorem takeWhile_append_of_breaks {p : Char → Bool} (hp : ∀ c, p c = true → isWordPart c = true)
    {ds : List Char} (hds : Breaks ds) (cs : List Char) :
    (cs ++ ds).takeWhile p = cs.takeWhile p := by
  have hnone : ds.takeWhile p = [] := by
    cases ds with
    | nil => rfl
    | cons d ds =>
      have hd : p d = false := Bool.eq_false_iff.mpr fun h => by
        have hpart := hds d rfl
        rw [hp d h] at hpart
        cases hpart
      rw [List.takeWhile_cons_of_neg (Bool.eq_false_iff.mp hd)]
  rw [List.takeWhile_append, hnone, List.append_nil]
  split
  · next hall => exact ((List.takeWhile_prefix p).eq_of_length hall).symm
  · rfl

/-- The characters of a token after its first are the next ones of the
text. -/
theorem tail_isPrefix_of_lead {c : Char} {rest tail : List Char} {kind : Kind}
    (h : lead c rest = .token kind tail) : tail <+: rest := by
  unfold lead at h
  split at h
  · cases h
  split at h
  · dsimp only at h
    split at h
    · cases h
      exact List.takeWhile_prefix isLetter
    · cases h
  split at h
  · dsimp only at h
    split at h <;> cases h <;> exact List.takeWhile_prefix isWordPart
  split at h
  · next harrow =>
    cases h
    simp only [Bool.and_eq_true, decide_eq_true_eq] at harrow
    obtain ⟨ds, rfl⟩ := List.head?_eq_some_iff.mp harrow.2
    exact ⟨ds, rfl⟩
  · split at h
    · cases h
      exact List.nil_prefix
    · cases h

/-- What a text starts with does not change if something is put after it that
nothing reaches into. The one exception is a lone `-`, which is no token and
may become one. -/
theorem lead_append {c : Char} {cs ds : List Char} (hds : Breaks ds)
    (h : ∀ tail, lead c cs ≠ .unknown tail) : lead c (cs ++ ds) = lead c cs := by
  have hhead : c = '-' → (cs ++ ds).head? = cs.head? := by
    rintro rfl
    cases cs with
    | nil => exact absurd rfl (h [])
    | cons d cs => rfl
  have harrow : (c = '-' && (cs ++ ds).head? = some '>') = (c = '-' && cs.head? = some '>') := by
    by_cases hc : c = '-'
    · rw [hhead hc]
    · simp [hc]
  simp only [lead, takeWhile_append_of_breaks (fun _ => isWordPart_of_isLetter) hds,
    takeWhile_append_of_breaks (fun _ hpart => hpart) hds, harrow]

/-! ## One token after the other -/

section Steps

variable {c : Char} {rest tail : List Char} {kind : Kind} {position : Nat} {ts : List Token}

@[simp] theorem scanFrom_nil (position : Nat) : scanFrom position [] = .ok [] := by
  rw [scanFrom.eq_def]

theorem scanFrom_of_blank (h : lead c rest = .blank)
    (hrest : scanFrom (position + 1) rest = .ok ts) :
    scanFrom position (c :: rest) = .ok ts := by
  rw [scanFrom.eq_def]
  dsimp only
  rw [h]
  exact hrest

theorem scanFrom_of_token (h : lead c rest = .token kind tail)
    (hrest : scanFrom (position + 1 + tail.length) (rest.drop tail.length) = .ok ts) :
    scanFrom position (c :: rest) = .ok (⟨kind, String.ofList (c :: tail), position⟩ :: ts) := by
  rw [scanFrom.eq_def]
  dsimp only
  rw [h]
  dsimp only
  rw [hrest]

/-- A token of one character that no character after it can change. -/
theorem scanFrom_of_glyph (h : lead c rest = .token kind [])
    (hrest : scanFrom (position + 1) rest = .ok ts) :
    scanFrom position (c :: rest) = .ok (⟨kind, String.ofList [c], position⟩ :: ts) :=
  scanFrom_of_token h hrest

/-- A text that is one token as a whole. -/
theorem scanFrom_of_whole (h : lead c rest = .token kind rest) :
    scanFrom position (c :: rest) = .ok [⟨kind, String.ofList (c :: rest), position⟩] := by
  refine scanFrom_of_token h ?_
  rw [List.drop_length, scanFrom_nil]

end Steps

/-- **A text is scanned in pieces**, if nothing reaches from one into the
next. -/
theorem scanFrom_append {position : Nat} {cs ds : List Char} {ts us : List Token}
    (hds : Breaks ds) (hcs : scanFrom position cs = .ok ts)
    (hds' : scanFrom (position + cs.length) ds = .ok us) :
    scanFrom position (cs ++ ds) = .ok (ts ++ us) := by
  fun_induction scanFrom position cs generalizing ts with
  | case1 position =>
    obtain rfl := Except.ok.inj hcs
    exact hds'
  | case2 position c rest hlead ih =>
    have hlead' : lead c (rest ++ ds) = .blank := by
      rw [lead_append hds (by simp [hlead]), hlead]
    refine scanFrom_of_blank hlead' (ih hcs ?_)
    rwa [List.length_cons, Nat.add_comm rest.length, ← Nat.add_assoc] at hds'
  | case3 position c rest kind tail hlead tokens htokens ih =>
    obtain rfl := Except.ok.inj hcs
    have hlead' : lead c (rest ++ ds) = .token kind tail := by
      rw [lead_append hds (by simp [hlead]), hlead]
    have htail : tail.length ≤ rest.length := (tail_isPrefix_of_lead hlead).length_le
    have hlength : position + 1 + tail.length + (rest.drop tail.length).length
        = position + (c :: rest).length := by
      rw [List.length_drop, List.length_cons]
      omega
    have hrest := ih htokens (hlength ▸ hds')
    rw [← List.drop_append_of_le_length htail] at hrest
    exact scanFrom_of_token hlead' hrest
  | case4 => cases hcs
  | case5 => cases hcs

/-! ## Names -/

/-- **A name that can be read**: a letter or an underscore, then letters,
digits, underscores and primes, and the word of no connective in any letter
case. -/
def IsName (name : String) : Prop :=
  name.toList.head?.any isWordStart ∧ name.toList.tail.all isWordPart
    ∧ ∀ c ∈ [Connective.neg, .and, .or, .imp], c.word ≠ String.ofList (name.toList.map Char.toLower)

instance : DecidablePred IsName := fun _ => inferInstanceAs (Decidable (_ ∧ _ ∧ _))

theorem not_isBlank_of_isWordStart {c : Char} (h : isWordStart c = true) :
    Text.isBlank c = false := by
  have hbounds : 65 ≤ c.toNat ∧ c.toNat ≤ 122 := by
    have hclasses : ((decide ('A'.val ≤ c.val ∧ c.val ≤ 'Z'.val)
        || (decide ('a'.val ≤ c.val) && decide (c.val ≤ 'z'.val))) || c == '_') = true := h
    simp only [Bool.or_eq_true, Bool.and_eq_true, decide_eq_true_eq, beq_iff_eq] at hclasses
    obtain (⟨hlow, hhigh⟩ | ⟨hlow, hhigh⟩) | rfl := hclasses
    · exact ⟨hlow, le_trans hhigh (by decide)⟩
    · exact ⟨le_trans (by decide) hlow, hhigh⟩
    · decide
  simp only [Text.isBlank, Bool.or_eq_false_iff, Bool.and_eq_false_iff, decide_eq_false_iff_not,
    beq_eq_false_iff_ne]
  omega

theorem connectiveOfWord?_eq_none_iff {cs : List Char} :
    connectiveOfWord? cs = none ↔
      ∀ c ∈ [Connective.neg, .and, .or, .imp], c.word ≠ String.ofList (cs.map Char.toLower) := by
  simp only [connectiveOfWord?, List.find?_eq_none, beq_iff_eq, ne_eq]

/-- A name is scanned as one token. -/
theorem scanFrom_name {name : String} (h : IsName name) (position : Nat) :
    scanFrom position name.toList = .ok [⟨.atom, name, position⟩] := by
  obtain ⟨hstart, hparts, hword⟩ := h
  cases hname : name.toList with
  | nil =>
    rw [hname] at hstart
    cases hstart
  | cons c cs =>
    rw [hname] at hstart hparts hword
    have hc : isWordStart c = true := hstart
    have hbackslash : c ≠ '\\' := by
      rintro rfl
      cases hc
    have hcs : cs.takeWhile isWordPart = cs :=
      List.takeWhile_eq_self_iff.mpr (List.all_eq_true.mp hparts)
    have hlead : lead c cs = .token .atom cs := by
      simp only [lead, not_isBlank_of_isWordStart hc, hbackslash, hc, hcs,
        connectiveOfWord?_eq_none_iff.mpr hword, Bool.false_eq_true, if_false, if_true]
    rw [scanFrom_of_whole hlead, ← hname, String.ofList_toList]

theorem isName_of_lead {c : Char} {rest tail : List Char} (h : lead c rest = .token .atom tail) :
    IsName (String.ofList (c :: tail)) := by
  unfold lead at h
  split at h
  · cases h
  split at h
  · dsimp only at h
    split at h <;> cases h
  split at h
  · next hstart =>
    dsimp only at h
    split at h
    · cases h
    · next hword =>
      cases h
      rw [IsName, String.toList_ofList]
      exact ⟨hstart, List.all_takeWhile, connectiveOfWord?_eq_none_iff.mp hword⟩
  split at h
  · cases h
  · unfold kindOfGlyph? at h
    split at h
    · next hkind => split at hkind <;> cases hkind <;> cases h
    · cases h

/-- **The atoms of a text have names that can be read.** -/
theorem isName_of_scanFrom {position : Nat} {cs : List Char} {ts : List Token}
    (h : scanFrom position cs = .ok ts) {t : Token} (ht : t ∈ ts) (hkind : t.kind = .atom) :
    IsName t.text := by
  fun_induction scanFrom position cs generalizing ts with
  | case1 =>
    obtain rfl := Except.ok.inj h
    cases ht
  | case2 position c rest hlead ih => exact ih h ht
  | case3 position c rest kind tail hlead tokens htokens ih =>
    obtain rfl := Except.ok.inj h
    obtain rfl | ht := List.mem_cons.mp ht
    · obtain rfl : kind = .atom := hkind
      exact isName_of_lead hlead
    · exact ih htokens ht
  | case4 => cases h
  | case5 => cases h

end Token

end NaturalDeduction
