import Mathlib.Data.List.DropRight
import NaturalDeduction.Bot.Mention

/-!
# A mention is read as it was composed

A mention is put together from handles, a gap, a request and perhaps the word
`tex`. That reading takes it apart again is not clear from the way in which the
parts are joined: handles may be written without a blank between them, the
request may hold at signs and the word `tex` itself, and there may be any
blanks around everything.

At the front it works since the characters of a name are neither blanks nor at
signs (`Text.isWordChar_of_isBlank`). A name ends where its handle ends, and
after the last handle the gap keeps the request away from it; so the handles go
one by one (`Bot.dropHandles_handles`).

At the back the last word is found from the end of the text. What the words of
a text are is said without looking at its end (`Text.words`), and the two come
together where a request is cut before its last word (`Text.Trimmed.cut`). A
request that is a single word is never cut, so that `tex` alone is a request.
-/

namespace NaturalDeduction

namespace Text

variable {bs cs ds : List Char}

/-! ## Blanks and words -/

/-- The characters are blanks, all of them. -/
def Blanks (cs : List Char) : Prop := ∀ c ∈ cs, isBlank c = true

instance decidableBlanks : DecidablePred Blanks :=
  fun cs => List.decidableBAll _ cs

/-- **A word**: some characters, none of which is a blank. -/
structure IsWord (cs : List Char) : Prop where
  ne_nil : cs ≠ []
  notBlank : ∀ c ∈ cs, isBlank c = false

/-- **A text without blanks at its ends.** -/
structure Trimmed (cs : List Char) : Prop where
  head : ∀ c ∈ cs.head?, isBlank c = false
  last : ∀ c ∈ cs.getLast?, isBlank c = false

/-- **The words of a text**: what stands between its blanks. -/
def words (cs : List Char) : List (List Char) :=
  (cs.splitOnP isBlank).filter (!·.isEmpty)

/-- The ranges of the blanks. -/
def blankRanges : List (Nat × Nat) :=
  [(0x09, 0x0D), (0x1C, 0x20), (0x85, 0x85), (0xA0, 0xA0), (0x1680, 0x1680), (0x2000, 0x200A),
    (0x2028, 0x2029), (0x202F, 0x202F), (0x205F, 0x205F), (0x3000, 0x3000)]

theorem exists_blankRange {c : Char} (h : isBlank c = true) :
    ∃ r ∈ blankRanges, r.1 ≤ c.toNat ∧ c.toNat ≤ r.2 := by
  simp only [isBlank, Bool.or_eq_true, Bool.and_eq_true, decide_eq_true_eq, beq_iff_eq] at h
  simp only [blankRanges, List.exists_mem_cons_iff, List.not_mem_nil, false_and, exists_false,
    or_false]
  omega

theorem blankRanges_apart : (blankRanges.all fun r =>
    alphanumericRanges.all fun s => Nat.blt s.2 r.1 || Nat.blt r.2 s.1) = true := by
  decide +kernel

/-- **No blank is part of a name.** -/
theorem isWordChar_of_isBlank {c : Char} (h : isBlank c = true) : isWordChar c = false := by
  obtain ⟨r, hr, hlow, hhigh⟩ := exists_blankRange h
  have hunderscore : (c == '_') = false := by
    refine beq_eq_false_iff_ne.mpr fun heq => ?_
    subst heq
    exact absurd h (by decide)
  rw [isWordChar, hunderscore, Bool.false_or]
  refine List.any_eq_false.mpr fun s hs hinside => ?_
  have hapart := List.all_eq_true.mp (List.all_eq_true.mp blankRanges_apart r hr) s hs
  simp only [Bool.or_eq_true, Nat.blt_eq] at hapart
  simp only [Bool.and_eq_true, decide_eq_true_eq] at hinside
  omega

/-! ## Trimming -/

theorem dropWhile_eq_self {p : Char → Bool} (h : ∀ c ∈ cs.head?, p c = false) :
    cs.dropWhile p = cs := by
  cases cs with
  | nil => rfl
  | cons c cs => exact List.dropWhile_cons_of_neg (Bool.eq_false_iff.mp (h c rfl))

theorem takeWhile_eq_nil {p : Char → Bool} (h : ∀ c ∈ cs.head?, p c = false) :
    cs.takeWhile p = [] := by
  cases cs with
  | nil => rfl
  | cons c cs => exact List.takeWhile_cons_of_neg (Bool.eq_false_iff.mp (h c rfl))

theorem trimLeft_append (h : Blanks bs) (cs : List Char) : trimLeft (bs ++ cs) = trimLeft cs :=
  List.dropWhile_append_of_pos h

theorem trimRight_append (h : Blanks bs) (cs : List Char) :
    trimRight (cs ++ bs) = trimRight cs := by
  have hreverse : Blanks bs.reverse := fun c hc => h c (List.mem_reverse.mp hc)
  rw [trimRight, List.reverse_append, List.dropWhile_append_of_pos hreverse, ← trimRight]

theorem trimRight_eq_self (h : ∀ c ∈ cs.getLast?, isBlank c = false) : trimRight cs = cs := by
  rw [trimRight, dropWhile_eq_self (by rwa [List.head?_reverse]), List.reverse_reverse]

/-! ## The last word -/

namespace IsWord

theorem last (h : IsWord cs) : ∀ c ∈ cs.getLast?, isBlank c = false :=
  fun c hc => h.notBlank c (List.mem_of_getLast? hc)

theorem notBlank_reverse (h : IsWord cs) : ∀ c ∈ cs.reverse, (!isBlank c) = true := fun c hc => by
  rw [h.notBlank c (List.mem_reverse.mp hc)]
  rfl

theorem words_eq (h : IsWord cs) : words cs = [cs] := by
  rw [words, List.splitOnP_eq_singleton h.notBlank]
  simpa using h.ne_nil

end IsWord

/-- The words on either side of a blank are the words of the whole. -/
theorem words_append_cons {c : Char} (h : isBlank c = true) (cs ds : List Char) :
    words (cs ++ c :: ds) = words cs ++ words ds := by
  rw [words, List.splitOnP_append_cons cs ds h, List.filter_append, ← words, ← words]

theorem words_blanks_append (h : Blanks bs) (cs : List Char) : words (bs ++ cs) = words cs := by
  induction bs with
  | nil => rfl
  | cons b bs ih =>
    obtain ⟨hb, hbs⟩ := List.forall_mem_cons.mp h
    rw [List.cons_append, ← List.nil_append (b :: _), words_append_cons hb, ih hbs]
    rfl

/-- Blanks between two texts add no word. -/
theorem words_append_append (h : Blanks bs) (hne : bs ≠ []) (cs ds : List Char) :
    words (cs ++ bs ++ ds) = words cs ++ words ds := by
  cases bs with
  | nil => exact absurd rfl hne
  | cons b bs =>
    obtain ⟨hb, hbs⟩ := List.forall_mem_cons.mp h
    rw [List.append_assoc, List.cons_append, words_append_cons hb, words_blanks_append hbs]

/-- A text that does not start with a blank has a word. -/
theorem words_ne_nil (hne : cs ≠ []) (h : ∀ c ∈ cs.head?, isBlank c = false) : words cs ≠ [] := by
  cases cs with
  | nil => exact absurd rfl hne
  | cons c cs =>
    rw [words, List.splitOnP_cons_eq_if_modifyHead, if_neg (Bool.eq_false_iff.mp (h c rfl))]
    obtain ⟨part, parts, hparts⟩ := List.exists_cons_of_ne_nil (List.splitOnP_ne_nil isBlank cs)
    rw [hparts, List.modifyHead_cons, List.filter_cons_of_pos rfl]
    exact List.cons_ne_nil _ _

/-- The last characters of one kind, and what stands before them. -/
theorem exists_cut_end (p : Char → Bool) (cs : List Char) :
    ∃ front back, cs = front ++ back ∧ (∀ c ∈ back, p c = true)
      ∧ ∀ c ∈ front.getLast?, p c = false := by
  refine ⟨cs.rdropWhile p, cs.rtakeWhile p, List.rdropWhile_append_rtakeWhile.symm,
    fun c hc => List.mem_rtakeWhile_imp hc, fun c hc => ?_⟩
  obtain ⟨hne, rfl⟩ := List.mem_getLast?_eq_getLast hc
  exact Bool.eq_false_iff.mpr (List.rdropWhile_last_not p cs hne)

/-- **A text is a word, or it is cut before its last word.** -/
theorem Trimmed.cut (h : Trimmed cs) (hne : cs ≠ []) :
    IsWord cs ∨ ∃ before sep word, cs = before ++ sep ++ word ∧ before ≠ [] ∧ Trimmed before
      ∧ Blanks sep ∧ sep ≠ [] ∧ IsWord word := by
  obtain ⟨rest, word, rfl, hword, hrest⟩ := exists_cut_end (!isBlank ·) cs
  obtain ⟨before, sep, rfl, hsep, hbefore⟩ := exists_cut_end isBlank rest
  have hnotBlank : ∀ c ∈ word, isBlank c = false := fun c hc => by simpa using hword c hc
  rcases eq_or_ne sep [] with rfl | hsepne
  · -- what ends in a blank and has no blanks at its end is empty
    left
    have hnil : before = [] := by
      rw [List.append_nil] at hrest
      refine List.getLast?_eq_none_iff.mp (Option.eq_none_iff_forall_not_mem.mpr fun c hc => ?_)
      have hblank := hrest c hc
      rw [hbefore c hc] at hblank
      cases hblank
    subst hnil
    exact ⟨hne, hnotBlank⟩
  · right
    have hbeforene : before ≠ [] := by
      rintro rfl
      obtain ⟨b, bs, rfl⟩ := List.exists_cons_of_ne_nil hsepne
      have hhead := h.head b rfl
      rw [hsep b List.mem_cons_self] at hhead
      cases hhead
    have hwordne : word ≠ [] := by
      rintro rfl
      rw [List.append_nil] at h
      have hlast := List.getLast?_eq_getLast_of_ne_nil
        (List.append_ne_nil_of_right_ne_nil before hsepne)
      have hblank := hrest _ hlast
      rw [h.last _ hlast] at hblank
      cases hblank
    refine ⟨before, sep, word, rfl, hbeforene, ⟨?_, hbefore⟩, hsep, hsepne, hwordne, hnotBlank⟩
    have hhead := h.head
    rwa [List.append_assoc, List.head?_append_of_ne_nil _ hbeforene] at hhead

end Text

namespace Bot

open Text

variable {bs cs rest : List Char}

/-! ## Handles -/

/-- **A handle as it is written**: an at sign and a name, after some blanks or
none. -/
structure Handle where
  /-- The blanks before the at sign. -/
  gap : List Char
  /-- What follows the at sign. -/
  name : List Char
  gap_blanks : Blanks gap
  name_ne_nil : name ≠ []
  isWordChar_name : ∀ c ∈ name, isWordChar c = true

/-- The handle with the blanks before it. -/
def Handle.text (h : Handle) : List Char := h.gap ++ '@' :: h.name

/-- A text that no name goes on into. -/
def EndsName (cs : List Char) : Prop := ∀ c ∈ cs.head?, isWordChar c = false

theorem endsName_of_blanks (h : Blanks bs) : EndsName bs :=
  fun c hc => isWordChar_of_isBlank (h c (List.mem_of_mem_head? hc))

theorem EndsName.append (h : EndsName bs) (hne : bs ≠ []) (cs : List Char) :
    EndsName (bs ++ cs) := by
  rw [EndsName, List.head?_append_of_ne_nil _ hne]
  exact h

theorem Handle.endsName (h : Handle) : EndsName h.text := by
  rw [Handle.text]
  rcases eq_or_ne h.gap [] with hgap | hgap
  · rw [hgap]
    intro c hc
    obtain rfl : '@' = c := Option.some.inj hc
    decide +kernel
  · exact (endsName_of_blanks h.gap_blanks).append hgap _

theorem Handle.text_ne_nil (h : Handle) : h.text ≠ [] :=
  List.append_ne_nil_of_right_ne_nil h.gap (List.cons_ne_nil '@' h.name)

theorem dropHandles_of_none (h : afterHandle? (trimLeft cs) = none) :
    dropHandles cs = trimLeft cs := by
  rw [dropHandles]
  split
  · next hsome => cases h.symm.trans hsome
  · rfl

theorem dropHandles_of_some (h : afterHandle? (trimLeft cs) = some rest) :
    dropHandles cs = dropHandles rest := by
  rw [dropHandles]
  split
  · next hsome => rw [Option.some.inj (h.symm.trans hsome)]
  · next hnone => cases h.symm.trans hnone

/-- **A handle is dropped** if its name ends where the handle ends. -/
theorem dropHandles_handle (h : Handle) (hrest : EndsName rest) :
    dropHandles (h.text ++ rest) = dropHandles rest := by
  apply dropHandles_of_some
  obtain ⟨c, name, hname⟩ := List.exists_cons_of_ne_nil h.name_ne_nil
  have hword := h.isWordChar_name
  rw [hname, List.forall_mem_cons] at hword
  have htrim : trimLeft (h.text ++ rest) = '@' :: c :: (name ++ rest) := by
    rw [Handle.text, hname, List.append_assoc, trimLeft_append h.gap_blanks]
    exact dropWhile_eq_self fun d hd => by
      obtain rfl : '@' = d := Option.some.inj hd
      decide
  rw [htrim, afterHandle?, if_pos hword.1, List.dropWhile_append_of_pos hword.2,
    dropWhile_eq_self hrest]

/-- **All handles are dropped**, whether there are blanks between them or
not. -/
theorem dropHandles_handles (handles : List Handle) (hrest : EndsName rest) :
    dropHandles (handles.flatMap Handle.text ++ rest) = dropHandles rest := by
  induction handles with
  | nil => rfl
  | cons h handles ih =>
    rw [List.flatMap_cons, List.append_assoc, dropHandles_handle, ih]
    cases handles with
    | nil => exact hrest
    | cons h' handles =>
      rw [List.flatMap_cons, List.append_assoc]
      exact h'.endsName.append h'.text_ne_nil _

/-! ## Requests -/

/-- **A request as it is written**: it is not empty, has no blanks at its ends
and does not start with a handle. -/
structure IsRequest (cs : List Char) : Prop extends Trimmed cs where
  ne_nil : cs ≠ []
  notHandle : ∀ c rest, cs = '@' :: c :: rest → isWordChar c = false

/-- A request is not made to start with a handle by what stands behind it, if
no name goes on into that. -/
theorem IsRequest.notHandle_append (h : IsRequest cs) (hrest : EndsName rest) (c : Char)
    (after : List Char) (heq : cs ++ rest = '@' :: c :: after) : isWordChar c = false := by
  rcases List.append_eq_cons_iff.mp heq with ⟨rfl, -⟩ | ⟨tail, rfl, htail⟩
  · exact absurd rfl h.ne_nil
  · cases tail with
    | nil =>
      rw [List.nil_append] at htail
      exact hrest c (by rw [← htail]; rfl)
    | cons d tail =>
      obtain ⟨rfl, -⟩ := List.cons.inj htail
      exact h.notHandle c tail rfl

theorem afterHandle?_eq_none (h : ∀ c after, cs = '@' :: c :: after → isWordChar c = false) :
    afterHandle? cs = none := by
  unfold afterHandle?
  split
  · next c rest => exact if_neg (Bool.eq_false_iff.mp (h c rest rfl))
  · rfl

/-- **What is left of a mention** without its handles and the blanks around the
request is the request. -/
theorem IsRequest.trim_dropHandles (h : IsRequest cs) (handles : List Handle)
    {gap ending : List Char} (hgap : Blanks gap) (hne : gap ≠ []) (hending : Blanks ending) :
    trim (dropHandles (handles.flatMap Handle.text ++ gap ++ cs ++ ending)) = cs := by
  have hhead : ∀ c ∈ (cs ++ ending).head?, isBlank c = false := by
    rw [List.head?_append_of_ne_nil _ h.ne_nil]
    exact h.head
  have htrim : trimLeft (cs ++ ending) = cs ++ ending := dropWhile_eq_self hhead
  have hgapped : trimLeft (gap ++ (cs ++ ending)) = cs ++ ending :=
    (trimLeft_append hgap _).trans htrim
  have hnone : afterHandle? (trimLeft (gap ++ (cs ++ ending))) = none := by
    rw [hgapped]
    exact afterHandle?_eq_none (h.notHandle_append (endsName_of_blanks hending))
  rw [List.append_assoc, List.append_assoc,
    dropHandles_handles handles ((endsName_of_blanks hgap).append hne _), dropHandles_of_none hnone,
    hgapped, trim, htrim, trimRight_append hending, trimRight_eq_self h.last]

/-- A request with one more word is a request. -/
theorem IsRequest.append (h : IsRequest cs) {sep word : List Char} (hsep : Blanks sep)
    (hne : sep ≠ []) (hword : IsWord word) : IsRequest (cs ++ sep ++ word) where
  head := by
    rw [List.append_assoc, List.head?_append_of_ne_nil _ h.ne_nil]
    exact h.head
  last := by
    rw [List.getLast?_append_of_ne_nil _ hword.ne_nil]
    exact hword.last
  ne_nil := List.append_ne_nil_of_right_ne_nil _ hword.ne_nil
  notHandle := by
    rw [List.append_assoc]
    exact h.notHandle_append ((endsName_of_blanks hsep).append hne word)

/-! ## The word that asks for TeX -/

/-- **The spellings of the word `tex`**, each letter in either case. -/
def texSpellings : List (List Char) :=
  ['t', 'T'].flatMap fun t => ['e', 'E'].flatMap fun e => ['x', 'X'].map fun x => [t, e, x]

theorem eq_or_of_toLower_eq {c l u : Char} (h : c.toLower = l) (hu : u.toNat + 32 = l.toNat) :
    c ∈ [l, u] := by
  by_cases hupper : c.val ≥ 'A'.val ∧ c.val ≤ 'Z'.val
  · have hval : c.toLower.val = c.val + ('a'.val - 'A'.val) := congrArg Char.val (dif_pos hupper)
    have hle : c.val.toNat ≤ 90 := UInt32.le_iff_toNat_le.mp hupper.2
    have hoffset : ('a'.val - 'A'.val).toNat = 32 := by decide
    have hnat : c.toNat + 32 = l.toNat := by
      rw [← h, Char.toNat, Char.toNat, hval, UInt32.toNat_add, hoffset, Nat.mod_eq_of_lt (by omega)]
    have heq : c = u := Char.toNat_inj.mp (by omega)
    exact heq ▸ List.mem_cons_of_mem _ List.mem_cons_self
  · have heq : c.toLower = c := dif_neg hupper
    rw [← h, heq]
    exact List.mem_cons_self

theorem asksForTex_iff {word : List Char} : asksForTex word = true ↔ word ∈ texSpellings := by
  refine ⟨fun h => ?_, fun h => ?_⟩
  · rw [asksForTex, beq_iff_eq] at h
    obtain ⟨t, tail, rfl, ht, htail⟩ := List.map_eq_cons_iff.mp h
    obtain ⟨e, tail, rfl, he, htail⟩ := List.map_eq_cons_iff.mp htail
    obtain ⟨x, tail, rfl, hx, htail⟩ := List.map_eq_cons_iff.mp htail
    obtain rfl := List.map_eq_nil_iff.mp htail
    refine List.mem_flatMap.mpr ⟨t, eq_or_of_toLower_eq ht (by decide), ?_⟩
    refine List.mem_flatMap.mpr ⟨e, eq_or_of_toLower_eq he (by decide), ?_⟩
    exact List.mem_map.mpr ⟨x, eq_or_of_toLower_eq hx (by decide), rfl⟩
  · revert word
    decide

theorem isWord_of_mem_texSpellings {word : List Char} (h : word ∈ texSpellings) : IsWord word := by
  have hall : ∀ word ∈ texSpellings, word ≠ [] ∧ (word.any isBlank) = false := by decide
  exact ⟨(hall word h).1, fun c hc => Bool.eq_false_iff.mpr
    (List.any_eq_false.mp (hall word h).2 c hc)⟩

/-! ## Reading -/

theorem splitLastWord_of_isWord (h : IsWord cs) : splitLastWord cs = ([], cs) := by
  rw [splitLastWord, List.dropWhile_eq_nil_iff.mpr h.notBlank_reverse,
    List.takeWhile_eq_self_iff.mpr h.notBlank_reverse, List.reverse_reverse]
  rfl

theorem splitLastWord_append {before sep word : List Char} (hbefore : Trimmed before)
    (hsep : Blanks sep) (hne : sep ≠ []) (hword : IsWord word) :
    splitLastWord (before ++ sep ++ word) = (before, word) := by
  have hstop : ∀ c ∈ (before ++ sep).reverse.head?, (!isBlank c) = false := fun c hc => by
    rw [List.head?_reverse, List.getLast?_append_of_ne_nil _ hne] at hc
    rw [hsep c (List.mem_of_getLast? hc)]
    rfl
  rw [splitLastWord, List.reverse_append, List.dropWhile_append_of_pos hword.notBlank_reverse,
    List.takeWhile_append_of_pos hword.notBlank_reverse, dropWhile_eq_self hstop,
    takeWhile_eq_nil hstop, List.append_nil, List.reverse_reverse, List.reverse_reverse,
    trimRight_append hsep, trimRight_eq_self hbefore.last]

/-- **A mention as it is composed**: handles, a gap, a request and an ending. -/
def compose (handles : List Handle) (gap request ending : List Char) : String :=
  String.ofList (handles.flatMap Handle.text ++ gap ++ request ++ ending)

/-- **A request that ends in a word for TeX**, with another word before it. -/
def EndsInTex (cs : List Char) : Prop :=
  2 ≤ (words cs).length ∧ ∃ word ∈ (words cs).getLast?, word ∈ texSpellings

instance decidableEndsInTex (cs : List Char) : Decidable (EndsInTex cs) :=
  inferInstanceAs (Decidable (_ ∧ _))

section Compose

variable {gap ending : List Char} (handles : List Handle) (hgap : Blanks gap) (hne : gap ≠ [])
  (hending : Blanks ending)

include hgap hne hending

theorem readRequest_of_isWord (h : IsRequest cs) (hword : IsWord cs) :
    readRequest (compose handles gap cs ending) = ⟨String.ofList cs, .plain⟩ := by
  rw [readRequest, compose, String.toList_ofList, h.trim_dropHandles handles hgap hne hending,
    splitLastWord_of_isWord hword]
  rfl

theorem readRequest_of_cut {before sep word : List Char} (h : IsRequest (before ++ sep ++ word))
    (hbefore : Trimmed before) (hbeforene : before ≠ []) (hsep : Blanks sep) (hsepne : sep ≠ [])
    (hword : IsWord word) :
    readRequest (compose handles gap (before ++ sep ++ word) ending) =
      if asksForTex word then ⟨String.ofList before, .tex⟩
      else ⟨String.ofList (before ++ sep ++ word), .plain⟩ := by
  have hfull : (!before.isEmpty) = true := by simpa using hbeforene
  rw [readRequest, compose, String.toList_ofList, h.trim_dropHandles handles hgap hne hending,
    splitLastWord_append hbefore hsep hsepne hword]
  dsimp only
  rw [hfull, Bool.true_and]

end Compose

/-- Cut before its last word, a request has as many words as the part before it
and one more. -/
theorem endsInTex_append_iff {before sep word : List Char} (hbefore : Trimmed before)
    (hne : before ≠ []) (hsep : Blanks sep) (hsepne : sep ≠ []) (hword : IsWord word) :
    EndsInTex (before ++ sep ++ word) ↔ asksForTex word = true := by
  have hlength := List.length_pos_of_ne_nil (words_ne_nil hne hbefore.head)
  rw [EndsInTex, words_append_append hsep hsepne, hword.words_eq, List.length_append,
    List.length_singleton, List.getLast?_concat, asksForTex_iff]
  constructor
  · rintro ⟨-, w, hw, htex⟩
    rwa [Option.some.inj hw]
  · exact fun htex => ⟨Nat.succ_le_succ hlength, word, rfl, htex⟩

/-- **A mention is read as it was composed.** However the handles, the gap and
the ending are written, the request is read back as it is, to be drawn plainly,
unless it has more than one word and the last of them is `tex` in some case;
and a request followed by blanks and such a word is read back as it is, to be
drawn in TeX. -/
theorem readRequest_compose (handles : List Handle) (gap request ending : List Char)
    (hgap : Blanks gap) (hne : gap ≠ []) (h : IsRequest request) (hending : Blanks ending) :
    (readRequest (compose handles gap request ending) = ⟨String.ofList request, .plain⟩ ↔
      ¬ EndsInTex request)
    ∧ ∀ sep word, Blanks sep → sep ≠ [] → word ∈ texSpellings →
      readRequest (compose handles gap (request ++ sep ++ word) ending) =
        ⟨String.ofList request, .tex⟩ := by
  refine ⟨?_, fun sep word hsep hsepne htex => ?_⟩
  · rcases h.cut h.ne_nil with
      hword | ⟨before, sep, word, rfl, hbeforene, hbefore, hsep, hsepne, hword⟩
    · refine iff_of_true (readRequest_of_isWord handles hgap hne hending h hword) fun hends => ?_
      have hlength := hends.1
      rw [hword.words_eq, List.length_singleton] at hlength
      exact absurd hlength (by decide)
    · rw [readRequest_of_cut handles hgap hne hending h hbefore hbeforene hsep hsepne hword,
        endsInTex_append_iff hbefore hbeforene hsep hsepne hword]
      split
      · next htex => simp [htex]
      · next htex => simp [htex]
  · have hword := isWord_of_mem_texSpellings htex
    have hlonger := h.append hsep hsepne hword
    rw [readRequest_of_cut handles hgap hne hending hlonger h.toTrimmed h.ne_nil hsep hsepne hword,
      if_pos (asksForTex_iff.mpr htex)]

/-- Two handles without a blank between them, and a request that starts with
`tex` and ends in something that looks like a handle. -/
theorem readRequest_compose_glued :
    readRequest "\n@proofbot@é_2\u3000 tex to @B \t" = ⟨"tex to @B", .plain⟩
    ∧ readRequest "\n@proofbot@é_2\u3000 tex to @B  TeX \t" = ⟨"tex to @B", .tex⟩ := by
  let bot : Handle :=
    ⟨['\n'], "proofbot".toList, by decide, by decide, List.all_eq_true.mp (by decide +kernel)⟩
  let friend : Handle :=
    ⟨[], "é_2".toList, by decide, by decide, List.all_eq_true.mp (by decide +kernel)⟩
  have hrequest : IsRequest "tex to @B".toList := by
    refine ⟨⟨fun c hc => ?_, fun c hc => ?_⟩, by decide, by simp⟩
    · obtain rfl : 't' = c := Option.some.inj hc
      decide
    · obtain rfl : 'B' = c := Option.some.inj hc
      decide
  obtain ⟨hplain, htex⟩ := readRequest_compose [bot, friend] ['\u3000', ' '] "tex to @B".toList
    [' ', '\t'] (by decide) (by decide) hrequest (by decide)
  exact ⟨hplain.mpr (by decide),
    htex [' ', ' '] ['T', 'e', 'X'] (by decide) (by decide) (by decide)⟩

end Bot

end NaturalDeduction
