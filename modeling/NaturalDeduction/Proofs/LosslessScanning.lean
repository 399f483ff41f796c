import NaturalDeduction.Proofs.Lexemes

/-!
# Scanning loses nothing but blanks

The tokens of a text keep their spelling and their place, and between them there
is nothing but blanks. So the text can be told from its tokens up to its layout,
and the layout does not matter: the spellings with one blank between each and the
next have the same tokens again, at other places (`Token.scanAll_lossless`).

A scan that succeeds cuts the text into blanks and tokens, which is what
`Token.Cut` says, one piece after the other; where the tokens stand and what is
left between them is read off it by induction. A scan that fails has done so up
to the place where it fails (`Token.scanFrom_eq_error`), and what it has found by
then would be the same if the text ended there, since a token is recognised by its
own characters (`Token.lead_of_front`). That does not go the other way round: a
text that goes on may have a longer token at its end.
-/

namespace NaturalDeduction

namespace Token

/-! ## A text cut into tokens -/

/-- **A text cut into blanks and tokens**, from a position on. -/
inductive Cut : Nat → List Char → List Token → Prop where
  | nil (position : Nat) : Cut position [] []
  | blank {position : Nat} {c : Char} {rest : List Char} {ts : List Token}
      (hc : Text.isBlank c = true) (hrest : Cut (position + 1) rest ts) :
      Cut position (c :: rest) ts
  | token {position : Nat} {c : Char} {tail rest : List Char} {kind : Kind} {ts : List Token}
      (hlead : lead c (tail ++ rest) = .token kind tail)
      (hrest : Cut (position + 1 + tail.length) rest ts) :
      Cut position (c :: (tail ++ rest)) (⟨kind, String.ofList (c :: tail), position⟩ :: ts)

/-- A scan that succeeds cuts the text. -/
theorem cut_of_scanFrom {position : Nat} {cs : List Char} {ts : List Token}
    (h : scanFrom position cs = .ok ts) : Cut position cs ts := by
  fun_induction scanFrom position cs generalizing ts with
  | case1 position =>
    cases h
    exact .nil position
  | case2 position c rest hlead ih => exact .blank (lead_eq_blank_iff.mp hlead) (ih h)
  | case3 position c rest kind tail hlead tokens htokens ih =>
    cases h
    obtain ⟨after, rfl⟩ := tail_isPrefix_of_lead hlead
    rw [List.drop_left] at ih htokens
    exact .token hlead (ih htokens)
  | case4 => cases h
  | case5 => cases h

namespace Cut

variable {position : Nat} {cs : List Char} {ts : List Token}

/-- Every token is a lexeme that is a token on its own as well. -/
theorem isolated (h : Cut position cs ts) {t : Token} (ht : t ∈ ts) :
    ∃ c tail, t.text = String.ofList (c :: tail) ∧ lead c tail = .token t.kind tail := by
  induction h with
  | nil => cases ht
  | blank _ _ ih => exact ih ht
  | @token _ c tail rest kind ts hlead _ ih =>
    obtain rfl | ht := List.mem_cons.mp ht
    · exact ⟨c, tail, rfl, lead_of_front hlead List.prefix_rfl (List.prefix_append tail rest)⟩
    · exact ih ht

theorem kind_ne_finish (h : Cut position cs ts) {t : Token} (ht : t ∈ ts) : t.kind ≠ .finish := by
  obtain ⟨c, tail, -, hlead⟩ := h.isolated ht
  exact (longest_of_lead hlead).2.ne_finish

/-- The tokens stand in the part of the text that is cut. -/
theorem bounds (h : Cut position cs ts) {t : Token} (ht : t ∈ ts) :
    position ≤ t.position ∧ t.position < t.position + t.text.length
      ∧ t.position + t.text.length ≤ position + cs.length := by
  induction h with
  | nil => cases ht
  | blank _ _ ih =>
    obtain ⟨hlow, hlength, hhigh⟩ := ih ht
    rw [List.length_cons]
    omega
  | token _ _ ih =>
    rw [List.length_cons, List.length_append]
    obtain rfl | ht := List.mem_cons.mp ht
    · dsimp only
      rw [String.length_ofList, List.length_cons]
      omega
    · obtain ⟨hlow, hlength, hhigh⟩ := ih ht
      omega

/-- **The tokens stand one after the other**, each behind the end of the one
before. -/
theorem apart (h : Cut position cs ts) :
    ts.Pairwise fun a b => a.position + a.text.length ≤ b.position := by
  induction h with
  | nil => exact .nil
  | blank _ _ ih => exact ih
  | @token position c tail _ _ _ _ hrest ih =>
    refine List.pairwise_cons.mpr ⟨fun t ht => ?_, ih⟩
    have hlow := (hrest.bounds ht).1
    dsimp only
    rw [String.length_ofList, List.length_cons]
    omega

/-- **Each token is the longest lexeme at its place**, and of the kind that it
stands for. The part of the text that is cut stands behind `before`. -/
theorem longest (h : Cut position cs ts) (before : List Char) (hbefore : before.length = position)
    {t : Token} (ht : t ∈ ts) :
    Longest t.text.toList ((before ++ cs).drop t.position) ∧ Denotes t.text.toList t.kind := by
  induction h generalizing before with
  | nil => cases ht
  | @blank position c rest ts _ _ ih =>
    have hnext := ih (before ++ [c]) (by rw [List.length_append, hbefore]; rfl) ht
    rwa [List.append_assoc] at hnext
  | @token position c tail rest kind ts hlead _ ih =>
    obtain rfl | ht := List.mem_cons.mp ht
    · dsimp only
      rw [String.toList_ofList, ← hbefore, List.drop_left]
      exact longest_of_lead hlead
    · have hnext := ih (before ++ c :: tail)
        (by rw [List.length_append, List.length_cons]; omega) ht
      rwa [List.append_assoc, List.cons_append] at hnext

/-- **What no token covers is blank.** -/
theorem blank_or_covered (h : Cut position cs ts) {i : Nat} {c : Char} (hc : cs[i]? = some c) :
    Text.isBlank c = true
      ∨ ∃ t ∈ ts, t.position ≤ position + i ∧ position + i < t.position + t.text.length := by
  induction h generalizing i with
  | nil => cases hc
  | @blank position d rest ts hd _ ih =>
    cases i with
    | zero =>
      obtain rfl := Option.some.inj hc
      exact .inl hd
    | succ i =>
      rw [List.getElem?_cons_succ] at hc
      refine (ih hc).imp_right fun ⟨t, ht, hlow, hhigh⟩ => ⟨t, ht, ?_⟩
      omega
  | @token position d tail rest kind ts _ _ ih =>
    by_cases hi : i < tail.length + 1
    · refine .inr ⟨_, List.mem_cons_self, Nat.le_add_right position i, ?_⟩
      dsimp only
      rw [String.length_ofList, List.length_cons]
      omega
    · obtain ⟨k, rfl⟩ := Nat.exists_eq_add_of_le (Nat.le_of_not_lt hi)
      have hrest : rest[k]? = some c := by
        rw [← List.cons_append, List.getElem?_append_right (by rw [List.length_cons]; omega),
          List.length_cons, Nat.add_sub_cancel_left] at hc
        exact hc
      refine (ih hrest).imp_right fun ⟨t, ht, hlow, hhigh⟩ => ⟨t, List.mem_cons_of_mem _ ht, ?_⟩
      omega

end Cut

/-! ## The place where a scan fails -/

/-- **A scan that fails has succeeded up to the place where it does**, and finds
no token there. -/
theorem scanFrom_eq_error {position : Nat} {cs : List Char} {e : ParseError}
    (h : scanFrom position cs = .error e) :
    ∃ front c rest tail ts, cs = front ++ c :: rest ∧ scanFrom position front = .ok ts
      ∧ lead c rest = .unknown tail
      ∧ e = ⟨.unknownToken, position + front.length, String.ofList (c :: tail)⟩ := by
  fun_induction scanFrom position cs with
  | case1 => cases h
  | case2 position c rest hlead ih =>
    obtain ⟨front, d, rest', tail, ts, rfl, hfront, hunknown, rfl⟩ := ih h
    refine ⟨c :: front, d, rest', tail, ts, rfl, ?_, hunknown, ?_⟩
    · exact scanFrom_of_blank (lead_eq_blank_iff.mpr (lead_eq_blank_iff.mp hlead)) hfront
    · rw [List.length_cons, Nat.add_assoc, Nat.add_comm 1]
  | case3 => cases h
  | case4 position c rest kind tail hlead e' he ih =>
    cases h
    obtain ⟨after, rfl⟩ := tail_isPrefix_of_lead hlead
    rw [List.drop_left] at he ih
    obtain ⟨front, d, rest', tail', ts, rfl, hfront, hunknown, rfl⟩ := ih he
    refine ⟨c :: (tail ++ front), d, rest', tail',
      ⟨kind, String.ofList (c :: tail), position⟩ :: ts, by simp, ?_, hunknown, ?_⟩
    · refine scanFrom_of_token (lead_of_front hlead (List.prefix_append tail front) ?_) ?_
      · exact (List.prefix_append_right_inj tail).mpr (List.prefix_append front _)
      · rwa [List.drop_left]
    · rw [List.length_cons, List.length_append]
      congr 1
      omega
  | case5 position c rest tail hlead =>
    cases h
    exact ⟨[], c, rest, tail, [], rfl, scanFrom_nil position, hlead, rfl⟩

/-! ## Other layouts -/

/-- What a token says, wherever it stands. -/
def spelling (t : Token) : Kind × String := (t.kind, t.text)

/-- **The plainest layout of tokens**: their spellings with a blank between each
and the next. -/
def respaced (ts : List Token) : String := " ".intercalate (ts.map (·.text))

theorem toList_respaced_singleton (t : Token) : (respaced [t]).toList = t.text.toList := by
  rw [respaced, List.map_singleton, String.intercalate_singleton]

theorem toList_respaced_cons (t t' : Token) (ts : List Token) :
    (respaced (t :: t' :: ts)).toList = t.text.toList ++ ' ' :: (respaced (t' :: ts)).toList := by
  simp only [respaced, List.map_cons, String.intercalate_cons_cons, String.toList_append,
    List.append_assoc]
  rfl

/-- **Tokens that are tokens on their own are scanned again** from the plainest
layout, wherever the text starts. -/
theorem scanFrom_respaced {ts : List Token} (position : Nat)
    (h : ∀ t ∈ ts, ∃ c tail,
      t.text = String.ofList (c :: tail) ∧ lead c tail = .token t.kind tail) :
    ∃ us, scanFrom position (respaced ts).toList = .ok us ∧ us.map spelling = ts.map spelling := by
  induction ts generalizing position with
  | nil => exact ⟨[], scanFrom_nil position, rfl⟩
  | cons t ts ih =>
    rw [List.forall_mem_cons] at h
    obtain ⟨⟨c, tail, htext, hlead⟩, hrest⟩ := h
    have hfirst : scanFrom position t.text.toList = .ok [⟨t.kind, t.text, position⟩] := by
      rw [htext, String.toList_ofList]
      exact scanFrom_of_whole hlead
    cases ts with
    | nil =>
      rw [toList_respaced_singleton]
      exact ⟨_, hfirst, rfl⟩
    | cons t' ts =>
      obtain ⟨us, hus, hspelling⟩ := ih (position + t.text.toList.length + 1) hrest
      have hblank : Breaks (' ' :: (respaced (t' :: ts)).toList) := breaks_cons (by decide)
      rw [toList_respaced_cons]
      refine ⟨_, scanFrom_append hblank hfirst (scanFrom_of_blank rfl hus), ?_⟩
      exact congrArg (spelling t :: ·) hspelling

/-! ## Whole texts -/

/-- **Nothing of a text is lost in its tokens.** -/
structure Lossless (text : String) (tokens : List Token) : Prop where
  /-- The tokens are in the order of the text. -/
  increasing : tokens.Pairwise fun a b => a.position < b.position
  /-- The last of them marks the end of the text, and no other does. -/
  finish : ∃ ts, tokens = ts ++ [⟨.finish, "", text.length⟩] ∧ ∀ t ∈ ts, t.kind ≠ .finish
  /-- Each of the others is spelled as the text is at its place. -/
  slice : ∀ t ∈ tokens, t.kind ≠ .finish →
    String.ofList ((text.toList.drop t.position).take t.text.length) = t.text
  /-- It is the longest lexeme there, and of the kind that this stands for. -/
  longest : ∀ t ∈ tokens, t.kind ≠ .finish →
    Longest t.text.toList (text.toList.drop t.position) ∧ Denotes t.text.toList t.kind
  /-- Outside of them there are only blanks. -/
  outside : ∀ i c, text.toList[i]? = some c →
    (∀ t ∈ tokens, ¬ (t.position ≤ i ∧ i < t.position + t.text.length)) → Text.isBlank c = true

/-- **An error stands where there is no token.** -/
structure NoTokenAt (text : String) (e : ParseError) : Prop where
  /-- It says so. -/
  cause : e.cause = .unknownToken
  /-- There is something there. -/
  position_lt : e.position < text.length
  /-- All that stands before it has tokens. -/
  before : ∃ tokens, scanAll (String.ofList (text.toList.take e.position)) = .ok tokens
  /-- The longest lexeme there, if any, is neither blank nor a token. -/
  stuck : ∀ cs, Longest cs (text.toList.drop e.position) →
    (¬ ∀ c ∈ cs, Text.isBlank c = true) ∧ ∀ kind, ¬ Denotes cs kind
  /-- It is reported as a whole; if there is no lexeme, one character is. -/
  fragment : (∃ cs, Longest cs (text.toList.drop e.position) ∧ e.fragment = String.ofList cs)
    ∨ ((∀ cs, cs <+: text.toList.drop e.position → ¬ Lexeme cs)
      ∧ e.fragment = String.ofList ((text.toList.drop e.position).take 1))

theorem scanAll_eq_ok_iff {text : String} {tokens : List Token} :
    scanAll text = .ok tokens ↔
      ∃ ts, scanFrom 0 text.toList = .ok ts ∧ tokens = ts ++ [finishOf text] := by
  rw [scanAll, scan]
  cases scanFrom 0 text.toList with
  | error e => simp
  | ok ts => simp [eq_comm]

theorem scanAll_eq_error_iff {text : String} {e : ParseError} :
    scanAll text = .error e ↔ scanFrom 0 text.toList = .error e := by
  rw [scanAll, scan]
  cases scanFrom 0 text.toList <;> simp

/-- A text that is cut into tokens has nothing else in it. -/
theorem Cut.lossless {text : String} {ts : List Token} (h : Cut 0 text.toList ts) :
    Lossless text (ts ++ [finishOf text]) := by
  have hends : ∀ t ∈ ts, t.position < t.position + t.text.length
      ∧ t.position + t.text.length ≤ text.length := by
    intro t ht
    have hbounds := (h.bounds ht).2
    rwa [Nat.zero_add, String.length_toList] at hbounds
  have hlongest : ∀ t ∈ ts,
      Longest t.text.toList (text.toList.drop t.position) ∧ Denotes t.text.toList t.kind :=
    fun t ht => h.longest [] rfl ht
  have hmem : ∀ t ∈ ts ++ [finishOf text], t.kind ≠ .finish → t ∈ ts := by
    intro t ht hkind
    obtain ht | ht := List.mem_append.mp ht
    · exact ht
    · rw [List.mem_singleton.mp ht] at hkind
      exact absurd rfl hkind
  refine ⟨?_, ⟨ts, rfl, fun t ht => h.kind_ne_finish ht⟩, fun t ht hkind => ?_,
    fun t ht hkind => hlongest t (hmem t ht hkind), fun i c hc hnone => ?_⟩
  · refine List.pairwise_append.mpr ⟨?_, List.pairwise_singleton _ _, fun t ht u hu => ?_⟩
    · exact h.apart.imp_of_mem fun ha _ hab => (hends _ ha).1.trans_le hab
    · rw [List.mem_singleton.mp hu]
      exact (hends t ht).1.trans_le (hends t ht).2
  · have hfront := (hlongest t (hmem t ht hkind)).1.front
    rw [← String.length_toList, ← List.prefix_iff_eq_take.mp hfront, String.ofList_toList]
  · obtain hblank | ⟨t, ht, hlow, hhigh⟩ := h.blank_or_covered hc
    · exact hblank
    · rw [Nat.zero_add] at hlow hhigh
      exact absurd ⟨hlow, hhigh⟩ (hnone t (List.mem_append_left _ ht))

/-- There is no token where a scan fails. -/
theorem noTokenAt_of_scanFrom {text : String} {e : ParseError}
    (h : scanFrom 0 text.toList = .error e) : NoTokenAt text e := by
  obtain ⟨front, c, rest, tail, ts, htext, hfront, hunknown, rfl⟩ := scanFrom_eq_error h
  rw [Nat.zero_add] at h ⊢
  have hdrop : text.toList.drop front.length = c :: rest := by rw [htext, List.drop_left]
  have htake : text.toList.take front.length = front := by rw [htext, List.take_left]
  have hlength : text.length = front.length + (rest.length + 1) := by
    rw [← String.length_toList, htext, List.length_append, List.length_cons]
  have hbefore : ∃ tokens,
      scanAll (String.ofList (text.toList.take front.length)) = .ok tokens := by
    rw [htake]
    exact ⟨_, scanAll_eq_ok_iff.mpr ⟨ts, by rwa [String.toList_ofList], rfl⟩⟩
  refine ⟨rfl, ?_, hbefore, fun cs hcs => ?_, ?_⟩
  · show front.length < text.length
    omega
  · change Longest cs (text.toList.drop front.length) at hcs
    rw [hdrop] at hcs
    rcases unknown_of_lead hunknown with ⟨-, hnone⟩ | ⟨hlongest, hblank, hdenotes⟩
    · exact absurd hcs.lexeme (hnone cs hcs.front)
    · obtain rfl := hcs.unique hlongest
      refine ⟨fun hall => ?_, hdenotes⟩
      rw [hall c List.mem_cons_self] at hblank
      cases hblank
  · dsimp only
    rw [hdrop]
    rcases unknown_of_lead hunknown with ⟨rfl, hnone⟩ | ⟨hlongest, -, -⟩
    · exact .inr ⟨hnone, rfl⟩
    · exact .inl ⟨_, hlongest, rfl⟩

/-- **A text and its tokens have the same content.** If a text has tokens they are
its longest lexemes in their order, with nothing but blanks around them and one
mark at the end; and their spellings, with single blanks between them, have tokens
of the same kinds and spellings again. If a text has none, there is a first place
where neither a blank nor a token stands, and all before it has tokens. -/
theorem scanAll_lossless (text : String) :
    (∀ tokens, scanAll text = .ok tokens → Lossless text tokens
      ∧ ∃ again, scanAll (respaced (tokens.filter (·.kind ≠ .finish))) = .ok again
        ∧ again.map spelling = tokens.map spelling)
    ∧ ∀ e, scanAll text = .error e → NoTokenAt text e := by
  refine ⟨fun tokens htokens => ?_, fun e he => noTokenAt_of_scanFrom (scanAll_eq_error_iff.mp he)⟩
  obtain ⟨ts, hscan, rfl⟩ := scanAll_eq_ok_iff.mp htokens
  have hcut := cut_of_scanFrom hscan
  refine ⟨hcut.lossless, ?_⟩
  have hfilter : (ts ++ [finishOf text]).filter (·.kind ≠ .finish) = ts := by
    rw [List.filter_append,
      List.filter_eq_self.mpr fun t ht => decide_eq_true (hcut.kind_ne_finish ht)]
    exact List.append_nil ts
  obtain ⟨us, hus, hspelling⟩ := scanFrom_respaced 0 fun t ht => hcut.isolated ht
  rw [hfilter]
  refine ⟨_, scanAll_eq_ok_iff.mpr ⟨us, hus, rfl⟩, ?_⟩
  rw [List.map_append, List.map_append, hspelling]
  rfl

/-- The tokens of `~A->(nota' \TO_)`. -/
def crowdedTokens : List Token :=
  [⟨.connective .neg, "~", 0⟩, ⟨.atom, "A", 1⟩, ⟨.connective .imp, "->", 2⟩, ⟨.openParen, "(", 4⟩,
    ⟨.atom, "nota'", 5⟩, ⟨.connective .imp, "\\TO", 11⟩, ⟨.atom, "_", 14⟩, ⟨.closeParen, ")", 15⟩,
    ⟨.finish, "", 16⟩]

/-- Words stand next to signs without a blank, and a command ends where no letter
follows; a command that goes on with one is refused as a whole. -/
theorem scanAll_lossless_crowded :
    (scanAll "~A->(nota' \\TO_)" = .ok crowdedTokens
      ∧ Lossless "~A->(nota' \\TO_)" crowdedTokens
      ∧ ∃ again, scanAll "~ A -> ( nota' \\TO _ )" = .ok again
        ∧ again.map spelling = crowdedTokens.map spelling)
    ∧ scanAll "A \\landB" = .error ⟨.unknownToken, 2, "\\landB"⟩
      ∧ NoTokenAt "A \\landB" ⟨.unknownToken, 2, "\\landB"⟩ := by
  have hcrowded : scanAll "~A->(nota' \\TO_)" = .ok crowdedTokens := by decide +kernel
  have hrespaced : respaced (crowdedTokens.filter (·.kind ≠ .finish))
      = "~ A -> ( nota' \\TO _ )" := by decide +kernel
  have hrefused : scanAll "A \\landB" = .error ⟨.unknownToken, 2, "\\landB"⟩ := by decide +kernel
  obtain ⟨hlossless, hagain⟩ := (scanAll_lossless _).1 _ hcrowded
  rw [hrespaced] at hagain
  exact ⟨⟨hcrowded, hlossless, hagain⟩, hrefused, (scanAll_lossless _).2 _ hrefused⟩

end Token

end NaturalDeduction
