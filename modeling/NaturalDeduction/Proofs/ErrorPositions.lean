import NaturalDeduction.Proofs.Grammar
import NaturalDeduction.Proofs.Scanning

/-!
# Where parse errors point

A parse error has a position and a fragment, and the fragment is what stands
in the text at the position (`ParseError.PointsInto`).

There are three steps to this. A scan cuts its tokens, and the lexeme it stops
at, out of the text (`Token.standsIn_of_scanFrom`). A reader of tokens has no
position of its own to report: an error of it is about one of the tokens it
was given, or about the end of the text (`Parser.About`, level by level in
`Parser.inner_points`). What is left are the two errors about the text as a
whole and about all that follows a formula.
-/

namespace NaturalDeduction

/-- **An error points into a text**: its position is a place of the text, and
its fragment is the part of the text from there on that is as long as the
fragment. It is empty at the end of the text only. -/
structure ParseError.PointsInto (e : ParseError) (text : String) : Prop where
  /-- The position is a place of the text, or its end. -/
  position_le : e.position ≤ text.length
  /-- The fragment stands there. -/
  fragment_eq :
    String.ofList ((text.toList.drop e.position).take e.fragment.length) = e.fragment
  /-- There is something at every place but the end. -/
  position_eq : e.fragment = "" → e.position = text.length

/-! ## Fragments of a text -/

/-- **A fragment stands in a text**, at a position, and is not empty. -/
def StandsIn (text : List Char) (position : Nat) (fragment : String) : Prop :=
  ∃ before c tail after, text = before ++ (c :: tail) ++ after
    ∧ before.length = position ∧ fragment = String.ofList (c :: tail)

theorem StandsIn.position_lt {text : List Char} {position : Nat} {fragment : String}
    (h : StandsIn text position fragment) : position < text.length := by
  obtain ⟨before, c, tail, after, rfl, rfl, -⟩ := h
  simp only [List.length_append, List.length_cons]
  omega

theorem StandsIn.pointsInto {text fragment : String} {position : Nat}
    (h : StandsIn text.toList position fragment) (cause : ParseError.Cause) :
    ParseError.PointsInto ⟨cause, position, fragment⟩ text := by
  have hlt : position < text.length := h.position_lt
  obtain ⟨before, c, tail, after, htext, rfl, rfl⟩ := h
  refine ⟨hlt.le, ?_, fun hempty => ?_⟩
  · show String.ofList
      ((text.toList.drop before.length).take (String.ofList (c :: tail)).length) = _
    rw [htext, List.append_assoc, List.drop_left, String.length_ofList, List.take_left]
  · have hnil : (String.ofList (c :: tail)).toList = [] := congrArg String.toList hempty
    rw [String.toList_ofList] at hnil
    cases hnil

/-- All that stands in a text from a fragment on stands in it too. -/
theorem StandsIn.rest {text : List Char} {position : Nat} {fragment : String}
    (h : StandsIn text position fragment) :
    StandsIn text position (String.ofList (text.drop position)) := by
  obtain ⟨before, c, tail, after, rfl, rfl, -⟩ := h
  exact ⟨before, c, tail ++ after, [], by simp, rfl, by simp⟩

namespace Token

/-! ## What a scan cuts out -/

/-- The characters of a lexeme after its first are the next ones of the text,
also if it is no token. -/
theorem tail_isPrefix_of_lead_unknown {c : Char} {rest tail : List Char}
    (h : lead c rest = .unknown tail) : tail <+: rest := by
  unfold lead at h
  split at h
  · cases h
  split at h
  · dsimp only at h
    split at h
    · cases h
    · cases h
      exact List.takeWhile_prefix isLetter
  split at h
  · dsimp only at h
    split at h <;> cases h
  split at h
  · cases h
  · split at h
    · cases h
    · cases h
      exact List.nil_prefix

theorem standsIn_of_isPrefix {before rest tail : List Char} {c : Char} (h : tail <+: rest) :
    StandsIn (before ++ c :: rest) before.length (String.ofList (c :: tail)) := by
  obtain ⟨after, rfl⟩ := h
  exact ⟨before, c, tail, after, by simp, rfl, rfl⟩

/-- The text is what stands before the next lexeme, the lexeme and what follows
it. -/
theorem append_drop_tail {before rest tail : List Char} {c : Char} (h : tail <+: rest) :
    before ++ c :: tail ++ rest.drop tail.length = before ++ c :: rest := by
  obtain ⟨after, rfl⟩ := h
  rw [List.drop_left, List.append_assoc, List.cons_append]

/-- **What a scan gives stands in the text**: each token of it, or the lexeme
at which it stops. The text is scanned from a position on. -/
theorem standsIn_of_scanFrom {position : Nat} (cs before : List Char)
    (hbefore : before.length = position) :
    (∀ ts, scanFrom position cs = .ok ts →
      ∀ t ∈ ts, StandsIn (before ++ cs) t.position t.text)
    ∧ ∀ e, scanFrom position cs = .error e → StandsIn (before ++ cs) e.position e.fragment := by
  fun_induction scanFrom position cs generalizing before with
  | case1 position =>
    refine ⟨fun ts hts t ht => ?_, fun e he => ?_⟩
    · cases hts
      cases ht
    · cases he
  | case2 position c rest hlead ih =>
    have hnext := ih (before ++ [c]) (by rw [List.length_append, hbefore]; rfl)
    rwa [List.append_assoc] at hnext
  | case3 position c rest kind tail hlead tokens htokens ih =>
    have htail := tail_isPrefix_of_lead hlead
    have hnext := ih (before ++ c :: tail) (by rw [List.length_append, List.length_cons]; omega)
    rw [append_drop_tail htail] at hnext
    refine ⟨fun ts hts t ht => ?_, fun e he => ?_⟩
    · cases hts
      obtain rfl | ht := List.mem_cons.mp ht
      · rw [← hbefore]
        exact standsIn_of_isPrefix htail
      · exact hnext.1 tokens htokens t ht
    · cases he
  | case4 position c rest kind tail hlead e he ih =>
    have hnext := ih (before ++ c :: tail) (by rw [List.length_append, List.length_cons]; omega)
    rw [append_drop_tail (tail_isPrefix_of_lead hlead)] at hnext
    refine ⟨fun ts hts => ?_, fun e' he' => ?_⟩
    · cases hts
    · cases he'
      exact hnext.2 e he
  | case5 position c rest tail hlead =>
    refine ⟨fun ts hts => ?_, fun e he => ?_⟩
    · cases hts
    · cases he
      rw [← hbefore]
      exact standsIn_of_isPrefix (tail_isPrefix_of_lead_unknown hlead)

end Token

namespace Parser

/-! ## What a reader complains about -/

/-- **An error about some tokens**: about one of them, or about the end of the
text they are from. -/
inductive About (finish : Nat) (tokens : List Token) : ParseError → Prop where
  /-- It has the position and the spelling of a token. -/
  | token (cause : ParseError.Cause) {t : Token} (ht : t ∈ tokens) :
      About finish tokens (errorAt cause t)
  /-- The tokens ended too early. -/
  | finish : About finish tokens ⟨.unexpectedEnd, finish, ""⟩

theorem About.mono {finish : Nat} {tokens tokens' : List Token} {e : ParseError}
    (h : About finish tokens e) (hsub : tokens ⊆ tokens') : About finish tokens' e := by
  cases h with
  | token cause ht => exact .token cause (hsub ht)
  | finish => exact .finish

/-- A reader whose errors are about the tokens it was given. -/
def Points (finish : Nat) (read : Reader) : Prop :=
  ∀ ⦃tokens e⦄, read tokens = .error e → About finish tokens e

/-- Readers for one level further in whose errors are about the tokens they
were given or about the one that opens the level. -/
structure Inner.Points (finish : Nat) (inner : Inner) : Prop where
  /-- What is wrong after a `not`. -/
  operand : ∀ ⦃t tokens e⦄, inner.operand t tokens = .error e → About finish (t :: tokens) e
  /-- What is wrong after a parenthesis or a `to`. -/
  formula : ∀ ⦃t tokens e⦄, inner.formula t tokens = .error e → About finish (t :: tokens) e

theorem Takes.subset {phrase : Phrase} {room : Nat} {tokens rest : List Token} {f : Formula}
    (h : Takes phrase room tokens f rest) : rest ⊆ tokens := by
  obtain ⟨_, ts, rfl, -, -⟩ := h
  exact List.subset_append_right ts rest

section Levels

variable {finish room : Nat} {inner : Inner}

theorem neg_points (hsound : inner.Sound room) (h : inner.Points finish) :
    Points finish (neg finish inner) := by
  intro tokens e hread
  cases tokens with
  | nil =>
    cases hread
    exact .finish
  | cons t rest =>
    simp only [neg] at hread
    split at hread
    · cases hread
    · split at hread
      · cases hread
      · next he =>
        cases hread
        exact h.operand he
    · split at hread
      · next he =>
        cases hread
        exact h.formula he
      · cases hread
        exact .token _ List.mem_cons_self
      · next body next rest' hf =>
        obtain ⟨_, -, htakes⟩ := hsound.formula hf
        split at hread
        · cases hread
        · cases hread
          exact .token _ (List.mem_cons_of_mem t (htakes.subset List.mem_cons_self))
    · cases hread
      exact .token _ List.mem_cons_self

/-- A chain complains about its operands, or about the connective that comes a
second time. -/
theorem chain_points {c : Connective} {join : Formula → Formula → Formula} {operand : Reader}
    {phrase : Phrase} (hsound : Sound phrase room operand) (h : Points finish operand) :
    Points finish (chain c join operand) := by
  intro tokens e hread
  simp only [chain] at hread
  split at hread
  · next he =>
    cases hread
    exact h he
  · cases hread
  · next left t rest hf =>
    have hrest : rest ⊆ tokens := List.subset_of_cons_subset (hsound hf).subset
    split at hread
    · split at hread
      · next he =>
        cases hread
        exact (h he).mono hrest
      · cases hread
      · next right again rest' hg =>
        split at hread
        · cases hread
          exact .token _ (hrest ((hsound hg).subset List.mem_cons_self))
        · cases hread
    · cases hread

theorem disj_points (hsound : inner.Sound room) (h : inner.Points finish) :
    Points finish (disj finish inner) :=
  chain_points (conj_sound hsound) (chain_points (neg_sound hsound) (neg_points hsound h))

theorem impl_points (hsound : inner.Sound room) (h : inner.Points finish) :
    Points finish (impl finish inner) := by
  intro tokens e hread
  simp only [impl] at hread
  split at hread
  · next he =>
    cases hread
    exact disj_points hsound h he
  · cases hread
  · next left t rest hf =>
    split at hread
    · split at hread
      · cases hread
      · next he =>
        cases hread
        exact (h.formula he).mono (disj_sound hsound hf).subset
    · cases hread

/-- **No reader points elsewhere**, level by level: with no room left the
error is about the token that opens the level. -/
theorem inner_points (finish room : Nat) : (Parser.inner finish room).Points finish := by
  induction room with
  | zero =>
    refine ⟨fun t tokens e he => ?_, fun t tokens e he => ?_⟩
    all_goals
      cases he
      exact .token _ List.mem_cons_self
  | succ room ih =>
    have hsound := inner_sound finish room
    exact ⟨fun t tokens e he => (neg_points hsound ih he).mono (List.subset_cons_self t tokens),
      fun t tokens e he => (impl_points hsound ih he).mono (List.subset_cons_self t tokens)⟩

end Levels

variable {text : String} {tokens : List Token} {e : ParseError}

theorem About.pointsInto (h : About text.length tokens e)
    (htokens : ∀ t ∈ tokens, StandsIn text.toList t.position t.text) : e.PointsInto text := by
  cases h with
  | token cause ht => exact (htokens _ ht).pointsInto cause
  | finish => exact ⟨le_rfl, by simp, fun _ => rfl⟩

theorem formulaOfTokens_pointsInto (h : formulaOfTokens text tokens = .error e)
    (htokens : ∀ t ∈ tokens, StandsIn text.toList t.position t.text) : e.PointsInto text := by
  have hsound := inner_sound text.length maxNesting
  unfold formulaOfTokens at h
  split at h
  · cases h
    refine ⟨Nat.zero_le _, ?_, fun hempty => ?_⟩
    · show String.ofList ((text.toList.drop 0).take text.length) = text
      rw [List.drop_zero, ← String.length_toList, List.take_length, String.ofList_toList]
    · obtain rfl : text = "" := hempty
      rfl
  · split at h
    · next he =>
      cases h
      exact (impl_points hsound (inner_points _ _) he).pointsInto htokens
    · cases h
    · next f t rest hf =>
      have ht := htokens t ((impl_sound hsound hf).subset List.mem_cons_self)
      split at h
      · cases h
        exact ht.pointsInto _
      · cases h
        exact ht.rest.pointsInto _

end Parser

/-! ## All errors -/

/-- **A parse error points at what stands in the text.** Any text is scanned
and read, or there is an error; the position of an error is a place of the
text or its end, and its fragment is what stands there. -/
theorem parse_error_pointsInto (text : String) :
    ((∃ tokens, Token.scanAll text = .ok tokens)
      ∨ ∃ e, Token.scanAll text = .error e ∧ e.PointsInto text)
    ∧ ((∃ f, Formula.parse text = .ok f)
      ∨ ∃ e, Formula.parse text = .error e ∧ e.PointsInto text) := by
  obtain ⟨htokens, herror⟩ := Token.standsIn_of_scanFrom text.toList [] rfl
  rw [Token.scanAll, Formula.parse, Token.scan]
  rcases hscan : Token.scanFrom 0 text.toList with e | tokens
  · have hpoints : e.PointsInto text := (herror e hscan).pointsInto e.cause
    exact ⟨.inr ⟨e, rfl, hpoints⟩, .inr ⟨e, rfl, hpoints⟩⟩
  · refine ⟨.inl ⟨_, rfl⟩, ?_⟩
    rcases hread : Parser.formulaOfTokens text tokens with e | f
    · exact .inr ⟨e, hread, Parser.formulaOfTokens_pointsInto hread (htokens tokens hscan)⟩
    · exact .inl ⟨f, hread⟩

end NaturalDeduction
