import Mathlib.Data.Nat.Basic
import NaturalDeduction.Formula.Parser

/-!
# What the grammar derives

The grammar of formulas, as a relation between tokens and the formula they
spell, against the functions that read them.

`Derives` has one rule for each alternative of the grammar. It also says how
deep a derivation goes, in the levels that are open at its deepest token, but
it puts no bound on that: the bound is the reader's. A reader that may still
open `room` levels takes off the front of a list exactly the phrases that go
no deeper (`impl_sound` with `inner_sound`, and `Derives.reader_eq_ok`).

A reader takes as much as it can, and the grammar does not say so. The two
agree on where a phrase ends if the next token could not go on with the
phrase (`Phrase.StopsAt`). In the grammar a phrase is followed by a looser
connective, by a closing parenthesis or by nothing, so this is always so.
That a list of tokens spells one formula at most then needs no argument of
its own, since the reader gives one formula at most.
-/

namespace NaturalDeduction

namespace Parser

/-- The phrases of the grammar, from the loosest to the tightest. -/
inductive Phrase where
  | impl
  | disj
  | conj
  | neg

/-- **The grammar.** `Derives phrase m ts f` says that the tokens `ts` are
derived as a phrase, that they spell `f`, and that `m` levels are open at the
deepest of them. -/
inductive Derives : Phrase → Nat → List Token → Formula → Prop where
  /-- An atom. -/
  | atom {t : Token} (ht : t.kind = .atom) : Derives .neg 0 [t] (.atom t.text)
  /-- A `not` opens a level for its operand. -/
  | not {t : Token} {m : Nat} {ts : List Token} {f : Formula} (ht : t.kind = .connective .neg)
      (hf : Derives .neg m ts f) : Derives .neg (m + 1) (t :: ts) (.neg f)
  /-- A parenthesis opens a level for what stands in it. -/
  | paren {o c : Token} {m : Nat} {ts : List Token} {f : Formula} (ho : o.kind = .openParen)
      (hc : c.kind = .closeParen) (hf : Derives .impl m ts f) :
      Derives .neg (m + 1) (o :: ts ++ [c]) f
  /-- A single operand of an `and`. -/
  | ofNeg {m : Nat} {ts : List Token} {f : Formula} (hf : Derives .neg m ts f) :
      Derives .conj m ts f
  /-- Two operands of an `and`. -/
  | and {t : Token} {m n : Nat} {ts us : List Token} {f g : Formula}
      (ht : t.kind = .connective .and) (hf : Derives .neg m ts f) (hg : Derives .neg n us g) :
      Derives .conj (max m n) (ts ++ t :: us) (.and f g)
  /-- A single operand of an `or`. -/
  | ofConj {m : Nat} {ts : List Token} {f : Formula} (hf : Derives .conj m ts f) :
      Derives .disj m ts f
  /-- Two operands of an `or`. -/
  | or {t : Token} {m n : Nat} {ts us : List Token} {f g : Formula}
      (ht : t.kind = .connective .or) (hf : Derives .conj m ts f) (hg : Derives .conj n us g) :
      Derives .disj (max m n) (ts ++ t :: us) (.or f g)
  /-- No `to`. -/
  | ofDisj {m : Nat} {ts : List Token} {f : Formula} (hf : Derives .disj m ts f) :
      Derives .impl m ts f
  /-- A `to` opens a level for its right side. -/
  | imp {t : Token} {m n : Nat} {ts us : List Token} {f g : Formula}
      (ht : t.kind = .connective .imp) (hf : Derives .disj m ts f) (hg : Derives .impl n us g) :
      Derives .impl (max m (n + 1)) (ts ++ t :: us) (.imp f g)

namespace Phrase

/-- The reader of a phrase. -/
def reader (finish : Nat) (inner : Inner) : Phrase → Reader
  | impl => Parser.impl finish inner
  | disj => Parser.disj finish inner
  | conj => Parser.conj finish inner
  | neg => Parser.neg finish inner

/-- The connectives a phrase would go on with, if one of them followed. -/
def connectives : Phrase → List Connective
  | impl => [.and, .or, .imp]
  | disj => [.and, .or]
  | conj => [.and]
  | neg => []

end Phrase

/-- Some tokens that do not start with a given connective. -/
def NotNext (c : Connective) (rest : List Token) : Prop :=
  ∀ t ∈ rest.head?, t.kind ≠ .connective c

/-- **A phrase ends here**: the next token is no connective it would go on
with. -/
def Phrase.StopsAt (phrase : Phrase) (rest : List Token) : Prop :=
  ∀ c ∈ phrase.connectives, NotNext c rest

theorem notNext_nil (c : Connective) : NotNext c [] := fun _ h => nomatch h

theorem Phrase.stopsAt_nil (phrase : Phrase) : phrase.StopsAt [] := fun c _ => notNext_nil c

/-- A phrase ends at a token of any kind but those it goes on with. -/
theorem Phrase.stopsAt_cons {phrase : Phrase} {t : Token} {rest : List Token}
    (h : ∀ c ∈ phrase.connectives, t.kind ≠ .connective c) : phrase.StopsAt (t :: rest) := by
  intro c hc u hu
  obtain rfl : t = u := Option.some.inj hu
  exact h c hc

/-- A phrase ends where a looser one does. -/
theorem Phrase.StopsAt.of_looser {tight loose : Phrase} {rest : List Token}
    (h : loose.StopsAt rest) (hsub : ∀ c ∈ tight.connectives, c ∈ loose.connectives) :
    tight.StopsAt rest := fun c hc => h c (hsub c hc)

/-! ## The readers, one phrase at a time

What a reader gives for each alternative of its phrase, and that it gives
nothing else. -/

section Neg

variable (finish : Nat) {inner : Inner} {t : Token} {tokens rest : List Token} {f : Formula}

theorem neg_of_atom (ht : t.kind = .atom) :
    neg finish inner (t :: rest) = .ok (.atom t.text, rest) := by
  simp only [neg, ht]

theorem neg_of_not (ht : t.kind = .connective .neg)
    (hf : inner.operand t tokens = .ok (f, rest)) :
    neg finish inner (t :: tokens) = .ok (.neg f, rest) := by
  simp only [neg, ht, hf]

theorem neg_of_paren {c : Token} (ht : t.kind = .openParen) (hc : c.kind = .closeParen)
    (hf : inner.formula t tokens = .ok (f, c :: rest)) :
    neg finish inner (t :: tokens) = .ok (f, rest) := by
  simp only [neg, ht, hf, hc, if_true]

theorem neg_error_of_not {e : ParseError} (ht : t.kind = .connective .neg)
    (hf : inner.operand t tokens = .error e) : neg finish inner (t :: tokens) = .error e := by
  simp only [neg, ht, hf]

theorem neg_error_of_paren {e : ParseError} (ht : t.kind = .openParen)
    (hf : inner.formula t tokens = .error e) : neg finish inner (t :: tokens) = .error e := by
  simp only [neg, ht, hf]

/-- **What `neg` reads** is one of its three alternatives. -/
theorem neg_cases {finish : Nat} (h : neg finish inner tokens = .ok (f, rest)) :
    (∃ t, tokens = t :: rest ∧ t.kind = .atom ∧ f = .atom t.text) ∨
    (∃ t tokens' g, tokens = t :: tokens' ∧ t.kind = .connective .neg ∧
      inner.operand t tokens' = .ok (g, rest) ∧ f = .neg g) ∨
    (∃ t tokens' c, tokens = t :: tokens' ∧ t.kind = .openParen ∧ c.kind = .closeParen ∧
      inner.formula t tokens' = .ok (f, c :: rest)) := by
  cases tokens with
  | nil => cases h
  | cons t tokens' =>
    simp only [neg] at h
    split at h
    · next ht =>
      cases h
      exact .inl ⟨t, rfl, ht, rfl⟩
    · next ht =>
      split at h
      · next hg =>
        cases h
        exact .inr (.inl ⟨t, tokens', _, rfl, ht, hg, rfl⟩)
      · cases h
    · next ht =>
      split at h
      · cases h
      · cases h
      · next c rest' hf =>
        split at h
        · next hc =>
          cases h
          exact .inr (.inr ⟨t, tokens', c, rfl, ht, hc, hf⟩)
        · cases h
    · cases h

end Neg

section Chain

variable {c : Connective} {join : Formula → Formula → Formula} {operand : Reader}
  {t : Token} {tokens tokens' rest : List Token} {f g : Formula}

theorem chain_of_one (hf : operand tokens = .ok (f, rest)) (hrest : NotNext c rest) :
    chain c join operand tokens = .ok (f, rest) := by
  cases rest with
  | nil => simp only [chain, hf]
  | cons t rest => simp only [chain, hf, if_neg (hrest t rfl)]

theorem chain_of_two (hf : operand tokens = .ok (f, t :: tokens')) (ht : t.kind = .connective c)
    (hg : operand tokens' = .ok (g, rest)) (hrest : NotNext c rest) :
    chain c join operand tokens = .ok (join f g, rest) := by
  cases rest with
  | nil => simp only [chain, hf, ht, hg, if_true]
  | cons u rest => simp only [chain, hf, ht, hg, if_true, if_neg (hrest u rfl)]

theorem chain_error_of_first {e : ParseError} (hf : operand tokens = .error e) :
    chain c join operand tokens = .error e := by
  simp only [chain, hf]

theorem chain_error_of_second {e : ParseError} (hf : operand tokens = .ok (f, t :: tokens'))
    (ht : t.kind = .connective c) (hg : operand tokens' = .error e) :
    chain c join operand tokens = .error e := by
  simp only [chain, hf, ht, hg, if_true]

/-- **What a chain reads** is one operand or two. -/
theorem chain_cases (h : chain c join operand tokens = .ok (f, rest)) :
    operand tokens = .ok (f, rest) ∨
    ∃ g₁ t tokens' g₂, operand tokens = .ok (g₁, t :: tokens') ∧ t.kind = .connective c ∧
      operand tokens' = .ok (g₂, rest) ∧ f = join g₁ g₂ := by
  simp only [chain] at h
  split at h
  · cases h
  · next hf =>
    cases h
    exact .inl hf
  · next g₁ t tokens' hf =>
    split at h
    · next ht =>
      split at h
      · cases h
      · next hg =>
        cases h
        exact .inr ⟨g₁, t, tokens', _, hf, ht, hg, rfl⟩
      · next hg =>
        split at h
        · cases h
        · cases h
          exact .inr ⟨g₁, t, tokens', _, hf, ht, hg, rfl⟩
    · cases h
      exact .inl hf

end Chain

section Impl

variable {finish : Nat} {inner : Inner} {t : Token} {tokens tokens' rest : List Token}
  {f g : Formula}

theorem impl_of_disj (hf : disj finish inner tokens = .ok (f, rest)) (hrest : NotNext .imp rest) :
    impl finish inner tokens = .ok (f, rest) := by
  cases rest with
  | nil => simp only [impl, hf]
  | cons t rest => simp only [impl, hf, if_neg (hrest t rfl)]

theorem impl_of_to (hf : disj finish inner tokens = .ok (f, t :: tokens'))
    (ht : t.kind = .connective .imp) (hg : inner.formula t tokens' = .ok (g, rest)) :
    impl finish inner tokens = .ok (.imp f g, rest) := by
  simp only [impl, hf, ht, hg, if_true]

theorem impl_error_of_disj {e : ParseError} (hf : disj finish inner tokens = .error e) :
    impl finish inner tokens = .error e := by
  simp only [impl, hf]

theorem impl_error_of_to {e : ParseError} (hf : disj finish inner tokens = .ok (f, t :: tokens'))
    (ht : t.kind = .connective .imp) (hg : inner.formula t tokens' = .error e) :
    impl finish inner tokens = .error e := by
  simp only [impl, hf, ht, hg, if_true]

/-- **What `impl` reads** is one of its two alternatives. -/
theorem impl_cases (h : impl finish inner tokens = .ok (f, rest)) :
    disj finish inner tokens = .ok (f, rest) ∨
    ∃ g₁ t tokens' g₂, disj finish inner tokens = .ok (g₁, t :: tokens') ∧
      t.kind = .connective .imp ∧ inner.formula t tokens' = .ok (g₂, rest) ∧ f = .imp g₁ g₂ := by
  simp only [impl] at h
  split at h
  · cases h
  · next hf =>
    cases h
    exact .inl hf
  · next g₁ t tokens' hf =>
    split at h
    · next ht =>
      split at h
      · next hg =>
        cases h
        exact .inr ⟨g₁, t, tokens', _, hf, ht, hg, rfl⟩
      · cases h
    · cases h
      exact .inl hf

end Impl

/-! ## What a reader takes is derived -/

/-- The front of some tokens, down to `rest`, is a phrase that spells `f` and
goes at most `room` levels deep. -/
def Takes (phrase : Phrase) (room : Nat) (tokens : List Token) (f : Formula)
    (rest : List Token) : Prop :=
  ∃ m ts, tokens = ts ++ rest ∧ m ≤ room ∧ Derives phrase m ts f

/-- A reader that takes nothing but phrases of one kind. -/
def Sound (phrase : Phrase) (room : Nat) (read : Reader) : Prop :=
  ∀ ⦃tokens f rest⦄, read tokens = .ok (f, rest) → Takes phrase room tokens f rest

/-- Readers for one level further in that take nothing but phrases that go
one level less deep. -/
structure Inner.Sound (room : Nat) (inner : Inner) : Prop where
  /-- What is read after a `not`. -/
  operand : ∀ ⦃t tokens f rest⦄, inner.operand t tokens = .ok (f, rest) →
    ∃ r, r + 1 ≤ room ∧ Takes .neg r tokens f rest
  /-- What is read after a parenthesis or a `to`. -/
  formula : ∀ ⦃t tokens f rest⦄, inner.formula t tokens = .ok (f, rest) →
    ∃ r, r + 1 ≤ room ∧ Takes .impl r tokens f rest

section Soundness

variable {finish room : Nat} {inner : Inner}

theorem neg_sound (h : inner.Sound room) : Sound .neg room (neg finish inner) := by
  intro tokens f rest hread
  obtain ⟨t, rfl, ht, rfl⟩ | ⟨t, tokens', g, rfl, ht, hg, rfl⟩ | ⟨t, tokens', c, rfl, ht, hc, hf⟩ :=
    neg_cases hread
  · exact ⟨0, [t], rfl, Nat.zero_le _, .atom ht⟩
  · obtain ⟨r, hr, m, ts, rfl, hm, hder⟩ := h.operand hg
    exact ⟨m + 1, t :: ts, rfl, by omega, .not ht hder⟩
  · obtain ⟨r, hr, m, ts, rfl, hm, hder⟩ := h.formula hf
    exact ⟨m + 1, t :: ts ++ [c], by simp, by omega, .paren ht hc hder⟩

/-- A chain of phrases is sound if its operand is. -/
theorem chain_sound {c : Connective} {join : Formula → Formula → Formula} {operand : Reader}
    {tight loose : Phrase} (h : Sound tight room operand)
    (one : ∀ {m ts f}, Derives tight m ts f → Derives loose m ts f)
    (two : ∀ {t m n ts us f g}, t.kind = .connective c → Derives tight m ts f →
      Derives tight n us g → Derives loose (max m n) (ts ++ t :: us) (join f g)) :
    Sound loose room (chain c join operand) := by
  intro tokens f rest hread
  obtain hf | ⟨g₁, t, tokens', g₂, hf, ht, hg, rfl⟩ := chain_cases hread
  · obtain ⟨m, ts, rfl, hm, hder⟩ := h hf
    exact ⟨m, ts, rfl, hm, one hder⟩
  · obtain ⟨m, ts, rfl, hm, hder⟩ := h hf
    obtain ⟨n, us, rfl, hn, hder'⟩ := h hg
    exact ⟨max m n, ts ++ t :: us, by simp, Nat.max_le.mpr ⟨hm, hn⟩, two ht hder hder'⟩

theorem conj_sound (h : inner.Sound room) : Sound .conj room (conj finish inner) :=
  chain_sound (neg_sound h) .ofNeg .and

theorem disj_sound (h : inner.Sound room) : Sound .disj room (disj finish inner) :=
  chain_sound (conj_sound h) .ofConj .or

theorem impl_sound (h : inner.Sound room) : Sound .impl room (impl finish inner) := by
  intro tokens f rest hread
  obtain hf | ⟨g₁, t, tokens', g₂, hf, ht, hg, rfl⟩ := impl_cases hread
  · obtain ⟨m, ts, rfl, hm, hder⟩ := disj_sound h hf
    exact ⟨m, ts, rfl, hm, .ofDisj hder⟩
  · obtain ⟨m, ts, rfl, hm, hder⟩ := disj_sound h hf
    obtain ⟨r, hr, n, us, rfl, hn, hder'⟩ := h.formula hg
    exact ⟨max m (n + 1), ts ++ t :: us, by simp, by omega, .imp ht hder hder'⟩

/-- The readers further in are sound, level by level: with no room left they
read nothing. -/
theorem inner_sound (finish room : Nat) : (Parser.inner finish room).Sound room := by
  induction room with
  | zero => exact ⟨fun _ _ _ _ h => (nomatch h), fun _ _ _ _ h => (nomatch h)⟩
  | succ room ih =>
    exact ⟨fun _ _ _ _ h => ⟨room, le_rfl, neg_sound ih h⟩,
      fun _ _ _ _ h => ⟨room, le_rfl, impl_sound ih h⟩⟩

end Soundness

/-! ## What is derived is read -/

/-- **A derived phrase is read**, and no more than it, if there is room for
its levels and the phrase ends where it ends. -/
theorem Derives.reader_eq_ok {phrase : Phrase} {m : Nat} {ts : List Token} {f : Formula}
    (h : Derives phrase m ts f) (finish : Nat) {room : Nat} (hroom : m ≤ room) {rest : List Token}
    (hrest : phrase.StopsAt rest) :
    phrase.reader finish (inner finish room) (ts ++ rest) = .ok (f, rest) := by
  -- The list of tokens is regrouped, where a phrase has parts, so that the
  -- tokens of each part come first.
  induction h generalizing room rest with
  | atom ht => exact neg_of_atom finish ht
  | not ht _ ih =>
    obtain ⟨room, rfl⟩ := Nat.exists_eq_add_of_le' (Nat.le_of_add_left_le hroom)
    exact neg_of_not finish ht (ih (Nat.le_of_succ_le_succ hroom) hrest)
  | paren ho hc _ ih =>
    obtain ⟨room, rfl⟩ := Nat.exists_eq_add_of_le' (Nat.le_of_add_left_le hroom)
    rw [List.cons_append, List.cons_append, List.append_assoc]
    refine neg_of_paren finish ho hc (ih (Nat.le_of_succ_le_succ hroom) (Phrase.stopsAt_cons ?_))
    simp [hc]
  | ofNeg _ ih => exact chain_of_one (ih hroom nofun) (hrest .and (by decide))
  | and ht _ _ ihf ihg =>
    obtain ⟨hm, hn⟩ := Nat.max_le.mp hroom
    rw [List.append_assoc, List.cons_append]
    exact chain_of_two (ihf hm nofun) ht (ihg hn nofun) (hrest .and (by decide))
  | ofConj _ ih =>
    exact chain_of_one (ih hroom (hrest.of_looser (by decide))) (hrest .or (by decide))
  | or ht _ _ ihf ihg =>
    obtain ⟨hm, hn⟩ := Nat.max_le.mp hroom
    rw [List.append_assoc, List.cons_append]
    refine chain_of_two (ihf hm (Phrase.stopsAt_cons ?_)) ht
      (ihg hn (hrest.of_looser (by decide))) (hrest .or (by decide))
    simp [ht, Phrase.connectives]
  | ofDisj _ ih =>
    exact impl_of_disj (ih hroom (hrest.of_looser (by decide))) (hrest .imp (by decide))
  | imp ht _ _ ihf ihg =>
    obtain ⟨hm, hn⟩ := Nat.max_le.mp hroom
    obtain ⟨room, rfl⟩ := Nat.exists_eq_add_of_le' (Nat.le_of_add_left_le hn)
    rw [List.append_assoc, List.cons_append]
    refine impl_of_to (ihf hm (Phrase.stopsAt_cons ?_)) ht (ihg (Nat.le_of_succ_le_succ hn) hrest)
    simp [ht, Phrase.connectives]

/-- **A phrase that goes too deep is refused for its depth** and for nothing
else: what is read before the level that is one too many is in order. -/
theorem Derives.reader_eq_nesting {phrase : Phrase} {m : Nat} {ts : List Token} {f : Formula}
    (h : Derives phrase m ts f) (finish : Nat) {room : Nat} (hroom : room < m) {rest : List Token}
    (hrest : phrase.StopsAt rest) :
    ∃ t, phrase.reader finish (inner finish room) (ts ++ rest) = .error (errorAt .nesting t) := by
  -- Of two operands the first is refused, or it is read and the second is.
  induction h generalizing room rest with
  | atom _ => exact absurd hroom (Nat.not_lt_zero room)
  | @not t _ ts _ ht _ ih =>
    cases room with
    | zero =>
      have hfull : (inner finish 0).operand t (ts ++ rest) = .error (errorAt .nesting t) := rfl
      exact ⟨t, neg_error_of_not finish ht hfull⟩
    | succ room =>
      obtain ⟨u, hu⟩ := ih (Nat.lt_of_succ_lt_succ hroom) hrest
      exact ⟨u, neg_error_of_not finish ht hu⟩
  | @paren o c _ ts _ ho hc _ ih =>
    rw [List.cons_append, List.cons_append, List.append_assoc]
    cases room with
    | zero =>
      have hfull : (inner finish 0).formula o (ts ++ ([c] ++ rest)) = .error (errorAt .nesting o) :=
        rfl
      exact ⟨o, neg_error_of_paren finish ho hfull⟩
    | succ room =>
      have hclose : Phrase.impl.StopsAt (c :: rest) := Phrase.stopsAt_cons (by simp [hc])
      obtain ⟨u, hu⟩ := ih (Nat.lt_of_succ_lt_succ hroom) hclose
      exact ⟨u, neg_error_of_paren finish ho hu⟩
  | ofNeg _ ih =>
    obtain ⟨u, hu⟩ := ih hroom nofun
    exact ⟨u, chain_error_of_first hu⟩
  | @and t m n _ _ _ _ ht hf _ ihf ihg =>
    rw [List.append_assoc, List.cons_append]
    obtain hm | hm := Nat.lt_or_ge room m
    · obtain ⟨u, hu⟩ := ihf hm nofun
      exact ⟨u, chain_error_of_first hu⟩
    · have hn : room < n := by omega
      obtain ⟨u, hu⟩ := ihg hn nofun
      exact ⟨u, chain_error_of_second (hf.reader_eq_ok finish hm nofun) ht hu⟩
  | ofConj _ ih =>
    obtain ⟨u, hu⟩ := ih hroom (hrest.of_looser (by decide))
    exact ⟨u, chain_error_of_first hu⟩
  | @or t m n _ us _ _ ht hf _ ihf ihg =>
    have hstop : Phrase.conj.StopsAt (t :: (us ++ rest)) :=
      Phrase.stopsAt_cons (by simp [ht, Phrase.connectives])
    rw [List.append_assoc, List.cons_append]
    obtain hm | hm := Nat.lt_or_ge room m
    · obtain ⟨u, hu⟩ := ihf hm hstop
      exact ⟨u, chain_error_of_first hu⟩
    · have hn : room < n := by omega
      obtain ⟨u, hu⟩ := ihg hn (hrest.of_looser (by decide))
      exact ⟨u, chain_error_of_second (hf.reader_eq_ok finish hm hstop) ht hu⟩
  | ofDisj _ ih =>
    obtain ⟨u, hu⟩ := ih hroom (hrest.of_looser (by decide))
    exact ⟨u, impl_error_of_disj hu⟩
  | @imp t m n _ us _ _ ht hf _ ihf ihg =>
    have hstop : Phrase.disj.StopsAt (t :: (us ++ rest)) :=
      Phrase.stopsAt_cons (by simp [ht, Phrase.connectives])
    rw [List.append_assoc, List.cons_append]
    obtain hm | hm := Nat.lt_or_ge room m
    · obtain ⟨u, hu⟩ := ihf hm hstop
      exact ⟨u, impl_error_of_disj hu⟩
    · have hn : room < n + 1 := by omega
      have hleft := hf.reader_eq_ok finish hm hstop
      cases room with
      | zero => exact ⟨t, impl_error_of_to hleft ht rfl⟩
      | succ room =>
        obtain ⟨u, hu⟩ := ihg (Nat.lt_of_succ_lt_succ hn) hrest
        exact ⟨u, impl_error_of_to hleft ht hu⟩

/-! ## Texts -/

/-- A whole list of tokens is read if it is read as one `impl` with nothing
left. -/
theorem formulaOfTokens_eq_ok {text : String} {tokens : List Token} {f : Formula} :
    formulaOfTokens text tokens = .ok f ↔
      impl text.length (inner text.length maxNesting) tokens = .ok (f, []) := by
  cases tokens with
  | nil => constructor <;> exact nofun
  | cons t rest =>
    simp only [formulaOfTokens]
    constructor
    · intro h
      split at h
      · cases h
      · next hread =>
        cases h
        exact hread
      · split at h <;> cases h
    · intro h
      rw [h]

/-- **A list of tokens is read as what the grammar derives from it**, within
the levels allowed. -/
theorem formulaOfTokens_eq_ok_iff_derives {text : String} {tokens : List Token} {f : Formula} :
    formulaOfTokens text tokens = .ok f ↔ ∃ m ≤ maxNesting, Derives .impl m tokens f := by
  rw [formulaOfTokens_eq_ok]
  constructor
  · intro h
    obtain ⟨m, ts, rfl, hm, hder⟩ := impl_sound (inner_sound text.length maxNesting) h
    exact ⟨m, hm, by rwa [List.append_nil]⟩
  · rintro ⟨m, hm, hder⟩
    have hread := hder.reader_eq_ok text.length hm (Phrase.stopsAt_nil .impl)
    rwa [List.append_nil] at hread

/-- **A list of tokens whose derivation goes deeper than allowed is refused**
for its depth. -/
theorem formulaOfTokens_eq_nesting {text : String} {tokens : List Token} {f : Formula} {m : Nat}
    (h : Derives .impl m tokens f) (hm : maxNesting < m) :
    ∃ t, formulaOfTokens text tokens = .error (errorAt .nesting t) := by
  obtain ⟨t, ht⟩ := h.reader_eq_nesting text.length hm (Phrase.stopsAt_nil .impl)
  rw [List.append_nil] at ht
  refine ⟨t, ?_⟩
  cases tokens with
  | nil => cases ht
  | cons u us =>
    simp only [formulaOfTokens]
    rw [show impl text.length (inner text.length maxNesting) (u :: us) = _ from ht]

/-- **The grammar is unambiguous.** -/
theorem Derives.unique {phrase : Phrase} {m n : Nat} {ts : List Token} {f g : Formula}
    (hf : Derives phrase m ts f) (hg : Derives phrase n ts g) : f = g := by
  have hread := hf.reader_eq_ok 0 (Nat.le_max_left m n) phrase.stopsAt_nil
  rw [hg.reader_eq_ok 0 (Nat.le_max_right m n) phrase.stopsAt_nil] at hread
  cases hread
  rfl

end Parser

namespace Formula

/-- **The reader of formulas accepts its grammar and nothing else.** A text
is read as a formula if and only if it has tokens from which the grammar
derives the formula within the levels allowed. If there is no such formula
an error says so, and there is never more than one, however deep the
derivations go. -/
theorem parse_eq_ok_iff_derives (text : String) :
    (∀ f, parse text = .ok f ↔ ∃ tokens, Token.scan text = .ok tokens ∧
      ∃ m ≤ Parser.maxNesting, Parser.Derives .impl m tokens f) ∧
    ((∀ tokens, Token.scan text = .ok tokens →
      ¬∃ f, ∃ m ≤ Parser.maxNesting, Parser.Derives .impl m tokens f) →
        ∃ e, parse text = .error e) ∧
    ∀ tokens m n f g, Parser.Derives .impl m tokens f → Parser.Derives .impl n tokens g →
      f = g := by
  have hiff : ∀ f, parse text = .ok f ↔ ∃ tokens, Token.scan text = .ok tokens ∧
      ∃ m ≤ Parser.maxNesting, Parser.Derives .impl m tokens f := by
    intro f
    rw [parse]
    cases hscan : Token.scan text with
    | error e => simp
    | ok tokens => simp [Parser.formulaOfTokens_eq_ok_iff_derives]
  refine ⟨hiff, fun hnone => ?_, fun _ _ _ _ _ hf hg => hf.unique hg⟩
  cases hparse : parse text with
  | error e => exact ⟨e, rfl⟩
  | ok f =>
    obtain ⟨tokens, hscan, hder⟩ := (hiff f).mp hparse
    exact absurd ⟨f, hder⟩ (hnone tokens hscan)

/-- A `to` to the right of another needs no parentheses, and a second `and`
does. -/
theorem parse_eq_ok_iff_derives_again :
    (∃ tokens, Token.scan "A to not B to C" = .ok tokens ∧
      ∃ m ≤ Parser.maxNesting, Parser.Derives .impl m tokens
        (.imp (.atom "A") (.imp (.neg (.atom "B")) (.atom "C")))) ∧
    ∀ tokens, Token.scan "A and B and C" = .ok tokens →
      ¬∃ f, ∃ m ≤ Parser.maxNesting, Parser.Derives .impl m tokens f := by
  refine ⟨((parse_eq_ok_iff_derives _).1 _).mp (by decide +kernel), ?_⟩
  rintro tokens hscan ⟨f, hder⟩
  have hparse := ((parse_eq_ok_iff_derives _).1 f).mpr ⟨tokens, hscan, hder⟩
  have hrefused : (parse "A and B and C").isOk = false := by decide +kernel
  rw [hparse] at hrefused
  cases hrefused

end Formula

end NaturalDeduction
