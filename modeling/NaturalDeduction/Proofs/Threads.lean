import Mathlib.Data.List.Chain
import NaturalDeduction.Bot.Thread
import NaturalDeduction.Proofs.Lines

/-!
# Threads lose nothing and are no longer than they have to be

An answer is cut into messages between its lines, and a message takes lines as
long as they fit. What comes out of this is said by `Bot.Packed`, with one
constructor for a message: its lines fit, and with the first line of what
follows they would not. All that is known of a thread is read off this relation
by induction, and the recursion that packs the lines is looked at once
(`Bot.packed_group`).

That taking as many lines as fit gives the fewest messages is not seen one
message at a time, since another division may be ahead or behind in the lines
it has used. The statement that goes through is about what is left: a thread
for the end of an answer is no longer than any division of the whole answer
(`Bot.Packed.length_le`). It rests on one property of the measure, that fewer
lines take fewer bytes.
-/

namespace NaturalDeduction.Bot

variable {ls ms : List String} {gs ds : List (List String)}

theorem fits_iff : fits ls ↔ Text.byteSize (Text.joinLines ls) ≤ 280 := decide_eq_true_iff

/-- Of lines that fit, any selection fits. -/
theorem fits_of_sublist (h : ls.Sublist ms) (hms : fits ms) : fits ls :=
  fits_iff.mpr ((Text.byteSize_joinLines_le h).trans (fits_iff.mp hms))

/-! ## Packed messages -/

/-- **Lines packed into messages**: each message takes as many lines as fit, and
at least one. -/
inductive Packed : List String → List (List String) → Prop where
  | nil : Packed [] []
  | cons {g rest : List String} {gs : List (List String)} (hne : g ≠ []) (hfits : fits g)
      (hfull : ∀ line ∈ rest.head?, ¬ fits (g ++ [line])) (hrest : Packed rest gs) :
      Packed (g ++ rest) (g :: gs)

/-- The lines in hand and those that follow are packed, if what is in hand
fits. -/
theorem packed_group {current : List String} (hne : current ≠ []) (hfits : fits current)
    (h : ∀ line ∈ ls, fits [line]) : Packed (current ++ ls) (group current ls) := by
  induction ls generalizing current with
  | nil => exact .cons hne hfits nofun .nil
  | cons line rest ih =>
    rw [List.forall_mem_cons] at h
    rw [group]
    split
    · next hmore =>
      rw [List.append_cons]
      exact ih (List.append_ne_nil_of_right_ne_nil current (List.cons_ne_nil line [])) hmore h.2
    · next hfull =>
      refine .cons hne hfits (fun next hnext => ?_) (ih (List.cons_ne_nil line []) h.1 h.2)
      rwa [← Option.some.inj hnext]

theorem packed_groups (h : ∀ line ∈ ls, fits [line]) : Packed ls (groups ls) := by
  cases ls with
  | nil => exact .nil
  | cons line rest =>
    rw [List.forall_mem_cons] at h
    exact packed_group (List.cons_ne_nil line []) h.1 h.2

namespace Packed

theorem flatten (h : Packed ls gs) : gs.flatten = ls := by
  induction h with
  | nil => rfl
  | cons _ _ _ _ ih => rw [List.flatten_cons, ih]

theorem mem (h : Packed ls gs) : ∀ g ∈ gs, g ≠ [] ∧ fits g := by
  induction h with
  | nil => exact nofun
  | cons hne hfits _ _ ih => exact List.forall_mem_cons.mpr ⟨⟨hne, hfits⟩, ih⟩

theorem head?_flatten (h : Packed ls gs) : ∀ g ∈ gs.head?, ∀ line ∈ g.head?, line ∈ ls.head? := by
  cases h with
  | nil => exact nofun
  | cons hne _ _ _ =>
    intro g hg line hline
    obtain rfl := Option.some.inj hg
    rwa [List.head?_append_of_ne_nil _ hne]

/-- **No message could take the first line of the next one.** -/
theorem full (h : Packed ls gs) :
    gs.IsChain fun g g' => ∀ line ∈ g'.head?, ¬ fits (g ++ [line]) := by
  induction h with
  | nil => exact .nil
  | cons _ _ hfull hrest ih =>
    refine List.isChain_cons.mpr ⟨fun g' hg' line hline => ?_, ih⟩
    exact hfull line (hrest.head?_flatten g' hg' line hline)

/-- **Packing is not behind any other division.** If the lines packed are the
last ones of some that are divided into messages, the packing has no more
messages than the division. -/
theorem length_le (h : Packed ls gs) (hds : ∀ d ∈ ds, fits d) (hend : ls <:+ ds.flatten) :
    gs.length ≤ ds.length := by
  induction ds generalizing ls gs with
  | nil =>
    have hnil : ls = [] := List.eq_nil_of_suffix_nil hend
    cases h with
    | nil => exact Nat.le_refl 0
    | cons hne => exact absurd (List.append_eq_nil_iff.mp hnil).1 hne
  | cons d ds ih =>
    rw [List.forall_mem_cons] at hds
    rcases List.suffix_or_suffix_of_suffix hend (List.suffix_append d ds.flatten) with
      hafter | ⟨part, hpart⟩
    · exact (ih h hds.2 hafter).trans (Nat.le_succ ds.length)
    · -- The lines packed begin inside the first message of the division, so that
      -- the first message packed takes all that is left of it.
      cases h with
      | nil => exact Nat.zero_le _
      | @cons g rest gs hne hfits hfull hrest =>
        refine Nat.succ_le_succ (ih hrest hds.2 ?_)
        rcases List.append_eq_append_iff.mp hpart.symm with
          ⟨left, rfl, hleft⟩ | ⟨taken, -, htaken⟩
        · have hinside : g ++ left <:+ d := by
            rw [List.flatten_cons, ← hpart] at hend
            exact (List.suffix_append_self_iff).mp hend
          cases left with
          | nil => exact ⟨[], hleft⟩
          | cons line left =>
            have hmore : (g ++ [line]).Sublist d :=
              ((List.singleton_sublist.mpr List.mem_cons_self).append_left g).trans hinside.sublist
            exact absurd (fits_of_sublist hmore hds.1)
              (hfull line (by rw [hleft]; rfl))
        · exact ⟨taken, htaken.symm⟩

end Packed

/-! ## Threads -/

/-- **A thread carries the whole answer, in messages that fit, and in as few as
can be.** An answer is refused exactly if one of its lines takes more than 280
bytes. Otherwise the messages are groups of its lines, none of them empty and
none of more than 280 bytes; joined they are the answer; none of them could
take the first line of the next one as well; and no division of the same lines
into groups that fit has fewer. -/
theorem chunks_fewest (text : String) :
    (chunks text = .error ⟨⟩ ↔ ∃ line ∈ Text.lines text, 280 < Text.byteSize line)
    ∧ ((∀ line ∈ Text.lines text, Text.byteSize line ≤ 280) →
      ∃ gs : List (List String), chunks text = .ok (gs.map Text.joinLines)
        ∧ gs.flatten = Text.lines text
        ∧ Text.joinLines (gs.map Text.joinLines) = text
        ∧ (∀ g ∈ gs, g ≠ [] ∧ Text.byteSize (Text.joinLines g) ≤ 280)
        ∧ (gs.IsChain fun g g' => ∀ line ∈ g'.head?,
          280 < Text.byteSize (Text.joinLines (g ++ [line])))
        ∧ ∀ ds : List (List String), ds.flatten = Text.lines text →
          (∀ d ∈ ds, Text.byteSize (Text.joinLines d) ≤ 280) → gs.length ≤ ds.length) := by
  have hlong : ((Text.lines text).any fun line => messageLimit < Text.byteSize line) = true ↔
      ∃ line ∈ Text.lines text, 280 < Text.byteSize line :=
    List.any_eq_true.trans (exists_congr fun _ => and_congr_right fun _ => decide_eq_true_iff)
  refine ⟨?_, fun hlines => ?_⟩
  · rw [← hlong, chunks]
    split <;> simp_all
  · have hpacked : Packed (Text.lines text) (groups (Text.lines text)) :=
      packed_groups fun line hline => fits_iff.mpr (hlines line hline)
    have hok : chunks text = .ok ((groups (Text.lines text)).map Text.joinLines) := by
      refine if_neg fun hany => ?_
      obtain ⟨line, hline, htoo⟩ := hlong.mp hany
      exact absurd (hlines line hline) (Nat.not_le_of_lt htoo)
    refine ⟨groups (Text.lines text), hok, hpacked.flatten, ?_, fun g hg => ?_, ?_,
      fun ds hds hfit => ?_⟩
    · rw [Text.joinLines_flatten fun g hg => (hpacked.mem g hg).1, hpacked.flatten,
        Text.joinLines_lines]
    · exact (hpacked.mem g hg).imp_right fits_iff.mp
    · exact hpacked.full.imp fun g g' hfull line hline =>
        Nat.lt_of_not_le fun hle => hfull line hline (fits_iff.mpr hle)
    · exact hpacked.length_le (fun d hd => fits_iff.mpr (hfit d hd)) (hds ▸ List.suffix_refl _)

/-- A line of letters that take two bytes each. -/
def accents (n : Nat) : String := String.ofList (List.replicate n 'é')

theorem byteSize_accents (n : Nat) : Text.byteSize (accents n) = 2 * n := by
  induction n with
  | zero => rfl
  | succ n ih =>
    have hstep : accents (n + 1) = "é" ++ accents n := by
      apply String.toList_injective
      simp [accents, List.replicate_succ]
    have hletter : "é".utf8ByteSize = 2 := rfl
    rw [hstep, Text.byteSize, String.utf8ByteSize_append, hletter, ← Text.byteSize, ih]
    omega

theorem oneLine_accents (n : Nat) : Text.OneLine (accents n) := by
  simp [Text.OneLine, accents]

/-- A line of 140 such letters fills a message, so that not even an empty line
fits in with it, and one more letter is too many. -/
theorem chunks_fewest_accents :
    chunks (Text.joinLines [accents 140, "", "x"]) = .ok [accents 140, "\nx"]
    ∧ (∀ ds : List (List String), ds.flatten = [accents 140, "", "x"] →
      (∀ d ∈ ds, Text.byteSize (Text.joinLines d) ≤ 280) → 2 ≤ ds.length)
    ∧ chunks (accents 141) = .error ⟨⟩ := by
  have hlines : Text.lines (Text.joinLines [accents 140, "", "x"]) = [accents 140, "", "x"] := by
    refine Text.lines_joinLines (List.cons_ne_nil _ _) (List.forall_mem_cons.mpr ⟨?_, by decide⟩)
    exact oneLine_accents 140
  have hsizes : Text.byteSize "" = 0 ∧ Text.byteSize "x" = 1 := ⟨rfl, rfl⟩
  have hrest : Text.joinLines ["", "x"] = "\nx" := rfl
  have hchunks : chunks (Text.joinLines [accents 140, "", "x"]) = .ok [accents 140, "\nx"] := by
    simp only [chunks, hlines]
    simpa [groups, group, fits, messageLimit, Text.byteSize_joinLines, byteSize_accents, hsizes]
      using hrest
  have hshort : ∀ line ∈ [accents 140, "", "x"], Text.byteSize line ≤ 280 := by
    simp [byteSize_accents, hsizes]
  refine ⟨hchunks, ?_, ?_⟩
  · obtain ⟨gs, hok, -, -, -, -, hfewest⟩ := (chunks_fewest _).2 (hlines ▸ hshort)
    have hlength : 2 = gs.length := by
      rw [hchunks] at hok
      simpa using congrArg List.length (Except.ok.inj hok)
    rw [hlength, ← hlines]
    exact hfewest
  · refine (chunks_fewest (accents 141)).1.mpr ⟨accents 141, ?_, ?_⟩
    · rw [(oneLine_accents 141).lines_eq]
      exact List.mem_singleton_self _
    · rw [byteSize_accents]
      decide

end NaturalDeduction.Bot
