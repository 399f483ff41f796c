import Mathlib.Algebra.GroupWithZero.Nat
import NaturalDeduction.Text.Lines

/-!
# Lines and the texts they make up

Joining the lines of a text gives the text back, whatever the text is
(`Text.joinLines_lines`). The other way round the lines have to be lines: a
text put together from pieces has these pieces for lines if none of them has a
newline inside (`Text.OneLine`) and there is at least one
(`Text.lines_joinLines`). So a drawing can be taken apart again, line by line,
and a message can be measured by the lines it is made of
(`Text.byteSize_joinLines`).
-/

namespace NaturalDeduction.Text

/-- **A text without a newline**, which is its own only line. -/
def OneLine (text : String) : Prop := '\n' ∉ text.toList

instance decidableOneLine : DecidablePred OneLine := fun text =>
  inferInstanceAs (Decidable ('\n' ∉ text.toList))

theorem oneLine_append {s t : String} : OneLine (s ++ t) ↔ OneLine s ∧ OneLine t := by
  simp [OneLine, not_or]

theorem toList_joinLines (ls : List String) :
    (joinLines ls).toList = ['\n'].intercalate (ls.map String.toList) := by
  rw [joinLines, String.toList_intercalate]
  rfl

@[simp] theorem joinLines_singleton (l : String) : joinLines [l] = l :=
  String.intercalate_singleton

/-- **The lines of a text make up the text.** -/
theorem joinLines_lines (text : String) : joinLines (lines text) = text := by
  apply String.toList_injective
  rw [toList_joinLines, lines, List.map_map]
  simp only [Function.comp_def, String.toList_ofList, List.map_id']
  exact List.intercalate_splitOn '\n'

/-- **What is put together from lines has these lines.** -/
theorem lines_joinLines {ls : List String} (hne : ls ≠ []) (h : ∀ l ∈ ls, OneLine l) :
    lines (joinLines ls) = ls := by
  have hsplit : (['\n'].intercalate (ls.map String.toList)).splitOn '\n' = ls.map String.toList :=
    List.splitOn_intercalate '\n' (List.forall_mem_map.mpr h) (by simpa using hne)
  rw [lines, toList_joinLines, hsplit, List.map_map]
  simp [Function.comp_def]

/-- What stands between newlines has none. -/
theorem newline_not_mem_of_mem_splitOn {cs part : List Char} (h : part ∈ cs.splitOn '\n') :
    '\n' ∉ part := by
  induction cs generalizing part with
  | nil =>
    obtain rfl := List.mem_singleton.mp h
    exact List.not_mem_nil
  | cons c cs ih =>
    obtain ⟨first, rest, hparts⟩ := List.exists_cons_of_ne_nil (List.splitOn_ne_nil '\n' cs)
    have hrest : ∀ part ∈ first :: rest, '\n' ∉ part := fun part hpart => ih (hparts ▸ hpart)
    rw [List.splitOn, List.splitOnP_cons_eq_if_modifyHead, ← List.splitOn, hparts] at h
    split at h
    · rcases List.mem_cons.mp h with rfl | h
      · exact List.not_mem_nil
      · exact hrest part h
    · next hc =>
      rcases List.mem_cons.mp h with rfl | h
      · have hne : '\n' ≠ c := fun heq => hc (beq_iff_eq.mpr heq.symm)
        exact List.not_mem_cons_of_ne_of_not_mem hne (hrest first List.mem_cons_self)
      · exact hrest part (List.mem_cons_of_mem first h)

/-- **The lines of a text have no newlines**, whatever the text is. -/
theorem oneLine_of_mem_lines {text line : String} (h : line ∈ lines text) : OneLine line := by
  obtain ⟨part, hpart, rfl⟩ := List.mem_map.mp h
  rw [OneLine, String.toList_ofList]
  exact newline_not_mem_of_mem_splitOn hpart

theorem OneLine.lines_eq {text : String} (h : OneLine text) : lines text = [text] := by
  rw [← joinLines_singleton text]
  exact lines_joinLines (List.cons_ne_nil text []) (List.forall_mem_singleton.mpr h)

/-- Lines with a newline after the last of them: the text goes on with an empty
line. -/
theorem lines_joinLines_newline {ls : List String} (hne : ls ≠ []) (h : ∀ l ∈ ls, OneLine l) :
    lines (joinLines ls ++ "\n") = ls ++ [""] := by
  have hjoin : joinLines ls ++ "\n" = joinLines (ls ++ [""]) := by
    rw [joinLines, joinLines, String.intercalate_append_of_ne_nil hne (List.cons_ne_nil "" [])]
    simp
  rw [hjoin]
  refine lines_joinLines (by simp) fun l hl => ?_
  rcases List.mem_append.mp hl with hl | hl
  · exact h l hl
  · rw [List.mem_singleton.mp hl]
    decide

/-- Groups of lines are joined like the lines themselves, if no group is
empty. -/
theorem joinLines_flatten {gs : List (List String)} (h : ∀ g ∈ gs, g ≠ []) :
    joinLines (gs.map joinLines) = joinLines gs.flatten := by
  induction gs with
  | nil => rfl
  | cons g gs ih =>
    rw [List.forall_mem_cons] at h
    cases gs with
    | nil => simp
    | cons g' gs =>
      have hrest : (g' :: gs).flatten ≠ [] := by simp [h.2 g' List.mem_cons_self]
      have hjoin : joinLines (g ++ (g' :: gs).flatten)
          = joinLines g ++ "\n" ++ joinLines (g' :: gs).flatten :=
        String.intercalate_append_of_ne_nil h.1 hrest
      rw [List.flatten_cons, hjoin, ← ih h.2]
      exact String.intercalate_cons_of_ne_nil (by simp)

/-! ## Bytes -/

/-- The bytes of a text are those of its lines, and one between each and the
next. -/
theorem byteSize_joinLines (ls : List String) :
    byteSize (joinLines ls) = (ls.map (byteSize · + 1)).sum - 1 := by
  induction ls with
  | nil => rfl
  | cons l ls ih =>
    cases ls with
    | nil => simp
    | cons l' ls =>
      have hbreak : byteSize "\n" = 1 := rfl
      have hsplit : byteSize (joinLines (l :: l' :: ls))
          = byteSize l + byteSize "\n" + byteSize (joinLines (l' :: ls)) := by
        rw [joinLines, joinLines, String.intercalate_cons_cons]
        simp only [byteSize, String.utf8ByteSize_append]
      rw [hsplit, ih, hbreak]
      simp only [List.map_cons, List.sum_cons]
      omega

/-- Some of the lines take no more bytes than all of them. -/
theorem byteSize_joinLines_le {ls ms : List String} (h : ls.Sublist ms) :
    byteSize (joinLines ls) ≤ byteSize (joinLines ms) := by
  rw [byteSize_joinLines, byteSize_joinLines]
  have hsum : (ls.map (byteSize · + 1)).sum ≤ (ms.map (byteSize · + 1)).sum := by
    induction h with
    | slnil => exact Nat.le_refl _
    | cons l _ ih => exact Nat.le_add_left_of_le ih
    | cons_cons l _ ih => exact Nat.add_le_add_left ih _
  exact Nat.sub_le_sub_right hsum 1

end NaturalDeduction.Text
