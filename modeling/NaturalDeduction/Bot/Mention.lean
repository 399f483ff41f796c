import NaturalDeduction.Formula.Printer
import NaturalDeduction.Text.Blank
import NaturalDeduction.Text.WordChar

/-!
# Mentions

A mention is a message addressed to the bot: handles, then the request. A
last word that asks for TeX is no part of the formula, provided there is
something before it.
-/

namespace NaturalDeduction.Bot

/-- **A mention**: a message with its identifier. -/
structure Mention where
  /-- The identifier; later messages have larger ones. -/
  id : Int
  /-- The text of the message. -/
  text : String
deriving DecidableEq, Repr

/-- **What a mention asks for.** -/
structure MentionRequest where
  /-- The text to prove. -/
  text : String
  /-- How the proof is to be drawn. -/
  style : Style
deriving DecidableEq, Repr

/-- What follows a handle at the start of a text: an at sign with at least
one word character. -/
def afterHandle? : List Char → Option (List Char)
  | '@' :: c :: rest =>
    if Text.isWordChar c then some (rest.dropWhile Text.isWordChar) else none
  | _ => none

/-- What follows a handle is shorter than the text. -/
theorem length_lt_of_afterHandle? {cs rest : List Char} (h : afterHandle? cs = some rest) :
    rest.length < cs.length := by
  unfold afterHandle? at h
  split at h
  · split at h
    · next tail _ =>
      have := (List.dropWhile_sublist (l := tail) Text.isWordChar).length_le
      simp only [Option.some.injEq] at h
      subst h
      simp only [List.length_cons]
      omega
    · exact absurd h (by simp)
  · exact absurd h (by simp)

/-- Trimming does not make a text longer. -/
theorem length_trimLeft_le (cs : List Char) : (Text.trimLeft cs).length ≤ cs.length :=
  (List.dropWhile_sublist Text.isBlank).length_le

/-- The text without the handles at its start, and without the blanks
before and after them. -/
def dropHandles (cs : List Char) : List Char :=
  match _ : afterHandle? (Text.trimLeft cs) with
  | some rest => dropHandles rest
  | none => Text.trimLeft cs
termination_by cs.length
decreasing_by
  have := length_lt_of_afterHandle? ‹_›
  have := length_trimLeft_le cs
  omega

/-- A text without blanks at its ends, cut at its last blanks: what stands
before them, and the last word. -/
def splitLastWord (cs : List Char) : List Char × List Char :=
  let isPart := fun c => !Text.isBlank c
  (Text.trimRight (cs.reverse.dropWhile isPart).reverse, (cs.reverse.takeWhile isPart).reverse)

/-- Whether a word asks for TeX, in any letter case. -/
def asksForTex (word : List Char) : Bool :=
  word.map Char.toLower == ['t', 'e', 'x']

/-- **Reading a mention**: the text to prove and how to draw the proof. -/
def readRequest (text : String) : MentionRequest :=
  let request := Text.trim (dropHandles text.toList)
  let (before, last) := splitLastWord request
  if !before.isEmpty && asksForTex last then ⟨String.ofList before, .tex⟩
  else ⟨String.ofList request, .plain⟩

end NaturalDeduction.Bot
