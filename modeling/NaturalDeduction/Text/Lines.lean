/-!
# Lines

A line ends at a newline character and at nothing else, so a text with `n`
newlines has `n + 1` lines and joining the lines gives the text back.
-/

namespace NaturalDeduction.Text

/-- The lines of a text; the empty text is one empty line. -/
def lines (text : String) : List String :=
  (text.toList.splitOn '\n').map String.ofList

/-- The text whose lines these are. -/
def joinLines (ls : List String) : String :=
  "\n".intercalate ls

/-- The text with `margin` in front of each of its lines. -/
def indent (margin text : String) : String :=
  joinLines ((lines text).map (margin ++ ·))

/-- The margin of a block when none is asked for. -/
def defaultMargin : String := ". "

/-- The number of bytes a text takes in UTF-8, which is how the message
service measures length. -/
def byteSize (text : String) : Nat :=
  text.utf8ByteSize

end NaturalDeduction.Text
