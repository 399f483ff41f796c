/-!
# Blanks

The characters that separate words: the ASCII blanks with the four
information separators, and the space separators, line separator and
paragraph separator beyond ASCII. The scanner skips them, requests are
trimmed of them, and a mention is cut into words at them, so the class is
fixed once, here.

Text that is taken apart is a list of characters throughout the library;
strings appear at the boundaries.
-/

namespace NaturalDeduction.Text

/-- **A blank**: a character that separates words and means nothing else. -/
def isBlank (c : Char) : Bool :=
  let n := c.toNat
  (0x09 ≤ n && n ≤ 0x0D) || (0x1C ≤ n && n ≤ 0x20) || n == 0x85 || n == 0xA0
    || n == 0x1680 || (0x2000 ≤ n && n ≤ 0x200A) || n == 0x2028 || n == 0x2029
    || n == 0x202F || n == 0x205F || n == 0x3000

/-- The text from its first character that is no blank. -/
def trimLeft (cs : List Char) : List Char :=
  cs.dropWhile isBlank

/-- The text up to its last character that is no blank. -/
def trimRight (cs : List Char) : List Char :=
  (cs.reverse.dropWhile isBlank).reverse

/-- The text without the blanks at either end. -/
def trim (cs : List Char) : List Char :=
  trimRight (trimLeft cs)

/-- The text without the newlines that end it. -/
def dropFinalNewlines (text : String) : String :=
  String.ofList (text.toList.reverse.dropWhile (· == '\n')).reverse

end NaturalDeduction.Text
