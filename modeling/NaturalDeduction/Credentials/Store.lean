import NaturalDeduction.Text.Quoted

/-!
# The credential store

Credentials are kept as names with texts, in the order in which they were
first set; setting a name again keeps its place. A store is saved as a JSON
object whose values are strings, in printable ASCII only: every other
character is written by its UTF-16 code units.

`Store.encode` writes a store and `Store.decode?` reads any such object.
-/

namespace NaturalDeduction.Credentials

/-- **A credential store**: names with their texts, in order. -/
abbrev Store := List (String × String)

namespace Store

/-- The store with a name set, in its place if it is there. -/
def put (key value : String) : Store → Store
  | [] => [(key, value)]
  | (k, v) :: rest =>
    if k = key then (key, value) :: rest else (k, v) :: put key value rest

/-- Whether a name is set. -/
def has (store : Store) (key : String) : Bool := (store.lookup key).isSome

/-! ## Writing -/

/-- The UTF-16 code units of a character. -/
def codeUnits (c : Char) : List Nat :=
  let n := c.toNat
  if n < 0x10000 then [n]
  else [0xD800 + (n - 0x10000) / 0x400, 0xDC00 + (n - 0x10000) % 0x400]

/-- A code unit as an escape. -/
def unitEscape (unit : Nat) : List Char := '\\' :: 'u' :: Text.hexDigits 4 unit

/-- One character as it stands in a string. -/
def encodeChar (c : Char) : List Char :=
  if c = '"' then ['\\', '"']
  else if c = '\\' then ['\\', '\\']
  else if c = '\n' then ['\\', 'n']
  else if c = '\r' then ['\\', 'r']
  else if c = '\t' then ['\\', 't']
  else if c = '\x08' then ['\\', 'b']
  else if c = '\x0c' then ['\\', 'f']
  else if 0x20 ≤ c.toNat && c.toNat < 0x7F then [c]
  else (codeUnits c).flatMap unitEscape

/-- A text as a string. -/
def encodeString (text : String) : List Char :=
  '"' :: text.toList.flatMap encodeChar ++ ['"']

/-- A name with its text. -/
def encodeEntry (entry : String × String) : List Char :=
  encodeString entry.1 ++ ':' :: ' ' :: encodeString entry.2

/-- **The store as an object.** -/
def encode (store : Store) : String :=
  String.ofList ('\x7b' :: [',', ' '].intercalate (store.map encodeEntry) ++ ['\x7d'])

/-! ## Reading -/

/-- The blanks between the parts of an object. -/
def isGap (c : Char) : Bool := c == ' ' || c == '\t' || c == '\n' || c == '\r'

/-- The text from its first character that is no blank. -/
def skipGap (cs : List Char) : List Char := cs.dropWhile isGap

/-- The value of a hexadecimal digit. -/
def hexValue? (c : Char) : Option Nat :=
  if '0' ≤ c && c ≤ '9' then some (c.toNat - '0'.toNat)
  else if 'a' ≤ c && c ≤ 'f' then some (c.toNat - 'a'.toNat + 10)
  else if 'A' ≤ c && c ≤ 'F' then some (c.toNat - 'A'.toNat + 10)
  else none

/-- The code unit that four hexadecimal digits denote. -/
def unitOfDigits? (a b c d : Char) : Option Nat := do
  let a ← hexValue? a
  let b ← hexValue? b
  let c ← hexValue? c
  let d ← hexValue? d
  return ((a * 16 + b) * 16 + c) * 16 + d

/-- What a character after a backslash stands for. -/
def escapeValue? : Char → Option Nat
  | '"' => some '"'.toNat
  | '\\' => some '\\'.toNat
  | '/' => some '/'.toNat
  | 'b' => some 0x08
  | 'f' => some 0x0C
  | 'n' => some '\n'.toNat
  | 'r' => some '\r'.toNat
  | 't' => some '\t'.toNat
  | _ => none

/-- Reads a string from after its opening quote: its characters and code
units, and what follows the closing quote. -/
def readUnits? : List Char → Option (List Nat × List Char)
  | [] => none
  | '"' :: rest => some ([], rest)
  | '\\' :: 'u' :: a :: b :: c :: d :: rest =>
    match unitOfDigits? a b c d, readUnits? rest with
    | some unit, some (units, rest) => some (unit :: units, rest)
    | _, _ => none
  | '\\' :: e :: rest =>
    match escapeValue? e, readUnits? rest with
    | some unit, some (units, rest) => some (unit :: units, rest)
    | _, _ => none
  | c :: rest =>
    if c.toNat < 0x20 || c = '\\' then none
    else
      match readUnits? rest with
      | some (units, rest) => some (c.toNat :: units, rest)
      | none => none

/-- The character that two surrogate code units denote. -/
def pairValue (high low : Nat) : Nat := 0x10000 + (high - 0xD800) * 0x400 + (low - 0xDC00)

/-- The characters that code units denote, each pair of surrogates one
character; a surrogate on its own denotes none. -/
def charsOfUnits? : List Nat → Option (List Char)
  | [] => some []
  | [unit] => if 0xD800 ≤ unit && unit < 0xE000 then none else some [Char.ofNat unit]
  | unit :: next :: rest =>
    if 0xD800 ≤ unit && unit < 0xDC00 then
      if 0xDC00 ≤ next && next < 0xE000 then
        (charsOfUnits? rest).map (Char.ofNat (pairValue unit next) :: ·)
      else none
    else if 0xDC00 ≤ unit && unit < 0xE000 then none
    else (charsOfUnits? (next :: rest)).map (Char.ofNat unit :: ·)

/-- Reads a string, and what follows it. -/
def readString? : List Char → Option (String × List Char)
  | '"' :: rest =>
    match readUnits? rest with
    | some (units, rest) => (charsOfUnits? units).map fun cs => (String.ofList cs, rest)
    | none => none
  | _ => none

/-- Reads a name, a colon and a text, with blanks around them. -/
def readEntry? (cs : List Char) : Option ((String × String) × List Char) :=
  match readString? (skipGap cs) with
  | none => none
  | some (key, rest) =>
    match skipGap rest with
    | ':' :: rest =>
      match readString? (skipGap rest) with
      | some (value, rest) => some ((key, value), skipGap rest)
      | none => none
    | _ => none

/-- Reads entries up to the closing brace, at most `fuel` of them, into a
store. -/
def readEntries? : (fuel : Nat) → Store → List Char → Option (Store × List Char)
  | 0, _, _ => none
  | fuel + 1, store, cs =>
    match readEntry? cs with
    | some ((key, value), '\x7d' :: rest) => some (store.put key value, rest)
    | some ((key, value), ',' :: rest) => readEntries? fuel (store.put key value) rest
    | _ => none

/-- Reads an object, and what follows it. An entry takes more than one
character, so there are fewer entries than characters. -/
def readObject? (cs : List Char) : Option (Store × List Char) :=
  match skipGap cs with
  | '\x7b' :: rest =>
    match skipGap rest with
    | '\x7d' :: rest => some ([], rest)
    | rest => readEntries? rest.length [] rest
  | _ => none

/-- **The store an object denotes.** A name that comes up again keeps its
place and takes the later text. -/
def decode? (text : String) : Option Store :=
  match readObject? text.toList with
  | some (store, rest) => if (skipGap rest).isEmpty then some store else none
  | none => none

end Store

end NaturalDeduction.Credentials
