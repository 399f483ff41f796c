import NaturalDeduction.Formula.Printer
import NaturalDeduction.Search.Budget
import NaturalDeduction.Text.Integer
import NaturalDeduction.Text.Quoted

/-!
# Options of the command line

The arguments are words and options, in any order. An option is given by one
of its flags; a long flag may be cut short as long as no other begins the
same way. A value follows as the next word, after an equals sign, or right
after a short flag; short flags that take no value may be written together,
with or without an equals sign after the first of them. Two dashes on their
own make all that follows words. What starts with a dash and looks like a
negative number, or has a space in it and is no option, is a word too.

Two dashes are never a value. An option that has them for its value is given,
and has nothing.

Arguments are first sorted into words and options (`Argument`), and then
taken from left to right. Whatever is left over is reported at the end.
-/

namespace NaturalDeduction.CommandLine

/-- The options. -/
inductive Opt where
  | help
  | tex
  | out
  | maxDepth
  | maxSteps
  | verbose
deriving DecidableEq, Repr

namespace Opt

/-- The flags of an option, the short one first. -/
def flags : Opt → List String
  | help => ["-h", "--help"]
  | tex => ["-t", "--tex"]
  | out => ["-o", "--out"]
  | maxDepth => ["--max-depth"]
  | maxSteps => ["--max-steps"]
  | verbose => ["-v", "--verbose"]

/-- Whether an option has a value. -/
def takesValue : Opt → Bool
  | out | maxDepth | maxSteps => true
  | help | tex | verbose => false

/-- The options in the order in which they are listed. -/
def all : List Opt := [help, tex, out, maxDepth, maxSteps, verbose]

/-- Every flag with its option. -/
def table : List (String × Opt) :=
  all.flatMap fun opt => opt.flags.map fun flag => (flag, opt)

/-- The option with a flag. -/
def ofFlag? (flag : String) : Option Opt := table.lookup flag

end Opt

/-- **What is wrong with a command line.** -/
inductive UsageError where
  /-- A long flag is cut so short that it could be several. -/
  | ambiguous (argument : String) (flags : List String)
  /-- A value is missing. -/
  | expectedValue (opt : Opt)
  /-- There is a value for an option that has none. -/
  | ignoredValue (opt : Opt) (value : String)
  /-- A value should be an integer. -/
  | notAnInteger (opt : Opt) (value : String)
  /-- Arguments are left over. -/
  | unrecognized (arguments : List String)
  /-- The limits make no budget. -/
  | budget (e : BudgetNotPositive)
deriving DecidableEq, Repr

namespace UsageError

/-- An error about one option. -/
def about (opt : Opt) (what : String) : String :=
  "argument " ++ "/".intercalate opt.flags ++ ": " ++ what

/-- The error in words. -/
def message : UsageError → String
  | ambiguous argument flags =>
    "ambiguous option: " ++ argument ++ " could match " ++ ", ".intercalate flags
  | expectedValue opt => about opt "expected one argument"
  | ignoredValue opt value => about opt ("ignored explicit argument " ++ Text.quoted value)
  | notAnInteger opt value => about opt ("invalid int value: " ++ Text.quoted value)
  | unrecognized arguments => "unrecognized arguments: " ++ " ".intercalate arguments
  | budget e => e.message

end UsageError

/-- **Where answers go.** -/
inductive Destination where
  /-- To the output. -/
  | output
  /-- To a file, in place of what is in it. -/
  | file (path : String)
  /-- To a file that is asked for and not named. -/
  | unnamedFile
deriving DecidableEq, Repr

/-- **What the command line asks for.** -/
structure Settings where
  /-- The text to prove; without one, texts are read from the input. -/
  input : Option String := none
  /-- How a proof is drawn. -/
  style : Style := .plain
  /-- Where answers go. -/
  out : Destination := .output
  /-- How deep goals may nest; none if the option has nothing. -/
  maxDepth : Option Int := some Budget.standardDepth
  /-- How many goals may be attempted; none if the option has nothing. -/
  maxSteps : Option Int := some Budget.standardSteps
  /-- Whether searches are logged. -/
  verbose : Bool := false
deriving DecidableEq, Repr

/-! ## Words and options -/

/-- **What an option argument asks for**: the options it sets, and one that
is still to be given the next word. -/
structure Bundle where
  /-- The options set, with their values; those without a value have the
  empty text. -/
  settled : List (Opt × String) := []
  /-- The option that has the next word for its value. -/
  waiting : Option Opt := none
deriving DecidableEq, Repr

namespace Bundle

/-- An option on its own. -/
def single (opt : Opt) : Bundle :=
  if opt.takesValue then { waiting := some opt } else { settled := [(opt, "")] }

/-- An option with a value. -/
def withValue (opt : Opt) (value : String) : Except UsageError Bundle :=
  if opt.takesValue then .ok { settled := [(opt, value)] } else .error (.ignoredValue opt value)

/-- A short option with the characters that follow: its value, or more short
flags. -/
def ofShort : (opt : Opt) → (tail : List Char) → Except UsageError Bundle
  | opt, [] => .ok (single opt)
  | opt, c :: rest =>
    if opt.takesValue then withValue opt (String.ofList (c :: rest))
    else
      match Opt.ofFlag? (String.ofList ['-', c]) with
      | none => .error (.ignoredValue opt (String.ofList (c :: rest)))
      | some next =>
        match ofShort next rest with
        | .ok bundle => .ok { bundle with settled := (opt, "") :: bundle.settled }
        | .error e => .error e

/-- A short option with what stands after its flag. An equals sign right
after the flag is passed over; nothing after the sign is an empty value. -/
def ofFirstShort (opt : Opt) : List Char → Except UsageError Bundle
  | ['='] => withValue opt ""
  | '=' :: tail => ofShort opt tail
  | tail => ofShort opt tail

end Bundle

/-- The two dashes that make all that follows words. -/
def markerText : String := "--"

/-- **An argument**, sorted. What is wrong with an option is found out when
the option is sorted and reported when its turn comes. -/
inductive Argument where
  /-- A word. -/
  | word (text : String)
  /-- The two dashes that make all that follows words. -/
  | marker
  /-- An option. -/
  | option (bundle : Except UsageError Bundle)
  /-- What starts with a dash and is neither an option nor a word. -/
  | unknown (text : String)

/-- What stands before the first equals sign, and after it if there is
one. -/
def splitAtEquals (cs : List Char) : List Char × Option (List Char) :=
  match cs.dropWhile (· != '=') with
  | [] => (cs, none)
  | _ :: value => (cs.takeWhile (· != '='), some value)

/-- Sorts an argument that starts with a dash and with no flag. -/
def sortOther (text : String) : Argument :=
  if Text.looksNegative text || text.toList.contains ' ' then .word text
  else .unknown text

/-- An option given by a long flag, with the value after an equals sign. -/
def longOption (opt : Opt) : Option (List Char) → Argument
  | none => .option (.ok (.single opt))
  | some value => .option (Bundle.withValue opt (String.ofList value))

/-- Sorts an argument that starts with two dashes. A flag that is written
out wins over those it begins. -/
def sortLong (text : String) : Except UsageError Argument :=
  let (name, value) := splitAtEquals text.toList
  match Opt.ofFlag? (String.ofList name) with
  | some opt => .ok (longOption opt value)
  | none =>
    match Opt.table.filter fun (flag, _) => name.isPrefixOf flag.toList with
    | [] => .ok (sortOther text)
    | [(_, opt)] => .ok (longOption opt value)
    | several => .error (.ambiguous text (several.map (·.1)))

/-- Sorts an argument that starts with one dash and has a character after
it. -/
def sortShort (text : String) (c : Char) (tail : List Char) : Argument :=
  match Opt.ofFlag? (String.ofList ['-', c]) with
  | none => sortOther text
  | some opt => .option (Bundle.ofFirstShort opt tail)

/-- Sorts one argument. -/
def sortArgument (text : String) : Except UsageError Argument :=
  match text.toList with
  | '-' :: '-' :: _ => sortLong text
  | '-' :: c :: tail => .ok (sortShort text c tail)
  | _ => .ok (.word text)

/-- **Sorts the arguments** into words and options. -/
def sortArguments : List String → Except UsageError (List Argument)
  | [] => .ok []
  | text :: rest =>
    if text = markerText then .ok (.marker :: rest.map .word)
    else
      match sortArgument text with
      | .error e => .error e
      | .ok argument =>
        match sortArguments rest with
        | .error e => .error e
        | .ok arguments => .ok (argument :: arguments)

/-! ## Taking the arguments -/

/-- Why the arguments do not lead to settings. -/
inductive Stop where
  /-- Help is asked for. -/
  | help
  /-- Something is wrong. -/
  | usage (e : UsageError)
  /-- A limit has nothing, so there is no budget. -/
  | noLimit
deriving DecidableEq, Repr

/-- The destination that a value names. -/
def Destination.ofValue (value : String) : Destination :=
  if value = markerText then .unnamedFile else .file value

/-- The settings with the value of an option that is an integer. -/
def withInteger (opt : Opt) (value : String) (put : Option Int → Settings) :
    Except Stop Settings :=
  if value = markerText then .ok (put none)
  else
    match Text.integer? value with
    | some n => .ok (put (some n))
    | none => .error (.usage (.notAnInteger opt value))

/-- The settings with an option taken; options without a value ignore
`value`. -/
def Settings.take (s : Settings) (opt : Opt) (value : String) : Except Stop Settings :=
  match opt with
  | .help => .error .help
  | .tex => .ok { s with style := .tex }
  | .verbose => .ok { s with verbose := true }
  | .out => .ok { s with out := .ofValue value }
  | .maxDepth => withInteger opt value fun n => { s with maxDepth := n }
  | .maxSteps => withInteger opt value fun n => { s with maxSteps := n }

/-- The settings with several options taken, one after the other. -/
def Settings.takeAll (s : Settings) : List (Opt × String) → Except Stop Settings
  | [] => .ok s
  | (opt, value) :: rest =>
    match s.take opt value with
    | .ok s => s.takeAll rest
    | .error stop => .error stop

/-- How far the arguments have been taken. -/
structure Progress where
  /-- The settings so far. -/
  settings : Settings := {}
  /-- Whether the word that is the input has been passed. -/
  inputPassed : Bool := false
  /-- What could not be taken, in order. -/
  extras : List String := []

/-- The progress with one more argument that could not be taken. -/
def Progress.leave (p : Progress) (text : String) : Progress :=
  { p with extras := p.extras ++ [text] }

/-- The progress with the input taken. -/
def Progress.takeInput (p : Progress) (text : String) : Progress :=
  { p with settings := { p.settings with input := some text }, inputPassed := true }

/-- The progress with a bundle taken. -/
def Progress.takeBundle (p : Progress) (bundle : Bundle) (last : List (Opt × String)) :
    Except Stop Progress :=
  match p.settings.takeAll (bundle.settled ++ last) with
  | .error stop => .error stop
  | .ok settings => .ok { p with settings := settings }

/-- Takes arguments from left to right. The first word is the input, and a
marker that stands right before or after it goes with it. -/
def takeArguments (p : Progress) : List Argument → Except Stop Progress
  | [] => .ok p
  | .word text :: rest =>
    if p.inputPassed then takeArguments (p.leave text) rest
    else
      match rest with
      | .marker :: rest => takeArguments (p.takeInput text) rest
      | rest => takeArguments (p.takeInput text) rest
  | .marker :: rest =>
    if p.inputPassed then takeArguments (p.leave markerText) rest
    else
      match rest with
      | .word text :: rest => takeArguments (p.takeInput text) rest
      | rest => takeArguments { p with inputPassed := true } rest
  | .unknown text :: rest => takeArguments (p.leave text) rest
  | .option (.error e) :: _ => .error (.usage e)
  | .option (.ok bundle) :: rest =>
    match bundle.waiting, rest with
    | none, rest =>
      match p.takeBundle bundle [] with
      | .ok p => takeArguments p rest
      | .error stop => .error stop
    | some opt, .word value :: rest =>
      match p.takeBundle bundle [(opt, value)] with
      | .ok p => takeArguments p rest
      | .error stop => .error stop
    | some opt, _ => .error (.usage (.expectedValue opt))

/-- **The settings a command line asks for.** -/
def Settings.ofArguments (arguments : List String) : Except Stop Settings :=
  match sortArguments arguments with
  | .error e => .error (.usage e)
  | .ok sorted =>
    match takeArguments {} sorted with
    | .error stop => .error stop
    | .ok p =>
      if p.extras.isEmpty then .ok p.settings else .error (.usage (.unrecognized p.extras))

/-- The budget that the settings ask for. The depth is looked at first, and
one that is not positive makes the steps irrelevant. -/
def Settings.budget (s : Settings) : Except Stop Budget :=
  match s.maxDepth, s.maxSteps with
  | none, _ => .error .noLimit
  | some depth, none => .error (if 0 < depth then .noLimit else .usage (.budget ⟨⟩))
  | some depth, some steps =>
    match Budget.ofLimits depth steps with
    | .ok b => .ok b
    | .error e => .error (.usage (.budget e))

end NaturalDeduction.CommandLine
