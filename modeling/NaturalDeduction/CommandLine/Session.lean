import NaturalDeduction.CommandLine.Options
import NaturalDeduction.Request
import NaturalDeduction.Text.Lines

/-!
# Running the command line

With an input on the command line, that input is answered, and the code says
whether it was proved. Without one, lines are read until the input ends or a
line starts with the word that quits; blank lines are passed over. An answer
goes to the output, or replaces what is in the file that was asked for. A run
breaks off, without a code, when a limit has nothing or when there is an
answer and no file to put it in.

`run` is the whole of it as a function: from the arguments and the text of
the input to what is printed, what is logged, what is written and the code.
-/

namespace NaturalDeduction.CommandLine

/-- The name of the program. -/
def programName : String := "proplogic"

/-- What the program expects, in a line. -/
def usageLine : String :=
  "usage: " ++ programName
    ++ " [-h] [-t] [-o OUT] [--max-depth MAX_DEPTH] [--max-steps MAX_STEPS] [-v] [input]\n"

/-- What the program does and expects. -/
def helpText : String :=
  usageLine ++ "\nProves propositional formulas by natural deduction (best effort).\n"

/-- The question before each line that is read. -/
def prompt : String := "input ('quit' to quit):\n"

/-- A line of the log. -/
def logLine (record : String) : String := "DEBUG proplogic.prove: " ++ record ++ "\n"

/-- What is printed of an answer: the text with exactly one newline at its
end. -/
def printed (text : String) : String := Text.dropFinalNewlines text ++ "\n"

/-- **Why a run breaks off.** -/
inductive Breakdown where
  /-- A request has no outcome. -/
  | request (fault : RequestFault)
  /-- A limit has nothing. -/
  | noLimit
  /-- An answer is to go to a file that is not named. -/
  | noFile
deriving DecidableEq, Repr

/-- The breakdown in words. -/
def Breakdown.message : Breakdown → String
  | request fault => fault.message
  | noLimit => "'<' not supported between instances of 'list' and 'int'"
  | noFile => "'list' object has no attribute 'write_text'"

/-- **What a run has done so far.** -/
structure Transcript where
  /-- What was printed. -/
  stdout : String := ""
  /-- What was logged. -/
  stderr : String := ""
  /-- The file written to, with its contents. -/
  written : Option (String × String) := none
deriving DecidableEq, Repr

namespace Transcript

/-- The transcript with a text printed. -/
def print (t : Transcript) (text : String) : Transcript :=
  { t with stdout := t.stdout ++ text }

/-- The transcript with records logged. -/
def log (t : Transcript) (records : List String) : Transcript :=
  { t with stderr := t.stderr ++ String.join (records.map logLine) }

/-- The transcript with an answer given: printed, or in place of what is in
the file. -/
def emit (t : Transcript) (out : Destination) (text : String) : Except Breakdown Transcript :=
  match out with
  | .output => .ok (t.print (printed text))
  | .file path => .ok { t with written := some (path, text) }
  | .unnamedFile => .error .noFile

end Transcript

/-- **What a run comes to.** -/
structure Execution where
  /-- The code the program ends with. -/
  code : Nat
  /-- What it has done. -/
  transcript : Transcript
deriving DecidableEq, Repr

/-- The answer to one text, with the records to log. -/
def answer (s : Settings) (budget : Budget) (text : String) :
    Except RequestFault (Reply × List String) :=
  let consultation := consult text budget
  match Reply.ofOutcome s.style text consultation.outcome with
  | .ok reply => .ok (reply, if s.verbose then consultation.log else [])
  | .error fault => .error fault

/-- Whether a line ends the session. -/
def quits (line : String) : Bool :=
  "quit".toList.isPrefixOf (Text.trim line.toList)

/-- Whether a line has nothing but blanks. -/
def isBlankLine (line : String) : Bool := (Text.trim line.toList).isEmpty

/-- The lines of an input; a newline at its end starts no further line. -/
def inputLines (input : String) : List String :=
  let ls := Text.lines input
  if ls.getLast? = some "" then ls.dropLast else ls

/-- Answers lines one after the other, with the question before each. -/
def converse (s : Settings) (budget : Budget) (t : Transcript) :
    List String → Except Breakdown Transcript
  | [] => .ok (t.print prompt)
  | line :: rest =>
    let t := t.print prompt
    if quits line then .ok t
    else if isBlankLine line then converse s budget t rest
    else
      match answer s budget line with
      | .error fault => .error (.request fault)
      | .ok (reply, records) =>
        match (t.log records).emit s.out reply.text with
        | .error breakdown => .error breakdown
        | .ok t => converse s budget t rest

/-- The run that stops before anything is answered. -/
def stopped : Stop → Except Breakdown Execution
  | .help => .ok ⟨0, { stdout := helpText }⟩
  | .usage e =>
    .ok ⟨2, { stderr := usageLine ++ programName ++ ": error: " ++ e.message ++ "\n" }⟩
  | .noLimit => .error .noLimit

/-- The settings and the budget a command line asks for. -/
def prepare (arguments : List String) : Except Stop (Settings × Budget) :=
  match Settings.ofArguments arguments with
  | .error stop => .error stop
  | .ok s =>
    match s.budget with
    | .error stop => .error stop
    | .ok budget => .ok (s, budget)

/-- The code after an answer on the command line. -/
def codeOf (reply : Reply) : Nat := if reply.proved then 0 else 1

/-- **Running the command line** on arguments and an input. -/
def run (arguments : List String) (input : String) : Except Breakdown Execution :=
  match prepare arguments with
  | .error stop => stopped stop
  | .ok (s, budget) =>
    match s.input with
    | some text =>
      match answer s budget text with
      | .error fault => .error (.request fault)
      | .ok (reply, records) =>
        match (Transcript.log {} records).emit s.out reply.text with
        | .error breakdown => .error breakdown
        | .ok transcript => .ok ⟨codeOf reply, transcript⟩
    | none =>
      match converse s budget {} (inputLines input) with
      | .error breakdown => .error breakdown
      | .ok transcript => .ok ⟨0, transcript⟩

end NaturalDeduction.CommandLine
