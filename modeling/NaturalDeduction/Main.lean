import NaturalDeduction.CommandLine.Session

/-!
# The program

Reads the arguments and the input and does what the session says, line by
line, so that each answer appears before the next line is read.
-/

namespace NaturalDeduction.CommandLine

/-- Gives an answer, with its records logged before it; gives whether there
is a place for it. -/
def give (s : Settings) (reply : Reply) (records : List String) : IO (Except Breakdown Unit) := do
  for record in records do
    IO.eprint (logLine record)
  match s.out with
  | .output => IO.print (printed reply.text); return .ok ()
  | .file path => IO.FS.writeFile path reply.text; return .ok ()
  | .unnamedFile => return .error .noFile

/-- Tells why a run breaks off. -/
def tell (breakdown : Breakdown) : IO UInt32 := do
  IO.eprintln breakdown.message
  return 1

/-- Answers a text and gives the answer. -/
def answerAndGive (s : Settings) (budget : Budget) (text : String) :
    IO (Except Breakdown Reply) := do
  match answer s budget text with
  | .error fault => return .error (.request fault)
  | .ok (reply, records) =>
    match ← give s reply records with
    | .error breakdown => return .error breakdown
    | .ok _ => return .ok reply

/-- Reads and answers lines until the input ends. -/
partial def interact (s : Settings) (budget : Budget) (input : IO.FS.Stream) : IO UInt32 := do
  IO.print prompt
  (← IO.getStdout).flush
  let line ← input.getLine
  if line.isEmpty then return 0
  let line := (inputLines line).headD ""
  if quits line then return 0
  if isBlankLine line then return ← interact s budget input
  match ← answerAndGive s budget line with
  | .ok _ => interact s budget input
  | .error breakdown => tell breakdown

end NaturalDeduction.CommandLine

open NaturalDeduction in
open NaturalDeduction.CommandLine in
/-- Runs the command line. -/
def main (arguments : List String) : IO UInt32 := do
  match prepare arguments with
  | .error stop =>
    match stopped stop with
    | .error breakdown => tell breakdown
    | .ok e =>
      IO.print e.transcript.stdout
      IO.eprint e.transcript.stderr
      return UInt32.ofNat e.code
  | .ok (s, budget) =>
    match s.input with
    | none => interact s budget (← IO.getStdin)
    | some text =>
      match ← answerAndGive s budget text with
      | .ok reply => return UInt32.ofNat (codeOf reply)
      | .error breakdown => tell breakdown
