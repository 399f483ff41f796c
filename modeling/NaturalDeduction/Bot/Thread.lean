import NaturalDeduction.Text.Lines

/-!
# Threads

A message holds at most 280 bytes, so a longer answer is sent as a thread.
It is cut between lines only; each message takes as many lines as fit. An
answer with a line that does not fit into a message cannot be sent.
-/

namespace NaturalDeduction.Bot

/-- How many bytes a message holds. -/
def messageLimit : Nat := 280

/-- A line that does not fit into a message. -/
structure LineTooLong where
deriving DecidableEq, Repr

/-- What is wrong. -/
def LineTooLong.message (_ : LineTooLong) : String :=
  "A line with length >280 was given"

/-- Whether lines fit into one message. -/
def fits (ls : List String) : Bool :=
  Text.byteSize (Text.joinLines ls) ≤ messageLimit

/-- Lines put into groups, each of which takes as many as fit; the first
group has the lines `current` already. -/
def group (current : List String) : List String → List (List String)
  | [] => [current]
  | line :: rest =>
    if fits (current ++ [line]) then group (current ++ [line]) rest
    else current :: group [line] rest

/-- The groups of lines. -/
def groups : List String → List (List String)
  | [] => []
  | line :: rest => group [line] rest

/-- **The messages an answer is sent as.** -/
def chunks (text : String) : Except LineTooLong (List String) :=
  let ls := Text.lines text
  if ls.any fun line => messageLimit < Text.byteSize line then .error ⟨⟩
  else .ok ((groups ls).map Text.joinLines)

end NaturalDeduction.Bot
