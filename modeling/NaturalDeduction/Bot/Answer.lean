import NaturalDeduction.Bot.Service
import NaturalDeduction.Bot.Thread

/-!
# Answering mentions

A mention is answered with a thread: the first message replies to the
mention, each later one to the message before it. If the answer is refused,
a short apology is sent instead, in reply to the mention.

Mentions are polled for those newer than the last one answered, and answered
oldest first. When the service fails half way, the round ends there, and the
next one starts after the last mention that was answered.
-/

namespace NaturalDeduction.Bot

variable {σ : Type}

/-- Sends messages as a thread that starts in reply to `parent`. -/
def sendThread (service : Service σ) : (parent : Int) → List String → Task σ Unit
  | _, [] => fun j => (.ok (), j)
  | parent, text :: rest => fun j =>
    match service.sendReply text parent j with
    | (.error fault, j) => (.error fault, j)
    | (.ok id, j) => sendThread service id rest j

/-- **Replying at length**: sends a text in reply to a message, as a thread
if it is too long for one message. -/
def longReply (service : Service σ) (parent : Int) (text : String) : Task σ Unit :=
  match chunks text with
  | .ok messages => sendThread service parent messages
  | .error e => fun j => (.error (.value e.message), j)

/-- What is sent when an answer is refused. -/
def apology : String := "That proof is too wide to tweet."

/-- The text an answer is sent as. -/
def answerText (reply : Reply) : String :=
  if reply.proved then "Proof:\n\n" ++ Text.dropFinalNewlines reply.text else reply.text

/-- What is logged of an answer. -/
def answerRecord (reply : Reply) : String :=
  if reply.proved then answerText reply else "failed to prove"

/-- Sends an answer to a mention, or the apology if it is refused. -/
def sendAnswer (service : Service σ) (parent : Int) (text : String) : Task σ Unit := fun j =>
  match longReply service parent text j with
  | (.error (.value _), j) =>
    longReply service parent apology
      (j.note .warning ("Reply to " ++ toString parent ++ " has a line over 280 bytes"))
  | other => other

/-- **Answering a mention**: proves what it asks for and replies; gives
whether a proof was found. -/
def answerMention (service : Service σ) (id : Int) (text : String) : Task σ Bool := fun j =>
  let request := readRequest text
  let j := j.note .info ("Got a new theorem to prove: " ++ request.text)
  match respond request.text request.style .standard with
  | .error fault => (.error (.request fault), j)
  | .ok reply =>
    match sendAnswer service id (answerText reply) (j.note .info (answerRecord reply)) with
    | (.error fault, j) => (.error fault, j)
    | (.ok _, j) => (.ok reply.proved, j)

/-! ## Polling -/

/-- **What came of a round**: the mentions that were answered, in order, and
the fault that ended it, if one did. -/
structure Round where
  /-- The identifiers of the mentions answered. -/
  answered : List Int
  /-- What ended the round before all were answered. -/
  fault : Option Fault
deriving DecidableEq, Repr

/-- Answers mentions one after the other until one fails. -/
def answerEach (service : Service σ) : List Mention → Journal σ → Round × Journal σ
  | [], j => (⟨[], none⟩, j)
  | m :: rest, j =>
    match answerMention service m.id m.text j with
    | (.error fault, j) => (⟨[], some fault⟩, j)
    | (.ok _, j) =>
      let (round, j) := answerEach service rest j
      ({ round with answered := m.id :: round.answered }, j)

/-- How many mentions a poll asks for. -/
def pollSize : Nat := 100

/-- Mentions from the oldest to the newest; those with one identifier stay
in order. -/
def oldestFirst (mentions : List Mention) : List Mention :=
  mentions.mergeSort fun a b => a.id ≤ b.id

/-- **Polling**: answers the mentions of a user newer than `since`. -/
def poll (service : Service σ) (user : Int) (since : Option Int) (j : Journal σ) :
    Round × Journal σ :=
  match service.askMentions user since pollSize j with
  | (.error fault, j) => (⟨[], some fault⟩, j)
  | (.ok mentions, j) => answerEach service (oldestFirst mentions) j

/-- **A round of answering**: polls and gives the identifier to go on from,
which covers every mention answered before the service failed. -/
def answerMentions (service : Service σ) (user : Int) (since : Option Int) :
    Task σ (Option Int) := fun j =>
  let (round, j) := poll service user since j
  let next := round.answered.getLast?.or since
  match round.fault with
  | none => (.ok next, j)
  | some (.service _) => (.ok next, j.note .error "Polling mentions failed")
  | some fault => (.error fault, j)

/-! ## Listening -/

/-- How many mentions are asked for to find the newest one. -/
def latestSize : Nat := 5

/-- The largest identifier of some mentions. -/
def newest? (mentions : List Mention) : Option Int :=
  (mentions.map (·.id)).max?

/-- Where listening starts: after the newest mention, or from the first one
if those that exist are to be answered too. -/
def startingPoint (service : Service σ) (user : Int) (answerExisting : Bool) :
    Task σ (Option Int) := fun j =>
  if answerExisting then (.ok none, j)
  else
    match service.askMentions user none latestSize j with
    | (.error fault, j) => (.error fault, j)
    | (.ok mentions, j) => (.ok (newest? mentions), j)

/-- Rounds of answering, with a sleep after each. -/
def listenRounds (service : Service σ) (user : Int) (interval : Int) :
    (rounds : Nat) → (since : Option Int) → Task σ Unit
  | 0, _ => fun j => (.ok (), j)
  | rounds + 1, since => fun j =>
    match answerMentions service user since j with
    | (.error fault, j) => (.error fault, j)
    | (.ok since, j) => listenRounds service user interval rounds since (j.sleep interval)

/-- **Listening** for mentions, for a number of rounds. -/
def listen (service : Service σ) (rounds : Nat) (interval : Int) (answerExisting : Bool) :
    Task σ Unit := fun j =>
  let (user, j) := service.askMe j
  match startingPoint service user answerExisting j with
  | (.error fault, j) => (.error fault, j)
  | (.ok since, j) =>
    listenRounds service user interval rounds since
      (j.note .info ("Listening for mentions of " ++ toString user ++ "..."))

end NaturalDeduction.Bot
