import NaturalDeduction.Bot.Mention
import NaturalDeduction.Request

/-!
# The message service

The bot talks to a service that knows who the bot is, lists mentions and
takes replies. What the service remembers is its own affair: it is a type
`σ` that the bot hands from call to call and never looks into, so whatever
is shown of the bot holds for every behaviour of the service.

A run of the bot keeps a journal of its calls and of its log. The journal
goes on when something fails.
-/

namespace NaturalDeduction.Bot

/-- **What can go wrong** while the bot is at work. -/
inductive Fault where
  /-- The service cannot do what it is asked. -/
  | service (message : String)
  /-- A value is refused: by the service, or since it does not fit. -/
  | value (message : String)
  /-- A request has no reply. -/
  | request (fault : RequestFault)
deriving DecidableEq, Repr

/-- **A message service** with memory `σ`. -/
structure Service (σ : Type) where
  /-- The identifier of the bot. -/
  me : σ → Int × σ
  /-- The mentions of a user newer than `since`, at most `most` of them, in
  any order. -/
  mentions : (user : Int) → (since : Option Int) → (most : Nat) → σ →
    Except Fault (List Mention) × σ
  /-- Sends a reply to a message and gives the identifier of the reply. -/
  reply : (text : String) → (parent : Int) → σ → Except Fault Int × σ

/-- A call of the bot. -/
inductive Call where
  | me
  | mentions (user : Int) (since : Option Int) (most : Nat)
  | reply (text : String) (parent : Int)
  | sleep (seconds : Int)
deriving DecidableEq, Repr

/-- How much a record matters. -/
inductive Level where
  | info
  | warning
  | error
deriving DecidableEq, Repr

/-- The level in a word. -/
def Level.name : Level → String
  | info => "INFO"
  | warning => "WARNING"
  | error => "ERROR"

/-- A record of the log. -/
structure LogRecord where
  /-- How much it matters. -/
  level : Level
  /-- What it says. -/
  message : String
deriving DecidableEq, Repr

/-- The record as a line. -/
def LogRecord.line (r : LogRecord) : String := r.level.name ++ " " ++ r.message

/-- **The journal of a run.** -/
structure Journal (σ : Type) where
  /-- What the service remembers. -/
  memory : σ
  /-- The calls made, in order. -/
  calls : List Call := []
  /-- The records logged, in order. -/
  log : List LogRecord := []

/-- **A task of the bot**: what comes of it, and the journal after it. -/
abbrev Task (σ α : Type) := Journal σ → Except Fault α × Journal σ

variable {σ : Type}

namespace Journal

/-- The journal with one more record. -/
def note (j : Journal σ) (level : Level) (message : String) : Journal σ :=
  { j with log := j.log ++ [⟨level, message⟩] }

/-- The journal with one more call, after which the service remembers
`memory`. -/
def record (j : Journal σ) (call : Call) (memory : σ) : Journal σ :=
  { j with memory := memory, calls := j.calls ++ [call] }

/-- The journal after a sleep. -/
def sleep (j : Journal σ) (seconds : Int) : Journal σ :=
  j.record (.sleep seconds) j.memory

end Journal

namespace Service

/-- Asks the service who the bot is. -/
def askMe (service : Service σ) (j : Journal σ) : Int × Journal σ :=
  let (user, memory) := service.me j.memory
  (user, j.record .me memory)

/-- Asks the service for mentions. -/
def askMentions (service : Service σ) (user : Int) (since : Option Int) (most : Nat) :
    Task σ (List Mention) := fun j =>
  let (result, memory) := service.mentions user since most j.memory
  (result, j.record (.mentions user since most) memory)

/-- Has the service send a reply. -/
def sendReply (service : Service σ) (text : String) (parent : Int) : Task σ Int := fun j =>
  let (result, memory) := service.reply text parent j.memory
  (result, j.record (.reply text parent) memory)

end Service

end NaturalDeduction.Bot
