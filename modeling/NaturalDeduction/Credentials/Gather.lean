import NaturalDeduction.Credentials.Store

/-!
# Gathering credentials

The bot needs four credentials. They are taken from the file they were saved
to; what the environment has wins over the file; and what is still missing
is asked for. The two access credentials come together, from an
authorization that the user completes with a code. The file is written only
if something had to be asked for.
-/

namespace NaturalDeduction.Credentials

/-- The four credentials. -/
inductive Key where
  | consumerKey
  | consumerSecret
  | accessToken
  | accessTokenSecret
deriving DecidableEq, Repr

namespace Key

/-- The credentials in order. -/
def all : List Key := [consumerKey, consumerSecret, accessToken, accessTokenSecret]

/-- The name of a credential in the store. -/
def name : Key → String
  | consumerKey => "consumer_key"
  | consumerSecret => "consumer_secret"
  | accessToken => "access_token"
  | accessTokenSecret => "access_token_secret"

/-- The variable of the environment that holds a credential. -/
def variableName : Key → String
  | consumerKey => "TWITTER_CONSUMER_KEY"
  | consumerSecret => "TWITTER_CONSUMER_SECRET"
  | accessToken => "TWITTER_ACCESS_TOKEN"
  | accessTokenSecret => "TWITTER_ACCESS_TOKEN_SECRET"

end Key

/-- **Where credentials are gathered.** -/
structure Surroundings where
  /-- The text of the file, if there is one. -/
  file : Option String
  /-- The variables of the environment. -/
  environment : List (String × String)
  /-- What the user will answer, question by question. -/
  answers : List String
  /-- Where the user is sent to authorize the bot. -/
  authorizationUrl : String
  /-- The access token and its secret that a code is exchanged for. -/
  exchange : String → String × String

/-- **Why credentials could not be gathered.** -/
inductive GatherFault where
  /-- The file is no object of strings. -/
  | unreadableFile
  /-- The user has no more answers. -/
  | noMoreAnswers
deriving DecidableEq, Repr

/-- The fault in words. -/
def GatherFault.message : GatherFault → String
  | unreadableFile => "the credentials file is not a JSON object of strings"
  | noMoreAnswers => "no more answers"

/-- A step of an authorization. -/
inductive AuthorizationCall where
  /-- The authorization is set up, for a user who comes back with a code. -/
  | setUp (consumerKey consumerSecret : String)
  /-- The address for the user is asked for. -/
  | url
  /-- The code is exchanged. -/
  | exchange (code : String)
deriving DecidableEq, Repr

/-- **How far gathering has come**: the credentials so far, and what has
been asked, printed and called. -/
structure Progress where
  /-- The credentials so far. -/
  store : Store
  /-- The answers that are left. -/
  answers : List String
  /-- The questions asked. -/
  prompts : List String := []
  /-- The steps of the authorization. -/
  calls : List AuthorizationCall := []
  /-- What was printed. -/
  printed : String := ""
deriving DecidableEq, Repr

/-- A step of gathering: it can fail, but what it did until then stays. -/
abbrev Step (α : Type) := Progress → Except GatherFault α × Progress

/-- Asks the user a question. -/
def ask (question : String) : Step String := fun p =>
  let p := { p with prompts := p.prompts ++ [question] }
  match p.answers with
  | [] => (.error .noMoreAnswers, p)
  | answer :: rest => (.ok answer, { p with answers := rest })

/-- Asks for a credential that is missing. -/
def askFor (key : Key) (question : String) : Step Unit := fun p =>
  if p.store.has key.name then (.ok (), p)
  else
    match ask question p with
    | (.error e, p) => (.error e, p)
    | (.ok answer, p) => (.ok (), { p with store := p.store.put key.name answer })

/-- Gets the access credentials by an authorization, if one is missing. -/
def authorize (s : Surroundings) : Step Unit := fun p =>
  if p.store.has Key.accessToken.name && p.store.has Key.accessTokenSecret.name then (.ok (), p)
  else
    let consumerKey := (p.store.lookup Key.consumerKey.name).getD ""
    let consumerSecret := (p.store.lookup Key.consumerSecret.name).getD ""
    let p := { p with
      calls := p.calls ++ [.setUp consumerKey consumerSecret, .url]
      printed := p.printed ++ "Go here: " ++ s.authorizationUrl ++ "\n" }
    match ask "Verifier Pin: " p with
    | (.error e, p) => (.error e, p)
    | (.ok code, p) =>
      let (token, secret) := s.exchange code
      let store := (p.store.put Key.accessToken.name token).put Key.accessTokenSecret.name secret
      (.ok (), { p with store := store, calls := p.calls ++ [.exchange code] })

/-- The store with what the environment has; an empty variable counts as
none. -/
def withEnvironment (environment : List (String × String)) (store : Store) : Store :=
  Key.all.foldl (fun store key =>
    match environment.lookup key.variableName with
    | some value => if value.isEmpty then store else store.put key.name value
    | none => store) store

/-- The credentials saved in a file. -/
def savedStore : Option String → Except GatherFault Store
  | none => .ok []
  | some text =>
    match Store.decode? text with
    | some store => .ok store
    | none => .error .unreadableFile

/-- Asks for all that is missing, in order. -/
def complete (s : Surroundings) : Step Unit := fun p =>
  match askFor .consumerKey "Twitter API Consumer Key: " p with
  | (.error e, p) => (.error e, p)
  | (.ok _, p) =>
    match askFor .consumerSecret "Twitter API Consumer Secret: " p with
    | (.error e, p) => (.error e, p)
    | (.ok _, p) => authorize s p

/-- **What came of gathering.** -/
structure Gathering where
  /-- The credentials, or why there are none. -/
  result : Except GatherFault Store
  /-- The text of the file afterwards. -/
  file : Option String
  /-- The questions asked. -/
  prompts : List String
  /-- The steps of the authorization. -/
  calls : List AuthorizationCall
  /-- What was printed. -/
  printed : String

/-- **Gathering credentials.** -/
def gather (s : Surroundings) : Gathering :=
  match savedStore s.file with
  | .error e => ⟨.error e, s.file, [], [], ""⟩
  | .ok saved =>
    let start : Progress :=
      { store := withEnvironment s.environment saved, answers := s.answers }
    match complete s start with
    | (.error e, p) => ⟨.error e, s.file, p.prompts, p.calls, p.printed⟩
    | (.ok _, p) =>
      let file := if p.prompts.isEmpty then s.file else some p.store.encode
      ⟨.ok p.store, file, p.prompts, p.calls, p.printed⟩

/-- What the service is opened with: the four credentials in order. -/
def clientKeys (store : Store) : List String :=
  Key.all.map fun key => (store.lookup key.name).getD ""

end NaturalDeduction.Credentials
