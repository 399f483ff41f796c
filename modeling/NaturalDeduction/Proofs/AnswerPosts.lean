import NaturalDeduction.Proofs.Polling
import NaturalDeduction.Proofs.Threads

/-!
# What is sent in answer to a mention

An answer is sent as a thread, and if it is too wide for that an apology is sent
in its place. The two are not meant to mix, and in two cases out of three they do
not. If a line is too long, this is found out before anything is sent, and the
apology is all there is. If the service fails, the thread ends there. But a
message may also be refused for its value by the service, and the bot takes this
for a line that is too long: then the apology follows on what was sent of the
thread, although every line of the answer fits (`Bot.answerMention_mixed`).

To say this without the bot, what is sent is a list of posts, and what the service
makes of it is found by handing them to the service one after the other
(`Bot.outcomes`). A list of posts is a thread if each post replies to the one before
it, by the identifier that the service gave for that (`Bot.IsThread`).
-/

namespace NaturalDeduction.Bot

variable {σ : Type}

/-! ## Posts -/

/-- **A post**: a text and the message it replies to. -/
structure Post where
  /-- What it says. -/
  text : String
  /-- The message it replies to. -/
  parent : Int
deriving DecidableEq, Repr

/-- The call by which a post is sent. -/
def Post.call (p : Post) : Call := .reply p.text p.parent

section Outcomes

variable (service : Service σ)

/-- **What the service makes of posts** that are sent one after the other, failed
or not: a fault, or the identifier of the new message. -/
def outcomes : σ → List Post → List (Except Fault Int)
  | _, [] => []
  | memory, p :: rest =>
    (service.reply p.text p.parent memory).1
      :: outcomes (service.reply p.text p.parent memory).2 rest

/-- What the service remembers of posts. -/
def memoryAfter : σ → List Post → σ
  | memory, [] => memory
  | memory, p :: rest => memoryAfter (service.reply p.text p.parent memory).2 rest

theorem outcomes_append (memory : σ) (ps qs : List Post) :
    outcomes service memory (ps ++ qs)
      = outcomes service memory ps ++ outcomes service (memoryAfter service memory ps) qs := by
  induction ps generalizing memory with
  | nil => rfl
  | cons p ps ih => exact congrArg (_ :: ·) (ih _)

end Outcomes

/-- **Posts that make up a thread** in reply to a message. -/
structure IsThread (parent : Int) (posts : List Post) (results : List (Except Fault Int)) :
    Prop where
  /-- The first post replies to the message. -/
  first : ∀ p ∈ posts.head?, p.parent = parent
  /-- Each later one replies to what came of the one before. -/
  later : ∀ i p, posts[i + 1]? = some p → results[i]? = some (.ok p.parent)

/-- The last post was refused for its value. -/
def LastRefused (results : List (Except Fault Int)) : Prop :=
  ∃ message, results.getLast? = some (.error (.value message))

namespace IsThread

variable {parent id : Int} {posts : List Post} {results : List (Except Fault Int)}

theorem nil (parent : Int) (results : List (Except Fault Int)) : IsThread parent [] results :=
  ⟨nofun, nofun⟩

theorem singleton (text : String) (parent : Int) (results : List (Except Fault Int)) :
    IsThread parent [⟨text, parent⟩] results := by
  refine ⟨fun p hp => ?_, nofun⟩
  rw [← Option.some.inj hp]

theorem cons (text : String) (parent : Int) (h : IsThread id posts results) :
    IsThread parent (⟨text, parent⟩ :: posts) (.ok id :: results) := by
  refine ⟨fun p hp => ?_, fun i p hp => ?_⟩
  · rw [← Option.some.inj hp]
  · rw [List.getElem?_cons_succ] at hp
    cases i with
    | zero =>
      rw [← List.head?_eq_getElem?] at hp
      rw [h.first p hp]
      rfl
    | succ i => exact h.later i p hp

/-- It is a thread whatever is sent after it. -/
theorem append (h : IsThread parent posts results) (more : List (Except Fault Int)) :
    IsThread parent posts (results ++ more) := by
  refine ⟨h.first, fun i p hp => ?_⟩
  have hresult := h.later i p hp
  have hlt : i < results.length := (List.getElem?_eq_some_iff.mp hresult).1
  rwa [List.getElem?_append_left hlt]

end IsThread

/-! ## Sending a thread -/

/-- **What came of sending messages as a thread**, when `posts` were sent. -/
structure SendsThread (service : Service σ) (parent : Int) (messages : List String)
    (j : Journal σ) (outcome : Except Fault Unit × Journal σ) (posts : List Post) : Prop where
  calls : outcome.2.calls = j.calls ++ posts.map Post.call
  memory : outcome.2.memory = memoryAfter service j.memory posts
  /-- They are the first of the messages. -/
  front : posts.map (·.text) <+: messages
  thread : IsThread parent posts (outcomes service j.memory posts)
  /-- Without a fault they are all of them, and none has failed. -/
  finished : outcome.1 = .ok () → posts.map (·.text) = messages
    ∧ ∀ r ∈ outcomes service j.memory posts, ∃ id, r = .ok id
  /-- A fault is that of the last one sent. -/
  failed : ∀ fault, outcome.1 = .error fault →
    (outcomes service j.memory posts).getLast? = some (.error fault)

section Step

variable {service : Service σ} {text : String} {parent : Int} {rest : List String} {j : Journal σ}

/-- The journal after a post. -/
def Journal.posted (j : Journal σ) (service : Service σ) (text : String) (parent : Int) :
    Journal σ :=
  j.record (.reply text parent) (service.reply text parent j.memory).2

theorem sendThread_of_error {fault : Fault}
    (h : (service.reply text parent j.memory).1 = .error fault) :
    sendThread service parent (text :: rest) j
      = (.error fault, j.posted service text parent) := by
  simp only [sendThread, Service.sendReply, Journal.posted, h]

theorem sendThread_of_ok {id : Int} (h : (service.reply text parent j.memory).1 = .ok id) :
    sendThread service parent (text :: rest) j
      = sendThread service id rest (j.posted service text parent) := by
  simp only [sendThread, Service.sendReply, Journal.posted, h]

end Step

/-- **A thread is sent from its front** until a message fails. -/
theorem exists_sendsThread (service : Service σ) (parent : Int) (messages : List String)
    (j : Journal σ) :
    ∃ posts,
      SendsThread service parent messages j (sendThread service parent messages j) posts := by
  induction messages generalizing parent j with
  | nil =>
    refine ⟨[], (List.append_nil _).symm, rfl, List.prefix_rfl, .nil _ _, fun _ => ⟨rfl, nofun⟩, ?_⟩
    intro fault hfault
    cases hfault
  | cons text rest ih =>
    rcases hresult : (service.reply text parent j.memory).1 with fault | id
    · have houtcomes : outcomes service j.memory [⟨text, parent⟩] = [.error fault] :=
        congrArg ([·]) hresult
      rw [sendThread_of_error hresult]
      refine ⟨[⟨text, parent⟩], rfl, rfl, ⟨rest, rfl⟩, .singleton _ _ _, fun hok => ?_, ?_⟩
      · cases hok
      · intro fault' hfault
        rw [houtcomes, ← Except.error.inj hfault]
        rfl
    · obtain ⟨posts, hposts⟩ := ih id (j.posted service text parent)
      have houtcomes : outcomes service j.memory (⟨text, parent⟩ :: posts)
          = .ok id :: outcomes service (j.posted service text parent).memory posts :=
        congrArg (· :: _) hresult
      rw [sendThread_of_ok hresult]
      refine ⟨⟨text, parent⟩ :: posts, ?_, hposts.memory, ?_, ?_, fun hok => ?_,
        fun fault hfault => ?_⟩
      · rw [hposts.calls]
        exact List.append_assoc _ _ _
      · exact List.cons_prefix_cons.mpr ⟨rfl, hposts.front⟩
      · rw [houtcomes]
        exact hposts.thread.cons text parent
      · obtain ⟨hall, hgood⟩ := hposts.finished hok
        rw [houtcomes]
        exact ⟨congrArg (text :: ·) hall, List.forall_mem_cons.mpr ⟨⟨id, rfl⟩, hgood⟩⟩
      · rw [houtcomes, List.getLast?_cons, hposts.failed fault hfault]
        rfl

namespace SendsThread

variable {service : Service σ} {parent : Int} {messages : List String} {j : Journal σ}
  {outcome : Except Fault Unit × Journal σ} {posts : List Post}

theorem posts_ne_nil (h : SendsThread service parent messages j outcome posts)
    (hmessages : messages ≠ []) : posts ≠ [] := by
  rintro rfl
  rcases hresult : outcome.1 with fault | _
  · cases h.failed fault hresult
  · exact hmessages (h.finished hresult).1.symm

theorem value_of_lastRefused (h : SendsThread service parent messages j outcome posts)
    (hrefused : LastRefused (outcomes service j.memory posts)) :
    ∃ message, outcome.1 = .error (.value message) := by
  obtain ⟨message, hlast⟩ := hrefused
  rcases hresult : outcome.1 with fault | _
  · have hfault := h.failed fault hresult
    rw [hlast] at hfault
    exact ⟨message, congrArg Except.error (Except.error.inj (Option.some.inj hfault)).symm⟩
  · obtain ⟨id, hid⟩ := (h.finished hresult).2 _ (List.mem_of_getLast? hlast)
    cases hid

end SendsThread

/-- A thread of one message. -/
theorem sendThread_singleton (service : Service σ) (text : String) (parent : Int) (j : Journal σ) :
    sendThread service parent [text] j
      = ((service.reply text parent j.memory).1.map fun _ => (), j.posted service text parent) := by
  rcases hresult : (service.reply text parent j.memory).1 with fault | id
  · rw [sendThread_of_error hresult]
    rfl
  · rw [sendThread_of_ok hresult]
    rfl

/-! ## Cutting an answer -/

theorem chunks_of_long {text : String} (h : ∃ line ∈ Text.lines text, 280 < Text.byteSize line) :
    chunks text = .error ⟨⟩ := by
  obtain ⟨line, hline, hlong⟩ := h
  exact if_pos (List.any_eq_true.mpr ⟨line, hline, decide_eq_true hlong⟩)

/-- The messages of an answer whose lines all fit: there is one at least, and
together they are the answer. -/
theorem exists_chunks_of_short {text : String}
    (h : ∀ line ∈ Text.lines text, Text.byteSize line ≤ 280) :
    ∃ messages, chunks text = .ok messages ∧ messages ≠ [] ∧ Text.joinLines messages = text := by
  have hpacked : Packed (Text.lines text) (groups (Text.lines text)) :=
    packed_groups fun line hline => fits_iff.mpr (h line hline)
  refine ⟨_, if_neg fun hany => ?_, fun hnil => ?_, ?_⟩
  · obtain ⟨line, hline, hlong⟩ := List.any_eq_true.mp hany
    exact absurd (h line hline) (Nat.not_le_of_lt (of_decide_eq_true hlong))
  · have hlines : Text.lines text = [] := by
      rw [← hpacked.flatten, List.map_eq_nil_iff.mp hnil]
      rfl
    exact List.splitOn_ne_nil _ _ (List.map_eq_nil_iff.mp hlines)
  · rw [Text.joinLines_flatten fun g hg => (hpacked.mem g hg).1, hpacked.flatten,
      Text.joinLines_lines]

/-- An answer starts with the first of its messages. -/
theorem head_isPrefix_joinLines (m : String) (ms : List String) :
    m.toList <+: (Text.joinLines (m :: ms)).toList := by
  cases ms with
  | nil =>
    rw [Text.joinLines_singleton]
  | cons m' ms =>
    rw [Text.joinLines, String.intercalate_cons_cons, String.toList_append, String.toList_append,
      List.append_assoc]
    exact List.prefix_append _ _

/-! ## Answers and apologies -/

theorem chunks_apology : chunks apology = .ok [apology] := by decide +kernel

/-- What an answer may start with. -/
def answerFronts : List String :=
  ["Proof:\n\n", "error when parsing:\n", "error when checking:\n", "error when solving:\n",
    "internal error:\n"]

theorem exists_answerText_eq {text : String} {style : Style} {budget : Budget} {reply : Reply}
    (h : respond text style budget = .ok reply) :
    ∃ front ∈ answerFronts, ∃ rest, answerText reply = front ++ rest := by
  unfold respond Reply.ofOutcome at h
  split at h
  · cases h
    exact ⟨"internal error:\n", by decide, _, rfl⟩
  · cases h
  · next outcome _ =>
    cases outcome with
    | proved p =>
      simp only [Outcome.describe] at h
      split at h
      · cases h
        exact ⟨"Proof:\n\n", by decide, _, rfl⟩
      · cases h
    | unreadable e =>
      cases h
      exact ⟨"error when parsing:\n", by decide, _, String.append_assoc⟩
    | refuted c =>
      cases h
      exact ⟨"error when checking:\n", by decide, _, rfl⟩
    | exhausted e =>
      cases h
      exact ⟨"error when solving:\n", by decide, _, rfl⟩

/-- **No answer is the apology**, and none has it for its first message. -/
theorem apology_not_isPrefix {text : String} {style : Style} {budget : Budget} {reply : Reply}
    (h : respond text style budget = .ok reply) :
    ¬ apology.toList <+: (answerText reply).toList := by
  obtain ⟨front, hfront, rest, hanswer⟩ := exists_answerText_eq h
  have hapart : ∀ front ∈ answerFronts,
      front.toList.head? ≠ none ∧ front.toList.head? ≠ apology.toList.head? := by decide
  obtain ⟨hne, hhead⟩ := hapart front hfront
  rintro ⟨after, hafter⟩
  rw [hanswer, String.toList_append] at hafter
  have hheads := congrArg List.head? hafter
  rw [List.head?_append_of_ne_nil _ (by decide), List.head?_append_of_ne_nil _ (by simpa using hne)]
    at hheads
  exact hhead hheads.symm

/-- **What a mention is answered with**: the posts in answer to the message `id`, sent
to a service that remembers `memory`. -/
structure AnsweredWith (service : Service σ) (memory : σ) (id : Int) (answer : String)
    (posts : List Post) : Prop where
  /-- There is an answer of some kind. -/
  posts_ne_nil : posts ≠ []
  /-- The apology alone is sent, in reply to the mention, exactly if a line of the
  answer is too long. -/
  tooWide : posts = [⟨apology, id⟩] ↔ ∃ line ∈ Text.lines answer, 280 < Text.byteSize line
  /-- Otherwise a thread is sent, from its front, in reply to the mention, all of it
  if nothing fails. The apology follows if the last message sent was refused for its
  value, and only then. -/
  thread : (∀ line ∈ Text.lines answer, Text.byteSize line ≤ 280) →
    ∃ messages sent, chunks answer = .ok messages ∧ sent.map (·.text) <+: messages
      ∧ IsThread id sent (outcomes service memory posts)
      ∧ ((∀ r ∈ outcomes service memory posts, ∃ reply, r = .ok reply) →
        posts.map (·.text) = messages)
      ∧ ((posts = sent ∧ ¬ LastRefused (outcomes service memory sent))
        ∨ (posts = sent ++ [⟨apology, id⟩] ∧ LastRefused (outcomes service memory sent)))

section Sending

variable {service : Service σ} {id : Int} {answer : String} {j : Journal σ}

/-- The warning that goes with the apology. -/
def Journal.warned (j : Journal σ) (id : Int) : Journal σ :=
  j.note .warning ("Reply to " ++ toString id ++ " has a line over 280 bytes")

/-- After a value was refused the apology is sent. -/
theorem sendAnswer_of_value {message : String} {j₁ : Journal σ}
    (h : longReply service id answer j = (.error (.value message), j₁)) :
    sendAnswer service id answer j = sendThread service id [apology] (j₁.warned id) := by
  have hlong : longReply service id apology = sendThread service id [apology] := by
    rw [longReply, chunks_apology]
  rw [sendAnswer, h, ← hlong]
  rfl

theorem sendAnswer_of_not_value
    (h : ∀ message, (longReply service id answer j).1 ≠ .error (.value message)) :
    sendAnswer service id answer j = longReply service id answer j := by
  unfold sendAnswer
  split
  · next message _ hvalue => exact absurd (congrArg Prod.fst hvalue) (h message)
  · rfl

/-- An answer with a line that is too long: only the apology is sent. -/
theorem sendAnswer_of_long (h : ∃ line ∈ Text.lines answer, 280 < Text.byteSize line) :
    sendAnswer service id answer j = sendThread service id [apology] (j.warned id) := by
  have hrefused : longReply service id answer j
      = (.error (.value (LineTooLong.message ⟨⟩)), j) := by
    rw [longReply, chunks_of_long h]
  exact sendAnswer_of_value hrefused

theorem answeredWith_of_long (service : Service σ) (memory : σ)
    (h : ∃ line ∈ Text.lines answer, 280 < Text.byteSize line) :
    AnsweredWith service memory id answer [⟨apology, id⟩] where
  posts_ne_nil := List.cons_ne_nil _ _
  tooWide := ⟨fun _ => h, fun _ => rfl⟩
  thread hshort := by
    obtain ⟨line, hline, hlong⟩ := h
    exact absurd (hshort line hline) (Nat.not_le_of_lt hlong)

/-- What is sent of a thread, with the apology after it or without, is an answer
if the lines fit. -/
theorem answeredWith_of_short {messages : List String} {outcome : Except Fault Unit × Journal σ}
    {sent extra : List Post} (hanswer : ¬ apology.toList <+: answer.toList)
    (hshort : ∀ line ∈ Text.lines answer, Text.byteSize line ≤ 280)
    (hmessages : chunks answer = .ok messages)
    (hsent : SendsThread service id messages j outcome sent)
    (hextra : (extra = [] ∧ ¬ ∃ message, outcome.1 = .error (.value message))
      ∨ (extra = [⟨apology, id⟩] ∧ ∃ message, outcome.1 = .error (.value message))) :
    AnsweredWith service j.memory id answer (sent ++ extra) := by
  obtain ⟨messages', hmessages', hne, hjoin⟩ := exists_chunks_of_short hshort
  obtain rfl : messages = messages' := Except.ok.inj (hmessages.symm.trans hmessages')
  have hposts := hsent.posts_ne_nil hne
  have hthread : IsThread id sent (outcomes service j.memory (sent ++ extra)) := by
    rw [outcomes_append]
    exact hsent.thread.append _
  refine ⟨fun hnil => hposts (List.append_eq_nil_iff.mp hnil).1, ⟨fun hapology => ?_, ?_⟩,
    fun _ => ⟨messages, sent, hmessages, hsent.front, hthread, fun hgood => ?_, ?_⟩⟩
  · -- The first post is the first message, and this is where the answer starts.
    obtain ⟨p, ps, rfl⟩ := List.exists_cons_of_ne_nil hposts
    obtain ⟨m, ms, rfl⟩ := List.exists_cons_of_ne_nil hne
    obtain ⟨rfl, -⟩ := List.cons.inj hapology
    have hfirst : apology = m := (List.cons_prefix_cons.mp hsent.front).1
    rw [← hjoin, hfirst] at hanswer
    exact absurd (head_isPrefix_joinLines m ms) hanswer
  · rintro ⟨line, hline, hlong⟩
    exact absurd (hshort line hline) (Nat.not_le_of_lt hlong)
  · have hok : outcome.1 = .ok () := by
      rcases hresult : outcome.1 with fault | _
      · have hlast := List.mem_of_getLast? (hsent.failed fault hresult)
        rw [outcomes_append] at hgood
        obtain ⟨reply, hreply⟩ := hgood _ (List.mem_append_left _ hlast)
        cases hreply
      · rfl
    rcases hextra with ⟨rfl, -⟩ | ⟨-, message, hvalue⟩
    · rw [List.append_nil]
      exact (hsent.finished hok).1
    · rw [hok] at hvalue
      cases hvalue
  · rcases hextra with ⟨rfl, hnone⟩ | ⟨rfl, message, hvalue⟩
    · exact .inl ⟨List.append_nil sent, fun hrefused => hnone (hsent.value_of_lastRefused hrefused)⟩
    · exact .inr ⟨rfl, message, hsent.failed _ hvalue⟩

/-- **An answer is sent**: as a thread or by the apology, with a fault exactly if the
last call has one. -/
theorem exists_answeredWith (service : Service σ) (id : Int) (j : Journal σ)
    (hanswer : ¬ apology.toList <+: answer.toList) :
    ∃ posts, (sendAnswer service id answer j).2.calls = j.calls ++ posts.map Post.call
      ∧ AnsweredWith service j.memory id answer posts
      ∧ ∀ r ∈ (outcomes service j.memory posts).getLast?,
        (sendAnswer service id answer j).1 = r.map fun _ => () := by
  by_cases hlong : ∃ line ∈ Text.lines answer, 280 < Text.byteSize line
  · refine ⟨[⟨apology, id⟩], ?_, answeredWith_of_long service j.memory hlong, fun r hr => ?_⟩
    · rw [sendAnswer_of_long hlong, sendThread_singleton]
      rfl
    · rw [sendAnswer_of_long hlong, sendThread_singleton, ← Option.some.inj hr]
      rfl
  · have hshort : ∀ line ∈ Text.lines answer, Text.byteSize line ≤ 280 := fun line hline =>
      Nat.le_of_not_lt fun hlt => hlong ⟨line, hline, hlt⟩
    obtain ⟨messages, hmessages, -, -⟩ := exists_chunks_of_short hshort
    have hreply : longReply service id answer j = sendThread service id messages j := by
      rw [longReply, hmessages]
    obtain ⟨sent, hsent⟩ := exists_sendsThread service id messages j
    rw [← hreply] at hsent
    by_cases hvalue : ∃ message, (longReply service id answer j).1 = .error (.value message)
    · refine ⟨sent ++ [⟨apology, id⟩], ?_,
        answeredWith_of_short hanswer hshort hmessages hsent (.inr ⟨rfl, hvalue⟩), fun r hr => ?_⟩
      all_goals
        obtain ⟨message, hmessage⟩ := hvalue
        rw [sendAnswer_of_value (Prod.ext hmessage rfl), sendThread_singleton]
      · rw [List.map_append, ← List.append_assoc, ← hsent.calls]
        rfl
      · rw [outcomes_append, ← hsent.memory] at hr
        have hlast : (outcomes service j.memory sent
            ++ [(service.reply apology id (longReply service id answer j).2.memory).1]).getLast?
              = some r := hr
        rw [List.getLast?_append, List.getLast?_singleton] at hlast
        rw [← Option.some.inj hlast]
        rfl
    · have hsame := sendAnswer_of_not_value fun message h => hvalue ⟨message, h⟩
      have hposts := answeredWith_of_short hanswer hshort hmessages hsent (.inl ⟨rfl, hvalue⟩)
      rw [List.append_nil] at hposts
      rw [hsame]
      refine ⟨sent, hsent.calls, hposts, fun r hr => ?_⟩
      rcases hresult : (longReply service id answer j).1 with fault | _
      · rw [hsent.failed fault hresult] at hr
        rw [← Option.some.inj hr]
        rfl
      · obtain ⟨reply, rfl⟩ := (hsent.finished hresult).2 r (List.mem_of_getLast? hr)
        rfl

end Sending

/-- **A mention is answered by a thread, or by the apology, and by both only if the
service refuses a value.** There is an answer to every mention. If one of its lines
is too long for a message, the apology is sent and nothing else, and this is the
only case in which it is sent alone. Otherwise what is sent is the front of the
thread of its messages, all of it if nothing fails, and the apology after that if
the last message sent was refused for its value. Answering fails with the fault of
the last call, if that has one. -/
theorem answerMention_posts (service : Service σ) (id : Int) (text : String) (j : Journal σ) :
    ∃ reply posts, respond (readRequest text).text (readRequest text).style .standard = .ok reply
      ∧ (answerMention service id text j).2.calls = j.calls ++ posts.map Post.call
      ∧ AnsweredWith service j.memory id (answerText reply) posts
      ∧ ∀ r ∈ (outcomes service j.memory posts).getLast?,
        (answerMention service id text j).1 = r.map fun _ => reply.proved := by
  obtain ⟨reply, hreply⟩ :=
    exists_respond_standard (readRequest text).text (readRequest text).style
  obtain ⟨posts, hcalls, hanswered, hresult⟩ := exists_answeredWith service id
    ((j.note .info ("Got a new theorem to prove: " ++ (readRequest text).text)).note .info
      (answerRecord reply)) (apology_not_isPrefix hreply)
  refine ⟨reply, posts, hreply, ?_⟩
  unfold answerMention
  dsimp only
  rw [hreply]
  dsimp only
  generalize sendAnswer service id (answerText reply) _ = sent at hcalls hresult ⊢
  rcases sent with ⟨fault | _, j₁⟩
  all_goals
    refine ⟨hcalls, hanswered, fun r hr => ?_⟩
    have hlast := hresult r hr
    cases r <;> cases hlast
    rfl

/-! A proof that takes one message, and a service that fails at it. -/

/-- The proof of `A to A` as a message. -/
def identityAnswer : String := "Proof:\n\nA → A : 1\n+ A from: 1"

/-- A service that numbers its messages from 1000, and fails at the first one. -/
def failsFirst (fault : Fault) : Service Nat where
  me n := (0, n)
  mentions _ _ _ n := (.ok [], n)
  reply _ _ n := (if n = 0 then .error fault else .ok (1000 + n), n + 1)

theorem answerText_identity :
    (respond (readRequest "@proofbot A to A").text (readRequest "@proofbot A to A").style
      .standard).map answerText = .ok identityAnswer := by decide +kernel

theorem identityAnswer_short : ∀ line ∈ Text.lines identityAnswer, Text.byteSize line ≤ 280 := by
  decide +kernel

/-- Where the service is unavailable, nothing is sent after the message that fails. -/
theorem answerMention_posts_identity :
    (∀ line ∈ Text.lines identityAnswer, Text.byteSize line ≤ 280)
    ∧ (answerMention (failsFirst (.service "unavailable")) 9 "@proofbot A to A" ⟨0, [], []⟩).2.calls
        = [.reply identityAnswer 9]
    ∧ ∃ posts : List Post, posts.map Post.call = [.reply identityAnswer 9]
      ∧ AnsweredWith (failsFirst (.service "unavailable")) 0 9 identityAnswer posts
      ∧ ∃ messages sent, chunks identityAnswer = .ok messages ∧ sent.map (·.text) <+: messages
        ∧ IsThread 9 sent (outcomes (failsFirst (.service "unavailable")) 0 posts) := by
  have hcalls : (answerMention (failsFirst (.service "unavailable")) 9 "@proofbot A to A"
      ⟨0, [], []⟩).2.calls = [.reply identityAnswer 9] := by decide +kernel
  obtain ⟨reply, posts, hreply, hposts, hanswered, -⟩ :=
    answerMention_posts (failsFirst (.service "unavailable")) 9 "@proofbot A to A" ⟨0, [], []⟩
  have hanswer : answerText reply = identityAnswer := by
    have htext := answerText_identity
    rw [hreply] at htext
    exact Except.ok.inj htext
  rw [hanswer] at hanswered
  obtain ⟨messages, sent, hmessages, hfront, hthread, -⟩ := hanswered.thread identityAnswer_short
  exact ⟨identityAnswer_short, hcalls, posts, hposts.symm.trans hcalls, hanswered, messages, sent,
    hmessages, hfront, hthread⟩

/-- **Thread and apology mixed.** Every line of the answer fits; the service refuses
the message for its value, and the mention gets an apology for a proof that is too
wide. -/
theorem answerMention_mixed :
    (∀ line ∈ Text.lines identityAnswer, Text.byteSize line ≤ 280)
    ∧ (answerMention (failsFirst (.value "refused")) 9 "@proofbot A to A" ⟨0, [], []⟩).2.calls
        = [.reply identityAnswer 9, .reply "That proof is too wide to tweet." 9] :=
  ⟨identityAnswer_short, by decide +kernel⟩

end NaturalDeduction.Bot
