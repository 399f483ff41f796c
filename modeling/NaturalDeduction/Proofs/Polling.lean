import NaturalDeduction.Bot.Answer
import NaturalDeduction.Proofs.Replies

/-!
# Every mention is answered once

A round of polling may end anywhere: the service may refuse to list mentions,
or fail in the middle of a thread, while new mentions come in at any moment.
What is remembered between rounds is one identifier, that of the last mention
whose answer was sent to its end. This is enough to answer every mention once
and in order, and it is shown by following the mentions that are *completed*.

One round takes mentions from the front of the queue (`Timeline.poll_takes`)
and so moves the identifier exactly past those it completes; this is what
`Advances` says, of one round or of many. Rounds compose (`Advances.trans`),
since a mention that comes in late has an identifier past all that is done.

What is needed of the service is gathered in a `Timeline`: it lists what exists
or fails, its faults are its own, and mentions come in with ever larger
identifiers.
-/

namespace NaturalDeduction.Bot

variable {σ : Type}

/-! ## Starting points

A round starts from an identifier or from none, which is below all of them. -/

instance decidableStartLT : DecidableLT (Option Int) := inferInstanceAs (DecidableRel (Option.lt _))

section StartingPoints

variable {a b c : Option Int} {n : Int}

theorem start_le_refl (a : Option Int) : a ≤ a := by
  cases a with
  | none => exact Option.none_le
  | some m => exact Option.some_le_some.mpr le_rfl

theorem start_le_trans (h : a ≤ b) (h' : b ≤ c) : a ≤ c := by
  cases a with
  | none => exact Option.none_le
  | some m =>
    cases b with
    | none => exact absurd h Option.not_some_le_none
    | some n =>
      cases c with
      | none => exact absurd h' Option.not_some_le_none
      | some k =>
        exact Option.some_le_some.mpr
          ((Option.some_le_some.mp h).trans (Option.some_le_some.mp h'))

theorem start_lt_of_le (h : a ≤ b) (h' : b < some n) : a < some n := by
  cases a with
  | none => exact Option.none_lt_some
  | some m =>
    cases b with
    | none => exact absurd h Option.not_some_le_none
    | some k =>
      exact Option.some_lt_some.mpr
        ((Option.some_le_some.mp h).trans_lt (Option.some_lt_some.mp h'))

theorem start_le_of_lt (h : a < some n) : a ≤ some n := by
  cases a with
  | none => exact Option.none_le
  | some m => exact Option.some_le_some.mpr (Option.some_lt_some.mp h).le

theorem start_lt_iff : a < some n ↔ ¬ some n ≤ a := by
  cases a with
  | none => exact iff_of_true Option.none_lt_some Option.not_some_le_none
  | some m =>
    rw [Option.some_lt_some, Option.some_le_some]
    exact Int.not_le.symm

end StartingPoints

/-! ## What is assumed of the service -/

/-- **Mentions at a later moment**: those from before are there still, and those
that have come in since have larger identifiers. -/
structure Grown (before after : List Mention) : Prop where
  kept : before ⊆ after
  newer : ∀ m ∈ after, m ∉ before → ∀ k ∈ before, k.id < m.id

theorem Grown.refl (ms : List Mention) : Grown ms ms :=
  ⟨List.Subset.refl ms, fun _ hm hnot => absurd hm hnot⟩

theorem Grown.trans {ms ms' ms'' : List Mention} (h : Grown ms ms') (h' : Grown ms' ms'') :
    Grown ms ms'' where
  kept _ hm := h'.kept (h.kept hm)
  newer m hm hnot k hk := by
    by_cases hm' : m ∈ ms'
    · exact h.newer m hm' hnot k hk
    · exact h'.newer m hm hm' k (h.kept hk)

/-- The mentions newer than a starting point. -/
def newerThan (since : Option Int) (ms : List Mention) : List Mention :=
  ms.filter fun m => since < some m.id

theorem mem_newerThan {since : Option Int} {ms : List Mention} {m : Mention} :
    m ∈ newerThan since ms ↔ m ∈ ms ∧ since < some m.id := by
  rw [newerThan, List.mem_filter, decide_eq_true_iff]

/-- **The mentions of a user through time**, as a service keeps them. Its
memory determines which ones exist. -/
structure Timeline (service : Service σ) (user : Int) where
  /-- The mentions that exist. -/
  existing : σ → List Mention
  /-- No two of them have one identifier. -/
  distinct : ∀ memory, (existing memory).Pairwise fun a b => a.id ≠ b.id
  /-- Asked for the newer ones, when they are not too many, the service fails or
  lists exactly these, in any order. -/
  mentions : ∀ since most memory, (newerThan since (existing memory)).length ≤ most →
    (∃ message, (service.mentions user since most memory).1 = .error (.service message))
      ∨ ∃ ms, (service.mentions user since most memory).1 = .ok ms
        ∧ ms.Perm (newerThan since (existing memory))
  /-- A reply fails only by a fault of the service. -/
  reply : ∀ text parent memory fault, (service.reply text parent memory).1 = .error fault →
    ∃ message, fault = .service message
  /-- Others may come in during each call. -/
  grown_mentions : ∀ since most memory,
    Grown (existing memory) (existing (service.mentions user since most memory).2)
  grown_reply : ∀ text parent memory,
    Grown (existing memory) (existing (service.reply text parent memory).2)

/-! ## The queue -/

/-- What a round has to answer, oldest first. -/
def queue (since : Option Int) (ms : List Mention) : List Mention :=
  oldestFirst (newerThan since ms)

theorem perm_oldestFirst (ms : List Mention) : (oldestFirst ms).Perm ms :=
  List.mergeSort_perm ms _

theorem increasing_oldestFirst {ms : List Mention} (h : ms.Pairwise fun a b => a.id ≠ b.id) :
    (oldestFirst ms).Pairwise fun a b => a.id < b.id := by
  have hle : (oldestFirst ms).Pairwise fun a b => decide (a.id ≤ b.id) = true :=
    List.pairwise_mergeSort
      (fun a b c hab hbc => decide_eq_true ((of_decide_eq_true hab).trans (of_decide_eq_true hbc)))
      (fun a b => by simpa using Int.le_total a.id b.id) ms
  have hne : (oldestFirst ms).Pairwise fun a b => a.id ≠ b.id :=
    h.perm (perm_oldestFirst ms).symm Ne.symm
  exact hle.imp₂ (fun a b hab hne => lt_of_le_of_ne (of_decide_eq_true hab) hne) hne

/-- **The order in which the service lists mentions does not matter.** -/
theorem oldestFirst_eq_of_perm {ms sorted : List Mention} (h : ms.Perm sorted)
    (hsorted : sorted.Pairwise fun a b => a.id < b.id) : oldestFirst ms = sorted := by
  have hne : ms.Pairwise fun a b => a.id ≠ b.id :=
    (hsorted.imp fun hlt => hlt.ne).perm h.symm Ne.symm
  exact ((perm_oldestFirst ms).trans h).eq_of_pairwise
    (fun a b _ _ hab hba => absurd hab hba.asymm) (increasing_oldestFirst hne) hsorted

theorem mem_queue {since : Option Int} {ms : List Mention} {m : Mention} :
    m ∈ queue since ms ↔ m ∈ ms ∧ since < some m.id := by
  rw [queue, (perm_oldestFirst _).mem_iff, mem_newerThan]

theorem increasing_queue {since : Option Int} {ms : List Mention}
    (h : ms.Pairwise fun a b => a.id ≠ b.id) :
    (queue since ms).Pairwise fun a b => a.id < b.id :=
  increasing_oldestFirst (h.filter _)

/-! ## Advancing -/

/-- **Going from one identifier to another** among mentions: those done are
exactly the ones in between, in order. -/
structure Advances (since : Option Int) (ms done : List Mention) (next : Option Int) : Prop where
  mem_done : ∀ m, m ∈ done ↔ m ∈ ms ∧ since < some m.id ∧ some m.id ≤ next
  increasing : done.Pairwise fun a b => a.id < b.id
  le : since ≤ next
  /-- Where it ends, there is a mention, unless it stayed where it was. -/
  reached : next = since ∨ ∃ m ∈ ms, next = some m.id

theorem Advances.refl (since : Option Int) (ms : List Mention) : Advances since ms [] since where
  mem_done _ := ⟨fun h => absurd h List.not_mem_nil, fun h => absurd h.2.2 (start_lt_iff.mp h.2.1)⟩
  increasing := List.Pairwise.nil
  le := start_le_refl since
  reached := .inl rfl

/-- **Advancing again, later.** A mention that came in meanwhile has an
identifier past the place reached, so none is left behind. -/
theorem Advances.trans {start since next : Option Int} {ms ms' done done' : List Mention}
    (h : Advances start ms done since) (hgrown : Grown ms ms')
    (h' : Advances since ms' done' next) : Advances start ms' (done ++ done') next where
  mem_done m := by
    rw [List.mem_append, h.mem_done, h'.mem_done]
    constructor
    · rintro (⟨hm, hstart, hle⟩ | ⟨hm, hlt, hle⟩)
      · exact ⟨hgrown.kept hm, hstart, start_le_trans hle h'.le⟩
      · exact ⟨hm, start_lt_of_le h.le hlt, hle⟩
    · rintro ⟨hm, hstart, hle⟩
      by_cases hsince : some m.id ≤ since
      · refine .inl ⟨?_, hstart, hsince⟩
        by_contra hnot
        rcases h.reached with rfl | ⟨k, hk, rfl⟩
        · exact start_lt_iff.mp hstart hsince
        · exact Int.not_le.mpr (hgrown.newer m hm hnot k hk) (Option.some_le_some.mp hsince)
      · exact .inr ⟨hm, start_lt_iff.mpr hsince, hle⟩
  increasing := by
    refine List.pairwise_append.mpr ⟨h.increasing, h'.increasing, fun a ha b hb => ?_⟩
    have hle : some a.id ≤ since := ((h.mem_done a).mp ha).2.2
    have hlt : since < some b.id := ((h'.mem_done b).mp hb).2.1
    exact Option.some_lt_some.mp (start_lt_of_le hle hlt)
  le := start_le_trans h.le h'.le
  reached := by
    rcases h'.reached with rfl | hnext
    · rcases h.reached with hstart | ⟨k, hk, hsince⟩
      · exact .inl hstart
      · exact .inr ⟨k, hgrown.kept hk, hsince⟩
    · exact .inr hnext

/-- The front of an increasing list has all that is no larger than its last
member. -/
theorem mem_of_front {done ms : List Mention} {last m : Mention}
    (hms : ms.Pairwise fun a b => a.id < b.id) (hfront : done <+: ms)
    (hlast : done.getLast? = some last) (hm : m ∈ ms) (hle : m.id ≤ last.id) : m ∈ done := by
  obtain ⟨rest, rfl⟩ := hfront
  rcases List.mem_append.mp hm with hdone | hrest
  · exact hdone
  · have hlt := (List.pairwise_append.mp hms).2.2 last (List.mem_of_getLast? hlast) m hrest
    exact absurd hle (Int.not_le.mpr hlt)

theorem le_of_getLast? {done : List Mention} {last m : Mention}
    (hdone : done.Pairwise fun a b => a.id < b.id) (hlast : done.getLast? = some last)
    (hm : m ∈ done) : m.id ≤ last.id := by
  obtain ⟨before, rfl⟩ := List.getLast?_eq_some_iff.mp hlast
  rcases List.mem_append.mp hm with hbefore | hself
  · exact ((List.pairwise_append.mp hdone).2.2 m hbefore last (List.mem_singleton_self _)).le
  · rw [List.mem_singleton.mp hself]

/-- **Doing the front of the queue advances** past its last member. -/
theorem advances_of_front {since : Option Int} {ms done : List Mention}
    (hms : ms.Pairwise fun a b => a.id ≠ b.id) (hfront : done <+: queue since ms) :
    Advances since ms done ((done.map (·.id)).getLast?.or since) := by
  have hqueue : (queue since ms).Pairwise fun a b => a.id < b.id := increasing_queue hms
  have hdone := hqueue.sublist hfront.sublist
  rw [List.getLast?_map]
  rcases hlast : done.getLast? with _ | last
  · obtain rfl := List.getLast?_eq_none_iff.mp hlast
    exact .refl since ms
  · have hmem := mem_queue.mp (hfront.subset (List.mem_of_getLast? hlast))
    refine ⟨fun m => ⟨fun hm => ?_, fun ⟨hm, hlt, hle⟩ => ?_⟩, hdone, ?_, .inr ⟨last, hmem.1, rfl⟩⟩
    · obtain ⟨hexists, hlt⟩ := mem_queue.mp (hfront.subset hm)
      exact ⟨hexists, hlt, Option.some_le_some.mpr (le_of_getLast? hdone hlast hm)⟩
    · exact mem_of_front hqueue hfront hlast (mem_queue.mpr ⟨hm, hlt⟩) (Option.some_le_some.mp hle)
    · exact start_le_of_lt hmem.2

/-! ## One mention -/

/-- The standard limits never keep a request from being answered. -/
theorem exists_respond_standard (text : String) (style : Style) :
    ∃ reply, respond text style .standard = .ok reply := by
  have hbound : (Budget.standard.maxSteps : Int) < limitBound := by decide
  obtain ⟨outcome, houtcome⟩ := exists_solve_eq_ok text hbound
  obtain ⟨reply, hreply, -⟩ := exists_respond_of_solve houtcome style
  exact ⟨reply, hreply⟩

namespace Timeline

variable {service : Service σ} {user : Int} (T : Timeline service user)

/-- **A task that only the service can interrupt**: mentions come in while it
is at work, and what it fails with is a fault of the service. -/
def Orderly {α : Type} (task : Task σ α) : Prop :=
  ∀ j, Grown (T.existing j.memory) (T.existing (task j).2.memory)
    ∧ ∀ fault, (task j).1 = .error fault → ∃ message, fault = .service message

theorem orderly_sendReply (text : String) (parent : Int) :
    T.Orderly (service.sendReply text parent) :=
  fun j => ⟨T.grown_reply text parent j.memory, T.reply text parent j.memory⟩

theorem orderly_sendThread (parent : Int) (messages : List String) :
    T.Orderly (sendThread service parent messages) := by
  induction messages generalizing parent with
  | nil => exact fun j => ⟨.refl _, fun _ h => nomatch h⟩
  | cons text rest ih =>
    intro j
    obtain ⟨hgrown, hfault⟩ := T.orderly_sendReply text parent j
    unfold sendThread
    generalize service.sendReply text parent j = sent at hgrown hfault ⊢
    rcases sent with ⟨fault | id, j₁⟩
    · exact ⟨hgrown, fun f hf => hfault f (congrArg Except.error (Except.error.inj hf))⟩
    · exact ⟨hgrown.trans (ih id j₁).1, (ih id j₁).2⟩

/-- **An answer is sent as one thread**: that of its messages, or that of the
apology if it has none. A service that never refuses a value leaves no other
way for the apology to be sent. -/
theorem exists_sendAnswer_eq (T : Timeline service user) (parent : Int) (text : String)
    (j : Journal σ) :
    ∃ messages j₁, j₁.memory = j.memory
      ∧ sendAnswer service parent text j = sendThread service parent messages j₁ := by
  unfold sendAnswer longReply
  rcases chunks text with e | messages
  · have hapology : chunks apology = .ok [apology] := by decide +kernel
    rw [hapology]
    exact ⟨[apology], j.note .warning _, rfl, rfl⟩
  · have hfault := (T.orderly_sendThread parent messages j).2
    refine ⟨messages, j, rfl, ?_⟩
    dsimp only
    generalize sendThread service parent messages j = sent at hfault ⊢
    rcases sent with ⟨fault | _, j₁⟩
    · obtain ⟨message, rfl⟩ := hfault fault rfl
      rfl
    · rfl

theorem orderly_answerMention (id : Int) (text : String) :
    T.Orderly (answerMention service id text) := by
  intro j
  obtain ⟨reply, hreply⟩ :=
    exists_respond_standard (readRequest text).text (readRequest text).style
  obtain ⟨messages, j₁, hmemory, hsend⟩ := T.exists_sendAnswer_eq id (answerText reply)
    ((j.note .info ("Got a new theorem to prove: " ++ (readRequest text).text)).note .info
      (answerRecord reply))
  obtain ⟨hgrown, hfault⟩ := T.orderly_sendThread id messages j₁
  rw [hmemory] at hgrown
  unfold answerMention
  dsimp only
  rw [hreply]
  dsimp only
  rw [hsend]
  generalize sendThread service id messages j₁ = sent at hgrown hfault ⊢
  rcases sent with ⟨fault | _, j₂⟩
  · exact ⟨hgrown, fun f hf => hfault f (congrArg Except.error (Except.error.inj hf))⟩
  · exact ⟨hgrown, fun _ h => nomatch h⟩

end Timeline

/-! ## One round -/

section Round

variable {service : Service σ} {user : Int}

variable (service) in
/-- **The mentions completed** of those that are answered one after the other:
those whose answering came to its end. -/
def completed : List Mention → Journal σ → List Mention
  | [], _ => []
  | m :: rest, j =>
    match answerMention service m.id m.text j with
    | (.error _, _) => []
    | (.ok _, j) => m :: completed rest j

variable (service user) in
/-- The mentions completed in a round. -/
def completedInRound (since : Option Int) (j : Journal σ) : List Mention :=
  match service.askMentions user since pollSize j with
  | (.error _, _) => []
  | (.ok ms, j) => completed service (oldestFirst ms) j

/-- **Taking mentions from the front of a list**: what comes of it when those
`done` are completed. -/
structure Timeline.Takes (T : Timeline service user) (ms done : List Mention) (j : Journal σ)
    (outcome : Round × Journal σ) : Prop where
  front : done <+: ms
  /-- The record names those completed. -/
  answered : outcome.1.answered = done.map (·.id)
  /-- They are all there are, unless there was a fault. -/
  all : outcome.1.fault = none → done = ms
  /-- A fault is one of the service. -/
  fault : ∀ fault, outcome.1.fault = some fault → ∃ message, fault = .service message
  grown : Grown (T.existing j.memory) (T.existing outcome.2.memory)

namespace Timeline

variable (T : Timeline service user)

theorem answerEach_takes (ms : List Mention) (j : Journal σ) :
    T.Takes ms (completed service ms j) j (answerEach service ms j) := by
  induction ms generalizing j with
  | nil => exact ⟨List.prefix_rfl, rfl, fun _ => rfl, fun _ h => (nomatch h), .refl _⟩
  | cons m rest ih =>
    obtain ⟨hgrown, hfault⟩ := T.orderly_answerMention m.id m.text j
    unfold answerEach completed
    generalize answerMention service m.id m.text j = answer at hgrown hfault ⊢
    rcases answer with ⟨fault | _, j₁⟩
    · refine ⟨⟨_, rfl⟩, rfl, fun h => (nomatch h), fun f hf => ?_, hgrown⟩
      exact hfault f (congrArg Except.error (Option.some.inj hf))
    · have htakes := ih j₁
      exact ⟨(List.prefix_cons_inj m).mpr htakes.front, congrArg (m.id :: ·) htakes.answered,
        fun h => congrArg (m :: ·) (htakes.all h), htakes.fault, hgrown.trans htakes.grown⟩

variable {since : Option Int} {j : Journal σ}
  (hfew : (newerThan since (T.existing j.memory)).length ≤ pollSize)

include hfew

/-- **Polling takes the queue from its front.** -/
theorem poll_takes :
    T.Takes (queue since (T.existing j.memory)) (completedInRound service user since j) j
      (poll service user since j) := by
  have hgrown : Grown (T.existing j.memory)
      (T.existing (service.askMentions user since pollSize j).2.memory) :=
    T.grown_mentions since pollSize j.memory
  have hlisted : (∃ message, (service.askMentions user since pollSize j).1
        = .error (.service message))
      ∨ ∃ ms, (service.askMentions user since pollSize j).1 = .ok ms
        ∧ ms.Perm (newerThan since (T.existing j.memory)) :=
    T.mentions since pollSize j.memory hfew
  unfold completedInRound poll
  generalize service.askMentions user since pollSize j = asked at hgrown hlisted ⊢
  rcases asked with ⟨fault | ms, j₁⟩
  · refine ⟨⟨_, rfl⟩, rfl, fun h => (nomatch h), fun f hf => ?_, hgrown⟩
    rcases hlisted with ⟨message, hmessage⟩ | ⟨ms, hms, -⟩
    · exact ⟨message, (Option.some.inj hf).symm.trans (Except.error.inj hmessage)⟩
    · cases hms
  · rcases hlisted with ⟨message, hmessage⟩ | ⟨ms', hms, hperm⟩
    · cases hmessage
    obtain rfl := Except.ok.inj hms
    have hqueue : oldestFirst ms = queue since (T.existing j.memory) :=
      oldestFirst_eq_of_perm (hperm.trans (perm_oldestFirst _).symm)
        (increasing_queue (T.distinct j.memory))
    have htakes := T.answerEach_takes (oldestFirst ms) j₁
    rw [← hqueue]
    exact { htakes with grown := hgrown.trans htakes.grown }

/-- **A round advances**, whatever the service does: it returns the identifier
reached, and it has caught up unless there was a fault. -/
theorem answerMentions_advances :
    ∃ next j', answerMentions service user since j = (.ok next, j')
      ∧ Grown (T.existing j.memory) (T.existing j'.memory)
      ∧ Advances since (T.existing j.memory) (completedInRound service user since j) next
      ∧ ((poll service user since j).1.fault = none →
          ∀ m ∈ T.existing j.memory, since < some m.id → some m.id ≤ next) := by
  have htakes := T.poll_takes hfew
  have hadvances := advances_of_front (T.distinct j.memory) htakes.front
  rw [← htakes.answered] at hadvances
  have hcaught : (poll service user since j).1.fault = none →
      ∀ m ∈ T.existing j.memory, since < some m.id →
        some m.id ≤ (poll service user since j).1.answered.getLast?.or since := by
    intro hnone m hm hlt
    have hmem : m ∈ completedInRound service user since j := by
      rw [htakes.all hnone]
      exact mem_queue.mpr ⟨hm, hlt⟩
    exact ((hadvances.mem_done m).mp hmem).2.2
  have hfault := htakes.fault
  have hgrown := htakes.grown
  unfold answerMentions
  generalize poll service user since j = polled at hadvances hcaught hfault hgrown ⊢
  rcases polled with ⟨⟨answered, _ | fault⟩, j₁⟩
  · exact ⟨_, _, rfl, hgrown, hadvances, hcaught⟩
  · obtain ⟨message, rfl⟩ := hfault fault rfl
    exact ⟨_, _, rfl, hgrown, hadvances, hcaught⟩

end Timeline

end Round

/-! ## Many rounds -/

/-- **Where the bot stands between rounds**, with an account of what it has
done. -/
structure PollingState (σ : Type) where
  /-- What the service remembers. -/
  memory : σ
  /-- Where the next round starts. -/
  since : Option Int
  /-- The mentions that existed when they were last asked for. -/
  polled : List Mention
  /-- The mentions completed so far, in order. -/
  completed : List Mention

/-- **A run of rounds**, each from where the one before has ended. In between,
mentions come in, no more than a poll lists. -/
inductive Polling {service : Service σ} {user : Int} (T : Timeline service user)
    (start : Option Int) : PollingState σ → Prop where
  | init (memory : σ) : Polling T start ⟨memory, start, T.existing memory, []⟩
  | round {s : PollingState σ} {j j' : Journal σ} {next : Option Int}
      (before : Polling T start s)
      (grown : Grown (T.existing s.memory) (T.existing j.memory))
      (few : (newerThan s.since (T.existing j.memory)).length ≤ pollSize)
      (returns : answerMentions service user s.since j = (.ok next, j')) :
      Polling T start ⟨j'.memory, next, T.existing j.memory,
        s.completed ++ completedInRound service user s.since j⟩

section Polling

variable {service : Service σ} {user : Int} {T : Timeline service user} {start : Option Int}
  {s : PollingState σ}

/-- **Rounds advance as one round does.** -/
theorem Polling.advances (h : Polling T start s) :
    Advances start s.polled s.completed s.since ∧ Grown s.polled (T.existing s.memory) := by
  induction h with
  | init memory => exact ⟨.refl start _, .refl _⟩
  | round _ hgrown hfew hreturns ih =>
    obtain ⟨next, j', hreturns', hafter, hadvances, -⟩ := T.answerMentions_advances hfew
    obtain ⟨hnext, rfl⟩ := Prod.mk.inj (hreturns'.symm.trans hreturns)
    obtain rfl := Except.ok.inj hnext
    exact ⟨ih.1.trans (ih.2.trans hgrown) hadvances, hafter⟩

/-- What is asked of the bot. -/
def threeMentions : List Mention :=
  [⟨3, "@bot A"⟩, ⟨5, "@bot A to A"⟩, ⟨8, "@bot A or not A tex"⟩]

/-- The last mention comes in with the second reply. -/
def arrivals (replies : Nat) : List Mention := threeMentions.take (if replies < 2 then 2 else 3)

/-- The second reply fails, and mentions are listed newest first. -/
def flakyService : Service Nat where
  me n := (0, n)
  mentions _ since _ n := (.ok (newerThan since (arrivals n)).reverse, n)
  reply _ _ n := (if n = 1 then .error (.service "unavailable") else .ok 0, n + 1)

theorem grown_arrivals {m n : Nat} (h : m < 2 ∨ 2 ≤ n) : Grown (arrivals m) (arrivals n) := by
  unfold arrivals
  by_cases hm : m < 2 <;> by_cases hn : n < 2
  · rw [if_pos hm, if_pos hn]
    exact .refl _
  · rw [if_pos hm, if_neg hn]
    exact ⟨by decide, by decide⟩
  · exact absurd h (by omega)
  · rw [if_neg hm, if_neg hn]
    exact .refl _

/-- All that is assumed of a service holds of this one. -/
def flakyTimeline : Timeline flakyService 0 where
  existing := arrivals
  distinct n := by
    unfold arrivals
    split <;> decide
  mentions _ _ _ _ := .inr ⟨_, rfl, List.reverse_perm _⟩
  reply _ _ n fault h := by
    change (if n = 1 then Except.error (Fault.service "unavailable") else .ok 0)
      = Except.error fault at h
    split at h
    · exact ⟨"unavailable", (Except.error.inj h).symm⟩
    · cases h
  grown_mentions _ _ _ := .refl _
  grown_reply _ _ n :=
    have hcount : n < 2 ∨ 2 ≤ n + 1 := by omega
    grown_arrivals hcount

theorem flaky_first_round :
    (answerMentions flakyService 0 none ⟨0, [], []⟩).1 = .ok (some 3) := by
  have hsort : oldestFirst [⟨5, "@bot A to A"⟩, ⟨3, "@bot A"⟩]
      = [⟨3, "@bot A"⟩, ⟨5, "@bot A to A"⟩] :=
    oldestFirst_eq_of_perm (by decide) (by decide)
  unfold answerMentions poll
  rw [show flakyService.askMentions 0 none pollSize ⟨0, [], []⟩
    = (.ok [⟨5, "@bot A to A"⟩, ⟨3, "@bot A"⟩], ⟨0, [.mentions 0 none pollSize], []⟩) from rfl]
  dsimp only
  rw [hsort]
  decide +kernel

theorem flaky_second_round :
    (answerMentions flakyService 0 (some 3) ⟨2, [], []⟩).1 = .ok (some 8) := by
  have hsort : oldestFirst [⟨8, "@bot A or not A tex"⟩, ⟨5, "@bot A to A"⟩]
      = [⟨5, "@bot A to A"⟩, ⟨8, "@bot A or not A tex"⟩] :=
    oldestFirst_eq_of_perm (by decide) (by decide)
  unfold answerMentions poll
  rw [show flakyService.askMentions 0 (some 3) pollSize ⟨2, [], []⟩
    = (.ok [⟨8, "@bot A or not A tex"⟩, ⟨5, "@bot A to A"⟩],
      ⟨2, [.mentions 0 (some 3) pollSize], []⟩) from rfl]
  dsimp only
  rw [hsort]
  decide +kernel

end Polling

end NaturalDeduction.Bot
