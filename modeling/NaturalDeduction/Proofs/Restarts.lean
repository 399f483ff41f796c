import NaturalDeduction.Credentials.Gather
import NaturalDeduction.Proofs.SavedStores

/-!
# Credentials after a restart

Whoever answers the questions once should not have to do so again: gathering a
second time, in the same environment and from the file that the first time left,
asks nothing. That is so whatever the file, the environment and the answers were
(`gather_again`), since all that was asked for is saved and what is saved is read
back.

The credentials are the same both times, with one exception. The environment wins
over the file credential by credential, but an authorization replaces both access
credentials at once, also the one that the environment has. So if the environment
has one of them and the other is nowhere to be found (`Unpaired`), the
authorization wins the first time and the environment the second, which then has
the token of one pair with the secret of another (`gather_mixes_pairs`).

A step of gathering is described by what it is after (`Gathers`): if that is all
there nothing happens, and otherwise the user is asked. Two such steps make one
that is after what both are (`Gathers.append`), and all of gathering is three.
-/

namespace NaturalDeduction.Credentials

/-! ## What the environment has -/

/-- **What the environment has for a credential**; an empty variable counts as
none. -/
def fromEnvironment? (environment : List (String × String)) (key : Key) : Option String :=
  (environment.lookup key.variableName).filter fun value => !value.isEmpty

namespace Key

theorem name_injective : ∀ {key other : Key}, key.name = other.name → key = other := by
  rintro ⟨⟩ ⟨⟩ <;> decide

theorem mem_all (key : Key) : key ∈ all := by
  cases key <;> decide

/-- The credentials that are asked for together with one. -/
def group : Key → List Key
  | consumerKey => [consumerKey]
  | consumerSecret => [consumerSecret]
  | accessToken | accessTokenSecret => [accessToken, accessTokenSecret]

theorem group_eq_of_mem : ∀ {key other : Key}, other ∈ key.group → other.group = key.group := by
  rintro ⟨⟩ ⟨⟩ <;> decide

end Key

theorem lookup_put_name (store : Store) (key other : Key) (value : String) :
    (store.put key.name value).lookup other.name
      = if other = key then some value else store.lookup other.name := by
  rw [Store.lookup_put]
  by_cases h : other = key
  · rw [if_pos h, if_pos (congrArg Key.name h)]
  · rw [if_neg h, if_neg fun hname => h (Key.name_injective hname)]

section Environment

variable (environment : List (String × String))

/-- A store with what the environment has for one credential. -/
def withVariable (store : Store) (key : Key) : Store :=
  match environment.lookup key.variableName with
  | some value => if value.isEmpty then store else store.put key.name value
  | none => store

theorem withEnvironment_eq (store : Store) :
    withEnvironment environment store = Key.all.foldl (withVariable environment) store := rfl

theorem withVariable_eq (store : Store) (key : Key) :
    withVariable environment store key
      = ((fromEnvironment? environment key).map (store.put key.name)).getD store := by
  unfold withVariable fromEnvironment?
  cases environment.lookup key.variableName with
  | none => rfl
  | some value => cases hempty : value.isEmpty <;> simp [hempty, Option.filter]

theorem lookup_withVariable (store : Store) (key other : Key) :
    (withVariable environment store key).lookup other.name
      = if other = key then (fromEnvironment? environment key).or (store.lookup other.name)
        else store.lookup other.name := by
  rw [withVariable_eq]
  cases fromEnvironment? environment key with
  | none => simp
  | some value =>
    rw [Option.map_some, Option.getD_some, lookup_put_name, Option.some_or]

theorem lookup_foldl_withVariable (keys : List Key) (store : Store) (key : Key) :
    (keys.foldl (withVariable environment) store).lookup key.name
      = if key ∈ keys then (fromEnvironment? environment key).or (store.lookup key.name)
        else store.lookup key.name := by
  induction keys generalizing store with
  | nil => rfl
  | cons first keys ih =>
    rw [List.foldl_cons, ih, lookup_withVariable]
    by_cases hfirst : key = first
    · subst hfirst
      rw [if_pos rfl, if_pos List.mem_cons_self, ← Option.or_assoc, Option.or_self, ite_self]
    · simp only [hfirst, if_false, List.mem_cons, false_or]

/-- **The environment wins over the store**, credential by credential. -/
theorem lookup_withEnvironment (store : Store) (key : Key) :
    (withEnvironment environment store).lookup key.name
      = (fromEnvironment? environment key).or (store.lookup key.name) := by
  rw [withEnvironment_eq, lookup_foldl_withVariable, if_pos key.mem_all]

theorem nodup_withEnvironment {store : Store} (h : store.names.Nodup) :
    (withEnvironment environment store).names.Nodup := by
  rw [withEnvironment_eq]
  induction Key.all generalizing store with
  | nil => exact h
  | cons key keys ih =>
    refine ih ?_
    rw [withVariable_eq]
    cases fromEnvironment? environment key with
    | none => exact h
    | some value => exact Store.nodup_names_put h key.name value

end Environment

theorem nodup_of_savedStore {file : Option String} {store : Store}
    (h : savedStore file = .ok store) : store.names.Nodup := by
  cases file with
  | none =>
    cases h
    exact Store.nodup_names_nil
  | some text =>
    rw [savedStore] at h
    split at h
    · next hdecode =>
      cases h
      exact Store.nodup_of_decode? hdecode
    · cases h

/-! ## Steps that succeed -/

/-- **A step that succeeds** and is after some of the credentials. -/
structure Gathers (keys : List Key) (p p' : Progress) : Prop where
  /-- What it is after is there in the end. -/
  has : ∀ key ∈ keys, (p'.store.lookup key.name).isSome
  /-- All else stays, and so does a credential whose group is there already. -/
  kept : ∀ key, key ∉ keys ∨ (∀ other ∈ key.group, (p.store.lookup other.name).isSome) →
    p'.store.lookup key.name = p.store.lookup key.name
  /-- If nothing is missing nothing happens; otherwise the user is asked. -/
  asked : p' = p ∨ (∃ key ∈ keys, p.store.lookup key.name = none) ∧ p'.prompts ≠ []
  /-- Names stay distinct. -/
  nodup : p.store.names.Nodup → p'.store.names.Nodup

namespace Gathers

/-- A step for which nothing is missing. -/
theorem refl {keys : List Key} {p : Progress}
    (h : ∀ key ∈ keys, (p.store.lookup key.name).isSome) : Gathers keys p p :=
  ⟨h, fun _ _ => rfl, .inl rfl, id⟩

/-- **Two steps make one** that is after what both are. -/
theorem append {keys keys' : List Key} {p q r : Progress} (h : Gathers keys p q)
    (h' : Gathers keys' q r) : Gathers (keys ++ keys') p r := by
  refine ⟨fun key hkey => ?_, fun key hkey => ?_, ?_, fun hp => h'.nodup (h.nodup hp)⟩
  · by_cases hkey' : key ∈ keys'
    · exact h'.has key hkey'
    · rw [h'.kept key (.inl hkey')]
      exact h.has key ((List.mem_append.mp hkey).resolve_right hkey')
  · rw [List.mem_append, not_or] at hkey
    rw [← h.kept key (hkey.imp_left And.left)]
    refine h'.kept key (hkey.imp And.right fun hgroup other hother => ?_)
    -- the whole group was there before the first step, so it still is
    rw [h.kept other (.inr fun third hthird => hgroup third (Key.group_eq_of_mem hother ▸ hthird))]
    exact hgroup other hother
  · obtain rfl | ⟨⟨key, hkey, hmissing⟩, hprompts⟩ := h.asked
    · refine h'.asked.imp_right fun ⟨⟨key, hkey, hmissing⟩, hprompts⟩ => ?_
      exact ⟨⟨key, List.mem_append_right _ hkey, hmissing⟩, hprompts⟩
    · refine .inr ⟨⟨key, List.mem_append_left _ hkey, hmissing⟩, ?_⟩
      obtain rfl | ⟨-, hprompts'⟩ := h'.asked
      · exact hprompts
      · exact hprompts'

/-- A step for which part of a group is missing: the user is asked, and the whole
group is set. -/
theorem of_missing {keys : List Key} {p p' : Progress} (hgroup : ∀ key ∈ keys, key.group = keys)
    (hmissing : ∃ key ∈ keys, p.store.lookup key.name = none) (hprompts : p'.prompts ≠ [])
    (hset : ∀ key ∈ keys, (p'.store.lookup key.name).isSome)
    (hothers : ∀ key ∉ keys, p'.store.lookup key.name = p.store.lookup key.name)
    (hnodup : p.store.names.Nodup → p'.store.names.Nodup) : Gathers keys p p' := by
  refine ⟨hset, fun key hkey => ?_, .inr ⟨hmissing, hprompts⟩, hnodup⟩
  by_cases hmem : key ∈ keys
  · have hthere := hkey.resolve_left (not_not_intro hmem)
    obtain ⟨other, hother, hnone⟩ := hmissing
    have hsome := hthere other (hgroup key hmem ▸ hother)
    rw [hnone] at hsome
    cases hsome
  · exact hothers key hmem

end Gathers

theorem ask_eq_ok {question answer : String} {p p' : Progress}
    (h : ask question p = (.ok answer, p')) :
    p'.store = p.store ∧ p'.prompts = p.prompts ++ [question] := by
  rw [ask] at h
  cases hanswers : p.answers with
  | nil =>
    simp only [hanswers] at h
    cases h
  | cons first rest =>
    simp only [hanswers] at h
    cases h
    exact ⟨rfl, rfl⟩

theorem askFor_gathers {key : Key} (hgroup : key.group = [key]) {question : String}
    {p p' : Progress} (h : askFor key question p = (.ok (), p')) : Gathers [key] p p' := by
  rw [askFor] at h
  split at h
  · next hhas =>
    cases h
    exact .refl (List.forall_mem_singleton.mpr hhas)
  · next hhas =>
    split at h
    · cases h
    · next answer q hask =>
      cases h
      obtain ⟨hstore, hprompts⟩ := ask_eq_ok hask
      refine .of_missing (List.forall_mem_singleton.mpr hgroup) ?_ ?_ ?_ ?_ ?_
      · exact ⟨key, List.mem_singleton_self key, Option.not_isSome_iff_eq_none.mp hhas⟩
      · simp [hprompts]
      · simp [lookup_put_name]
      · intro other hother
        dsimp only
        rw [lookup_put_name, if_neg fun h => hother (List.mem_singleton.mpr h), hstore]
      · intro hp
        exact Store.nodup_names_put (hstore ▸ hp) _ _

theorem authorize_gathers {s : Surroundings} {p p' : Progress}
    (h : authorize s p = (.ok (), p')) :
    Gathers [.accessToken, .accessTokenSecret] p p' := by
  rw [authorize] at h
  split at h
  · next hhas =>
    cases h
    rw [Bool.and_eq_true] at hhas
    exact .refl (List.forall_mem_cons.mpr ⟨hhas.1, List.forall_mem_singleton.mpr hhas.2⟩)
  · next hhas =>
    dsimp only at h
    split at h
    · cases h
    · next code q hask =>
      cases h
      obtain ⟨hstore, hprompts⟩ := ask_eq_ok hask
      refine .of_missing (by decide) ?_ ?_ ?_ ?_ ?_
      · rw [Bool.and_eq_true, not_and_or] at hhas
        obtain hnone | hnone := hhas
        · exact ⟨.accessToken, by decide, Option.not_isSome_iff_eq_none.mp hnone⟩
        · exact ⟨.accessTokenSecret, by decide, Option.not_isSome_iff_eq_none.mp hnone⟩
      · simp [hprompts]
      · simp [lookup_put_name]
      · intro other hother
        rw [List.mem_cons, List.mem_singleton, not_or] at hother
        dsimp only
        rw [lookup_put_name, lookup_put_name, if_neg hother.2, if_neg hother.1, hstore]
      · intro hp
        exact Store.nodup_names_put (Store.nodup_names_put (hstore ▸ hp) _ _) _ _

/-- **Asking for all that is missing** is after all credentials. -/
theorem complete_gathers {s : Surroundings} {p p' : Progress}
    (h : complete s p = (.ok (), p')) : Gathers Key.all p p' := by
  rw [complete] at h
  split at h
  · cases h
  · next hkey =>
    split at h
    · cases h
    · next hsecret =>
      have haccess := authorize_gathers h
      exact (askFor_gathers rfl hkey).append ((askFor_gathers rfl hsecret).append haccess)

/-- If nothing is missing nothing is asked. -/
theorem complete_of_full (s : Surroundings) {p : Progress}
    (h : ∀ key : Key, (p.store.lookup key.name).isSome) : complete s p = (.ok (), p) := by
  have hhas : ∀ key : Key, p.store.has key.name = true := h
  simp only [complete, askFor, authorize, hhas, if_true, Bool.and_self]

/-! ## Gathering again -/

/-- What gathering starts with. -/
def start (s : Surroundings) (saved : Store) : Progress :=
  { store := withEnvironment s.environment saved, answers := s.answers }

/-- **What gathering comes to**: it fails and leaves the file, or it succeeds and
leaves the file unless something was asked. -/
theorem gather_cases (s : Surroundings) :
    (∃ e, (gather s).result = .error e ∧ (gather s).file = s.file)
    ∨ ∃ saved p, savedStore s.file = .ok saved ∧ Gathers Key.all (start s saved) p
      ∧ (gather s).result = .ok p.store ∧ (gather s).prompts = p.prompts
      ∧ (gather s).file = if p.prompts = [] then s.file else some p.store.encode := by
  unfold gather
  split
  · next e _ => exact .inl ⟨e, rfl, rfl⟩
  · next saved hsaved =>
    dsimp only
    split
    · next e p _ => exact .inl ⟨e, rfl, rfl⟩
    · next p hcomplete =>
      refine .inr ⟨saved, p, hsaved, complete_gathers hcomplete, rfl, rfl, ?_⟩
      simp only [List.isEmpty_iff]

/-- Gathering where nothing is missing. -/
theorem gather_of_full {s : Surroundings} {saved : Store} (hsaved : savedStore s.file = .ok saved)
    (h : ∀ key : Key, ((withEnvironment s.environment saved).lookup key.name).isSome) :
    gather s = ⟨.ok (withEnvironment s.environment saved), s.file, [], [], ""⟩ := by
  rw [gather, hsaved]
  dsimp only
  rw [complete_of_full s h]
  rfl

/-- What is known of a credential before anything is asked. -/
def known? (s : Surroundings) (key : Key) : Option String :=
  (fromEnvironment? s.environment key).or
    ((savedStore s.file).toOption.bind fun saved => saved.lookup key.name)

/-- **A credential that the environment has without the other of its pair**, which
the file does not have either. -/
def Unpaired (s : Surroundings) (key : Key) : Prop :=
  (fromEnvironment? s.environment key).isSome ∧ ∃ other ∈ key.group, known? s other = none

theorem lookup_start {s : Surroundings} {saved : Store} (h : savedStore s.file = .ok saved)
    (key : Key) : (start s saved).store.lookup key.name = known? s key := by
  rw [known?, h]
  exact lookup_withEnvironment s.environment saved key

/-- What the environment has is still there when all is gathered, unless an
authorization had to be made for the other of the pair. -/
theorem Gathers.lookup_of_paired {s : Surroundings} {saved : Store} {p : Progress}
    (h : Gathers Key.all (start s saved) p) (hsaved : savedStore s.file = .ok saved) {key : Key}
    (hkey : ¬ Unpaired s key) :
    (fromEnvironment? s.environment key).or (p.store.lookup key.name)
      = p.store.lookup key.name := by
  cases hvalue : fromEnvironment? s.environment key with
  | none => rw [Option.none_or]
  | some value =>
    have hgroup : ∀ other ∈ key.group, ((start s saved).store.lookup other.name).isSome := by
      intro other hother
      rw [lookup_start hsaved, Option.isSome_iff_ne_none]
      exact fun hnone => hkey ⟨by rw [hvalue]; rfl, other, hother, hnone⟩
    rw [h.kept key (.inr hgroup), lookup_start hsaved, known?, hvalue, Option.some_or,
      Option.some_or]

/-- **What is gathered is read back**: the file that is left, with the environment,
has each credential that the environment has not as it was gathered. -/
theorem Gathers.exists_saved {s : Surroundings} {saved : Store} {p : Progress}
    (h : Gathers Key.all (start s saved) p) (hsaved : savedStore s.file = .ok saved) :
    ∃ saved', savedStore (if p.prompts = [] then s.file else some p.store.encode) = .ok saved'
      ∧ ∀ key : Key, (withEnvironment s.environment saved').lookup key.name
        = (fromEnvironment? s.environment key).or (p.store.lookup key.name) := by
  obtain rfl | ⟨-, hprompts⟩ := h.asked
  · have hprompts : (start s saved).prompts = [] := rfl
    refine ⟨saved, by rw [if_pos hprompts, hsaved], fun key => ?_⟩
    show _ = (fromEnvironment? s.environment key).or
      ((withEnvironment s.environment saved).lookup key.name)
    rw [lookup_withEnvironment, ← Option.or_assoc, Option.or_self]
  · have hnodup : p.store.names.Nodup :=
      h.nodup (nodup_withEnvironment s.environment (nodup_of_savedStore hsaved))
    refine ⟨p.store, ?_, lookup_withEnvironment s.environment p.store⟩
    rw [if_neg hprompts, savedStore, Store.decode?_encode hnodup]

/-- **Gathering again asks nothing.** If gathering fails the file is as it was, and
so it is if nothing was asked. If gathering succeeds, then in the same environment
and from the file that it left it succeeds without a question, whatever the user
could answer; the file stays, and each of the credentials is the same again. Only a
credential that the environment has without the other of its pair is then the
environment's, in the place of the one that was authorized. -/
theorem gather_again (s : Surroundings) :
    (∀ e, (gather s).result = .error e → (gather s).file = s.file)
    ∧ ∀ store, (gather s).result = .ok store →
      ((gather s).prompts = [] → (gather s).file = s.file)
      ∧ ∀ s' : Surroundings, s'.environment = s.environment → s'.file = (gather s).file →
        ∃ store', gather s' = ⟨.ok store', s'.file, [], [], ""⟩
          ∧ ∀ key : Key, (store'.lookup key.name).isSome
            ∧ (¬ Unpaired s key → store'.lookup key.name = store.lookup key.name)
            ∧ (Unpaired s key → store'.lookup key.name = fromEnvironment? s.environment key) := by
  obtain ⟨e, hresult, hfile⟩ | ⟨saved, p, hsaved, hgathers, hresult, hprompts, hfile⟩ :=
    gather_cases s
  · refine ⟨fun _ _ => hfile, fun store hstore => ?_⟩
    rw [hresult] at hstore
    cases hstore
  · refine ⟨fun e he => ?_, fun store hstore => ?_⟩
    · rw [hresult] at he
      cases he
    · obtain rfl : p.store = store := Except.ok.inj (hresult.symm.trans hstore)
      refine ⟨fun hnone => by rw [hfile, if_pos (hprompts.symm.trans hnone)],
        fun s' henvironment hfile' => ?_⟩
      obtain ⟨saved', hsaved', hlookup⟩ := hgathers.exists_saved hsaved
      rw [← hfile, ← hfile'] at hsaved'
      rw [← henvironment] at hlookup
      have hfull : ∀ key : Key,
          ((withEnvironment s'.environment saved').lookup key.name).isSome := by
        intro key
        rw [hlookup, Option.isSome_or, hgathers.has key key.mem_all, Bool.or_true]
      refine ⟨_, gather_of_full hsaved' hfull, fun key => ⟨hfull key, ?_⟩⟩
      refine ⟨fun hkey => ?_, fun hkey => ?_⟩
      · rw [hlookup, henvironment, hgathers.lookup_of_paired hsaved hkey]
      · rw [hlookup, henvironment]
        exact Option.or_of_isSome hkey.1

/-- A user is asked for a secret whose variable is empty, and for a code since the
file has a token without its secret. -/
def halfSaved : Surroundings where
  file := some "\x7b\"access_token\": \"old\"\x7d"
  environment := [("TWITTER_CONSUMER_KEY", "k"), ("TWITTER_CONSUMER_SECRET", "")]
  answers := ["s", "pin"]
  authorizationUrl := "/pin"
  exchange := fun _ => ("tok", "sec")

/-- With one answer too few the file stays; with both, the token that was authorized
comes back in place of the old one. -/
theorem gather_again_halfSaved :
    ((gather { halfSaved with answers := ["s"] }).result = .error .noMoreAnswers
      ∧ (gather { halfSaved with answers := ["s"] }).file = halfSaved.file)
    ∧ (gather halfSaved).result = .ok [("access_token", "tok"), ("consumer_key", "k"),
        ("consumer_secret", "s"), ("access_token_secret", "sec")]
      ∧ ∃ store', gather { halfSaved with file := (gather halfSaved).file, answers := [] }
          = ⟨.ok store', (gather halfSaved).file, [], [], ""⟩
        ∧ clientKeys store' = ["k", "s", "tok", "sec"] := by
  have hrefused : (gather { halfSaved with answers := ["s"] }).result = .error .noMoreAnswers := by
    decide +kernel
  have hresult : (gather halfSaved).result = .ok [("access_token", "tok"), ("consumer_key", "k"),
      ("consumer_secret", "s"), ("access_token_secret", "sec")] := by decide +kernel
  refine ⟨⟨hrefused, (gather_again _).1 _ hrefused⟩, hresult, ?_⟩
  obtain ⟨store', hagain, hkeys⟩ := ((gather_again halfSaved).2 _ hresult).2
    { halfSaved with file := (gather halfSaved).file, answers := [] } rfl rfl
  refine ⟨store', hagain, ?_⟩
  have hpaired : ∀ key, ¬ Unpaired halfSaved key := by
    rintro key ⟨hvariable, other, hother, hnone⟩
    cases key with
    | consumerKey =>
      rw [List.mem_singleton.mp hother] at hnone
      exact absurd hnone (by decide +kernel)
    | _ => exact absurd hvariable (by decide)
  simp only [clientKeys, Key.all, List.map_cons, List.map_nil,
    fun key => (hkeys key).2.1 (hpaired key)]
  decide

/-- The environment has a token, and its secret is nowhere to be found. -/
def tokenOnly : Surroundings where
  file := none
  environment := [("TWITTER_ACCESS_TOKEN", "envtok")]
  answers := ["k", "s", "pin"]
  authorizationUrl := "/pin"
  exchange := fun _ => ("tok", "sec")

/-- **Two pairs get mixed.** The first time the pair that was authorized is used,
and the second time its secret with the token of the environment. -/
theorem gather_mixes_pairs :
    (gather tokenOnly).result.map clientKeys = .ok ["k", "s", "tok", "sec"]
    ∧ (gather { tokenOnly with file := (gather tokenOnly).file, answers := [] }).result.map
        clientKeys = .ok ["k", "s", "envtok", "sec"] := by
  have hsaved : savedStore (gather tokenOnly).file = .ok [("access_token", "tok"),
      ("consumer_key", "k"), ("consumer_secret", "s"), ("access_token_secret", "sec")] := by
    have hfile : (gather tokenOnly).file = some (Store.encode [("access_token", "tok"),
      ("consumer_key", "k"), ("consumer_secret", "s"), ("access_token_secret", "sec")]) := rfl
    rw [hfile, savedStore, Store.decode?_encode (by decide)]
  refine ⟨by decide, ?_⟩
  rw [gather_of_full hsaved (by rintro ⟨⟩ <;> decide)]
  decide

end NaturalDeduction.Credentials
