import Mathlib.Data.List.Nodup
import NaturalDeduction.Credentials.Store

/-!
# A saved store is read back

A store whose names are distinct is the same after it was written and read again
(`Store.decode?_encode`), whatever its names and texts are. Stores that are read
have distinct names, and setting a name keeps them so, so every store that is ever
saved is of this kind.

The argument goes up the format. A character is written as it is, by an escape of
its own or by its code units, and each of these is read as its code units. Code
units can be read back because no character is a surrogate, so the two units of a
pair cannot be mistaken for two characters. A string is then read up to its
quote, an entry up to what follows it, and the entries one by one, each set in a
store that does not have its name yet.
-/

namespace NaturalDeduction.Credentials

namespace Store

/-! ## Setting names -/

theorem lookup_entry (k v name : String) (store : Store) :
    List.lookup name ((k, v) :: store) = if name = k then some v else store.lookup name := by
  rw [List.lookup_cons]
  by_cases h : name = k
  · rw [h, beq_self_eq_true, if_pos rfl]
  · rw [beq_false_of_ne h, if_neg h]

/-- **Setting a name** changes what is found under it and nothing else. -/
theorem lookup_put (store : Store) (key value name : String) :
    (store.put key value).lookup name = if name = key then some value else store.lookup name := by
  induction store with
  | nil => exact lookup_entry key value name []
  | cons entry store ih =>
    obtain ⟨k, v⟩ := entry
    rw [put, lookup_entry]
    by_cases hk : k = key
    · rw [if_pos hk, lookup_entry, hk]
      by_cases h : name = key <;> simp only [h, if_true, if_false]
    · rw [if_neg hk, lookup_entry, ih]
      by_cases h : name = k
      · rw [h, if_pos rfl, if_pos rfl, if_neg hk]
      · rw [if_neg h, if_neg h]

/-- The names of a store, in order. -/
def names (store : Store) : List String := store.map Prod.fst

theorem nodup_names_nil : (names []).Nodup := List.nodup_nil

theorem names_put (store : Store) (key value : String) :
    (store.put key value).names
      = if key ∈ store.names then store.names else store.names ++ [key] := by
  unfold names
  induction store with
  | nil => rfl
  | cons entry store ih =>
    obtain ⟨k, v⟩ := entry
    rw [put]
    by_cases hk : k = key
    · subst hk
      simp
    · rw [if_neg hk, List.map_cons, ih]
      by_cases h : key ∈ store.map Prod.fst <;> simp_all [eq_comm]

theorem nodup_names_put {store : Store} (h : store.names.Nodup) (key value : String) :
    (store.put key value).names.Nodup := by
  rw [names_put]
  split
  · exact h
  · next hkey =>
    rw [← List.concat_eq_append]
    exact h.concat hkey

theorem put_of_not_mem {store : Store} {key : String} (h : key ∉ store.names) (value : String) :
    store.put key value = store ++ [(key, value)] := by
  induction store with
  | nil => rfl
  | cons entry store ih =>
    rw [names, List.map_cons, List.mem_cons, not_or] at h
    rw [put, if_neg (Ne.symm h.1), ih h.2, List.cons_append]

/-- Entries with new names, set one after the other, are appended. -/
theorem foldl_put {store : Store} (entries : Store) (h : (store ++ entries).names.Nodup) :
    entries.foldl (fun store entry => store.put entry.1 entry.2) store = store ++ entries := by
  induction entries generalizing store with
  | nil => exact (List.append_nil store).symm
  | cons entry entries ih =>
    have hnew : entry.1 ∉ store.names := by
      rw [names, List.map_append] at h
      exact fun hmem => List.disjoint_of_nodup_append h hmem List.mem_cons_self
    rw [List.append_cons] at h ⊢
    rw [List.foldl_cons, put_of_not_mem hnew, ih h]

/-! ## Characters -/

theorem readUnits?_plain {c : Char} (hc : 0x20 ≤ c.toNat) (hquote : c ≠ '"') (hbackslash : c ≠ '\\')
    (rest : List Char) :
    readUnits? (c :: rest) = (readUnits? rest).map fun p => (c.toNat :: p.1, p.2) := by
  rw [readUnits?.eq_def]
  -- all but the last case start with a quote or a backslash
  split
  · contradiction
  · next heq => cases heq; contradiction
  · next heq => cases heq; contradiction
  · next heq => cases heq; contradiction
  · next heq =>
    cases heq
    rw [if_neg (by simp [hbackslash]; omega)]
    cases readUnits? rest <;> rfl

theorem readUnits?_escape {e : Char} {unit : Nat} (he : escapeValue? e = some unit) (hu : e ≠ 'u')
    (rest : List Char) :
    readUnits? ('\\' :: e :: rest) = (readUnits? rest).map fun p => (unit :: p.1, p.2) := by
  rw [readUnits?.eq_def]
  split
  · contradiction
  · next heq => cases heq
  · next heq => cases heq; contradiction
  · next heq =>
    cases heq
    rw [he]
    cases readUnits? rest <;> rfl
  · next h heq =>
    cases heq
    exact absurd rfl (h _ _ rfl)

theorem hexValue?_digitChar : ∀ d < 16, hexValue? (Nat.digitChar d) = some d := by decide

theorem readUnits?_unitEscape {unit : Nat} (h : unit < 0x10000) (rest : List Char) :
    readUnits? (unitEscape unit ++ rest) = (readUnits? rest).map fun p => (unit :: p.1, p.2) := by
  have hdigits : unitOfDigits? (Nat.digitChar (unit / 16 / 16 / 16 % 16))
      (Nat.digitChar (unit / 16 / 16 % 16)) (Nat.digitChar (unit / 16 % 16))
      (Nat.digitChar (unit % 16)) = some unit := by
    simp only [unitOfDigits?, hexValue?_digitChar _ (Nat.mod_lt _ (by decide : 0 < 16))]
    simp
    omega
  have hescape : unitEscape unit ++ rest = '\\' :: 'u' :: Nat.digitChar (unit / 16 / 16 / 16 % 16)
      :: Nat.digitChar (unit / 16 / 16 % 16) :: Nat.digitChar (unit / 16 % 16)
      :: Nat.digitChar (unit % 16) :: rest := rfl
  rw [hescape, readUnits?, hdigits]
  cases readUnits? rest <;> rfl

theorem readUnits?_unitEscapes {units : List Nat} (h : ∀ unit ∈ units, unit < 0x10000)
    (rest : List Char) :
    readUnits? (units.flatMap unitEscape ++ rest)
      = (readUnits? rest).map fun p => (units ++ p.1, p.2) := by
  induction units with
  | nil => exact Option.map_id'.symm
  | cons unit units ih =>
    rw [List.forall_mem_cons] at h
    rw [List.flatMap_cons, List.append_assoc, readUnits?_unitEscape h.1, ih h.2, Option.map_map]
    rfl

/-- No character is a surrogate. -/
theorem toNat_valid (c : Char) : c.toNat < 0xD800 ∨ 0xDFFF < c.toNat ∧ c.toNat < 0x110000 :=
  c.valid

theorem codeUnits_lt {c : Char} : ∀ unit ∈ codeUnits c, unit < 0x10000 := by
  have hvalid := toNat_valid c
  intro unit hunit
  rw [codeUnits] at hunit
  split at hunit
  · rw [List.mem_singleton] at hunit
    omega
  · rw [List.mem_cons, List.mem_singleton] at hunit
    omega

/-- **A character is read as its code units**, in whichever way it is written. -/
theorem readUnits?_encodeChar (c : Char) (rest : List Char) :
    readUnits? (encodeChar c ++ rest)
      = (readUnits? rest).map fun p => (codeUnits c ++ p.1, p.2) := by
  by_cases hshort : c ∈ ['"', '\\', '\n', '\r', '\t', '\x08', '\x0c']
  · simp only [List.mem_cons, List.not_mem_nil, or_false] at hshort
    rcases hshort with rfl | rfl | rfl | rfl | rfl | rfl | rfl <;>
      exact readUnits?_escape rfl (by decide) rest
  · have hlong : encodeChar c = if 0x20 ≤ c.toNat && c.toNat < 0x7F then [c]
        else (codeUnits c).flatMap unitEscape := by
      simp only [List.mem_cons, List.not_mem_nil, or_false, not_or] at hshort
      simp only [encodeChar, hshort, if_false]
    rw [hlong]
    split
    · next h =>
      rw [Bool.and_eq_true, decide_eq_true_iff, decide_eq_true_iff] at h
      have hunits : codeUnits c = [c.toNat] := if_pos (by omega)
      rw [hunits]
      refine readUnits?_plain h.1 ?_ ?_ rest <;> rintro rfl <;> simp at hshort
    · exact readUnits?_unitEscapes codeUnits_lt rest

/-- **A character is denoted by its code units**, whatever follows them. -/
theorem charsOfUnits?_codeUnits (c : Char) (units : List Nat) :
    charsOfUnits? (codeUnits c ++ units) = (charsOfUnits? units).map (c :: ·) := by
  have hvalid := toNat_valid c
  rw [codeUnits]
  by_cases hc : c.toNat < 0x10000
  · rw [if_pos hc]
    have hhigh : ¬ (0xD800 ≤ c.toNat && c.toNat < 0xDC00) = true := by
      simp only [Bool.and_eq_true, decide_eq_true_eq]
      omega
    have hlow : ¬ (0xDC00 ≤ c.toNat && c.toNat < 0xE000) = true := by
      simp only [Bool.and_eq_true, decide_eq_true_eq]
      omega
    cases units with
    | nil =>
      have halone : ¬ (0xD800 ≤ c.toNat && c.toNat < 0xE000) = true := by
        simp only [Bool.and_eq_true, decide_eq_true_eq]
        omega
      show charsOfUnits? [c.toNat] = some [c]
      rw [charsOfUnits?, if_neg halone, Char.ofNat_toNat]
    | cons next rest =>
      rw [List.singleton_append, charsOfUnits?, if_neg hhigh, if_neg hlow, Char.ofNat_toNat]
  · rw [if_neg hc]
    have hhigh : (0xD800 ≤ 0xD800 + (c.toNat - 0x10000) / 0x400
        && 0xD800 + (c.toNat - 0x10000) / 0x400 < 0xDC00) = true := by
      simp only [Bool.and_eq_true, decide_eq_true_eq]
      omega
    have hlow : (0xDC00 ≤ 0xDC00 + (c.toNat - 0x10000) % 0x400
        && 0xDC00 + (c.toNat - 0x10000) % 0x400 < 0xE000) = true := by
      simp only [Bool.and_eq_true, decide_eq_true_eq]
      omega
    have hpair : pairValue (0xD800 + (c.toNat - 0x10000) / 0x400)
        (0xDC00 + (c.toNat - 0x10000) % 0x400) = c.toNat := by
      unfold pairValue
      omega
    rw [List.cons_append, List.singleton_append, charsOfUnits?, if_pos hhigh, if_pos hlow, hpair,
      Char.ofNat_toNat]

/-! ## Strings and entries -/

theorem readUnits?_encoded (cs rest : List Char) :
    readUnits? (cs.flatMap encodeChar ++ '"' :: rest) = some (cs.flatMap codeUnits, rest) := by
  induction cs with
  | nil => rfl
  | cons c cs ih =>
    rw [List.flatMap_cons, List.append_assoc, readUnits?_encodeChar, ih]
    rfl

theorem charsOfUnits?_flatMap (cs : List Char) :
    charsOfUnits? (cs.flatMap codeUnits) = some cs := by
  induction cs with
  | nil => rfl
  | cons c cs ih =>
    rw [List.flatMap_cons, charsOfUnits?_codeUnits, ih]
    rfl

theorem encodeString_append (text : String) (rest : List Char) :
    encodeString text ++ rest = '"' :: (text.toList.flatMap encodeChar ++ '"' :: rest) := by
  rw [encodeString, List.cons_append, List.cons_append, List.append_assoc, List.singleton_append]

/-- **A text is read back**, up to what follows it. -/
theorem readString?_encodeString (text : String) (rest : List Char) :
    readString? (encodeString text ++ rest) = some (text, rest) := by
  rw [encodeString_append, readString?, readUnits?_encoded]
  dsimp only
  rw [charsOfUnits?_flatMap, Option.map_some, String.ofList_toList]

theorem skipGap_of_not_isGap {c : Char} (h : isGap c = false) (rest : List Char) :
    skipGap (c :: rest) = c :: rest :=
  List.dropWhile_cons_of_neg (by rw [h]; exact Bool.false_ne_true)

theorem skipGap_encodeString (text : String) (rest : List Char) :
    skipGap (encodeString text ++ rest) = encodeString text ++ rest := by
  rw [encodeString_append]
  exact skipGap_of_not_isGap (by decide) _

theorem skipGap_space (rest : List Char) : skipGap (' ' :: rest) = skipGap rest := rfl

/-- **An entry is read back**, up to what follows it. -/
theorem readEntry?_encodeEntry (entry : String × String) (rest : List Char) :
    readEntry? (encodeEntry entry ++ rest) = some (entry, skipGap rest) := by
  unfold readEntry? encodeEntry
  rw [List.append_assoc, skipGap_encodeString, readString?_encodeString]
  have hcolon : isGap ':' = false := by decide
  simp only [List.cons_append, skipGap_of_not_isGap hcolon, skipGap_space, skipGap_encodeString,
    readString?_encodeString]

/-! ## Stores -/

/-- The entries of a store as they stand between the braces. -/
def encodeEntries (entries : Store) : List Char :=
  [',', ' '].intercalate (entries.map encodeEntry)

theorem encodeEntries_singleton (entry : String × String) :
    encodeEntries [entry] = encodeEntry entry := by
  simp [encodeEntries, List.intercalate]

theorem encodeEntries_cons_cons (entry next : String × String) (entries : Store) :
    encodeEntries (entry :: next :: entries)
      = encodeEntry entry ++ ',' :: ' ' :: encodeEntries (next :: entries) := by
  simp [encodeEntries, List.intercalate]

/-- Entries start with the quote of the first name. -/
theorem exists_encodeEntries_eq (entry : String × String) (entries : Store) :
    ∃ rest, encodeEntries (entry :: entries) = '"' :: rest := by
  cases entries with
  | nil =>
    rw [encodeEntries_singleton, encodeEntry, encodeString_append]
    exact ⟨_, rfl⟩
  | cons next entries =>
    rw [encodeEntries_cons_cons, encodeEntry, List.append_assoc, encodeString_append]
    exact ⟨_, rfl⟩

theorem length_lt_encodeEntries (entry : String × String) (entries : Store) :
    entries.length < (encodeEntries (entry :: entries)).length := by
  induction entries generalizing entry with
  | nil =>
    rw [encodeEntries_singleton, encodeEntry, encodeString, List.length_append, List.length_append,
      List.length_cons]
    simp only [List.length_nil]
    omega
  | cons next entries ih =>
    have hnext := ih next
    rw [encodeEntries_cons_cons, List.length_append, List.length_cons, List.length_cons,
      List.length_cons]
    omega

theorem readEntries?_space (fuel : Nat) (store : Store) (rest : List Char) :
    readEntries? fuel store (' ' :: rest) = readEntries? fuel store rest := by
  cases fuel <;> rfl

/-- **Entries are read back** into a store, one by one. -/
theorem readEntries?_encodeEntries {fuel : Nat} (store : Store) (entry : String × String)
    (entries : Store) (hfuel : entries.length < fuel) (rest : List Char) :
    readEntries? fuel store (encodeEntries (entry :: entries) ++ '\x7d' :: rest)
      = some ((entry :: entries).foldl (fun store entry => store.put entry.1 entry.2) store,
        rest) := by
  induction entries generalizing fuel store entry with
  | nil =>
    obtain ⟨fuel, rfl⟩ := Nat.exists_eq_add_of_lt hfuel
    rw [encodeEntries_singleton, readEntries?, readEntry?_encodeEntry,
      skipGap_of_not_isGap (by decide)]
    rfl
  | cons next entries ih =>
    obtain ⟨fuel, rfl⟩ := Nat.exists_eq_add_of_lt hfuel
    have hcomma : isGap ',' = false := by decide
    have hrest := ih (store.put entry.1 entry.2) next
      (by rw [List.length_cons]; omega : entries.length < (next :: entries).length + fuel)
    rw [encodeEntries_cons_cons, List.append_assoc, readEntries?, readEntry?_encodeEntry]
    simp only [List.cons_append, skipGap_of_not_isGap hcomma]
    rw [readEntries?_space]
    exact hrest

theorem readObject?_of_quote (rest : List Char) :
    readObject? ('\x7b' :: '"' :: rest) = readEntries? ('"' :: rest).length [] ('"' :: rest) := rfl

/-- **A store with distinct names is read back as it was saved.** -/
theorem decode?_encode {store : Store} (h : store.names.Nodup) :
    decode? store.encode = some store := by
  have hobject : readObject? ('\x7b' :: encodeEntries store ++ ['\x7d']) = some (store, []) := by
    cases store with
    | nil => rfl
    | cons entry entries =>
      have hfuel : entries.length < (encodeEntries (entry :: entries) ++ ['\x7d']).length := by
        rw [List.length_append]
        exact Nat.lt_add_right _ (length_lt_encodeEntries entry entries)
      have hread := readEntries?_encodeEntries [] entry entries hfuel []
      rw [foldl_put (entry :: entries) h, List.nil_append] at hread
      obtain ⟨rest, hrest⟩ := exists_encodeEntries_eq entry entries
      rw [hrest] at hread ⊢
      exact (readObject?_of_quote _).trans hread
  rw [decode?, encode, String.toList_ofList, ← encodeEntries, hobject]
  rfl

/-- Entries are read into a store whose names stay distinct. -/
theorem nodup_of_readEntries? {fuel : Nat} {store store' : Store} {cs rest : List Char}
    (hstore : store.names.Nodup) (h : readEntries? fuel store cs = some (store', rest)) :
    store'.names.Nodup := by
  induction fuel generalizing store cs with
  | zero => cases h
  | succ fuel ih =>
    rw [readEntries?] at h
    split at h
    · cases h
      exact nodup_names_put hstore _ _
    · exact ih (nodup_names_put hstore _ _) h
    · cases h

/-- **A store that was read has distinct names.** -/
theorem nodup_of_decode? {text : String} {store : Store} (h : decode? text = some store) :
    store.names.Nodup := by
  rw [decode?] at h
  split at h
  · next hobject =>
    split at h
    · cases h
      rw [readObject?] at hobject
      split at hobject
      · split at hobject
        · cases hobject
          exact nodup_names_nil
        · exact nodup_of_readEntries? nodup_names_nil hobject
      · cases hobject
    · cases h
  · cases h

end Store

end NaturalDeduction.Credentials
