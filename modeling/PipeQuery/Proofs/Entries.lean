import Mathlib.Data.List.Induction
import PipeQuery.Entries

/-!
# Entries at a key

The entry of a key stands between those before it, which have other keys, and those
after it (`Entries.exists_append_of_get?`).  In this form writing a key changes the
entry (`insert_middle`) and removing it takes the entry out (`erase_middle`).  A key
that is not there is written at the end (`insert_of_not_mem`).

Keys may be written several times.  They stand in the order in which they first came
(`keys_ofList`), and each holds what was written last (`get?_ofList`).
-/

namespace PipeQuery.Entries

variable {α : Type} {key : String} {a b : α} {entries others front : Entries α}

/-! ## Reading -/

theorem mem_keys_iff : key ∈ keys entries ↔ ∃ a, (key, a) ∈ entries := by
  constructor
  · intro h
    obtain ⟨⟨k, a⟩, hmem, rfl⟩ := List.mem_map.1 h
    exact ⟨a, hmem⟩
  · rintro ⟨a, hmem⟩
    exact List.mem_map.2 ⟨_, hmem, rfl⟩

theorem exists_append_of_get? (h : get? key entries = some a) :
    ∃ front back, entries = front ++ (key, a) :: back ∧ key ∉ keys front := by
  induction entries with
  | nil => cases h
  | cons e rest ih =>
    obtain ⟨k, c⟩ := e
    rw [get?] at h
    split at h
    next hk =>
      cases h
      subst hk
      exact ⟨[], rest, rfl, List.not_mem_nil⟩
    next hk =>
      obtain ⟨front, back, rfl, hfront⟩ := ih h
      refine ⟨(k, c) :: front, back, rfl, ?_⟩
      intro hmem
      rcases List.mem_cons.1 hmem with heq | hmem
      · exact hk heq.symm
      · exact hfront hmem

theorem mem_of_get? (h : get? key entries = some a) : (key, a) ∈ entries := by
  obtain ⟨front, back, rfl, -⟩ := exists_append_of_get? h
  exact List.mem_append_right front List.mem_cons_self

theorem get?_of_mem (h : (keys entries).Nodup) (hmem : (key, a) ∈ entries) :
    get? key entries = some a := by
  induction entries with
  | nil => cases hmem
  | cons e rest ih =>
    obtain ⟨k, b⟩ := e
    obtain ⟨hk, hrest⟩ := List.nodup_cons.1 h
    rcases List.mem_cons.1 hmem with heq | hmem
    · cases heq
      simp [get?]
    · have hne : k ≠ key := by
        rintro rfl
        exact hk (List.mem_map.2 ⟨_, hmem, rfl⟩)
      simp only [get?, hne, if_false]
      exact ih hrest hmem

theorem get?_map_keys (f : String → α) (names : List String) :
    get? key (names.map fun name => (name, f name))
      = if key ∈ names then some (f key) else none := by
  induction names with
  | nil => rfl
  | cons name names ih =>
    by_cases h : name = key
    · subst h
      simp [get?]
    · have hne : key ≠ name := fun heq => h heq.symm
      simp [get?, h, hne, ih]

/-- Entries with distinct keys are the same if they have the same keys in the same order and hold
the same under each. -/
theorem eq_of_get? (hkeys : keys entries = keys others) (hnodup : (keys others).Nodup)
    (hget : ∀ key, get? key entries = get? key others) : entries = others := by
  induction entries generalizing others with
  | nil =>
    cases others with
    | nil => rfl
    | cons e others => cases hkeys
  | cons e entries ih =>
    obtain ⟨k, a⟩ := e
    cases others with
    | nil => cases hkeys
    | cons e others =>
      obtain ⟨k', b⟩ := e
      obtain ⟨rfl, htail⟩ : k = k' ∧ keys entries = keys others := List.cons.inj hkeys
      obtain ⟨hk, hnodup⟩ := List.nodup_cons.1 hnodup
      have hab : a = b := by simpa [get?] using hget k
      -- no other entry has the key of the first one, so looking past it finds the same
      have hrest : ∀ key, get? key entries = get? key others := by
        intro key
        by_cases hne : k = key
        · subst hne
          rw [get?_eq_none_iff.2 hk, get?_eq_none_iff]
          exact htail ▸ hk
        · simpa [get?, hne] using hget key
      rw [hab, ih htail hnodup hrest]

/-! ## Writing -/

theorem insert_append_of_not_mem (h : key ∉ keys entries) :
    insert key a (entries ++ others) = entries ++ insert key a others := by
  induction entries with
  | nil => rfl
  | cons e rest ih =>
    obtain ⟨k, b⟩ := e
    obtain ⟨hk, hrest⟩ := not_or.1 (mt List.mem_cons.2 h)
    have hne : k ≠ key := fun heq => hk heq.symm
    simp only [List.cons_append, insert, hne, if_false, ih hrest]

theorem insert_of_not_mem (h : key ∉ keys entries) :
    insert key a entries = entries ++ [(key, a)] := by
  have happend := @insert_append_of_not_mem α key a entries [] h
  rwa [List.append_nil] at happend

theorem insert_middle (h : key ∉ keys front) (others : Entries α) :
    insert key b (front ++ (key, a) :: others) = front ++ (key, b) :: others := by
  rw [insert_append_of_not_mem h]
  simp [insert]

/-- Writing what a key holds changes nothing. -/
theorem insert_of_get? (h : get? key entries = some a) : insert key a entries = entries := by
  obtain ⟨front, back, rfl, hfront⟩ := exists_append_of_get? h
  exact insert_middle hfront back

/-- Of two writes of a key the second counts. -/
theorem insert_insert (key : String) (a b : α) (entries : Entries α) :
    insert key b (insert key a entries) = insert key b entries := by
  induction entries with
  | nil => simp [insert]
  | cons e rest ih =>
    obtain ⟨k, c⟩ := e
    by_cases hk : k = key
    · simp [insert, hk]
    · simp [insert, hk, ih]

/-- Writing a key changes no other entry. -/
theorem filter_insert (key : String) (a : α) (entries : Entries α) :
    (insert key a entries).filter (fun e => e.1 ≠ key) = entries.filter (fun e => e.1 ≠ key) := by
  induction entries with
  | nil => simp [insert]
  | cons e rest ih =>
    obtain ⟨k, b⟩ := e
    by_cases hk : k = key
    · simp [insert, hk]
    · rw [insert, if_neg hk, List.filter_cons, List.filter_cons, ih]

theorem insertAll_of_nodup (h : (keys (entries ++ others)).Nodup) :
    insertAll others entries = entries ++ others := by
  induction others generalizing entries with
  | nil => simp [insertAll]
  | cons e rest ih =>
    obtain ⟨k, b⟩ := e
    have hassoc : (entries ++ [(k, b)]) ++ rest = entries ++ (k, b) :: rest := by simp
    have hk : k ∉ keys entries := by
      intro hmem
      simp only [keys, List.map_append, List.map_cons] at h hmem
      exact (List.nodup_append.1 h).2.2 k hmem k List.mem_cons_self rfl
    rw [← hassoc] at h
    rw [← hassoc, ← ih h, ← insert_of_not_mem hk]
    rfl

/-- Keys that come once only are entries as they are. -/
theorem ofList_of_nodup (h : (keys entries).Nodup) : ofList entries = entries :=
  insertAll_of_nodup h

theorem eraseDups_append_singleton (names : List String) (name : String) :
    (names ++ [name]).eraseDups
      = if name ∈ names then names.eraseDups else names.eraseDups ++ [name] := by
  rw [List.eraseDups_append]
  by_cases h : name ∈ names
  · simp [List.removeAll, h]
  · simp [List.removeAll, h, List.eraseDups_cons]

theorem length_insert (key : String) (a : α) (entries : Entries α) :
    (insert key a entries).length
      = if key ∈ keys entries then entries.length else entries.length + 1 := by
  have h := congrArg List.length (keys_insert key a entries)
  rw [keys, List.length_map] at h
  rw [h]
  split
  · rw [keys, List.length_map]
  · rw [keys, List.length_append, List.length_map, List.length_singleton]

/-- There are no more entries than were written. -/
theorem length_insertAll_le (others entries : Entries α) :
    (insertAll others entries).length ≤ entries.length + others.length := by
  induction others generalizing entries with
  | nil => exact Nat.le_refl _
  | cons e rest ih =>
    obtain ⟨k, b⟩ := e
    have hrest := ih (insert k b entries)
    have hinsert : (insert k b entries).length ≤ entries.length + 1 := by
      rw [length_insert]
      split <;> omega
    refine Nat.le_trans hrest ?_
    rw [List.length_cons]
    omega

/-- There are as many entries as were written only if no key was written twice. -/
theorem nodup_of_length_insertAll (h : (keys entries).Nodup)
    (hlength : entries.length + others.length ≤ (insertAll others entries).length) :
    (keys (entries ++ others)).Nodup := by
  induction others generalizing entries with
  | nil => rwa [List.append_nil]
  | cons e rest ih =>
    obtain ⟨k, b⟩ := e
    have hrest := length_insertAll_le rest (insert k b entries)
    have hall : entries.length + (rest.length + 1)
        ≤ (insertAll rest (insert k b entries)).length := hlength
    by_cases hk : k ∈ keys entries
    · rw [length_insert, if_pos hk] at hrest
      omega
    · have hinsert := nodup_keys_insert h k b
      rw [insert_of_not_mem hk] at hinsert hall
      have hnext := ih hinsert (by rw [List.length_append, List.length_singleton]; omega)
      rwa [List.append_assoc] at hnext

/-- Entries with a key twice become fewer when they are written one after the other. -/
theorem length_ofList_lt (h : ¬ (keys entries).Nodup) :
    (ofList entries).length < entries.length := by
  refine Nat.lt_of_not_le fun hle => h ?_
  have hnodup := @nodup_of_length_insertAll α [] entries List.nodup_nil
  refine hnodup ?_
  rwa [List.length_nil, Nat.zero_add]

/-! ## Removing -/

theorem erase_of_not_mem (h : key ∉ keys entries) : erase key entries = entries := by
  induction entries with
  | nil => rfl
  | cons e rest ih =>
    obtain ⟨k, b⟩ := e
    obtain ⟨hk, hrest⟩ := not_or.1 (mt List.mem_cons.2 h)
    have hne : k ≠ key := fun heq => hk heq.symm
    simp only [erase, hne, if_false, ih hrest]

theorem erase_middle (h : key ∉ keys front) (others : Entries α) :
    erase key (front ++ (key, a) :: others) = front ++ others := by
  induction front with
  | nil => simp [erase]
  | cons e front ih =>
    obtain ⟨k, c⟩ := e
    obtain ⟨hk, hfront⟩ := not_or.1 (mt List.mem_cons.2 h)
    have hne : k ≠ key := fun heq => hk heq.symm
    simp only [List.cons_append, erase, hne, if_false, ih hfront]

/-- Removing a key leaves every entry that has another key. -/
theorem erase_eq_filter (h : (keys entries).Nodup) (key : String) :
    erase key entries = entries.filter (fun e => e.1 ≠ key) := by
  induction entries with
  | nil => rfl
  | cons e rest ih =>
    obtain ⟨k, b⟩ := e
    obtain ⟨hk, hrest⟩ := List.nodup_cons.1 h
    by_cases hkey : k = key
    · subst hkey
      rw [erase, if_pos rfl, List.filter_cons_of_neg (by simp), ← ih hrest, erase_of_not_mem hk]
    · rw [erase, if_neg hkey, ih hrest, List.filter_cons_of_pos (by simpa using hkey)]

theorem nodup_keys_erase (h : (keys entries).Nodup) (key : String) :
    (keys (erase key entries)).Nodup := by
  rw [erase_eq_filter h]
  exact (List.filter_sublist.map Prod.fst).nodup h

/-- A key that does not come twice is gone when it is removed. -/
theorem not_mem_keys_erase (h : (keys entries).Nodup) (key : String) :
    key ∉ keys (erase key entries) := by
  intro hmem
  rw [erase_eq_filter h] at hmem
  obtain ⟨a, ha⟩ := mem_keys_iff.1 hmem
  simpa using (List.mem_filter.1 ha).2

/-- Removing a key that was not there before it was written restores the entries. -/
theorem erase_insert_of_not_mem (h : key ∉ keys entries) :
    erase key (insert key a entries) = entries := by
  rw [insert_of_not_mem h, erase_middle h, List.append_nil]

end PipeQuery.Entries
