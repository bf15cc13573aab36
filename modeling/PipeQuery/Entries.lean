/-!
# Entries

An object is a list of keys with what they hold, in the order in which the keys
came.  Writing a key that is there keeps its place; a new key goes to the end.

`get?_insert` says what reading finds after a write, and `keys_insert` where a
written key stands.
-/

namespace PipeQuery

/-- Keys with what they hold, in order. -/
abbrev Entries (α : Type) := List (String × α)

namespace Entries

variable {α : Type}

/-- The keys in order. -/
def keys (entries : Entries α) : List String := entries.map Prod.fst

/-- What a key holds. -/
def get? (key : String) : Entries α → Option α
  | [] => none
  | (k, a) :: rest => if k = key then some a else get? key rest

/-- Writes a key: in its place if it is there, else at the end. -/
def insert (key : String) (a : α) : Entries α → Entries α
  | [] => [(key, a)]
  | (k, b) :: rest => if k = key then (key, a) :: rest else (k, b) :: insert key a rest

/-- Takes a key out, the others keeping their order. -/
def erase (key : String) : Entries α → Entries α
  | [] => []
  | (k, b) :: rest => if k = key then rest else (k, b) :: erase key rest

/-- Writes all of `others`, one after the other. -/
def insertAll (others : Entries α) (entries : Entries α) : Entries α :=
  others.foldl (fun acc (k, a) => acc.insert k a) entries

/-- A list of keys and values as entries, the last value of a key in its first place. -/
def ofList (pairs : List (String × α)) : Entries α := insertAll pairs []

@[simp] theorem get?_nil (key : String) : get? key ([] : Entries α) = none := rfl

theorem get?_insert (key other : String) (a : α) (entries : Entries α) :
    get? other (insert key a entries) = if key = other then some a else get? other entries := by
  induction entries with
  | nil => simp [insert, get?]
  | cons e rest ih =>
    obtain ⟨k, b⟩ := e
    by_cases hk : k = key
    · subst hk
      by_cases ho : k = other <;> simp [insert, get?, ho]
    · by_cases ho : k = other
      · subst ho
        have : key ≠ k := fun h => hk h.symm
        simp [insert, get?, hk, this]
      · simp [insert, get?, hk, ho, ih]

theorem keys_insert (key : String) (a : α) (entries : Entries α) :
    keys (insert key a entries)
      = if key ∈ keys entries then keys entries else keys entries ++ [key] := by
  induction entries with
  | nil => simp [insert, keys]
  | cons e rest ih =>
    obtain ⟨k, b⟩ := e
    by_cases hk : k = key
    · simp [insert, keys, hk]
    · have hk' : key ≠ k := fun h => hk h.symm
      simp only [keys] at ih
      by_cases hm : key ∈ rest.map Prod.fst
      · simp [insert, keys, hk, ih, hm]
      · simp [insert, keys, hk, hk', ih, hm]

/-- A key is there exactly when it holds something. -/
theorem get?_eq_none_iff {key : String} {entries : Entries α} :
    get? key entries = none ↔ key ∉ keys entries := by
  induction entries with
  | nil => simp [keys]
  | cons e rest ih =>
    obtain ⟨k, b⟩ := e
    simp only [keys] at ih
    by_cases hk : k = key
    · simp [get?, keys, hk]
    · have hk' : key ≠ k := fun h => hk h.symm
      simp [get?, keys, hk, hk', ih]

/-- Distinct keys stay distinct when a key is written. -/
theorem nodup_keys_insert {entries : Entries α} (h : (keys entries).Nodup) (key : String)
    (a : α) : (keys (insert key a entries)).Nodup := by
  rw [keys_insert]
  split
  · exact h
  · rename_i hm
    refine List.nodup_append.2 ⟨h, by simp, ?_⟩
    intro x hx y hy
    simp only [List.mem_singleton] at hy
    subst hy
    exact fun e => hm (e ▸ hx)

end Entries

end PipeQuery
