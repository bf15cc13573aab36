import PipeQuery.Format.Xml.Element
import PipeQuery.Proofs.Entries

/-!
# Children by their names

`byName` puts the children of an element under their names, the names in the order in which they
first come.  The only child of a name is there itself, several are an array of all of them
(`collected`).

`byName_append` says that one child more is attached in its place.  It needs children that are no
arrays: a child that is an array could not be told from several children of its name.
-/

namespace PipeQuery.Xml

variable {children : List (String × Value)} {name : String} {v : Value}

/-- The values of the children of a name, in the order of the children. -/
def valuesOf (name : String) (children : List (String × Value)) : List Value :=
  (children.filter (·.1 = name)).map Prod.snd

/-- What stands for the children of one name: the only one itself, or all of them in an array. -/
def collected : List Value → Value
  | [v] => v
  | vs => .array vs

/-- Children under their names, the names in the order in which they first come. -/
def byName (children : List (String × Value)) : Entries Value :=
  (Entries.keys children).eraseDups.map fun name => (name, collected (valuesOf name children))

/-! ## Names -/

theorem nodup_eraseDups (names : List String) : names.eraseDups.Nodup := by
  match names with
  | [] => exact List.nodup_nil
  | name :: names =>
    rw [List.eraseDups_cons, List.nodup_cons]
    constructor
    · simp
    · exact nodup_eraseDups (names.filter fun other => !other == name)
termination_by names.length
decreasing_by exact Nat.lt_succ_of_le (List.length_filter_le _ names)

theorem keys_byName (children : List (String × Value)) :
    Entries.keys (byName children) = (Entries.keys children).eraseDups := by
  simp [Entries.keys, byName, Function.comp_def]

theorem byName_eq_nil_iff : byName children = [] ↔ children = [] := by
  cases children with
  | nil => simp [byName, Entries.keys]
  | cons child children => simp [byName, Entries.keys, List.eraseDups_cons]

theorem get?_byName (name : String) (children : List (String × Value)) :
    (byName children).get? name
      = if name ∈ Entries.keys children then some (collected (valuesOf name children))
        else none := by
  rw [byName, Entries.get?_map_keys]
  simp only [List.mem_eraseDups]

/-! ## One child more -/

theorem valuesOf_append (name : String) (children : List (String × Value)) (name' : String)
    (v : Value) :
    valuesOf name (children ++ [(name', v)])
      = if name' = name then valuesOf name children ++ [v] else valuesOf name children := by
  by_cases h : name' = name
  · simp [valuesOf, h]
  · simp [valuesOf, h]

theorem valuesOf_eq_nil_iff : valuesOf name children = [] ↔ name ∉ Entries.keys children := by
  simp only [valuesOf, Entries.keys, List.map_eq_nil_iff, List.filter_eq_nil_iff,
    decide_eq_true_eq, List.mem_map, not_exists, not_and]

/-- Attaching a child writes what stands for it and the children of its name before it. -/
theorem attach_byName (h : ∀ child ∈ children, child.2.asArray? = none) (name : String)
    (v : Value) :
    attach (byName children) name v
      = (byName children).insert name (collected (valuesOf name children ++ [v])) := by
  unfold attach
  rw [get?_byName]
  by_cases hname : name ∈ Entries.keys children
  · rw [if_pos hname]
    cases hvalues : valuesOf name children with
    | nil => exact absurd hname (valuesOf_eq_nil_iff.1 hvalues)
    | cons first others =>
      cases others with
      | nil =>
        -- the only child so far is no array, so an array begins with it
        have hfirst : first.asArray? = none := by
          have hmem : first ∈ valuesOf name children := hvalues ▸ List.mem_cons_self
          obtain ⟨child, hchild, rfl⟩ := List.mem_map.1 hmem
          exact h child (List.mem_filter.1 hchild).1
        cases first with
        | array items => cases hfirst
        | _ => rfl
      | cons second others => rfl
  · rw [if_neg hname, valuesOf_eq_nil_iff.2 hname]
    rfl

/-- The children with one more are those before it with this one attached. -/
theorem byName_append (h : ∀ child ∈ children, child.2.asArray? = none) (name : String)
    (v : Value) : byName (children ++ [(name, v)]) = attach (byName children) name v := by
  have hkeys : Entries.keys (children ++ [(name, v)]) = Entries.keys children ++ [name] := by
    simp [Entries.keys]
  rw [attach_byName h]
  refine Entries.eq_of_get? ?_ ?_ ?_
  · rw [Entries.keys_insert, keys_byName, keys_byName, hkeys,
      Entries.eraseDups_append_singleton]
    simp only [List.mem_eraseDups]
  · refine Entries.nodup_keys_insert ?_ name _
    rw [keys_byName]
    exact nodup_eraseDups _
  · intro other
    rw [Entries.get?_insert, get?_byName, get?_byName, hkeys, valuesOf_append]
    by_cases hother : name = other
    · simp [hother]
    · have hne : other ≠ name := fun heq => hother heq.symm
      simp [hother, hne]

end PipeQuery.Xml
