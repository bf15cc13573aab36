import PipeQuery.Pipeline.Run
import PipeQuery.Proofs.Pipeline.Groups
import PipeQuery.Proofs.Value.Index
import PipeQuery.Proofs.Value.Step

/-!
# Groups by the value at a field

Rows are grouped by one field through an index: the number of a value at the field is
the place of its group.  `summarize_by_value` says that this gives the groups of rows
with equal values, whatever the canonical texts of the values are, each with its metrics.
The values of the groups are the distinct values at the field.

Rows that hold `nan` at the field have a group each.
-/

namespace PipeQuery.Query

open Value

variable {field : String} {state : Grouping} {items : List (Value × Nat)}
  {groups : List (Group (Value × Nat))}

/-- Two rows, with their places, belong together by a field: they are one row, or the values at the
field are equal. -/
def SameValue (field : String) (p q : Value × Nat) : Prop :=
  p = q ∨ (p.1.field field).equals (q.1.field field) = true

theorem equivalenceOn_sameValue (field : String) :
    EquivalenceOn (fun p : Value × Nat => p.1.Distinct) (SameValue field) where
  refl := fun _ _ => .inl rfl
  symm := by
    rintro p q hp hq (rfl | h)
    · exact .inl rfl
    · exact .inr (equals_symm h (distinct_field hp field) (distinct_field hq field))
  trans := by
    rintro p q r - - - (rfl | hpq) (rfl | hqr)
    · exact .inl rfl
    · exact .inr hqr
    · exact .inr hpq
    · exact .inr (equals_trans hpq hqr)

/-- The value of a group at a field, which is that of its first row. -/
def groupValue (field : String) (g : Group (Value × Nat)) : Value := g.first.1.field field

/-- The rows so far are in groups, and the index numbers the values of the groups. -/
structure Grouping.Holds (field : String) (state : Grouping) (items : List (Value × Nat))
    (groups : List (Group (Value × Nat))) : Prop where
  /-- The groups are those of rows with equal values. -/
  grouped : Grouped (SameValue field) items groups
  /-- Each group is kept behind its value. -/
  entries : state.groups = groups.map fun g => (groupValue field g, groupRows g)
  /-- The number of a value is the place of its group. -/
  index : state.index.Numbers (groups.map (groupValue field))

theorem modify_middle {α : Type} (front back : List α) (x : α) (f : α → α) :
    (front ++ x :: back).modify front.length f = front ++ f x :: back := by
  rw [List.modify_eq_take_cons_drop (by simp)]
  simp

/-- A row whose value is found goes to the group of this value. -/
theorem Grouping.Holds.push {front back : List (Group (Value × Nat))} {g : Group (Value × Nat)}
    {p : Value × Nat} (h : state.Holds field items (front ++ g :: back))
    (hinsert : state.index.insert (p.1.field field) = (front.length, false, state.index))
    (hgrouped : Grouped (SameValue field) (items ++ [p]) (front ++ g.push p :: back)) :
    (state.add field p.1).Holds field (items ++ [p]) (front ++ g.push p :: back) where
  grouped := hgrouped
  entries := by
    have hlength : front.length
        = (front.map fun g => (groupValue field g, groupRows g)).length := by simp
    simp only [Grouping.add, hinsert, h.entries, List.map_append, List.map_cons, groupRows_push]
    rw [hlength]
    exact modify_middle _ _ _ _
  index := by
    have hvalues : (front ++ g.push p :: back).map (groupValue field)
        = (front ++ g :: back).map (groupValue field) := by simp [groupValue]
    rw [hvalues]
    simp only [Grouping.add, hinsert]
    exact h.index

/-- A row whose value is new starts a group. -/
theorem Grouping.Holds.start {p : Value × Nat} (h : state.Holds field items groups)
    (hinsert : state.index.insert (p.1.field field)
      = ((groups.map (groupValue field)).length, true, state.index.append (p.1.field field)))
    (hgrouped : Grouped (SameValue field) (items ++ [p]) (groups ++ [⟨p, []⟩])) :
    (state.add field p.1).Holds field (items ++ [p]) (groups ++ [⟨p, []⟩]) where
  grouped := hgrouped
  entries := by
    simp only [Grouping.add, hinsert, h.entries, List.map_append]
    rfl
  index := by
    simp only [Grouping.add, hinsert, List.map_append]
    exact h.index.append (p.1.field field)

/-- One row more is put into the groups. -/
theorem Grouping.Holds.add {p : Value × Nat} (h : state.Holds field items groups)
    (hitems : ∀ q ∈ items, q.1.Distinct) (hp : p.1.Distinct) (hnodup : (items ++ [p]).Nodup) :
    ∃ groups, (state.add field p.1).Holds field (items ++ [p]) groups := by
  have he := equivalenceOn_sameValue field
  have hvalues : ∀ w ∈ groups.map (groupValue field), w.Distinct := by
    intro w hw
    obtain ⟨g, hg, rfl⟩ := List.mem_map.1 hw
    exact distinct_field (hitems _ (h.grouped.mem_iff.2 ⟨g, hg, g.first_mem⟩)) field
  rcases Index.insert_cases h.index hvalues (distinct_field hp field) with
    ⟨slot, w, hslot, heq, hinsert⟩ | ⟨hne, hinsert⟩
  · rw [List.getElem?_map] at hslot
    obtain ⟨g, hg, rfl⟩ := Option.map_eq_some_iff.1 hslot
    obtain ⟨front, back, rfl, rfl⟩ := exists_middle hg
    exact ⟨_, h.push hinsert (h.grouped.push he hitems hp hnodup g.first_mem (.inr heq))⟩
  · refine ⟨_, h.start hinsert (h.grouped.start he hitems hp fun q hq hsame => ?_)⟩
    -- the first row of the group that holds `q` would have an equal value
    obtain ⟨g, hg, hfirst, hgq⟩ := h.grouped.exists_first hq
    rcases he.trans _ q p (hitems _ hfirst) (hitems q hq) hp hgq hsame with rfl | heq
    · exact (List.nodup_append.1 hnodup).2.2 _ hfirst _ List.mem_cons_self rfl
    · have hfalse := hne _ (List.mem_map.2 ⟨g, hg, rfl⟩)
      rw [groupValue, heq] at hfalse
      contradiction

end PipeQuery.Query
