import PipeQuery.Proofs.Value.Writing

/-!
# Removing at a path

A removal takes out what reading finds, and nothing else changes: the container that
held it loses the one entry or item (`Loses`), and all around this container stays as
it was (`ChangedAt`).  `remove_takes_out` says this of all paths and values, and that
removing undoes a write at a vacant place (`Vacant`): at a key that an object does not
have, or behind the last item of an array.
-/

namespace PipeQuery.Value

variable {v w u u' x : Value} {segment : Segment} {path parent rest : Path}

/-! ## What changes -/

/-- The second container is the first one without what it held at the segment, the others in their
order. -/
inductive Loses (segment : Segment) (x : Value) : Value → Value → Prop where
  /-- An object loses an entry. -/
  | entry {front : Entries Value} (back : Entries Value) (h : segment.key ∉ front.keys) :
      Loses segment x (.object (front ++ (segment.key, x) :: back)) (.object (front ++ back))
  /-- An array loses an item. -/
  | item {front : List Value} (back : List Value) (h : segment = .index front.length) :
      Loses segment x (.array (front ++ x :: back)) (.array (front ++ back))

/-- The values are the same but at the path, where the first is `u` and the second `u'`. -/
inductive ChangedAt (u u' : Value) : Path → Value → Value → Prop where
  /-- The values themselves. -/
  | here : ChangedAt u u' [] u u'
  /-- What is held under a key. -/
  | entry {segment : Segment} {rest : Path} {c c' : Value} {front : Entries Value}
      (back : Entries Value) (h : segment.key ∉ front.keys) (hrest : ChangedAt u u' rest c c') :
      ChangedAt u u' (segment :: rest) (.object (front ++ (segment.key, c) :: back))
        (.object (front ++ (segment.key, c') :: back))
  /-- An item. -/
  | item {rest : Path} {c c' : Value} (front back : List Value)
      (hrest : ChangedAt u u' rest c c') :
      ChangedAt u u' (.index front.length :: rest) (.array (front ++ c :: back))
        (.array (front ++ c' :: back))

/-- A place behind what the container holds: a key that an object does not have, or the index that
is the length of an array. -/
inductive Vacant : Value → Segment → Prop where
  /-- A key that is not there. -/
  | entry {segment : Segment} {entries : Entries Value} (h : segment.key ∉ entries.keys) :
      Vacant (.object entries) segment
  /-- The place behind the last item. -/
  | item (items : List Value) : Vacant (.array items) (.index items.length)

/-! ## One step -/

theorem loses_without (h : v.child? segment = some x) :
    Loses segment x v (v.without segment) := by
  cases v with
  | object entries =>
    obtain ⟨front, back, rfl, hfront⟩ := Entries.exists_append_of_get? h
    rw [without, Entries.erase_middle hfront]
    exact .entry back hfront
  | array items =>
    cases segment with
    | field name => cases h
    | index i =>
      obtain ⟨front, back, rfl, rfl⟩ := exists_middle (show items[i]? = some x from h)
      rw [without, eraseIdx_middle]
      exact .item back rfl
  | _ => cases h

theorem changedAt_put {c c' : Value} (h : v.child? segment = some c)
    (hrest : ChangedAt u u' rest c c') :
    ChangedAt u u' (segment :: rest) v (v.put segment c') := by
  cases v with
  | object entries =>
    obtain ⟨front, back, rfl, hfront⟩ := Entries.exists_append_of_get? h
    rw [put, Entries.insert_middle hfront]
    exact .entry back hfront hrest
  | array items =>
    cases segment with
    | field name => cases h
    | index i =>
      obtain ⟨front, back, rfl, rfl⟩ := exists_middle (show items[i]? = some c from h)
      have hput : (Value.array (front ++ c :: back)).put (.index front.length) c'
          = .array (front ++ c' :: back) := by simp [put]
      rw [hput]
      exact .item front back hrest
  | _ => cases h

theorem takes_of_vacant (h : Vacant v segment) : v.Takes segment := by
  cases h with
  | entry h => exact trivial
  | item items => exact Nat.le_refl _

theorem isContainer_of_vacant (h : Vacant v segment) : v.isContainer = true := by
  cases h <;> rfl

theorem without_put_of_vacant (h : Vacant v segment) (x : Value) :
    (v.put segment x).without segment = v := by
  cases h with
  | entry h => exact congrArg Value.object (Entries.erase_insert_of_not_mem h)
  | item items =>
    refine congrArg Value.array ?_
    rw [List.take_length, List.drop_eq_nil_of_le (Nat.le_succ _), eraseIdx_middle,
      List.append_nil]

/-! ## Paths -/

theorem remove?_singleton (segment : Segment) (v : Value) :
    v.remove? [segment] = (v.child? segment).map fun x => (x, v.without segment) := by
  rw [remove?_cons, Option.map_eq_bind]
  rfl

theorem remove?_cons_concat (segment last : Segment) (parent : Path) (v : Value) :
    v.remove? (segment :: (parent ++ [last])) = (v.child? segment).bind fun c =>
      (c.remove? (parent ++ [last])).map fun (removed, left) => (removed, v.put segment left) := by
  rw [remove?_cons]
  simp

/-- A removal takes out what reading finds, or nothing. -/
theorem map_fst_remove? (last : Segment) (parent : Path) (v : Value) :
    (v.remove? (parent ++ [last])).map Prod.fst = v.find? (parent ++ [last]) := by
  induction parent generalizing v with
  | nil =>
    rw [List.nil_append, remove?_singleton, find?_cons, Option.map_map]
    cases v.child? last <;> rfl
  | cons segment parent ih =>
    rw [List.cons_append, remove?_cons_concat, find?_cons, Option.map_bind]
    refine Option.bind_congr fun c _ => ?_
    rw [← ih c, Function.comp_apply, Option.map_map]
    rfl

/-- A removal that finds something changes the parent of the path, and nothing else. -/
theorem changedAt_of_remove? {last : Segment} {left : Value}
    (h : v.remove? (parent ++ [last]) = some (x, left)) :
    ∃ u u', Loses last x u u' ∧ ChangedAt u u' parent v left := by
  induction parent generalizing v left with
  | nil =>
    rw [List.nil_append, remove?_singleton, Option.map_eq_some_iff] at h
    obtain ⟨c, hc, heq⟩ := h
    cases heq
    exact ⟨v, v.without last, loses_without hc, .here⟩
  | cons segment parent ih =>
    rw [List.cons_append, remove?_cons_concat, Option.bind_eq_some_iff] at h
    obtain ⟨c, hc, hmap⟩ := h
    obtain ⟨⟨removed, left⟩, hremove, heq⟩ := Option.map_eq_some_iff.1 hmap
    cases heq
    obtain ⟨u, u', hloses, hchanged⟩ := ih hremove
    exact ⟨u, u', hloses, changedAt_put hc hchanged⟩

/-- Removing what was written at a vacant place restores the value. -/
theorem remove?_set {last : Segment} (hfind : v.find? parent = some u) (hu : Vacant u last)
    (x : Value) : (v.set (parent ++ [last]) x).remove? (parent ++ [last]) = some (x, v) := by
  induction parent generalizing v with
  | nil =>
    cases hfind
    have htakes := takes_of_vacant hu
    have hset : u.set [last] x = u.put last x := by
      rw [set_cons_of_takes htakes]
      simp [set]
    rw [List.nil_append, hset, remove?_singleton, child?_put_self htakes,
      Option.map_some, without_put_of_vacant hu]
  | cons segment parent ih =>
    obtain ⟨c, hc, hfind⟩ := Option.bind_eq_some_iff.1 hfind
    have htakes := takes_of_child? hc
    have hunder : v.under segment = c :=
      under_of_child? hc (isContainer_of_find? hfind (isContainer_of_vacant hu))
    rw [List.cons_append, remove?_cons_concat, set_cons_of_takes htakes, hunder,
      child?_put_self htakes, Option.bind_some, ih hfind, Option.map_some]
    show some (x, (v.put segment _).put segment c) = some (x, v)
    rw [put_put htakes, put_child? hc]

/-- A removal takes out what the path leads to: of its parent the one entry or item, and nothing
else; where the path leads to nothing, nothing changes.  What is written at a vacant place is taken
out again without a trace.  The path here is its parent and a last segment; the empty path removes
nothing. -/
theorem remove_takes_out (v x : Value) (parent : Path) (last : Segment) :
    (v.remove? (parent ++ [last])).map Prod.fst = v.find? (parent ++ [last])
      ∧ (v.find? (parent ++ [last]) = none → v.remove (parent ++ [last]) = v)
      ∧ (v.find? (parent ++ [last]) = some x →
          ∃ u u', Loses last x u u' ∧ ChangedAt u u' parent v (v.remove (parent ++ [last])))
      ∧ (∀ u, v.find? parent = some u → Vacant u last →
          (v.set (parent ++ [last]) x).remove? (parent ++ [last]) = some (x, v))
      ∧ v.remove? [] = none ∧ v.remove [] = v := by
  have hfst := map_fst_remove? last parent v
  refine ⟨hfst, ?_, ?_, fun u hfind hu => remove?_set hfind hu x, ?_, ?_⟩
  · intro hnone
    rw [hnone, Option.map_eq_none_iff] at hfst
    rw [remove, hfst]
  · intro hsome
    rw [hsome, Option.map_eq_some_iff] at hfst
    obtain ⟨⟨_, left⟩, hremove, rfl⟩ := hfst
    rw [remove, hremove]
    exact changedAt_of_remove? hremove
  · rw [remove?]
  · rw [remove, remove?]

/-- The items behind the one that is taken out move up, and what was appended is taken off. -/
theorem remove_takes_out_item :
    (Value.object [("a", .array [.null, .boolean true])]).find? [.field "a", .index 0] = some .null
      ∧ (∃ u u', Loses (.index 0) .null u u'
        ∧ ChangedAt u u' [.field "a"] (.object [("a", .array [.null, .boolean true])])
          ((Value.object [("a", .array [.null, .boolean true])]).remove [.field "a", .index 0]))
      ∧ Vacant (.array [.null, .boolean true]) (.index 2)
      ∧ ((Value.object [("a", .array [.null, .boolean true])]).set [.field "a", .index 2]
          (.boolean false)).remove? [.field "a", .index 2]
        = some (.boolean false, .object [("a", .array [.null, .boolean true])]) := by
  have hfind :
      (Value.object [("a", .array [.null, .boolean true])]).find? [.field "a", .index 0]
        = some .null := rfl
  have hvacant : Vacant (.array [.null, .boolean true]) (.index 2) := .item _
  exact ⟨hfind, (remove_takes_out _ _ [.field "a"] (.index 0)).2.2.1 hfind, hvacant,
    (remove_takes_out _ _ [.field "a"] (.index 2)).2.2.2.1 _ rfl hvacant⟩

end PipeQuery.Value
