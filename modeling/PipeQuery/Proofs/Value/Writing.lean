import PipeQuery.Proofs.Value.Step

/-!
# Writing at a path

A path is blocked in a value (`Blocked`) if it comes to an array that has no place for
its next segment, or if there is no container to begin with.  Anything else that is in
the way gives way: what is missing is made, and a scalar becomes an object.

* `set_all_or_nothing`: a write at a blocked path changes nothing at all, and after any
  other write the path leads to what was written.  The last of several writes counts,
  and writing what is there changes nothing.
* `set_keeps_beside`: paths that part from the written one (`Path.Diverge`) lead to what
  they led to before, or to nothing as before.
* `find?_setAll`: of writes at paths that part from each other none undoes or hinders
  another, so that in the end each path leads to what was written at it.

`blocked_cons_iff` follows a blocked path by one step, as writing does.
-/

namespace PipeQuery

/-! ## Paths that part -/

namespace Path

variable {p q : Path} {s t : Segment}

/-- The paths part: at some place both have a segment, with keys that differ, and before it the
keys are the same. -/
def Diverge (p q : Path) : Prop :=
  ∃ (i : Nat) (hp : i < p.length) (hq : i < q.length),
    p[i].key ≠ q[i].key ∧ (p.take i).map Segment.key = (q.take i).map Segment.key

theorem not_diverge_nil_left : ¬ Diverge [] q := by
  rintro ⟨i, hp, -⟩
  exact Nat.not_lt_zero i hp

theorem not_diverge_nil_right : ¬ Diverge p [] := by
  rintro ⟨i, -, hq, -⟩
  exact Nat.not_lt_zero i hq

theorem Diverge.symm (h : Diverge p q) : Diverge q p := by
  obtain ⟨i, hp, hq, hne, hsame⟩ := h
  exact ⟨i, hq, hp, hne.symm, hsame.symm⟩

theorem ne_nil_of_diverge (h : Diverge p q) : q ≠ [] := by
  rintro rfl
  exact not_diverge_nil_right h

/-- Paths part at the first step or behind it. -/
theorem diverge_cons_iff :
    Diverge (s :: p) (t :: q) ↔ s.key ≠ t.key ∨ s.key = t.key ∧ Diverge p q := by
  constructor
  · rintro ⟨i, hp, hq, hne, hsame⟩
    cases i with
    | zero => exact .inl hne
    | succ i =>
      obtain ⟨hkey, hsame⟩ := List.cons.inj hsame
      exact .inr ⟨hkey, i, Nat.lt_of_succ_lt_succ hp, Nat.lt_of_succ_lt_succ hq, hne, hsame⟩
  · rintro (hne | ⟨hkey, i, hp, hq, hne, hsame⟩)
    · exact ⟨0, Nat.zero_lt_succ _, Nat.zero_lt_succ _, hne, rfl⟩
    · refine ⟨i + 1, Nat.succ_lt_succ hp, Nat.succ_lt_succ hq, hne, ?_⟩
      rw [List.take_succ_cons, List.take_succ_cons, List.map_cons, List.map_cons, hkey, hsame]

instance decidableDiverge : ∀ p q : Path, Decidable (Diverge p q)
  | [], _ => isFalse not_diverge_nil_left
  | _ :: _, [] => isFalse not_diverge_nil_right
  | _ :: p, _ :: q =>
    have := decidableDiverge p q
    decidable_of_iff' _ diverge_cons_iff

end Path

namespace Value

variable {v w x : Value} {segment : Segment} {path rest : Path}

/-! ## Blocked paths -/

/-- The array has no place for the segment: it is a field, or an index beyond the end. -/
inductive Misses (items : List Value) : Segment → Prop where
  /-- An array has no fields. -/
  | field (name : String) : Misses items (.field name)
  /-- Behind the last item there is one place more, but no others. -/
  | index {i : Nat} (h : items.length < i) : Misses items (.index i)

/-- Followed through the containers that are there, the path comes with segments left to a place
where it cannot go on. -/
inductive Blocked (v : Value) : Path → Prop where
  /-- There is no container to begin with. -/
  | root (segment : Segment) (rest : Path) (h : v.isContainer = false) :
      Blocked v (segment :: rest)
  /-- An array has no place for the next segment. -/
  | array (front : Path) {segment : Segment} (rest : Path) {items : List Value}
      (hfind : v.find? front = some (.array items)) (h : Misses items segment) :
      Blocked v (front ++ segment :: rest)

theorem not_takes_iff :
    ¬ v.Takes segment
      ↔ v.isContainer = false ∨ ∃ items, v = .array items ∧ Misses items segment := by
  cases v with
  | array items =>
    cases segment with
    | field name => exact ⟨fun _ => .inr ⟨items, rfl, .field name⟩, fun _ => id⟩
    | index i =>
      constructor
      · intro h
        exact .inr ⟨items, rfl, .index (Nat.lt_of_not_le h)⟩
      · rintro (h | ⟨_, heq, hmiss⟩)
        · cases h
        · cases heq
          cases hmiss with
          | index hlt => exact Nat.not_le_of_lt hlt
  | object entries =>
    constructor
    · intro h
      exact absurd trivial h
    · rintro (h | ⟨_, h, -⟩) <;> cases h
  | _ => exact ⟨fun _ => .inl rfl, fun _ => id⟩

theorem not_blocked_nil : ¬ Blocked v [] := by
  generalize hpath : ([] : Path) = path
  rintro (_ | ⟨front⟩)
  · cases hpath
  · cases front <;> cases hpath

theorem not_blocked_empty : ¬ Blocked (.object []) path := by
  intro h
  cases h with
  | root segment rest h => cases h
  | array front rest hfind h =>
    cases front with
    | nil => cases hfind
    | cons segment front => cases hfind

/-- Where a path is blocked below a step there is something at the step: in a new object nothing
is in the way. -/
theorem child?_of_blocked_under (h : Blocked (v.under segment) rest) :
    v.child? segment = some (v.under segment) := by
  rcases under_cases v segment with hchild | hempty
  · exact hchild
  · rw [hempty] at h
    exact absurd h not_blocked_empty

/-- A path is blocked by its first step or below it, as writing goes on. -/
theorem blocked_cons_iff :
    Blocked v (segment :: rest) ↔ ¬ v.Takes segment ∨ Blocked (v.under segment) rest := by
  constructor
  · generalize hpath : segment :: rest = path
    intro h
    cases h with
    | root first rest h =>
      cases hpath
      exact .inl (not_takes_iff.2 (.inl h))
    | array front rest hfind h =>
      cases front with
      | nil =>
        cases hpath
        cases hfind
        exact .inl (not_takes_iff.2 (.inr ⟨_, rfl, h⟩))
      | cons first front =>
        cases hpath
        obtain ⟨u, hu, hfind⟩ := Option.bind_eq_some_iff.1 hfind
        rw [under_of_child? hu (isContainer_of_find? hfind rfl)]
        exact .inr (.array front rest hfind h)
  · rintro (h | h)
    · rcases not_takes_iff.1 h with hroot | ⟨items, rfl, hmiss⟩
      · exact .root segment rest hroot
      · exact .array [] rest rfl hmiss
    · have hchild := child?_of_blocked_under h
      cases h with
      | root first rest hroot =>
        rw [under, isContainer_orObject] at hroot
        cases hroot
      | array front rest hfind h =>
        refine .array (segment :: front) rest ?_ h
        rw [find?_cons, hchild]
        exact hfind

instance decidableBlocked : ∀ (v : Value) (path : Path), Decidable (Blocked v path)
  | _, [] => isFalse not_blocked_nil
  | v, segment :: rest =>
    have := decidableBlocked (v.under segment) rest
    decidable_of_iff' _ blocked_cons_iff

/-! ## All or nothing -/

/-- A write at a blocked path changes nothing. -/
theorem set_of_blocked (h : Blocked v path) (x : Value) : v.set path x = v := by
  induction path generalizing v with
  | nil => exact absurd h not_blocked_nil
  | cons segment rest ih =>
    rcases blocked_cons_iff.1 h with htakes | hbelow
    · exact set_cons_of_not_takes htakes x
    · have hchild := child?_of_blocked_under hbelow
      rw [set_cons_of_takes (takes_of_child? hchild), ih hbelow, put_child? hchild]

/-- After a write at a path that is not blocked, the path leads to what was written. -/
theorem find?_set (h : ¬ Blocked v path) (x : Value) : (v.set path x).find? path = some x := by
  induction path generalizing v with
  | nil => simp [set, find?]
  | cons segment rest ih =>
    rw [blocked_cons_iff, not_or, not_not] at h
    obtain ⟨htakes, hbelow⟩ := h
    rw [set_cons_of_takes htakes, find?_cons, child?_put_self htakes]
    exact ih hbelow

/-- A path that leads somewhere is not blocked. -/
theorem not_blocked_of_find? (h : v.find? path = some w) : ¬ Blocked v path := by
  induction path generalizing v with
  | nil => exact not_blocked_nil
  | cons segment rest ih =>
    obtain ⟨u, hu, hfind⟩ := Option.bind_eq_some_iff.1 h
    rw [blocked_cons_iff, not_or, not_not]
    refine ⟨takes_of_child? hu, ?_⟩
    cases rest with
    | nil => exact not_blocked_nil
    | cons next rest =>
      obtain ⟨t, ht, -⟩ := Option.bind_eq_some_iff.1 hfind
      rw [under_of_child? hu (isContainer_of_child? ht)]
      exact ih hfind

theorem isContainer_set_cons (v : Value) (segment : Segment) (rest : Path) (x : Value) :
    (v.set (segment :: rest) x).isContainer = v.isContainer := by
  by_cases htakes : v.Takes segment
  · rw [set_cons_of_takes htakes, isContainer_put]
  · rw [set_cons_of_not_takes htakes]

theorem set_orObject_set (h : v.isContainer = true) (path : Path) (x y : Value) :
    (v.set path x).orObject.set path y = (v.set path x).set path y := by
  cases path with
  | nil => simp [set]
  | cons segment rest =>
    rw [orObject_of_isContainer]
    rw [isContainer_set_cons, h]

/-- Of two writes at a path the second counts. -/
theorem set_set (v : Value) (path : Path) (x y : Value) :
    (v.set path x).set path y = v.set path y := by
  induction path generalizing v with
  | nil => simp [set]
  | cons segment rest ih =>
    by_cases htakes : v.Takes segment
    · have htakes' : (v.put segment ((v.under segment).set rest x)).Takes segment :=
        takes_of_child? (child?_put_self htakes _)
      have hunder : (v.under segment).isContainer = true := isContainer_orObject _
      rw [set_cons_of_takes htakes, set_cons_of_takes htakes', under_put htakes,
        set_orObject_set hunder, ih, put_put htakes, set_cons_of_takes htakes]
    · rw [set_cons_of_not_takes htakes]

/-- Writing what a path leads to changes nothing. -/
theorem set_of_find? (h : v.find? path = some x) : v.set path x = v := by
  induction path generalizing v with
  | nil =>
    cases h
    simp [set]
  | cons segment rest ih =>
    obtain ⟨w, hw, hfind⟩ := Option.bind_eq_some_iff.1 h
    have hset : (v.under segment).set rest x = w := by
      cases rest with
      | nil =>
        cases hfind
        simp [set]
      | cons next rest =>
        obtain ⟨u, hu, -⟩ := Option.bind_eq_some_iff.1 hfind
        rw [under_of_child? hw (isContainer_of_child? hu)]
        exact ih hfind
    rw [set_cons_of_takes (takes_of_child? hw), hset, put_child? hw]

/-- A write is done or not done: at a blocked path it changes nothing, and after any other the path
leads to what was written.  A second write at the path puts all of the first right, and writing
what is there changes nothing, the order of keys included. -/
theorem set_all_or_nothing (v : Value) (path : Path) (x y : Value) :
    (Blocked v path → v.set path x = v)
      ∧ (¬ Blocked v path → (v.set path x).find? path = some x)
      ∧ (v.set path x).set path y = v.set path y
      ∧ (v.find? path = some x → v.set path x = v) :=
  ⟨fun h => set_of_blocked h x, fun h => find?_set h x, set_set v path x y, set_of_find?⟩

/-- An array with one item takes a new one with whatever is made inside it, but no item behind
that one. -/
theorem set_all_or_nothing_append :
    Blocked (.object [("items", .array [.null])]) [.field "items", .index 2, .field "k"]
      ∧ (Value.object [("items", .array [.null])]).set [.field "items", .index 2, .field "k"] .null
        = .object [("items", .array [.null])]
      ∧ ¬ Blocked (.object [("items", .array [.null])]) [.field "items", .index 1, .field "k"]
      ∧ ((Value.object [("items", .array [.null])]).set [.field "items", .index 1, .field "k"]
          (.boolean true)).find? [.field "items", .index 1, .field "k"] = some (.boolean true) := by
  have hblocked :
      Blocked (.object [("items", .array [.null])]) [.field "items", .index 2, .field "k"] := by
    decide
  have hopen :
      ¬ Blocked (.object [("items", .array [.null])]) [.field "items", .index 1, .field "k"] := by
    decide
  exact ⟨hblocked, (set_all_or_nothing _ _ .null .null).1 hblocked, hopen,
    (set_all_or_nothing _ _ (.boolean true) .null).2.1 hopen⟩

/-! ## Beside the path -/

/-- What a write does to a path that parts from its own: the path leads to what it led to before, or
to nothing as before, and is not blocked if it was not. -/
theorem set_beside {p q : Path} (h : Path.Diverge p q) (v x : Value) :
    (v.set p x).find? q = v.find? q ∧ (Blocked (v.set p x) q → Blocked v q) := by
  induction p generalizing v q with
  | nil => exact absurd h Path.not_diverge_nil_left
  | cons segment p ih =>
    cases q with
    | nil => exact absurd h Path.not_diverge_nil_right
    | cons other q =>
      by_cases htakes : v.Takes segment
      · rw [set_cons_of_takes htakes, find?_cons, find?_cons, blocked_cons_iff, blocked_cons_iff]
        have hplace : ¬ (v.put segment ((v.under segment).set p x)).Takes other →
            ¬ v.Takes other := mt fun hother => takes_put htakes hother _
        rcases child?_put_cases htakes ((v.under segment).set p x) other with
          ⟨hput, hsame, hkey⟩ | hput
        · -- the other segment is the same step, so the paths part behind it
          have hrest := ((Path.diverge_cons_iff.1 h).resolve_left (not_not_intro hkey)).2
          obtain ⟨hfind, hblocked⟩ := ih hrest (v.under segment)
          obtain ⟨next, q, rfl⟩ := List.exists_cons_of_ne_nil (Path.ne_nil_of_diverge hrest)
          obtain ⟨first, p, rfl⟩ := List.exists_cons_of_ne_nil (Path.ne_nil_of_diverge hrest.symm)
          have hcontainer : ((v.under segment).set (first :: p) x).isContainer = true := by
            rw [isContainer_set_cons]
            exact isContainer_orObject _
          rw [under_of_child? hput hcontainer, under_congr hsame, hput, hsame, ← find?_under]
          exact ⟨hfind, Or.imp hplace hblocked⟩
        · -- it leads elsewhere, if need be in spite of its key
          rw [hput, under_congr hput]
          exact ⟨rfl, Or.imp_left hplace⟩
      · rw [set_cons_of_not_takes htakes]
        exact ⟨rfl, id⟩

/-- A write changes nothing beside its path: a path that parts from it leads to what it led to
before, or to nothing as before. -/
theorem set_keeps_beside (v x : Value) {p q : Path} (h : Path.Diverge p q) :
    (v.set p x).find? q = v.find? q :=
  (set_beside h v x).1

/-- The number beside which a key is written gives way to an object, and there is no other key in
either. -/
theorem set_keeps_beside_scalar :
    Path.Diverge [.field "a", .field "b"] [.field "a", .field "c"]
      ∧ ((Value.object [("a", .number .zero)]).set [.field "a", .field "b"] .null).find?
          [.field "a", .field "c"]
        = (Value.object [("a", .number .zero)]).find? [.field "a", .field "c"] := by
  have h : Path.Diverge [.field "a", .field "b"] [.field "a", .field "c"] :=
    ⟨1, by decide, by decide, by decide, by decide⟩
  exact ⟨h, set_keeps_beside _ .null h⟩

/-! ## Several writes -/

/-- The value with something else at several paths, which are written one after the other. -/
def setAll (v : Value) (writes : List (Path × Value)) : Value :=
  writes.foldl (fun v w => v.set w.1 w.2) v

variable {writes : List (Path × Value)}

theorem setAll_keeps_beside {q : Path} (h : ∀ w ∈ writes, Path.Diverge w.1 q) (v : Value) :
    (v.setAll writes).find? q = v.find? q := by
  induction writes generalizing v with
  | nil => rfl
  | cons w writes ih =>
    obtain ⟨hw, hwrites⟩ := List.forall_mem_cons.1 h
    exact (ih hwrites _).trans (set_beside hw v w.2).1

/-- Writes at paths that part from each other, none of them blocked, leave each path leading to what
was written at it. -/
theorem find?_setAll (hapart : writes.Pairwise fun a b => Path.Diverge a.1 b.1)
    (hopen : ∀ w ∈ writes, ¬ Blocked v w.1) :
    ∀ w ∈ writes, (v.setAll writes).find? w.1 = some w.2 := by
  induction writes generalizing v with
  | nil => exact List.forall_mem_nil _
  | cons w writes ih =>
    obtain ⟨hfirst, hlater⟩ := List.pairwise_cons.1 hapart
    obtain ⟨hw, hwrites⟩ := List.forall_mem_cons.1 hopen
    refine List.forall_mem_cons.2 ⟨?_, ih hlater fun u hu => ?_⟩
    · have hbeside := setAll_keeps_beside (fun u hu => (hfirst u hu).symm) (v.set w.1 w.2)
      exact hbeside.trans (find?_set hw w.2)
    · exact mt (set_beside (hfirst u hu) v w.2).2 (hwrites u hu)

end Value

end PipeQuery
