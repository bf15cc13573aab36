import PipeQuery.Sorting

/-!
# Sorted lists

What sorting gives: `pairwise_sortStable` says that no item stands behind one that
it has to precede, `filter_sortStable` that items none of which has to precede
another keep their order, and `sortStable_eq_self` that items in order stay as they
are.  Only the first needs the comparison to be transitive.

Sorting compares the items with each other only (`sortStable_congr`).

Order and ties leave no choice: lists in order are the same if items that tie are in the
same order in both (`eq_of_tiesWith_eq`).  So sorting by a second comparison and then by
a first is sorting by both at once (`sortStable_sortStable`).
-/

namespace PipeQuery

open Std

variable {α : Type} {before before' : α → α → Bool} {x : α} {ys items sorted : List α}

/-- The items put into a falling list, one after the other. -/
def insertAllFalling (before : α → α → Bool) (items sorted : List α) : List α :=
  items.foldl (fun sorted x => insertFalling before x sorted) sorted

theorem sortStable_eq (items : List α) :
    sortStable before items = (insertAllFalling before items []).reverse := rfl

theorem insertAllFalling_cons (x : α) (items sorted : List α) :
    insertAllFalling before (x :: items) sorted
      = insertAllFalling before items (insertFalling before x sorted) := rfl

theorem mem_insertFalling {z : α} : z ∈ insertFalling before x ys ↔ z = x ∨ z ∈ ys :=
  (insertFalling_perm before x ys).mem_iff.trans List.mem_cons

/-! ## Order -/

section Order

variable {cmp : α → α → Ordering} [TransCmp cmp]

theorem pairwise_insertFalling (h : ys.Pairwise fun a b => (cmp b a).isLE) :
    (insertFalling (fun a b => cmp a b == .lt) x ys).Pairwise fun a b => (cmp b a).isLE := by
  induction ys with
  | nil => exact List.pairwise_singleton _ _
  | cons y ys ih =>
    obtain ⟨hy, hys⟩ := List.pairwise_cons.1 h
    unfold insertFalling
    split
    next hlt =>
      have hxy : (cmp x y).isLE := Ordering.isLE_of_eq_lt (eq_of_beq hlt)
      refine List.pairwise_cons.2 ⟨fun z hz => ?_, ih hys⟩
      rcases mem_insertFalling.1 hz with rfl | hz
      · exact hxy
      · exact hy z hz
    next hlt =>
      have hyx : (cmp y x).isLE := by
        refine OrientedCmp.isLE_of_isGE (Ordering.isGE_iff_ne_lt.2 ?_)
        simpa using hlt
      refine List.pairwise_cons.2 ⟨fun z hz => ?_, h⟩
      rcases List.mem_cons.1 hz with rfl | hz
      · exact hyx
      · exact TransCmp.isLE_trans (hy z hz) hyx

theorem pairwise_insertAllFalling (items : List α)
    (h : sorted.Pairwise fun a b => (cmp b a).isLE) :
    (insertAllFalling (fun a b => cmp a b == .lt) items sorted).Pairwise
      fun a b => (cmp b a).isLE := by
  induction items generalizing sorted with
  | nil => exact h
  | cons x items ih => exact ih (pairwise_insertFalling h)

/-- Sorted items are in order. -/
theorem pairwise_sortStable (items : List α) :
    (sortStable (fun a b => cmp a b == .lt) items).Pairwise fun a b => (cmp a b).isLE :=
  List.pairwise_reverse.2 (pairwise_insertAllFalling items .nil)

end Order

/-! ## Ties -/

section Ties

variable {p : α → Bool}

theorem filter_insertFalling (hp : ∀ a b, p a → p b → before a b = false) :
    (insertFalling before x ys).filter p = (x :: ys).filter p := by
  induction ys with
  | nil => rfl
  | cons y ys ih =>
    unfold insertFalling
    split
    next hxy =>
      -- one of the two that change places is not looked at
      have hne : ¬(p x ∧ p y) := by
        rintro ⟨hx, hy⟩
        rw [hp x y hx hy] at hxy
        contradiction
      rw [List.filter_cons, ih]
      cases hx : p x <;> cases hy : p y <;> simp_all
    next => rfl

theorem filter_insertAllFalling (hp : ∀ a b, p a → p b → before a b = false)
    (items sorted : List α) :
    (insertAllFalling before items sorted).filter p
      = (items.filter p).reverse ++ sorted.filter p := by
  induction items generalizing sorted with
  | nil => rfl
  | cons x items ih =>
    rw [insertAllFalling_cons, ih, filter_insertFalling hp]
    cases hx : p x <;> simp [hx]

/-- Items that need not precede each other keep their order. -/
theorem filter_sortStable (hp : ∀ a b, p a → p b → before a b = false) (items : List α) :
    (sortStable before items).filter p = items.filter p := by
  rw [sortStable_eq, List.filter_reverse, filter_insertAllFalling hp, List.filter_nil,
    List.append_nil, List.reverse_reverse]

end Ties

theorem insertAllFalling_eq_reverse (hitems : items.Pairwise fun a b => before b a = false)
    (hsorted : ∀ x ∈ items, ∀ y ∈ sorted, before x y = false) :
    insertAllFalling before items sorted = items.reverse ++ sorted := by
  induction items generalizing sorted with
  | nil => rfl
  | cons x items ih =>
    obtain ⟨hx, hitems⟩ := List.pairwise_cons.1 hitems
    have hinsert : insertFalling before x sorted = x :: sorted := by
      cases sorted with
      | nil => rfl
      | cons y ys => simp [insertFalling, hsorted x (by simp) y (by simp)]
    have hnext : ∀ z ∈ items, ∀ y ∈ x :: sorted, before z y = false := by
      intro z hz y hy
      rcases List.mem_cons.1 hy with rfl | hy
      · exact hx z hz
      · exact hsorted z (List.mem_cons_of_mem _ hz) y hy
    rw [insertAllFalling_cons, hinsert, ih hitems hnext]
    simp

/-- Items in order stay as they are. -/
theorem sortStable_eq_self (h : items.Pairwise fun a b => before b a = false) :
    sortStable before items = items := by
  rw [sortStable_eq, insertAllFalling_eq_reverse h (by simp), List.append_nil,
    List.reverse_reverse]

/-! ## Comparisons -/

theorem insertFalling_congr (h : ∀ y ∈ ys, before x y = before' x y) :
    insertFalling before x ys = insertFalling before' x ys := by
  induction ys with
  | nil => rfl
  | cons y ys ih =>
    obtain ⟨hy, hys⟩ := List.forall_mem_cons.1 h
    simp only [insertFalling, hy, ih hys]

theorem insertAllFalling_congr
    (h : ∀ x ∈ items, ∀ y, y ∈ items ∨ y ∈ sorted → before x y = before' x y) :
    insertAllFalling before items sorted = insertAllFalling before' items sorted := by
  induction items generalizing sorted with
  | nil => rfl
  | cons x items ih =>
    obtain ⟨hx, hitems⟩ := List.forall_mem_cons.1 h
    rw [insertAllFalling_cons, insertAllFalling_cons,
      insertFalling_congr fun y hy => hx y (.inr hy)]
    refine ih fun z hz y hy => hitems z hz y ?_
    rcases hy with hy | hy
    · exact .inl (List.mem_cons_of_mem _ hy)
    · rcases mem_insertFalling.1 hy with rfl | hy
      · exact .inl List.mem_cons_self
      · exact .inr hy

/-- Only how the items compare with each other matters. -/
theorem sortStable_congr (h : ∀ x ∈ items, ∀ y ∈ items, before x y = before' x y) :
    sortStable before items = sortStable before' items := by
  rw [sortStable_eq, sortStable_eq, insertAllFalling_congr]
  intro x hx y hy
  rcases hy with hy | hy
  · exact h x hx y hy
  · cases hy

/-! ## Several passes -/

section Passes

variable {cmp cmp' : α → α → Ordering} {xs : List α}

/-- The items of a list that tie with one. -/
def tiesWith (cmp : α → α → Ordering) (x : α) (xs : List α) : List α :=
  xs.filter fun a => cmp x a == .eq

theorem tiesWith_cons_of_tie {y : α} (h : cmp x y = .eq) :
    tiesWith cmp x (y :: ys) = y :: tiesWith cmp x ys :=
  List.filter_cons_of_pos (beq_iff_eq.2 h)

theorem tiesWith_compareLex (x : α) (xs : List α) :
    tiesWith (compareLex cmp cmp') x xs = tiesWith cmp' x (tiesWith cmp x xs) := by
  unfold tiesWith
  rw [List.filter_filter]
  refine List.filter_congr fun a _ => ?_
  rw [compareLex, Bool.eq_iff_iff, Bool.and_eq_true, beq_iff_eq, beq_iff_eq, beq_iff_eq,
    Ordering.then_eq_eq, and_comm]

theorem tiesWith_comm (x : α) (xs : List α) :
    tiesWith cmp' x (tiesWith cmp x xs) = tiesWith cmp x (tiesWith cmp' x xs) := by
  unfold tiesWith
  rw [List.filter_filter, List.filter_filter]
  exact List.filter_congr fun a _ => Bool.and_comm _ _

variable [TransCmp cmp]

theorem tiesWith_sortStable (x : α) (items : List α) :
    tiesWith cmp x (sortStable (fun a b => cmp a b == .lt) items) = tiesWith cmp x items := by
  refine filter_sortStable (fun a b ha hb => ?_) items
  have hab : cmp a b = .eq :=
    (TransCmp.congr_left (eq_of_beq ha)).symm.trans (eq_of_beq hb)
  rw [hab]
  rfl

theorem mem_of_tiesWith_eq (h : ∀ a, tiesWith cmp a xs = tiesWith cmp a ys) (hx : x ∈ xs) :
    x ∈ ys := by
  have hself : x ∈ tiesWith cmp x xs :=
    List.mem_filter.2 ⟨hx, beq_iff_eq.2 ReflCmp.compare_self⟩
  rw [h] at hself
  exact (List.mem_filter.1 hself).1

theorem isLE_head (h : (x :: xs).Pairwise fun a b => (cmp a b).isLE) {a : α} (ha : a ∈ x :: xs) :
    (cmp x a).isLE := by
  rcases List.mem_cons.1 ha with rfl | ha
  · exact ReflCmp.isLE_rfl
  · exact (List.pairwise_cons.1 h).1 a ha

/-- Lists in order are the same if for every item those that tie with it are the same. -/
theorem eq_of_tiesWith_eq (hxs : xs.Pairwise fun a b => (cmp a b).isLE)
    (hys : ys.Pairwise fun a b => (cmp a b).isLE)
    (h : ∀ a, tiesWith cmp a xs = tiesWith cmp a ys) : xs = ys := by
  induction xs generalizing ys with
  | nil =>
    refine (List.eq_nil_iff_forall_not_mem.2 fun y hy => ?_).symm
    exact List.not_mem_nil (mem_of_tiesWith_eq (fun a => (h a).symm) hy)
  | cons x xs ih =>
    cases ys with
    | nil => exact absurd (mem_of_tiesWith_eq h List.mem_cons_self) List.not_mem_nil
    | cons y ys =>
      -- each list begins with an item of the other, so that the two first items tie
      have hxy : (cmp x y).isLE :=
        isLE_head hxs (mem_of_tiesWith_eq (fun a => (h a).symm) List.mem_cons_self)
      have hyx : (cmp y x).isLE := isLE_head hys (mem_of_tiesWith_eq h List.mem_cons_self)
      have htie : cmp x y = .eq := OrientedCmp.isLE_antisymm hxy hyx
      have hheads := h x
      rw [tiesWith_cons_of_tie ReflCmp.compare_self, tiesWith_cons_of_tie htie] at hheads
      obtain ⟨rfl, -⟩ := List.cons.inj hheads
      have htails : ∀ a, tiesWith cmp a xs = tiesWith cmp a ys := by
        intro a
        have ha := h a
        rw [tiesWith, tiesWith, List.filter_cons, List.filter_cons] at ha
        split at ha
        · exact (List.cons.inj ha).2
        · exact ha
      rw [ih hxs.of_cons hys.of_cons htails]

/-- What is in order by a second comparison where a first one ties is in order by both. -/
theorem pairwise_compareLex (h : xs.Pairwise fun a b => (cmp a b).isLE)
    (hties : ∀ a, (tiesWith cmp a xs).Pairwise fun a b => (cmp' a b).isLE) :
    xs.Pairwise fun a b => (compareLex cmp cmp' a b).isLE := by
  refine List.pairwise_iff_forall_sublist.2 fun {a b} hab => ?_
  have hle : (cmp a b).isLE := List.pairwise_iff_forall_sublist.1 h hab
  refine Ordering.isLE_then_iff_and.2 ⟨hle, ?_⟩
  cases hcmp : cmp a b with
  | lt => exact .inl rfl
  | eq =>
    have hpair : tiesWith cmp a [a, b] = [a, b] := by
      rw [tiesWith_cons_of_tie ReflCmp.compare_self, tiesWith_cons_of_tie hcmp]
      rfl
    have hsub : [a, b].Sublist (tiesWith cmp a xs) := by
      rw [← hpair]
      exact hab.filter _
    exact .inr (List.pairwise_iff_forall_sublist.1 (hties a) hsub)
  | gt =>
    rw [hcmp] at hle
    contradiction

/-- Sorting by a second comparison and then by a first is sorting by the first and, where that
ties, by the second. -/
theorem sortStable_sortStable [TransCmp cmp'] (items : List α) :
    sortStable (fun a b => cmp a b == .lt) (sortStable (fun a b => cmp' a b == .lt) items)
      = sortStable (fun a b => compareLex cmp cmp' a b == .lt) items := by
  have hsorted : (sortStable (fun a b => cmp a b == .lt)
      (sortStable (fun a b => cmp' a b == .lt) items)).Pairwise
        fun a b => (compareLex cmp cmp' a b).isLE := by
    refine pairwise_compareLex (pairwise_sortStable _) fun a => ?_
    rw [tiesWith_sortStable]
    exact (pairwise_sortStable items).filter _
  refine eq_of_tiesWith_eq hsorted (pairwise_sortStable items) fun a => ?_
  calc tiesWith (compareLex cmp cmp') a (sortStable (fun a b => cmp a b == .lt)
        (sortStable (fun a b => cmp' a b == .lt) items))
      = tiesWith cmp' a (tiesWith cmp a (sortStable (fun a b => cmp' a b == .lt) items)) := by
        rw [tiesWith_compareLex, tiesWith_sortStable]
    _ = tiesWith cmp a (tiesWith cmp' a items) := by
        rw [tiesWith_comm, tiesWith_sortStable]
    _ = tiesWith (compareLex cmp cmp') a items := by
        rw [tiesWith_compareLex, tiesWith_comm]
    _ = tiesWith (compareLex cmp cmp') a
        (sortStable (fun a b => compareLex cmp cmp' a b == .lt) items) :=
        (tiesWith_sortStable a items).symm

end Passes

end PipeQuery
