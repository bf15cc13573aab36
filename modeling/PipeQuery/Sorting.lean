/-!
# Stable sorting

Items are taken in turn and each is put behind the last of those before it that
it does not have to precede.  Items that tie keep their order.
-/

namespace PipeQuery

/-- Puts `x` into a list in falling order, before the first item that it need not precede. -/
def insertFalling {α : Type} (before : α → α → Bool) (x : α) : List α → List α
  | [] => [x]
  | y :: ys => if before x y then y :: insertFalling before x ys else x :: y :: ys

/-- The items in rising order, where `before x y` says that `x` has to precede `y`. -/
def sortStable {α : Type} (before : α → α → Bool) (items : List α) : List α :=
  (items.foldl (fun sorted x => insertFalling before x sorted) []).reverse

theorem insertFalling_perm {α : Type} (before : α → α → Bool) (x : α) (ys : List α) :
    (insertFalling before x ys).Perm (x :: ys) := by
  induction ys with
  | nil => exact List.Perm.refl _
  | cons y ys ih =>
    unfold insertFalling
    split
    · exact (List.Perm.cons y ih).trans (List.Perm.swap x y ys)
    · exact List.Perm.refl _

/-- Sorting rearranges. -/
theorem sortStable_perm {α : Type} (before : α → α → Bool) (items : List α) :
    (sortStable before items).Perm items := by
  have h : ∀ (items sorted : List α),
      (items.foldl (fun sorted x => insertFalling before x sorted) sorted).Perm
        (items ++ sorted) := by
    intro items
    induction items with
    | nil => exact fun _ => List.Perm.refl _
    | cons x xs ih =>
      intro sorted
      refine (ih _).trans ?_
      refine ((insertFalling_perm before x sorted).append_left xs).trans ?_
      exact List.perm_middle
  unfold sortStable
  refine (List.reverse_perm _).trans ?_
  simpa using h items []

end PipeQuery
