import PipeQuery.Proofs.Expr.Selectors

/-!
# Parentheses around the beginning of a path

In parentheses a path is put into one value, and a step from that value takes an array apart
again.  This loses how deep the items were: a single item that is itself an array is spread
out, while several arrays stay whole.  `grouped_path_means_the_same` says that nothing
can tell the difference as long as the steps behind only select.  A selection from an array
is the selections from its items, one after another (`Node.reach_array`), and so it does
not matter to the first step behind the parentheses whether an array comes whole or as its
items.
-/

namespace PipeQuery

namespace Value

theorem selectItems_eq (field : String) (items : List Value) :
    selectItems field items = items.flatMap (select field) := by
  induction items with
  | nil => rw [selectItems, List.flatMap_nil]
  | cons v rest ih => rw [selectItems, ih, List.flatMap_cons]

theorem selectAllItems_eq (items : List Value) :
    selectAllItems items = items.flatMap selectAll := by
  induction items with
  | nil => rw [selectAllItems, List.flatMap_nil]
  | cons v rest ih => rw [selectAllItems, ih, List.flatMap_cons]

end Value

namespace Expr

variable {x : Node} {p q : List Step} {v : Value} {items : List Value}

/-! ## Arrays -/

/-- What is selected from an array is what is selected from its items. -/
theorem Node.reach_array (hx : x.isSelector = true) (items : List Value) :
    x.reach (.array items) = items.flatMap x.reach := by
  cases x with
  | name field =>
    show Value.select field (.array items) = items.flatMap (Value.select field)
    rw [Value.select, Value.selectItems_eq]
  | wildcard =>
    show Value.selectAll (.array items) = items.flatMap Value.selectAll
    rw [Value.selectAll, Value.selectAllItems_eq]
  | _ => cases hx

theorem Node.flatMap_spread (hx : x.isSelector = true) (v : Value) :
    v.spread.flatMap x.reach = x.reach v := by
  cases v with
  | array items => exact (reach_array hx items).symm
  | _ => exact List.flatMap_singleton x.reach _

/-- Steps that select lead to the same from an array and from its items, if there is one. -/
theorem reached_spread (hq : q ≠ []) (h : ∀ st ∈ q, st.Selects) (v : Value) :
    reached q v.spread = reached q [v] := by
  obtain ⟨st, rest, rfl⟩ := List.exists_cons_of_ne_nil hq
  obtain ⟨⟨x, hx, rfl⟩, -⟩ := List.forall_mem_cons.1 h
  have hstep : v.spread.flatMap x.reach = [v].flatMap x.reach := by
    rw [Node.flatMap_spread hx, List.flatMap_singleton]
  show reached rest (v.spread.flatMap x.reach) = reached rest ([v].flatMap x.reach)
  rw [hstep]

/-- Steps that select lead to the same from items and from what is left of them when they have
been put into one value. -/
theorem reached_collapse (hq : q ≠ []) (h : ∀ st ∈ q, st.Selects) (items : List Value) :
    reached q (((Value.collapse items).map Value.spread).getD []) = reached q items := by
  match items with
  | [] => rfl
  | [v] => exact reached_spread hq h v
  | _ :: _ :: _ => rfl

/-! ## Grouped paths -/

theorem reached_append (p q : List Step) (items : List Value) :
    reached (p ++ q) items = reached q (reached p items) :=
  List.foldl_append

theorem evalSteps_grouped (hq : q ≠ []) (hp' : ∀ st ∈ p, st.Selects)
    (hq' : ∀ st ∈ q, st.Selects) (root v : Value) :
    evalSteps root (.mk (.path p) [] false :: q) [v] false
      = .ok (reached (p ++ q) [v], false) := by
  have hpath : eval root (.path p) v = .ok (Value.collapse (reached p [v])) := by
    rw [eval, evalSteps_selecting hp']
    rfl
  have hfirst : evalSteps root (.mk (.path p) [] false :: q) [v] false
      = evalSteps root q (((Value.collapse (reached p [v])).map Value.spread).getD []) false := by
    rw [evalSteps]
    simp [Node.selector?, hpath, evalPredicates, Except.map, bind, Except.bind, pure, Except.pure]
  rw [hfirst, evalSteps_selecting hq', reached_collapse hq hq', reached_append]

theorem evalTree_grouped (hq : q ≠ []) (hp' : ∀ st ∈ p, st.Selects) (hq' : ∀ st ∈ q, st.Selects)
    (v : Value) : evalTree (grouped p q) v = .ok (.ofItems (reached (p ++ q) [v])) := by
  have hall : ∀ st ∈ p ++ q, st.Selects := List.forall_mem_append.2 ⟨hp', hq'⟩
  rw [← evalTree_selecting hall, grouped, evalTree, evalTree, evalSteps_grouped hq hp' hq',
    evalSteps_selecting hall]

/-- Parentheses around the beginning of a path do not matter where all its steps only select: with
them and without them the path gives the same value or the same sequence.  This is so for the trees
of such paths, whatever their names are, and for their texts. -/
theorem grouped_path_means_the_same :
    (∀ p q : List Step, q ≠ [] → (∀ st ∈ p, st.Selects) → (∀ st ∈ q, st.Selects) → ∀ v : Value,
      ∃ outcome, evalTree (grouped p q) v = .ok outcome
        ∧ evalTree (.path (p ++ q)) v = .ok outcome)
      ∧ ∀ xs ys : List Selector, xs ≠ [] → ys ≠ [] → ∀ v : Value,
        ∃ outcome, evaluate ("(" ++ pathText xs ++ ")." ++ pathText ys) v = .ok outcome
          ∧ evaluate (pathText xs ++ "." ++ pathText ys) v = .ok outcome := by
  constructor
  · intro p q hq hp' hq' v
    have hall : ∀ st ∈ p ++ q, st.Selects := List.forall_mem_append.2 ⟨hp', hq'⟩
    exact ⟨_, evalTree_grouped hq hp' hq' v, evalTree_selecting hall v⟩
  · intro xs ys hxs hys v
    have hxs' := selects_of_mem_map xs
    have hys' := selects_of_mem_map ys
    have hall : ∀ st ∈ xs.map Selector.step ++ ys.map Selector.step, st.Selects :=
      List.forall_mem_append.2 ⟨hxs', hys'⟩
    refine ⟨.ofItems (reached (xs.map Selector.step ++ ys.map Selector.step) [v]), ?_, ?_⟩
    · rw [evaluate, parse_grouped hxs hys]
      exact evalTree_grouped (by simpa using hys) hxs' hys' v
    · have hne : xs ++ ys ≠ [] := List.append_ne_nil_of_left_ne_nil hxs ys
      rw [← pathText_append hxs hys, evaluate, parse_pathText hne, List.map_append]
      exact evalTree_selecting hall v

/-- A single item that is an array: in parentheses it comes as its items, and without them as a
whole. -/
theorem grouped_path_means_the_same_nested :
    ∃ v : Value, v = .object [("a", .object [("x", .array [.array
        [.object [("b c", .boolean true)], .object [("b c", .array [.null])]]])])]
      ∧ (∃ outcome, evaluate "(a.*).\x60b c\x60" v = .ok outcome
        ∧ evaluate "a.*.\x60b c\x60" v = .ok outcome)
      ∧ ∃ outcome, evalTree (grouped [.mk (.name "a") [] false, .mk .wildcard [] false]
          [.mk (.name "b c") [] false]) v = .ok outcome
        ∧ evalTree (.path ([.mk (.name "a") [] false, .mk .wildcard [] false]
          ++ [.mk (.name "b c") [] false])) v = .ok outcome := by
  obtain ⟨htree, htext⟩ := grouped_path_means_the_same
  have hp : ∀ st ∈ [Step.mk (.name "a") [] false, .mk .wildcard [] false], st.Selects :=
    List.forall_mem_cons.2 ⟨⟨_, rfl, rfl⟩, List.forall_mem_singleton.2 ⟨_, rfl, rfl⟩⟩
  have hq : ∀ st ∈ [Step.mk (.name "b c") [] false], st.Selects :=
    List.forall_mem_singleton.2 ⟨_, rfl, rfl⟩
  exact ⟨_, rfl, htext [.plain "a" (by decide) (by decide), .all]
    [.quoted "b c" (by decide) (by decide)] (List.cons_ne_nil _ _) (List.cons_ne_nil _ _) _,
    htree _ _ (List.cons_ne_nil _ _) hp hq _⟩

end Expr

end PipeQuery
