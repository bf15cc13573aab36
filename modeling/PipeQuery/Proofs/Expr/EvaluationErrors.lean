import PipeQuery.Proofs.Expr.Progress
import PipeQuery.Expr.Eval

/-!
# Where evaluation fails

An evaluation that fails does so at a node, and its error stands where the node says that it comes
from, or at the beginning of the text where nodes of its kind do not say so.
-/

namespace PipeQuery.Expr

variable {α β : Type} {n : Nat}

/-! ## Outcomes -/

/-- An error, if any, stands before position `n`. -/
def FailsBefore (n : Nat) (x : Except Error α) : Prop :=
  Yields (fun e => e.position < n) (fun _ => True) x

namespace FailsBefore

theorem ok (a : α) : FailsBefore n (.ok a) := Yields.ok trivial

theorem error {e : Error} (h : e.position < n) : FailsBefore n (.error e : Except Error α) :=
  Yields.error h

theorem bind {x : Except Error α} {f : α → Except Error β} (h : FailsBefore n x)
    (hf : ∀ a, FailsBefore n (f a)) : FailsBefore n (x >>= f) :=
  Yields.bind h fun a _ => hf a

theorem map {x : Except Error α} {f : α → β} (h : FailsBefore n x) : FailsBefore n (x.map f) :=
  Yields.map h fun _ _ => trivial

theorem mapM {f : α → Except Error β} {xs : List α} (h : ∀ a, FailsBefore n (f a)) :
    FailsBefore n (xs.mapM f) := by
  induction xs with
  | nil => exact .ok []
  | cons a xs ih =>
    rw [List.mapM_cons]
    exact (h a).bind fun _ => ih.bind fun _ => .ok _

end FailsBefore

/-! ## Operators and calls -/

variable {position : Nat}

theorem negatedValue_failsBefore (h : position < n) (v : Option Value) :
    FailsBefore n (negatedValue v position) := by
  unfold negatedValue
  split
  · exact .ok _
  · exact .ok _
  · exact .error h

theorem compared_failsBefore (h : position < n) (accepts : Ordering → Bool) (a b : Value) :
    FailsBefore n (compared accepts a b position) := by
  unfold compared
  split
  · exact .ok _
  · exact .ok _
  · exact .error h

theorem computed_failsBefore (h : position < n) (op : Arithmetic) (a b : Value) :
    FailsBefore n (computed op a b position) := by
  unfold computed
  split
  · dsimp only
    split
    · exact .ok _
    · exact .error h
  · exact .error h

theorem apply_failsBefore (h : position < n) (op : BinaryOp) (a b : Option Value) :
    FailsBefore n (op.apply a b position) := by
  unfold BinaryOp.apply
  split
  case h_7 =>
    split
    · split
      · exact compared_failsBefore h _ _ _
      · exact computed_failsBefore h _ _ _
      · exact .ok _
    · exact .ok _
  all_goals exact .ok _

theorem callFunction_failsBefore (h : position < n) (name : String) (arguments : List Argument)
    (context : Value) : FailsBefore n (callFunction name arguments context position) := by
  unfold callFunction
  split
  · exact .error h
  · rename_i f _
    cases f.apply ⟨arguments, context⟩ with
    | error fault => exact .error h
    | ok v => exact .ok v

/-! ## Lists of nodes -/

variable {root : Value}

theorem filterFrom_failsBefore {test : Value → Except Error (Option Value)}
    (h : ∀ v, FailsBefore n (test v)) (length i : Nat) (items : List Value) :
    FailsBefore n (filterFrom test length i items) := by
  induction items generalizing i with
  | nil => exact .ok []
  | cons v rest ih =>
    rw [filterFrom]
    exact (h v).bind fun _ => (ih (i + 1)).bind fun _ => .ok _

theorem evalPredicates_failsBefore {predicates : List Node}
    (h : ∀ x ∈ predicates, ∀ v, FailsBefore n (eval root x v)) (items : List Value) :
    FailsBefore n (evalPredicates root predicates items) := by
  induction predicates generalizing items with
  | nil => exact .ok items
  | cons x rest ih =>
    obtain ⟨hx, hrest⟩ := List.forall_mem_cons.1 h
    rw [evalPredicates]
    exact (filterFrom_failsBefore hx _ _ _).bind fun kept => ih hrest kept

theorem evalSteps_failsBefore {steps : List Step}
    (h : ∀ st ∈ steps, ∀ part ∈ st.parts, ∀ v, FailsBefore n (eval root part.2 v))
    (items : List Value) (keepArray : Bool) :
    FailsBefore n (evalSteps root steps items keepArray) := by
  induction steps generalizing items keepArray with
  | nil => exact .ok (items, keepArray)
  | cons st rest ih =>
    obtain ⟨x, predicates, keep⟩ := st
    obtain ⟨hst, hrest⟩ := List.forall_mem_cons.1 h
    obtain ⟨hx, hpredicates⟩ := List.forall_mem_cons.1 hst
    have hpredicates : ∀ y ∈ predicates, ∀ v, FailsBefore n (eval root y v) :=
      fun y hy => hpredicates (.operand, y) (List.mem_map_of_mem hy)
    rw [evalSteps]
    refine (FailsBefore.mapM fun item => ?_).bind fun _ => ih hrest _ _
    cases x.selector? with
    | some select => exact evalPredicates_failsBefore hpredicates (select item)
    | none => exact (hx item).map.bind fun found => evalPredicates_failsBefore hpredicates found

theorem evalItems_failsBefore {nodes : List Node}
    (h : ∀ x ∈ nodes, ∀ v, FailsBefore n (eval root x v)) (v : Value) :
    FailsBefore n (evalItems root nodes v) := by
  induction nodes with
  | nil => exact .ok []
  | cons x rest ih =>
    obtain ⟨hx, hrest⟩ := List.forall_mem_cons.1 h
    rw [evalItems]
    exact (hx v).bind fun _ => (ih hrest).bind fun _ => .ok _

theorem evalArguments_failsBefore {nodes : List Node}
    (h : ∀ x ∈ nodes, ∀ v, FailsBefore n (eval root x v)) (v : Value) :
    FailsBefore n (evalArguments root nodes v) := by
  induction nodes with
  | nil => exact .ok []
  | cons x rest ih =>
    obtain ⟨hx, hrest⟩ := List.forall_mem_cons.1 h
    rw [evalArguments]
    cases x.regex? with
    | some r => exact (ih hrest).bind fun _ => .ok _
    | none => exact (hx v).map.bind fun _ => (ih hrest).bind fun _ => .ok _

/-- A key that is no text is an error at the beginning. -/
theorem evalPairs_failsBefore (hn : 0 < n) {pairs : List (Node × Node)}
    (h : ∀ x ∈ pairs, ∀ v, FailsBefore n (eval root x.1 v) ∧ FailsBefore n (eval root x.2 v))
    (v : Value) (entries : Entries Value) :
    FailsBefore n (evalPairs root pairs v entries) := by
  induction pairs generalizing entries with
  | nil => exact .ok entries
  | cons pair rest ih =>
    obtain ⟨key, value⟩ := pair
    obtain ⟨hpair, hrest⟩ := List.forall_mem_cons.1 h
    rw [evalPairs]
    refine (hpair v).1.bind fun found => ?_
    split
    · refine (hpair v).2.bind fun w => ?_
      cases w with
      | some w => exact ih hrest _
      | none => exact ih hrest entries
    · exact .error hn

/-! ## Trees -/

/-- A tree from a text fails in the text. -/
theorem eval_failsBefore (hn : 0 < n) {x : Node} (h : x.Placed n) (root v : Value) :
    FailsBefore n (eval root x v) := by
  have hx := h .operand
  clear h
  generalize Place.operand = place at hx
  induction hx generalizing v with
  | @mk place x hx _ ih =>
    cases x with
    | number k => exact .ok _
    | string s => exact .ok _
    | boolean b => exact .ok _
    | null => exact .ok _
    | regex r => exact .error hn
    | name field => exact .ok _
    | wildcard => exact .ok _
    | context => exact .ok _
    | root => exact .ok _
    | path steps =>
      rw [eval]
      refine (evalSteps_failsBefore (fun st hst part hpart v => ?_) _ _).bind fun _ => .ok _
      exact ih part (List.mem_flatMap.2 ⟨st, hst, hpart⟩) v
    | array nodes =>
      rw [eval]
      refine (evalItems_failsBefore (fun y hy v => ?_) v).bind fun _ => .ok _
      exact ih (.operand, y) (List.mem_map_of_mem hy) v
    | object pairs =>
      rw [eval]
      refine (evalPairs_failsBefore hn (fun y hy v => ⟨?_, ?_⟩) v []).bind fun _ => .ok _
      · exact ih (.operand, y.1) (List.mem_flatMap.2 ⟨y, hy, List.mem_cons_self⟩) v
      · exact ih (.operand, y.2) (List.mem_flatMap.2 ⟨y, hy, by simp⟩) v
    | negate operand position =>
      rw [eval]
      refine (ih (.operand, operand) List.mem_cons_self v).bind fun _ => ?_
      exact negatedValue_failsBefore (hx position rfl) _
    | binary op left right position =>
      rw [eval]
      refine (ih (.operand, left) List.mem_cons_self v).bind fun a => ?_
      cases op.settled? a with
      | some b => exact .ok _
      | none =>
        refine (ih (.operand, right) (by simp [Node.parts]) v).bind fun b => ?_
        exact apply_failsBefore (hx position rfl) op a b
    | condition test yes no =>
      have hyes := ih (.operand, yes) (by simp [Node.parts])
      cases no with
      | none =>
        rw [eval]
        refine (ih (.operand, test) List.mem_cons_self v).bind fun a => ?_
        split
        · exact hyes v
        · exact .ok _
      | some no =>
        rw [eval]
        refine (ih (.operand, test) List.mem_cons_self v).bind fun a => ?_
        split
        · exact hyes v
        · exact ih (.operand, no) (by simp [Node.parts]) v
    | call name nodes position =>
      rw [eval]
      refine (evalArguments_failsBefore (fun y hy v => ?_) v).bind fun arguments => ?_
      · exact ih (.operand, y) (List.mem_map_of_mem hy) v
      · exact callFunction_failsBefore (hx position rfl) name arguments v

theorem evalTree_failsBefore (hn : 0 < n) {x : Node} (h : x.Placed n) (v : Value) :
    FailsBefore n (evalTree x v) := by
  cases x with
  | path steps =>
    rw [evalTree]
    refine (evalSteps_failsBefore (fun st hst part hpart w => ?_) _ _).bind fun found => ?_
    · have hpart : part ∈ (Node.path steps).parts := List.mem_flatMap.2 ⟨st, hst, hpart⟩
      exact eval_failsBefore hn (h.parts part hpart) v w
    · dsimp only
      split <;> exact .ok _
  | _ =>
    rw [evalTree]
    · exact (eval_failsBefore hn h v v).bind fun _ => .ok _
    · simp

end PipeQuery.Expr
