import PipeQuery.Proofs.Expr.Printing
import PipeQuery.Expr.Eval

/-!
# Evaluation but for positions

Positions in a tree are read in errors only.  Two outcomes are `Alike` if they are the
same result, or errors with the same cause; they may differ in where the cause stands.
What goes on alike from alike outcomes is alike (`Alike.bind`), and by that a tree and
the tree with all positions at the beginning evaluate alike (`eval_unplaced`).
-/

namespace PipeQuery.Expr

variable {α β : Type}

/-! ## Outcomes but for positions -/

/-- Two outcomes are the same result, or errors with the same cause. -/
def Alike (x y : Except Error α) : Prop := x.mapError Error.cause = y.mapError Error.cause

namespace Alike

variable {x y : Except Error α} {f g : α → Except Error β}

theorem refl (x : Except Error α) : Alike x x := rfl

theorem of_cause {e e' : Error} (h : e.cause = e'.cause) :
    Alike (.error e : Except Error α) (.error e') := congrArg Except.error h

theorem eq_ok {a : α} (h : Alike x (.ok a)) : x = .ok a := by
  cases x with
  | error e => cases h
  | ok b => exact congrArg Except.ok (Except.ok.inj h)

theorem eq_error {e : Error} (h : Alike x (.error e)) :
    ∃ e', x = .error e' ∧ e'.cause = e.cause := by
  cases x with
  | error e' => exact ⟨e', rfl, Except.error.inj h⟩
  | ok b => cases h

/-- What goes on alike from alike outcomes is alike. -/
theorem bind (h : Alike x y) (hf : ∀ a, Alike (f a) (g a)) : Alike (x >>= f) (y >>= g) := by
  cases x with
  | error e =>
    cases y with
    | error e' => exact of_cause (Except.error.inj h)
    | ok b => cases h
  | ok a =>
    cases y with
    | error e' => cases h
    | ok b =>
      obtain rfl : a = b := Except.ok.inj h
      exact hf a

theorem map {f : α → β} (h : Alike x y) : Alike (x.map f) (y.map f) := by
  cases x with
  | error e =>
    cases y with
    | error e' => exact of_cause (Except.error.inj h)
    | ok b => cases h
  | ok a =>
    cases y with
    | error e' => cases h
    | ok b =>
      obtain rfl : a = b := Except.ok.inj h
      rfl

theorem mapM {f g : α → Except Error β} (h : ∀ a, Alike (f a) (g a)) (xs : List α) :
    Alike (xs.mapM f) (xs.mapM g) := by
  induction xs with
  | nil => exact .refl _
  | cons a xs ih =>
    rw [List.mapM_cons, List.mapM_cons]
    exact (h a).bind fun b => ih.bind fun bs => .refl _

end Alike

/-! ## Predicates, selectors and patterns -/

theorem filterFrom_alike {test test' : Value → Except Error (Option Value)}
    (h : ∀ v, Alike (test v) (test' v)) (length i : Nat) (items : List Value) :
    Alike (filterFrom test length i items) (filterFrom test' length i items) := by
  induction items generalizing i with
  | nil => exact .refl _
  | cons v rest ih =>
    rw [filterFrom, filterFrom]
    exact (h v).bind fun a => (ih (i + 1)).bind fun others => .refl _

theorem Node.selector?_unplaced (x : Node) : x.unplaced.selector? = x.selector? := by
  cases x with
  | condition test yes no => cases no <;> rw [unplaced] <;> rfl
  | _ => rw [unplaced] <;> rfl

theorem Node.regex?_unplaced (x : Node) : x.unplaced.regex? = x.regex? := by
  cases x with
  | condition test yes no => cases no <;> rw [unplaced] <;> rfl
  | _ => rw [unplaced] <;> rfl

theorem Node.isPath_unplaced (x : Node) : x.unplaced.isPath = x.isPath := by
  cases x with
  | condition test yes no => cases no <;> rw [unplaced] <;> rfl
  | _ => rw [unplaced] <;> rfl

/-! ## What can fail at a position -/

theorem negatedValue_alike (v : Option Value) (p q : Nat) :
    Alike (negatedValue v p) (negatedValue v q) := by
  rcases v with _ | v
  · rfl
  · cases v <;> rfl

theorem compared_alike (accepts : Ordering → Bool) (a b : Value) (p q : Nat) :
    Alike (compared accepts a b p) (compared accepts a b q) := by
  cases a <;> cases b <;> rfl

theorem computed_alike (op : Arithmetic) (a b : Value) (p q : Nat) :
    Alike (computed op a b p) (computed op a b q) := by
  unfold computed
  split
  · dsimp only
    split <;> rfl
  · rfl

theorem apply_alike (op : BinaryOp) (a b : Option Value) (p q : Nat) :
    Alike (op.apply a b p) (op.apply a b q) := by
  unfold BinaryOp.apply
  split <;> try exact .refl _
  split
  · split
    · exact compared_alike _ _ _ _ _
    · exact computed_alike _ _ _ _ _
    · exact .refl _
  · exact .refl _

theorem callFunction_alike (name : String) (arguments : List Argument) (context : Value)
    (p q : Nat) : Alike (callFunction name arguments context p)
      (callFunction name arguments context q) := by
  unfold callFunction
  split
  · exact .of_cause rfl
  · rename_i f _
    cases f.apply ⟨arguments, context⟩ <;> rfl

/-! ## Trees -/

mutual

/-- A tree evaluates as it does without its positions. -/
theorem eval_unplaced (root : Value) :
    (x : Node) → (v : Value) → Alike (eval root x v) (eval root x.unplaced v)
  | .number n, v => .refl _
  | .string s, v => .refl _
  | .boolean b, v => .refl _
  | .null, v => .refl _
  | .regex _, _ => .refl _
  | .name field, v => .refl _
  | .wildcard, v => .refl _
  | .context, v => .refl _
  | .root, _ => .refl _
  | .path steps, v => by
    rw [Node.unplaced, eval, eval]
    exact (evalSteps_unplaced root steps [v] false).bind fun _ => .refl _
  | .array nodes, v => by
    rw [Node.unplaced, eval, eval]
    exact (evalItems_unplaced root nodes v).bind fun _ => .refl _
  | .object nodes, v => by
    rw [Node.unplaced, eval, eval]
    exact (evalPairs_unplaced root nodes v []).bind fun _ => .refl _
  | .negate operand position, v => by
    rw [Node.unplaced, eval, eval]
    exact (eval_unplaced root operand v).bind fun _ => negatedValue_alike _ _ _
  | .binary op left right position, v => by
    rw [Node.unplaced, eval, eval]
    refine (eval_unplaced root left v).bind fun a => ?_
    cases op.settled? a with
    | some b => exact .refl _
    | none => exact (eval_unplaced root right v).bind fun b => apply_alike _ _ _ _ _
  | .condition test yes none, v => by
    rw [Node.unplaced, eval, eval]
    refine (eval_unplaced root test v).bind fun a => ?_
    cases Value.present a with
    | true => exact eval_unplaced root yes v
    | false => exact .refl _
  | .condition test yes (some no), v => by
    rw [Node.unplaced, eval, eval]
    refine (eval_unplaced root test v).bind fun a => ?_
    cases Value.present a with
    | true => exact eval_unplaced root yes v
    | false => exact eval_unplaced root no v
  | .call name nodes position, v => by
    rw [Node.unplaced, eval, eval]
    exact (evalArguments_unplaced root nodes v).bind fun _ => callFunction_alike _ _ _ _ _

theorem evalSteps_unplaced (root : Value) :
    (steps : List Step) → (items : List Value) → (keepArray : Bool) →
      Alike (evalSteps root steps items keepArray)
        (evalSteps root (unplacedSteps steps) items keepArray)
  | [], _, _ => .refl _
  | .mk x predicates keep :: rest, items, keepArray => by
    rw [unplacedSteps, evalSteps, evalSteps, Node.selector?_unplaced]
    refine Alike.bind (.mapM (fun item => ?_) items) fun next => evalSteps_unplaced root rest _ _
    cases x.selector? with
    | some select => exact evalPredicates_unplaced root predicates (select item)
    | none =>
      exact (eval_unplaced root x item).map.bind fun found =>
        evalPredicates_unplaced root predicates found

theorem evalPredicates_unplaced (root : Value) :
    (predicates : List Node) → (items : List Value) →
      Alike (evalPredicates root predicates items)
        (evalPredicates root (unplacedItems predicates) items)
  | [], _ => .refl _
  | predicate :: rest, items => by
    rw [unplacedItems, evalPredicates, evalPredicates]
    exact (filterFrom_alike (fun v => eval_unplaced root predicate v) _ _ _).bind fun kept =>
      evalPredicates_unplaced root rest kept

theorem evalItems_unplaced (root : Value) :
    (nodes : List Node) → (v : Value) →
      Alike (evalItems root nodes v) (evalItems root (unplacedItems nodes) v)
  | [], _ => .refl _
  | x :: rest, v => by
    rw [unplacedItems, evalItems, evalItems, Node.isPath_unplaced]
    exact (eval_unplaced root x v).bind fun a =>
      (evalItems_unplaced root rest v).bind fun _ => .refl _

theorem evalPairs_unplaced (root : Value) :
    (pairs : List (Node × Node)) → (v : Value) → (entries : Entries Value) →
      Alike (evalPairs root pairs v entries) (evalPairs root (unplacedPairs pairs) v entries)
  | [], _, _ => .refl _
  | (key, value) :: rest, v, entries => by
    rw [unplacedPairs, evalPairs, evalPairs]
    refine (eval_unplaced root key v).bind fun k => ?_
    split
    · refine (eval_unplaced root value v).bind fun a => ?_
      cases a with
      | some w => exact evalPairs_unplaced root rest v _
      | none => exact evalPairs_unplaced root rest v _
    · exact .of_cause rfl

theorem evalArguments_unplaced (root : Value) :
    (nodes : List Node) → (v : Value) →
      Alike (evalArguments root nodes v) (evalArguments root (unplacedItems nodes) v)
  | [], _ => .refl _
  | x :: rest, v => by
    rw [unplacedItems, evalArguments, evalArguments, Node.regex?_unplaced]
    cases x.regex? with
    | some r => exact (evalArguments_unplaced root rest v).bind fun _ => .refl _
    | none =>
      exact (eval_unplaced root x v).map.bind fun argument =>
        (evalArguments_unplaced root rest v).bind fun _ => .refl _

end

/-! ## At the top -/

/-- The value that goes on from the top is the value of the tree, or `null` if it has none. -/
theorem evalTree_toValue (x : Node) (v : Value) :
    (evalTree x v).map Outcome.toValue = (eval v x v).map (·.getD .null) := by
  cases x with
  | path steps =>
    rw [evalTree, eval]
    cases evalSteps v steps [v] false with
    | error e => rfl
    | ok found =>
      obtain ⟨items, keepArray⟩ := found
      cases keepArray with
      | true => simp [bind, Except.bind, pure, Except.pure, Except.map, Outcome.toValue]
      | false =>
        match items with
        | [] => rfl
        | [w] => rfl
        | _ :: _ :: _ => rfl
  | _ =>
    rw [evalTree]
    · cases eval v _ v <;> rfl
    · simp

end PipeQuery.Expr
