import Mathlib.Data.List.Forall2
import PipeQuery.Expr.Eval

/-!
# Calls on values

A node `Gives` a value in a context if it is evaluated there to it.  A call sees of its
arguments what they give and nothing else, so what a function makes of values is what its calls
give on all nodes with these values (`gives_call`).
-/

namespace PipeQuery.Expr

/-- The node has the value in the context `v`. -/
abbrev Gives (root v : Value) (x : Node) (w : Value) : Prop := eval root x v = .ok (some w)

variable {root v w : Value} {x y : Node} {nodes : List Node} {values : List Value} {s t : String}

theorem Gives.regex? (h : Gives root v x w) : x.regex? = none := by
  cases x with
  | regex r =>
    rw [Gives, eval] at h
    cases h
  | _ => rfl

theorem evalArguments_of_gives (h : List.Forall₂ (Gives root v) nodes values) :
    evalArguments root nodes v = .ok (values.map fun w => .value (some w)) := by
  induction h with
  | nil => rw [evalArguments]; rfl
  | cons hx _ ih =>
    rw [evalArguments, hx.regex?, hx, ih]
    rfl

/-- What a function makes of the values of its arguments. -/
theorem gives_call {name : String} {f : Function} (hf : Function.ofName? name = some f)
    (h : List.Forall₂ (Gives root v) nodes values)
    (hw : f.apply ⟨values.map fun w => .value (some w), v⟩ = .ok (some w)) (position : Nat) :
    Gives root v (.call name nodes position) w := by
  rw [Gives, eval, evalArguments_of_gives h]
  simp only [bind, Except.bind, callFunction, hf, hw]
  rfl

/-- Two texts one behind the other. -/
theorem gives_concat (hx : Gives root v x (.string s)) (hy : Gives root v y (.string t))
    (position : Nat) : Gives root v (.binary .concat x y position) (.string (s ++ t)) := by
  rw [Gives, eval, hx]
  simp only [bind, Except.bind, BinaryOp.settled?, hy]
  rfl

end PipeQuery.Expr
