import PipeQuery.Expr.Function
import PipeQuery.Expr.Tree

/-!
# Values of expressions

`eval` gives the value of a node in a context, if it has one.  A path that leads
nowhere has none, and one that leads to several values has the array of them.

A step starts from each value the step before it led to.  Fields are looked up
through arrays, and where a step yields an array its items go on one by one
(`Value.select`, `spread`).  A predicate with a number keeps the item at that
position, any other the items for which it holds.

At the top a path is not put into one value: its values are an `Outcome.sequence`.
-/

namespace PipeQuery

namespace Value

/-- An array as its items, and any other value as one item. -/
def spread : Value → List Value
  | .array items => items
  | v => [v]

mutual

/-- What a field leads to; in an array, what it leads to in each item. -/
def select (field : String) : Value → List Value
  | .object entries => ((Entries.get? field entries).map spread).getD []
  | .array items => selectItems field items
  | _ => []

/-- What a field leads to in each of the items. -/
def selectItems (field : String) : List Value → List Value
  | [] => []
  | v :: rest => select field v ++ selectItems field rest

end

mutual

/-- What all fields lead to; in an array, what they lead to in each item. -/
def selectAll : Value → List Value
  | .object entries => entries.flatMap fun (_, v) => v.spread
  | .array items => selectAllItems items
  | _ => []

/-- What all fields lead to in each of the items. -/
def selectAllItems : List Value → List Value
  | [] => []
  | v :: rest => selectAll v ++ selectAllItems rest

end

/-- Several values as one: none is no value, and one is itself. -/
def collapse : List Value → Option Value
  | [] => none
  | [v] => some v
  | many => some (.array many)

/-- Whether the value holds, where it may be missing. -/
def present (v : Option Value) : Bool := v.any holds

end Value

namespace Expr

/-- What an expression leads to. -/
inductive Outcome where
  /-- A value. -/
  | value (v : Value)
  /-- The values of a path, and whether they are an array even if there is one only. -/
  | sequence (items : List Value) (keepArray : Bool)

/-- The value that goes on: a sequence as an array. -/
def Outcome.toValue : Outcome → Value
  | .value v => v
  | .sequence items _ => .array items

/-! ## Positions and predicates -/

/-- Whether a number means position `i` among `length` items; below zero it counts from the
end. -/
def selects (n : Number) (length i : Nat) : Bool :=
  let n := n.floor
  if n.less .zero then ((Number.ofNat length).add n).equals (.ofNat i)
  else n.equals (.ofNat i)

/-- The numbers that all items are, if there are any items. -/
def positions? (items : List Value) : Option (List Number) :=
  if items.isEmpty then none else items.mapM Value.asNumber?

/-- Whether a predicate with this value keeps the item at position `i`. -/
def keeps (test : Option Value) (length i : Nat) : Bool :=
  match test with
  | some (.number n) => selects n length i
  | some (.array items) =>
    match positions? items with
    | some ns => ns.any fun n => selects n length i
    | none => Value.present test
  | _ => Value.present test

/-- The items that a predicate keeps, the first of them at position `i` among `length`. -/
def filterFrom (test : Value → Except Error (Option Value)) (length : Nat) :
    (i : Nat) → List Value → Except Error (List Value)
  | _, [] => .ok []
  | i, v :: rest => do
    let kept := keeps (← test v) length i
    let others ← filterFrom test length (i + 1) rest
    return if kept then v :: others else others

/-! ## Operators -/

/-- The operation of arithmetic that an operator is. -/
def BinaryOp.arithmetic? : BinaryOp → Option Arithmetic
  | .add => some .add
  | .subtract => some .sub
  | .multiply => some .mul
  | .divide => some .div
  | .modulo => some .rem
  | _ => none

/-- Whether two values in this order satisfy a comparison. -/
def BinaryOp.accepts? : BinaryOp → Option (Ordering → Bool)
  | .less => some fun o => o == .lt
  | .lessEqual => some fun o => o != .gt
  | .greater => some fun o => o == .gt
  | .greaterEqual => some fun o => o != .lt
  | _ => none

/-- The comparison of two numbers or two texts. -/
def compared (accepts : Ordering → Bool) (a b : Value) (position : Nat) :
    Except Error (Option Value) :=
  match a, b with
  | .number _, .number _ | .string _, .string _ =>
    .ok (some (.boolean (accepts (a.compare b))))
  | _, _ => .error ⟨position, .cannotCompare a.typeName b.typeName⟩

/-- The result of arithmetic on two numbers, which has to be finite. -/
def computed (op : Arithmetic) (a b : Value) (position : Nat) : Except Error (Option Value) :=
  match a, b with
  | .number x, .number y =>
    let result := op.apply x y
    if result.isFinite then .ok (some (.number result)) else .error ⟨position, .outOfRange⟩
  | _, _ => .error ⟨position, .arithmetic a.typeName b.typeName⟩

/-- Whether the first value is among the items of the second, or is the second. -/
def isMember : Option Value → Option Value → Bool
  | some a, some (.array items) => items.any (·.equals a)
  | some a, some b => a.equals b
  | _, _ => false

/-- The text of a value that may be missing. -/
def spelledOption (v : Option Value) : String := (v.map Value.spelled).getD ""

/-- What an operator gives for the values of both its operands. -/
def BinaryOp.apply (op : BinaryOp) (left right : Option Value) (position : Nat) :
    Except Error (Option Value) :=
  match op with
  | .concat => .ok (some (.string (spelledOption left ++ spelledOption right)))
  | .equal =>
    .ok (some (.boolean (match left, right with
      | some a, some b => a.equals b
      | _, _ => false)))
  | .notEqual =>
    .ok (some (.boolean (match left, right with
      | some a, some b => !a.equals b
      | _, _ => false)))
  | .member => .ok (some (.boolean (isMember left right)))
  | .both => .ok (some (.boolean (Value.present left && Value.present right)))
  | .oneOf => .ok (some (.boolean (Value.present left || Value.present right)))
  | op =>
    match left, right with
    | some a, some b =>
      match op.accepts?, op.arithmetic? with
      | some accepts, _ => compared accepts a b position
      | none, some arithmetic => computed arithmetic a b position
      | none, none => .ok none
    | _, _ => .ok none

/-- Whether the value of the left operand settles the result, and with it the result. -/
def BinaryOp.settled? (op : BinaryOp) (left : Option Value) : Option Bool :=
  match op with
  | .both => if Value.present left then none else some false
  | .oneOf => if Value.present left then some true else none
  | _ => none

/-! ## Nodes -/

/-- The value of a call. -/
def callFunction (name : String) (arguments : List Argument) (context : Value) (position : Nat) :
    Except Error (Option Value) :=
  match Function.ofName? name with
  | none => .error ⟨position, .unknownFunction name⟩
  | some f =>
    (f.apply ⟨arguments, context⟩).mapError fun fault => ⟨position, .call name fault⟩

/-- The number with its sign turned. -/
def negatedValue (v : Option Value) (position : Nat) : Except Error (Option Value) :=
  match v with
  | none => .ok none
  | some (.number n) => .ok (some (.number n.neg))
  | some v => .error ⟨position, .cannotNegate v.typeName⟩

/-- What a step with this node leads to from a value, if the node selects fields. -/
def Node.selector? : Node → Option (Value → List Value)
  | .name field => some (Value.select field)
  | .wildcard => some Value.selectAll
  | _ => none

/-- Whether the values of a node go into an array one by one. -/
def Node.isPath : Node → Bool
  | .path _ => true
  | _ => false

/-- The pattern that a node is. -/
def Node.regex? : Node → Option Regex
  | .regex r => some r
  | _ => none

mutual

/-- The value of a node in a context, if it has one; `root` is the input of the whole
expression. -/
def eval (root : Value) : Node → Value → Except Error (Option Value)
  | .number n, _ => .ok (some (.number n))
  | .string s, _ => .ok (some (.string s))
  | .boolean b, _ => .ok (some (.boolean b))
  | .null, _ => .ok (some .null)
  | .regex _, _ => .error ⟨0, .strayRegex⟩
  | .name field, input => .ok (Value.collapse (input.select field))
  | .wildcard, input => .ok (Value.collapse input.selectAll)
  | .context, input => .ok (some input)
  | .root, _ => .ok (some root)
  | .path steps, input => do
    let (items, keepArray) ← evalSteps root steps [input] false
    return if keepArray then some (.array items) else Value.collapse items
  | .array nodes, input => do return some (.array (← evalItems root nodes input))
  | .object nodes, input => do return some (.object (← evalPairs root nodes input []))
  | .negate operand position, input => do negatedValue (← eval root operand input) position
  | .binary op left right position, input => do
    let a ← eval root left input
    match op.settled? a with
    | some b => return some (.boolean b)
    | none => op.apply a (← eval root right input) position
  | .condition test yes none, input => do
    if Value.present (← eval root test input) then eval root yes input else return none
  | .condition test yes (some no), input => do
    if Value.present (← eval root test input) then eval root yes input else eval root no input
  | .call name nodes position, input => do
    callFunction name (← evalArguments root nodes input) input position

/-- What steps lead to from the items, and whether one of them asks for an array. -/
def evalSteps (root : Value) : List Step → List Value → Bool → Except Error (List Value × Bool)
  | [], items, keepArray => .ok (items, keepArray)
  | .mk node predicates keep :: rest, items, keepArray => do
    let next ← items.mapM fun item => do
      let found ← match node.selector? with
        | some select => pure (select item)
        | none => (eval root node item).map fun v => (v.map Value.spread).getD []
      evalPredicates root predicates found
    evalSteps root rest next.flatten (keepArray || keep)

/-- The items that all predicates keep, each applied to what the one before it kept. -/
def evalPredicates (root : Value) : List Node → List Value → Except Error (List Value)
  | [], items => .ok items
  | predicate :: rest, items => do
    evalPredicates root rest (← filterFrom (eval root predicate) items.length 0 items)

/-- The items of an array; the values of a path go in one by one. -/
def evalItems (root : Value) : List Node → Value → Except Error (List Value)
  | [], _ => .ok []
  | node :: rest, input => do
    let v ← eval root node input
    let items := match v with
      | none => []
      | some v => if node.isPath then v.spread else [v]
    return items ++ (← evalItems root rest input)

/-- The entries of an object, after those there are already. -/
def evalPairs (root : Value) : List (Node × Node) → Value → Entries Value →
    Except Error (Entries Value)
  | [], _, entries => .ok entries
  | (key, value) :: rest, input, entries => do
    match ← eval root key input with
    | some (.string key) =>
      match ← eval root value input with
      | some v => evalPairs root rest input (entries.insert key v)
      | none => evalPairs root rest input entries
    | found => .error ⟨0, .keyNotString (found.map Value.typeName)⟩

/-- The arguments of a call. -/
def evalArguments (root : Value) : List Node → Value → Except Error (List Argument)
  | [], _ => .ok []
  | node :: rest, input => do
    let argument ← match node.regex? with
      | some r => pure (Argument.regex r)
      | none => (eval root node input).map .value
    return argument :: (← evalArguments root rest input)

end

/-- What a tree leads to from an input. -/
def evalTree (node : Node) (input : Value) : Except Error Outcome :=
  match node with
  | .path steps => do
    let (items, keepArray) ← evalSteps input steps [input] false
    if 1 < items.length || keepArray then return .sequence items keepArray
    else return .value (items.head?.getD .null)
  | node => do return .value ((← eval input node input).getD .null)

end Expr

end PipeQuery
