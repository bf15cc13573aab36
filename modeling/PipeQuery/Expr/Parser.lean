import PipeQuery.Expr.Lexer
import PipeQuery.Expr.Tree
import PipeQuery.Regex.Parser

/-!
# Trees from expressions

Operators bind by level (`Level`): from the loosest to the tightest, `or`, `and`,
comparison, sums, products.  Looser than all is a condition, tighter than all are
a minus sign in front and then a path.  Operators of one level group to the left,
except that a comparison has no other comparison beside it.

Each parsing function takes what is ahead and gives what it read with what is
ahead behind it, which is less; the type `Parsed` says so, and every loop ends by
it.  `n` is the length of the whole text, which fixes positions.
-/

namespace PipeQuery.Expr

/-- What is ahead further on. -/
abbrev Behind (s : Ahead) := { t : Ahead // t.size < s.size }

/-- What is ahead here or further on. -/
abbrev From (s : Ahead) := { t : Ahead // t.size ≤ s.size }

/-- What is read, and what is ahead behind it. -/
abbrev Parsed (s : Ahead) (α : Type) := α × Behind s

namespace Ahead

/-- What is ahead behind a token. -/
def behind (n : Nat) (t : Token) (source rest : List Char) :
    Except Error (Behind (.token t source rest)) :=
  match h : next n rest with
  | .ok s => .ok ⟨s, Nat.lt_succ_of_le (size_next_le h)⟩
  | .error e => .error e

/-- Takes the first token if `read` finds something in it. -/
def accept {α : Type} (n : Nat) (s : Ahead) (read : Token → Option α) :
    Except Error (Option (Parsed s α)) :=
  match s with
  | .finished => .ok none
  | .token t source rest =>
    match read t with
    | none => .ok none
    | some a => (behind n t source rest).map fun s => some (a, s)

/-- Takes the first token if it is this one. -/
def acceptToken (n : Nat) (s : Ahead) (t : Token) : Except Error (Option (Behind s)) :=
  (s.accept n fun found => if found = t then some () else none).map (·.map (·.2))

/-- Takes the first token, which has to be this one. -/
def expect (n : Nat) (s : Ahead) (what : Expected) (t : Token) : Except Error (Behind s) := do
  match ← s.acceptToken n t with
  | some s => return s
  | none => .error ⟨s.position n, .expected what s.head?⟩

/-- Whether the first token is this one. -/
def startsWith (s : Ahead) (t : Token) : Bool := s.head? == some t

end Ahead

/-- The levels of operators between two operands. -/
inductive Level where
  | oneOf
  | both
  | comparison
  | sum
  | product
deriving DecidableEq

namespace Level

/-- The operator of this level that a token is. -/
def operator? : Level → Token → Option BinaryOp
  | .oneOf, .name "or" => some .oneOf
  | .both, .name "and" => some .both
  | .comparison, .equal => some .equal
  | .comparison, .notEqual => some .notEqual
  | .comparison, .less => some .less
  | .comparison, .lessEqual => some .lessEqual
  | .comparison, .greater => some .greater
  | .comparison, .greaterEqual => some .greaterEqual
  | .comparison, .name "in" => some .member
  | .sum, .plus => some .add
  | .sum, .minus => some .subtract
  | .sum, .ampersand => some .concat
  | .product, .star => some .multiply
  | .product, .slash => some .divide
  | .product, .percent => some .modulo
  | _, _ => none

/-- Whether operators of this level may follow one another. -/
def chains : Level → Bool
  | .comparison => false
  | _ => true

/-- How loose a level is. -/
def looseness : Level → Nat
  | .product => 0
  | .sum => 1
  | .comparison => 2
  | .both => 3
  | .oneOf => 4

theorem looseness_le (level : Level) : level.looseness ≤ 4 := by
  cases level <;> decide

end Level

/-- The node that a name is where an operand is expected. -/
def nameNode : String → Node
  | "true" => .boolean true
  | "false" => .boolean false
  | "null" => .null
  | field => .name field

/-- The pattern with its flags. -/
def regexNode (pattern flags : String) (position : Nat) : Except Error Node :=
  match flags.toList.find? fun c => c ≠ 'i' && c ≠ 'm' with
  | some c => .error ⟨position, .unknownFlag c⟩
  | none =>
    match Regex.parse? pattern (flags.toList.contains 'i') (flags.toList.contains 'm') with
    | some r => .ok (.regex r)
    | none => .error ⟨position, .invalidRegex⟩

/-- The pattern that a slash begins, and what is ahead behind it. -/
def regexOperand (n : Nat) (source rest : List Char) :
    Except Error (Parsed (.token .slash source rest) Node) :=
  let start := positionOf n source
  match h : regexAt start rest with
  | .error e => .error e
  | .ok (pattern, flags, after) =>
    match h' : next n after with
    | .error e => .error e
    | .ok s =>
      (regexNode pattern flags start).map fun node => (node, ⟨s,
        Nat.lt_succ_of_le (Nat.le_trans (size_next_le h') (Nat.le_of_lt (length_regexAt_lt h)))⟩)

mutual

/-- An expression. -/
def expression (n : Nat) (s : Ahead) : Except Error (Parsed s Node) := do
  let (test, ⟨s₁, h₁⟩) ← operators n .oneOf s
  match ← s₁.acceptToken n .question with
  | none => return (test, ⟨s₁, h₁⟩)
  | some ⟨s₂, h₂⟩ => do
    let (yes, ⟨s₃, h₃⟩) ← expression n s₂
    match ← s₃.acceptToken n .colon with
    | none => return (.condition test yes none, ⟨s₃, by omega⟩)
    | some ⟨s₄, h₄⟩ => do
      let (no, ⟨s₅, h₅⟩) ← expression n s₄
      return (.condition test yes (some no), ⟨s₅, by omega⟩)
termination_by 32 * s.size + 16
decreasing_by
  all_goals try simp only [Level.looseness]
  all_goals omega

/-- Operands with operators of a level, or a tighter one, between them. -/
def operators (n : Nat) (level : Level) (s : Ahead) : Except Error (Parsed s Node) := do
  let (left, ⟨s₁, h₁⟩) ← operand n level s
  let (node, ⟨s₂, h₂⟩) ← operatorsAfter n level left s₁
  return (node, ⟨s₂, by omega⟩)
termination_by 32 * s.size + 2 * level.looseness + 6

/-- An operand of operators of a level. -/
def operand (n : Nat) (level : Level) (s : Ahead) : Except Error (Parsed s Node) :=
  match level with
  | .oneOf => operators n .both s
  | .both => operators n .comparison s
  | .comparison => operators n .sum s
  | .sum => operators n .product s
  | .product => unary n s
termination_by 32 * s.size + 2 * level.looseness + 5
decreasing_by all_goals simp only [Level.looseness]; omega

/-- The operators of a level that follow an operand. -/
def operatorsAfter (n : Nat) (level : Level) (left : Node) (s : Ahead) :
    Except Error (Node × From s) := do
  match ← s.accept n level.operator? with
  | none => return (left, ⟨s, Nat.le_refl _⟩)
  | some (op, ⟨s₁, h₁⟩) => do
    let (right, ⟨s₂, h₂⟩) ← operand n level s₁
    let node := Node.binary op left right (s.position n)
    if level.chains then
      let (node, ⟨s₃, h₃⟩) ← operatorsAfter n level node s₂
      return (node, ⟨s₃, by omega⟩)
    else return (node, ⟨s₂, by omega⟩)
termination_by 32 * s.size
decreasing_by all_goals have := level.looseness_le; omega

/-- A path, perhaps with minus signs in front. -/
def unary (n : Nat) (s : Ahead) : Except Error (Parsed s Node) := do
  match ← s.acceptToken n .minus with
  | some ⟨s₁, h₁⟩ => do
    let (node, ⟨s₂, h₂⟩) ← unary n s₁
    return (node.negated (s.position n), ⟨s₂, by omega⟩)
  | none => path n s
termination_by 32 * s.size + 4

/-- Steps with points between them. -/
def path (n : Nat) (s : Ahead) : Except Error (Parsed s Node) := do
  let (first, ⟨s₁, h₁⟩) ← step n s
  let (rest, ⟨s₂, h₂⟩) ← stepsAfter n s₁
  return (Node.ofSteps first rest, ⟨s₂, by omega⟩)
termination_by 32 * s.size + 3

/-- The steps that follow a step. -/
def stepsAfter (n : Nat) (s : Ahead) : Except Error (List Step × From s) := do
  match ← s.acceptToken n .dot with
  | none => return ([], ⟨s, Nat.le_refl _⟩)
  | some ⟨s₁, h₁⟩ => do
    let (first, ⟨s₂, h₂⟩) ← step n s₁
    let (rest, ⟨s₃, h₃⟩) ← stepsAfter n s₂
    return (first :: rest, ⟨s₃, by omega⟩)
termination_by 32 * s.size

/-- A node with its predicates. -/
def step (n : Nat) (s : Ahead) : Except Error (Parsed s Step) := do
  let (node, ⟨s₁, h₁⟩) ← primary n s
  let (predicates, keepArray, ⟨s₂, h₂⟩) ← predicatesAfter n s₁
  return (.mk node predicates keepArray, ⟨s₂, by omega⟩)
termination_by 32 * s.size + 2

/-- The predicates that follow a node, and whether there are empty brackets among them. -/
def predicatesAfter (n : Nat) (s : Ahead) : Except Error (List Node × Bool × From s) := do
  match ← s.acceptToken n .openBracket with
  | none => return ([], false, ⟨s, Nat.le_refl _⟩)
  | some ⟨s₁, h₁⟩ => do
    if s₁.startsWith .closeBracket then
      let ⟨s₂, h₂⟩ ← s₁.expect n .closeBracket .closeBracket
      let (predicates, _, ⟨s₃, h₃⟩) ← predicatesAfter n s₂
      return (predicates, true, ⟨s₃, by omega⟩)
    else
      let (predicate, ⟨s₂, h₂⟩) ← expression n s₁
      let ⟨s₃, h₃⟩ ← s₂.expect n .closeBracket .closeBracket
      let (predicates, keepArray, ⟨s₄, h₄⟩) ← predicatesAfter n s₃
      return (predicate :: predicates, keepArray, ⟨s₄, by omega⟩)
termination_by 32 * s.size

/-- A single operand. -/
def primary (n : Nat) (s : Ahead) : Except Error (Parsed s Node) :=
  match s with
  | .finished => .error ⟨n, .unexpected none⟩
  | .token t source rest =>
    let start := positionOf n source
    match t with
    | .number k => (Ahead.behind n _ source rest).map fun s => (.number k, s)
    | .string x => (Ahead.behind n _ source rest).map fun s => (.string x, s)
    | .name x => (Ahead.behind n _ source rest).map fun s => (nameNode x, s)
    | .star => (Ahead.behind n _ source rest).map fun s => (.wildcard, s)
    | .variable x => do
      let ⟨s₁, h₁⟩ ← Ahead.behind n (.variable x) source rest
      if x = "" then return (.context, ⟨s₁, h₁⟩)
      else if x = "$" then return (.root, ⟨s₁, h₁⟩)
      else if s₁.startsWith .openParen then
        let ⟨s₂, h₂⟩ ← s₁.expect n .openParen .openParen
        let (arguments, ⟨s₃, h₃⟩) ← items n .closeParen .closeParen .commaOrCloseParen s₂
        return (.call x arguments start, ⟨s₃, by omega⟩)
      else .error ⟨start, .unboundVariable x⟩
    | .slash => regexOperand n source rest
    | .openParen => do
      let ⟨s₁, h₁⟩ ← Ahead.behind n .openParen source rest
      let (node, ⟨s₂, h₂⟩) ← expression n s₁
      let ⟨s₃, h₃⟩ ← s₂.expect n .closeParen .closeParen
      return (node, ⟨s₃, by omega⟩)
    | .openBracket => do
      let ⟨s₁, h₁⟩ ← Ahead.behind n .openBracket source rest
      let (nodes, ⟨s₂, h₂⟩) ← items n .closeBracket .closeBracket .commaOrCloseBracket s₁
      return (.array nodes, ⟨s₂, by omega⟩)
    | .openBrace => do
      let ⟨s₁, h₁⟩ ← Ahead.behind n .openBrace source rest
      let (nodes, ⟨s₂, h₂⟩) ← pairs n s₁
      return (.object nodes, ⟨s₂, by omega⟩)
    | t => .error ⟨start, .unexpected (some t)⟩
termination_by 32 * s.size + 1
decreasing_by
  all_goals simp only [Ahead.size] at *
  all_goals omega

/-- Expressions with commas between them up to the token `close`; a comma may stand before
it. -/
def items (n : Nat) (close : Token) (closing separating : Expected) (s : Ahead) :
    Except Error (Parsed s (List Node)) := do
  if s.startsWith close then
    let s₁ ← s.expect n closing close
    return ([], s₁)
  else
    let (node, ⟨s₁, h₁⟩) ← expression n s
    if s₁.startsWith close then
      let ⟨s₂, h₂⟩ ← s₁.expect n closing close
      return ([node], ⟨s₂, by omega⟩)
    else
      let ⟨s₂, h₂⟩ ← s₁.expect n separating .comma
      let (nodes, ⟨s₃, h₃⟩) ← items n close closing separating s₂
      return (node :: nodes, ⟨s₃, by omega⟩)
termination_by 32 * s.size + 17

/-- Keys and values up to the closing brace; a comma may stand before it. -/
def pairs (n : Nat) (s : Ahead) : Except Error (Parsed s (List (Node × Node))) := do
  if s.startsWith .closeBrace then
    let s₁ ← s.expect n .closeBrace .closeBrace
    return ([], s₁)
  else
    let (key, ⟨s₁, h₁⟩) ← expression n s
    let ⟨s₂, h₂⟩ ← s₁.expect n .colon .colon
    let (value, ⟨s₃, h₃⟩) ← expression n s₂
    if s₃.startsWith .closeBrace then
      let ⟨s₄, h₄⟩ ← s₃.expect n .closeBrace .closeBrace
      return ([(key, value)], ⟨s₄, by omega⟩)
    else
      let ⟨s₄, h₄⟩ ← s₃.expect n .commaOrCloseBrace .comma
      let (rest, ⟨s₅, h₅⟩) ← pairs n s₄
      return ((key, value) :: rest, ⟨s₅, by omega⟩)
termination_by 32 * s.size + 17

end

/-- The tree of an expression. -/
def parse (text : String) : Except Error Node := do
  let cs := text.toList
  let n := cs.length
  let s ← next n cs
  let (node, ⟨s, _⟩) ← expression n s
  match s with
  | .finished => return node
  | s => .error ⟨s.position n, .expected .endOfExpression s.head?⟩

end PipeQuery.Expr
