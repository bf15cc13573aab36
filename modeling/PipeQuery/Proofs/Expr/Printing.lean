import PipeQuery.Proofs.Expr.NormalForm

/-!
# Printing trees

`print` writes a tree with a space between tokens.  A part stands in parentheses
only where it has to: where it binds less tightly than its place asks for
(`Node.rank`), and where a colon follows that a condition at its end would take
for its own (`Node.endsOpen`).  Names stand in backticks, so that only the words
of operators and literals are plain.
-/

namespace PipeQuery.Expr

/-! ## Positions -/

mutual

/-- The tree with all positions at the beginning. -/
def Node.unplaced : Node → Node
  | .number n => .number n
  | .string x => .string x
  | .boolean b => .boolean b
  | .null => .null
  | .regex r => .regex r
  | .name field => .name field
  | .wildcard => .wildcard
  | .context => .context
  | .root => .root
  | .path steps => .path (unplacedSteps steps)
  | .array items => .array (unplacedItems items)
  | .object pairs => .object (unplacedPairs pairs)
  | .negate operand _ => .negate operand.unplaced 0
  | .binary op left right _ => .binary op left.unplaced right.unplaced 0
  | .condition test yes none => .condition test.unplaced yes.unplaced none
  | .condition test yes (some no) =>
    .condition test.unplaced yes.unplaced (some no.unplaced)
  | .call function arguments _ => .call function (unplacedItems arguments) 0

/-- The steps with all positions at the beginning. -/
def unplacedSteps : List Step → List Step
  | [] => []
  | .mk x predicates keepArray :: rest =>
    .mk x.unplaced (unplacedItems predicates) keepArray :: unplacedSteps rest

/-- The nodes with all positions at the beginning. -/
def unplacedItems : List Node → List Node
  | [] => []
  | x :: rest => x.unplaced :: unplacedItems rest

/-- The keys and values with all positions at the beginning. -/
def unplacedPairs : List (Node × Node) → List (Node × Node)
  | [] => []
  | (key, value) :: rest => (key.unplaced, value.unplaced) :: unplacedPairs rest

end

/-! ## How tightly nodes bind -/

/-- The level of an operator. -/
def BinaryOp.level : BinaryOp → Level
  | .oneOf => .oneOf
  | .both => .both
  | .equal | .notEqual | .less | .lessEqual | .greater | .greaterEqual | .member => .comparison
  | .add | .subtract | .concat => .sum
  | .multiply | .divide | .modulo => .product

/-- How tightly a node binds: a condition least, then operators by level, a minus sign, a path,
and what is one operand by itself. -/
def Node.rank : Node → Nat
  | .condition _ _ _ => 0
  | .binary op _ _ _ => op.level.rank
  | .negate _ _ | .number (.finite true _) => 6
  | .path _ => 7
  | _ => 8

/-- Whether the node ends in a condition without a second branch. -/
def Node.endsOpen : Node → Bool
  | .condition _ _ none => true
  | .condition _ _ (some no) => no.endsOpen
  | _ => false

/-! ## Words -/

/-- What stands between spaces. -/
inductive Word where
  /-- The word of an operator or a literal. -/
  | plain (name : String)
  /-- Any other token, where a name is that of a field. -/
  | token (t : Token)

/-- The word of an operator. -/
def BinaryOp.word : BinaryOp → Word
  | .add => .token .plus
  | .subtract => .token .minus
  | .multiply => .token .star
  | .divide => .token .slash
  | .modulo => .token .percent
  | .concat => .token .ampersand
  | .equal => .token .equal
  | .notEqual => .token .notEqual
  | .less => .token .less
  | .lessEqual => .token .lessEqual
  | .greater => .token .greater
  | .greaterEqual => .token .greaterEqual
  | .member => .plain "in"
  | .both => .plain "and"
  | .oneOf => .plain "or"

/-- The words of a number. -/
def numberWords : Number → List Word
  | .finite true m => [.token .minus, .token (.number (.finite false m))]
  | n => [.token (.number n)]

/-- Words, in parentheses if `needed`. -/
def enclosed (needed : Bool) (ws : List Word) : List Word :=
  if needed then .token .openParen :: (ws ++ [.token .closeParen]) else ws

/-- Words with a token between them. -/
def joined (sep : Token) : List (List Word) → List Word
  | [] => []
  | [ws] => ws
  | ws :: vs :: rest => ws ++ .token sep :: joined sep (vs :: rest)

/-- The brackets that keep an array. -/
def keptWords (keepArray : Bool) : List Word :=
  if keepArray then [.token .openBracket, .token .closeBracket] else []

mutual

/-- The words of a node. -/
def Node.words : Node → List Word
  | .number n => numberWords n
  | .string x => [.token (.string x)]
  | .boolean b => [.plain (if b then "true" else "false")]
  | .null => [.plain "null"]
  | .regex _ => []
  | .name field => [.token (.name field)]
  | .wildcard => [.token .star]
  | .context => [.token (.variable "")]
  | .root => [.token (.variable "$")]
  | .path steps => joined .dot (stepsWords steps)
  | .array items =>
    .token .openBracket :: (joined .comma (itemsWords items) ++ [.token .closeBracket])
  | .object pairs =>
    .token .openBrace :: (joined .comma (pairsWords pairs) ++ [.token .closeBrace])
  | .negate operand _ => .token .minus :: enclosed (operand.rank < 6) operand.words
  | .binary op left right _ =>
    -- operators of a level group to the left, but a comparison has no other beside it
    enclosed (left.rank < op.level.rank + if op.level.chains then 0 else 1) left.words
      ++ op.word :: enclosed (right.rank < op.level.rank + 1) right.words
  | .condition test yes none =>
    enclosed (test.rank < 1) test.words ++ .token .question :: yes.words
  | .condition test yes (some no) =>
    enclosed (test.rank < 1) test.words
      ++ .token .question :: (enclosed yes.endsOpen yes.words ++ .token .colon :: no.words)
  | .call function arguments _ =>
    .token (.variable function) :: .token .openParen
      :: (joined .comma (itemsWords arguments) ++ [.token .closeParen])

/-- The words of each step. -/
def stepsWords : List Step → List (List Word)
  | [] => []
  | .mk x predicates keepArray :: rest =>
    (enclosed (x.rank < 8) x.words ++ (predicatesWords predicates ++ keptWords keepArray))
      :: stepsWords rest

/-- Predicates in brackets. -/
def predicatesWords : List Node → List Word
  | [] => []
  | x :: rest => .token .openBracket :: (x.words ++ .token .closeBracket :: predicatesWords rest)

/-- The words of each node. -/
def itemsWords : List Node → List (List Word)
  | [] => []
  | x :: rest => x.words :: itemsWords rest

/-- The words of each key with its value. -/
def pairsWords : List (Node × Node) → List (List Word)
  | [] => []
  | (key, value) :: rest =>
    (enclosed key.endsOpen key.words ++ .token .colon :: value.words) :: pairsWords rest

end

/-! ## Text -/

/-- A text as it stands in quotes. -/
def escaped (cs : List Char) : List Char :=
  cs.flatMap fun c => if c = '"' || c = '\\' then ['\\', c] else [c]

/-- A token as text; names are those of fields. -/
def Token.spelling : Token → List Char
  | .number n => n.charsIn .plain
  | .string x => '"' :: escaped x.toList ++ ['"']
  | .name x => '\x60' :: x.toList ++ ['\x60']
  | .variable x => '$' :: x.toList
  | .dot => ['.']
  | .comma => [',']
  | .colon => [':']
  | .question => ['?']
  | .openParen => ['(']
  | .closeParen => [')']
  | .openBracket => ['[']
  | .closeBracket => [']']
  | .openBrace => ['\x7b']
  | .closeBrace => ['\x7d']
  | .plus => ['+']
  | .minus => ['-']
  | .star => ['*']
  | .slash => ['/']
  | .percent => ['%']
  | .ampersand => ['&']
  | .equal => ['=']
  | .notEqual => ['!', '=']
  | .less => ['<']
  | .lessEqual => ['<', '=']
  | .greater => ['>']
  | .greaterEqual => ['>', '=']

/-- A word as text. -/
def Word.chars : Word → List Char
  | .plain name => name.toList
  | .token t => t.spelling

/-- Words with a space between them. -/
def spaced : List Word → List Char
  | [] => []
  | [w] => w.chars
  | w :: v :: rest => w.chars ++ ' ' :: spaced (v :: rest)

/-- A tree as an expression. -/
def print (x : Node) : String := String.ofList (spaced x.words)

example : print (.binary .multiply (.binary .add (.path [.mk (.name "a") [] false]) .wildcard 0)
    (.negate (.path [.mk (.name "or") [.boolean true] true]) 0) 0)
    = "( `a` + * ) * - `or` [ true ] [ ]" := by decide

end PipeQuery.Expr
