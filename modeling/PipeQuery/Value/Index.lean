import PipeQuery.Text.Search
import PipeQuery.Value.Json

/-!
# Distinct values

An `Index` numbers the distinct values it has seen, in the order in which they
first came.  Values are kept in buckets by `Value.canonical`, a text that deeply
equal values share; within a bucket deep equality decides.

`distinct` keeps the first of equal values.
-/

namespace PipeQuery

namespace Value

mutual

/-- A text that deeply equal values share: JSON with the entries of objects sorted by key. -/
def canonical : Value → List Char
  | .array items => '[' :: joinWith [','] (canonicalItems items) ++ [']']
  | .object entries =>
    let sorted := (canonicalEntries entries).mergeSort fun a b => decide (a.1 ≤ b.1)
    '\x7b' :: joinWith [','] (sorted.map fun (key, text) => jsonString key ++ ':' :: text)
      ++ ['\x7d']
  | .null => ['n', 'u', 'l', 'l']
  | .boolean b => if b then ['t', 'r', 'u', 'e'] else ['f', 'a', 'l', 's', 'e']
  | .number n => jsonNumber n
  | .string s => jsonString s

/-- The canonical texts of items. -/
def canonicalItems : List Value → List (List Char)
  | [] => []
  | x :: xs => canonical x :: canonicalItems xs

/-- The keys of entries with the canonical texts of what they hold. -/
def canonicalEntries : List (String × Value) → List (String × List Char)
  | [] => []
  | (key, x) :: rest => (key, canonical x) :: canonicalEntries rest

end

/-- The distinct values seen so far. -/
structure Index where
  /-- The values with their numbers, by canonical text. -/
  buckets : Entries (List (Value × Nat))
  /-- How many there are. -/
  size : Nat

namespace Index

/-- No values. -/
def empty : Index := ⟨[], 0⟩

/-- The bucket of a canonical text. -/
def bucket (index : Index) (key : String) : List (Value × Nat) :=
  (index.buckets.get? key).getD []

/-- The number of a value, whether it is new, and the index with it. -/
def insert (index : Index) (v : Value) : Nat × Bool × Index :=
  let key := String.ofList v.canonical
  let bucket := index.bucket key
  match bucket.find? fun (seen, _) => seen.equals v with
  | some (_, slot) => (slot, false, index)
  | none =>
    (index.size, true,
      ⟨index.buckets.insert key (bucket ++ [(v, index.size)]), index.size + 1⟩)

end Index

/-- The items that are not yet in the index, each put into it as it comes. -/
def distinctFrom (index : Index) : List Value → List Value
  | [] => []
  | x :: xs =>
    let (_, created, index) := index.insert x
    if created then x :: distinctFrom index xs else distinctFrom index xs

/-- The items without those that are equal to an earlier one. -/
def distinct (items : List Value) : List Value := distinctFrom .empty items

end Value

end PipeQuery
