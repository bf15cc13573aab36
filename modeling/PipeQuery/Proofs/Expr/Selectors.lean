import PipeQuery.Proofs.Expr.RoundTrip
import PipeQuery.Expr.Evaluate

/-!
# Paths of fields

A step of a path that is neither a name nor a star needs an evaluation of its own.  The
others only select: a name leads to a field and a star to all fields, of an object and of
every object in an array.  A `Selector` is such a step as it is written, a name plainly or
in backticks, and `pathText` is a text of selectors with points between them.

*Text.*  `parse_pathText` says that the text is parsed as the path of the selectors, and
`parse_grouped` that parentheses around the first of them make a step of their path.

*Values.*  Steps that select never fail.  `reached` is what they lead to from a list of
values, and `evalTree_selecting` says that it is what the path gives at the top.
-/

namespace PipeQuery.Expr

open Ahead (Leads)

/-- A step to fields, as it is written. -/
inductive Selector where
  /-- A field by its name. -/
  | plain (field : String) (isName : IsName field)
    (noLiteral : field ∉ ["true", "false", "null"])
  /-- A field by its name in backticks. -/
  | quoted (field : String) (closed : '\x60' ∉ field.toList)
    (noLiteral : field ∉ ["true", "false", "null"])
  /-- All fields. -/
  | all

namespace Selector

/-- The selector as text. -/
def text : Selector → String
  | plain field _ _ => field
  | quoted field _ _ => "\x60" ++ field ++ "\x60"
  | all => "*"

/-- The selector as a token. -/
def token : Selector → Token
  | plain field _ _ | quoted field _ _ => .name field
  | all => .star

/-- The selector as a node. -/
def node : Selector → Node
  | plain field _ _ | quoted field _ _ => .name field
  | all => .wildcard

/-- The selector as a step. -/
def step (x : Selector) : Step := .mk x.node [] false

theorem isSelector_node (x : Selector) : x.node.isSelector = true := by
  cases x <;> rfl

/-- The words of a selector in front of the words of other steps. -/
theorem stepsWords_cons (x : Selector) (steps : List Step) :
    stepsWords (x.step :: steps) = [.token x.token] :: stepsWords steps := by
  have hrank : x.node.rank = 8 := Node.rank_of_isSelector x.isSelector_node
  have hwords : x.node.words = [.token x.token] := by
    cases x <;> rw [node, Node.words] <;> rfl
  rw [step, stepsWords, hrank, hwords]
  rfl

theorem readable_node (n : Nat) (x : Selector) : x.node.Readable n := by
  cases x with
  | plain field isName noLiteral =>
    exact readable_word (w := .token (.name field)) rfl (by rw [node, Node.words]) rfl
      (nameNode_eq_name noLiteral)
  | quoted field closed noLiteral =>
    exact readable_word (w := .token (.name field)) rfl (by rw [node, Node.words]) rfl
      (nameNode_eq_name noLiteral)
  | all => exact readable_wildcard

end Selector

/-- Selectors with points between them. -/
def pathText (xs : List Selector) : String := ".".intercalate (xs.map Selector.text)

theorem toList_pathText_singleton (x : Selector) :
    (pathText [x]).toList = x.text.toList := by
  rw [pathText, String.toList_intercalate]
  simp

theorem toList_pathText_cons_cons (x y : Selector) (xs : List Selector) :
    (pathText (x :: y :: xs)).toList
      = x.text.toList ++ '.' :: (pathText (y :: xs)).toList := by
  rw [pathText, pathText, String.toList_intercalate, String.toList_intercalate]
  simp [List.intercalate_cons_cons]

theorem pathText_append {xs ys : List Selector} (hxs : xs ≠ []) (hys : ys ≠ []) :
    pathText (xs ++ ys) = pathText xs ++ "." ++ pathText ys := by
  obtain ⟨y, ys, rfl⟩ := List.exists_cons_of_ne_nil hys
  induction xs with
  | nil => exact absurd rfl hxs
  | cons x xs ih =>
    cases xs with
    | nil =>
      rw [← String.toList_inj, List.singleton_append, toList_pathText_cons_cons]
      simp [toList_pathText_singleton]
    | cons x' xs =>
      have ih := congrArg String.toList (ih (List.cons_ne_nil x' xs))
      rw [← String.toList_inj, List.cons_append, List.cons_append, toList_pathText_cons_cons,
        ← List.cons_append, ih]
      simp [toList_pathText_cons_cons]

/-! ## Tokens -/

variable {xs ys : List Selector} {ds : List Char} {s : Ahead}

/-- A selector is ahead where one begins and no other character of a name follows it. -/
theorem Selector.next_text (n : Nat) (x : Selector) (hds : ∀ d ∈ ds.head?, isNameChar d = false) :
    ∃ source, next n (x.text.toList ++ ds) = .ok (.token x.token source ds) := by
  cases x with
  | plain field isName noLiteral =>
    obtain ⟨c, rest, hchars, hc, hscan⟩ := isName.scan
    refine ⟨c :: (rest ++ ds), ?_⟩
    rw [text, hchars, List.cons_append]
    exact next_of_scan hc.isBlank (hc.ne (by decide)) (hscan n ds hds)
  | quoted field closed noLiteral =>
    have hchars : (quoted field closed noLiteral).text.toList ++ ds
        = '\x60' :: (field.toList ++ '\x60' :: ds) := by
      simp [text]
    rw [hchars]
    exact ⟨_, next_of_scan (by decide) (by decide) (scan_backtick n closed ds)⟩
  | all =>
    have hchars : all.text.toList ++ ds = '*' :: ds := rfl
    rw [hchars]
    exact ⟨_, next_sign n '*' rfl (by decide) (by decide) ds⟩

/-- Selectors with points between them are the words of their path, up to what follows. -/
theorem leads_pathText (n : Nat) (x : Selector) (xs : List Selector)
    (hds : ∀ d ∈ ds.head?, isNameChar d = false) (h : next n ds = .ok s) :
    ∃ s', next n ((pathText (x :: xs)).toList ++ ds) = .ok s'
      ∧ s'.Spells n (Node.path ((x :: xs).map Selector.step)).words s := by
  induction xs generalizing x with
  | nil =>
    obtain ⟨source, hnext⟩ := x.next_text n hds
    rw [toList_pathText_singleton, Node.words, List.map_cons, x.stepsWords_cons]
    exact ⟨_, hnext, .token h .here⟩
  | cons y xs ih =>
    obtain ⟨s', hrest, hs'⟩ := ih y
    -- a point goes on with no name
    have hpoint : ∀ d ∈ ('.' :: ((pathText (y :: xs)).toList ++ ds)).head?,
        isNameChar d = false := by
      rintro _ ⟨⟩
      decide
    obtain ⟨source, hnext⟩ := x.next_text n hpoint
    rw [Node.words, List.map_cons, y.stepsWords_cons] at hs'
    rw [toList_pathText_cons_cons, List.append_assoc, Node.words, List.map_cons, List.map_cons,
      x.stepsWords_cons, y.stepsWords_cons, joined]
    exact ⟨_, hnext, .token (next_sign n '.' rfl (by decide) (by decide) _) (.token hrest hs')⟩

/-- Selectors at the end of a text are the words of their path. -/
theorem leads_pathText_end (n : Nat) (x : Selector) (xs : List Selector) :
    ∃ s, next n (pathText (x :: xs)).toList = .ok s
      ∧ s.Spells n (Node.path ((x :: xs).map Selector.step)).words .finished := by
  have hend : ∀ d ∈ ([] : List Char).head?, isNameChar d = false := by
    intro d hd
    cases hd
  obtain ⟨s, hnext, hs⟩ := leads_pathText n x xs hend rfl
  rw [List.append_nil] at hnext
  exact ⟨s, hnext, hs⟩

/-! ## Parsing -/

theorem Selector.readable_step (n : Nat) (x : Selector) : x.step.Readable n :=
  ⟨x.readable_node n, Node.rank_of_isSelector, List.forall_mem_nil _⟩

theorem readable_selectors (n : Nat) (hxs : xs ≠ []) :
    (Node.path (xs.map Selector.step)).Readable n := by
  refine readable_path (by simpa using hxs) (fun y hy => ?_) fun st hst => ?_
  · obtain ⟨x, -, hx⟩ := List.mem_map.1 (hy ▸ List.mem_singleton_self _)
    cases hx
    exact x.isSelector_node
  · obtain ⟨x, -, rfl⟩ := List.mem_map.1 hst
    exact x.readable_step n

/-- Selectors have no positions. -/
theorem eq_selectors {steps : List Step}
    (h : unplacedSteps steps = unplacedSteps (xs.map Selector.step)) :
    steps = xs.map Selector.step := by
  induction xs generalizing steps with
  | nil =>
    cases steps with
    | nil => rfl
    | cons st rest =>
      obtain ⟨y, predicates, keepArray⟩ := st
      cases h
  | cons x xs ih =>
    cases steps with
    | nil => cases h
    | cons st rest =>
      obtain ⟨y, predicates, keepArray⟩ := st
      have hleaf : x.node.isLeaf = true := by cases x <;> rfl
      simp only [List.map_cons, Selector.step, unplacedSteps, Node.unplaced_of_isLeaf hleaf,
        unplacedItems, List.cons.injEq, Step.mk.injEq] at h
      obtain ⟨⟨hy, hpredicates, rfl⟩, hrest⟩ := h
      rw [Node.eq_of_isLeaf hleaf hy, unplacedItems_eq_nil hpredicates, ih hrest]
      rfl

/-- A node that is a path but for positions is a path. -/
theorem Node.exists_path {y : Node} {steps : List Step}
    (h : y.unplaced = (path steps).unplaced) :
    ∃ steps', y = path steps' ∧ unplacedSteps steps' = unplacedSteps steps := by
  cases y with
  | path steps' =>
    rw [unplaced, unplaced, path.injEq] at h
    exact ⟨steps', rfl, h⟩
  | condition test yes no => cases no <;> simp [unplaced] at h
  | _ => simp [unplaced] at h

/-- Selectors with points between them are parsed as their path. -/
theorem parse_pathText (hxs : xs ≠ []) :
    parse (pathText xs) = .ok (.path (xs.map Selector.step)) := by
  obtain ⟨x, rest, rfl⟩ := List.exists_cons_of_ne_nil hxs
  obtain ⟨s, hnext, hs⟩ := leads_pathText_end (pathText (x :: rest)).toList.length x rest
  obtain ⟨y, hparse, hy⟩ := parse_of_spells (readable_selectors _ hxs) rfl hnext hs
  obtain ⟨steps, rfl, hsteps⟩ := Node.exists_path hy
  rw [hparse, eq_selectors hsteps]

/-- The path that begins with a path in parentheses. -/
def grouped (steps rest : List Step) : Node := .path (.mk (.path steps) [] false :: rest)

/-- Selectors in parentheses, a point, and selectors behind it are the words of a grouped path. -/
theorem leads_grouped (n : Nat) (x y : Selector) (xs ys : List Selector) :
    ∃ s, next n ('(' :: ((pathText (x :: xs)).toList ++ ')' :: '.' :: (pathText (y :: ys)).toList))
        = .ok s
      ∧ s.Spells n (grouped ((x :: xs).map Selector.step) ((y :: ys).map Selector.step)).words
        .finished := by
  obtain ⟨s₂, hnext₂, h₂⟩ := leads_pathText_end n y ys
  have hdot := next_sign n '.' rfl (by decide) (by decide) (pathText (y :: ys)).toList
  have hclose := next_sign n ')' rfl (by decide) (by decide)
    ('.' :: (pathText (y :: ys)).toList)
  obtain ⟨s₁, hnext₁, h₁⟩ := leads_pathText n x xs (by rintro _ ⟨⟩; decide) hclose
  refine ⟨_, next_sign n '(' rfl (by decide) (by decide) _, ?_⟩
  have hwords : (grouped ((x :: xs).map Selector.step) ((y :: ys).map Selector.step)).words
      = .token .openParen :: ((Node.path ((x :: xs).map Selector.step)).words
        ++ .token .closeParen :: .token .dot
          :: (Node.path ((y :: ys).map Selector.step)).words) := by
    rw [Node.words, Node.words, grouped, Node.words, stepsWords, List.map_cons, List.map_cons,
      y.stepsWords_cons, joined, Node.words]
    simp [enclosed, Node.rank, predicatesWords, keptWords]
  rw [hwords, Ahead.Spells, List.map_cons, List.map_append]
  exact .token hnext₁ (Leads.append h₁ (.token hdot (.token hnext₂ h₂)))

/-- Selectors in parentheses are a step by themselves. -/
theorem parse_grouped (hxs : xs ≠ []) (hys : ys ≠ []) :
    parse ("(" ++ pathText xs ++ ")." ++ pathText ys)
      = .ok (grouped (xs.map Selector.step) (ys.map Selector.step)) := by
  obtain ⟨x, xs, rfl⟩ := List.exists_cons_of_ne_nil hxs
  obtain ⟨y, ys, rfl⟩ := List.exists_cons_of_ne_nil hys
  generalize htext : "(" ++ pathText (x :: xs) ++ ")." ++ pathText (y :: ys) = text
  have hchars : text.toList = '(' :: ((pathText (x :: xs)).toList
      ++ ')' :: '.' :: (pathText (y :: ys)).toList) := by
    simp [← htext]
  have hx : (grouped ((x :: xs).map Selector.step) ((y :: ys).map Selector.step)).Readable
      text.toList.length := by
    refine readable_path (List.cons_ne_nil _ _) (by simp) (List.forall_mem_cons.2 ⟨?_, ?_⟩)
    · exact ⟨readable_selectors _ hxs, by simp [Node.isSelector], List.forall_mem_nil _⟩
    · intro st hst
      obtain ⟨z, -, rfl⟩ := List.mem_map.1 hst
      exact z.readable_step _
  obtain ⟨s, hnext, hs⟩ := leads_grouped text.toList.length x y xs ys
  rw [← hchars] at hnext
  obtain ⟨z, hparse, hz⟩ := parse_of_spells hx rfl hnext hs
  obtain ⟨steps, rfl, hsteps⟩ := Node.exists_path hz
  rw [hparse]
  cases steps with
  | nil => cases hsteps
  | cons st rest =>
    obtain ⟨w, predicates, keepArray⟩ := st
    rw [unplacedSteps, unplacedSteps, List.cons.injEq, Step.mk.injEq] at hsteps
    obtain ⟨⟨hw, hpredicates, rfl⟩, hrest⟩ := hsteps
    obtain ⟨inner, rfl, hinner⟩ := Node.exists_path hw
    rw [eq_selectors hinner, unplacedItems_eq_nil hpredicates, eq_selectors hrest, grouped]

/-! ## Values -/

/-- A step that only selects: it has no predicates, and no brackets that keep an array. -/
def Step.Selects (st : Step) : Prop := ∃ x : Node, x.isSelector = true ∧ st = .mk x [] false

theorem Selector.selects_step (x : Selector) : x.step.Selects :=
  ⟨x.node, x.isSelector_node, rfl⟩

theorem selects_of_mem_map (xs : List Selector) : ∀ st ∈ xs.map Selector.step, st.Selects := by
  intro st hst
  obtain ⟨x, -, rfl⟩ := List.mem_map.1 hst
  exact x.selects_step

/-- What a node that selects leads to from a value. -/
def Node.reach (x : Node) (v : Value) : List Value :=
  match x.selector? with
  | some select => select v
  | none => []

/-- What steps that select lead to from a list of values. -/
def reached (steps : List Step) (items : List Value) : List Value :=
  steps.foldl (fun found st => found.flatMap st.node.reach) items

/-- What a path gives at the top for the values it leads to, if no brackets keep an array. -/
def Outcome.ofItems : List Value → Outcome
  | [] => .value .null
  | [v] => .value v
  | many => .sequence many false

theorem Node.exists_selector? {x : Node} (hx : x.isSelector = true) :
    x.selector? = some x.reach := by
  cases x with
  | name field => rfl
  | wildcard => rfl
  | _ => cases hx

variable {steps rest : List Step} {root v : Value} {items : List Value}

theorem evalSteps_selecting (h : ∀ st ∈ steps, st.Selects) :
    evalSteps root steps items false = .ok (reached steps items, false) := by
  induction steps generalizing items with
  | nil => rw [evalSteps, reached, List.foldl_nil]
  | cons st steps ih =>
    obtain ⟨⟨x, hx, rfl⟩, hrest⟩ := List.forall_mem_cons.1 h
    have hselect : items.mapM (fun item => (pure (x.reach item) : Except Error (List Value)))
        = .ok (items.map x.reach) := List.mapM_pure
    rw [evalSteps, Node.exists_selector? hx]
    simp only [evalPredicates]
    show (items.mapM (fun item => pure (x.reach item)) >>= fun next =>
      evalSteps root steps next.flatten false) = _
    rw [hselect]
    exact ih hrest

/-- A path that selects gives at the top what its steps lead to. -/
theorem evalTree_selecting (h : ∀ st ∈ steps, st.Selects) (v : Value) :
    evalTree (.path steps) v = .ok (.ofItems (reached steps [v])) := by
  rw [evalTree, evalSteps_selecting h]
  match reached steps [v] with
  | [] => rfl
  | [w] => rfl
  | _ :: _ :: _ => rfl

end PipeQuery.Expr
