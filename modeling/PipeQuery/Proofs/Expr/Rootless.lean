import PipeQuery.Proofs.Expr.RoundTrip
import PipeQuery.Expr.Eval

/-!
# Trees that do not read the root

Evaluation carries two values through a tree: the context, which every step and every
predicate replaces, and the root, which stays what it is.  A tree is *rootless* if no part
of it is `$$`.

`eval_rootless` says that two runs of a rootless tree which differ in their roots alone give
the same outcome.  The root is handed down to every part and read at `$$` only.  So what a
list of nodes gives depends on the root no more than its members do; the lemmas for lists
say this of evaluation as a function of what is left beside the root, since steps and
predicates start from values that come up on the way.
-/

namespace PipeQuery.Expr

/-- No part of the tree is the root. -/
abbrev Node.Rootless (x : Node) : Prop := Everywhere (fun _ y => y ≠ .root) .operand x

/-! ## Lists of nodes -/

variable {root root' : Value}

theorem evalPredicates_congr {predicates : List Node}
    (h : ∀ x ∈ predicates, eval root x = eval root' x) :
    evalPredicates root predicates = evalPredicates root' predicates := by
  induction predicates with
  | nil =>
    funext items
    rw [evalPredicates, evalPredicates]
  | cons x rest ih =>
    obtain ⟨hx, hrest⟩ := List.forall_mem_cons.1 h
    funext items
    rw [evalPredicates, evalPredicates, hx, ih hrest]

theorem evalSteps_congr {steps : List Step}
    (h : ∀ st ∈ steps, ∀ part ∈ st.parts, eval root part.2 = eval root' part.2) :
    evalSteps root steps = evalSteps root' steps := by
  induction steps with
  | nil =>
    funext items keepArray
    rw [evalSteps, evalSteps]
  | cons st rest ih =>
    obtain ⟨x, predicates, keep⟩ := st
    obtain ⟨hst, hrest⟩ := List.forall_mem_cons.1 h
    obtain ⟨hx, hparts⟩ := List.forall_mem_cons.1 hst
    have hx : eval root x = eval root' x := hx
    have hpredicates : evalPredicates root predicates = evalPredicates root' predicates :=
      evalPredicates_congr fun y hy => hparts (.operand, y) (List.mem_map_of_mem hy)
    funext items keepArray
    rw [evalSteps, evalSteps, hx, hpredicates, ih hrest]

theorem evalItems_congr {nodes : List Node} (h : ∀ x ∈ nodes, eval root x = eval root' x) :
    evalItems root nodes = evalItems root' nodes := by
  induction nodes with
  | nil =>
    funext v
    rw [evalItems, evalItems]
  | cons x rest ih =>
    obtain ⟨hx, hrest⟩ := List.forall_mem_cons.1 h
    funext v
    rw [evalItems, evalItems, hx, ih hrest]

theorem evalArguments_congr {nodes : List Node} (h : ∀ x ∈ nodes, eval root x = eval root' x) :
    evalArguments root nodes = evalArguments root' nodes := by
  induction nodes with
  | nil =>
    funext v
    rw [evalArguments, evalArguments]
  | cons x rest ih =>
    obtain ⟨hx, hrest⟩ := List.forall_mem_cons.1 h
    funext v
    rw [evalArguments, evalArguments, hx, ih hrest]

theorem evalPairs_congr {pairs : List (Node × Node)}
    (h : ∀ x ∈ pairs, eval root x.1 = eval root' x.1 ∧ eval root x.2 = eval root' x.2) :
    evalPairs root pairs = evalPairs root' pairs := by
  induction pairs with
  | nil =>
    funext v entries
    rw [evalPairs, evalPairs]
  | cons pair rest ih =>
    obtain ⟨key, value⟩ := pair
    obtain ⟨⟨hkey, hvalue⟩, hrest⟩ := List.forall_mem_cons.1 h
    have hkey : eval root key = eval root' key := hkey
    have hvalue : eval root value = eval root' value := hvalue
    funext v entries
    rw [evalPairs, evalPairs, hkey, hvalue, ih hrest]

/-! ## Trees -/

/-- What a rootless tree gives is a function of the context alone, wherever the tree stands. -/
theorem eval_congr_root {place : Place} {x : Node}
    (h : Everywhere (fun _ y => y ≠ .root) place x) (root root' : Value) :
    eval root x = eval root' x := by
  induction h with
  | @mk place x hx _ ih =>
    funext v
    cases x with
    | number k => rw [eval, eval]
    | string s => rw [eval, eval]
    | boolean b => rw [eval, eval]
    | null => rw [eval, eval]
    | regex r => rw [eval, eval]
    | name field => rw [eval, eval]
    | wildcard => rw [eval, eval]
    | context => rw [eval, eval]
    | root => exact absurd rfl hx
    | path steps =>
      have hsteps : evalSteps root steps = evalSteps root' steps :=
        evalSteps_congr fun st hst part hpart => ih part (List.mem_flatMap.2 ⟨st, hst, hpart⟩)
      rw [eval, eval, hsteps]
    | array nodes =>
      have hnodes : evalItems root nodes = evalItems root' nodes :=
        evalItems_congr fun y hy => ih _ (Node.item_mem_parts hy)
      rw [eval, eval, hnodes]
    | object pairs =>
      have hpairs : evalPairs root pairs = evalPairs root' pairs :=
        evalPairs_congr fun y hy =>
          ⟨ih _ (Node.key_mem_parts hy), ih _ (Node.value_mem_parts hy)⟩
      rw [eval, eval, hpairs]
    | negate operand position =>
      have hoperand : eval root operand = eval root' operand :=
        ih (.operand, operand) (by simp [Node.parts])
      rw [eval, eval, hoperand]
    | binary op left right position =>
      have hleft : eval root left = eval root' left := ih (.operand, left) (by simp [Node.parts])
      have hright : eval root right = eval root' right :=
        ih (.operand, right) (by simp [Node.parts])
      rw [eval, eval, hleft, hright]
    | condition test yes no =>
      have htest : eval root test = eval root' test := ih (.operand, test) (by simp [Node.parts])
      have hyes : eval root yes = eval root' yes := ih (.operand, yes) (by simp [Node.parts])
      cases no with
      | none => rw [eval, eval, htest, hyes]
      | some no =>
        have hno : eval root no = eval root' no := ih (.operand, no) (by simp [Node.parts])
        rw [eval, eval, htest, hyes, hno]
    | call name nodes position =>
      have harguments : evalArguments root nodes = evalArguments root' nodes :=
        evalArguments_congr fun y hy => ih _ (Node.argument_mem_parts hy)
      rw [eval, eval, harguments]

/-- Only `$$` sees the root: two runs of a rootless tree in one context give the same value, no
value both, or the same error, whatever their roots are. -/
theorem eval_rootless {x : Node} (h : x.Rootless) (v root root' : Value) :
    eval root x v = eval root' x v := by
  rw [eval_congr_root h root root']

/-- A predicate that compares the items before it, inside of a call. -/
theorem eval_rootless_predicate :
    (Node.call "count" [.path [.mk (.name "a") [.binary .less .context .null 4] false]] 0).Rootless
      ∧ eval .null (.call "count"
            [.path [.mk (.name "a") [.binary .less .context .null 4] false]] 0)
          (.object [("a", .array [.number .zero])])
        = eval (.string "s") (.call "count"
            [.path [.mk (.name "a") [.binary .less .context .null 4] false]] 0)
          (.object [("a", .array [.number .zero])]) := by
  have hless : (Node.binary .less .context .null 4).Rootless :=
    .binary (by simp) (.leaf (by simp) rfl) (.leaf (by simp) rfl)
  have hname : Everywhere (fun _ y => y ≠ .root) .step (.name "a") := .leaf (by simp) rfl
  have hpath : (Node.path [.mk (.name "a") [.binary .less .context .null 4] false]).Rootless :=
    .mk (by simp) (List.forall_mem_cons.2 ⟨hname, List.forall_mem_singleton.2 hless⟩)
  have hcall : (Node.call "count" [.path [.mk (.name "a") [.binary .less .context .null 4]
      false]] 0).Rootless :=
    .mk (by simp) (List.forall_mem_singleton.2 hpath)
  exact ⟨hcall, eval_rootless hcall _ _ _⟩

end PipeQuery.Expr
