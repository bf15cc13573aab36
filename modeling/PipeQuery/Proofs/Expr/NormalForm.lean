import PipeQuery.Expr.Parser

/-!
# Normal trees

A node stands as a *step* of a path or as an *operand*, which is everything else.
`Everywhere p` says of a tree that `p` holds of each of its nodes at its place.
A tree is *normal* if everywhere in it

* names and wildcards are steps,
* a path has a step, and no single step without predicates other than a name or a
  wildcard,
* a minus sign stands in front of something else than a number.

`parse_normal` says that every tree of an expression is normal.  The parsing
functions call one another with what is ahead or with less, and each comes back
to a whole expression with less only.  So each has its lemma under the hypothesis
`ReadsNormal n k`, that expressions are normal which are read from less than `k`,
and the last of them proves the hypothesis by induction.
-/

namespace PipeQuery.Expr

/-! ## Parts of a tree -/

namespace Step

/-- Where the step leads. -/
def node : Step → Node
  | .mk node _ _ => node

/-- What the step keeps. -/
def predicates : Step → List Node
  | .mk _ predicates _ => predicates

end Step

/-- Where a node stands. -/
inductive Place where
  /-- As a part of anything but a path, or by itself. -/
  | operand
  /-- As a step of a path. -/
  | step
deriving DecidableEq

/-- The parts of a step with their places. -/
def Step.parts (st : Step) : List (Place × Node) :=
  (.step, st.node) :: st.predicates.map (Prod.mk .operand)

/-- The parts of a node with their places. -/
def Node.parts : Node → List (Place × Node)
  | .path steps => steps.flatMap Step.parts
  | .array items | .call _ items _ => items.map (Prod.mk .operand)
  | .object pairs => pairs.flatMap fun (key, value) => [(.operand, key), (.operand, value)]
  | .negate operand _ => [(.operand, operand)]
  | .binary _ left right _ => [(.operand, left), (.operand, right)]
  | .condition test yes no =>
    (.operand, test) :: (.operand, yes) :: no.toList.map (Prod.mk .operand)
  | _ => []

/-- A property of all nodes of a tree at their places. -/
inductive Everywhere (p : Place → Node → Prop) : Place → Node → Prop
  | mk {place : Place} {x : Node} :
    p place x → (∀ part ∈ x.parts, Everywhere p part.1 part.2) → Everywhere p place x

/-- What a normal tree is at each of its nodes. -/
def Node.WellPlaced (place : Place) : Node → Prop
  | .name _ | .wildcard => place = .step
  | .path steps => steps ≠ [] ∧ ∀ x, steps = [.mk x [] false] → x.isSelector = true
  | .negate operand _ => ∀ k, operand ≠ .number k
  | _ => True

/-- A tree that is normal everywhere. -/
abbrev Node.Normal (x : Node) : Prop := Everywhere Node.WellPlaced .operand x

theorem Everywhere.parts {p : Place → Node → Prop} {place : Place} {x : Node}
    (h : Everywhere p place x) : ∀ part ∈ x.parts, Everywhere p part.1 part.2 := by
  cases h with
  | mk _ hparts => exact hparts

theorem Everywhere.here {p : Place → Node → Prop} {place : Place} {x : Node}
    (h : Everywhere p place x) : p place x := by
  cases h with
  | mk hx _ => exact hx

theorem Everywhere.leaf {p : Place → Node → Prop} {place : Place} {x : Node} (hx : p place x)
    (hparts : x.parts = []) : Everywhere p place x :=
  .mk hx (by simp [hparts])

theorem Everywhere.binary {p : Place → Node → Prop} {place : Place} {op : BinaryOp}
    {left right : Node} {position : Nat} (h : p place (.binary op left right position))
    (hleft : Everywhere p .operand left) (hright : Everywhere p .operand right) :
    Everywhere p place (.binary op left right position) :=
  .mk h (List.forall_mem_cons.2 ⟨hleft, List.forall_mem_singleton.2 hright⟩)

/-- A step that selects no fields may stand as an operand. -/
theorem Node.normal_of_step {x : Node} (h : Everywhere WellPlaced .step x)
    (hx : ¬ x.isSelector = true) : x.Normal := by
  refine .mk ?_ h.parts
  cases x with
  | name field => exact absurd rfl hx
  | wildcard => exact absurd rfl hx
  | path steps => exact h.here
  | negate operand position => exact h.here
  | _ => trivial

/-- What may stand as an operand may stand as a step. -/
theorem Node.Normal.step {x : Node} (h : x.Normal) : Everywhere WellPlaced .step x := by
  refine .mk ?_ h.parts
  cases x with
  | name field => rfl
  | wildcard => rfl
  | path steps => exact h.here
  | negate operand position => exact h.here
  | _ => trivial

theorem Node.normal_object {xs : List (Node × Node)} (h : ∀ x ∈ xs, x.1.Normal ∧ x.2.Normal)
    {place : Place} : Everywhere WellPlaced place (.object xs) := by
  refine .mk trivial fun part hpart => ?_
  obtain ⟨x, hx, hin⟩ := List.mem_flatMap.1 hpart
  simp only [List.mem_cons, List.not_mem_nil, or_false] at hin
  rcases hin with rfl | rfl
  · exact (h x hx).1
  · exact (h x hx).2

/-- A step whose parts are normal. -/
def Step.Normal (st : Step) : Prop :=
  ∀ part ∈ st.parts, Everywhere Node.WellPlaced part.1 part.2

/-- The path of normal steps is normal. -/
theorem Node.normal_ofSteps {first : Step} {rest : List Step} (hfirst : first.Normal)
    (hrest : ∀ st ∈ rest, st.Normal) : (ofSteps first rest).Normal := by
  have hparts : ∀ part ∈ (Node.path (first :: rest)).parts,
      Everywhere WellPlaced part.1 part.2 := by
    intro part hpart
    obtain ⟨st, hst, hin⟩ := List.mem_flatMap.1 hpart
    rcases List.mem_cons.1 hst with rfl | hst
    · exact hfirst part hin
    · exact hrest st hst part hin
  unfold ofSteps
  split
  · rename_i x
    split
    · rename_i hx
      exact .mk ⟨by simp, fun y hy => by cases hy; exact hx⟩ hparts
    · rename_i hx
      exact normal_of_step (hfirst (.step, x) List.mem_cons_self) hx
  · rename_i hlone
    refine .mk ⟨by simp, fun y hy => ?_⟩ hparts
    cases hy
    exact (hlone y rfl rfl).elim

/-- A normal tree with its sign turned is normal. -/
theorem Node.normal_negated {x : Node} (h : x.Normal) (position : Nat) :
    (x.negated position).Normal := by
  unfold negated
  split
  · exact .leaf trivial rfl
  · rename_i hx
    exact .mk hx (by simpa [parts] using h)

/-! ## Lists of nodes -/

/-- Expressions that are read from less than `k` are normal. -/
def ReadsNormal (n k : Nat) : Prop :=
  ∀ {s : Ahead} {x : Node} {r : Behind s}, s.size < k → expression n s = .ok (x, r) → x.Normal

/-- What holds of what is ahead if it holds of all that is behind, holds always. -/
theorem ahead_induction {P : Ahead → Prop} (step : ∀ s, (∀ t : Behind s, P t.1) → P s)
    (s : Ahead) : P s :=
  (measure Ahead.size).wf.induction s fun s ih => step s fun t => ih t.1 t.2

variable {n k : Nat}

theorem items_normal (hk : ReadsNormal n k) {close : Token} {closing separating : Expected}
    {s : Ahead} {xs : List Node} {r : Behind s} (hs : s.size < k)
    (h : items n close closing separating s = .ok (xs, r)) : ∀ x ∈ xs, x.Normal := by
  induction s using ahead_induction generalizing xs with
  | step s ih =>
    rw [items] at h
    split at h
    · obtain ⟨s₁, -, h⟩ := bind_eq_ok_iff.1 h
      cases h
      simp
    · obtain ⟨⟨x, s₁, h₁⟩, hx, h⟩ := bind_eq_ok_iff.1 h
      have hx := hk hs hx
      dsimp only at h
      split at h
      · obtain ⟨⟨s₂, h₂⟩, -, h⟩ := bind_eq_ok_iff.1 h
        cases h
        simpa using hx
      · obtain ⟨⟨s₂, h₂⟩, -, h⟩ := bind_eq_ok_iff.1 h
        dsimp only at h
        obtain ⟨⟨xs', s₃, h₃⟩, hxs, h⟩ := bind_eq_ok_iff.1 h
        cases h
        have hxs := ih ⟨s₂, by omega⟩ (by dsimp only; omega) hxs
        exact List.forall_mem_cons.2 ⟨hx, hxs⟩

theorem pairs_normal (hk : ReadsNormal n k) {s : Ahead} {xs : List (Node × Node)} {r : Behind s}
    (hs : s.size < k) (h : pairs n s = .ok (xs, r)) : ∀ x ∈ xs, x.1.Normal ∧ x.2.Normal := by
  induction s using ahead_induction generalizing xs with
  | step s ih =>
    rw [pairs] at h
    split at h
    · obtain ⟨s₁, -, h⟩ := bind_eq_ok_iff.1 h
      cases h
      simp
    · obtain ⟨⟨key, s₁, h₁⟩, hkey, h⟩ := bind_eq_ok_iff.1 h
      have hkey := hk hs hkey
      dsimp only at h
      obtain ⟨⟨s₂, h₂⟩, -, h⟩ := bind_eq_ok_iff.1 h
      dsimp only at h
      obtain ⟨⟨value, s₃, h₃⟩, hvalue, h⟩ := bind_eq_ok_iff.1 h
      have hvalue := hk (by omega) hvalue
      dsimp only at h
      split at h
      · obtain ⟨⟨s₄, h₄⟩, -, h⟩ := bind_eq_ok_iff.1 h
        cases h
        simpa using ⟨hkey, hvalue⟩
      · obtain ⟨⟨s₄, h₄⟩, -, h⟩ := bind_eq_ok_iff.1 h
        dsimp only at h
        obtain ⟨⟨xs', s₅, h₅⟩, hxs, h⟩ := bind_eq_ok_iff.1 h
        cases h
        have hxs := ih ⟨s₄, by omega⟩ (by dsimp only; omega) hxs
        exact List.forall_mem_cons.2 ⟨⟨hkey, hvalue⟩, hxs⟩

theorem predicatesAfter_normal (hk : ReadsNormal n k) {s : Ahead} {xs : List Node} {keep : Bool}
    {r : From s} (hs : s.size ≤ k) (h : predicatesAfter n s = .ok (xs, keep, r)) :
    ∀ x ∈ xs, x.Normal := by
  induction s using ahead_induction generalizing xs keep with
  | step s ih =>
    rw [predicatesAfter] at h
    obtain ⟨found, -, h⟩ := bind_eq_ok_iff.1 h
    split at h
    · cases h
      simp
    · rename_i s₁ h₁
      split at h
      · obtain ⟨⟨s₂, h₂⟩, -, h⟩ := bind_eq_ok_iff.1 h
        dsimp only at h
        obtain ⟨⟨xs', keep', s₃, h₃⟩, hxs, h⟩ := bind_eq_ok_iff.1 h
        cases h
        exact ih ⟨s₂, by omega⟩ (by dsimp only; omega) hxs
      · obtain ⟨⟨x, s₂, h₂⟩, hx, h⟩ := bind_eq_ok_iff.1 h
        have hx := hk (by omega) hx
        dsimp only at h
        obtain ⟨⟨s₃, h₃⟩, -, h⟩ := bind_eq_ok_iff.1 h
        dsimp only at h
        obtain ⟨⟨xs', keep', s₄, h₄⟩, hxs, h⟩ := bind_eq_ok_iff.1 h
        cases h
        have hxs := ih ⟨s₃, by omega⟩ (by dsimp only; omega) hxs
        exact List.forall_mem_cons.2 ⟨hx, hxs⟩

/-! ## Operands -/

/-- The node that a word is as a step. -/
theorem nameNode_normal (field : String) : Everywhere Node.WellPlaced .step (nameNode field) := by
  unfold nameNode
  split
  · exact .leaf trivial rfl
  · exact .leaf trivial rfl
  · exact .leaf trivial rfl
  · exact .leaf rfl rfl

/-- A pattern that is read is behind its slash, and its node is made of it and of its flags. -/
theorem regexOperand_eq_ok {source rest : List Char} {x : Node}
    {r : Behind (.token .slash source rest)} (h : regexOperand n source rest = .ok (x, r)) :
    ∃ pattern flags after, regexAt (positionOf n source) rest = .ok (pattern, flags, after)
      ∧ next n after = .ok r.1 ∧ regexNode pattern flags (positionOf n source) = .ok x := by
  unfold regexOperand at h
  dsimp only at h
  split at h
  · cases h
  · rename_i found hfound
    split at h
    · cases h
    · rename_i s hs
      obtain ⟨y, hy, h⟩ := map_eq_ok_iff.1 h
      cases h
      exact ⟨_, _, _, hfound, hs, hy⟩

theorem regexOperand_normal {source rest : List Char} {x : Node}
    {r : Behind (.token .slash source rest)} (h : regexOperand n source rest = .ok (x, r)) :
    Everywhere Node.WellPlaced .step x := by
  obtain ⟨pattern, flags, -, -, -, hnode⟩ := regexOperand_eq_ok h
  unfold regexNode at hnode
  split at hnode
  · cases hnode
  · split at hnode
    · cases hnode
      exact .leaf trivial rfl
    · cases hnode

theorem primary_normal (hk : ReadsNormal n k) {s : Ahead} {x : Node} {r : Behind s}
    (hs : s.size ≤ k) (h : primary n s = .ok (x, r)) : Everywhere Node.WellPlaced .step x := by
  cases s with
  | finished =>
    rw [primary] at h
    cases h
  | token t source rest =>
    cases t with
    | number c =>
      rw [primary] at h
      obtain ⟨s₁, -, h⟩ := map_eq_ok_iff.1 h
      cases h
      exact .leaf trivial rfl
    | string c =>
      rw [primary] at h
      obtain ⟨s₁, -, h⟩ := map_eq_ok_iff.1 h
      cases h
      exact .leaf trivial rfl
    | name c =>
      rw [primary] at h
      obtain ⟨s₁, -, h⟩ := map_eq_ok_iff.1 h
      cases h
      exact nameNode_normal c
    | star =>
      rw [primary] at h
      obtain ⟨s₁, -, h⟩ := map_eq_ok_iff.1 h
      cases h
      exact .leaf rfl rfl
    | «variable» c =>
      rw [primary] at h
      obtain ⟨⟨s₁, h₁⟩, -, h⟩ := bind_eq_ok_iff.1 h
      dsimp only at h
      split at h
      · cases h
        exact .leaf trivial rfl
      · split at h
        · cases h
          exact .leaf trivial rfl
        · split at h
          · obtain ⟨⟨s₂, h₂⟩, -, h⟩ := bind_eq_ok_iff.1 h
            dsimp only at h
            obtain ⟨⟨xs, s₃, h₃⟩, hxs, h⟩ := bind_eq_ok_iff.1 h
            cases h
            have hxs := items_normal hk (by omega) hxs
            exact .mk trivial (by simpa [Node.parts] using hxs)
          · cases h
    | slash =>
      rw [primary] at h
      exact regexOperand_normal h
    | openParen =>
      rw [primary] at h
      obtain ⟨⟨s₁, h₁⟩, -, h⟩ := bind_eq_ok_iff.1 h
      dsimp only at h
      obtain ⟨⟨y, s₂, h₂⟩, hy, h⟩ := bind_eq_ok_iff.1 h
      dsimp only at h
      obtain ⟨⟨s₃, h₃⟩, -, h⟩ := bind_eq_ok_iff.1 h
      cases h
      exact (hk (by omega) hy).step
    | openBracket =>
      rw [primary] at h
      obtain ⟨⟨s₁, h₁⟩, -, h⟩ := bind_eq_ok_iff.1 h
      dsimp only at h
      obtain ⟨⟨xs, s₂, h₂⟩, hxs, h⟩ := bind_eq_ok_iff.1 h
      cases h
      have hxs := items_normal hk (by omega) hxs
      exact .mk trivial (by simpa [Node.parts] using hxs)
    | openBrace =>
      rw [primary] at h
      obtain ⟨⟨s₁, h₁⟩, -, h⟩ := bind_eq_ok_iff.1 h
      dsimp only at h
      obtain ⟨⟨xs, s₂, h₂⟩, hxs, h⟩ := bind_eq_ok_iff.1 h
      cases h
      have hxs := pairs_normal hk (by omega) hxs
      exact Node.normal_object hxs
    | _ =>
      simp only [primary] at h
      cases h

/-! ## Paths -/

theorem step_normal (hk : ReadsNormal n k) {s : Ahead} {st : Step} {r : Behind s}
    (hs : s.size ≤ k) (h : step n s = .ok (st, r)) : st.Normal := by
  rw [step] at h
  obtain ⟨⟨x, s₁, h₁⟩, hx, h⟩ := bind_eq_ok_iff.1 h
  have hx := primary_normal hk hs hx
  dsimp only at h
  obtain ⟨⟨xs, keep, s₂, h₂⟩, hxs, h⟩ := bind_eq_ok_iff.1 h
  cases h
  have hxs := predicatesAfter_normal hk (by omega) hxs
  exact List.forall_mem_cons.2 ⟨hx, by simpa [Step.predicates] using hxs⟩

theorem stepsAfter_normal (hk : ReadsNormal n k) {s : Ahead} {sts : List Step} {r : From s}
    (hs : s.size ≤ k) (h : stepsAfter n s = .ok (sts, r)) : ∀ st ∈ sts, st.Normal := by
  induction s using ahead_induction generalizing sts with
  | step s ih =>
    rw [stepsAfter] at h
    obtain ⟨found, -, h⟩ := bind_eq_ok_iff.1 h
    split at h
    · cases h
      simp
    · rename_i s₁ h₁
      obtain ⟨⟨st, s₂, h₂⟩, hst, h⟩ := bind_eq_ok_iff.1 h
      have hst := step_normal hk (by omega) hst
      dsimp only at h
      obtain ⟨⟨sts', s₃, h₃⟩, hsts, h⟩ := bind_eq_ok_iff.1 h
      cases h
      have hsts := ih ⟨s₂, by omega⟩ (by dsimp only; omega) hsts
      exact List.forall_mem_cons.2 ⟨hst, hsts⟩

theorem path_normal (hk : ReadsNormal n k) {s : Ahead} {x : Node} {r : Behind s}
    (hs : s.size ≤ k) (h : path n s = .ok (x, r)) : x.Normal := by
  rw [path] at h
  obtain ⟨⟨first, s₁, h₁⟩, hfirst, h⟩ := bind_eq_ok_iff.1 h
  have hfirst := step_normal hk hs hfirst
  dsimp only at h
  obtain ⟨⟨rest, s₂, h₂⟩, hrest, h⟩ := bind_eq_ok_iff.1 h
  cases h
  have hrest := stepsAfter_normal hk (by omega) hrest
  exact Node.normal_ofSteps hfirst hrest

theorem unary_normal (hk : ReadsNormal n k) {s : Ahead} {x : Node} {r : Behind s}
    (hs : s.size ≤ k) (h : unary n s = .ok (x, r)) : x.Normal := by
  induction s using ahead_induction generalizing x with
  | step s ih =>
    rw [unary] at h
    obtain ⟨found, -, h⟩ := bind_eq_ok_iff.1 h
    split at h
    · rename_i s₁ h₁
      obtain ⟨⟨y, s₂, h₂⟩, hy, h⟩ := bind_eq_ok_iff.1 h
      cases h
      have hy := ih ⟨s₁, h₁⟩ (by dsimp only; omega) hy
      exact Node.normal_negated hy _
    · exact path_normal hk hs h

/-! ## Operators -/

/-- How tightly operators of a level bind. -/
def Level.rank : Level → Nat
  | .oneOf => 1
  | .both => 2
  | .comparison => 3
  | .sum => 4
  | .product => 5

/-- What holds of products, and of each level if of the next tighter one, holds of all levels. -/
theorem Level.by_rank {P : Level → Prop} (product : P .product)
    (looser : ∀ {loose tight : Level}, tight.rank = loose.rank + 1 → P tight → P loose)
    (level : Level) : P level := by
  have hsum : P .sum := looser rfl product
  have hcomparison : P .comparison := looser rfl hsum
  have hboth : P .both := looser rfl hcomparison
  cases level with
  | oneOf => exact looser rfl hboth
  | both => exact hboth
  | comparison => exact hcomparison
  | sum => exact hsum
  | product => exact product

theorem operand_product (s : Ahead) : operand n .product s = unary n s := by
  rw [operand]

/-- The operands of a level are read at the next tighter one. -/
theorem operand_of_rank {loose tight : Level} (h : tight.rank = loose.rank + 1) (s : Ahead) :
    operand n loose s = operators n tight s := by
  cases loose <;> cases tight <;>
    first | (rw [operand]; done) | (simp only [Level.rank] at h; omega)

theorem Node.normal_binary {op : BinaryOp} {left right : Node} {position : Nat}
    (hleft : left.Normal) (hright : right.Normal) : (binary op left right position).Normal :=
  .binary trivial hleft hright

/-- If operands are normal, then what operators make of them is. -/
theorem operatorsAfter_normal {level : Level}
    (hoperand : ∀ {s : Ahead} {x : Node} {r : Behind s}, s.size ≤ k →
      operand n level s = .ok (x, r) → x.Normal)
    {s : Ahead} {left x : Node} {r : From s} (hs : s.size ≤ k) (hleft : left.Normal)
    (h : operatorsAfter n level left s = .ok (x, r)) : x.Normal := by
  induction s using ahead_induction generalizing left x with
  | step s ih =>
    rw [operatorsAfter] at h
    obtain ⟨found, -, h⟩ := bind_eq_ok_iff.1 h
    split at h
    · cases h
      exact hleft
    · rename_i op s₁ h₁
      obtain ⟨⟨right, s₂, h₂⟩, hright, h⟩ := bind_eq_ok_iff.1 h
      have hright := hoperand (by omega) hright
      have hbinary : (Node.binary op left right (s.position n)).Normal :=
        Node.normal_binary hleft hright
      dsimp only at h
      split at h
      · obtain ⟨⟨y, s₃, h₃⟩, hy, h⟩ := bind_eq_ok_iff.1 h
        cases h
        exact ih ⟨s₂, by omega⟩ (by dsimp only; omega) hbinary hy
      · cases h
        exact hbinary

/-- If operands are normal, then what is read with operators between them is. -/
theorem operators_normal_of_operand {level : Level}
    (hoperand : ∀ {s : Ahead} {x : Node} {r : Behind s}, s.size ≤ k →
      operand n level s = .ok (x, r) → x.Normal)
    {s : Ahead} {x : Node} {r : Behind s} (hs : s.size ≤ k)
    (h : operators n level s = .ok (x, r)) : x.Normal := by
  rw [operators] at h
  obtain ⟨⟨left, s₁, h₁⟩, hleft, h⟩ := bind_eq_ok_iff.1 h
  have hleft := hoperand hs hleft
  dsimp only at h
  obtain ⟨⟨y, s₂, h₂⟩, hy, h⟩ := bind_eq_ok_iff.1 h
  cases h
  exact operatorsAfter_normal hoperand (by omega) hleft hy

theorem operators_normal (hk : ReadsNormal n k) (level : Level) {s : Ahead} {x : Node}
    {r : Behind s} (hs : s.size ≤ k) (h : operators n level s = .ok (x, r)) : x.Normal := by
  induction level using Level.by_rank generalizing s x with
  | product =>
    refine operators_normal_of_operand (fun hs h => ?_) hs h
    rw [operand_product] at h
    exact unary_normal hk hs h
  | looser hrank ih =>
    refine operators_normal_of_operand (fun hs h => ?_) hs h
    rw [operand_of_rank hrank] at h
    exact ih hs h

/-! ## Expressions -/

theorem Node.normal_condition {test yes : Node} {no : Option Node} (htest : test.Normal)
    (hyes : yes.Normal) (hno : ∀ x ∈ no, x.Normal) : (condition test yes no).Normal := by
  refine .mk trivial (List.forall_mem_cons.2 ⟨htest, List.forall_mem_cons.2 ⟨hyes, ?_⟩⟩)
  simpa using hno

theorem expression_normal {s : Ahead} {x : Node} {r : Behind s}
    (h : expression n s = .ok (x, r)) : x.Normal := by
  induction s using ahead_induction generalizing x with
  | step s ih =>
    have hk : ReadsNormal n s.size := fun {t} _ _ ht hx => ih ⟨t, ht⟩ hx
    rw [expression] at h
    obtain ⟨⟨test, s₁, h₁⟩, htest, h⟩ := bind_eq_ok_iff.1 h
    have htest := operators_normal hk .oneOf (Nat.le_refl _) htest
    dsimp only at h
    obtain ⟨found, -, h⟩ := bind_eq_ok_iff.1 h
    split at h
    · cases h
      exact htest
    · rename_i s₂ h₂
      obtain ⟨⟨yes, s₃, h₃⟩, hyes, h⟩ := bind_eq_ok_iff.1 h
      have hyes := hk (by omega) hyes
      dsimp only at h
      obtain ⟨found, -, h⟩ := bind_eq_ok_iff.1 h
      split at h
      · cases h
        exact Node.normal_condition htest hyes (by simp)
      · rename_i s₄ h₄
        obtain ⟨⟨no, s₅, h₅⟩, hno, h⟩ := bind_eq_ok_iff.1 h
        cases h
        have hno := hk (by omega) hno
        exact Node.normal_condition htest hyes (by simpa using hno)

/-- Every tree of an expression is normal. -/
theorem parse_normal {text : String} {x : Node} (h : parse text = .ok x) : x.Normal := by
  unfold parse at h
  obtain ⟨s, -, h⟩ := bind_eq_ok_iff.1 h
  obtain ⟨⟨y, s₁, h₁⟩, hy, h⟩ := bind_eq_ok_iff.1 h
  dsimp only at h
  split at h
  · cases h
    exact expression_normal hy
  · cases h

end PipeQuery.Expr
