import PipeQuery.Proofs.Expr.Positions

/-!
# Every loop of the parser moves on

Each function that reads takes tokens of the text one after another.  What it gives says how many
at least (`Ahead.Reaches`), by what it read: each item of a list is a token or more, a key with its
value three, a step behind a point two, and so is an operator with its operand.

At the same time an error of reading stands in the text, and so does what nodes say of where they
come from (`Node.Placed`).  As with normal trees the lemmas suppose this of expressions that are
read from less than `k` (`ReadsPlaced`), and the last of them proves it by induction.
-/

namespace PipeQuery.Expr

open Ahead (Reaches)

variable {text : List Char} {k : Nat} {s : Ahead} {α : Type}

/-! ## Trees with positions -/

namespace Node

/-- Where a node says that it comes from. -/
def position? : Node → Option Nat
  | .negate _ position | .binary _ _ _ position | .call _ _ position => some position
  | _ => none

/-- A tree that comes from a text of `n` characters: no node of it from the end. -/
def Placed (n : Nat) (x : Node) : Prop :=
  ∀ place, Everywhere (fun _ y => ∀ position ∈ y.position?, position < n) place x

variable {n : Nat} {x : Node}

theorem placed_of_parts (hx : ∀ position ∈ x.position?, position < n)
    (hparts : ∀ part ∈ x.parts, part.2.Placed n) : x.Placed n :=
  fun _ => .mk hx fun part hpart => hparts part hpart part.1

/-- Where a part comes from does not depend on its place. -/
theorem Placed.parts (h : x.Placed n) : ∀ part ∈ x.parts, part.2.Placed n := by
  intro part hpart place
  have hin := (h .operand).parts part hpart
  exact .mk hin.here hin.parts

theorem placed_leaf (hx : x.position? = none) (hparts : x.parts = []) : x.Placed n :=
  placed_of_parts (by simp [hx]) (by simp [hparts])

theorem placed_binary {op : BinaryOp} {left right : Node} {position : Nat}
    (hleft : left.Placed n) (hright : right.Placed n) (hposition : position < n) :
    (binary op left right position).Placed n :=
  placed_of_parts (by simpa [position?] using hposition)
    (List.forall_mem_cons.2 ⟨hleft, List.forall_mem_singleton.2 hright⟩)

theorem placed_negated (h : x.Placed n) {position : Nat} (hposition : position < n) :
    (x.negated position).Placed n := by
  unfold negated
  split
  · exact placed_leaf rfl rfl
  · exact placed_of_parts (by simpa [position?] using hposition) (List.forall_mem_singleton.2 h)

theorem placed_condition {test yes : Node} {no : Option Node} (htest : test.Placed n)
    (hyes : yes.Placed n) (hno : ∀ x ∈ no, x.Placed n) : (condition test yes no).Placed n := by
  refine placed_of_parts (by simp [position?])
    (List.forall_mem_cons.2 ⟨htest, List.forall_mem_cons.2 ⟨hyes, ?_⟩⟩)
  simpa using hno

theorem placed_object {xs : List (Node × Node)} (h : ∀ x ∈ xs, x.1.Placed n ∧ x.2.Placed n) :
    (object xs).Placed n := by
  refine placed_of_parts (by simp [position?]) fun part hpart => ?_
  obtain ⟨x, hx, hin⟩ := List.mem_flatMap.1 hpart
  simp only [List.mem_cons, List.not_mem_nil, or_false] at hin
  rcases hin with rfl | rfl
  · exact (h x hx).1
  · exact (h x hx).2

end Node

/-- A step whose parts come from a text of `n` characters. -/
def Step.Placed (n : Nat) (st : Step) : Prop := ∀ part ∈ st.parts, part.2.Placed n

theorem Node.placed_ofSteps {n : Nat} {first : Step} {rest : List Step} (hfirst : first.Placed n)
    (hrest : ∀ st ∈ rest, st.Placed n) : (ofSteps first rest).Placed n := by
  have hsteps : ∀ st ∈ first :: rest, st.Placed n := List.forall_mem_cons.2 ⟨hfirst, hrest⟩
  have hpath : (Node.path (first :: rest)).Placed n := by
    refine placed_of_parts (by simp [position?]) fun part hpart => ?_
    obtain ⟨st, hst, hin⟩ := List.mem_flatMap.1 hpart
    exact hsteps st hst part hin
  unfold ofSteps
  split
  · split
    · exact hpath
    · exact hfirst _ List.mem_cons_self
  · exact hpath

/-! ## Tokens -/

namespace Ahead

theorem behind_yields {t : Token} {source rest : List Char}
    (hs : In text (.token t source rest)) :
    Yields (Error.Stands text.length)
      (fun r => Reaches text.length 1 (.token t source rest) r.1)
      (behind text.length t source rest) := by
  have hbehind := next_yields hs.behind_suffix.1
  unfold behind
  split
  · rename_i r hr
    exact .ok (.token hr .here (Nat.le_refl 1))
  · rename_i e he
    exact .error (hbehind.fails e he)

theorem accept_yields {read : Token → Option α} (hs : s.In text) :
    Yields (Error.Stands text.length)
      (fun found => ∀ p ∈ found,
        Reaches text.length 1 s p.2.1 ∧ s.position text.length < text.length)
      (s.accept text.length read) := by
  cases s with
  | finished => exact .ok (by simp)
  | token t source rest =>
    rw [accept]
    split
    · exact .ok (by simp)
    · refine (behind_yields hs).map fun r hr p hp => ?_
      cases hp
      exact ⟨hr, hs.position_lt⟩

theorem acceptToken_yields {t : Token} (hs : s.In text) :
    Yields (Error.Stands text.length)
      (fun found => ∀ r ∈ found,
        Reaches text.length 1 s r.1 ∧ s.position text.length < text.length)
      (s.acceptToken text.length t) := by
  refine (accept_yields hs).map fun found hfound r hr => ?_
  obtain ⟨p, hp, rfl⟩ := Option.map_eq_some_iff.1 hr
  exact hfound p hp

/-- Where another token is expected an error stands, which is at the end only if the text has
ended. -/
theorem In.stands (hs : s.In text) (cause : Option Token → Cause)
    (hend : (cause none).isEnd = true) :
    Error.Stands text.length ⟨s.position text.length, cause s.head?⟩ := by
  cases s with
  | finished => exact Or.inr ⟨rfl, hend⟩
  | token t source rest => exact Or.inl hs.position_lt

theorem expect_yields {what : Expected} {t : Token} (hs : s.In text) :
    Yields (Error.Stands text.length) (fun r => Reaches text.length 1 s r.1)
      (s.expect text.length what t) := by
  refine (acceptToken_yields hs).bind fun found hfound => ?_
  cases found with
  | none => exact .error (hs.stands (.expected what) rfl)
  | some r => exact .ok (hfound r rfl).1

end Ahead

/-! ## Lists of nodes -/

/-- A node that comes from the text and takes a token or more. -/
def ReadNode (text : List Char) (s : Ahead) {P : Ahead → Prop} (p : Node × {t // P t}) : Prop :=
  p.1.Placed text.length ∧ Reaches text.length 1 s p.2.1

/-- Expressions that are read from less than `k` come from the text and take a token or more. -/
def ReadsPlaced (text : List Char) (k : Nat) : Prop :=
  ∀ {s : Ahead}, s.size < k → s.In text →
    Yields (Error.Stands text.length) (ReadNode text s) (expression text.length s)

theorem items_yields (close : Token) (closing separating : Expected) (hk : ReadsPlaced text k)
    (hsize : s.size < k) (hs : s.In text) :
    Yields (Error.Stands text.length)
      (fun p => (∀ x ∈ p.1, x.Placed text.length) ∧ Reaches text.length (p.1.length + 1) s p.2.1)
      (items text.length close closing separating s) := by
  induction s using ahead_induction with
  | step s ih =>
    rw [items]
    split
    · exact (Ahead.expect_yields hs).bind fun r hr => .ok ⟨by simp, hr⟩
    · refine (hk hsize hs).bind ?_
      rintro ⟨x, s₁, h₁⟩ ⟨hx, hr₁⟩
      have hs₁ : s₁.In text := hr₁.inText hs
      dsimp only
      split
      · exact (Ahead.expect_yields hs₁).bind fun r hr =>
          .ok ⟨List.forall_mem_singleton.2 hx, hr₁.trans hr⟩
      · refine (Ahead.expect_yields hs₁).bind ?_
        rintro ⟨s₂, h₂⟩ hr₂
        have hrest := ih ⟨s₂, by omega⟩ (by dsimp only; omega) (hr₂.inText hs₁)
        refine hrest.bind ?_
        rintro ⟨xs, s₃, h₃⟩ ⟨hxs, hr₃⟩
        refine .ok ⟨List.forall_mem_cons.2 ⟨hx, hxs⟩, (hr₁.trans (hr₂.trans hr₃)).mono ?_⟩
        simp only [List.length_cons]
        omega

theorem pairs_yields (hk : ReadsPlaced text k) (hsize : s.size < k) (hs : s.In text) :
    Yields (Error.Stands text.length)
      (fun p => (∀ x ∈ p.1, x.1.Placed text.length ∧ x.2.Placed text.length)
        ∧ Reaches text.length (3 * p.1.length + 1) s p.2.1)
      (pairs text.length s) := by
  induction s using ahead_induction with
  | step s ih =>
    rw [pairs]
    split
    · exact (Ahead.expect_yields hs).bind fun r hr => .ok ⟨by simp, hr⟩
    · refine (hk hsize hs).bind ?_
      rintro ⟨key, s₁, h₁⟩ ⟨hkey, hr₁⟩
      have hs₁ : s₁.In text := hr₁.inText hs
      refine (Ahead.expect_yields hs₁).bind ?_
      rintro ⟨s₂, h₂⟩ hr₂
      have hs₂ : s₂.In text := hr₂.inText hs₁
      refine (hk (by omega) hs₂).bind ?_
      rintro ⟨value, s₃, h₃⟩ ⟨hvalue, hr₃⟩
      have hs₃ : s₃.In text := hr₃.inText hs₂
      have hpair : Reaches text.length 3 s s₃ := hr₁.trans (hr₂.trans hr₃)
      dsimp only
      split
      · exact (Ahead.expect_yields hs₃).bind fun r hr =>
          .ok ⟨List.forall_mem_singleton.2 ⟨hkey, hvalue⟩, hpair.trans hr⟩
      · refine (Ahead.expect_yields hs₃).bind ?_
        rintro ⟨s₄, h₄⟩ hr₄
        have hrest := ih ⟨s₄, by omega⟩ (by dsimp only; omega) (hr₄.inText hs₃)
        refine hrest.bind ?_
        rintro ⟨xs, s₅, h₅⟩ ⟨hxs, hr₅⟩
        refine .ok ⟨List.forall_mem_cons.2 ⟨⟨hkey, hvalue⟩, hxs⟩,
          (hpair.trans (hr₄.trans hr₅)).mono ?_⟩
        simp only [List.length_cons]
        omega

/-- The brackets of predicates, and those that keep an array. -/
theorem predicatesAfter_yields (hk : ReadsPlaced text k) (hsize : s.size ≤ k) (hs : s.In text) :
    Yields (Error.Stands text.length)
      (fun p => (∀ x ∈ p.1, x.Placed text.length)
        ∧ Reaches text.length (3 * p.1.length + if p.2.1 then 2 else 0) s p.2.2.1)
      (predicatesAfter text.length s) := by
  induction s using ahead_induction with
  | step s ih =>
    rw [predicatesAfter]
    refine (Ahead.acceptToken_yields hs).bind fun found hfound => ?_
    cases found with
    | none => exact .ok ⟨by simp, .here⟩
    | some r =>
      obtain ⟨s₁, h₁⟩ := r
      have hr₁ : Reaches text.length 1 s s₁ := (hfound _ rfl).1
      have hs₁ : s₁.In text := hr₁.inText hs
      dsimp only
      split
      · refine (Ahead.expect_yields hs₁).bind ?_
        rintro ⟨s₂, h₂⟩ hr₂
        have hrest := ih ⟨s₂, by omega⟩ (by dsimp only; omega) (hr₂.inText hs₁)
        refine hrest.bind ?_
        rintro ⟨xs, keep, s₃, h₃⟩ ⟨hxs, hr₃⟩
        refine .ok ⟨hxs, (hr₁.trans (hr₂.trans hr₃)).mono ?_⟩
        simp only [if_true]
        omega
      · refine (hk (by omega) hs₁).bind ?_
        rintro ⟨x, s₂, h₂⟩ ⟨hx, hr₂⟩
        have hs₂ : s₂.In text := hr₂.inText hs₁
        refine (Ahead.expect_yields hs₂).bind ?_
        rintro ⟨s₃, h₃⟩ hr₃
        have hrest := ih ⟨s₃, by omega⟩ (by dsimp only; omega) (hr₃.inText hs₂)
        refine hrest.bind ?_
        rintro ⟨xs, keep, s₄, h₄⟩ ⟨hxs, hr₄⟩
        refine .ok ⟨List.forall_mem_cons.2 ⟨hx, hxs⟩,
          (hr₁.trans (hr₂.trans (hr₃.trans hr₄))).mono ?_⟩
        simp only [List.length_cons]
        omega

/-! ## Operands -/

theorem nameNode_placed (n : Nat) (x : String) : (nameNode x).Placed n := by
  unfold nameNode
  split <;> exact Node.placed_leaf rfl rfl

theorem regexOperand_yields {source rest : List Char}
    (hs : (Ahead.token .slash source rest).In text) :
    Yields (Error.Stands text.length) (ReadNode text (.token .slash source rest))
      (regexOperand text.length source rest) := by
  have hstart : positionOf text.length source < text.length := hs.position_lt
  unfold regexOperand
  dsimp only
  split
  · rename_i e he
    exact .error (Or.inl (by rw [regexAt_position he]; exact hstart))
  · rename_i pattern flags after hread
    obtain ⟨taken, htaken, -⟩ := regexAt_taken hread
    have hafter : after <:+ text := List.IsSuffix.trans ⟨taken, htaken⟩ hs.behind_suffix.1
    split
    · rename_i e he
      exact .error ((next_yields hafter).fails e he)
    · rename_i r hr
      have hnode : Yields (Error.Stands text.length) (Node.Placed text.length)
          (regexNode pattern flags (positionOf text.length source)) := by
        unfold regexNode
        split
        · exact .error (Or.inl hstart)
        · split
          · exact .ok (Node.placed_leaf rfl rfl)
          · exact .error (Or.inl hstart)
      exact hnode.map fun x hx => ⟨hx, .regex hread hr .here (Nat.le_refl 1)⟩

theorem primary_yields (hk : ReadsPlaced text k) (hsize : s.size ≤ k) (hs : s.In text) :
    Yields (Error.Stands text.length) (ReadNode text s) (primary text.length s) := by
  cases s with
  | finished =>
    rw [primary]
    exact .error (Or.inr ⟨rfl, rfl⟩)
  | token t source rest =>
    have hstart : positionOf text.length source < text.length := hs.position_lt
    cases t with
    | number c | string c | star =>
      rw [primary]
      exact (Ahead.behind_yields hs).map fun r hr => ⟨Node.placed_leaf rfl rfl, hr⟩
    | name c =>
      rw [primary]
      exact (Ahead.behind_yields hs).map fun r hr => ⟨nameNode_placed _ c, hr⟩
    | «variable» c =>
      rw [primary]
      refine (Ahead.behind_yields hs).bind ?_
      rintro ⟨s₁, h₁⟩ hr₁
      have hs₁ : s₁.In text := hr₁.inText hs
      dsimp only
      split
      · exact .ok ⟨Node.placed_leaf rfl rfl, hr₁⟩
      · split
        · exact .ok ⟨Node.placed_leaf rfl rfl, hr₁⟩
        · split
          · refine (Ahead.expect_yields hs₁).bind ?_
            rintro ⟨s₂, h₂⟩ hr₂
            have hs₂ : s₂.In text := hr₂.inText hs₁
            have hitems := items_yields .closeParen .closeParen .commaOrCloseParen hk (by omega) hs₂
            refine hitems.bind ?_
            rintro ⟨xs, s₃, h₃⟩ ⟨hxs, hr₃⟩
            refine .ok ⟨?_, ?_⟩
            · refine Node.placed_of_parts (by simpa [Node.position?] using hstart) ?_
              simpa [Node.parts] using hxs
            · exact (hr₁.trans (hr₂.trans hr₃)).mono (by omega)
          · exact .error (Or.inl hstart)
    | slash =>
      rw [primary]
      exact regexOperand_yields hs
    | openParen =>
      rw [primary]
      refine (Ahead.behind_yields hs).bind ?_
      rintro ⟨s₁, h₁⟩ hr₁
      have hs₁ : s₁.In text := hr₁.inText hs
      refine (hk (by omega) hs₁).bind ?_
      rintro ⟨x, s₂, h₂⟩ ⟨hx, hr₂⟩
      have hs₂ : s₂.In text := hr₂.inText hs₁
      refine (Ahead.expect_yields hs₂).bind ?_
      rintro ⟨s₃, h₃⟩ hr₃
      exact .ok ⟨hx, (hr₁.trans (hr₂.trans hr₃)).mono (by omega)⟩
    | openBracket =>
      rw [primary]
      refine (Ahead.behind_yields hs).bind ?_
      rintro ⟨s₁, h₁⟩ hr₁
      have hs₁ : s₁.In text := hr₁.inText hs
      have hitems := items_yields .closeBracket .closeBracket .commaOrCloseBracket hk (by omega) hs₁
      refine hitems.bind ?_
      rintro ⟨xs, s₂, h₂⟩ ⟨hxs, hr₂⟩
      refine .ok ⟨Node.placed_of_parts (by simp [Node.position?]) ?_,
        (hr₁.trans hr₂).mono (by omega)⟩
      simpa [Node.parts] using hxs
    | openBrace =>
      rw [primary]
      refine (Ahead.behind_yields hs).bind ?_
      rintro ⟨s₁, h₁⟩ hr₁
      have hs₁ : s₁.In text := hr₁.inText hs
      refine (pairs_yields hk (by omega) hs₁).bind ?_
      rintro ⟨xs, s₂, h₂⟩ ⟨hxs, hr₂⟩
      exact .ok ⟨Node.placed_object hxs, (hr₁.trans hr₂).mono (by omega)⟩
    | _ =>
      simp only [primary]
      exact .error (Or.inl hstart)

/-! ## Paths -/

theorem step_yields (hk : ReadsPlaced text k) (hsize : s.size ≤ k) (hs : s.In text) :
    Yields (Error.Stands text.length)
      (fun p => Step.Placed text.length p.1 ∧ Reaches text.length 1 s p.2.1)
      (step text.length s) := by
  rw [step]
  refine (primary_yields hk hsize hs).bind ?_
  rintro ⟨x, s₁, h₁⟩ ⟨hx, hr₁⟩
  have hs₁ : s₁.In text := hr₁.inText hs
  refine (predicatesAfter_yields hk (by omega) hs₁).bind ?_
  rintro ⟨xs, keep, s₂, h₂⟩ ⟨hxs, hr₂⟩
  refine .ok ⟨?_, (hr₁.trans hr₂).mono (by omega)⟩
  exact List.forall_mem_cons.2 ⟨hx, by simpa [Step.predicates] using hxs⟩

theorem stepsAfter_yields (hk : ReadsPlaced text k) (hsize : s.size ≤ k) (hs : s.In text) :
    Yields (Error.Stands text.length)
      (fun p => (∀ st ∈ p.1, st.Placed text.length)
        ∧ Reaches text.length (2 * p.1.length) s p.2.1)
      (stepsAfter text.length s) := by
  induction s using ahead_induction with
  | step s ih =>
    rw [stepsAfter]
    refine (Ahead.acceptToken_yields hs).bind fun found hfound => ?_
    cases found with
    | none => exact .ok ⟨by simp, .here⟩
    | some r =>
      obtain ⟨s₁, h₁⟩ := r
      have hr₁ : Reaches text.length 1 s s₁ := (hfound _ rfl).1
      have hs₁ : s₁.In text := hr₁.inText hs
      dsimp only
      refine (step_yields hk (by omega) hs₁).bind ?_
      rintro ⟨st, s₂, h₂⟩ ⟨hst, hr₂⟩
      have hs₂ : s₂.In text := hr₂.inText hs₁
      refine (ih ⟨s₂, by omega⟩ (by dsimp only; omega) hs₂).bind ?_
      rintro ⟨sts, s₃, h₃⟩ ⟨hsts, hr₃⟩
      refine .ok ⟨List.forall_mem_cons.2 ⟨hst, hsts⟩, (hr₁.trans (hr₂.trans hr₃)).mono ?_⟩
      simp only [List.length_cons]
      omega

theorem path_yields (hk : ReadsPlaced text k) (hsize : s.size ≤ k) (hs : s.In text) :
    Yields (Error.Stands text.length) (ReadNode text s) (path text.length s) := by
  rw [path]
  refine (step_yields hk hsize hs).bind ?_
  rintro ⟨first, s₁, h₁⟩ ⟨hfirst, hr₁⟩
  have hs₁ : s₁.In text := hr₁.inText hs
  refine (stepsAfter_yields hk (by omega) hs₁).bind ?_
  rintro ⟨rest, s₂, h₂⟩ ⟨hrest, hr₂⟩
  exact .ok ⟨Node.placed_ofSteps hfirst hrest, (hr₁.trans hr₂).mono (by omega)⟩

theorem unary_yields (hk : ReadsPlaced text k) (hsize : s.size ≤ k) (hs : s.In text) :
    Yields (Error.Stands text.length) (ReadNode text s) (unary text.length s) := by
  induction s using ahead_induction with
  | step s ih =>
    rw [unary]
    refine (Ahead.acceptToken_yields hs).bind fun found hfound => ?_
    cases found with
    | none => exact path_yields hk hsize hs
    | some r =>
      obtain ⟨s₁, h₁⟩ := r
      obtain ⟨hr₁, hposition⟩ := hfound _ rfl
      have hs₁ : s₁.In text := hr₁.inText hs
      dsimp only
      refine (ih ⟨s₁, h₁⟩ (by dsimp only; omega) hs₁).bind ?_
      rintro ⟨x, s₂, h₂⟩ ⟨hx, hr₂⟩
      exact .ok ⟨Node.placed_negated hx hposition, (hr₁.trans hr₂).mono (by omega)⟩

/-! ## Operators -/

/-- A chain of operators with their right operands and positions, behind a left operand. -/
def Node.chain (left : Node) (rounds : List (BinaryOp × Node × Nat)) : Node :=
  rounds.foldl (fun left (op, right, position) => .binary op left right position) left

/-- If operands come from the text, then so does what operators make of them and of a left operand
from the text; and each operator with its operand is two tokens or more. -/
theorem operatorsAfter_yields {level : Level}
    (hoperand : ∀ {s : Ahead}, s.size ≤ k → s.In text →
      Yields (Error.Stands text.length) (ReadNode text s) (operand text.length level s))
    {left : Node} (hsize : s.size ≤ k) (hs : s.In text) :
    Yields (Error.Stands text.length)
      (fun p => (left.Placed text.length → p.1.Placed text.length)
        ∧ ∃ rounds, p.1 = left.chain rounds ∧ Reaches text.length (2 * rounds.length) s p.2.1)
      (operatorsAfter text.length level left s) := by
  induction s using ahead_induction generalizing left with
  | step s ih =>
    rw [operatorsAfter]
    refine (Ahead.accept_yields hs).bind fun found hfound => ?_
    cases found with
    | none => exact .ok ⟨id, [], rfl, .here⟩
    | some r =>
      obtain ⟨op, s₁, h₁⟩ := r
      obtain ⟨hr₁, hposition⟩ := hfound _ rfl
      have hs₁ : s₁.In text := hr₁.inText hs
      dsimp only
      refine (hoperand (by omega) hs₁).bind ?_
      rintro ⟨right, s₂, h₂⟩ ⟨hright, hr₂⟩
      have hs₂ : s₂.In text := hr₂.inText hs₁
      have hbinary : left.Placed text.length →
          (Node.binary op left right (s.position text.length)).Placed text.length :=
        fun hleft => Node.placed_binary hleft hright hposition
      have hround : Reaches text.length 2 s s₂ := hr₁.trans hr₂
      dsimp only
      split
      · have hrest := @ih ⟨s₂, by omega⟩ (.binary op left right (s.position text.length))
          (by dsimp only; omega) hs₂
        refine hrest.bind ?_
        rintro ⟨x, s₃, h₃⟩ ⟨hx, rounds, hrounds, hr₃⟩
        refine .ok ⟨fun hleft => hx (hbinary hleft), (op, right, s.position text.length) :: rounds,
          hrounds, (hround.trans hr₃).mono ?_⟩
        simp only [List.length_cons]
        omega
      · exact .ok ⟨hbinary, [(op, right, s.position text.length)], rfl, hround⟩

theorem operators_yields_of_operand {level : Level}
    (hoperand : ∀ {s : Ahead}, s.size ≤ k → s.In text →
      Yields (Error.Stands text.length) (ReadNode text s) (operand text.length level s))
    (hsize : s.size ≤ k) (hs : s.In text) :
    Yields (Error.Stands text.length) (ReadNode text s) (operators text.length level s) := by
  rw [operators]
  refine (hoperand hsize hs).bind ?_
  rintro ⟨left, s₁, h₁⟩ ⟨hleft, hr₁⟩
  have hs₁ : s₁.In text := hr₁.inText hs
  refine (operatorsAfter_yields hoperand (by omega) hs₁).bind ?_
  rintro ⟨x, s₂, h₂⟩ ⟨hx, rounds, _, hr₂⟩
  exact .ok ⟨hx hleft, (hr₁.trans hr₂).mono (by omega)⟩

theorem operators_yields (hk : ReadsPlaced text k) (level : Level) (hsize : s.size ≤ k)
    (hs : s.In text) :
    Yields (Error.Stands text.length) (ReadNode text s) (operators text.length level s) := by
  induction level using Level.by_rank generalizing s with
  | product =>
    refine operators_yields_of_operand (fun hsize hs => ?_) hsize hs
    rw [operand_product]
    exact unary_yields hk hsize hs
  | looser hrank ih =>
    refine operators_yields_of_operand (fun hsize hs => ?_) hsize hs
    rw [operand_of_rank hrank]
    exact ih hsize hs

/-! ## Expressions -/

theorem expression_yields (hs : s.In text) :
    Yields (Error.Stands text.length) (ReadNode text s) (expression text.length s) := by
  induction s using ahead_induction with
  | step s ih =>
    have hk : ReadsPlaced text s.size := fun {t} ht hs => ih ⟨t, ht⟩ hs
    rw [expression]
    refine (operators_yields hk .oneOf (Nat.le_refl _) hs).bind ?_
    rintro ⟨test, s₁, h₁⟩ ⟨htest, hr₁⟩
    have hs₁ : s₁.In text := hr₁.inText hs
    refine (Ahead.acceptToken_yields hs₁).bind fun found hfound => ?_
    cases found with
    | none => exact .ok ⟨htest, hr₁⟩
    | some r =>
      obtain ⟨s₂, h₂⟩ := r
      have hr₂ : Reaches text.length 1 s₁ s₂ := (hfound _ rfl).1
      have hs₂ : s₂.In text := hr₂.inText hs₁
      dsimp only
      refine (hk (by omega) hs₂).bind ?_
      rintro ⟨yes, s₃, h₃⟩ ⟨hyes, hr₃⟩
      have hs₃ : s₃.In text := hr₃.inText hs₂
      have hbranch : Reaches text.length 3 s s₃ := hr₁.trans (hr₂.trans hr₃)
      refine (Ahead.acceptToken_yields hs₃).bind fun found hfound => ?_
      cases found with
      | none =>
        exact .ok ⟨Node.placed_condition htest hyes (by simp), hbranch.mono (by omega)⟩
      | some r =>
        obtain ⟨s₄, h₄⟩ := r
        have hr₄ : Reaches text.length 1 s₃ s₄ := (hfound _ rfl).1
        have hs₄ : s₄.In text := hr₄.inText hs₃
        dsimp only
        refine (hk (by omega) hs₄).bind ?_
        rintro ⟨no, s₅, h₅⟩ ⟨hno, hr₅⟩
        exact .ok ⟨Node.placed_condition htest hyes (by simpa using hno),
          (hbranch.trans (hr₄.trans hr₅)).mono (by omega)⟩

theorem readsPlaced (text : List Char) (k : Nat) : ReadsPlaced text k := by
  intro s _ hs
  exact expression_yields hs

theorem operand_yields (level : Level) (hs : s.In text) :
    Yields (Error.Stands text.length) (ReadNode text s) (operand text.length level s) := by
  have hk : ReadsPlaced text s.size := readsPlaced text s.size
  induction level using Level.by_rank with
  | product =>
    rw [operand_product]
    exact unary_yields hk (Nat.le_refl _) hs
  | @looser loose tight hrank _ =>
    rw [operand_of_rank hrank]
    exact operators_yields hk tight (Nat.le_refl _) hs

/-- A text that is parsed comes from its beginning to its end, by tokens and patterns. -/
theorem parse_yields (text : String) :
    Yields (Error.Stands text.toList.length)
      (fun x => x.Placed text.toList.length ∧ ∃ s h, next text.toList.length text.toList = .ok s
        ∧ expression text.toList.length s = .ok (x, ⟨.finished, h⟩) ∧ s.In text.toList
        ∧ Reaches text.toList.length 1 s .finished)
      (parse text) := by
  have hnext := next_yields (List.suffix_refl text.toList)
  unfold parse
  dsimp only
  cases hs : next text.toList.length text.toList with
  | error e => exact .error (hnext.fails e hs)
  | ok s =>
    have hin : s.In text.toList := (hnext.gives s hs).1
    refine (expression_yields hin).given.bind ?_
    rintro ⟨x, r, hr⟩ ⟨⟨hx, hreaches⟩, hread⟩
    cases r with
    | finished => exact .ok ⟨hx, s, hr, rfl, hread, hin, hreaches⟩
    | token t source behind => exact .error ((hreaches.inText hin).stands (.expected _) rfl)

end PipeQuery.Expr
