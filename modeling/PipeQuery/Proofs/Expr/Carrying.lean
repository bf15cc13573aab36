import PipeQuery.Proofs.Expr.ClosedText
import PipeQuery.Proofs.Expr.Operands

/-!
# Expressions before a closing parenthesis

What is read from a text is read as well if a closing parenthesis follows the text, up to
positions: where the text ends, the functions that read see a token that goes on with nothing.

`Carries R x y` says that a result of `x` is carried over to a related result of `y`.  Results
that go on from one another are carried over one by one (`Carries.bind`), so each function that
reads has its lemma by its own equation.  As with normal trees, the lemmas suppose of expressions
that they are carried over from less than `k` (`CarriesNodes`), and the last of them proves it by
induction.
-/

namespace PipeQuery.Expr

open Ahead (Closed)

/-! ## Results carried over -/

variable {α β γ δ : Type} {R : α → β → Prop} {S : γ → δ → Prop}

/-- Where the first outcome is a result, the second is one related to it. -/
def Carries (R : α → β → Prop) (x : Except Error α) (y : Except Error β) : Prop :=
  ∀ a, x = .ok a → ∃ b, y = .ok b ∧ R a b

namespace Carries

variable {x : Except Error α} {y : Except Error β}

theorem ok {a : α} {b : β} (h : R a b) : Carries R (.ok a) (.ok b) := by
  intro a' ha
  cases ha
  exact ⟨b, rfl, h⟩

theorem of_error {e : Error} (h : x = .error e) : Carries R x y := by
  intro a ha
  rw [h] at ha
  cases ha

/-- Going on from related results carries results over, if it does from each pair. -/
theorem bind {f : α → Except Error γ} {g : β → Except Error δ} (h : Carries R x y)
    (hf : ∀ a b, R a b → Carries S (f a) (g b)) : Carries S (x >>= f) (y >>= g) := by
  intro c hc
  obtain ⟨a, rfl, hc⟩ := bind_eq_ok_iff.1 hc
  obtain ⟨b, rfl, hab⟩ := h a rfl
  exact hf a b hab c hc

theorem map {f : α → γ} {g : β → δ} (h : Carries R x y) (hf : ∀ a b, R a b → S (f a) (g b)) :
    Carries S (x.map f) (y.map g) := by
  intro c hc
  obtain ⟨a, rfl, rfl⟩ := map_eq_ok_iff.1 hc
  obtain ⟨b, rfl, hab⟩ := h a rfl
  exact ⟨g b, rfl, hf a b hab⟩

/-- Behind the end of a text there is nothing to read. -/
theorem finished {x : Except Error (Parsed .finished α)} {R : Parsed .finished α → β → Prop} :
    Carries R x y :=
  fun a _ => absurd a.2.2 (Nat.not_lt_zero _)

end Carries

/-! ## Tokens -/

variable {n m k : Nat} {tail : List Char} {s s' : Ahead}

/-- What is ahead behind two tokens is the same before the closing parenthesis. -/
def SameBehind (tail : List Char) {P Q : Ahead → Prop} (a : {t // P t}) (b : {t // Q t}) : Prop :=
  Closed tail a.1 b.1

/-- What was read is the same as `f` has it, and so is what is ahead behind it. -/
def SameRead (tail : List Char) (f : α → γ) {P Q : Ahead → Prop} (a : α × {t // P t})
    (b : α × {t // Q t}) : Prop :=
  f a.1 = f b.1 ∧ SameBehind tail a.2 b.2

theorem behind_carries {t : Token} {source source' behind : List Char}
    (h : CommentFree behind) :
    Carries (SameBehind tail) (Ahead.behind n t source behind)
      (Ahead.behind m t source' (behind ++ ')' :: tail)) := by
  intro a ha
  obtain ⟨s, hs⟩ := a
  have hnext : next n behind = .ok s := by
    unfold Ahead.behind at ha
    split at ha
    · cases ha
      assumption
    · cases ha
  obtain ⟨s', hnext', hclosed⟩ := next_closed m tail h hnext
  obtain ⟨h', hbehind⟩ := behind_of_next t source' hnext'
  exact ⟨_, hbehind, hclosed⟩

namespace Ahead

/-- Taking a token is the same, unless the closing parenthesis is taken where the text ends. -/
theorem Closed.accept_carries {read : Token → Option α} (h : Closed tail s s')
    (hread : s = .finished → read .closeParen = none) :
    Carries (Option.Rel (SameRead tail id)) (s.accept n read) (s'.accept m read) := by
  cases h with
  | finished =>
    rw [accept, accept, hread rfl]
    exact .ok .none
  | @token t source behind hfree =>
    rw [accept, accept]
    cases read t with
    | none => exact .ok .none
    | some a => exact (behind_carries hfree).map fun _ _ hab => .some ⟨rfl, hab⟩

theorem Closed.acceptToken_carries {t : Token} (h : Closed tail s s')
    (ht : s = .finished → t ≠ .closeParen) :
    Carries (Option.Rel (SameBehind tail)) (s.acceptToken n t) (s'.acceptToken m t) := by
  refine (h.accept_carries fun hs => if_neg (ht hs).symm).map fun a b hab => ?_
  cases hab with
  | none => exact .none
  | some hab => exact .some hab.2

theorem Closed.expect_carries {what : Expected} {t : Token} (h : Closed tail s s') :
    Carries (SameBehind tail) (s.expect n what t) (s'.expect m what t) := by
  cases s with
  | finished => exact .of_error rfl
  | token u source behind =>
    refine (h.acceptToken_carries (by rintro ⟨⟩)).bind fun a b hab => ?_
    cases hab with
    | none => exact .of_error rfl
    | some hab => exact .ok hab

/-- The first token is the same, unless the closing parenthesis is looked for where the text
ends. -/
theorem Closed.startsWith {t : Token} (h : Closed tail s s')
    (ht : s = .finished → t ≠ .closeParen) : s'.startsWith t = s.startsWith t := by
  cases h with
  | finished =>
    have hne : Token.closeParen ≠ t := (ht rfl).symm
    simp [Ahead.startsWith, head?, hne]
  | token hfree => rfl

end Ahead

/-! ## Lists of nodes -/

/-- Expressions read from less than `k` are carried over. -/
def CarriesNodes (n m : Nat) (tail : List Char) (k : Nat) : Prop :=
  ∀ {s s' : Ahead}, s.size < k → Closed tail s s' →
    Carries (SameRead tail Node.unplaced) (expression n s) (expression m s')

theorem items_carries (close : Token) (closing separating : Expected)
    (hk : CarriesNodes n m tail k) (hs : s.size < k) (h : Closed tail s s') :
    Carries (SameRead tail unplacedItems) (items n close closing separating s)
      (items m close closing separating s') := by
  induction s using ahead_induction generalizing s' with
  | step s ih =>
    cases s with
    | finished => exact .finished
    | token t source behind =>
      rw [items, items, h.startsWith (by rintro ⟨⟩)]
      split
      · refine h.expect_carries.bind fun a b hab => .ok ⟨rfl, hab⟩
      · refine (hk hs h).bind ?_
        rintro ⟨x, s₁, h₁⟩ ⟨x', s₁', h₁'⟩ ⟨hx, h⟩
        cases s₁ with
        | finished => exact .of_error rfl
        | token u source₁ behind₁ =>
          dsimp only [SameBehind] at h ⊢
          rw [h.startsWith (by rintro ⟨⟩)]
          split
          · refine h.expect_carries.bind fun a b hab => .ok ⟨?_, hab⟩
            exact congrArg (· :: []) hx
          · refine h.expect_carries.bind ?_
            rintro ⟨s₂, h₂⟩ ⟨s₂', h₂'⟩ h
            dsimp only [SameBehind] at h ⊢
            have hrest := ih ⟨s₂, by omega⟩ (by dsimp only; omega) h
            refine hrest.bind ?_
            rintro ⟨xs, s₃, h₃⟩ ⟨xs', s₃', h₃'⟩ ⟨hxs, h⟩
            refine .ok ⟨?_, h⟩
            exact congrArg₂ List.cons hx hxs

theorem pairs_carries (hk : CarriesNodes n m tail k) (hs : s.size < k) (h : Closed tail s s') :
    Carries (SameRead tail unplacedPairs) (pairs n s) (pairs m s') := by
  induction s using ahead_induction generalizing s' with
  | step s ih =>
    rw [pairs, pairs, h.startsWith fun _ => by decide]
    split
    · exact h.expect_carries.bind fun a b hab => .ok ⟨rfl, hab⟩
    · refine (hk hs h).bind ?_
      rintro ⟨key, s₁, h₁⟩ ⟨key', s₁', h₁'⟩ ⟨hkey, h⟩
      dsimp only [SameBehind] at h ⊢
      refine h.expect_carries.bind ?_
      rintro ⟨s₂, h₂⟩ ⟨s₂', h₂'⟩ h
      dsimp only [SameBehind] at h ⊢
      refine (hk (by omega) h).bind ?_
      rintro ⟨value, s₃, h₃⟩ ⟨value', s₃', h₃'⟩ ⟨hvalue, h⟩
      have hpair : (key.unplaced, value.unplaced) = (key'.unplaced, value'.unplaced) :=
        congrArg₂ Prod.mk hkey hvalue
      dsimp only [SameBehind] at h ⊢
      rw [h.startsWith fun _ => by decide]
      split
      · exact h.expect_carries.bind fun a b hab => .ok ⟨congrArg (· :: []) hpair, hab⟩
      · refine h.expect_carries.bind ?_
        rintro ⟨s₄, h₄⟩ ⟨s₄', h₄'⟩ h
        dsimp only [SameBehind] at h ⊢
        have hrest := ih ⟨s₄, by omega⟩ (by dsimp only; omega) h
        refine hrest.bind ?_
        rintro ⟨xs, s₅, h₅⟩ ⟨xs', s₅', h₅'⟩ ⟨hxs, h⟩
        exact .ok ⟨congrArg₂ List.cons hpair hxs, h⟩

/-- Predicates and whether an array is kept are the same, and so is what is ahead behind them. -/
def SamePredicates (tail : List Char) {P Q : Ahead → Prop} (a : List Node × Bool × {t // P t})
    (b : List Node × Bool × {t // Q t}) : Prop :=
  unplacedItems a.1 = unplacedItems b.1 ∧ SameRead tail id a.2 b.2

theorem predicatesAfter_carries (hk : CarriesNodes n m tail k) (hs : s.size ≤ k)
    (h : Closed tail s s') :
    Carries (SamePredicates tail) (predicatesAfter n s) (predicatesAfter m s') := by
  induction s using ahead_induction generalizing s' with
  | step s ih =>
    rw [predicatesAfter, predicatesAfter]
    refine (h.acceptToken_carries fun _ => by decide).bind fun a b hab => ?_
    cases hab with
    | none => exact .ok ⟨rfl, rfl, h⟩
    | @some a b h =>
      obtain ⟨s₁, h₁⟩ := a
      obtain ⟨s₁', h₁'⟩ := b
      have h : Closed tail s₁ s₁' := h
      dsimp only
      rw [h.startsWith fun _ => by decide]
      split
      · refine h.expect_carries.bind ?_
        rintro ⟨s₂, h₂⟩ ⟨s₂', h₂'⟩ h
        dsimp only [SameBehind] at h ⊢
        have hrest := ih ⟨s₂, by omega⟩ (by dsimp only; omega) h
        refine hrest.bind ?_
        rintro ⟨xs, keep, s₃, h₃⟩ ⟨xs', keep', s₃', h₃'⟩ ⟨hxs, hkeep, h⟩
        exact .ok ⟨hxs, rfl, h⟩
      · refine (hk (by omega) h).bind ?_
        rintro ⟨x, s₂, h₂⟩ ⟨x', s₂', h₂'⟩ ⟨hx, h⟩
        dsimp only [SameBehind] at h ⊢
        refine h.expect_carries.bind ?_
        rintro ⟨s₃, h₃⟩ ⟨s₃', h₃'⟩ h
        dsimp only [SameBehind] at h ⊢
        have hrest := ih ⟨s₃, by omega⟩ (by dsimp only; omega) h
        refine hrest.bind ?_
        rintro ⟨xs, keep, s₄, h₄⟩ ⟨xs', keep', s₄', h₄'⟩ ⟨hxs, hkeep, h⟩
        exact .ok ⟨congrArg₂ List.cons hx hxs, hkeep, h⟩

/-! ## Operands -/

theorem regexNode_carries {pattern flags : String} {position position' : Nat} :
    Carries Eq (regexNode pattern flags position) (regexNode pattern flags position') := by
  unfold regexNode
  split
  · exact .of_error rfl
  · split
    · exact .ok rfl
    · exact .of_error rfl

/-- A pattern is read where its text with its flags is, and what is ahead behind it. -/
theorem regexOperand_of_regexAt {source rest after : List Char} {pattern flags : String}
    (h : regexAt (positionOf n source) rest = .ok (pattern, flags, after))
    (hs : next n after = .ok s) :
    ∃ h', regexOperand n source rest
      = (regexNode pattern flags (positionOf n source)).map fun node => (node, ⟨s, h'⟩) := by
  unfold regexOperand
  dsimp only
  split
  · rename_i e he
    rw [h] at he
    cases he
  · rename_i found hfound
    cases hfound.symm.trans h
    split
    · rename_i e he
      rw [hs] at he
      cases he
    · rename_i s' hs'
      obtain rfl := Except.ok.inj (hs'.symm.trans hs)
      have hlt : s'.size < (Ahead.token .slash source rest).size :=
        Nat.lt_succ_of_le (Nat.le_trans (size_next_le hs) (Nat.le_of_lt (length_regexAt_lt h)))
      exact ⟨hlt, rfl⟩

theorem regexOperand_carries {source behind : List Char} (hfree : CommentFree behind) :
    Carries (SameRead tail Node.unplaced) (regexOperand n source behind)
      (regexOperand m (source ++ ')' :: tail) (behind ++ ')' :: tail)) := by
  rintro ⟨x, s, hs⟩ h
  obtain ⟨pattern, flags, after, hread, hnext, hnode⟩ := regexOperand_eq_ok h
  obtain ⟨taken, htaken, -⟩ := regexAt_taken hread
  have hafter : CommentFree after := hfree.suffix ⟨taken, htaken⟩
  obtain ⟨s', hnext', hclosed⟩ := next_closed m tail hafter hnext
  obtain ⟨y, hnode', rfl⟩ := regexNode_carries x hnode
  obtain ⟨hs', hread'⟩ := regexOperand_of_regexAt (regexAt_closed hread) hnext'
  refine ⟨(x, ⟨s', hs'⟩), ?_, rfl, hclosed⟩
  rw [hread', hnode']
  rfl

theorem primary_carries (hk : CarriesNodes n m tail k) (hs : s.size ≤ k) (h : Closed tail s s') :
    Carries (SameRead tail Node.unplaced) (primary n s) (primary m s') := by
  cases h with
  | finished => exact .finished
  | @token t source behind hfree =>
    cases t with
    | number c | string c | name c | star =>
      rw [primary, primary]
      exact (behind_carries hfree).map fun _ _ h => ⟨rfl, h⟩
    | «variable» x =>
      rw [primary, primary]
      refine (behind_carries hfree).bind ?_
      rintro ⟨s₁, h₁⟩ ⟨s₁', h₁'⟩ h
      dsimp only [SameBehind] at h ⊢
      split
      · exact .ok ⟨rfl, h⟩
      · split
        · exact .ok ⟨rfl, h⟩
        · rw [h.startsWith fun _ => by decide]
          split
          · refine h.expect_carries.bind ?_
            rintro ⟨s₂, h₂⟩ ⟨s₂', h₂'⟩ h
            dsimp only [SameBehind] at h ⊢
            have harguments :=
              items_carries .closeParen .closeParen .commaOrCloseParen hk (by omega) h
            refine harguments.bind ?_
            rintro ⟨xs, s₃, h₃⟩ ⟨xs', s₃', h₃'⟩ ⟨hxs, h⟩
            refine .ok ⟨?_, h⟩
            simp only [Node.unplaced]
            exact congrArg (Node.call x · 0) hxs
          · exact .of_error rfl
    | slash =>
      rw [primary, primary]
      exact regexOperand_carries hfree
    | openParen =>
      rw [primary, primary]
      refine (behind_carries hfree).bind ?_
      rintro ⟨s₁, h₁⟩ ⟨s₁', h₁'⟩ h
      dsimp only [SameBehind] at h ⊢
      refine (hk (by omega) h).bind ?_
      rintro ⟨x, s₂, h₂⟩ ⟨x', s₂', h₂'⟩ ⟨hx, h⟩
      dsimp only [SameBehind] at h ⊢
      exact h.expect_carries.bind fun _ _ h => .ok ⟨hx, h⟩
    | openBracket =>
      rw [primary, primary]
      refine (behind_carries hfree).bind ?_
      rintro ⟨s₁, h₁⟩ ⟨s₁', h₁'⟩ h
      dsimp only [SameBehind] at h ⊢
      have hitems := items_carries .closeBracket .closeBracket .commaOrCloseBracket hk (by omega) h
      refine hitems.bind ?_
      rintro ⟨xs, s₂, h₂⟩ ⟨xs', s₂', h₂'⟩ ⟨hxs, h⟩
      refine .ok ⟨?_, h⟩
      simp only [Node.unplaced]
      exact congrArg Node.array hxs
    | openBrace =>
      rw [primary, primary]
      refine (behind_carries hfree).bind ?_
      rintro ⟨s₁, h₁⟩ ⟨s₁', h₁'⟩ h
      dsimp only [SameBehind] at h ⊢
      refine (pairs_carries hk (by omega) h).bind ?_
      rintro ⟨xs, s₂, h₂⟩ ⟨xs', s₂', h₂'⟩ ⟨hxs, h⟩
      refine .ok ⟨?_, h⟩
      simp only [Node.unplaced]
      exact congrArg Node.object hxs
    | _ =>
      simp only [primary]
      exact .of_error rfl

/-! ## Paths -/

theorem step_carries (hk : CarriesNodes n m tail k) (hs : s.size ≤ k) (h : Closed tail s s') :
    Carries (SameRead tail Step.unplaced) (step n s) (step m s') := by
  rw [step, step]
  refine (primary_carries hk hs h).bind ?_
  rintro ⟨x, s₁, h₁⟩ ⟨x', s₁', h₁'⟩ ⟨hx, h⟩
  dsimp only [SameBehind] at h ⊢
  refine (predicatesAfter_carries hk (by omega) h).bind ?_
  rintro ⟨xs, keep, s₂, h₂⟩ ⟨xs', keep', s₂', h₂'⟩ ⟨hxs, hkeep, h⟩
  refine .ok ⟨?_, h⟩
  obtain rfl : keep = keep' := hkeep
  exact congrArg₂ (Step.mk · · keep) hx hxs

theorem stepsAfter_carries (hk : CarriesNodes n m tail k) (hs : s.size ≤ k)
    (h : Closed tail s s') :
    Carries (SameRead tail unplacedSteps) (stepsAfter n s) (stepsAfter m s') := by
  induction s using ahead_induction generalizing s' with
  | step s ih =>
    rw [stepsAfter, stepsAfter]
    refine (h.acceptToken_carries fun _ => by decide).bind fun a b hab => ?_
    cases hab with
    | none => exact .ok ⟨rfl, h⟩
    | @some a b h =>
      obtain ⟨s₁, h₁⟩ := a
      obtain ⟨s₁', h₁'⟩ := b
      dsimp only [SameBehind] at h ⊢
      refine (step_carries hk (by omega) h).bind ?_
      rintro ⟨st, s₂, h₂⟩ ⟨st', s₂', h₂'⟩ ⟨hst, h⟩
      dsimp only [SameBehind] at h ⊢
      have hrest := ih ⟨s₂, by omega⟩ (by dsimp only; omega) h
      refine hrest.bind ?_
      rintro ⟨sts, s₃, h₃⟩ ⟨sts', s₃', h₃'⟩ ⟨hsts, h⟩
      refine .ok ⟨?_, h⟩
      simp only [unplacedSteps_cons]
      exact congrArg₂ List.cons hst hsts

theorem path_carries (hk : CarriesNodes n m tail k) (hs : s.size ≤ k) (h : Closed tail s s') :
    Carries (SameRead tail Node.unplaced) (path n s) (path m s') := by
  rw [path, path]
  refine (step_carries hk hs h).bind ?_
  rintro ⟨st, s₁, h₁⟩ ⟨st', s₁', h₁'⟩ ⟨hst, h⟩
  dsimp only [SameBehind] at h ⊢
  refine (stepsAfter_carries hk (by omega) h).bind ?_
  rintro ⟨sts, s₂, h₂⟩ ⟨sts', s₂', h₂'⟩ ⟨hsts, h⟩
  refine .ok ⟨?_, h⟩
  simp only [← Node.ofSteps_unplaced]
  exact congrArg₂ Node.ofSteps hst hsts

theorem unary_carries (hk : CarriesNodes n m tail k) (hs : s.size ≤ k) (h : Closed tail s s') :
    Carries (SameRead tail Node.unplaced) (unary n s) (unary m s') := by
  induction s using ahead_induction generalizing s' with
  | step s ih =>
    rw [unary, unary]
    refine (h.acceptToken_carries fun _ => by decide).bind fun a b hab => ?_
    cases hab with
    | none => exact path_carries hk hs h
    | @some a b h =>
      obtain ⟨s₁, h₁⟩ := a
      obtain ⟨s₁', h₁'⟩ := b
      have hrest := ih ⟨s₁, h₁⟩ (by dsimp only; omega) h
      refine hrest.bind ?_
      rintro ⟨x, s₂, h₂⟩ ⟨x', s₂', h₂'⟩ ⟨hx, h⟩
      refine .ok ⟨?_, h⟩
      simp only [← Node.negated_unplaced]
      exact congrArg (Node.negated · 0) hx

/-! ## Operators -/

/-- What is read by two functions from what is ahead up to `k` is carried over. -/
def CarriesUpTo (tail : List Char) (k : Nat)
    (read read' : (s : Ahead) → Except Error (Parsed s Node)) : Prop :=
  ∀ {s s' : Ahead}, s.size ≤ k → Closed tail s s' →
    Carries (SameRead tail Node.unplaced) (read s) (read' s')

theorem operatorsAfter_carries {level : Level}
    (hoperand : CarriesUpTo tail k (operand n level) (operand m level)) {left left' : Node}
    (hs : s.size ≤ k) (hleft : left.unplaced = left'.unplaced) (h : Closed tail s s') :
    Carries (SameRead tail Node.unplaced) (operatorsAfter n level left s)
      (operatorsAfter m level left' s') := by
  induction s using ahead_induction generalizing s' left left' with
  | step s ih =>
    have hclose : level.operator? .closeParen = none := by cases level <;> rfl
    rw [operatorsAfter, operatorsAfter]
    refine (h.accept_carries fun _ => hclose).bind fun a b hab => ?_
    cases hab with
    | none => exact .ok ⟨hleft, h⟩
    | @some a b hab =>
      obtain ⟨op, s₁, h₁⟩ := a
      obtain ⟨op', s₁', h₁'⟩ := b
      obtain ⟨hop, h⟩ := hab
      obtain rfl : op = op' := hop
      dsimp only [SameBehind] at h ⊢
      refine (hoperand (by omega) h).bind ?_
      rintro ⟨right, s₂, h₂⟩ ⟨right', s₂', h₂'⟩ ⟨hright, h⟩
      have hbinary : (Node.binary op left right (s.position n)).unplaced
          = (Node.binary op left' right' (s'.position m)).unplaced := by
        simp only [Node.unplaced]
        exact congrArg₂ (Node.binary op · · 0) hleft hright
      dsimp only [SameBehind] at h ⊢
      split
      · have hrest := ih ⟨s₂, by omega⟩ (by dsimp only; omega) hbinary h
        refine hrest.bind ?_
        rintro ⟨x, s₃, h₃⟩ ⟨x', s₃', h₃'⟩ ⟨hx, h⟩
        exact .ok ⟨hx, h⟩
      · exact .ok ⟨hbinary, h⟩

theorem operators_carries_of_operand {level : Level}
    (hoperand : CarriesUpTo tail k (operand n level) (operand m level)) :
    CarriesUpTo tail k (operators n level) (operators m level) := by
  intro s s' hs h
  rw [operators, operators]
  refine (hoperand hs h).bind ?_
  rintro ⟨left, s₁, h₁⟩ ⟨left', s₁', h₁'⟩ ⟨hleft, h⟩
  dsimp only [SameBehind] at h ⊢
  refine (operatorsAfter_carries hoperand (by omega) hleft h).bind ?_
  rintro ⟨x, s₂, h₂⟩ ⟨x', s₂', h₂'⟩ ⟨hx, h⟩
  exact .ok ⟨hx, h⟩

theorem operators_carries (hk : CarriesNodes n m tail k) (level : Level) :
    CarriesUpTo tail k (operators n level) (operators m level) := by
  induction level using Level.by_rank with
  | product =>
    refine operators_carries_of_operand fun hs h => ?_
    rw [operand_product, operand_product]
    exact unary_carries hk hs h
  | looser hrank ih =>
    refine operators_carries_of_operand fun hs h => ?_
    rw [operand_of_rank hrank, operand_of_rank hrank]
    exact ih hs h

/-! ## Expressions -/

/-- An expression is read in the same way before a closing parenthesis. -/
theorem expression_carries (h : Closed tail s s') :
    Carries (SameRead tail Node.unplaced) (expression n s) (expression m s') := by
  induction s using ahead_induction generalizing s' with
  | step s ih =>
    have hk : CarriesNodes n m tail s.size := fun {t} _ ht h => ih ⟨t, ht⟩ h
    rw [expression, expression]
    refine (operators_carries hk .oneOf (Nat.le_refl _) h).bind ?_
    rintro ⟨test, s₁, h₁⟩ ⟨test', s₁', h₁'⟩ ⟨htest, h⟩
    dsimp only [SameBehind] at h ⊢
    refine (h.acceptToken_carries fun _ => by decide).bind fun a b hab => ?_
    cases hab with
    | none => exact .ok ⟨htest, h⟩
    | @some a b h =>
      obtain ⟨s₂, h₂⟩ := a
      obtain ⟨s₂', h₂'⟩ := b
      dsimp only [SameBehind] at h ⊢
      refine (hk (by omega) h).bind ?_
      rintro ⟨yes, s₃, h₃⟩ ⟨yes', s₃', h₃'⟩ ⟨hyes, h⟩
      dsimp only [SameBehind] at h ⊢
      refine (h.acceptToken_carries fun _ => by decide).bind fun a b hab => ?_
      cases hab with
      | none =>
        refine .ok ⟨?_, h⟩
        simp only [Node.unplaced]
        exact congrArg₂ (Node.condition · · none) htest hyes
      | @some a b h =>
        obtain ⟨s₄, h₄⟩ := a
        obtain ⟨s₄', h₄'⟩ := b
        dsimp only [SameBehind] at h ⊢
        refine (hk (by omega) h).bind ?_
        rintro ⟨no, s₅, h₅⟩ ⟨no', s₅', h₅'⟩ ⟨hno, h⟩
        refine .ok ⟨?_, h⟩
        have htest : test.unplaced = test'.unplaced := htest
        have hyes : yes.unplaced = yes'.unplaced := hyes
        have hno : no.unplaced = no'.unplaced := hno
        simp only [Node.unplaced, htest, hyes, hno]

end PipeQuery.Expr
