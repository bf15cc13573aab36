import PipeQuery.Proofs.Expr.Carrying
import PipeQuery.Proofs.Expr.Evaluation
import PipeQuery.Proofs.Query.Navigation

/-!
# Expressions inside expressions

`nested e` puts an expression in parentheses as the only value of an object.  There it is read as
at the top, up to positions (`parse_nested`), and evaluates as at the top, but that several values
of a path are an array at once, and no value is no entry (`evalTree_object`).  Either way the key
leads to the value that a query goes on with.

A comment that is not closed would take the closing parenthesis with it, so that no comment may
begin in the expression.
-/

namespace PipeQuery

namespace Expr

open Ahead (Leads Closed)

/-- The expression in parentheses, as what the key `k` of an object holds. -/
def nested (e : String) : String := "\x7b\"k\": (" ++ e ++ ")\x7d"

variable {n : Nat} {x : Node} {s r : Ahead}

/-! ## Reading -/

theorem toList_nested (e : String) :
    (nested e).toList
      = '\x7b' :: '"' :: 'k' :: '"' :: ':' :: ' ' :: '(' :: (e.toList ++ [')', '\x7d']) := by
  simp [nested]

/-- An opening brace, the key, a colon and an opening parenthesis stand before what is in
parentheses. -/
theorem leads_before {cs : List Char} (h : next n cs = .ok s) :
    ∃ s₁ s₂ s₃ s₄,
      next n ('\x7b' :: '"' :: 'k' :: '"' :: ':' :: ' ' :: '(' :: cs) = .ok s₁
        ∧ Leads n [.openBrace] s₁ s₂ ∧ Leads n [.string "k"] s₂ s₃ ∧ Leads n [.colon] s₃ s₄
        ∧ Leads n [.openParen] s₄ s := by
  have hparen : next n ('(' :: cs) = .ok (.token .openParen ('(' :: cs) cs) :=
    next_sign n '(' rfl (by decide) (by decide) cs
  have hspace : next n (' ' :: '(' :: cs) = .ok (.token .openParen ('(' :: cs) cs) := by
    rw [next_space, hparen]
  have hkey : scan n '"' ('k' :: '"' :: ':' :: ' ' :: '(' :: cs)
      = .ok (.string "k", ':' :: ' ' :: '(' :: cs) := by
    rw [scan_word rfl fun d _ => double?_eq_none (by decide) d]
    rfl
  exact ⟨_, _, _, _, next_sign n '\x7b' rfl (by decide) (by decide) _,
    .token (next_of_scan (by decide) (by decide) hkey) .here,
    .token (next_sign n ':' rfl (by decide) (by decide) _) .here, .token hspace .here, .token h .here⟩

/-- A closing parenthesis and the closing brace stand behind it. -/
theorem leads_behind :
    ∃ s, Leads n [.closeParen] (.token .closeParen [')', '\x7d'] ['\x7d']) s
      ∧ Leads n [.closeBrace] s .finished := by
  have hbrace : next n ['\x7d'] = .ok (.token .closeBrace ['\x7d'] []) :=
    next_sign n '\x7d' rfl (by decide) (by decide) []
  exact ⟨_, .token hbrace .here, .token rfl .here⟩

/-- The key is read up to its colon. -/
theorem expression_key (hkey : Leads n [.string "k"] s r) (hcolon : r.head? = some .colon) :
    ∃ h, expression n s = .ok (.string "k", ⟨r, h⟩) := by
  have hwords : s.Spells n (Node.string "k").words r := by
    rw [Node.words]
    exact hkey
  have hstop : Stops 0 r.head? := by
    rw [hcolon]
    exact stops_token (by simp)
  obtain ⟨h, y, hread, hy⟩ :=
    reads_expression (readable_string "k") rfl hwords hstop (by simp [Node.endsOpen])
  rw [Node.unplaced] at hy
  obtain rfl := Node.eq_of_isLeaf rfl hy
  exact ⟨h, hread⟩

/-- In parentheses, a tree is read as it is read before them. -/
theorem expression_parenthesized {s₁ s₂ : Ahead} (hopen : Leads n [.openParen] s s₁)
    (hx : Reads n 0 x s₁ s₂) (hsel : x.isSelector = false) (hclose : Leads n [.closeParen] s₂ r)
    (hbrace : r.head? = some .closeBrace) :
    ∃ h y, expression n s = .ok (y, ⟨r, h⟩) ∧ y.unplaced = x.unplaced := by
  have hstop : Stops 0 r.head? := by
    rw [hbrace]
    exact stops_token (by simp)
  have hparens : Reads n 8 x s r := reads_parentheses hopen hx hclose
  exact hparens.of_le (Nat.zero_le 8) (Nat.le_refl 8) hstop (by simp [hsel])

/-- The nested expression is parsed as an object around the tree, up to positions. -/
theorem parse_nested {e : String} (hfree : CommentFree e.toList) (h : parse e = .ok x) :
    ∃ y, parse (nested e) = .ok (.object [(.string "k", y)]) ∧ y.unplaced = x.unplaced := by
  obtain ⟨s, h', hnext, hread⟩ := parse_eq_ok_iff.1 h
  -- inside the parentheses the expression is read as at the top
  obtain ⟨s', hnext', hclosed⟩ :=
    next_closed (nested e).toList.length ['\x7d'] hfree hnext
  obtain ⟨⟨z, r, hr⟩, hread', hz, hbehind⟩ :=
    expression_carries (m := (nested e).toList.length) hclosed _ hread
  cases hbehind
  have hinside : Reads (nested e).toList.length 0 x s' _ := ⟨hr, z, hread', hz.symm⟩
  -- what stands around it
  obtain ⟨s₁, s₂, s₃, s₄, hfirst, hbrace, hkey, hcolon, hparen⟩ := leads_before hnext'
  obtain ⟨s₅, hclose, hlast⟩ := leads_behind (n := (nested e).toList.length)
  have hsel : x.isSelector = false := (parse_normal h).here.noSelector
  obtain ⟨h₅, y, hvalue, hy⟩ := expression_parenthesized hparen hinside hsel hclose hlast.head?
  obtain ⟨h₃, hkey⟩ := expression_key hkey hcolon.head?
  obtain ⟨t, h₄, hcolon, hend⟩ := Ahead.expect_of_leads .colon hcolon
  cases hend
  obtain ⟨h₆, hpairs⟩ := pairs_of_last hkey hcolon hvalue hlast
  obtain ⟨h₇, hobject⟩ := primary_of_pairs hbrace hpairs
  have hexpression : readAt (nested e).toList.length 0 s₁ = _ :=
    readAt_of_le (l := 8) (Nat.zero_le 8) (Nat.le_refl 8) hobject stops_finished fun _ _ => rfl
  refine ⟨y, parse_eq_ok_iff.2 ⟨s₁, h₇, ?_, hexpression⟩, hy⟩
  rw [← hfirst]
  exact congrArg (next (nested e).toList.length) (toList_nested e)

/-! ## Evaluating -/

/-- An object of one key holds the value there, if there is one. -/
theorem evalTree_object (key : String) (y : Node) (v : Value) :
    evalTree (.object [(.string key, y)]) v
      = (eval v y v).map fun w => .value (.object (w.elim [] fun w => [(key, w)])) := by
  rw [evalTree, eval, evalPairs, eval]
  · cases eval v y v with
    | error e => rfl
    | ok w => cases w <;> rfl
  · simp

/-- A tree that is the same up to positions goes on alike from the top. -/
theorem eval_alike {x y : Node} (h : y.unplaced = x.unplaced) (v : Value) :
    Alike (eval v y v) (eval v x v) := by
  have hx := eval_unplaced v x v
  have hy := eval_unplaced v y v
  rw [h] at hy
  exact hy.trans hx.symm

end Expr

namespace Query

open PipeQuery.Expr (CommentFree Node Outcome evaluate nested)

/-- An expression means the same at the top and nested in an object: the object holds its tree up
to positions, and for every input what the object holds is the value that the query goes on with,
or both fail with the same cause. -/
theorem nested_means_the_same [Draws] {e : String} {x : Node} (hfree : CommentFree e.toList)
    (h : Expr.parse e = .ok x) :
    (∃ y, Expr.parse (nested e) = .ok (.object [(.string "k", y)]) ∧ y.unplaced = x.unplaced)
      ∧ ∀ v : Value,
        (∀ outcome, evaluate e v = .ok outcome →
          (Stage.expression e).run .standard v = .ok outcome.toValue
            ∧ ∃ w, evaluate (nested e) v = .ok (.value w) ∧ w.field "k" = outcome.toValue)
        ∧ ∀ error, evaluate e v = .error error →
          ∃ error', evaluate (nested e) v = .error error' ∧ error'.cause = error.cause := by
  obtain ⟨y, hparse, hy⟩ := Expr.parse_nested hfree h
  refine ⟨⟨y, hparse, hy⟩, fun v => ?_⟩
  have hinside : Expr.Alike (Expr.eval v y v) (Expr.eval v x v) := Expr.eval_alike hy v
  have hnested : evaluate (nested e) v
      = (Expr.eval v y v).map fun w => .value (.object (w.elim [] fun w => [("k", w)])) := by
    rw [evaluate, hparse]
    exact Expr.evalTree_object "k" y v
  have htop : (evaluate e v).map Outcome.toValue = (Expr.eval v x v).map (·.getD .null) := by
    rw [evaluate, h]
    exact Expr.evalTree_toValue x v
  refine ⟨fun outcome houtcome => ⟨?_, ?_⟩, fun error herror => ?_⟩
  · simp only [Stage.run, Engine.standard, houtcome, Except.mapError]
  · rw [houtcome] at htop
    obtain ⟨w, hw, hvalue⟩ := map_eq_ok_iff.1 htop.symm
    rw [hw] at hinside
    rw [hinside.eq_ok] at hnested
    refine ⟨_, hnested, ?_⟩
    rw [← hvalue]
    cases w with
    | none => rfl
    | some w => rfl
  · rw [herror] at htop
    rw [map_eq_error_iff.1 htop.symm] at hinside
    obtain ⟨error', herror', hcause⟩ := hinside.eq_error
    rw [herror'] at hnested
    exact ⟨error', hnested, hcause⟩

/-- Two values of a path are a sequence at the top and an array inside an object. -/
theorem nested_means_the_same_sequence :
    ∃ v : Value, CommentFree "a.b".toList
      ∧ (∃ x, Expr.parse "a.b" = .ok x)
      ∧ evaluate "a.b" v = .ok (.sequence [.boolean true, .null] false)
      ∧ ∃ w, evaluate "\x7b\"k\": (a.b)\x7d" v = .ok (.value w)
        ∧ w.field "k" = .array [.boolean true, .null] := by
  have hfree : CommentFree "a.b".toList := by
    unfold CommentFree
    decide
  let names : List FieldName :=
    [⟨"a", by decide, by decide⟩, ⟨"b", by decide, by decide⟩]
  have hnames : names ≠ [] := List.cons_ne_nil _ _
  have hparse : Expr.parse "a.b" = .ok (.path (names.map Expr.fieldStep)) :=
    Expr.parse_dotted hnames
  let v : Value := .object [("a", .array
    [.object [("b", .boolean true)], .object [("b", .null)]])]
  have hvalue : evaluate "a.b" v = .ok (.sequence [.boolean true, .null] false) := by
    rw [evaluate, hparse]
    rfl
  obtain ⟨-, hsame⟩ := nested_means_the_same hfree hparse
  exact ⟨v, hfree, ⟨_, hparse⟩, hvalue, ((hsame v).1 _ hvalue).2⟩

end Query

end PipeQuery
