import PipeQuery.Proofs.Expr.Evaluation
import PipeQuery.Proofs.Query.Navigation
import PipeQuery.Proofs.Query.Printing

/-!
# Functions and operators

A command applies an operator to the input, and an expression can call a function on it, as the
context of the whole expression.  The operator looks past `null` and lets pass what it does not
work on, where the function fails, and the function may give no value where the operator gives
`null`; but on the inputs that both work on they give the same value.

So does the operator between texts, taken from the empty text on, and the command that puts texts
together.
-/

namespace PipeQuery

/-! ## Calls on the context -/

namespace Expr

variable {f : String} {g : Function} {v : Value}

/-- The expression that calls a function on the context. -/
def callText (f : String) : String := "$" ++ f ++ "($)"

theorem toList_callText (f : String) :
    (callText f).toList = '$' :: (f.toList ++ ['(', '$', ')']) := by
  simp [callText]

/-- The call as tokens. -/
theorem leads_callText (n : Nat) (hf : ∀ c ∈ f.toList, isNameChar c = true) :
    ∃ s, next n (callText f).toList = .ok s
      ∧ Ahead.Leads n [.variable f, .openParen, .variable "", .closeParen] s .finished := by
  have hclose : next n [')'] = .ok (.token .closeParen [')'] []) :=
    next_sign n ')' rfl (by decide) (by decide) []
  have hcontext : scan n '$' [')'] = .ok (.variable "", [')']) :=
    scan_variable (x := "") (by simp) (by rintro _ ⟨⟩; decide)
  have hdollar : next n ['$', ')'] = .ok (.token (.variable "") ['$', ')'] [')']) :=
    next_of_scan (by decide) (by decide) hcontext
  have hopen : next n ['(', '$', ')'] = .ok (.token .openParen ['(', '$', ')'] ['$', ')']) :=
    next_sign n '(' rfl (by decide) (by decide) ['$', ')']
  rw [toList_callText]
  exact ⟨_, next_of_scan (by decide) (by decide) (scan_variable hf (by rintro _ ⟨⟩; decide)),
    .token hopen (.token hdollar (.token hclose (.token rfl .here)))⟩

/-- A function is called by a name. -/
theorem isName_of_ofName? (h : Function.ofName? f = some g) : IsName f := by
  unfold Function.ofName? at h
  split at h
  case h_23 => cases h
  all_goals decide

theorem parse_callText (hf : IsName f) :
    ∃ y, parse (callText f) = .ok y ∧ y.unplaced = .call f [.context] 0 := by
  obtain ⟨c, rest, hname, hc⟩ := hf.start
  have hempty : f ≠ "" := by
    rintro rfl
    cases hname
  have hroot : f ≠ "$" := by
    rintro rfl
    exact absurd (hf.chars '$' (by decide)) (by decide)
  have hcall : (Node.call f [.context] 0).Readable (callText f).toList.length :=
    readable_call hempty hroot (List.forall_mem_singleton.2 ⟨readable_context, rfl⟩)
  obtain ⟨s, hnext, h⟩ := leads_callText (callText f).toList.length hf.chars
  have hwords : s.Spells (callText f).toList.length (Node.call f [.context] 0).words .finished := by
    simp only [Node.words, itemsWords, joined]
    exact h
  obtain ⟨y, hparse, hy⟩ := parse_of_spells hcall rfl hnext hwords
  refine ⟨y, hparse, ?_⟩
  rw [hy]
  simp [Node.unplaced, unplacedItems]

/-- A function called on the context gives what it makes of the input, and `null` for no value. -/
theorem evaluate_callText (hg : Function.ofName? f = some g) {w : Option Value}
    (hw : g.apply ⟨[.value (some v)], v⟩ = .ok w) :
    (evaluate (callText f) v).map Outcome.toValue = .ok (w.getD .null) := by
  obtain ⟨y, hparse, hy⟩ := parse_callText (isName_of_ofName? hg)
  have hcall : eval v (.call f [.context] 0) v = .ok w := by
    simp [eval, evalArguments, Node.regex?, callFunction, hg, hw, bind, Except.bind, pure,
      Except.pure, Except.map, Except.mapError]
  have hsame : Alike (eval v y v) (eval v (.call f [.context] 0) v) := by
    rw [← hy]
    exact eval_unplaced v y v
  rw [hcall] at hsame
  rw [evaluate, hparse]
  refine (evalTree_toValue y v).trans ?_
  rw [hsame.eq_ok]
  rfl

end Expr

/-! ## Texts put together -/

namespace Value

/-- Whether a value is put together with others to a text: a string, a number or a truth value. -/
def joins : Value → Bool
  | .string _ | .number _ | .boolean _ => true
  | _ => false

/-- Such values are put together from their texts, which are the same in expressions. -/
theorem concat?_cons {item : Value} (h : item.joins = true) (items : List Value) :
    concat? (item :: items) = (concat? items).map (item.spelled ++ ·) := by
  cases item with
  | string s => rfl
  | number n => rfl
  | boolean b => rfl
  | null => cases h
  | array items => cases h
  | object entries => cases h

end Value

namespace Expr

/-- The nodes put together one by one with the operator between texts, behind those there are
already; each with the position of its operator. -/
def joinedFrom (left : Node) (nodes : List (Node × Nat)) : Node :=
  nodes.foldl (fun left (x, position) => .binary .concat left x position) left

/-- Nodes with such values have the text of the values, behind the text there is already. -/
theorem eval_joinedFrom {root v : Value} {nodes : List (Node × Nat)} {items : List Value}
    (hnodes : List.Forall₂ (fun x item => eval root x.1 v = .ok (some item)) nodes items)
    (hitems : ∀ item ∈ items, item.joins = true) {left : Node} {s : String}
    (hleft : eval root left v = .ok (some (.string s))) :
    ∃ t, Value.concat? items = some t
      ∧ eval root (joinedFrom left nodes) v = .ok (some (.string (s ++ t))) := by
  induction hnodes generalizing left s with
  | nil => exact ⟨"", rfl, by simpa [joinedFrom] using hleft⟩
  | @cons x item nodes items hx hnodes ih =>
    obtain ⟨hitem, hitems⟩ := List.forall_mem_cons.1 hitems
    have hnext : eval root (.binary .concat left x.1 x.2) v
        = .ok (some (.string (s ++ item.spelled))) := by
      rw [eval, hleft]
      simp only [BinaryOp.settled?, bind, Except.bind, hx]
      rfl
    obtain ⟨t, ht, hjoined⟩ := ih hitems hnext
    refine ⟨item.spelled ++ t, ?_, ?_⟩
    · rw [Value.concat?_cons hitem, ht]
      rfl
    · rw [← String.append_assoc]
      exact hjoined

end Expr

/-! ## Queries -/

namespace Query

open PipeQuery.Expr (Function callText)

variable {f : String} {g : Function} {v : Value}

/-- A query that calls a function on its input. -/
theorem run_callText [Draws] (hg : Function.ofName? f = some g) {w : Option Value}
    (hw : g.apply ⟨[.value (some v)], v⟩ = .ok w) :
    run ("jsonata '" ++ callText f ++ "'") v = .ok (w.getD .null) := by
  have hchars := (Expr.isName_of_ofName? hg).chars
  have hquote : ∀ c : Char, c ∈ ['\'', '\\'] → c ∉ (callText f).toList := by
    intro c hc hin
    have hmem : c ∈ f.toList := by
      rw [Expr.toList_callText] at hin
      simp only [List.mem_cons, List.not_mem_nil, or_false] at hc
      rcases hc with rfl | rfl <;> simpa using hin
    have := hchars c hmem
    simp only [List.mem_cons, List.not_mem_nil, or_false] at hc
    rcases hc with rfl | rfl <;> cases this
  have htext : "jsonata '" ++ callText f ++ "'" = "jsonata " ++ singleQuoted (callText f) := by
    rw [← String.toList_inj]
    simp [singleQuoted, escaped_eq_self (hquote '\'' (by simp)) (hquote '\\' (by simp))]
  rw [htext]
  exact run_expression (Expr.evaluate_callText hg hw)

/-- A command applies its operator to the input. -/
theorem run_command [Draws] (op : Operator) (hcount : op ≠ .count) (hdistinct : op ≠ .distinct)
    (v : Value) : run op.name v = .ok (op.applyTo v) :=
  run_of_parse (parse_bare (spelled_operator op) (.command hcount hdistinct)) rfl

/-! ## Functions that are operators -/

/-- Two queries give the same value on an input. -/
def SameAnswer [Draws] (q q' : String) (v : Value) : Prop :=
  ∃ w, run q v = .ok w ∧ run q' v = .ok w

/-- A function gives the same answer as an operator where it gives what the operator does, and no
value for `null`. -/
theorem sameAnswer_of_apply [Draws] (op : Operator) (hg : Function.ofName? f = some g)
    (hcount : op ≠ .count) (hdistinct : op ≠ .distinct) {w : Option Value}
    (hfunction : g.apply ⟨[.value (some v)], v⟩ = .ok w)
    (hoperator : op.eval? v = some (w.getD .null)) :
    SameAnswer ("jsonata '" ++ callText f ++ "'") op.name v := by
  refine ⟨_, run_callText hg hfunction, ?_⟩
  rw [run_command op hcount hdistinct, Operator.applyTo, hoperator]
  rfl

theorem numbersOf_map (ns : List Number) :
    Expr.Arguments.numbersOf (ns.map .number) = .ok ns := by
  induction ns with
  | nil => rfl
  | cons n ns ih =>
    rw [List.map_cons, Expr.Arguments.numbersOf, ih]
    rfl

/-- A function and an operator that make the same of the numbers of an array give the same
answer. -/
theorem sameAnswer_of_numbers [Draws] (op : Operator) (make : List Number → Option Number)
    (hg : Function.ofName? f = some g) (hcount : op ≠ .count) (hdistinct : op ≠ .distinct)
    (hfunction : ∀ argument context ns,
      Expr.Arguments.numbers ⟨[argument], context⟩ 0 = .ok ns →
        g.apply ⟨[argument], context⟩ = .ok ((make ns).map .number))
    (hoperator : ∀ items ns, Value.numbers? items = some ns →
      op.eval? (.array items) = some (.ofNumber? (make ns))) (ns : List Number) :
    SameAnswer ("jsonata '" ++ callText f ++ "'") op.name (.array (ns.map .number)) := by
  have hvalue : op.eval? (.array (ns.map .number)) = some (((make ns).map .number).getD .null) := by
    rw [hoperator _ ns (Value.numbers?_map ns)]
    cases make ns <;> rfl
  exact sameAnswer_of_apply op hg hcount hdistinct (hfunction _ _ ns (numbersOf_map ns)) hvalue

/-- What the functions and the operators make of numbers is the same, and both read them first. -/
theorem aggregates_agree [Draws] (ns : List Number) :
    SameAnswer "jsonata '$sum($)'" "sum" (.array (ns.map .number))
      ∧ SameAnswer "jsonata '$min($)'" "min" (.array (ns.map .number))
      ∧ SameAnswer "jsonata '$max($)'" "max" (.array (ns.map .number))
      ∧ SameAnswer "jsonata '$average($)'" "mean" (.array (ns.map .number)) := by
  refine ⟨sameAnswer_of_numbers (f := "sum") .sum (some ∘ sumNumbers) rfl
      (by decide) (by decide) ?_ ?_ ns,
    sameAnswer_of_numbers (f := "min") .min minNumbers? rfl (by decide) (by decide) ?_ ?_ ns,
    sameAnswer_of_numbers (f := "max") .max maxNumbers? rfl (by decide) (by decide) ?_ ?_ ns,
    sameAnswer_of_numbers (f := "average") .mean meanNumbers? rfl
      (by decide) (by decide) ?_ ?_ ns⟩
  all_goals
    intros
    simp only [Function.apply, Operator.eval?, *]
    rfl

/-- Items are counted and compared alike, whatever they are. -/
theorem collections_agree [Draws] (items : List Value) :
    SameAnswer "jsonata '$count($)'" "count" (.array items)
      ∧ SameAnswer "jsonata '$distinct($)'" "distinct" (.array items) := by
  have hcount : run "count" (.array items) = .ok (.ofCount items.length) :=
    run_of_parse (parse_bare (by decide) .count) rfl
  have hdistinct : run "distinct" (.array items) = .ok (.array (Value.distinct items)) :=
    run_of_parse (parse_bare (by decide) .distinct) rfl
  exact ⟨⟨_, run_callText (f := "count") rfl (w := some (.ofCount items.length)) rfl, hcount⟩,
    ⟨_, run_callText (f := "distinct") rfl (w := some (.array (Value.distinct items))) rfl,
      hdistinct⟩⟩

theorem texts_agree [Draws] (s : String) :
    SameAnswer "jsonata '$uppercase($)'" "toupper" (.string s)
      ∧ SameAnswer "jsonata '$lowercase($)'" "tolower" (.string s)
      ∧ SameAnswer "jsonata '$length($)'" "strlen" (.string s) :=
  ⟨sameAnswer_of_apply (f := "uppercase") .toUpper (w := some (.string (upperText s))) rfl
      (by decide) (by decide) rfl rfl,
    sameAnswer_of_apply (f := "lowercase") .toLower (w := some (.string (lowerText s))) rfl
      (by decide) (by decide) rfl rfl,
    sameAnswer_of_apply (f := "length") .strlen (w := some (.ofCount s.length)) rfl
      (by decide) (by decide) rfl rfl⟩

/-- A command that puts texts together. -/
theorem run_strcat [Draws] {items : List Value} {t : String} (h : Value.concat? items = some t) :
    run "strcat" (.array items) = .ok (.string t) := by
  refine (run_command .strcat (by decide) (by decide) (.array items)).trans ?_
  simp only [Operator.applyTo, Operator.eval?, h]
  rfl

/-- The functions of expressions agree with the operators: on numbers, also on none, on items of
any kind and on texts the calls give what the commands give; and strings, numbers and truth values
put together in an expression, from the empty text on, are what the command puts together. -/
theorem functions_agree_with_operators [Draws] :
    (∀ ns : List Number,
      SameAnswer "jsonata '$sum($)'" "sum" (.array (ns.map .number))
        ∧ SameAnswer "jsonata '$min($)'" "min" (.array (ns.map .number))
        ∧ SameAnswer "jsonata '$max($)'" "max" (.array (ns.map .number))
        ∧ SameAnswer "jsonata '$average($)'" "mean" (.array (ns.map .number)))
      ∧ (∀ items : List Value,
        SameAnswer "jsonata '$count($)'" "count" (.array items)
          ∧ SameAnswer "jsonata '$distinct($)'" "distinct" (.array items))
      ∧ (∀ s : String,
        SameAnswer "jsonata '$uppercase($)'" "toupper" (.string s)
          ∧ SameAnswer "jsonata '$lowercase($)'" "tolower" (.string s)
          ∧ SameAnswer "jsonata '$length($)'" "strlen" (.string s))
      ∧ ∀ (root v : Value) (nodes : List (Expr.Node × Nat)) (items : List Value),
        List.Forall₂ (fun x item => Expr.eval root x.1 v = .ok (some item)) nodes items →
        (∀ item ∈ items, item.joins = true) →
        ∃ t, Expr.eval root (Expr.joinedFrom (.string "") nodes) v = .ok (some (.string t))
          ∧ run "strcat" (.array items) = .ok (.string t) := by
  refine ⟨aggregates_agree, collections_agree, texts_agree, fun root v nodes items hnodes h => ?_⟩
  have hempty : Expr.eval root (.string "") v = .ok (some (.string "")) := rfl
  obtain ⟨t, ht, hjoined⟩ := Expr.eval_joinedFrom hnodes h hempty
  rw [String.empty_append] at hjoined
  exact ⟨t, hjoined, run_strcat ht⟩

/-- No numbers, and a string, a truth value and a number put together. -/
theorem functions_agree_with_operators_mixed :
    SameAnswer "jsonata '$average($)'" "mean" (.array [])
      ∧ ∃ t, Expr.eval .null (Expr.joinedFrom (.string "")
          [(.string "a", 3), (.boolean true, 9), (.number (.ofNat 1), 16)]) .null
            = .ok (some (.string t))
        ∧ run "strcat" (.array [.string "a", .boolean true, .number (.ofNat 1)])
            = .ok (.string t) := by
  obtain ⟨hnumbers, -, -, hjoined⟩ := functions_agree_with_operators
  exact ⟨(hnumbers []).2.2.2,
    hjoined .null .null _ _ (.cons rfl (.cons rfl (.cons rfl .nil))) (by decide)⟩

end Query

end PipeQuery
