import PipeQuery.Proofs.Expr.Nodes

/-!
# Expressions and normal trees

The trees of expressions are the normal trees.  One half is `parse_normal`: what is
parsed is normal.  For the other half, a normal tree that can be written is parsed
again from its print, up to positions.  Both what makes the words of a tree scan
and what makes them parse is proved by induction on the nodes of the tree.
-/

namespace PipeQuery.Expr

open Ahead (Leads)

/-! ## Trees that can be written -/

/-- What can be written of a node: no pattern, a name that backticks can hold and that is no
literal, a finite number, and a function that its name calls. -/
def Node.Spellable : Node → Prop
  | .regex _ => False
  | .number k => ∃ negative m, k = .finite negative m
  | .name field => '\x60' ∉ field.toList ∧ field ∉ ["true", "false", "null"]
  | .call function _ _ => function ≠ "" ∧ ∀ c ∈ function.toList, isNameChar c = true
  | _ => True

/-- A tree that can be written everywhere. -/
abbrev Node.Printable (x : Node) : Prop := Everywhere (fun _ => Node.Spellable) .operand x

variable {p q : Place → Node → Prop} {place : Place} {x : Node}

theorem Everywhere.and (hp : Everywhere p place x) (hq : Everywhere q place x) :
    Everywhere (fun place x => p place x ∧ q place x) place x := by
  induction hp with
  | mk hx _ ih => exact .mk ⟨hx, hq.here⟩ fun part hpart => ih part hpart (hq.parts part hpart)

theorem Node.WellPlaced.noSelector (h : x.WellPlaced .operand) : x.isSelector = false := by
  cases x with
  | name field => cases h
  | wildcard => cases h
  | _ => rfl

/-! ## Parts of a node -/

theorem Node.item_mem_parts {items : List Node} {y : Node} (hy : y ∈ items) :
    (.operand, y) ∈ (array items).parts :=
  List.mem_map_of_mem hy

theorem Node.argument_mem_parts {function : String} {arguments : List Node} {position : Nat}
    {y : Node} (hy : y ∈ arguments) : (.operand, y) ∈ (call function arguments position).parts :=
  List.mem_map_of_mem hy

theorem Node.key_mem_parts {pairs : List (Node × Node)} {y : Node × Node} (hy : y ∈ pairs) :
    (.operand, y.1) ∈ (object pairs).parts :=
  List.mem_flatMap.2 ⟨y, hy, by simp⟩

theorem Node.value_mem_parts {pairs : List (Node × Node)} {y : Node × Node} (hy : y ∈ pairs) :
    (.operand, y.2) ∈ (object pairs).parts :=
  List.mem_flatMap.2 ⟨y, hy, by simp⟩

theorem Node.step_mem_parts {steps : List Step} {y : Node} {predicates : List Node}
    {keepArray : Bool} (hy : .mk y predicates keepArray ∈ steps) :
    (.step, y) ∈ (path steps).parts :=
  List.mem_flatMap.2 ⟨_, hy, List.mem_cons_self⟩

theorem Node.predicate_mem_parts {steps : List Step} {y z : Node} {predicates : List Node}
    {keepArray : Bool} (hy : .mk y predicates keepArray ∈ steps) (hz : z ∈ predicates) :
    (.operand, z) ∈ (path steps).parts :=
  List.mem_flatMap.2 ⟨_, hy, List.mem_cons_of_mem _ (List.mem_map_of_mem hz)⟩

/-! ## Printed trees scan -/

/-- Words that scan as their tokens. -/
def Spelled (ws : List Word) : Prop := ∀ w ∈ ws, w.Spelled

variable {ws vs : List Word}

theorem spelled_nil : Spelled [] := by simp [Spelled]

theorem Spelled.cons {w : Word} (hw : w.Spelled) (h : Spelled ws) : Spelled (w :: ws) :=
  List.forall_mem_cons.2 ⟨hw, h⟩

theorem Spelled.append (h : Spelled ws) (h' : Spelled vs) : Spelled (ws ++ vs) :=
  List.forall_mem_append.2 ⟨h, h'⟩

/-- Signs that are tokens by themselves. -/
theorem spelled_sign {t : Token} (ht : t ∈ [Token.dot, .comma, .colon, .question, .openParen,
    .closeParen, .openBracket, .closeBracket, .openBrace, .closeBrace, .plus, .minus, .star,
    .slash, .percent, .ampersand, .equal, .less, .greater]) : (Word.token t).Spelled := by
  simp only [List.mem_cons, List.not_mem_nil, or_false] at ht
  rcases ht with rfl | rfl | rfl | rfl | rfl | rfl | rfl | rfl | rfl | rfl | rfl | rfl | rfl | rfl
    | rfl | rfl | rfl | rfl | rfl
  all_goals exact spelled_single rfl rfl (by decide)

theorem BinaryOp.spelled_word (op : BinaryOp) : op.word.Spelled := by
  cases op with
  | notEqual => exact spelled_double (d := '=') rfl rfl (by decide) (by decide)
  | lessEqual => exact spelled_double (d := '=') rfl rfl (by decide) (by decide)
  | greaterEqual => exact spelled_double (d := '=') rfl rfl (by decide) (by decide)
  | member => exact spelled_plain (by decide)
  | both => exact spelled_plain (by decide)
  | oneOf => exact spelled_plain (by decide)
  | _ => exact spelled_sign (by simp)

theorem Spelled.enclosed (h : Spelled ws) (needed : Bool) : Spelled (enclosed needed ws) := by
  cases needed with
  | false => exact h
  | true =>
    exact .cons (spelled_sign (by simp)) (h.append (.cons (spelled_sign (by simp)) spelled_nil))

theorem spelled_joined {sep : Token} (hsep : (Word.token sep).Spelled) {wss : List (List Word)}
    (h : ∀ ws ∈ wss, Spelled ws) : Spelled (joined sep wss) := by
  induction wss with
  | nil => exact spelled_nil
  | cons ws rest ih =>
    have hrest := ih fun vs hvs => h vs (List.mem_cons_of_mem _ hvs)
    cases rest with
    | nil => exact h ws List.mem_cons_self
    | cons vs rest => exact (h ws List.mem_cons_self).append (.cons hsep hrest)

theorem spelled_items {xs : List Node} (h : ∀ x ∈ xs, Spelled x.words) :
    ∀ ws ∈ itemsWords xs, Spelled ws := by
  induction xs with
  | nil => simp [itemsWords]
  | cons x rest ih =>
    obtain ⟨hx, hrest⟩ := List.forall_mem_cons.1 h
    rw [itemsWords]
    exact List.forall_mem_cons.2 ⟨hx, ih hrest⟩

theorem spelled_pairs {xs : List (Node × Node)}
    (h : ∀ x ∈ xs, Spelled x.1.words ∧ Spelled x.2.words) :
    ∀ ws ∈ pairsWords xs, Spelled ws := by
  induction xs with
  | nil => simp [pairsWords]
  | cons x rest ih =>
    obtain ⟨key, value⟩ := x
    obtain ⟨⟨hkey, hvalue⟩, hrest⟩ := List.forall_mem_cons.1 h
    rw [pairsWords]
    refine List.forall_mem_cons.2 ⟨?_, ih hrest⟩
    exact (hkey.enclosed _).append (.cons (spelled_sign (by simp)) hvalue)

theorem spelled_predicates {xs : List Node} (h : ∀ x ∈ xs, Spelled x.words) :
    Spelled (predicatesWords xs) := by
  induction xs with
  | nil =>
    rw [predicatesWords]
    exact spelled_nil
  | cons x rest ih =>
    obtain ⟨hx, hrest⟩ := List.forall_mem_cons.1 h
    rw [predicatesWords]
    exact .cons (spelled_sign (by simp))
      (hx.append (.cons (spelled_sign (by simp)) (ih hrest)))

theorem spelled_steps {steps : List Step}
    (h : ∀ y predicates keepArray, .mk y predicates keepArray ∈ steps →
      Spelled y.words ∧ ∀ x ∈ predicates, Spelled x.words) :
    ∀ ws ∈ stepsWords steps, Spelled ws := by
  induction steps with
  | nil => simp [stepsWords]
  | cons st rest ih =>
    obtain ⟨y, predicates, keepArray⟩ := st
    obtain ⟨hy, hpredicates⟩ := h y predicates keepArray List.mem_cons_self
    rw [stepsWords]
    refine List.forall_mem_cons.2
      ⟨?_, ih fun y ps keep hst => h y ps keep (List.mem_cons_of_mem _ hst)⟩
    have hkept : Spelled (keptWords keepArray) := by
      cases keepArray with
      | false => exact spelled_nil
      | true => exact .cons (spelled_sign (by simp)) (.cons (spelled_sign (by simp)) spelled_nil)
    exact (hy.enclosed _).append ((spelled_predicates hpredicates).append hkept)

/-- The words of a tree that can be written scan as their tokens. -/
theorem Node.spelled_words (h : Everywhere (fun _ => Spellable) place x) : Spelled x.words := by
  induction h with
  | @mk place x hx hparts ih =>
    have hone : ∀ {w : Word}, w.Spelled → Spelled [w] := fun hw => .cons hw spelled_nil
    cases x with
    | number k =>
      obtain ⟨negative, m, rfl⟩ := hx
      rw [words]
      cases negative with
      | false => exact hone (spelled_number m)
      | true => exact .cons (spelled_sign (by simp)) (hone (spelled_number m))
    | string text =>
      rw [words]
      exact hone (spelled_string text)
    | boolean b =>
      rw [words]
      cases b with
      | false =>
        exact hone (spelled_plain (by decide))
      | true =>
        exact hone (spelled_plain (by decide))
    | null =>
      rw [words]
      exact hone (spelled_plain (by decide))
    | regex r => exact hx.elim
    | name field =>
      rw [words]
      exact hone (spelled_name hx.1)
    | wildcard =>
      rw [words]
      exact hone (spelled_sign (by simp))
    | context =>
      rw [words]
      exact hone (spelled_variable (List.forall_mem_nil _))
    | root =>
      rw [words]
      exact hone (spelled_double (c := '$') (d := '$') (by decide) rfl (by decide) (by decide))
    | path steps =>
      rw [words]
      refine spelled_joined (spelled_sign (by simp)) (spelled_steps fun y ps keep hst => ?_)
      exact ⟨ih _ (step_mem_parts hst), fun z hz => ih _ (predicate_mem_parts hst hz)⟩
    | array items =>
      rw [words]
      have hitems := spelled_items fun y hy => ih _ (item_mem_parts hy)
      exact .cons (spelled_sign (by simp))
        ((spelled_joined (spelled_sign (by simp)) hitems).append (hone (spelled_sign (by simp))))
    | object pairs =>
      rw [words]
      have hpairs := spelled_pairs fun y hy =>
        ⟨ih _ (key_mem_parts (y := y) hy), ih _ (value_mem_parts (y := y) hy)⟩
      exact .cons (spelled_sign (by simp))
        ((spelled_joined (spelled_sign (by simp)) hpairs).append (hone (spelled_sign (by simp))))
    | negate operand position =>
      rw [words]
      have hoperand : Spelled operand.words := ih (.operand, operand) (by simp [parts])
      exact .cons (spelled_sign (by simp)) (hoperand.enclosed _)
    | binary op left right position =>
      rw [words]
      have hleft : Spelled left.words := ih (.operand, left) (by simp [parts])
      have hright : Spelled right.words := ih (.operand, right) (by simp [parts])
      exact (hleft.enclosed _).append (.cons op.spelled_word (hright.enclosed _))
    | condition test yes no =>
      have htest : Spelled test.words := ih (.operand, test) (by simp [parts])
      have hyes : Spelled yes.words := ih (.operand, yes) (by simp [parts])
      cases no with
      | none =>
        rw [words]
        exact (htest.enclosed _).append (.cons (spelled_sign (by simp)) hyes)
      | some no =>
        have hno : Spelled no.words := ih (.operand, no) (by simp [parts])
        rw [words]
        exact (htest.enclosed _).append (.cons (spelled_sign (by simp))
          ((hyes.enclosed _).append (.cons (spelled_sign (by simp)) hno)))
    | call function arguments position =>
      rw [words]
      have harguments := spelled_items fun y hy => ih _ (argument_mem_parts hy)
      exact .cons (spelled_variable hx.2) (.cons (spelled_sign (by simp))
        ((spelled_joined (spelled_sign (by simp)) harguments).append
          (hone (spelled_sign (by simp)))))

/-! ## Printed trees parse -/

theorem Node.rank_of_isSelector (h : x.isSelector = true) : x.rank = 8 := by
  cases x with
  | name field => rfl
  | wildcard => rfl
  | _ => cases h

/-- A normal tree that can be written is readable. -/
theorem Node.readable_of_everywhere (n : Nat)
    (h : Everywhere (fun place x => x.WellPlaced place ∧ x.Spellable) place x) :
    x.Readable n := by
  induction h with
  | @mk place x hx hparts ih =>
    obtain ⟨hplaced, hspelled⟩ := hx
    have hoperand : ∀ {y : Node}, (.operand, y) ∈ x.parts → y.Operand n := fun hy =>
      ⟨ih _ hy, (hparts _ hy).here.1.noSelector⟩
    cases x with
    | number k =>
      obtain ⟨negative, m, rfl⟩ := hspelled
      exact readable_number negative m
    | string text => exact readable_string text
    | boolean b =>
      cases b with
      | false => exact readable_word (w := .plain "false") rfl (by rw [words]; rfl) rfl rfl
      | true => exact readable_word (w := .plain "true") rfl (by rw [words]; rfl) rfl rfl
    | null => exact readable_word (w := .plain "null") rfl (by rw [words]) rfl rfl
    | regex r => exact hspelled.elim
    | name field =>
      exact readable_word (w := .token (.name field)) rfl (by rw [words]) rfl
        (nameNode_eq_name hspelled.2)
    | wildcard => exact readable_wildcard
    | context => exact readable_context
    | root => exact readable_root
    | path steps =>
      obtain ⟨hne, hplain⟩ := hplaced
      refine readable_path hne hplain fun st hst => ?_
      obtain ⟨y, predicates, keepArray⟩ := st
      exact ⟨ih _ (step_mem_parts hst), rank_of_isSelector,
        fun z hz => hoperand (predicate_mem_parts hst hz)⟩
    | array items => exact readable_array fun y hy => hoperand (item_mem_parts hy)
    | object pairs =>
      exact readable_object fun y hy =>
        ⟨hoperand (key_mem_parts hy), hoperand (value_mem_parts hy)⟩
    | negate operand position =>
      have hx : operand.Operand n := hoperand (by simp [parts])
      exact readable_negate hx.readable hx.noSelector hplaced
    | binary op left right position =>
      have hleft : left.Operand n := hoperand (by simp [parts])
      have hright : right.Operand n := hoperand (by simp [parts])
      exact readable_binary hleft.readable hleft.noSelector hright.readable hright.noSelector
    | condition test yes no =>
      have htest : test.Operand n := hoperand (by simp [parts])
      have hyes : yes.Operand n := hoperand (by simp [parts])
      refine readable_condition htest.readable htest.noSelector hyes.readable hyes.noSelector
        fun z hz => ?_
      have hno : z.Operand n := hoperand (by
        obtain rfl := Option.mem_def.1 hz
        simp [parts])
      exact ⟨hno.readable, hno.noSelector⟩
    | call function arguments position =>
      obtain ⟨hempty, hchars⟩ := hspelled
      have hroot : function ≠ "$" := by
        rintro rfl
        exact absurd (hchars '$' (by decide)) (by decide)
      exact readable_call hempty hroot fun y hy => hoperand (argument_mem_parts hy)

/-- A normal tree that can be written is parsed from its print. -/
theorem parse_print_of_normal (hnormal : x.Normal) (hprint : x.Printable) :
    ∃ y, parse (print x) = .ok y ∧ y.unplaced = x.unplaced := by
  have hx := Node.readable_of_everywhere (print x).toList.length (hnormal.and hprint)
  obtain ⟨s, hnext, h⟩ := leads_spaced (print x).toList.length (Node.spelled_words hprint)
  refine parse_of_spells hx hnormal.here.noSelector ?_ h
  rw [print, String.toList_ofList] at hnext ⊢
  exact hnext

/-- The trees of expressions are the normal trees: every tree that is parsed is normal, and every
normal tree that can be written is parsed from its print, up to positions. -/
theorem expressions_are_normal_trees :
    (∀ (text : String) (x : Node), parse text = .ok x → x.Normal)
      ∧ ∀ x : Node, x.Normal → x.Printable →
        ∃ y, parse (print x) = .ok y ∧ y.unplaced = x.unplaced :=
  ⟨fun _ _ h => parse_normal h, fun _ => parse_print_of_normal⟩

/-- A sum in parentheses, and a star as an operator and as a wildcard. -/
theorem expressions_are_normal_trees_product :
    ∃ y, parse "( $ + $$ ) * *" = .ok y ∧ y.Normal
      ∧ y.unplaced = .binary .multiply (.binary .add .context .root 0)
        (.path [.mk .wildcard [] false]) 0 := by
  obtain ⟨hparsed, hprinted⟩ := expressions_are_normal_trees
  obtain ⟨y, hy, hunplaced⟩ := hprinted
    (.binary .multiply (.binary .add .context .root 0) (.path [.mk .wildcard [] false]) 0)
    (.binary trivial (.binary trivial (.leaf trivial rfl) (.leaf trivial rfl))
      (.mk ⟨by simp, by simp [Node.isSelector]⟩ (List.forall_mem_singleton.2 (.leaf rfl rfl))))
    (.binary trivial (.binary trivial (.leaf trivial rfl) (.leaf trivial rfl))
      (.mk trivial (List.forall_mem_singleton.2 (.leaf trivial rfl))))
  have hy : parse "( $ + $$ ) * *" = .ok y := hy
  exact ⟨y, hy, hparsed _ y hy, hunplaced⟩

end PipeQuery.Expr
