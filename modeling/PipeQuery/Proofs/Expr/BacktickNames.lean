import PipeQuery.Proofs.Expr.Selectors

/-!
# Names in backticks

Backticks are for names that could not be written otherwise.  A token keeps the name and
not the backticks, so that what takes a name for something else does so with backticks too.
An expression of one token is taken apart at two places only.  The words of operators are
looked for behind an operand, so that they are names here.  The words of literals are looked
for where an operand begins, and there they win.

`backticked_but_for_literals` says that a name in backticks leads to its field of every object
exactly if it is no literal, and that otherwise it is that literal (`backticked_true`).
-/

namespace PipeQuery.Expr

/-- A name in backticks. -/
def backticked (field : String) : String := "\x60" ++ field ++ "\x60"

/-- The value that a word stands for where an operand is expected. -/
def literal? : String → Option Value
  | "true" => some (.boolean true)
  | "false" => some (.boolean false)
  | "null" => some .null
  | _ => none

/-- What an entry of the context gives at the top: the items of an array go on one by one. -/
def Outcome.ofEntry : Option Value → Outcome
  | none => .value .null
  | some (.array items) => .ofItems items
  | some v => .value v

variable {field : String} {w : Value}

theorem toList_backticked (field : String) :
    (backticked field).toList = '\x60' :: (field.toList ++ ['\x60']) := by
  simp [backticked]

/-! ## Literals -/

theorem literal?_eq_none_iff : literal? field = none ↔ field ∉ ["true", "false", "null"] := by
  unfold literal?
  split <;> simp_all

/-- A word in backticks is parsed as the word. -/
theorem parse_backticked_word {x : Node} (hclosed : '\x60' ∉ field.toList) (hrank : x.rank = 8)
    (hwords : x.words = [.plain field]) (hname : nameNode field = x) (hleaf : x.isLeaf = true)
    (hsel : x.isSelector = false) : parse (backticked field) = .ok x := by
  have hx : x.Readable (backticked field).toList.length := readable_word hrank hwords rfl hname
  have hnext : next (backticked field).toList.length (backticked field).toList
      = .ok (.token (.name field) (backticked field).toList []) := by
    rw [toList_backticked]
    exact next_of_scan (by decide) (by decide) (scan_backtick _ hclosed [])
  have hspells : (Ahead.token (.name field) (backticked field).toList []).Spells
      (backticked field).toList.length x.words .finished := by
    rw [hwords]
    exact .token rfl .here
  obtain ⟨y, hparse, hy⟩ := parse_of_spells hx hsel hnext hspells
  rw [Node.unplaced_of_isLeaf hleaf] at hy
  rw [hparse, Node.eq_of_isLeaf hleaf hy]

/-- The node that a literal is read as gives the value of the literal on every input. -/
theorem exists_of_literal? (h : literal? field = some w) :
    ∃ x : Node, nameNode field = x ∧ x.rank = 8 ∧ x.words = [.plain field] ∧ x.isLeaf = true
      ∧ x.isSelector = false ∧ ∀ v, evalTree x v = .ok (.value w) := by
  unfold literal? at h
  split at h <;> cases h
  · refine ⟨.boolean true, rfl, rfl, ?_, rfl, rfl, fun v => rfl⟩
    rw [Node.words]
    rfl
  · refine ⟨.boolean false, rfl, rfl, ?_, rfl, rfl, fun v => rfl⟩
    rw [Node.words]
    rfl
  · refine ⟨.null, rfl, rfl, ?_, rfl, rfl, fun v => rfl⟩
    rw [Node.words]

/-- A literal stays what it is in backticks. -/
theorem evaluate_backticked_literal (hclosed : '\x60' ∉ field.toList)
    (h : literal? field = some w) (v : Value) :
    evaluate (backticked field) v = .ok (.value w) := by
  obtain ⟨x, hname, hrank, hwords, hleaf, hsel, hvalue⟩ := exists_of_literal? h
  rw [evaluate, parse_backticked_word hclosed hrank hwords hname hleaf hsel]
  exact hvalue v

/-! ## Fields -/

/-- A name that is no literal leads in backticks to its field. -/
theorem evaluate_backticked_field (hclosed : '\x60' ∉ field.toList) (h : literal? field = none)
    (entries : Entries Value) :
    evaluate (backticked field) (.object entries)
      = .ok (.ofEntry (Entries.get? field entries)) := by
  have hliteral := literal?_eq_none_iff.1 h
  have htext : backticked field = pathText [.quoted field hclosed hliteral] := by
    rw [← String.toList_inj, toList_pathText_singleton]
    rfl
  have hselects := selects_of_mem_map [.quoted field hclosed hliteral]
  rw [htext, evaluate, parse_pathText (List.cons_ne_nil _ _)]
  refine (evalTree_selecting hselects _).trans ?_
  have hreached : reached ([.quoted field hclosed hliteral].map Selector.step) [.object entries]
      = ((Entries.get? field entries).map Value.spread).getD [] := List.append_nil _
  rw [hreached]
  cases Entries.get? field entries with
  | none => rfl
  | some w => cases w <;> rfl

/-- A literal is told from the text in the entry of its name. -/
theorem ofEntry_ne_literal (h : literal? field = some w) :
    Outcome.ofEntry (some (.string "")) ≠ .value w := by
  unfold literal? at h
  split at h <;> cases h <;> exact fun hw => nomatch hw

/-- A name in backticks leads to its entry of every object exactly if it is no literal, and a
literal stays what it is in backticks. -/
theorem backticked_but_for_literals (h : '\x60' ∉ field.toList) :
    ((∀ entries : Entries Value, evaluate (backticked field) (.object entries)
        = .ok (.ofEntry (Entries.get? field entries))) ↔ literal? field = none)
      ∧ ∀ w, literal? field = some w → ∀ v,
        evaluate (backticked field) v = .ok (.value w) := by
  refine ⟨⟨fun hfield => ?_, evaluate_backticked_field h⟩,
    fun w hw => evaluate_backticked_literal h hw⟩
  cases hliteral : literal? field with
  | none => rfl
  | some w =>
    have hentry := hfield [(field, .string "")]
    have hget : Entries.get? field [(field, Value.string "")] = some (.string "") :=
      if_pos rfl
    rw [evaluate_backticked_literal h hliteral, hget] at hentry
    exact absurd (Except.ok.inj hentry).symm (ofEntry_ne_literal hliteral)

/-- The word of an operator is a name in backticks, and the word of a literal is not. -/
theorem backticked_but_for_literals_words :
    evaluate (backticked "and") (.object [("and", .array [.string "x", .array []])])
        = .ok (.ofItems [.string "x", .array []])
      ∧ evaluate (backticked "null") (.object [("null", .string "x")]) = .ok (.value .null) := by
  have hand : '\x60' ∉ "and".toList := by decide
  have hnull : '\x60' ∉ "null".toList := by decide
  exact ⟨(backticked_but_for_literals hand).1.2 rfl _,
    (backticked_but_for_literals hnull).2 .null rfl _⟩

/-- The entry of the name `true` cannot be reached by the name in backticks. -/
theorem backticked_true :
    evaluate (backticked "true") (.object [("true", .string "yes")])
        = .ok (.value (.boolean true))
      ∧ Outcome.ofEntry (Entries.get? "true" [("true", .string "yes")])
        = .value (.string "yes") := by
  refine ⟨evaluate_backticked_literal ?_ rfl _, rfl⟩
  decide

end PipeQuery.Expr
