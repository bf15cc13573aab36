import PipeQuery.Proofs.Expr.Selectors
import PipeQuery.Proofs.Query.Quoting
import PipeQuery.Proofs.Value.PathText
import PipeQuery.Proofs.Value.Step

/-!
# Two ways to a field

Names with points between them (`dotted`) are a path, and they are an expression too.
A name is a field in both if it is scanned as a name and is no literal (`FieldName`):
no name is an index, and the words of operators are operators behind an operand only.

What a path leads to and what an expression leads to differ at arrays, where a path
goes on by an index and an expression with every item.  `navigation_off_arrays` says
that otherwise both lead to the same value.
-/

namespace PipeQuery

/-! ## Names -/

/-- A name that is a field, in a path and in an expression. -/
structure FieldName where
  /-- The name as it is written. -/
  text : String
  /-- It is scanned as a name. -/
  isName : Expr.IsName text
  /-- It does not stand for a value. -/
  noLiteral : text ∉ ["true", "false", "null"]

/-- Names with points between them. -/
def dotted (names : List FieldName) : String := ".".intercalate (names.map FieldName.text)

/-- The path of fields with these names. -/
def fieldPath (names : List FieldName) : Path := names.map fun name => .field name.text

theorem toList_dotted_singleton (name : FieldName) : (dotted [name]).toList = name.text.toList := by
  rw [dotted, String.toList_intercalate]
  simp

theorem toList_dotted_cons_cons (name next : FieldName) (names : List FieldName) :
    (dotted (name :: next :: names)).toList
      = name.text.toList ++ '.' :: (dotted (next :: names)).toList := by
  rw [dotted, dotted, String.toList_intercalate, String.toList_intercalate]
  simp [List.intercalate_cons_cons]

/-- The characters of names with points between them. -/
theorem mem_dotted {names : List FieldName} {c : Char} (h : c ∈ (dotted names).toList) :
    c = '.' ∨ Expr.isNameChar c = true := by
  induction names with
  | nil => cases h
  | cons name names ih =>
    cases names with
    | nil =>
      rw [toList_dotted_singleton] at h
      exact .inr (name.isName.chars c h)
    | cons next names =>
      rw [toList_dotted_cons_cons, List.mem_append, List.mem_cons] at h
      rcases h with h | rfl | h
      · exact .inr (name.isName.chars c h)
      · exact .inl rfl
      · exact ih h

theorem not_mem_dotted {c : Char} (hpoint : c ≠ '.') (hchar : Expr.isNameChar c = false)
    (names : List FieldName) : c ∉ (dotted names).toList := by
  intro h
  rcases mem_dotted h with rfl | hc
  · exact hpoint rfl
  · rw [hchar] at hc
    cases hc

/-! ## As a path -/

namespace FieldName

variable (name : FieldName)

theorem not_mem {c : Char} (hc : Expr.isNameChar c = false) : c ∉ name.text.toList := by
  intro h
  rw [name.isName.chars c h] at hc
  cases hc

/-- A name begins with neither a digit nor a plus sign. -/
theorem not_readsAs (i : Nat) : ¬ ReadsAs name.text.toList i := by
  rintro ⟨digits, hname, hne, hdigits, -⟩
  obtain ⟨c, rest, hchars, hc⟩ := name.isName.start
  rw [hchars] at hname
  rcases hname with rfl | hplus
  · have hdigit : c.isDigit = true := hdigits c List.mem_cons_self
    rw [hc.isDigit] at hdigit
    cases hdigit
  · cases hplus
    exact hc.ne (by decide) rfl

theorem segment_eq : Segment.ofName name.text = .field name.text := by
  have h := Segment.names_ofName name.text
  generalize Segment.ofName name.text = segment at h
  cases h with
  | index hi => exact absurd hi (name.not_readsAs _)
  | field _ => rfl

/-- The name as it stands in a path. -/
def spelled : SpelledName where
  name := name.text
  spelling := .dotted
  admits := by
    obtain ⟨c, rest, hchars, -⟩ := name.isName.start
    refine ⟨?_, name.not_mem (by decide), name.not_mem (by decide)⟩
    rw [hchars]
    exact List.cons_ne_nil c rest

end FieldName

theorem writtenNames_dotted (name : FieldName) (names : List FieldName) :
    writtenNames true ((name :: names).map FieldName.spelled)
      = (dotted (name :: names)).toList := by
  induction names generalizing name with
  | nil =>
    rw [toList_dotted_singleton]
    exact List.append_nil _
  | cons next names ih =>
    rw [toList_dotted_cons_cons, ← ih]
    rfl

/-- Names with points between them are the path of the fields. -/
theorem ofText_dotted (names : List FieldName) : Path.ofText (dotted names) = fieldPath names := by
  cases names with
  | nil => rfl
  | cons name names =>
    rw [Path.ofText, ← writtenNames_dotted, Path.parsePlain_writtenNames, List.map_map]
    exact List.map_congr_left fun name _ => name.segment_eq

/-! ## As an expression -/

namespace FieldName

/-- The name as a step to its field. -/
def selector (name : FieldName) : Expr.Selector := .plain name.text name.isName name.noLiteral

end FieldName

namespace Expr

/-- The step to a field. -/
def fieldStep (name : FieldName) : Step := .mk (.name name.text) [] false

theorem map_step_selector (names : List FieldName) :
    (names.map FieldName.selector).map Selector.step = names.map fieldStep := by
  rw [List.map_map]
  rfl

/-- Names with points between them are parsed as the steps to the fields. -/
theorem parse_dotted {names : List FieldName} (hne : names ≠ []) :
    parse (dotted names) = .ok (.path (names.map fieldStep)) := by
  have htext : dotted names = pathText (names.map FieldName.selector) := by
    rw [dotted, pathText, List.map_map]
    rfl
  rw [htext, parse_pathText (by simpa using hne), map_step_selector]

end Expr

/-! ## Away from arrays -/

namespace Value

variable {v w : Value} {path : Path}

/-- No prefix of the path leads to an array, neither the empty one nor the whole path. -/
def OffArrays (path : Path) (v : Value) : Prop :=
  ∀ front, front <+: path → ∀ w ∈ v.find? front, w.asArray? = none

theorem offArrays_nil_iff : v.OffArrays [] ↔ v.asArray? = none := by
  constructor
  · intro h
    exact h [] List.nil_prefix v rfl
  · rintro hv front hfront w hw
    rw [List.prefix_nil.1 hfront] at hw
    cases hw
    exact hv

/-- A path is away from arrays if it does not begin at one and the rest is away from arrays behind
the first step. -/
theorem offArrays_cons_iff {segment : Segment} :
    v.OffArrays (segment :: path)
      ↔ v.asArray? = none ∧ ∀ w ∈ v.child? segment, w.OffArrays path := by
  constructor
  · intro h
    refine ⟨h [] List.nil_prefix v rfl, fun w hw front hfront u hu => ?_⟩
    refine h (segment :: front) (List.cons_prefix_cons.2 ⟨rfl, hfront⟩) u ?_
    rw [find?_cons, hw]
    exact hu
  · rintro ⟨hv, hrest⟩ front hfront u hu
    cases front with
    | nil =>
      cases hu
      exact hv
    | cons first front =>
      obtain ⟨rfl, hbehind⟩ := List.cons_prefix_cons.1 hfront
      obtain ⟨w, hw, hu⟩ := Option.bind_eq_some_iff.1 hu
      exact hrest w hw front hbehind u hu

instance decidableOffArrays : (path : Path) → (v : Value) → Decidable (v.OffArrays path)
  | [], _ => decidable_of_iff _ offArrays_nil_iff.symm
  | _ :: rest, _ =>
    have := decidableOffArrays rest
    decidable_of_iff _ offArrays_cons_iff.symm

theorem OffArrays.here (h : v.OffArrays path) : v.asArray? = none := by
  cases path with
  | nil => exact offArrays_nil_iff.1 h
  | cons segment path => exact (offArrays_cons_iff.1 h).1

theorem spread_eq (h : v.asArray? = none) : v.spread = [v] := by
  cases v with
  | array items => cases h
  | _ => rfl

/-- Away from arrays a field leads an expression to what it leads a path to. -/
theorem select_eq {name : String} (h : v.OffArrays (.field name :: path)) :
    v.select name = (v.child? (.field name)).toList := by
  obtain ⟨hv, hchild⟩ := offArrays_cons_iff.1 h
  cases v with
  | array items => cases hv
  | object entries =>
    show ((Entries.get? name entries).map spread).getD [] = (Entries.get? name entries).toList
    cases hget : Entries.get? name entries with
    | none => rfl
    | some w =>
      -- only an array would be taken apart into its items
      exact spread_eq (hchild w hget).here
  | _ => rfl

end Value

namespace Expr

variable {names : List FieldName} {v : Value}

/-- Steps lead nowhere from no items. -/
theorem reached_nil (steps : List Step) : reached steps [] = [] := by
  induction steps with
  | nil => rfl
  | cons st steps ih => exact ih

/-- Away from arrays steps to fields lead to what the path of the fields leads to. -/
theorem reached_fieldSteps (h : v.OffArrays (fieldPath names)) :
    reached (names.map fieldStep) [v] = (v.find? (fieldPath names)).toList := by
  induction names generalizing v with
  | nil => rfl
  | cons name names ih =>
    have h : v.OffArrays (.field name.text :: fieldPath names) := h
    have hstep : reached ((name :: names).map fieldStep) [v]
        = reached (names.map fieldStep) (v.child? (.field name.text)).toList := by
      rw [← Value.select_eq h, ← List.append_nil (v.select name.text)]
      rfl
    rw [hstep, fieldPath, List.map_cons, Value.find?_cons]
    cases hchild : v.child? (.field name.text) with
    | none => exact reached_nil _
    | some w => exact ih ((Value.offArrays_cons_iff.1 h).2 w hchild)

/-- Away from arrays names with points between them are an expression for what they lead to as a
path. -/
theorem evaluate_dotted (hne : names ≠ []) (h : v.OffArrays (fieldPath names)) :
    evaluate (dotted names) v = .ok (.value (v.get (fieldPath names))) := by
  have hselects : ∀ st ∈ names.map fieldStep, st.Selects := by
    rw [← map_step_selector]
    exact selects_of_mem_map _
  rw [evaluate, parse_dotted hne]
  show evalTree (.path (names.map fieldStep)) v = _
  rw [evalTree_selecting hselects, reached_fieldSteps h, Value.get]
  cases v.find? (fieldPath names) with
  | none => rfl
  | some w => rfl

end Expr

/-! ## In a query -/

namespace Query

theorem escaped_eq_self {quote : Char} {cs : List Char} (hquote : quote ∉ cs)
    (hback : '\\' ∉ cs) : escaped quote cs = cs := by
  induction cs with
  | nil => rfl
  | cons c cs ih =>
    obtain ⟨hc, hquote⟩ := not_or.1 (mt List.mem_cons.2 hquote)
    obtain ⟨hc', hback⟩ := not_or.1 (mt List.mem_cons.2 hback)
    have hcons : escaped quote (c :: cs)
        = (if c = quote || c = '\\' then ['\\', c] else [c]) ++ escaped quote cs :=
      List.flatMap_cons
    simp [hcons, Ne.symm hc, Ne.symm hc', ih hquote hback]

theorem escaped_dotted (quote : Char) (hpoint : quote ≠ '.')
    (hchar : Expr.isNameChar quote = false) (names : List FieldName) :
    escaped quote (dotted names).toList = (dotted names).toList :=
  escaped_eq_self (not_mem_dotted hpoint hchar names)
    (not_mem_dotted (by decide) (by decide) names)

/-- A query that is a path gives what the path leads to. -/
theorem run_scope [Draws] (names : List FieldName) (v : Value) :
    run ("scope \"" ++ dotted names ++ "\"") v = .ok (v.get (fieldPath names)) := by
  have hname : (Token.identifier "scope").Spelled := by decide
  have hparse := parse_command hname (Token.spelled_field (dotted names)) (.scope (.mk rfl))
  have htext : String.ofList (write [.identifier "scope", .field (dotted names)])
      = "scope \"" ++ dotted names ++ "\"" := by
    rw [← String.toList_inj]
    simp [write, gap, standsClose, Token.spelling, escaped_dotted '"' (by decide) (by decide)]
  rw [htext] at hparse
  refine run_of_parse hparse ?_
  rw [Stage.run, Value.field, ofText_dotted]

/-- Names with points between them lead to the same value as a path and as an expression, unless
they lead to an array or through one. -/
theorem navigation_off_arrays [Draws] {names : List FieldName} (hne : names ≠ []) {v : Value}
    (h : v.OffArrays (fieldPath names)) :
    run ("scope \"" ++ dotted names ++ "\"") v = .ok (v.get (fieldPath names))
      ∧ run ("jsonata '" ++ dotted names ++ "'") v = .ok (v.get (fieldPath names)) := by
  constructor
  · exact run_scope names v
  · have htext : "jsonata '" ++ dotted names ++ "'"
        = "jsonata " ++ singleQuoted (dotted names) := by
      rw [← String.toList_inj]
      simp [singleQuoted, escaped_dotted '\'' (by decide) (by decide)]
    rw [htext]
    exact run_jsonata (Expr.evaluate_dotted hne h)

/-- Words of operators are names like others. -/
theorem navigation_off_arrays_operators :
    run "scope \"and.in\"" (.object [("and", .object [("in", .boolean true)])])
        = .ok (.boolean true)
      ∧ run "jsonata 'and.in'" (.object [("and", .object [("in", .boolean true)])])
        = .ok (.boolean true) := by
  have hand : Expr.IsName "and" := Expr.isName_of_reserved (by decide)
  have hin : Expr.IsName "in" := Expr.isName_of_reserved (by decide)
  have hoff : (Value.object [("and", .object [("in", .boolean true)])]).OffArrays
      [.field "and", .field "in"] := by decide
  have hne : [⟨"and", hand, by decide⟩, ⟨"in", hin, by decide⟩] ≠ ([] : List FieldName) :=
    List.cons_ne_nil _ _
  exact navigation_off_arrays hne hoff

end Query

end PipeQuery
