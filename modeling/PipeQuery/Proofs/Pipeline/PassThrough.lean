import PipeQuery.Pipeline.Run

/-!
# Values that pass through

A stage that has nothing to do with a value hands it on as it is.  `Stage.acts` says
which values a stage has to do with: by their kind, for most stages, and all of them
for those that put something of their own in the place of a value or look into it
whatever it is.  `Stage.run_of_not_acts` is the law of a stage, `runStages_of_not_acts`
that of a list of stages.

`runStages_passes` reads off from them that in a list of stages that go by the kind
alone (`Stage.goesByKind`) every value passes that is no text and holds no others
(`Value.isPlain`), and every object too if there is no `project` among the stages.
-/

namespace PipeQuery

/-! ## Kinds of values -/

namespace Value

/-- Whether the value is an array. -/
def isArray (v : Value) : Bool := v.asArray?.isSome

/-- Whether the value is a text. -/
def isString (v : Value) : Bool := v.asString?.isSome

/-- Whether the value is an object. -/
def isObject (v : Value) : Bool := v.asObject?.isSome

/-- Whether the value is `null`, a boolean or a number. -/
def isPlain : Value → Bool
  | .null | .boolean _ | .number _ => true
  | .string _ | .array _ | .object _ => false

theorem kinds_of_isPlain {v : Value} (h : v.isPlain = true) :
    v.isArray = false ∧ v.isString = false ∧ v.isObject = false := by
  cases v with
  | null | boolean b | number n => exact ⟨rfl, rfl, rfl⟩
  | string s | array items | object entries => cases h

end Value

/-! ## Operators -/

namespace Operator

variable {op : Operator} {v : Value}

/-- Whether the value has the shape that the operator works on.  Texts may be counted too. -/
def acts (op : Operator) (v : Value) : Bool :=
  match op.shape with
  | .nothing => true
  | .array => v.isArray || (op == .count && v.isString)
  | .string => v.isString

/-- An operator has no result on a value of another shape. -/
theorem eval?_of_not_acts [Draws] (h : op.acts v = false) : op.eval? v = none := by
  cases v <;> cases op <;> first | rfl | exact Bool.noConfusion h

/-- A value of another shape passes through an operator. -/
theorem applyTo_of_not_acts [Draws] (h : op.acts v = false) : op.applyTo v = v := by
  rw [applyTo, eval?_of_not_acts h]
  rfl

/-- Every operator but `random` asks for an array or a text. -/
theorem acts_eq_false (hop : op ≠ .random) (harray : v.isArray = false)
    (hstring : v.isString = false) : op.acts v = false := by
  unfold acts
  cases hshape : op.shape with
  | nothing =>
    cases op with
    | random => exact absurd rfl hop
    | _ => cases hshape
  | array => simp [harray, hstring]
  | string => exact hstring

end Operator

namespace Query

/-! ## Stages -/

variable {engine : Engine} {stage : Stage} {stages : List Stage} {v : Value}

/-- Whether the stage may do more with the value than hand it on. -/
def Stage.acts (stage : Stage) (v : Value) : Bool :=
  match stage with
  | .comment _ => false
  | .hello | .ping _ | .echo _ | .scope _ | .expression _ | .distinct (some _) => true
  | .command op => op.acts v
  | .count | .limit _ => v.isArray || v.isString
  | .project _ => v.isArray || v.isObject
  | .distinct none | .expand _ _ | .orderBy _ | .extend _ | .projectAway _ | .summarize _ _ =>
    v.isArray
  | .parseJson | .parseCsv _ | .parseXml _ | .parseYaml => v.isString

theorem readText_of_not_isString {read : String → Except ContentError Value}
    (h : v.isString = false) : readText stage read v = .ok v := by
  cases v with
  | string s => cases h
  | _ => rfl

/-- A stage hands on a value that it does not act on. -/
theorem Stage.run_of_not_acts [Draws] (h : stage.acts v = false) : stage.run engine v = .ok v := by
  cases stage with
  | comment text => rfl
  | hello | ping literal | echo literal | scope path | expression text => cases h
  | command op => exact congrArg Except.ok (Operator.applyTo_of_not_acts h)
  | parseJson | parseCsv options | parseXml options | parseYaml =>
    exact readText_of_not_isString h
  | distinct field =>
    cases field with
    | some path => cases h
    | none => cases v <;> first | rfl | cases h
  | expand field label | count | limit n | orderBy fields | extend items | project items
  | projectAway fields | summarize fields metrics =>
    cases v <;> first | rfl | cases h

/-- Stages hand on a value that none of them acts on. -/
theorem runStages_of_not_acts [Draws] (h : ∀ stage ∈ stages, stage.acts v = false) :
    runStages engine stages v = .ok v := by
  induction stages with
  | nil => rfl
  | cons stage rest ih =>
    obtain ⟨hstage, hrest⟩ := List.forall_mem_cons.1 h
    rw [runStages, List.foldlM_cons, Stage.run_of_not_acts hstage]
    exact ih hrest

/-! ## Stages that go by the kind -/

/-- Whether the stage goes by the kind of a value: it neither gives a value of its own nor looks
for a field in whatever there is. -/
def Stage.goesByKind : Stage → Bool
  | .comment _ | .distinct none | .expand _ _ | .count | .limit _ | .orderBy _ | .extend _
  | .project _ | .projectAway _ | .summarize _ _ | .parseJson | .parseCsv _ | .parseXml _
  | .parseYaml => true
  | .command op => op != .random
  | .hello | .ping _ | .echo _ | .scope _ | .expression _ | .distinct (some _) => false

theorem Stage.acts_eq_false (h : stage.goesByKind = true) (harray : v.isArray = false)
    (hstring : v.isString = false)
    (hobject : v.isObject = false ∨ ∀ items, stage ≠ .project items) : stage.acts v = false := by
  cases stage with
  | comment text => rfl
  | hello | ping literal | echo literal | scope path | expression text => cases h
  | command op => exact Operator.acts_eq_false (bne_iff_ne.1 h) harray hstring
  | project items =>
    rcases hobject with hobject | hproject
    · simp [acts, harray, hobject]
    · exact absurd rfl (hproject items)
  | count | limit n => simp [acts, harray, hstring]
  | distinct field =>
    cases field with
    | none => exact harray
    | some path => cases h
  | expand field label | orderBy fields | extend items | projectAway fields
  | summarize fields metrics => exact harray
  | parseJson | parseCsv options | parseXml options | parseYaml => exact hstring

/-- Through stages that go by the kind alone every value passes that is `null`, a boolean or a
number, and without `project` among them every object as well. -/
theorem runStages_passes [Draws] (engine : Engine)
    (hstages : ∀ stage ∈ stages, stage.goesByKind = true) :
    (∀ v : Value, v.isPlain = true → runStages engine stages v = .ok v)
      ∧ ((∀ items, .project items ∉ stages) →
        ∀ entries, runStages engine stages (.object entries) = .ok (.object entries)) := by
  constructor
  · intro v hv
    obtain ⟨harray, hstring, hobject⟩ := Value.kinds_of_isPlain hv
    refine runStages_of_not_acts fun stage hstage => ?_
    exact Stage.acts_eq_false (hstages stage hstage) harray hstring (.inl hobject)
  · intro hproject entries
    refine runStages_of_not_acts fun stage hstage => ?_
    refine Stage.acts_eq_false (hstages stage hstage) rfl rfl (.inr fun items heq => ?_)
    exact hproject items (heq ▸ hstage)

/-- A number passes through a list with a stage of each sort, and an object if the last of them
is left out. -/
theorem runStages_passes_all :
    runStages .standard [.comment "rows", .count, .limit 0, .command .first, .command .strlen,
        .distinct none, .extend [⟨.field "a", some "b"⟩], .summarize ["a"] [], .parseJson,
        .project []] (.ofCount 7)
      = .ok (.ofCount 7)
    ∧ runStages .standard [.comment "rows", .count, .limit 0, .command .first, .command .strlen,
        .distinct none, .extend [⟨.field "a", some "b"⟩], .summarize ["a"] [], .parseJson]
        (.object [("a", .null)])
      = .ok (.object [("a", .null)]) := by
  constructor
  · exact (runStages_passes .standard (by simp [Stage.goesByKind])).1 _ rfl
  · exact (runStages_passes .standard (by simp [Stage.goesByKind])).2 (by simp) _

end Query

end PipeQuery
