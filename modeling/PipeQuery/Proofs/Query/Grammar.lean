import PipeQuery.Query.Parser

/-!
# The grammar of queries

Which tokens spell what, said without a parser: each relation holds of a list of
tokens and of what these tokens spell, all of them and nothing behind them.
Where a query may be written in several ways, the relation has a constructor for
each.

* `Single` is one token that holds something, `Separated` are items with commas
  between them.
* `Arguments`, `Call`, `Item`, `Metric` and the like are the parts of stages.
* `Body` is what follows the name of a stage, `Stages` is a whole query.

An option carries the position where it stands, which no stage depends on, so
`Options` leaves the positions open.
-/

namespace PipeQuery.Query.Grammar

variable {α : Type}

/-- One token in which `read` finds something. -/
inductive Single (read : Token → Option α) : List Token → α → Prop
  | mk {t : Token} {a : α} : read t = some a → Single read [t] a

/-- The text that a token in quotes of either kind holds. -/
def text? : Token → Option String
  | .field x | .string x => some x
  | _ => none

/-- Items with commas between them, at least one. -/
inductive Separated (R : List Token → α → Prop) : List Token → List α → Prop
  | last {ts : List Token} {a : α} : R ts a → Separated R ts [a]
  | more {ts us : List Token} {a : α} {as : List α} :
    R ts a → Separated R us as → Separated R (ts ++ .comma :: us) (a :: as)

/-! ## Calls -/

/-- Arguments with the closing parenthesis, which may follow a comma. -/
inductive Arguments : List Token → List Argument → Prop
  | none : Arguments [.closeParen] []
  | last {t : Token} {a : Argument} : argument? t = some a → Arguments [t, .closeParen] [a]
  | more {t : Token} {a : Argument} {ts : List Token} {as : List Argument} :
    argument? t = some a → Arguments ts as → Arguments (t :: .comma :: ts) (a :: as)

/-- A call of an operator with as many arguments as it takes. -/
inductive Call : List Token → Query.Call → Prop
  | mk {name : String} {op : Operator} {ts : List Token} {args : List Argument} :
    Operator.ofName? name = some op → Arguments ts args →
    op.arity.allows args.length = true →
    Call (.identifier name :: .openParen :: ts) ⟨op, args⟩

/-! ## The parts of stages -/

/-- A field with a direction, which is rising if none is given. -/
inductive OrderField : List Token → Query.OrderField → Prop
  | plain {ts : List Token} {x : String} : Single text? ts x → OrderField ts ⟨x, .asc⟩
  | asc {ts : List Token} {x : String} :
    Single text? ts x → OrderField (ts ++ [.identifier "asc"]) ⟨x, .asc⟩
  | desc {ts : List Token} {x : String} :
    Single text? ts x → OrderField (ts ++ [.identifier "desc"]) ⟨x, .desc⟩

/-- What an item computes, with the name that is put before it. -/
inductive ItemSource : List Token → Query.Item → Prop
  | field {x : String} : ItemSource [.field x] ⟨.field x, none⟩
  | labelledField {x y : String} {ts : List Token} :
    Single text? ts y → ItemSource (.field x :: .equals :: ts) ⟨.field y, some x⟩
  | call {ts : List Token} {c : Query.Call} : Call ts c → ItemSource ts ⟨.call c, none⟩
  | labelledCall {x : String} {ts : List Token} {c : Query.Call} :
    Call ts c → ItemSource (.field x :: .equals :: ts) ⟨.call c, some x⟩

/-- An item, whose name may also follow it. -/
inductive Item : List Token → Query.Item → Prop
  | plain {ts : List Token} {i : Query.Item} : ItemSource ts i → Item ts i
  | named {ts us : List Token} {i : Query.Item} {x : String} :
    ItemSource ts i → Single text? us x →
    Item (ts ++ .identifier "as" :: us) { i with label := some x }

/-- A call with a name before it, if any. -/
inductive Metric : List Token → Query.Metric → Prop
  | plain {ts : List Token} {c : Query.Call} : Call ts c → Metric ts ⟨c, none⟩
  | labelled {x : String} {ts : List Token} {c : Query.Call} :
    Call ts c → Metric (.field x :: .equals :: ts) ⟨c, some x⟩

/-- Options of a stage, at any positions. -/
inductive Options : List Token → List StageOption → Prop
  | none : Options [] []
  | flag {name : String} {p : Position} {ts : List Token} {os : List StageOption} :
    Options ts os → Options (.flag name :: ts) (⟨name, .boolean true, p⟩ :: os)
  | value {name : String} {p : Position} {t : Token} {v : Value} {ts : List Token}
    {os : List StageOption} :
    Tokens.literalValue? t = some v → Options ts os →
    Options (.flag name :: .equals :: t :: ts) (⟨name, v, p⟩ :: os)

/-! ## Stages -/

/-- What follows the name of a stage. -/
inductive Body : String → List Token → Stage → Prop
  | hello : Body "hello" [] .hello
  | ping : Body "ping" [] (.ping (.string "pong"))
  | pingLiteral {ts : List Token} {v : Value} :
    Single Tokens.literalValue? ts v → Body "ping" ts (.ping v)
  | echo {ts : List Token} {v : Value} :
    Single Tokens.literalValue? ts v → Body "echo" ts (.echo v)
  | scope {ts : List Token} {x : String} : Single text? ts x → Body "scope" ts (.scope x)
  | jsonata {ts : List Token} {x : String} :
    Single text? ts x → Body "jsonata" ts (.expression x)
  | distinct : Body "distinct" [] (.distinct none)
  | distinctField {ts : List Token} {x : String} :
    Single text? ts x → Body "distinct" ts (.distinct (some x))
  | count : Body "count" [] .count
  | limit {ts : List Token} {n : Nat} : Single wholeNumber? ts n → Body "limit" ts (.limit n)
  | expand {ts : List Token} {x : String} :
    Single text? ts x → Body "mv-expand" ts (.expand x none)
  | expandLabelled {ts us : List Token} {x y : String} :
    Single text? ts x → Single text? us y →
    Body "mv-expand" (ts ++ .equals :: us) (.expand y (some x))
  | orderBy {ts : List Token} {fields : List Query.OrderField} :
    Separated OrderField ts fields →
    Body "order" (.identifier "by" :: ts) (.orderBy fields)
  | extend {ts : List Token} {items : List Query.Item} :
    Separated Item ts items → Body "extend" ts (.extend items)
  | project {ts : List Token} {items : List Query.Item} :
    Separated Item ts items → Body "project" ts (.project items)
  | projectAway {ts : List Token} {fields : List String} :
    Separated (Single text?) ts fields → Body "project-away" ts (.projectAway fields)
  | summarize {ts : List Token} {metrics : List Query.Metric} :
    Separated Metric ts metrics → Body "summarize" ts (.summarize [] metrics)
  | summarizeBy {ts us : List Token} {metrics : List Query.Metric} {fields : List String} :
    Separated Metric ts metrics → Separated (Single text?) us fields →
    Body "summarize" (ts ++ .identifier "by" :: us) (.summarize fields metrics)
  | parseJson : Body "parse-json" [] .parseJson
  | parseYaml : Body "parse-yaml" [] .parseYaml
  | parseCsv {ts : List Token} {os : List StageOption} {opts : CsvOptions} :
    Options ts os → os.foldlM CsvOptions.apply {} = .ok opts →
    Body "parse-csv" ts (.parseCsv opts)
  | parseXml {ts : List Token} {os : List StageOption} {opts : XmlOptions} :
    Options ts os → os.foldlM XmlOptions.apply {} = .ok opts →
    Body "parse-xml" ts (.parseXml opts)
  | command {op : Operator} : op ≠ .count → op ≠ .distinct → Body op.name [] (.command op)

/-- A stage. -/
inductive OneStage : List Token → Stage → Prop
  | comment {x : String} : OneStage [.comment x] (.comment x)
  | named {name : String} {ts : List Token} {st : Stage} :
    Body name ts st → OneStage (.identifier name :: ts) st

/-- A query: stages with pipes between them; a comment needs no pipe behind it. -/
inductive Stages : List Token → List Stage → Prop
  | last {ts : List Token} {st : Stage} : OneStage ts st → Stages ts [st]
  | piped {ts us : List Token} {st : Stage} {sts : List Stage} :
    OneStage ts st → Stages us sts → Stages (ts ++ .pipe :: us) (st :: sts)
  | afterComment {x : String} {us : List Token} {sts : List Stage} :
    Stages us sts → Stages (.comment x :: us) (.comment x :: sts)

/-- Two queries make one with a pipe between them. -/
theorem Stages.append {ts us : List Token} {sts sts' : List Stage} (h : Stages ts sts)
    (h' : Stages us sts') : Stages (ts ++ .pipe :: us) (sts ++ sts') := by
  induction h with
  | last hst => exact .piped hst h'
  | piped hst _ ih =>
    rw [List.append_assoc, List.cons_append, List.cons_append]
    exact .piped hst ih
  | afterComment _ ih => exact .afterComment ih

theorem Stages.ne_nil {ts : List Token} {sts : List Stage} (h : Stages ts sts) : sts ≠ [] := by
  cases h <;> exact List.cons_ne_nil _ _

/-- A query has a first token, which is no pipe. -/
theorem Stages.exists_head {ts : List Token} {sts : List Stage} (h : Stages ts sts) :
    ∃ t us, ts = t :: us ∧ t ≠ .pipe := by
  have one : ∀ {ts : List Token} {st : Stage}, OneStage ts st →
      ∃ t us, ts = t :: us ∧ t ≠ .pipe := by
    intro ts st hst
    cases hst with
    | comment => exact ⟨_, _, rfl, by simp⟩
    | named _ => exact ⟨_, _, rfl, by simp⟩
  cases h with
  | last hst => exact one hst
  | piped hst _ =>
    obtain ⟨t, us, rfl, ht⟩ := one hst
    exact ⟨t, _, rfl, ht⟩
  | afterComment _ => exact ⟨_, _, rfl, by simp⟩

end PipeQuery.Query.Grammar
