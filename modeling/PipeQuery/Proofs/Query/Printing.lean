import PipeQuery.Proofs.Query.Composition
import PipeQuery.Proofs.Query.Spelling

/-!
# Printing queries

`print` writes stages as a query: fields, labels and expressions in double
quotes, other texts in single quotes, labels before what they name, options with
their values, and pipes between stages.  `Printable` stages are those that some
query has.  Each of these comes with its tokens, which are spelled and which the
grammar gives it, so that a printed query is parsed back to its stages.
-/

namespace PipeQuery.Query

variable {α : Type}

/-! ## Lists -/

/-- Items with a token between them. -/
def separated (sep : Token) (f : α → List Token) : List α → List Token
  | [] => []
  | [a] => f a
  | a :: b :: as => f a ++ sep :: separated sep f (b :: as)

theorem mem_separated {sep : Token} {f : α → List Token} {as : List α} {t : Token}
    (h : t ∈ separated sep f as) : t = sep ∨ ∃ a ∈ as, t ∈ f a := by
  induction as with
  | nil => cases h
  | cons a as ih =>
    cases as with
    | nil => exact Or.inr ⟨a, by simp, h⟩
    | cons b as =>
      rcases List.mem_append.1 h with h | h
      · exact Or.inr ⟨a, by simp, h⟩
      · rcases List.mem_cons.1 h with rfl | h
        · exact Or.inl rfl
        · rcases ih h with rfl | ⟨c, hc, ht⟩
          · exact Or.inl rfl
          · exact Or.inr ⟨c, List.mem_cons_of_mem _ hc, ht⟩

/-- Tokens between spelled items are spelled as well. -/
theorem spelled_separated {sep : Token} {f : α → List Token} {as : List α} (hsep : sep.Spelled)
    (h : ∀ a ∈ as, ∀ t ∈ f a, t.Spelled) : ∀ t ∈ separated sep f as, t.Spelled := by
  intro t ht
  rcases mem_separated ht with rfl | ⟨a, ha, ht⟩
  · exact hsep
  · exact h a ha t ht

/-- Items with commas between them are separated as in the grammar. -/
theorem Grammar.separated_comma {R : List Token → α → Prop} {f : α → List Token} {as : List α}
    (hne : as ≠ []) (h : ∀ a ∈ as, R (f a) a) : Separated R (separated .comma f as) as := by
  induction as with
  | nil => exact absurd rfl hne
  | cons a as ih =>
    cases as with
    | nil => exact .last (h a (by simp))
    | cons b as =>
      exact .more (h a (by simp)) (ih (by simp) fun c hc => h c (List.mem_cons_of_mem _ hc))

/-! ## Calls -/

/-- An argument as a token. -/
def Argument.token : Argument → Token
  | .field path => .field path
  | .string text => .string text
  | .number n => .number n

/-- A call as tokens. -/
def Call.tokens (c : Call) : List Token :=
  .identifier c.operator.name :: .openParen
    :: (separated .comma (fun a => [a.token]) c.args ++ [.closeParen])

/-- A call with as many arguments as its operator takes, whose numbers are spelled by plain
decimal texts. -/
structure Call.Printable (c : Call) : Prop where
  /-- The operator takes as many arguments. -/
  arity : c.operator.arity.allows c.args.length = true
  /-- The numbers have plain decimal texts. -/
  numbers : ∀ n, Argument.number n ∈ c.args → n.IsSpelled

theorem argument?_token (a : Argument) : argument? a.token = some a := by
  cases a <;> rfl

theorem Grammar.arguments_tokens (args : List Argument) :
    Arguments (separated .comma (fun a => [a.token]) args ++ [.closeParen]) args := by
  induction args with
  | nil => exact .none
  | cons a args ih =>
    cases args with
    | nil => exact .last (argument?_token a)
    | cons b args => exact .more (argument?_token a) ih

theorem Grammar.call_tokens {c : Query.Call} (h : c.Printable) : Call c.tokens c :=
  .mk (Operator.ofName?_name c.operator) (arguments_tokens c.args) h.arity

/-- The name of an operator is a name. -/
theorem spelled_operator (op : Operator) : (Token.identifier op.name).Spelled := by
  cases op <;> decide

theorem Call.Printable.spelled {c : Call} (h : c.Printable) : ∀ t ∈ c.tokens, t.Spelled := by
  have hargs : ∀ t ∈ separated .comma (fun a : Argument => [a.token]) c.args, t.Spelled := by
    refine spelled_separated (by decide) fun a ha t ht => ?_
    obtain rfl := List.mem_singleton.1 ht
    cases a with
    | field path => exact Token.spelled_field path
    | string text => exact Token.spelled_string text
    | number n => exact Token.spelled_number (h.numbers n ha)
  have hopen : Token.openParen.Spelled := by decide
  have hclose : Token.closeParen.Spelled := by decide
  simp only [tokens, List.forall_mem_cons, List.forall_mem_append]
  exact ⟨spelled_operator _, hopen, hargs, hclose, List.forall_mem_nil _⟩

/-! ## The parts of stages -/

/-- A text before an equals sign, if any. -/
def labelTokens : Option String → List Token
  | none => []
  | some x => [.field x, .equals]

/-- A field to sort by as tokens. -/
def OrderField.tokens (f : OrderField) : List Token :=
  [.field f.field, .identifier (match f.direction with | .asc => "asc" | .desc => "desc")]

/-- What an item computes, as tokens. -/
def Source.tokens : Source → List Token
  | .field path => [.field path]
  | .call c => c.tokens

/-- An item as tokens. -/
def Item.tokens (i : Item) : List Token := labelTokens i.label ++ i.source.tokens

/-- A metric as tokens. -/
def Metric.tokens (m : Metric) : List Token := labelTokens m.label ++ m.call.tokens

/-- An item whose call, if it has one, is printable. -/
def Item.Printable (i : Item) : Prop := ∀ c, i.source = .call c → c.Printable

theorem spelled_labelTokens (label : Option String) : ∀ t ∈ labelTokens label, t.Spelled := by
  have hequals : Token.equals.Spelled := by decide
  cases label with
  | none => simp [labelTokens]
  | some x => simpa [labelTokens] using ⟨Token.spelled_field x, hequals⟩

theorem Grammar.orderField_tokens (f : Query.OrderField) : OrderField f.tokens f := by
  obtain ⟨x, d⟩ := f
  cases d with
  | asc => exact .asc (.mk rfl)
  | desc => exact .desc (.mk rfl)

theorem OrderField.spelled (f : OrderField) : ∀ t ∈ f.tokens, t.Spelled := by
  obtain ⟨x, d⟩ := f
  have hasc : (Token.identifier "asc").Spelled := by decide
  have hdesc : (Token.identifier "desc").Spelled := by decide
  cases d with
  | asc => simpa [tokens] using ⟨Token.spelled_field x, hasc⟩
  | desc => simpa [tokens] using ⟨Token.spelled_field x, hdesc⟩

theorem Grammar.item_tokens {i : Query.Item} (h : i.Printable) : Item i.tokens i := by
  obtain ⟨source, label⟩ := i
  refine .plain ?_
  cases label with
  | none =>
    cases source with
    | field path => exact .field
    | call c => exact .call (call_tokens (h c rfl))
  | some x =>
    cases source with
    | field path => exact .labelledField (.mk rfl)
    | call c => exact .labelledCall (call_tokens (h c rfl))

theorem Item.Printable.spelled {i : Item} (h : i.Printable) : ∀ t ∈ i.tokens, t.Spelled := by
  obtain ⟨source, label⟩ := i
  refine List.forall_mem_append.2 ⟨spelled_labelTokens label, ?_⟩
  cases source with
  | field path => simpa [Source.tokens] using Token.spelled_field path
  | call c => exact (h c rfl).spelled

theorem Grammar.metric_tokens {m : Query.Metric} (h : m.call.Printable) : Metric m.tokens m := by
  obtain ⟨c, label⟩ := m
  cases label with
  | none => exact .plain (call_tokens h)
  | some x => exact .labelled (call_tokens h)

theorem Metric.spelled {m : Metric} (h : m.call.Printable) : ∀ t ∈ m.tokens, t.Spelled :=
  List.forall_mem_append.2 ⟨spelled_labelTokens m.label, h.spelled⟩

/-! ## Literals and options -/

/-- A literal as a token; arrays and objects have none. -/
def literalTokens : Value → List Token
  | .null => [.null]
  | .boolean b => [.boolean b]
  | .number n => [.number n]
  | .string x => [.string x]
  | .array _ | .object _ => []

/-- A value that can be written as a literal. -/
def IsLiteral : Value → Prop
  | .number n => n.IsSpelled
  | .array _ | .object _ => False
  | _ => True

theorem IsLiteral.exists_token {v : Value} (h : IsLiteral v) :
    ∃ t, literalTokens v = [t] ∧ t.Spelled ∧ Tokens.literalValue? t = some v := by
  cases v with
  | null => exact ⟨_, rfl, by decide, rfl⟩
  | boolean b => exact ⟨_, rfl, by cases b <;> decide, rfl⟩
  | number n => exact ⟨_, rfl, Token.spelled_number h, rfl⟩
  | string x => exact ⟨_, rfl, Token.spelled_string x, rfl⟩
  | array items => cases h
  | object entries => cases h

/-- Options as tokens. -/
def optionTokens (os : List StageOption) : List Token :=
  os.flatMap fun o => .flag o.name :: .equals :: literalTokens o.value

theorem Grammar.options_tokens {os : List StageOption} (h : ∀ o ∈ os, IsLiteral o.value) :
    Options (optionTokens os) os := by
  induction os with
  | nil => exact .none
  | cons o os ih =>
    obtain ⟨t, ht, -, hv⟩ := (h o List.mem_cons_self).exists_token
    have hos := ih fun o' ho' => h o' (List.mem_cons_of_mem _ ho')
    rw [optionTokens, List.flatMap_cons, ht]
    exact .value hv hos

theorem spelled_optionTokens {os : List StageOption} (hname : ∀ o ∈ os, (Token.flag o.name).Spelled)
    (hvalue : ∀ o ∈ os, IsLiteral o.value) : ∀ t ∈ optionTokens os, t.Spelled := by
  intro t ht
  obtain ⟨o, ho, ht⟩ := List.mem_flatMap.1 ht
  obtain ⟨u, hu, hspelled, -⟩ := (hvalue o ho).exists_token
  rw [hu] at ht
  simp only [List.mem_cons, List.not_mem_nil, or_false] at ht
  rcases ht with rfl | rfl | rfl
  · exact hname o ho
  · decide
  · exact hspelled

/-- An option with a value.  It stands at the beginning, since its place does not matter. -/
def optionOf (name : String) (value : Value) : StageOption := ⟨name, value, .start⟩

/-- The options of delimited text as they are written. -/
def CsvOptions.written (opts : CsvOptions) : List StageOption :=
  optionOf "delimiter" (.string opts.delimiter.toString)
    :: (opts.comment.toList.map fun c => optionOf "comment" (.string c.toString))
    ++ [optionOf "columns" (.boolean opts.columns),
      optionOf "skip_empty_lines" (.boolean opts.skipEmptyLines),
      optionOf "relax_column_count" (.boolean opts.relaxColumnCount)]

/-- The options of markup as they are written. -/
def XmlOptions.written (opts : XmlOptions) : List StageOption :=
  [optionOf "attributes" (.boolean opts.attributes),
    optionOf "attribute_prefix" (.string opts.attributePrefix),
    optionOf "text_node_name" (.string opts.textNodeName),
    optionOf "parse_values" (.boolean opts.parseValues)]

/-- Options of delimited text whose characters are ASCII. -/
structure CsvOptions.Printable (opts : CsvOptions) : Prop where
  /-- The delimiter is ASCII. -/
  delimiter : opts.delimiter.toNat < 0x80
  /-- What begins a comment is ASCII. -/
  comment : ∀ c, opts.comment = some c → c.toNat < 0x80

/-- An option with an ASCII character has that character. -/
theorem character_optionOf (name : String) {c : Char} (hc : c.toNat < 0x80) :
    (optionOf name (.string c.toString)).character = .ok c := by
  simp [StageOption.character, optionOf, hc]

/-- The written options set what they were written for. -/
theorem CsvOptions.foldlM_apply_written {opts : CsvOptions} (h : CsvOptions.Printable opts) :
    (CsvOptions.written opts).foldlM CsvOptions.apply {} = .ok opts := by
  obtain ⟨delimiter, columns, comment, skip, relax⟩ := opts
  have hdelimiter : CsvOptions.apply {} (optionOf "delimiter" (.string delimiter.toString))
      = .ok { delimiter := delimiter } :=
    bind_eq_ok_iff.2 ⟨delimiter, character_optionOf _ h.delimiter, rfl⟩
  cases comment with
  | none =>
    refine bind_eq_ok_iff.2 ⟨_, hdelimiter, ?_⟩
    rfl
  | some c =>
    have hcomment : CsvOptions.apply { delimiter := delimiter }
        (optionOf "comment" (.string c.toString))
        = .ok { delimiter := delimiter, comment := some c } :=
      bind_eq_ok_iff.2 ⟨c, character_optionOf _ (h.comment c rfl), rfl⟩
    refine bind_eq_ok_iff.2 ⟨_, hdelimiter, bind_eq_ok_iff.2 ⟨_, hcomment, ?_⟩⟩
    rfl

theorem XmlOptions.foldlM_apply_written (opts : XmlOptions) :
    (XmlOptions.written opts).foldlM XmlOptions.apply {} = .ok opts := rfl

/-- The options of delimited text have names and literals as values. -/
theorem CsvOptions.written_spelled (opts : CsvOptions) :
    ∀ o ∈ CsvOptions.written opts, (Token.flag o.name).Spelled ∧ IsLiteral o.value := by
  intro o ho
  simp only [CsvOptions.written, List.cons_append, List.mem_cons, List.mem_append, List.mem_map,
    List.not_mem_nil, or_false] at ho
  rcases ho with rfl | ⟨c, -, rfl⟩ | rfl | rfl | rfl
  all_goals
    refine ⟨?_, trivial⟩
    simp only [optionOf]
    decide

/-- The options of markup have names and literals as values. -/
theorem XmlOptions.written_spelled (opts : XmlOptions) :
    ∀ o ∈ XmlOptions.written opts, (Token.flag o.name).Spelled ∧ IsLiteral o.value := by
  intro o ho
  simp only [XmlOptions.written, List.mem_cons, List.not_mem_nil, or_false] at ho
  rcases ho with rfl | rfl | rfl | rfl
  all_goals
    refine ⟨?_, trivial⟩
    simp only [optionOf]
    decide

/-! ## Stages -/

/-- A stage as tokens. -/
def Stage.tokens : Stage → List Token
  | .comment x => [.comment x]
  | .hello => [.identifier "hello"]
  | .ping v => .identifier "ping" :: literalTokens v
  | .echo v => .identifier "echo" :: literalTokens v
  | .scope path => [.identifier "scope", .field path]
  | .expression x => [.identifier "jsonata", .field x]
  | .distinct none => [.identifier "distinct"]
  | .distinct (some path) => [.identifier "distinct", .field path]
  | .expand field label => .identifier "mv-expand" :: (labelTokens label ++ [.field field])
  | .count => [.identifier "count"]
  | .limit n => [.identifier "limit", .number (.ofNat n)]
  | .command op => [.identifier op.name]
  | .orderBy fields =>
    .identifier "order" :: .identifier "by" :: separated .comma OrderField.tokens fields
  | .extend items => .identifier "extend" :: separated .comma Item.tokens items
  | .project items => .identifier "project" :: separated .comma Item.tokens items
  | .projectAway fields =>
    .identifier "project-away" :: separated .comma (fun path => [.field path]) fields
  | .summarize [] metrics => .identifier "summarize" :: separated .comma Metric.tokens metrics
  | .summarize (path :: paths) metrics =>
    .identifier "summarize" :: (separated .comma Metric.tokens metrics
      ++ .identifier "by" :: separated .comma (fun path => [.field path]) (path :: paths))
  | .parseJson => [.identifier "parse-json"]
  | .parseCsv opts => .identifier "parse-csv" :: optionTokens (CsvOptions.written opts)
  | .parseXml opts => .identifier "parse-xml" :: optionTokens (XmlOptions.written opts)
  | .parseYaml => [.identifier "parse-yaml"]

/-- A stage that some query has, where numbers are plain decimal texts. -/
def Stage.Printable : Stage → Prop
  | .comment x => IsRemark x
  | .ping v | .echo v => IsLiteral v
  | .limit n => n ≤ 2 ^ 53
  | .command op => op ≠ .count ∧ op ≠ .distinct
  | .orderBy fields => fields ≠ []
  | .extend items | .project items => items ≠ [] ∧ ∀ i ∈ items, i.Printable
  | .projectAway fields => fields ≠ []
  | .summarize _ metrics => metrics ≠ [] ∧ ∀ m ∈ metrics, m.call.Printable
  | .parseCsv opts => CsvOptions.Printable opts
  | _ => True

/-- A query with these stages. -/
def print (sts : List Stage) : String := String.ofList (write (separated .pipe Stage.tokens sts))

/-- A limit is read from its number. -/
theorem wholeNumber?_ofNat {n : Nat} (h : n ≤ 2 ^ 53) :
    wholeNumber? (.number (.ofNat n)) = some n := by
  have hint : (Number.ofNat n).IsInt n := Number.isInt_ofNat h
  have hless : (Number.ofNat n).less .zero = false := by
    rw [Bool.eq_false_iff, Ne, hint.less_zero]
    omega
  have hwhole : (Number.ofNat n).isWhole = true := by
    rw [Number.ofNat_eq h]
    simp [Number.isWhole, Magnitude.whole]
  have hnat : (Number.ofNat n).toNatUpTo (2 ^ 64 - 1) = n := by
    rw [Number.ofNat_eq h]
    simp only [Number.toNatUpTo, Magnitude.whole, Nat.mul_div_cancel _ stepsPerUnit_pos]
    exact Nat.min_eq_left (by omega)
  simp only [wholeNumber?, hwhole, hless, hnat]
  rfl

/-- The tokens of a stage are those the grammar has for it. -/
theorem Grammar.stage_tokens {st : Stage} (h : st.Printable) : OneStage st.tokens st := by
  cases st with
  | comment x => exact .comment
  | hello => exact .named .hello
  | ping v =>
    obtain ⟨t, ht, -, hv⟩ := IsLiteral.exists_token h
    rw [Stage.tokens, ht]
    exact .named (.pingLiteral (.mk hv))
  | echo v =>
    obtain ⟨t, ht, -, hv⟩ := IsLiteral.exists_token h
    rw [Stage.tokens, ht]
    exact .named (.echo (.mk hv))
  | scope path => exact .named (.scope (.mk rfl))
  | expression x => exact .named (.jsonata (.mk rfl))
  | distinct field =>
    cases field with
    | none => exact .named .distinct
    | some path => exact .named (.distinctField (.mk rfl))
  | expand field label =>
    cases label with
    | none => exact .named (.expand (.mk rfl))
    | some x => exact .named (.expandLabelled (.mk rfl) (.mk rfl))
  | count => exact .named .count
  | limit n => exact .named (.limit (.mk (wholeNumber?_ofNat h)))
  | command op => exact .named (.command h.1 h.2)
  | orderBy fields => exact .named (.orderBy (separated_comma h fun f _ => orderField_tokens f))
  | extend items => exact .named (.extend (separated_comma h.1 fun i hi => item_tokens (h.2 i hi)))
  | project items =>
    exact .named (.project (separated_comma h.1 fun i hi => item_tokens (h.2 i hi)))
  | projectAway fields => exact .named (.projectAway (separated_comma h fun _ _ => .mk rfl))
  | summarize paths metrics =>
    have hmetrics := separated_comma h.1 fun m hm => metric_tokens (h.2 m hm)
    cases paths with
    | nil => exact .named (.summarize hmetrics)
    | cons path paths =>
      exact .named (.summarizeBy hmetrics (separated_comma (by simp) fun _ _ => .mk rfl))
  | parseJson => exact .named .parseJson
  | parseCsv opts =>
    exact .named (.parseCsv (options_tokens fun o ho => (CsvOptions.written_spelled opts o ho).2)
      (CsvOptions.foldlM_apply_written h))
  | parseXml opts =>
    exact .named (.parseXml (options_tokens fun o ho => (XmlOptions.written_spelled opts o ho).2)
      (XmlOptions.foldlM_apply_written opts))
  | parseYaml => exact .named .parseYaml

theorem spelled_fields (paths : List String) :
    ∀ t ∈ separated .comma (fun path => [Token.field path]) paths, t.Spelled := by
  refine spelled_separated (by decide) fun path _ t ht => ?_
  obtain rfl := List.mem_singleton.1 ht
  exact Token.spelled_field path

theorem spelled_literalTokens {v : Value} (h : IsLiteral v) : ∀ t ∈ literalTokens v, t.Spelled := by
  intro t ht
  obtain ⟨u, hu, hspelled, -⟩ := h.exists_token
  rw [hu] at ht
  obtain rfl := List.mem_singleton.1 ht
  exact hspelled

theorem spelled_ofNat {n : Nat} (h : n ≤ 2 ^ 53) : (Token.number (.ofNat n)).Spelled := by
  refine Token.spelled_number ?_
  rw [Number.isSpelled_iff, Number.ofNat_eq h]
  simp

/-- The tokens of a stage can be written. -/
theorem Stage.Printable.spelled {st : Stage} (h : st.Printable) : ∀ t ∈ st.tokens, t.Spelled := by
  have hcomma : Token.comma.Spelled := by decide
  have hby : (Token.identifier "by").Spelled := by decide
  -- every stage but a comment is a name with something behind it
  cases st with
  | comment x =>
    intro t ht
    obtain rfl := List.mem_singleton.1 ht
    exact Token.spelled_comment h
  | command op =>
    intro t ht
    obtain rfl := List.mem_singleton.1 ht
    exact spelled_operator op
  | hello => decide
  | ping v => exact List.forall_mem_cons.2 ⟨by decide, spelled_literalTokens h⟩
  | echo v => exact List.forall_mem_cons.2 ⟨by decide, spelled_literalTokens h⟩
  | scope path => exact List.forall_mem_cons.2 ⟨by decide, spelled_fields [path]⟩
  | expression x => exact List.forall_mem_cons.2 ⟨by decide, spelled_fields [x]⟩
  | distinct field =>
    cases field with
    | none => decide
    | some path => exact List.forall_mem_cons.2 ⟨by decide, spelled_fields [path]⟩
  | expand field label =>
    exact List.forall_mem_cons.2
      ⟨by decide, List.forall_mem_append.2 ⟨spelled_labelTokens label, spelled_fields [field]⟩⟩
  | count => decide
  | limit n =>
    intro t ht
    rcases List.mem_cons.1 ht with rfl | ht
    · decide
    · obtain rfl := List.mem_singleton.1 ht
      exact spelled_ofNat h
  | orderBy fields =>
    exact List.forall_mem_cons.2 ⟨by decide, List.forall_mem_cons.2
      ⟨hby, spelled_separated hcomma fun f _ => f.spelled⟩⟩
  | extend items =>
    exact List.forall_mem_cons.2
      ⟨by decide, spelled_separated hcomma fun i hi => (h.2 i hi).spelled⟩
  | project items =>
    exact List.forall_mem_cons.2
      ⟨by decide, spelled_separated hcomma fun i hi => (h.2 i hi).spelled⟩
  | projectAway fields => exact List.forall_mem_cons.2 ⟨by decide, spelled_fields fields⟩
  | summarize paths metrics =>
    have hmetrics := spelled_separated hcomma fun m hm => Metric.spelled (h.2 m hm)
    cases paths with
    | nil => exact List.forall_mem_cons.2 ⟨by decide, hmetrics⟩
    | cons path paths =>
      exact List.forall_mem_cons.2 ⟨by decide, List.forall_mem_append.2
        ⟨hmetrics, List.forall_mem_cons.2 ⟨hby, spelled_fields (path :: paths)⟩⟩⟩
  | parseJson => decide
  | parseCsv opts =>
    have hopts := CsvOptions.written_spelled opts
    exact List.forall_mem_cons.2 ⟨by decide,
      spelled_optionTokens (fun o ho => (hopts o ho).1) fun o ho => (hopts o ho).2⟩
  | parseXml opts =>
    have hopts := XmlOptions.written_spelled opts
    exact List.forall_mem_cons.2 ⟨by decide,
      spelled_optionTokens (fun o ho => (hopts o ho).1) fun o ho => (hopts o ho).2⟩
  | parseYaml => decide

/-! ## Queries -/

theorem Grammar.stages_tokens {sts : List Stage} (hne : sts ≠ []) (h : ∀ st ∈ sts, st.Printable) :
    Stages (separated .pipe Stage.tokens sts) sts := by
  induction sts with
  | nil => exact absurd rfl hne
  | cons st sts ih =>
    have hst := stage_tokens (h st List.mem_cons_self)
    cases sts with
    | nil => exact .last hst
    | cons st' sts =>
      exact .piped hst (ih (by simp) fun st ht => h st (List.mem_cons_of_mem _ ht))

/-- A printed query is parsed back to its stages. -/
theorem parse_print {sts : List Stage} (hne : sts ≠ []) (h : ∀ st ∈ sts, st.Printable) :
    parse (print sts) = .ok sts := by
  refine parse_eq_ok_iff_lexes.2 ⟨_, ?_, Grammar.stages_tokens hne h⟩
  rw [print, String.toList_ofList]
  exact lexes_write (spelled_separated (by decide) fun st hst => (h st hst).spelled)

/-- A remark, a call whose text has a quote in it, and options. -/
theorem parse_print_quoted :
    parse (print [.comment "in \"b\"", .project [⟨.call ⟨.toLower, [.string "it's"]⟩, some "a|b"⟩],
        .limit 2, .parseCsv { delimiter := ';', comment := some '#' }])
      = .ok [.comment "in \"b\"", .project [⟨.call ⟨.toLower, [.string "it's"]⟩, some "a|b"⟩],
        .limit 2, .parseCsv { delimiter := ';', comment := some '#' }] := by
  have hremark : IsRemark "in \"b\"" := by
    unfold IsRemark
    decide
  have hcall : Call.Printable ⟨.toLower, [.string "it's"]⟩ := ⟨by decide, by simp⟩
  have hitem : Item.Printable ⟨.call ⟨.toLower, [.string "it's"]⟩, some "a|b"⟩ := by
    rintro c ⟨⟩
    exact hcall
  refine parse_print (by simp) fun st hst => ?_
  simp only [List.mem_cons, List.not_mem_nil, or_false] at hst
  rcases hst with rfl | rfl | rfl | rfl
  · exact hremark
  · exact ⟨by simp, fun i hi => List.mem_singleton.1 hi ▸ hitem⟩
  · exact Nat.le_of_ble_eq_true rfl
  · exact ⟨by decide, fun c hc => Option.some.inj hc ▸ by decide⟩

example : print [.comment "first", .expand "a \"b\"" (some "c"), .orderBy [⟨"d", .desc⟩]]
    = "# first\n| mv-expand \"c\"=\"a \\\"b\\\"\" | order by \"d\" desc" := by decide

end PipeQuery.Query
