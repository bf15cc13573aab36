import PipeQuery.Proofs.Query.Printing
import Mathlib.Data.List.DropRight

/-!
# What is parsed is well formed

A stage may hold more than a query can say: a call with too many arguments, an empty list of
items, a literal that is an array.  `Stage.WellFormed` rules this out, and
`parse_wellFormed` says that no query has such a stage, so that whatever runs stages need
not look for them.

That comments are trimmed is up to the lexer (`Lexes.isRemark`); everything else is in the
grammar, which what is parsed follows.
-/

namespace PipeQuery

/-! ## Well-formed stages -/

/-- How many arguments a call may have. -/
def Arity.Admits : Arity → Nat → Prop
  | .zero, n => n = 0
  | .unary, n => n = 1
  | .binary, n => n = 1 ∨ n = 2
  | .variadic, _ => True

theorem Arity.allows_iff {arity : Arity} {n : Nat} : arity.allows n = true ↔ arity.Admits n := by
  cases arity <;> simp [allows, Admits]

namespace Query

/-- A call has as many arguments as its operator takes. -/
def Call.WellFormed (c : Call) : Prop := c.operator.arity.Admits c.args.length

/-- An item is a field or a well-formed call. -/
def Item.WellFormed (i : Item) : Prop := ∀ c, i.source = .call c → c.WellFormed

/-- A stage as queries can have it. -/
def Stage.WellFormed : Stage → Prop
  | .comment x => IsRemark x
  | .ping v | .echo v => v.isContainer = false
  | .command op => op ≠ .count ∧ op ≠ .distinct
  | .orderBy fields => fields ≠ []
  | .extend items | .project items => items ≠ [] ∧ ∀ i ∈ items, i.WellFormed
  | .projectAway fields => fields ≠ []
  | .summarize _ metrics => metrics ≠ [] ∧ ∀ m ∈ metrics, m.call.WellFormed
  | .parseCsv opts => CsvOptions.Printable opts
  | _ => True

/-! ## Remarks -/

/-- What is left of a text that begins with no white space begins with none. -/
theorem dropWhile_eq_self_of_prefix {p : Char → Bool} {cs ds : List Char} (h : cs <+: ds)
    (hds : ds.dropWhile p = ds) : cs.dropWhile p = cs := by
  cases cs with
  | nil => rfl
  | cons c cs =>
    obtain ⟨rest, rfl⟩ := h
    have hc : ¬ p c = true := List.dropWhile_eq_self_iff.1 hds (by simp)
    exact List.dropWhile_cons_of_neg hc

/-- A trimmed text stays as it is when it is trimmed again. -/
theorem trimChars_trimChars (cs : List Char) : trimChars (trimChars cs) = trimChars cs := by
  have hprefix : trimChars cs <+: trimStartChars cs := List.rdropWhile_prefix isBlank _
  have hstart : trimStartChars (trimStartChars cs) = trimStartChars cs :=
    List.dropWhile_idempotent isBlank cs
  have hfirst : trimStartChars (trimChars cs) = trimChars cs :=
    dropWhile_eq_self_of_prefix hprefix hstart
  show trimEndChars (trimStartChars (trimChars cs)) = trimChars cs
  rw [hfirst]
  exact List.rdropWhile_idempotent isBlank (trimStartChars cs)

theorem mem_of_mem_trimChars {cs : List Char} {c : Char} (h : c ∈ trimChars cs) : c ∈ cs := by
  have hstart : c ∈ trimStartChars cs := (List.rdropWhile_prefix isBlank _).subset h
  exact (List.dropWhile_suffix isBlank).subset hstart

/-- What is trimmed from the rest of a line is a remark. -/
theorem isRemark_of_line (cs : List Char) :
    IsRemark (String.ofList (trimChars (cs.takeWhile (· != '\n')))) := by
  unfold IsRemark
  rw [String.toList_ofList]
  refine ⟨trimChars_trimChars _, fun h => ?_⟩
  have hline := List.mem_takeWhile_imp (mem_of_mem_trimChars h)
  simp at hline

/-- A comment that is scanned is a remark. -/
theorem isRemark_of_scanToken {c : Char} {rest span after : List Char} {x : String}
    (h : scanToken c rest = .ok (.comment x, span, after)) : IsRemark x := by
  have hnumber : ∀ {digits behind : List Char},
      numberToken digits behind ≠ .ok (.comment x, span, after) := by
    intro digits behind h
    unfold numberToken at h
    split at h <;> cases h
  have hname : ∀ name : List Char, nameToken name ≠ .comment x := by
    intro name h
    unfold nameToken at h
    split at h <;> cases h
  unfold scanToken at h
  split at h
  · cases h
  · cases h
  · cases h
  · cases h
  · cases h
  · cases h
    exact isRemark_of_line rest
  · obtain ⟨_, _, hr⟩ := map_eq_ok_iff.1 h
    cases hr
  · obtain ⟨_, _, hr⟩ := map_eq_ok_iff.1 h
    cases hr
  · split at h
    · cases h
    · split at h
      · exact absurd h hnumber
      · cases h
    · cases h
  · split at h
    · exact absurd h hnumber
    · split at h
      · simp only [Except.ok.injEq, Prod.mk.injEq] at h
        exact absurd h.1 (hname _)
      · cases h

/-- The comments of a text are remarks. -/
theorem Lexes.isRemark {cs : List Char} {ts : List Token} (h : Lexes cs ts) {x : String}
    (hx : .comment x ∈ ts) : IsRemark x := by
  induction h with
  | blank => cases hx
  | token _ _ hscan _ ih =>
    rcases List.mem_cons.1 hx with rfl | hx
    · exact isRemark_of_scanToken hscan
    · exact ih hx

/-! ## What the grammar allows -/

namespace Grammar

/-- Items with commas between them are some, each of them spelled. -/
theorem Separated.forall {α : Type} {R : List Token → α → Prop} {P : α → Prop} {ts : List Token}
    {as : List α} (h : Separated R ts as) (hP : ∀ {us : List Token} {a : α}, R us a → P a) :
    as ≠ [] ∧ ∀ a ∈ as, P a := by
  induction h with
  | last ha => exact ⟨by simp, List.forall_mem_singleton.2 (hP ha)⟩
  | more ha _ ih => exact ⟨by simp, List.forall_mem_cons.2 ⟨hP ha, ih.2⟩⟩

theorem Single.isContainer_eq_false {ts : List Token} {v : Value}
    (h : Single Tokens.literalValue? ts v) : v.isContainer = false := by
  obtain ⟨h⟩ := h
  rename_i t
  cases t <;> cases h <;> rfl

theorem Call.wellFormed {ts : List Token} {c : Query.Call} (h : Call ts c) : c.WellFormed := by
  cases h with
  | mk _ _ harity => exact Arity.allows_iff.1 harity

theorem ItemSource.wellFormed {ts : List Token} {i : Query.Item} (h : ItemSource ts i) :
    i.WellFormed := by
  intro c hc
  cases h with
  | field => cases hc
  | labelledField => cases hc
  | call hcall =>
    cases hc
    exact hcall.wellFormed
  | labelledCall hcall =>
    cases hc
    exact hcall.wellFormed

theorem Item.wellFormed {ts : List Token} {i : Query.Item} (h : Item ts i) : i.WellFormed := by
  cases h with
  | plain hsource => exact hsource.wellFormed
  | named hsource _ => exact hsource.wellFormed

theorem Metric.wellFormed {ts : List Token} {m : Query.Metric} (h : Metric ts m) :
    m.call.WellFormed := by
  cases h with
  | plain hcall => exact hcall.wellFormed
  | labelled hcall => exact hcall.wellFormed

end Grammar

/-! ## Options -/

/-- What every step of a fold keeps, the fold keeps. -/
theorem foldlM_keeps {ε α β : Type} {f : β → α → Except ε β} {P : β → Prop} {as : List α}
    {b b' : β} (hstep : ∀ b a b', P b → f b a = .ok b' → P b') (hb : P b)
    (h : as.foldlM f b = .ok b') : P b' := by
  induction as generalizing b with
  | nil =>
    cases h
    exact hb
  | cons a as ih =>
    obtain ⟨b₁, hb₁, h⟩ := bind_eq_ok_iff.1 h
    exact ih (hstep b a b₁ hb hb₁) h

/-- The character that an option has is ASCII. -/
theorem StageOption.toNat_lt_of_character {o : StageOption} {c : Char}
    (h : o.character = .ok c) : c.toNat < 0x80 := by
  unfold character at h
  split at h
  · split at h
    · split at h
      next hc =>
        cases h
        exact hc
      next => cases h
    · cases h
  · cases h

/-- An option of delimited text leaves its characters ASCII. -/
theorem CsvOptions.printable_apply (opts : CsvOptions) (o : StageOption) (opts' : CsvOptions)
    (h : CsvOptions.Printable opts) (happ : CsvOptions.apply opts o = .ok opts') :
    CsvOptions.Printable opts' := by
  unfold CsvOptions.apply at happ
  split at happ
  · -- the delimiter
    obtain ⟨c, hc, happ⟩ := bind_eq_ok_iff.1 happ
    cases happ
    exact ⟨StageOption.toNat_lt_of_character hc, h.comment⟩
  · -- what begins a comment
    obtain ⟨c, hc, happ⟩ := bind_eq_ok_iff.1 happ
    cases happ
    refine ⟨h.delimiter, ?_⟩
    rintro _ ⟨⟩
    exact StageOption.toNat_lt_of_character hc
  · obtain ⟨b, -, happ⟩ := bind_eq_ok_iff.1 happ
    cases happ
    exact ⟨h.delimiter, h.comment⟩
  · obtain ⟨b, -, happ⟩ := bind_eq_ok_iff.1 happ
    cases happ
    exact ⟨h.delimiter, h.comment⟩
  · obtain ⟨b, -, happ⟩ := bind_eq_ok_iff.1 happ
    cases happ
    exact ⟨h.delimiter, h.comment⟩
  · cases happ

/-- Options of delimited text have ASCII characters, since those that are not given have. -/
theorem CsvOptions.printable_of_foldlM {os : List StageOption} {opts : CsvOptions}
    (h : os.foldlM CsvOptions.apply {} = .ok opts) : CsvOptions.Printable opts := by
  have hdefault : CsvOptions.Printable {} := ⟨by decide, by simp⟩
  exact foldlM_keeps CsvOptions.printable_apply hdefault h

/-! ## Queries -/

theorem Grammar.Body.wellFormed {name : String} {ts : List Token} {st : Stage}
    (h : Grammar.Body name ts st) : st.WellFormed := by
  cases h with
  | ping => exact rfl
  | pingLiteral hv => exact hv.isContainer_eq_false
  | echo hv => exact hv.isContainer_eq_false
  | orderBy hfields => exact (hfields.forall (P := fun _ => True) fun _ => trivial).1
  | extend hitems => exact hitems.forall Grammar.Item.wellFormed
  | project hitems => exact hitems.forall Grammar.Item.wellFormed
  | projectAway hfields => exact (hfields.forall (P := fun _ => True) fun _ => trivial).1
  | summarize hmetrics => exact hmetrics.forall Grammar.Metric.wellFormed
  | summarizeBy hmetrics _ => exact hmetrics.forall Grammar.Metric.wellFormed
  | parseCsv _ hopts => exact CsvOptions.printable_of_foldlM hopts
  | command hcount hdistinct => exact ⟨hcount, hdistinct⟩
  | _ => trivial

theorem Grammar.OneStage.wellFormed {ts : List Token} {st : Stage} (h : Grammar.OneStage ts st)
    (hts : ∀ x, .comment x ∈ ts → IsRemark x) : st.WellFormed := by
  cases h with
  | comment => exact hts _ List.mem_cons_self
  | named hbody => exact hbody.wellFormed

/-- Stages that are spelled are well formed, if the comments among their tokens are remarks. -/
theorem Grammar.Stages.wellFormed {ts : List Token} {sts : List Stage} (h : Grammar.Stages ts sts)
    (hts : ∀ x, .comment x ∈ ts → IsRemark x) : ∀ st ∈ sts, st.WellFormed := by
  induction h with
  | last hst => exact List.forall_mem_singleton.2 (hst.wellFormed hts)
  | piped hst _ ih =>
    refine List.forall_mem_cons.2 ⟨hst.wellFormed fun x hx => ?_, ih fun x hx => ?_⟩
    · exact hts x (List.mem_append_left _ hx)
    · exact hts x (List.mem_append_right _ (List.mem_cons_of_mem _ hx))
  | afterComment _ ih =>
    refine List.forall_mem_cons.2 ⟨hts _ List.mem_cons_self, ih fun x hx => ?_⟩
    exact hts x (List.mem_cons_of_mem _ hx)

/-- A text that is parsed has stages, and they are well formed. -/
theorem parse_wellFormed {text : String} {sts : List Stage} (h : parse text = .ok sts) :
    sts ≠ [] ∧ ∀ st ∈ sts, st.WellFormed := by
  obtain ⟨ts, hlex, hstages⟩ := parse_eq_ok_iff_lexes.1 h
  exact ⟨hstages.ne_nil, hstages.wellFormed fun _ hx => hlex.isRemark hx⟩

/-- A call with two arguments, a comment with white space around it, and an option. -/
theorem parse_wellFormed_call :
    parse "extend diff(\"a\", 'b') | #  x \n| parse-csv --comment='%'" = .ok
        [.extend [⟨.call ⟨.diff, [.field "a", .string "b"]⟩, none⟩], .comment "x",
          .parseCsv { comment := some '%' }]
      ∧ ∀ st ∈ [Stage.extend [⟨.call ⟨.diff, [.field "a", .string "b"]⟩, none⟩], .comment "x",
          .parseCsv { comment := some '%' }], st.WellFormed := by
  have h : parse "extend diff(\"a\", 'b') | #  x \n| parse-csv --comment='%'" = .ok
      [.extend [⟨.call ⟨.diff, [.field "a", .string "b"]⟩, none⟩], .comment "x",
        .parseCsv { comment := some '%' }] := by cbv
  exact ⟨h, (parse_wellFormed h).2⟩

end Query

end PipeQuery
