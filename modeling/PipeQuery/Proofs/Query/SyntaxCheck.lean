import PipeQuery.CommandLine.Execute
import PipeQuery.Proofs.Query.Composition

/-!
# The syntax check

A query can be checked without running it, and a run reads it before it does anything else.  Both
look first whether the text is blank, and neither asks the reader about blank text.

The reader has an error of its own for a text without stages.  It is given for blank text and for
no other (`parse_eq_empty_iff`): the lexer skips the same characters that make a text blank, so a
text that is not blank has a first token or an error there.  From a first token on the loop over
the stages either gets a stage or fails with an error that says what it found
(`stages_neverEmpty`), which is a property of each reader in turn.

So a check and a run ask the reader about the same texts and hand on the same errors
(`runWith_eq_parse_error_iff`, `execute_check_eq_error_iff`).
-/

namespace PipeQuery

namespace Query

variable {α β : Type}

/-! ## Errors about what was found -/

/-- Reading does not fail for want of stages. -/
def NeverEmpty (x : Except ParseError α) : Prop := x ≠ .error .empty

namespace NeverEmpty

variable {x : Except ParseError α}

theorem ok (a : α) : NeverEmpty (.ok a) := nofun

theorem error {e : ParseError} (h : e ≠ .empty) : NeverEmpty (.error e : Except ParseError α) :=
  fun heq => h (Except.error.inj heq)

theorem bind {f : α → Except ParseError β} (hx : NeverEmpty x) (hf : ∀ a, NeverEmpty (f a)) :
    NeverEmpty (x >>= f) := by
  cases x with
  | error e => exact error fun he => hx (congrArg Except.error he)
  | ok a => exact hf a

theorem map (f : α → β) (hx : NeverEmpty x) : NeverEmpty (x.map f) := by
  intro h
  exact hx (map_eq_error_iff.1 h)

theorem foldlM {f : β → α → Except ParseError β} (hf : ∀ b a, NeverEmpty (f b a)) (as : List α)
    (b : β) : NeverEmpty (as.foldlM f b) := by
  induction as generalizing b with
  | nil => exact ok b
  | cons a as ih =>
    rw [List.foldlM_cons]
    exact (hf b a).bind ih

end NeverEmpty

namespace Tokens

theorem ready_neverEmpty (s : Tokens) : NeverEmpty s.ready := by
  cases s with
  | failed e => exact .error (by rintro ⟨⟩)
  | finished p => exact .ok ()
  | token p t rest => exact .ok ()

theorem accept_neverEmpty (s : Tokens) (expected : Expected) (read : Token → Option α) :
    NeverEmpty (s.accept expected read) := by
  cases s with
  | finished p => exact .error (by rintro ⟨⟩)
  | failed e => exact .error (by rintro ⟨⟩)
  | token p t rest =>
    rw [accept]
    split
    · exact rest.ready_neverEmpty.bind fun _ => .ok _
    · exact .error (by rintro ⟨⟩)

theorem expect_neverEmpty (s : Tokens) (expected : Expected) (t : Token) :
    NeverEmpty (s.expect expected t) := s.accept_neverEmpty expected _

theorem text_neverEmpty (s : Tokens) (expected : Expected) : NeverEmpty (s.text expected) :=
  s.accept_neverEmpty expected _

theorem literal_neverEmpty (s : Tokens) : NeverEmpty s.literal := s.accept_neverEmpty .literal _

theorem commaSeparated_neverEmpty {item : (s : Tokens) → Except ParseError (Parsed s α)}
    (hitem : ∀ s, NeverEmpty (item s)) (s : Tokens) : NeverEmpty (commaSeparated item s) := by
  induction s using behind_induction with
  | step s ih =>
    rw [commaSeparated]
    refine (hitem s).bind ?_
    rintro ⟨a, s₁, h₁⟩
    dsimp only
    split
    · refine (s₁.expect_neverEmpty _ _).bind ?_
      rintro ⟨_, s₂, h₂⟩
      exact (ih ⟨s₂, Nat.lt_trans h₂ h₁⟩).bind fun _ => .ok _
    · exact .ok _

end Tokens

open Tokens

/-! ## Readers of parts -/

theorem arguments_neverEmpty (s : Tokens) : NeverEmpty (arguments s) := by
  induction s using behind_induction with
  | step s ih =>
    rw [arguments]
    split
    · exact (s.expect_neverEmpty _ _).bind fun _ => .ok _
    · refine (s.accept_neverEmpty _ _).bind ?_
      rintro ⟨a, s₁, h₁⟩
      dsimp only
      split
      · exact (s₁.expect_neverEmpty _ _).bind fun _ => .ok _
      · refine (s₁.expect_neverEmpty _ _).bind ?_
        rintro ⟨_, s₂, h₂⟩
        exact (ih ⟨s₂, Nat.lt_trans h₂ h₁⟩).bind fun _ => .ok _

theorem call_neverEmpty (s : Tokens) : NeverEmpty (call s) := by
  rw [call]
  split
  · split
    · exact .error (by rintro ⟨⟩)
    · refine (s.accept_neverEmpty _ _).bind ?_
      rintro ⟨_, s₁, h₁⟩
      refine (s₁.expect_neverEmpty _ _).bind ?_
      rintro ⟨_, s₂, h₂⟩
      refine (arguments_neverEmpty s₂).bind ?_
      rintro ⟨args, s₃, h₃⟩
      dsimp only
      split
      · exact .ok _
      · exact .error (by rintro ⟨⟩)
  · exact .error (by rintro ⟨⟩)

theorem orderField_neverEmpty (s : Tokens) : NeverEmpty (orderField s) := by
  rw [orderField]
  refine (s.text_neverEmpty _).bind ?_
  rintro ⟨field, s₁, h₁⟩
  dsimp only
  split
  · exact (s₁.expect_neverEmpty _ _).bind fun _ => .ok _
  · split
    · exact (s₁.expect_neverEmpty _ _).bind fun _ => .ok _
    · exact .ok _

theorem itemSource_neverEmpty (s : Tokens) : NeverEmpty (itemSource s) := by
  rw [itemSource]
  split
  · refine (s.accept_neverEmpty _ _).bind ?_
    rintro ⟨first, s₁, h₁⟩
    dsimp only
    split
    · refine (s₁.expect_neverEmpty _ _).bind ?_
      rintro ⟨_, s₂, h₂⟩
      dsimp only
      split
      · exact (call_neverEmpty s₂).bind fun _ => .ok _
      · exact (s₂.text_neverEmpty _).bind fun _ => .ok _
    · exact .ok _
  · exact (call_neverEmpty s).bind fun _ => .ok _
  · exact .error (by rintro ⟨⟩)

theorem item_neverEmpty (s : Tokens) : NeverEmpty (item s) := by
  rw [item]
  refine (itemSource_neverEmpty s).bind ?_
  rintro ⟨i, s₁, h₁⟩
  dsimp only
  split
  · refine (s₁.expect_neverEmpty _ _).bind ?_
    rintro ⟨_, s₂, h₂⟩
    exact (s₂.text_neverEmpty _).bind fun _ => .ok _
  · exact .ok _

theorem metric_neverEmpty (s : Tokens) : NeverEmpty (metric s) := by
  rw [metric]
  split
  · refine (s.accept_neverEmpty _ _).bind ?_
    rintro ⟨name, s₁, h₁⟩
    refine (s₁.expect_neverEmpty _ _).bind ?_
    rintro ⟨_, s₂, h₂⟩
    exact (call_neverEmpty s₂).bind fun _ => .ok _
  · exact (call_neverEmpty s).bind fun _ => .ok _

theorem options_neverEmpty (s : Tokens) : NeverEmpty (options s) := by
  induction s using behind_induction with
  | step s ih =>
    rw [options]
    split
    · refine (s.accept_neverEmpty _ _).bind ?_
      rintro ⟨name, s₁, h₁⟩
      dsimp only
      split
      · refine (s₁.expect_neverEmpty _ _).bind ?_
        rintro ⟨_, s₂, h₂⟩
        refine s₂.literal_neverEmpty.bind ?_
        rintro ⟨value, s₃, h₃⟩
        exact (ih ⟨s₃, Nat.lt_trans h₃ (Nat.lt_trans h₂ h₁)⟩).bind fun _ => .ok _
      · exact (ih ⟨s₁, h₁⟩).bind fun _ => .ok _
    · exact .ok _

namespace StageOption

theorem truthValue_neverEmpty (o : StageOption) : NeverEmpty o.truthValue := by
  rw [truthValue]
  split
  · exact .ok _
  · exact .error (by rintro ⟨⟩)

theorem text_neverEmpty (o : StageOption) : NeverEmpty o.text := by
  rw [text]
  split
  · exact .ok _
  · exact .error (by rintro ⟨⟩)

theorem character_neverEmpty (o : StageOption) : NeverEmpty o.character := by
  rw [character]
  split
  · split
    · split
      · exact .ok _
      · exact .error (by rintro ⟨⟩)
    · exact .error (by rintro ⟨⟩)
  · exact .error (by rintro ⟨⟩)

end StageOption

theorem CsvOptions.apply_neverEmpty (opts : CsvOptions) (o : StageOption) :
    NeverEmpty (CsvOptions.apply opts o) := by
  unfold CsvOptions.apply
  split
  · exact o.character_neverEmpty.bind fun _ => .ok _
  · exact o.character_neverEmpty.bind fun _ => .ok _
  · exact o.truthValue_neverEmpty.bind fun _ => .ok _
  · exact o.truthValue_neverEmpty.bind fun _ => .ok _
  · exact o.truthValue_neverEmpty.bind fun _ => .ok _
  · exact .error (by rintro ⟨⟩)

theorem XmlOptions.apply_neverEmpty (opts : XmlOptions) (o : StageOption) :
    NeverEmpty (XmlOptions.apply opts o) := by
  unfold XmlOptions.apply
  split
  · exact o.truthValue_neverEmpty.bind fun _ => .ok _
  · exact o.truthValue_neverEmpty.bind fun _ => .ok _
  · exact o.text_neverEmpty.bind fun _ => .ok _
  · exact o.text_neverEmpty.bind fun _ => .ok _
  · exact .error (by rintro ⟨⟩)

/-! ## Stages -/

theorem stageNamed_neverEmpty (name : String) (start : Position) (s : Tokens) :
    NeverEmpty (stageNamed name start s) := by
  unfold stageNamed
  dsimp only
  split
  · -- hello
    exact .ok _
  · -- ping
    split
    · exact .map _ s.literal_neverEmpty
    · exact .ok _
  · -- echo
    exact .map _ s.literal_neverEmpty
  · -- scope
    exact .map _ (s.text_neverEmpty _)
  · -- jsonata
    exact .map _ (s.text_neverEmpty _)
  · -- distinct
    split
    · exact .map _ (s.text_neverEmpty _)
    · exact .map _ (s.text_neverEmpty _)
    · exact .ok _
  · -- count
    exact .ok _
  · -- limit
    exact .map _ (s.accept_neverEmpty _ _)
  · -- mv-expand
    refine (s.text_neverEmpty _).bind ?_
    rintro ⟨first, s₁, h₁⟩
    dsimp only
    split
    · refine (s₁.expect_neverEmpty _ _).bind ?_
      rintro ⟨_, s₂, h₂⟩
      exact (s₂.text_neverEmpty _).bind fun _ => .ok _
    · exact .ok _
  · -- order
    refine (s.expect_neverEmpty _ _).bind ?_
    rintro ⟨_, s₁, h₁⟩
    exact (s₁.commaSeparated_neverEmpty orderField_neverEmpty).bind fun _ => .ok _
  · -- extend
    exact .map _ (commaSeparated_neverEmpty item_neverEmpty s)
  · -- project
    exact .map _ (commaSeparated_neverEmpty item_neverEmpty s)
  · -- project-away
    exact .map _ (commaSeparated_neverEmpty (·.text_neverEmpty .field) s)
  · -- summarize
    refine (commaSeparated_neverEmpty metric_neverEmpty s).bind ?_
    rintro ⟨metrics, s₁, h₁⟩
    dsimp only
    split
    · refine (s₁.expect_neverEmpty _ _).bind ?_
      rintro ⟨_, s₂, h₂⟩
      exact (commaSeparated_neverEmpty (·.text_neverEmpty .groupField) s₂).bind fun _ => .ok _
    · exact .ok _
  · -- parse-json
    exact .ok _
  · -- parse-yaml
    exact .ok _
  · -- parse-csv
    refine (options_neverEmpty s).bind ?_
    rintro ⟨os, t⟩
    exact (NeverEmpty.foldlM CsvOptions.apply_neverEmpty os {}).bind fun _ => .ok _
  · -- parse-xml
    refine (options_neverEmpty s).bind ?_
    rintro ⟨os, t⟩
    exact (NeverEmpty.foldlM XmlOptions.apply_neverEmpty os {}).bind fun _ => .ok _
  · -- the name of an operator, if any
    split
    · exact .ok _
    · exact .error (by rintro ⟨⟩)

theorem stage_neverEmpty (s : Tokens) : NeverEmpty (stage s) := by
  rw [stage]
  split
  · exact s.accept_neverEmpty _ _
  · refine (s.accept_neverEmpty _ _).bind ?_
    rintro ⟨name, s₁, h₁⟩
    exact (stageNamed_neverEmpty name s.position s₁).bind fun _ => .ok _
  · exact .error (by rintro ⟨⟩)

theorem stages_neverEmpty (s : Tokens) : NeverEmpty (stages s) := by
  induction s using behind_induction with
  | step s ih =>
    rw [stages]
    split
    · exact .ok _
    · refine (stage_neverEmpty s).bind ?_
      rintro ⟨st, s₁, h₁⟩
      dsimp only
      split
      · exact .ok _
      · refine (s₁.expect_neverEmpty _ _).bind ?_
        rintro ⟨_, s₂, h₂⟩
        dsimp only
        split
        · exact .error (by rintro ⟨⟩)
        · exact (ih ⟨s₂, Nat.lt_trans h₂ h₁⟩).bind fun _ => .ok _
      · split
        · exact (ih ⟨s₁, h₁⟩).bind fun _ => .ok _
        · exact .error (by rintro ⟨⟩)

/-! ## Blank text -/

theorem isBlankText_iff {cs : List Char} :
    isBlankText cs = true ↔ ∀ c ∈ cs, isBlank c = true := by
  rw [isBlankText, List.all_eq_true]

/-- A text is at its end before any token if it is blank. -/
theorem isFinished_lexFrom_iff {p : Position} {cs : List Char} :
    (lexFrom p cs).isFinished = true ↔ isBlankText cs = true := by
  rw [isBlankText_iff, ← List.dropWhile_eq_nil_iff, lexFrom]
  split
  next hblank => exact iff_of_true rfl hblank
  next c rest hhead =>
    refine iff_of_false ?_ (hhead ▸ List.cons_ne_nil c rest)
    dsimp only
    split <;> exact Bool.false_ne_true

/-- The reader gives no stages only where there are no tokens. -/
theorem isFinished_of_stages_eq_nil {s : Tokens} (h : stages s = .ok []) : s.isFinished = true := by
  by_contra hs
  obtain ⟨ts, p, -, hR⟩ := stages_sound hs h
  exact hR.ne_nil rfl

/-- Reading fails for want of stages exactly on blank text. -/
theorem parse_eq_empty_iff {text : String} :
    parse text = .error .empty ↔ isBlankText text.toList = true := by
  rw [← isFinished_lexFrom_iff, ← lex]
  constructor
  · intro h
    unfold parse at h
    rcases bind_eq_error_iff.1 h with h | ⟨⟨⟩, -, h⟩
    · exact absurd h (ready_neverEmpty _)
    · rcases bind_eq_error_iff.1 h with h | ⟨found, hfound, h⟩
      · exact absurd h (stages_neverEmpty _)
      · split at h
        · exact isFinished_of_stages_eq_nil hfound
        · cases h
  · intro h
    have hready : (lex text).ready = .ok () := by
      cases hlex : lex text with
      | finished p => rfl
      | failed e => rw [hlex] at h; cases h
      | token p t rest => rfl
    have hstages : stages (lex text) = .ok [] := by
      rw [stages, if_pos h]
      rfl
    unfold parse
    dsimp only
    rw [hready, hstages]
    rfl

/-! ## Runs and checks -/

/-- A run cannot read its query exactly where the query is not blank and reading it fails. -/
theorem runWith_eq_parse_error_iff [Draws] (engine : Engine) (text : String) (input : Value)
    {e : ParseError} : runWith engine text input = .error (.parse e)
      ↔ isBlankText text.toList = false ∧ parse text = .error e := by
  rw [runWith]
  split
  next hblank =>
    rw [hblank]
    exact iff_of_false nofun fun h => Bool.false_ne_true h.1.symm
  next hblank =>
    rw [Bool.not_eq_true] at hblank
    rw [bind_eq_error_iff, mapError_eq_error_iff]
    constructor
    · rintro (⟨e', he, ⟨⟩⟩ | ⟨sts, -, h⟩)
      · exact ⟨hblank, he⟩
      · obtain ⟨_, -, ⟨⟩⟩ := mapError_eq_error_iff.1 h
    · rintro ⟨-, he⟩
      exact .inl ⟨e, he, rfl⟩

end Query

namespace CommandLine

open Query

variable {opts : RunOptions} {e : ParseError}

/-- Input that need not be JSON is never missing or wrong. -/
theorem exists_inputValue (h : opts.jsonInput = false) : ∃ v, inputValue opts = .ok v := by
  rw [inputValue, h]
  cases opts.input with
  | some text => exact ⟨_, rfl⟩
  | none => exact ⟨_, rfl⟩

/-- A run without JSON fails to read its query exactly where the query is not blank and reading it
fails. -/
theorem execute_eq_parse_error_iff [Draws] (hjson : opts.jsonInput = false)
    (hrun : opts.syntaxOnly = false) : execute opts = .error (.query (.parse e))
      ↔ isBlankText opts.query.toList = false ∧ parse opts.query = .error e := by
  obtain ⟨v, hv⟩ := exists_inputValue hjson
  rw [← runWith_eq_parse_error_iff .standard opts.query v, execute,
    if_neg (Bool.eq_false_iff.1 hrun), hv]
  show (Query.run opts.query v).mapError RunError.query >>= _ = _ ↔ _
  rw [bind_eq_error_iff, mapError_eq_error_iff]
  constructor
  · rintro (⟨q, hq, ⟨⟩⟩ | ⟨result, -, ⟨⟩⟩)
    exact hq
  · intro h
    exact .inl ⟨_, h, rfl⟩

/-- A check has an error under the same condition. -/
theorem execute_check_eq_error_iff [Draws] (hcheck : opts.syntaxOnly = true) :
    execute opts = .error (.query (.parse e))
      ↔ isBlankText opts.query.toList = false ∧ parse opts.query = .error e := by
  rw [execute, if_pos hcheck]
  split
  next hblank =>
    rw [hblank]
    exact iff_of_false nofun fun h => Bool.false_ne_true h.1.symm
  next hblank =>
    rw [Bool.not_eq_true] at hblank
    cases parse opts.query with
    | ok sts => exact iff_of_false nofun nofun
    | error e' =>
      constructor
      · rintro ⟨⟩
        exact ⟨hblank, rfl⟩
      · rintro ⟨-, ⟨⟩⟩
        rfl

/-- A check without an error is satisfied. -/
theorem execute_check_eq_ok [Draws] (hcheck : opts.syntaxOnly = true)
    (h : ∀ e, execute opts ≠ .error (.query (.parse e))) : execute opts = .ok .syntaxValid := by
  rw [execute, if_pos hcheck] at h ⊢
  split
  next => rfl
  next hblank =>
    rw [if_neg hblank] at h
    cases hparse : parse opts.query with
    | ok sts => rfl
    | error e =>
      rw [hparse] at h
      exact absurd rfl (h e)

/-- The reader calls blank text empty and no other, a run never does, and a run whose input is not
JSON cannot read its query exactly where a check cannot, with the same error. -/
theorem syntax_check_agrees_with_run [Draws] :
    (∀ text, parse text = .error .empty ↔ ∀ c ∈ text.toList, isBlank c = true)
      ∧ (∀ engine text input, runWith engine text input ≠ .error (.parse .empty))
      ∧ ∀ opts check : RunOptions, opts.jsonInput = false → opts.syntaxOnly = false →
        check.syntaxOnly = true → check.query = opts.query →
          (∀ e, execute opts = .error (.query (.parse e))
            ↔ execute check = .error (.query (.parse e)))
          ∧ ((∀ e, execute opts ≠ .error (.query (.parse e))) →
            execute check = .ok .syntaxValid) := by
  refine ⟨?_, ?_, ?_⟩
  · intro text
    rw [parse_eq_empty_iff, isBlankText_iff]
  · intro engine text input h
    obtain ⟨hblank, hempty⟩ := (runWith_eq_parse_error_iff engine text input).1 h
    rw [parse_eq_empty_iff.1 hempty] at hblank
    cases hblank
  · intro opts check hjson hrun hcheck hquery
    have hsame : ∀ e, execute opts = .error (.query (.parse e))
        ↔ execute check = .error (.query (.parse e)) := by
      intro e
      rw [execute_eq_parse_error_iff hjson hrun, execute_check_eq_error_iff hcheck, hquery]
    exact ⟨hsame, fun h => execute_check_eq_ok hcheck fun e he => h e ((hsame e).2 he)⟩

/-- A pipe with nothing behind it is an error of the run and of the check, and a query that runs
passes the check. -/
theorem syntax_check_agrees_with_run_pipe :
    execute { query := "hello |", syntaxOnly := true }
        = .error (.query (.parse (.unexpected .commandAfterPipe none ⟨1, 8⟩)))
      ∧ execute { query := "hello", syntaxOnly := true } = .ok .syntaxValid := by
  obtain ⟨-, -, hagree⟩ := syntax_check_agrees_with_run
  have hparse : parse "hello |" = .error (.unexpected .commandAfterPipe none ⟨1, 8⟩) := by cbv
  have hpipe : execute { query := "hello |", input := some "x" }
      = .error (.query (.parse (.unexpected .commandAfterPipe none ⟨1, 8⟩))) :=
    (execute_eq_parse_error_iff rfl rfl).2 ⟨by cbv, hparse⟩
  have hvalid : execute { query := "hello", input := some "x" }
      = .ok (.value (.string "hello")) := by cbv
  obtain ⟨hsame, -⟩ := hagree { query := "hello |", input := some "x" }
    { query := "hello |", syntaxOnly := true } rfl rfl rfl rfl
  obtain ⟨-, hpasses⟩ := hagree { query := "hello", input := some "x" }
    { query := "hello", syntaxOnly := true } rfl rfl rfl rfl
  refine ⟨(hsame _).1 hpipe, hpasses fun e he => ?_⟩
  rw [hvalid] at he
  cases he

end CommandLine

end PipeQuery
