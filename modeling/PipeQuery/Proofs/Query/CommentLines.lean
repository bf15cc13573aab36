import PipeQuery.Proofs.Pipeline.PassThrough
import PipeQuery.Proofs.Query.Composition

/-!
# Lines of comments

A line is quiet (`IsQuietLine`) if there is no command on it: it is blank, or it begins,
behind white space, with the sign of a comment.  Whatever follows the sign is in the
comment, signs of stages, quotes and other signs of comments included.

Quiet lines in front of a query are stages that hand the value on, one for each comment,
and need no pipe behind them: the query means what it means without them
(`comment_lines_transparent`).  Quiet lines alone are a query too, if one of them has a
comment, and give their input back.
-/

namespace PipeQuery.Query

variable {line q : String} {lines : List String}

/-! ## Lines -/

/-- The comment on a line: what is behind the sign, trimmed, if the line begins with the sign but
for white space. -/
def lineComment? (line : String) : Option String :=
  match trimStartChars line.toList with
  | '#' :: text => some (String.ofList (trimChars text))
  | _ => none

/-- A line without a command: it is blank or has a comment. -/
def IsQuietLine (line : String) : Prop :=
  '\n' ∉ line.toList ∧ (isBlankText line.toList = true ∨ (lineComment? line).isSome = true)

instance : DecidablePred IsQuietLine := fun _ => inferInstanceAs (Decidable (_ ∧ _))

/-- The comments on lines, in order. -/
def lineComments (lines : List String) : List String := lines.filterMap lineComment?

/-- A text behind lines, each of them with its end. -/
def putBehind (lines : List String) (text : String) : String :=
  String.join (lines.map (· ++ "\n")) ++ text

theorem toList_putBehind_cons (line : String) (lines : List String) (text : String) :
    (putBehind (line :: lines) text).toList
      = line.toList ++ '\n' :: (putBehind lines text).toList := by
  simp [putBehind]

theorem lineComment?_of_blank (h : isBlankText line.toList = true) : lineComment? line = none := by
  have hdrop : trimStartChars line.toList = [] :=
    List.dropWhile_eq_nil_iff.2 (List.all_eq_true.1 h)
  rw [lineComment?, hdrop]

theorem exists_of_lineComment? {comment : String} (h : lineComment? line = some comment) :
    ∃ text, line.toList = line.toList.takeWhile isBlank ++ '#' :: text
      ∧ comment = String.ofList (trimChars text) := by
  unfold lineComment? at h
  split at h
  next text htrim =>
    refine ⟨text, ?_, (Option.some.inj h).symm⟩
    rw [← htrim]
    exact List.takeWhile_append_dropWhile.symm
  next => cases h

/-! ## Tokens -/

theorem lexes_quietLine (h : IsQuietLine line) :
    Lexes line.toList ((lineComment? line).toList.map Token.comment) := by
  obtain ⟨hline, hblank | hcomment⟩ := h
  · rw [lineComment?_of_blank hblank]
    exact .blank (List.all_eq_true.1 hblank)
  · obtain ⟨comment, hcomment⟩ := Option.isSome_iff_exists.1 hcomment
    obtain ⟨text, hsplit, rfl⟩ := exists_of_lineComment? hcomment
    have htext : '\n' ∉ text := by
      intro hmem
      rw [hsplit] at hline
      exact hline (List.mem_append_right _ (List.mem_cons_of_mem _ hmem))
    rw [hcomment, hsplit]
    exact .token (fun _ hb => List.mem_takeWhile_imp hb) (by decide) (scanToken_comment htext)
      (.blank (List.forall_mem_nil _))

theorem lineComments_cons (line : String) (lines : List String) :
    lineComments (line :: lines) = (lineComment? line).toList ++ lineComments lines := by
  unfold lineComments
  cases h : lineComment? line with
  | none => exact List.filterMap_cons_none h
  | some comment => exact List.filterMap_cons_some h

/-- In front of a text quiet lines are their comments. -/
theorem lexes_putBehind {ts : List Token} (h : ∀ line ∈ lines, IsQuietLine line)
    (hq : Lexes q.toList ts) :
    Lexes (putBehind lines q).toList ((lineComments lines).map Token.comment ++ ts) := by
  induction lines with
  | nil => simpa [putBehind, lineComments] using hq
  | cons line lines ih =>
    obtain ⟨hline, hlines⟩ := List.forall_mem_cons.1 h
    rw [toList_putBehind_cons, lineComments_cons, List.map_append, List.append_assoc]
    exact (lexes_quietLine hline).line (ih hlines)

/-- By themselves quiet lines are their comments; the last one may end with the text. -/
theorem lexes_intercalate (h : ∀ line ∈ lines, IsQuietLine line) :
    Lexes ("\n".intercalate lines).toList ((lineComments lines).map Token.comment) := by
  induction lines with
  | nil => exact .blank (List.forall_mem_nil _)
  | cons line lines ih =>
    obtain ⟨hline, hlines⟩ := List.forall_mem_cons.1 h
    rw [lineComments_cons, List.map_append]
    cases lines with
    | nil => simpa [lineComments] using lexes_quietLine hline
    | cons next lines =>
      have hnext := (lexes_quietLine hline).line (ih hlines)
      simpa using hnext

/-! ## Stages -/

/-- Comments in front of a query need no pipes. -/
theorem Grammar.stages_comments {ts : List Token} {sts : List Stage} (comments : List String)
    (h : Stages ts sts) :
    Stages (comments.map Token.comment ++ ts) (comments.map Stage.comment ++ sts) := by
  induction comments with
  | nil => exact h
  | cons comment comments ih => exact .afterComment ih

/-- Comments alone are a query. -/
theorem Grammar.stages_of_comments {comments : List String} (h : comments ≠ []) :
    Stages (comments.map Token.comment) (comments.map Stage.comment) := by
  obtain ⟨front, last, rfl⟩ := (List.eq_nil_or_concat comments).resolve_left h
  have hlast : Stages [.comment last] [.comment last] := .last .comment
  simpa using stages_comments front hlast

/-- Comments hand the value on. -/
theorem runStages_comments [Draws] (engine : Engine) (comments : List String) (v : Value) :
    runStages engine (comments.map Stage.comment) v = .ok v := by
  refine runStages_of_not_acts fun stage hstage => ?_
  obtain ⟨comment, -, rfl⟩ := List.mem_map.1 hstage
  rfl

/-! ## Queries -/

/-- Quiet lines in front of a query change nothing but its stages, which have one for each comment
in front of them: on every input the query gives the same value or the same error.  Quiet lines
alone, one of them with a comment, give every input back; a last empty line stands for an end of
line at the end of the text. -/
theorem comment_lines_transparent [Draws] (h : ∀ line ∈ lines, IsQuietLine line) :
    (∀ (q : String) (sts : List Stage), parse q = .ok sts →
        parse (putBehind lines q) = .ok ((lineComments lines).map Stage.comment ++ sts)
          ∧ ∀ (engine : Engine) (v : Value),
            runWith engine (putBehind lines q) v = runWith engine q v)
      ∧ ((∃ line ∈ lines, (lineComment? line).isSome = true) →
        parse ("\n".intercalate lines) = .ok ((lineComments lines).map Stage.comment)
          ∧ ∀ (engine : Engine) (v : Value),
            runWith engine ("\n".intercalate lines) v = .ok v) := by
  constructor
  · intro q sts hq
    obtain ⟨ts, hlex, hR⟩ := parse_eq_ok_iff_lexes.1 hq
    have hparse : parse (putBehind lines q)
        = .ok ((lineComments lines).map Stage.comment ++ sts) :=
      parse_eq_ok_iff_lexes.2 ⟨_, lexes_putBehind h hlex, Grammar.stages_comments _ hR⟩
    refine ⟨hparse, fun engine v => ?_⟩
    rw [runWith_of_parse hparse, runWith_of_parse hq, runStages_append, runStages_comments]
    rfl
  · rintro ⟨line, hline, hcomment⟩
    obtain ⟨comment, hcomment⟩ := Option.isSome_iff_exists.1 hcomment
    have hne : lineComments lines ≠ [] :=
      List.ne_nil_of_mem (List.mem_filterMap.2 ⟨line, hline, hcomment⟩)
    have hparse : parse ("\n".intercalate lines) = .ok ((lineComments lines).map Stage.comment) :=
      parse_eq_ok_iff_lexes.2 ⟨_, lexes_intercalate h, Grammar.stages_of_comments hne⟩
    refine ⟨hparse, fun engine v => ?_⟩
    rw [runWith_of_parse hparse, runStages_comments]
    rfl

/-- A comment hides a pipe, a quote that is never closed and the sign of another comment. -/
theorem comment_lines_transparent_signs :
    (∀ line ∈ ["# limit 0 | 'x", "", " \t## b"], IsQuietLine line)
      ∧ parse "count" = .ok [.count]
      ∧ parse (putBehind ["# limit 0 | 'x", "", " \t## b"] "count")
        = .ok [.comment "limit 0 | 'x", .comment "# b", .count]
      ∧ ∀ (engine : Engine) (v : Value),
        runWith engine ("\n".intercalate ["# limit 0 | 'x", "", " \t## b"]) v = .ok v := by
  have hlines : ∀ line ∈ ["# limit 0 | 'x", "", " \t## b"], IsQuietLine line := by decide
  have hcount : parse "count" = .ok [.count] := by cbv
  have h := comment_lines_transparent hlines
  exact ⟨hlines, hcount, (h.1 "count" _ hcount).1, (h.2 ⟨_, List.mem_cons_self, rfl⟩).2⟩

end PipeQuery.Query
