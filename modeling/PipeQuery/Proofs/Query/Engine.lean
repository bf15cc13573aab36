import PipeQuery.Proofs.Expr.EvaluationErrors
import PipeQuery.Proofs.Query.Navigation

/-!
# Every evaluation ends in its text

The engine of expressions gives a value or an error of the expression, whatever the text and the
input are.  The error stands in the text, or at its end where the text has ended too early.  A text
that is parsed is read from its beginning to its end.

This is so because no loop stays where it is: what a loop of the lexer makes something of is taken
from the front (`LexerAdvances`), and each round of a loop of the parser takes tokens
(`ParserAdvances`); and because nothing is read that is not in the text, the position never passes
its end.
-/

namespace PipeQuery

namespace Expr

variable {text cs after : List Char}

/-! ## Loops of the lexer -/

/-- Nothing more is skipped where skipping has stopped. -/
theorem skip_skip (inComment : Bool) (cs : List Char) :
    skip false (skip inComment cs) = skip inComment cs := by
  fun_induction skip inComment cs <;> simp_all [skip]

/-- What loops over characters take moves the position on, and what they leave is in the text. -/
structure LexerAdvances (text : List Char) : Prop where
  /-- White space and comments are passed over until there are none. -/
  blank : ∀ {cs}, cs <:+ text → ∀ inComment,
    skip inComment cs <:+ text ∧ skip false (skip inComment cs) = skip inComment cs
      ∧ positionOf text.length cs ≤ positionOf text.length (skip inComment cs)
  /-- A name is passed over character by character. -/
  name : ∀ {cs}, cs <:+ text →
    (nameAt cs).2 <:+ text
      ∧ positionOf text.length cs + (nameAt cs).1.length = positionOf text.length (nameAt cs).2
  /-- A quoted text is passed over with its closing quote. -/
  quoted : ∀ {cs start quote content after}, cs <:+ text →
    quotedAt text.length start quote cs = .ok (content, after) →
      after <:+ text ∧ positionOf text.length cs + content.length < positionOf text.length after
  /-- A number is passed over character by character. -/
  number : ∀ {cs}, cs <:+ text → ∀ seenPoint afterMark,
    (digitsAt seenPoint afterMark cs).2 <:+ text
      ∧ positionOf text.length cs + (digitsAt seenPoint afterMark cs).1.length
        = positionOf text.length (digitsAt seenPoint afterMark cs).2
  /-- A pattern is passed over with its closing slash. -/
  pattern : ∀ {cs start content after}, cs <:+ text →
    patternAt start cs = .ok (content, after) →
      after <:+ text ∧ positionOf text.length cs + content.length < positionOf text.length after

/-- What is left behind what was taken is in the text, further on. -/
theorem suffix_of_taken {taken : List Char} (h : cs <:+ text) (htaken : taken ++ after = cs) :
    after <:+ text
      ∧ positionOf text.length cs + taken.length = positionOf text.length after := by
  subst htaken
  exact ⟨(List.suffix_append taken after).trans h, positionOf_append h⟩

theorem lexerAdvances (text : List Char) : LexerAdvances text where
  blank hcs inComment :=
    ⟨(skip_suffix inComment _).trans hcs, skip_skip inComment _,
      positionOf_mono (skip_suffix inComment _) _⟩
  name hcs := by
    obtain ⟨hafter, hmoved⟩ := suffix_of_taken hcs (nameAt_append _)
    rw [String.length_toList] at hmoved
    exact ⟨hafter, hmoved⟩
  quoted hcs h := by
    obtain ⟨taken, htaken, hlt⟩ := quotedAt_taken h
    obtain ⟨hafter, hmoved⟩ := suffix_of_taken hcs htaken
    exact ⟨hafter, by omega⟩
  number hcs seenPoint afterMark :=
    suffix_of_taken hcs (digitsAt_append seenPoint afterMark _)
  pattern hcs h := by
    obtain ⟨taken, htaken, hlt⟩ := patternAt_taken h
    obtain ⟨hafter, hmoved⟩ := suffix_of_taken hcs htaken
    exact ⟨hafter, by omega⟩

/-! ## Loops of the parser -/

/-- What is ahead afterwards is in the text, by at least `k` further on and not past the end. -/
def Ahead.Advances (text : List Char) (k : Nat) (s r : Ahead) : Prop :=
  r.In text ∧ s.position text.length + k ≤ r.position text.length
    ∧ r.position text.length ≤ text.length

/-- Each round of a loop over tokens moves the position on. -/
structure ParserAdvances (text : List Char) : Prop where
  /-- An operator and its right operand. -/
  operators : ∀ {s : Ahead} {level left x} {r : From s}, s.In text →
    operatorsAfter text.length level left s = .ok (x, r) →
      ∃ rounds, x = left.chain rounds ∧ s.Advances text (2 * rounds.length) r.1
  /-- A point and a step. -/
  steps : ∀ {s : Ahead} {sts} {r : From s}, s.In text →
    stepsAfter text.length s = .ok (sts, r) → s.Advances text (2 * sts.length) r.1
  /-- A predicate in brackets, or empty brackets. -/
  predicates : ∀ {s : Ahead} {xs keepArray} {r : From s}, s.In text →
    predicatesAfter text.length s = .ok (xs, keepArray, r) →
      s.Advances text (3 * xs.length + if keepArray then 2 else 0) r.1
  /-- An item of an array or an argument, and in the end the closing token. -/
  items : ∀ {s : Ahead} {close closing separating xs} {r : Behind s}, s.In text →
    items text.length close closing separating s = .ok (xs, r) →
      s.Advances text (xs.length + 1) r.1
  /-- A key, a colon and a value, and in the end the closing brace. -/
  pairs : ∀ {s : Ahead} {xs} {r : Behind s}, s.In text →
    pairs text.length s = .ok (xs, r) → s.Advances text (3 * xs.length + 1) r.1

theorem Ahead.Reaches.advances {k : Nat} {s r : Ahead} (hs : s.In text)
    (h : Reaches text.length k s r) : s.Advances text k r :=
  ⟨(h.position_le hs).1, (h.position_le hs).2, r.position_le text.length⟩

theorem parserAdvances (text : List Char) : ParserAdvances text where
  operators {s level left x r} hs h := by
    have hoperand : ∀ {t : Ahead}, t.size ≤ s.size → t.In text →
        Yields (Error.Stands text.length) (ReadNode text t) (operand text.length level t) :=
      fun _ ht => operand_yields level ht
    obtain ⟨-, rounds, hx, hr⟩ :=
      (operatorsAfter_yields hoperand (Nat.le_refl _) hs).gives _ h
    exact ⟨rounds, hx, hr.advances hs⟩
  steps hs h :=
    ((stepsAfter_yields (readsPlaced text _) (Nat.le_refl _) hs).gives _ h).2.advances hs
  predicates hs h :=
    ((predicatesAfter_yields (readsPlaced text _) (Nat.le_refl _) hs).gives _ h).2.advances hs
  items hs h :=
    ((items_yields _ _ _ (readsPlaced text _) (Nat.lt_succ_self _) hs).gives _ h).2.advances hs
  pairs hs h :=
    ((pairs_yields (readsPlaced text _) (Nat.lt_succ_self _) hs).gives _ h).2.advances hs

/-! ## Whole texts -/

/-- The evaluation of a text fails in the text, if it fails. -/
theorem evaluate_yields (text : String) (input : Value) :
    Yields (Error.Stands text.toList.length) (fun _ => True) (evaluate text input) := by
  refine (parse_yields text).bind ?_
  rintro x ⟨hx, s, -, -, -, hs, hr⟩
  have hpos : 0 < text.toList.length := by
    have hmoved := (hr.position_le hs).2
    exact Nat.lt_of_lt_of_le (Nat.succ_pos _) hmoved
  have hfails := evalTree_failsBefore hpos hx input
  exact ⟨fun e he => Or.inl (hfails.fails e he), fun _ _ => trivial⟩

end Expr

namespace Query

open PipeQuery.Expr (LexerAdvances ParserAdvances)

/-- An evaluation ends with a value or with an error of the expression that stands in the text; a
text that is parsed is read from its beginning to its end; and all loops of the lexer and of the
parser move the position on, which never passes the end. -/
theorem evaluation_ends_in_text (text : String) (input : Value) :
    ((∃ outcome, Engine.standard.evaluate text input = .ok outcome)
      ∨ ∃ e, Engine.standard.evaluate text input = .error (.expression e)
        ∧ e.position ≤ text.length ∧ (e.position = text.length → e.cause.isEnd = true))
      ∧ (∀ x, Expr.parse text = .ok x →
        ∃ s h, Expr.next text.length text.toList = .ok s
          ∧ Expr.expression text.length s = .ok (x, ⟨.finished, h⟩) ∧ s.In text.toList
          ∧ Expr.Ahead.Reaches text.length 1 s .finished)
      ∧ LexerAdvances text.toList ∧ ParserAdvances text.toList := by
  have hevaluate := Expr.evaluate_yields text input
  have hparse := (Expr.parse_yields text).gives
  rw [String.length_toList] at hevaluate hparse
  refine ⟨?_, fun x hx => (hparse x hx).2, Expr.lexerAdvances _, Expr.parserAdvances _⟩
  cases h : Expr.evaluate text input with
  | ok outcome =>
    refine Or.inl ⟨outcome, ?_⟩
    simp only [Engine.standard, h, Except.mapError]
  | error e =>
    have hstands := hevaluate.fails e h
    refine Or.inr ⟨e, ?_, hstands.position_le, fun hend => ?_⟩
    · simp only [Engine.standard, h, Except.mapError]
    · rcases hstands with hlt | ⟨-, hcause⟩
      · omega
      · exact hcause

/-- A path that is read to its end, and the empty text, which ends too early. -/
theorem evaluation_ends_in_text_path :
    (∃ x s, Expr.parse "a.b" = .ok x ∧ Expr.next 3 "a.b".toList = .ok s
        ∧ Expr.Ahead.Reaches 3 1 s .finished)
      ∧ ∃ e, Engine.standard.evaluate "" .null = .error (.expression e)
        ∧ e.position = "".length ∧ e.cause.isEnd = true := by
  obtain ⟨-, hread, -, -⟩ := evaluation_ends_in_text "a.b" .null
  obtain ⟨hends, hempty, -, -⟩ := evaluation_ends_in_text "" .null
  have hnames : ([⟨"a", by decide, by decide⟩, ⟨"b", by decide, by decide⟩] : List FieldName)
      ≠ [] := List.cons_ne_nil _ _
  have hparse : Expr.parse "a.b" = _ := Expr.parse_dotted hnames
  obtain ⟨s, -, hnext, -, -, hreaches⟩ := hread _ hparse
  refine ⟨⟨_, s, hparse, hnext, hreaches⟩, ?_⟩
  rcases hends with ⟨outcome, hok⟩ | ⟨e, he, hle, hend⟩
  · cases hx : Expr.parse "" with
    | ok x =>
      -- nothing is read where nothing is ahead
      obtain ⟨s, hlt, hnext, -, -, -⟩ := hempty x hx
      cases hnext
      exact absurd hlt (Nat.lt_irrefl _)
    | error e =>
      simp only [Engine.standard, Expr.evaluate, hx, bind, Except.bind] at hok
      cases hok
  · have hposition : e.position = "".length := Nat.le_zero.1 hle
    exact ⟨e, he, hposition, hend hposition⟩

end Query

end PipeQuery
