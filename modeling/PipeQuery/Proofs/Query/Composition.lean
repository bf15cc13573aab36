import PipeQuery.Pipeline.Run
import PipeQuery.Proofs.Query.Lexemes
import PipeQuery.Proofs.Query.Parsing

/-!
# Queries one after the other

Two queries with a pipe between them are one query, which runs the second on
what the first gives.  The pipe stands on a line of its own, since the first
query may end in a comment.
-/

namespace PipeQuery.Query

/-- Two queries with a pipe between them, on a new line. -/
def join (q₁ q₂ : String) : String := q₁ ++ "\n|" ++ q₂

theorem toList_join (q₁ q₂ : String) :
    (join q₁ q₂).toList = q₁.toList ++ '\n' :: '|' :: q₂.toList := by
  simp [join]

/-- A query is tokens to its end, which spell its stages. -/
theorem parse_eq_ok_iff_lexes {text : String} {sts : List Stage} :
    parse text = .ok sts ↔ ∃ ts, Lexes text.toList ts ∧ Grammar.Stages ts sts := by
  rw [parse_eq_ok_iff]
  constructor
  · rintro ⟨herr, hR⟩
    exact ⟨_, (lexes_iff .start).2 ⟨herr, rfl⟩, hR⟩
  · rintro ⟨ts, hlex, hR⟩
    obtain ⟨herr, rfl⟩ := (lexes_iff .start).1 hlex
    exact ⟨herr, hR⟩

/-! ## Stages -/

theorem parse_join {q₁ q₂ : String} {s₁ s₂ : List Stage} (h₁ : parse q₁ = .ok s₁)
    (h₂ : parse q₂ = .ok s₂) : parse (join q₁ q₂) = .ok (s₁ ++ s₂) := by
  obtain ⟨ts, hlex₁, hR₁⟩ := parse_eq_ok_iff_lexes.1 h₁
  obtain ⟨us, hlex₂, hR₂⟩ := parse_eq_ok_iff_lexes.1 h₂
  have hpipe : Lexes (['|'] ++ q₂.toList) (.pipe :: us) := .cons (by decide) rfl trivial hlex₂
  refine parse_eq_ok_iff_lexes.2 ⟨ts ++ .pipe :: us, ?_, hR₁.append hR₂⟩
  rw [toList_join]
  exact hlex₁.line hpipe

/-- Stages run one after the other. -/
theorem runStages_append [Draws] (engine : Engine) (s₁ s₂ : List Stage) (v : Value) :
    runStages engine (s₁ ++ s₂) v = runStages engine s₁ v >>= runStages engine s₂ :=
  List.foldlM_append

/-! ## Runs -/

/-- A text with a token is not blank. -/
theorem Lexes.not_blank {cs : List Char} {t : Token} {ts : List Token} (h : Lexes cs (t :: ts)) :
    isBlankText cs = false := by
  cases h with
  | token _ hc _ _ => simp [isBlankText, hc]

/-- A query runs its stages. -/
theorem runWith_of_parse [Draws] {q : String} {sts : List Stage} (h : parse q = .ok sts)
    (engine : Engine) (v : Value) :
    runWith engine q v = (runStages engine sts v).mapError .evaluation := by
  obtain ⟨ts, hlex, hR⟩ := parse_eq_ok_iff_lexes.1 h
  obtain ⟨t, us, rfl, -⟩ := hR.exists_head
  unfold runWith
  rw [hlex.not_blank, h]
  rfl

/-- Two queries joined are a query: it has the stages of both, and on every input it gives what
the second gives on the result of the first, or the error of the one that fails. -/
theorem joined_queries_compose [Draws] {q₁ q₂ : String} {s₁ s₂ : List Stage}
    (h₁ : parse q₁ = .ok s₁) (h₂ : parse q₂ = .ok s₂) :
    parse (join q₁ q₂) = .ok (s₁ ++ s₂)
      ∧ ∀ (engine : Engine) (v : Value),
        runWith engine (join q₁ q₂) v = runWith engine q₁ v >>= runWith engine q₂ := by
  have h := parse_join h₁ h₂
  refine ⟨h, fun engine v => ?_⟩
  rw [runWith_of_parse h, runWith_of_parse h₁, runStages_append]
  cases runStages engine s₁ v with
  | error e => rfl
  | ok w => exact (runWith_of_parse h₂ engine w).symm

/-- A remark at the end of a query does not hide the command that follows it. -/
theorem joined_queries_compose_remark :
    parse (join "hello | # a word" "count") = .ok [.hello, .comment "a word", .count]
      ∧ ∀ (engine : Engine) (v : Value),
        runWith engine (join "hello | # a word" "count") v
          = runWith engine "hello | # a word" v >>= runWith engine "count" := by
  have h₁ : parse "hello | # a word" = .ok [.hello, .comment "a word"] := by cbv
  have h₂ : parse "count" = .ok [.count] := by cbv
  exact joined_queries_compose h₁ h₂

end PipeQuery.Query
