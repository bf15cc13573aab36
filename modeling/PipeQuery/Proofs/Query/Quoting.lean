import PipeQuery.Proofs.Expr.RoundTrip
import PipeQuery.Proofs.Query.Composition
import PipeQuery.Proofs.Query.Spelling

/-!
# Texts in quotes

Any text can be put into a query as a literal: `singleQuoted` writes a backslash before each
quote and backslash and everything else as it is.  The same text can be put into an expression
(`doubleQuoted`), and the expression into a query, where its backslashes are escaped again.
Either way the query gives the text back (`run_quoted`), so nothing in it is taken for a quote,
an operator, a comment or a pattern.

`parse_command` and `run_expression` hold of queries with one token behind the name of a command,
whatever is in the token.
-/

namespace PipeQuery

/-! ## In an expression -/

namespace Expr

/-- The expression that is a text in double quotes. -/
def doubleQuoted (s : String) : String := "\"" ++ String.ofList (escaped s.toList) ++ "\""

theorem print_string (s : String) : print (.string s) = doubleQuoted s := by
  rw [← String.toList_inj]
  simp [print, Node.words, spaced, Word.chars, Token.spelling, doubleQuoted]

/-- A text in double quotes is parsed as the text. -/
theorem parse_doubleQuoted (s : String) : parse (doubleQuoted s) = .ok (.string s) := by
  have hnormal : (Node.string s).Normal := .leaf trivial rfl
  have hprint : (Node.string s).Printable := .leaf trivial rfl
  obtain ⟨y, hy, hsame⟩ := parse_print_of_normal hnormal hprint
  rw [Node.unplaced] at hsame
  rw [← print_string, hy, Node.eq_of_isLeaf rfl hsame]

/-- A text in double quotes is the text, whatever the input. -/
theorem evaluate_doubleQuoted (s : String) (v : Value) :
    evaluate (doubleQuoted s) v = .ok (.value (.string s)) := by
  rw [evaluate, parse_doubleQuoted]
  rfl

end Expr

/-! ## In a query -/

namespace Query

variable {name : String} {t : Token} {ts : List Token} {st : Stage}

/-- The name of a command with what it takes is a query of one stage. -/
theorem parse_named (hname : (Token.identifier name).Spelled) (hts : ∀ t ∈ ts, t.Spelled)
    (hst : Grammar.Body name ts st) :
    parse (String.ofList (write (.identifier name :: ts))) = .ok [st] := by
  have hlex : Lexes (write (.identifier name :: ts)) (.identifier name :: ts) :=
    lexes_write (List.forall_mem_cons.2 ⟨hname, hts⟩)
  refine parse_eq_ok_iff_lexes.2 ⟨_, ?_, .last (.named hst)⟩
  rw [String.toList_ofList]
  exact hlex

/-- A command that takes one token has the token. -/
theorem parse_command (hname : (Token.identifier name).Spelled) (ht : t.Spelled)
    (hst : Grammar.Body name [t] st) :
    parse (String.ofList (write [.identifier name, t])) = .ok [st] :=
  parse_named hname (List.forall_mem_singleton.2 ht) hst

/-- A command that takes nothing is its name. -/
theorem parse_bare (hname : (Token.identifier name).Spelled) (hst : Grammar.Body name [] st) :
    parse name = .ok [st] := by
  have h := parse_named hname (by simp) hst
  have htext : write [.identifier name] = name.toList := by
    simp [write, gap, standsClose, Token.spelling]
  rwa [htext, String.ofList_toList] at h

/-- A text in single quotes, as it stands in a query. -/
def singleQuoted (s : String) : String := "'" ++ String.ofList (escaped '\'' s.toList) ++ "'"

theorem ofList_write_string (name s : String) :
    String.ofList (write [.identifier name, .string s]) = name ++ " " ++ singleQuoted s := by
  rw [← String.toList_inj]
  simp [write, gap, standsClose, Token.spelling, singleQuoted]

theorem parse_echo (s : String) : parse ("echo " ++ singleQuoted s) = .ok [.echo (.string s)] := by
  have hname : (Token.identifier "echo").Spelled := by decide
  have h := parse_command hname (Token.spelled_string s) (.echo (.mk rfl))
  rwa [ofList_write_string] at h

theorem parse_jsonata (s : String) :
    parse ("jsonata " ++ singleQuoted s) = .ok [.expression s] := by
  have hname : (Token.identifier "jsonata").Spelled := by decide
  have h := parse_command hname (Token.spelled_string s) (.jsonata (.mk rfl))
  rwa [ofList_write_string] at h

/-- A query of one stage gives what the stage makes of the input. -/
theorem run_of_parse [Draws] {q : String} (h : parse q = .ok [st]) {v w : Value}
    (hstage : st.run .standard v = .ok w) : run q v = .ok w := by
  rw [run, runWith_of_parse h, runStages, List.foldlM_cons, hstage]
  rfl

/-- A query that is an expression gives the value that goes on from the expression. -/
theorem run_expression [Draws] {s : String} {v w : Value}
    (h : (Expr.evaluate s v).map Expr.Outcome.toValue = .ok w) :
    run ("jsonata " ++ singleQuoted s) v = .ok w := by
  obtain ⟨outcome, houtcome, rfl⟩ := map_eq_ok_iff.1 h
  refine run_of_parse (parse_jsonata s) ?_
  simp only [Stage.run, Engine.standard, houtcome, Except.mapError]

theorem run_jsonata [Draws] {s : String} {v w : Value} (h : Expr.evaluate s v = .ok (.value w)) :
    run ("jsonata " ++ singleQuoted s) v = .ok w := by
  refine run_expression ?_
  rw [h]
  rfl

/-- A text in quotes comes back as it is, from a literal and from an expression that is a text in
quotes itself. -/
theorem run_quoted [Draws] (s : String) (v : Value) :
    run ("echo " ++ singleQuoted s) v = .ok (.string s)
      ∧ run ("jsonata " ++ singleQuoted (Expr.doubleQuoted s)) v = .ok (.string s) := by
  constructor
  · exact runWith_of_parse (parse_echo s) .standard v
  · exact run_jsonata (Expr.evaluate_doubleQuoted s v)

example : "jsonata " ++ singleQuoted (Expr.doubleQuoted "it's \"\\\" | #")
    = "jsonata '\"it\\'s \\\\\"\\\\\\\\\\\\\" | #\"'" := by decide

end Query

end PipeQuery
