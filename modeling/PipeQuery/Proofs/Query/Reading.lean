import PipeQuery.Proofs.Query.Grammar

/-!
# Readers and the grammar

`Tokens.Leads ts s r` says that the tokens `s` begin with `ts` and that `r` is
behind them.  A reader `Reads` a relation of the grammar if it takes exactly the
tokens that the relation allows:

* *sound*: what it takes spells what it gives;
* *complete*: where tokens spell something, it takes them and gives that,
  provided that the next token does not go on with it.

The condition on the next token is a part of the statement, since every reader
decides by one token ahead whether an optional part is there.  The positions of
tokens play no role, so that both halves speak of tokens at any positions.
-/

namespace PipeQuery.Query

variable {α : Type}

namespace Tokens

/-- `s` begins with the tokens `ts`, and `r` is behind them. -/
inductive Leads : List Token → Tokens → Tokens → Prop
  | here {r : Tokens} : Leads [] r r
  | token {p : Position} {t : Token} {ts : List Token} {s r : Tokens} :
    Leads ts s r → Leads (t :: ts) (.token p t s) r

/-- There is no error at the head. -/
def Ready : Tokens → Prop
  | .failed _ => False
  | _ => True

theorem ready_eq_ok_iff {s : Tokens} : s.ready = .ok () ↔ s.Ready := by
  cases s <;> simp [ready, Ready]

namespace Leads

theorem append {ts us : List Token} {s r q : Tokens} (h : Leads ts s r) (h' : Leads us r q) :
    Leads (ts ++ us) s q := by
  induction h with
  | here => exact h'
  | token _ ih => exact .token (ih h')

theorem split {ts us : List Token} {s q : Tokens} (h : Leads (ts ++ us) s q) :
    ∃ r, Leads ts s r ∧ Leads us r q := by
  induction ts generalizing s with
  | nil => exact ⟨s, .here, h⟩
  | cons t ts ih =>
    cases h with
    | token h =>
      obtain ⟨r, h₁, h₂⟩ := ih h
      exact ⟨r, .token h₁, h₂⟩

/-- The first token comes first. -/
theorem uncons {t : Token} {ts : List Token} {s q : Tokens} (h : Leads (t :: ts) s q) :
    ∃ r, Leads [t] s r ∧ Leads ts r q := by
  cases h with
  | token h => exact ⟨_, .token .here, h⟩

/-- What begins with a token has no error at its head. -/
theorem ready {t : Token} {ts : List Token} {s r : Tokens} (h : Leads (t :: ts) s r) :
    s.Ready := by
  cases h
  trivial

theorem ready_of_ready {ts : List Token} {s r : Tokens} (h : Leads ts s r) (hr : r.Ready) :
    s.Ready := by
  cases h with
  | here => exact hr
  | token _ => trivial

theorem head? {t : Token} {ts : List Token} {s r : Tokens} (h : Leads (t :: ts) s r) :
    s.head? = some t := by
  cases h
  rfl

end Leads

/-- The tokens of a text without an error lead to its end. -/
theorem leads_finished_iff {s : Tokens} {ts : List Token} :
    (∃ p, Leads ts s (.finished p)) ↔ s.error? = none ∧ s.toList = ts := by
  constructor
  · rintro ⟨p, h⟩
    generalize hr : Tokens.finished p = r at h
    induction h with
    | here => subst hr; exact ⟨rfl, rfl⟩
    | token _ ih =>
      obtain ⟨h₁, h₂⟩ := ih hr
      exact ⟨h₁, by rw [toList, h₂]⟩
  · rintro ⟨h, rfl⟩
    induction s with
    | finished p => exact ⟨p, .here⟩
    | failed e => cases h
    | token p t rest ih =>
      obtain ⟨q, hq⟩ := ih h
      exact ⟨q, .token hq⟩

/-- What holds of tokens if it holds of all that are behind them, holds of all tokens. -/
theorem behind_induction {P : Tokens → Prop} (step : ∀ s, (∀ t : Behind s, P t.1) → P s)
    (s : Tokens) : P s :=
  (measure size).wf.induction s fun s ih => step s fun t => ih t.1 t.2

theorem startsWith_iff {s : Tokens} {t : Token} : s.startsWith t = true ↔ s.head? = some t := by
  simp [startsWith]

end Tokens

open Tokens

/-! ## What readers take -/

/-- A reader takes tokens exactly as `R` allows them, if the next token fits `F`. -/
structure Reads (f : (s : Tokens) → Except ParseError (Parsed s α))
    (R : List Token → α → Prop) (F : Option Token → Prop) : Prop where
  /-- What is taken spells what is given. -/
  sound : ∀ {s : Tokens} {a : α} {r : Behind s}, f s = .ok (a, r) →
    ∃ ts, Leads ts s r.1 ∧ R ts a ∧ r.1.Ready
  /-- What spells something is taken and gives that. -/
  complete : ∀ {s r : Tokens} {ts : List Token} {a : α}, Leads ts s r → R ts a → r.Ready →
    F r.head? → ∃ h, f s = .ok (a, ⟨r, h⟩)

/-- Every token may follow. -/
def anything (_ : Option Token) : Prop := True

theorem reads_accept (expected : Expected) (read : Token → Option α) :
    Reads (·.accept expected read) (Grammar.Single read) anything where
  sound := by
    intro s a r h
    cases s with
    | finished p => cases h
    | failed e => cases h
    | token p t rest =>
      simp only [accept] at h
      split at h
      · rename_i b hb
        obtain ⟨⟨⟩, hr, h⟩ := bind_eq_ok_iff.1 h
        cases h
        exact ⟨[t], .token .here, .mk hb, ready_eq_ok_iff.1 hr⟩
      · cases h
  complete := by
    intro s r ts a hs hR hr _
    cases hR with
    | mk ha =>
      cases hs with
      | token hs =>
        cases hs
        refine ⟨Nat.lt_succ_self _, ?_⟩
        simp only [accept, ha, ready_eq_ok_iff.2 hr]
        rfl

/-- A token that is expected and found is taken. -/
theorem expect_of_leads {s r : Tokens} {t : Token} (expected : Expected) (hs : Leads [t] s r)
    (hr : r.Ready) : ∃ h, s.expect expected t = .ok ((), ⟨r, h⟩) :=
  (reads_accept expected _).complete hs (.mk (by simp)) hr trivial

/-- A reader of one token that takes no other token has taken that one. -/
theorem leads_of_accept {read : Token → Option α} {s : Tokens} {t : Token} {expected : Expected}
    {a : α} {r : Behind s} (hread : ∀ {u : Token}, read u = some a → u = t)
    (h : s.accept expected read = .ok (a, r)) : Leads [t] s r.1 ∧ r.1.Ready := by
  obtain ⟨ts, hs, hR, hr⟩ := (reads_accept expected read).sound h
  obtain ⟨hu⟩ := hR
  obtain rfl := hread hu
  exact ⟨hs, hr⟩

theorem leads_of_expect {s : Tokens} {t : Token} {expected : Expected} {u : Unit} {r : Behind s}
    (h : s.expect expected t = .ok (u, r)) : Leads [t] s r.1 ∧ r.1.Ready := by
  refine leads_of_accept (fun {t'} ht => ?_) h
  split at ht
  · assumption
  · cases ht

theorem identifier?_eq_some_iff {t : Token} {name : String} :
    identifier? t = some name ↔ t = .identifier name := by
  cases t <;> simp [identifier?]

theorem field?_eq_some_iff {t : Token} {path : String} :
    field? t = some path ↔ t = .field path := by
  cases t <;> simp [field?]

theorem flag?_eq_some_iff {t : Token} {name : String} :
    flag? t = some name ↔ t = .flag name := by
  cases t <;> simp [flag?]

theorem reads_text (expected : Expected) :
    Reads (·.text expected) (Grammar.Single Grammar.text?) anything := by
  have h : ∀ s : Tokens, s.text expected = s.accept expected Grammar.text? := by
    intro s
    cases s with
    | finished p => rfl
    | failed e => rfl
    | token p t rest => cases t <;> rfl
  simp only [h]
  exact reads_accept expected _

theorem reads_literal : Reads literal (Grammar.Single literalValue?) anything :=
  reads_accept _ _

/-- What a reader takes behind a token that is expected. -/
theorem Reads.sound_behind {f : (s : Tokens) → Except ParseError (Parsed s α)}
    {R : List Token → α → Prop} {F : Option Token → Prop} (hf : Reads f R F) {s : Tokens}
    {t : Token} {expected : Expected} {u : Unit} {s₁ : Behind s} {a : α} {r : Behind s₁.1}
    (hc : s.expect expected t = .ok (u, s₁)) (h : f s₁.1 = .ok (a, r)) :
    ∃ ts, Leads (t :: ts) s r.1 ∧ R ts a ∧ r.1.Ready := by
  obtain ⟨hlead, -⟩ := leads_of_expect hc
  obtain ⟨ts, hts, hR, hr⟩ := hf.sound h
  exact ⟨ts, hlead.append hts, hR, hr⟩

/-- A reader takes what spells something behind a token that is expected. -/
theorem Reads.complete_behind {f : (s : Tokens) → Except ParseError (Parsed s α)}
    {R : List Token → α → Prop} {F : Option Token → Prop} (hf : Reads f R F)
    (expected : Expected) {s r : Tokens} {t : Token} {ts : List Token} {a : α}
    (hs : Leads (t :: ts) s r) (hR : R ts a) (hr : r.Ready) (hF : F r.head?) :
    ∃ s₁ h₁ h₂, s.expect expected t = .ok ((), ⟨s₁, h₁⟩) ∧ f s₁ = .ok (a, ⟨r, h₂⟩) := by
  obtain ⟨s₁, hs₁, hs₂⟩ := hs.uncons
  obtain ⟨h₁, hc⟩ := expect_of_leads expected hs₁ (hs₂.ready_of_ready hr)
  obtain ⟨h₂, ha⟩ := hf.complete hs₂ hR hr hF
  exact ⟨s₁, h₁, h₂, hc, ha⟩

/-- Whatever an item may be, items with commas between them are read up to the last comma that
stands behind an item. -/
theorem reads_commaSeparated {f : (s : Tokens) → Except ParseError (Parsed s α)}
    {R : List Token → α → Prop} {F : Option Token → Prop} (hf : Reads f R F)
    (hcomma : F (some .comma)) :
    Reads (commaSeparated f) (Grammar.Separated R) (fun t => F t ∧ t ≠ some .comma) where
  sound := by
    intro s
    induction s using behind_induction with
    | step s ih =>
      intro as r h
      rw [commaSeparated] at h
      obtain ⟨⟨a, s₁, h₁⟩, ha, h⟩ := bind_eq_ok_iff.1 h
      obtain ⟨ts, hts, hR, hr₁⟩ := hf.sound ha
      dsimp only at h
      split at h
      · obtain ⟨⟨⟨⟩, s₂, h₂⟩, hc, h⟩ := bind_eq_ok_iff.1 h
        obtain ⟨hlead, -⟩ := leads_of_expect hc
        dsimp only at h
        obtain ⟨⟨as', s₃, h₃⟩, has, h⟩ := bind_eq_ok_iff.1 h
        cases h
        obtain ⟨us, hus, hRs, hr₃⟩ := ih ⟨s₂, Nat.lt_trans h₂ h₁⟩ has
        exact ⟨ts ++ .comma :: us, hts.append (hlead.append hus), .more hR hRs, hr₃⟩
      · cases h
        exact ⟨ts, hts, .last hR, hr₁⟩
  complete := by
    intro s r ts as hs hR hr hF
    induction hR generalizing s with
    | last hR =>
      obtain ⟨h₁, ha⟩ := hf.complete hs hR hr hF.1
      refine ⟨h₁, ?_⟩
      have hno : ¬ r.startsWith .comma = true := fun h => hF.2 (startsWith_iff.1 h)
      rw [commaSeparated, ha]
      exact if_neg hno
    | @more ts us a as hR hRs ih =>
      obtain ⟨s₁, hs₁, hs⟩ := hs.split
      obtain ⟨s₂, hs₂, hs₃⟩ := hs.uncons
      have hhead : s₁.head? = some .comma := hs.head?
      obtain ⟨h₁, ha⟩ := hf.complete hs₁ hR hs.ready (hhead ▸ hcomma)
      obtain ⟨h₂, hc⟩ := expect_of_leads .pipeOrEnd hs₂ (hs₃.ready_of_ready hr)
      obtain ⟨h₃, has⟩ := ih hs₃
      refine ⟨by omega, ?_⟩
      rw [commaSeparated, ha]
      refine (if_pos (startsWith_iff.2 hhead)).trans ?_
      rw [hc]
      simp only [bind, Except.bind, has]
      rfl

end PipeQuery.Query
