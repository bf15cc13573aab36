import PipeQuery.Proofs.Query.Parts

/-!
# Parsing is the grammar

`parse_eq_ok_iff` says that a text is parsed to stages exactly if it has no
error in its tokens and its tokens are those of the stages by the grammar.  From
the parts of stages it goes by `stageNamed_sound` and `stageNamed_complete` for
what follows a name, to `stage_sound` and `stage_complete` for a stage, and by induction on the
tokens and on the grammar to all of them.

A stage that is no comment has to end where the query ends or at a pipe.
-/

namespace PipeQuery.Query

open Tokens

/-- The query ends here or goes on behind a pipe. -/
def Ends (t : Option Token) : Prop := t = none ∨ t = some .pipe

theorem Ends.ne {t : Option Token} (h : Ends t) {u : Token} (hu : u ≠ .pipe) : t ≠ some u := by
  rintro rfl
  rcases h with h | h
  · cases h
  · exact hu (Option.some.inj h)

theorem Ends.noDirection {t : Option Token} (h : Ends t) : NoDirection t :=
  ⟨h.ne (by simp), h.ne (by simp)⟩

theorem Ends.noName {t : Option Token} (h : Ends t) : NoName t :=
  ⟨h.ne (by simp), h.ne (by simp)⟩

theorem Ends.noOption {t : Option Token} (h : Ends t) : NoOption t :=
  ⟨h.ne (by simp), fun _ => h.ne (by simp)⟩

/-! ## What follows a name -/

theorem reads_fields (expected : Expected) :
    Reads (commaSeparated (·.text expected)) (Grammar.Separated (Grammar.Single Grammar.text?))
      (fun t => True ∧ t ≠ some .comma) :=
  reads_commaSeparated (reads_text expected) trivial

theorem reads_orderFields :
    Reads (commaSeparated orderField) (Grammar.Separated Grammar.OrderField)
      (fun t => NoDirection t ∧ t ≠ some .comma) :=
  reads_commaSeparated reads_orderField ⟨by simp, by simp⟩

theorem reads_items :
    Reads (commaSeparated item) (Grammar.Separated Grammar.Item)
      (fun t => NoName t ∧ t ≠ some .comma) :=
  reads_commaSeparated reads_item ⟨by simp, by simp⟩

theorem reads_metrics :
    Reads (commaSeparated metric) (Grammar.Separated Grammar.Metric)
      (fun t => True ∧ t ≠ some .comma) :=
  reads_commaSeparated reads_metric trivial

/-- A reader whose result is made a stage takes what spells the stage. -/
theorem sound_of_map {s : Tokens} {α : Type}
    {f : (s : Tokens) → Except ParseError (Parsed s α)} {R : List Token → α → Prop}
    {F : Option Token → Prop} (toStage : α → Stage) (hf : Reads f R F) {name : String}
    (hbody : ∀ {ts : List Token} {a : α}, R ts a → Grammar.Body name ts (toStage a))
    {st : Stage} {r : Ahead s}
    (h : (f s).map (fun (a, t) => (toStage a, (⟨t.1, Nat.le_of_lt t.2⟩ : Ahead s)))
      = .ok (st, r)) :
    ∃ ts, Leads ts s r.1 ∧ Grammar.Body name ts st ∧ r.1.Ready := by
  obtain ⟨⟨a, t⟩, ha, hst⟩ := map_eq_ok_iff.1 h
  cases hst
  obtain ⟨ts, hts, hR, hr⟩ := hf.sound ha
  exact ⟨ts, hts, hbody hR, hr⟩

theorem stageNamed_sound {name : String} {start : Position} {s : Tokens} {st : Stage}
    {r : Ahead s} (hready : s.Ready) (h : stageNamed name start s = .ok (st, r)) :
    ∃ ts, Leads ts s r.1 ∧ Grammar.Body name ts st ∧ r.1.Ready := by
  unfold stageNamed at h
  dsimp only at h
  split at h
  · -- hello
    cases h
    exact ⟨[], .here, .hello, hready⟩
  · -- ping
    split at h
    · exact sound_of_map .ping reads_literal .pingLiteral h
    · cases h
      exact ⟨[], .here, .ping, hready⟩
  · -- echo
    exact sound_of_map .echo reads_literal .echo h
  · -- scope
    exact sound_of_map .scope (reads_text _) .scope h
  · -- jsonata
    exact sound_of_map .expression (reads_text _) .jsonata h
  · -- distinct
    split at h
    · exact sound_of_map (.distinct ∘ some) (reads_text _) .distinctField h
    · exact sound_of_map (.distinct ∘ some) (reads_text _) .distinctField h
    · cases h
      exact ⟨[], .here, .distinct, hready⟩
  · -- count
    cases h
    exact ⟨[], .here, .count, hready⟩
  · -- limit
    exact sound_of_map .limit (reads_accept _ _) .limit h
  · -- mv-expand
    obtain ⟨⟨first, s₁, h₁⟩, hx, h⟩ := bind_eq_ok_iff.1 h
    obtain ⟨ts, hts, hR, hr₁⟩ := (reads_text _).sound hx
    dsimp only at h
    split at h
    · obtain ⟨⟨⟨⟩, s₂, h₂⟩, hc, h⟩ := bind_eq_ok_iff.1 h
      dsimp only at h
      obtain ⟨⟨field, s₃, h₃⟩, hy, h⟩ := bind_eq_ok_iff.1 h
      cases h
      obtain ⟨us, hus, hRs, hr⟩ := (reads_text _).sound_behind hc hy
      exact ⟨_, hts.append hus, .expandLabelled hR hRs, hr⟩
    · cases h
      exact ⟨ts, hts, .expand hR, hr₁⟩
  · -- order
    obtain ⟨⟨⟨⟩, s₁, h₁⟩, hc, h⟩ := bind_eq_ok_iff.1 h
    dsimp only at h
    obtain ⟨⟨fields, s₂, h₂⟩, hf, h⟩ := bind_eq_ok_iff.1 h
    cases h
    obtain ⟨ts, hts, hR, hr⟩ := reads_orderFields.sound_behind hc hf
    exact ⟨_, hts, .orderBy hR, hr⟩
  · -- extend
    exact sound_of_map .extend reads_items .extend h
  · -- project
    exact sound_of_map .project reads_items .project h
  · -- project-away
    exact sound_of_map .projectAway (reads_fields _) .projectAway h
  · -- summarize
    obtain ⟨⟨metrics, s₁, h₁⟩, hm, h⟩ := bind_eq_ok_iff.1 h
    obtain ⟨ts, hts, hR, hr₁⟩ := reads_metrics.sound hm
    dsimp only at h
    split at h
    · obtain ⟨⟨⟨⟩, s₂, h₂⟩, hc, h⟩ := bind_eq_ok_iff.1 h
      dsimp only at h
      obtain ⟨⟨fields, s₃, h₃⟩, hf, h⟩ := bind_eq_ok_iff.1 h
      cases h
      obtain ⟨us, hus, hRs, hr⟩ := (reads_fields _).sound_behind hc hf
      exact ⟨_, hts.append hus, .summarizeBy hR hRs, hr⟩
    · cases h
      exact ⟨ts, hts, .summarize hR, hr₁⟩
  · -- parse-json
    cases h
    exact ⟨[], .here, .parseJson, hready⟩
  · -- parse-yaml
    cases h
    exact ⟨[], .here, .parseYaml, hready⟩
  · -- parse-csv
    obtain ⟨⟨os, t⟩, ho, h⟩ := bind_eq_ok_iff.1 h
    obtain ⟨ts, hts, hR, hr⟩ := options_sound hready ho
    obtain ⟨opts, hopts, h⟩ := bind_eq_ok_iff.1 h
    cases h
    exact ⟨ts, hts, .parseCsv hR hopts, hr⟩
  · -- parse-xml
    obtain ⟨⟨os, t⟩, ho, h⟩ := bind_eq_ok_iff.1 h
    obtain ⟨ts, hts, hR, hr⟩ := options_sound hready ho
    obtain ⟨opts, hopts, h⟩ := bind_eq_ok_iff.1 h
    cases h
    exact ⟨ts, hts, .parseXml hR hopts, hr⟩
  · -- the name of an operator, if any
    split at h
    · rename_i op hop
      cases h
      obtain rfl := Operator.name_of_ofName? hop
      refine ⟨[], .here, .command ?_ ?_, hready⟩
      · rintro rfl
        simp_all [Operator.name]
      · rintro rfl
        simp_all [Operator.name]
    · cases h

/-- A reader whose result is made a stage gives the stage where it is spelled. -/
theorem complete_of_map {s r : Tokens} {α : Type}
    {f : (s : Tokens) → Except ParseError (Parsed s α)} {R : List Token → α → Prop}
    {F : Option Token → Prop} (hf : Reads f R F) (toStage : α → Stage) {ts : List Token} {a : α}
    (hs : Leads ts s r) (hR : R ts a) (hr : r.Ready) (hF : F r.head?) :
    ∃ h, (f s).map (fun (a, t) => (toStage a, (⟨t.1, Nat.le_of_lt t.2⟩ : Ahead s)))
      = .ok (toStage a, ⟨r, h⟩) := by
  obtain ⟨h, ha⟩ := hf.complete hs hR hr hF
  exact ⟨Nat.le_of_lt h, by rw [ha]; rfl⟩

theorem stageNamed_complete {name : String} (start : Position) {s r : Tokens} {ts : List Token}
    {st : Stage} (hs : Leads ts s r) (hR : Grammar.Body name ts st) (hr : r.Ready)
    (hF : Ends r.head?) : ∃ h, stageNamed name start s = .ok (st, ⟨r, h⟩) := by
  cases hR with
  | hello =>
    cases hs
    exact ⟨Nat.le_refl _, rfl⟩
  | ping =>
    cases hs
    refine ⟨Nat.le_refl _, if_neg ?_⟩
    rcases hF with h | h <;> simp [h, literalValue?]
  | pingLiteral hv =>
    obtain ⟨h, heq⟩ := complete_of_map reads_literal .ping hs hv hr trivial
    obtain ⟨hv⟩ := hv
    refine ⟨h, (if_pos ?_).trans heq⟩
    simp [hs.head?, hv]
  | echo hv => exact complete_of_map reads_literal .echo hs hv hr trivial
  | scope hx => exact complete_of_map (reads_text _) .scope hs hx hr trivial
  | jsonata hx => exact complete_of_map (reads_text _) .expression hs hx hr trivial
  | distinct =>
    cases hs
    refine ⟨Nat.le_refl _, ?_⟩
    rcases hF with h | h <;> simp only [stageNamed, h]
  | distinctField hx =>
    obtain ⟨h, heq⟩ := complete_of_map (reads_text .field) (.distinct ∘ some) hs hx hr trivial
    refine ⟨h, ?_⟩
    obtain ⟨hx⟩ := hx
    rename_i t
    cases t with
    | field y =>
      simp only [stageNamed, hs.head?]
      exact heq
    | string y =>
      simp only [stageNamed, hs.head?]
      exact heq
    | _ => cases hx
  | count =>
    cases hs
    exact ⟨Nat.le_refl _, rfl⟩
  | limit hn => exact complete_of_map (reads_accept _ _) .limit hs hn hr trivial
  | expand hx =>
    obtain ⟨h₁, hx⟩ := (reads_text .field).complete hs hx hr trivial
    have hno : ¬ r.startsWith .equals = true :=
      fun h => hF.ne (by simp) (startsWith_iff.1 h)
    refine ⟨Nat.le_of_lt h₁, ?_⟩
    simp only [stageNamed, hx, bind, Except.bind]
    exact if_neg hno
  | expandLabelled hx hy =>
    obtain ⟨s₁, hs₁, hs₂⟩ := hs.split
    obtain ⟨h₁, hx⟩ := (reads_text .field).complete hs₁ hx hs₂.ready trivial
    obtain ⟨s₂, h₂, h₃, hc, hy⟩ := (reads_text .field).complete_behind .equals hs₂ hy hr trivial
    refine ⟨by omega, ?_⟩
    simp only [stageNamed, hx, bind, Except.bind, startsWith_iff.2 hs₂.head?, hc, hy]
    rfl
  | orderBy hf =>
    obtain ⟨s₁, h₁, h₂, hc, hf⟩ := reads_orderFields.complete_behind (.keyword "by") hs hf hr
      ⟨hF.noDirection, hF.ne (by simp)⟩
    refine ⟨by omega, ?_⟩
    simp only [stageNamed, hc, bind, Except.bind, hf]
    rfl
  | extend hi =>
    exact complete_of_map reads_items .extend hs hi hr ⟨hF.noName, hF.ne (by simp)⟩
  | project hi =>
    exact complete_of_map reads_items .project hs hi hr ⟨hF.noName, hF.ne (by simp)⟩
  | projectAway hx =>
    exact complete_of_map (reads_fields .field) .projectAway hs hx hr
      ⟨trivial, hF.ne (by simp)⟩
  | summarize hm =>
    obtain ⟨h₁, hm⟩ := reads_metrics.complete hs hm hr ⟨trivial, hF.ne (by simp)⟩
    have hno : ¬ r.startsWith (.identifier "by") = true :=
      fun h => hF.ne (by simp) (startsWith_iff.1 h)
    refine ⟨Nat.le_of_lt h₁, ?_⟩
    simp only [stageNamed, hm, bind, Except.bind]
    exact if_neg hno
  | summarizeBy hm hf =>
    obtain ⟨s₁, hs₁, hs₂⟩ := hs.split
    have hby : s₁.head? ≠ some .comma := by
      rw [hs₂.head?]
      simp
    obtain ⟨h₁, hm⟩ := reads_metrics.complete hs₁ hm hs₂.ready ⟨trivial, hby⟩
    obtain ⟨s₂, h₂, h₃, hc, hf⟩ := (reads_fields .groupField).complete_behind (.keyword "by") hs₂ hf
      hr ⟨trivial, hF.ne (by simp)⟩
    refine ⟨by omega, ?_⟩
    simp only [stageNamed, hm, bind, Except.bind, startsWith_iff.2 hs₂.head?, hc, hf]
    rfl
  | parseJson =>
    cases hs
    exact ⟨Nat.le_refl _, rfl⟩
  | parseYaml =>
    cases hs
    exact ⟨Nat.le_refl _, rfl⟩
  | parseCsv ho hopts =>
    obtain ⟨os', h, ho, hsame⟩ := options_complete hs ho hr hF.noOption
    have hopts := foldlM_eq_ok_of_setting CsvOptions.apply
      CsvOptions.apply_eq_ok_of_setting hsame hopts
    refine ⟨h, ?_⟩
    simp only [stageNamed, ho, bind, Except.bind, hopts]
    rfl
  | parseXml ho hopts =>
    obtain ⟨os', h, ho, hsame⟩ := options_complete hs ho hr hF.noOption
    have hopts := foldlM_eq_ok_of_setting XmlOptions.apply
      XmlOptions.apply_eq_ok_of_setting hsame hopts
    refine ⟨h, ?_⟩
    simp only [stageNamed, ho, bind, Except.bind, hopts]
    rfl
  | @command op hcount hdistinct =>
    cases hs
    refine ⟨Nat.le_refl _, ?_⟩
    cases op with
    | count => exact absurd rfl hcount
    | distinct => exact absurd rfl hdistinct
    | _ => rfl

/-! ## Stages -/

theorem stage_sound {s : Tokens} {st : Stage} {r : Behind s} (h : stage s = .ok (st, r)) :
    ∃ ts, Leads ts s r.1 ∧ Grammar.OneStage ts st ∧ r.1.Ready := by
  unfold stage at h
  split at h
  · obtain ⟨ts, hts, hR, hr⟩ := (reads_accept _ _).sound h
    obtain ⟨ha⟩ := hR
    rename_i t
    cases t <;> cases ha
    exact ⟨_, hts, .comment, hr⟩
  · obtain ⟨⟨name, s₁, h₁⟩, ha, h⟩ := bind_eq_ok_iff.1 h
    obtain ⟨hts, hr₁⟩ := leads_of_accept identifier?_eq_some_iff.1 ha
    dsimp only at h
    obtain ⟨⟨st', s₂, h₂⟩, hst, h⟩ := bind_eq_ok_iff.1 h
    cases h
    obtain ⟨us, hus, hR, hr⟩ := stageNamed_sound hr₁ hst
    exact ⟨_, hts.append hus, .named hR, hr⟩
  · cases h

/-- A comment is a stage, whatever follows it. -/
theorem stage_comment {s r : Tokens} {x : String} (hs : Leads [.comment x] s r) (hr : r.Ready) :
    ∃ h, stage s = .ok (.comment x, ⟨r, h⟩) := by
  simp only [stage, hs.head?]
  exact (reads_accept .command _).complete hs (.mk rfl) hr trivial

theorem stage_complete {s r : Tokens} {ts : List Token} {st : Stage} (hs : Leads ts s r)
    (hR : Grammar.OneStage ts st) (hr : r.Ready) (hF : Ends r.head?) :
    ∃ h, stage s = .ok (st, ⟨r, h⟩) := by
  cases hR with
  | comment => exact stage_comment hs hr
  | @named name us st hbody =>
    obtain ⟨s₁, hs₁, hs₂⟩ := hs.uncons
    obtain ⟨h₁, ha⟩ := (reads_accept .command identifier?).complete hs₁ (.mk rfl)
      (hs₂.ready_of_ready hr) trivial
    obtain ⟨h₂, hst⟩ := stageNamed_complete s.position hs₂ hbody hr hF
    refine ⟨Nat.lt_of_le_of_lt h₂ h₁, ?_⟩
    simp only [stage, hs.head?, ha, bind, Except.bind, hst]
    rfl

/-! ## Queries -/

/-- Tokens without a first one that have no error at their head are at the end. -/
theorem exists_eq_finished {s : Tokens} (hr : s.Ready) (h : s.head? = none) :
    ∃ p, s = .finished p := by
  cases s with
  | finished p => exact ⟨p, rfl⟩
  | failed e => cases hr
  | token p t rest => cases h

theorem stages_sound {s : Tokens} {sts : List Stage} (hs : ¬ s.isFinished = true)
    (h : stages s = .ok sts) : ∃ ts p, Leads ts s (.finished p) ∧ Grammar.Stages ts sts := by
  induction s using behind_induction generalizing sts with
  | step s ih =>
    rw [stages, if_neg hs] at h
    obtain ⟨⟨st, s₁, h₁⟩, hst, h⟩ := bind_eq_ok_iff.1 h
    obtain ⟨ts, hts, hR, hr₁⟩ := stage_sound hst
    dsimp only at h
    split at h
    · -- the query ends behind the stage
      rename_i hhead
      cases h
      obtain ⟨p, rfl⟩ := exists_eq_finished hr₁ hhead
      exact ⟨ts, p, hts, .last hR⟩
    · obtain ⟨⟨⟨⟩, s₂, h₂⟩, hc, h⟩ := bind_eq_ok_iff.1 h
      obtain ⟨hlead, -⟩ := leads_of_expect hc
      dsimp only at h
      split at h
      · cases h
      · rename_i hs₂
        obtain ⟨sts', hsts, h⟩ := bind_eq_ok_iff.1 h
        cases h
        obtain ⟨us, p, hus, hRs⟩ := ih ⟨s₂, Nat.lt_trans h₂ h₁⟩ hs₂ hsts
        exact ⟨_, p, hts.append (hlead.append hus), .piped hR hRs⟩
    · rename_i t hhead _
      split at h
      · -- only a comment needs no pipe
        rename_i hcomment
        have hs₁ : ¬ s₁.isFinished = true := by
          cases s₁ <;> simp_all [isFinished, head?]
        obtain ⟨sts', hsts, h⟩ := bind_eq_ok_iff.1 h
        cases h
        obtain ⟨us, p, hus, hRs⟩ := ih ⟨s₁, h₁⟩ hs₁ hsts
        cases hR with
        | comment => exact ⟨_, p, hts.append hus, .afterComment hRs⟩
        | named hbody => cases hbody <;> cases hcomment
      · cases h

theorem stages_complete {s : Tokens} {ts : List Token} {sts : List Stage} {p : Position}
    (hs : Leads ts s (.finished p)) (hR : Grammar.Stages ts sts) : stages s = .ok sts := by
  have hfin : ∀ {ts : List Token} {sts : List Stage} {s r : Tokens}, Grammar.Stages ts sts →
      Leads ts s r → ¬ s.isFinished = true := by
    intro ts sts s r hR hs
    obtain ⟨t, us, rfl, -⟩ := hR.exists_head
    cases hs
    simp [isFinished]
  induction hR generalizing s with
  | @last ts st hst =>
    have hs₀ := hfin (.last hst) hs
    obtain ⟨h, hst⟩ := stage_complete hs hst trivial (Or.inl rfl)
    rw [stages, if_neg hs₀, hst]
    rfl
  | piped hst hR ih =>
    have hs₀ := hfin (.piped hst hR) hs
    obtain ⟨s₁, hs₁, hs₂⟩ := hs.split
    obtain ⟨s₂, hs₃, hs₄⟩ := hs₂.uncons
    obtain ⟨h₁, hst⟩ := stage_complete hs₁ hst hs₂.ready (Or.inr hs₂.head?)
    obtain ⟨h₂, hc⟩ := expect_of_leads .pipeOrEnd hs₃ (hs₄.ready_of_ready trivial)
    rw [stages, if_neg hs₀]
    simp only [hst, bind, Except.bind, hs₂.head?, hc, if_neg (hfin hR hs₄), ih hs₄]
    rfl
  | @afterComment x us sts hR ih =>
    have hs₀ := hfin (.afterComment hR) hs
    obtain ⟨s₁, hs₁, hs₂⟩ := hs.uncons
    obtain ⟨h₁, hst⟩ := stage_comment hs₁ (hs₂.ready_of_ready trivial)
    obtain ⟨t, vs, rfl, ht⟩ := hR.exists_head
    rw [stages, if_neg hs₀]
    simp only [hst, bind, Except.bind, hs₂.head?, Stage.isComment, if_true, ih hs₂]
    rfl

/-- A text is a query exactly if it is tokens to its end and these spell stages. -/
theorem parse_eq_ok_iff {text : String} {sts : List Stage} :
    parse text = .ok sts ↔ (lex text).error? = none ∧ Grammar.Stages (lex text).toList sts := by
  constructor
  · intro h
    unfold parse at h
    obtain ⟨⟨⟩, hready, h⟩ := bind_eq_ok_iff.1 h
    obtain ⟨found, hfound, h⟩ := bind_eq_ok_iff.1 h
    split at h
    · cases h
    · rename_i hne
      cases h
      have hs : ¬ (lex text).isFinished = true := by
        intro hfin
        rw [stages, if_pos hfin] at hfound
        exact hne (Except.ok.inj hfound).symm
      obtain ⟨ts, p, hts, hR⟩ := stages_sound hs hfound
      obtain ⟨herr, rfl⟩ := leads_finished_iff.1 ⟨p, hts⟩
      exact ⟨herr, hR⟩
  · rintro ⟨herr, hR⟩
    obtain ⟨p, hs⟩ := leads_finished_iff.2 ⟨herr, rfl⟩
    have hstages := stages_complete hs hR
    have hready : (lex text).ready = .ok () := ready_eq_ok_iff.2 (hs.ready_of_ready trivial)
    obtain ⟨st, sts, rfl⟩ := List.exists_cons_of_ne_nil hR.ne_nil
    unfold parse
    simp only [hready, bind, Except.bind, hstages]
    rfl

end PipeQuery.Query
