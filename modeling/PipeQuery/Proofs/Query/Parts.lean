import PipeQuery.Proofs.Query.Reading

/-!
# Readers of the parts of stages

Each reader of a part of a stage reads the relation of the grammar that has its
name.  The token that may follow is any but those that go on with the part: a
direction behind a field to sort by, a name behind an item, an equals sign
behind a first field.
-/

namespace PipeQuery.Query

open Tokens

/-! ## Calls -/

theorem reads_arguments : Reads arguments Grammar.Arguments anything where
  sound := by
    intro s
    induction s using behind_induction with
    | step s ih =>
      intro as r h
      rw [arguments] at h
      split at h
      · obtain ⟨⟨⟨⟩, t⟩, hc, h⟩ := bind_eq_ok_iff.1 h
        cases h
        obtain ⟨hlead, hr⟩ := leads_of_expect hc
        exact ⟨[.closeParen], hlead, .none, hr⟩
      · obtain ⟨⟨a, s₁, h₁⟩, ha, h⟩ := bind_eq_ok_iff.1 h
        obtain ⟨ts, hts, hR, -⟩ := (reads_accept _ _).sound ha
        obtain ⟨hta⟩ := hR
        dsimp only at h
        split at h
        · obtain ⟨⟨⟨⟩, s₂, h₂⟩, hc, h⟩ := bind_eq_ok_iff.1 h
          cases h
          obtain ⟨hlead, hr⟩ := leads_of_expect hc
          exact ⟨_, hts.append hlead, .last hta, hr⟩
        · obtain ⟨⟨⟨⟩, s₂, h₂⟩, hc, h⟩ := bind_eq_ok_iff.1 h
          obtain ⟨hlead, -⟩ := leads_of_expect hc
          dsimp only at h
          obtain ⟨⟨as', s₃, h₃⟩, has, h⟩ := bind_eq_ok_iff.1 h
          cases h
          obtain ⟨us, hus, hRs, hr⟩ := ih ⟨s₂, Nat.lt_trans h₂ h₁⟩ has
          exact ⟨_, (hts.append hlead).append hus, .more hta hRs, hr⟩
  complete := by
    have hopen : ∀ {s : Tokens} {t : Token} {a : Argument}, argument? t = some a →
        s.head? = some t → ¬ s.startsWith .closeParen = true := by
      intro s t a hta hhead h
      rw [startsWith_iff, hhead] at h
      cases h
      cases hta
    intro s r ts as hs hR hr _
    induction hR generalizing s with
    | none =>
      obtain ⟨h, hc⟩ := expect_of_leads .closeParen hs hr
      refine ⟨h, ?_⟩
      rw [arguments]
      refine (if_pos (startsWith_iff.2 hs.head?)).trans ?_
      rw [hc]
      rfl
    | @last t a hta =>
      obtain ⟨s₁, hs₁, hs₂⟩ := hs.uncons
      obtain ⟨h₁, ha⟩ := (reads_accept .functionArgument _).complete hs₁ (.mk hta) hs₂.ready
        trivial
      obtain ⟨h₂, hc⟩ := expect_of_leads .closeParen hs₂ hr
      refine ⟨Nat.lt_trans h₂ h₁, ?_⟩
      rw [arguments]
      refine (if_neg (hopen hta hs.head?)).trans ?_
      rw [ha]
      refine (if_pos (startsWith_iff.2 hs₂.head?)).trans ?_
      rw [hc]
      rfl
    | @more t a ts as hta hR ih =>
      obtain ⟨s₁, hs₁, hs₂⟩ := hs.uncons
      obtain ⟨s₂, hs₃, hs₄⟩ := hs₂.uncons
      have hno₁ : ¬ s₁.startsWith .closeParen = true := by
        rw [startsWith_iff, hs₃.head?]
        simp
      obtain ⟨h₁, ha⟩ := (reads_accept .functionArgument _).complete hs₁ (.mk hta) hs₂.ready
        trivial
      obtain ⟨h₂, hc⟩ := expect_of_leads .commaOrCloseParen hs₃ (hs₄.ready_of_ready hr)
      obtain ⟨h₃, has⟩ := ih hs₄
      refine ⟨by omega, ?_⟩
      rw [arguments]
      refine (if_neg (hopen hta hs.head?)).trans ?_
      rw [ha]
      refine (if_neg hno₁).trans ?_
      rw [hc]
      simp only [bind, Except.bind, has]
      rfl

/-- A call begins with the name of an operator. -/
theorem Grammar.Call.exists_head {ts : List Token} {c : Query.Call} (h : Grammar.Call ts c) :
    ∃ name us, ts = .identifier name :: us := by
  obtain ⟨_, _, _⟩ := h
  exact ⟨_, _, rfl⟩

theorem reads_call : Reads call Grammar.Call anything where
  sound := by
    intro s c r h
    unfold call at h
    split at h
    · rename_i name hname
      split at h
      · cases h
      · rename_i op hop
        obtain ⟨⟨name', s₁, h₁⟩, ha, h⟩ := bind_eq_ok_iff.1 h
        obtain ⟨ts, hts, hR, -⟩ := (reads_accept _ _).sound ha
        obtain ⟨hn⟩ := hR
        obtain rfl := Option.some.inj (hts.head?.symm.trans hname)
        dsimp only at h
        obtain ⟨⟨⟨⟩, s₂, h₂⟩, hc, h⟩ := bind_eq_ok_iff.1 h
        dsimp only at h
        obtain ⟨⟨args, s₃, h₃⟩, has, h⟩ := bind_eq_ok_iff.1 h
        obtain ⟨us, hus, hRs, hr⟩ := reads_arguments.sound_behind hc has
        dsimp only at h
        split at h
        · rename_i harity
          cases h
          exact ⟨_, hts.append hus, .mk hop hRs harity, hr⟩
        · cases h
    · cases h
  complete := by
    intro s r ts c hs hR hr _
    obtain ⟨hop, hargs, harity⟩ := hR
    rename_i name op us args
    obtain ⟨s₁, hs₁, hs₂⟩ := hs.uncons
    obtain ⟨h₁, ha⟩ := (reads_accept .functionName identifier?).complete hs₁ (.mk rfl) hs₂.ready
      trivial
    obtain ⟨s₂, h₂, h₃, hc, has⟩ := reads_arguments.complete_behind .openParen hs₂ hargs hr trivial
    refine ⟨by omega, ?_⟩
    simp only [call, hs.head?, hop, ha, hc, has, bind, Except.bind]
    exact if_pos harity

/-! ## Fields to sort by -/

/-- No direction follows. -/
def NoDirection (t : Option Token) : Prop :=
  t ≠ some (.identifier "asc") ∧ t ≠ some (.identifier "desc")

theorem reads_orderField : Reads orderField Grammar.OrderField NoDirection where
  sound := by
    intro s f r h
    unfold orderField at h
    obtain ⟨⟨x, s₁, h₁⟩, hx, h⟩ := bind_eq_ok_iff.1 h
    obtain ⟨ts, hts, hR, hr₁⟩ := (reads_text _).sound hx
    dsimp only at h
    split at h
    · obtain ⟨⟨⟨⟩, s₂, h₂⟩, hc, h⟩ := bind_eq_ok_iff.1 h
      cases h
      obtain ⟨hlead, hr⟩ := leads_of_expect hc
      exact ⟨_, hts.append hlead, .asc hR, hr⟩
    · split at h
      · obtain ⟨⟨⟨⟩, s₂, h₂⟩, hc, h⟩ := bind_eq_ok_iff.1 h
        cases h
        obtain ⟨hlead, hr⟩ := leads_of_expect hc
        exact ⟨_, hts.append hlead, .desc hR, hr⟩
      · cases h
        exact ⟨ts, hts, .plain hR, hr₁⟩
  complete := by
    intro s r ts f hs hR hr hF
    cases hR with
    | plain hx =>
      obtain ⟨h₁, hx⟩ := (reads_text .field).complete hs hx hr trivial
      have hasc : ¬ r.startsWith (.identifier "asc") = true := fun h => hF.1 (startsWith_iff.1 h)
      have hdesc : ¬ r.startsWith (.identifier "desc") = true :=
        fun h => hF.2 (startsWith_iff.1 h)
      refine ⟨h₁, ?_⟩
      unfold orderField
      rw [hx]
      exact (if_neg hasc).trans (if_neg hdesc)
    | asc hx =>
      obtain ⟨s₁, hs₁, hs₂⟩ := hs.split
      obtain ⟨h₁, hx⟩ := (reads_text .field).complete hs₁ hx hs₂.ready trivial
      obtain ⟨h₂, hc⟩ := expect_of_leads (.keyword "asc") hs₂ hr
      refine ⟨Nat.lt_trans h₂ h₁, ?_⟩
      unfold orderField
      rw [hx]
      refine (if_pos (startsWith_iff.2 hs₂.head?)).trans ?_
      rw [hc]
      rfl
    | desc hx =>
      obtain ⟨s₁, hs₁, hs₂⟩ := hs.split
      obtain ⟨h₁, hx⟩ := (reads_text .field).complete hs₁ hx hs₂.ready trivial
      obtain ⟨h₂, hc⟩ := expect_of_leads (.keyword "desc") hs₂ hr
      have hasc : ¬ s₁.startsWith (.identifier "asc") = true := by
        rw [startsWith_iff, hs₂.head?]
        decide
      refine ⟨Nat.lt_trans h₂ h₁, ?_⟩
      unfold orderField
      rw [hx]
      refine (if_neg hasc).trans ?_
      refine (if_pos (startsWith_iff.2 hs₂.head?)).trans ?_
      rw [hc]
      rfl

/-! ## Items and metrics -/

theorem isIdentifier_iff {t : Option Token} :
    isIdentifier t = true ↔ ∃ name, t = some (.identifier name) := by
  cases t with
  | none => simp [isIdentifier]
  | some t => cases t <;> simp [isIdentifier, identifier?]

/-- No equals sign follows. -/
def NoEquals (t : Option Token) : Prop := t ≠ some .equals

theorem reads_itemSource : Reads itemSource Grammar.ItemSource NoEquals where
  sound := by
    intro s i r h
    unfold itemSource at h
    split at h
    · obtain ⟨⟨first, s₁, h₁⟩, ha, h⟩ := bind_eq_ok_iff.1 h
      obtain ⟨hts, hr₁⟩ := leads_of_accept field?_eq_some_iff.1 ha
      dsimp only at h
      split at h
      · obtain ⟨⟨⟨⟩, s₂, h₂⟩, hc, h⟩ := bind_eq_ok_iff.1 h
        obtain ⟨hlead, -⟩ := leads_of_expect hc
        dsimp only at h
        split at h
        · obtain ⟨⟨c, s₃, h₃⟩, hcall, h⟩ := bind_eq_ok_iff.1 h
          cases h
          obtain ⟨us, hus, hRs, hr⟩ := reads_call.sound hcall
          exact ⟨_, (hts.append hlead).append hus, .labelledCall hRs, hr⟩
        · obtain ⟨⟨path, s₃, h₃⟩, hpath, h⟩ := bind_eq_ok_iff.1 h
          cases h
          obtain ⟨us, hus, hRs, hr⟩ := (reads_text _).sound hpath
          exact ⟨_, (hts.append hlead).append hus, .labelledField hRs, hr⟩
      · cases h
        exact ⟨_, hts, .field, hr₁⟩
    · obtain ⟨⟨c, t⟩, hcall, h⟩ := bind_eq_ok_iff.1 h
      cases h
      obtain ⟨ts, hts, hR, hr⟩ := reads_call.sound hcall
      exact ⟨ts, hts, .call hR, hr⟩
    · cases h
  complete := by
    intro s r ts i hs hR hr hF
    cases hR with
    | @field x =>
      obtain ⟨h₁, ha⟩ := (reads_accept .fieldOrCall field?).complete hs (.mk rfl) hr trivial
      have hno : ¬ r.startsWith .equals = true := fun h => hF (startsWith_iff.1 h)
      refine ⟨h₁, ?_⟩
      simp only [itemSource, hs.head?, ha, bind, Except.bind]
      exact if_neg hno
    | @labelledField x y us hy =>
      obtain ⟨s₁, hs₁, hs₂⟩ := hs.uncons
      obtain ⟨s₂, hs₃, hs₄⟩ := hs₂.uncons
      have hno : ¬ isIdentifier s₂.head? = true := by
        obtain ⟨hy⟩ := hy
        rw [isIdentifier_iff, hs₄.head?]
        rintro ⟨name, hname⟩
        cases hname
        cases hy
      obtain ⟨h₁, ha⟩ := (reads_accept .fieldOrCall field?).complete hs₁ (.mk rfl) hs₂.ready
        trivial
      obtain ⟨h₂, hc⟩ := expect_of_leads .equals hs₃ (hs₄.ready_of_ready hr)
      obtain ⟨h₃, hpath⟩ := (reads_text .fieldOrCall).complete hs₄ hy hr trivial
      refine ⟨by omega, ?_⟩
      simp only [itemSource, hs.head?, ha, bind, Except.bind, startsWith_iff.2 hs₃.head?, hc,
        hno, hpath]
      rfl
    | call hcall =>
      obtain ⟨name, us, rfl⟩ := hcall.exists_head
      obtain ⟨h₁, hc⟩ := reads_call.complete hs hcall hr trivial
      refine ⟨h₁, ?_⟩
      simp only [itemSource, hs.head?, hc, bind, Except.bind]
      rfl
    | @labelledCall x us c hcall =>
      obtain ⟨s₁, hs₁, hs₂⟩ := hs.uncons
      obtain ⟨s₂, hs₃, hs₄⟩ := hs₂.uncons
      have hyes : isIdentifier s₂.head? = true := by
        obtain ⟨name, vs, rfl⟩ := hcall.exists_head
        exact isIdentifier_iff.2 ⟨name, hs₄.head?⟩
      obtain ⟨h₁, ha⟩ := (reads_accept .fieldOrCall field?).complete hs₁ (.mk rfl) hs₂.ready
        trivial
      obtain ⟨h₂, hc⟩ := expect_of_leads .equals hs₃ (hs₄.ready_of_ready hr)
      obtain ⟨h₃, hcall⟩ := reads_call.complete hs₄ hcall hr trivial
      refine ⟨by omega, ?_⟩
      simp only [itemSource, hs.head?, ha, bind, Except.bind, startsWith_iff.2 hs₃.head?, hc,
        hyes, hcall]
      rfl

/-- Neither an equals sign nor a name follows. -/
def NoName (t : Option Token) : Prop := t ≠ some .equals ∧ t ≠ some (.identifier "as")

theorem reads_item : Reads item Grammar.Item NoName where
  sound := by
    intro s i r h
    unfold item at h
    obtain ⟨⟨i₁, s₁, h₁⟩, hi, h⟩ := bind_eq_ok_iff.1 h
    obtain ⟨ts, hts, hR, hr₁⟩ := reads_itemSource.sound hi
    dsimp only at h
    split at h
    · obtain ⟨⟨⟨⟩, s₂, h₂⟩, hc, h⟩ := bind_eq_ok_iff.1 h
      dsimp only at h
      obtain ⟨⟨name, s₃, h₃⟩, hname, h⟩ := bind_eq_ok_iff.1 h
      cases h
      obtain ⟨us, hus, hRs, hr⟩ := (reads_text _).sound_behind hc hname
      exact ⟨_, hts.append hus, .named hR hRs, hr⟩
    · cases h
      exact ⟨ts, hts, .plain hR, hr₁⟩
  complete := by
    intro s r ts i hs hR hr hF
    cases hR with
    | plain hi =>
      obtain ⟨h₁, hi⟩ := reads_itemSource.complete hs hi hr hF.1
      have hno : ¬ r.startsWith (.identifier "as") = true := fun h => hF.2 (startsWith_iff.1 h)
      refine ⟨h₁, ?_⟩
      unfold item
      rw [hi]
      exact if_neg hno
    | named hi hx =>
      obtain ⟨s₁, hs₁, hs₂⟩ := hs.split
      have hne : NoEquals s₁.head? := by
        rw [hs₂.head?]
        simp [NoEquals]
      obtain ⟨h₁, hi⟩ := reads_itemSource.complete hs₁ hi hs₂.ready hne
      obtain ⟨s₂, h₂, h₃, hc, hx⟩ := (reads_text .label).complete_behind (.keyword "as") hs₂ hx hr
        trivial
      refine ⟨by omega, ?_⟩
      unfold item
      rw [hi]
      refine (if_pos (startsWith_iff.2 hs₂.head?)).trans ?_
      rw [hc]
      simp only [bind, Except.bind, hx]
      rfl

theorem reads_metric : Reads metric Grammar.Metric anything where
  sound := by
    intro s m r h
    unfold metric at h
    split at h
    · obtain ⟨⟨first, s₁, h₁⟩, ha, h⟩ := bind_eq_ok_iff.1 h
      obtain ⟨hts, -⟩ := leads_of_accept field?_eq_some_iff.1 ha
      dsimp only at h
      obtain ⟨⟨⟨⟩, s₂, h₂⟩, hc, h⟩ := bind_eq_ok_iff.1 h
      dsimp only at h
      obtain ⟨⟨c, s₃, h₃⟩, hcall, h⟩ := bind_eq_ok_iff.1 h
      cases h
      obtain ⟨us, hus, hRs, hr⟩ := reads_call.sound_behind hc hcall
      exact ⟨_, hts.append hus, .labelled hRs, hr⟩
    · obtain ⟨⟨c, t⟩, hcall, h⟩ := bind_eq_ok_iff.1 h
      cases h
      obtain ⟨ts, hts, hR, hr⟩ := reads_call.sound hcall
      exact ⟨ts, hts, .plain hR, hr⟩
  complete := by
    intro s r ts m hs hR hr _
    cases hR with
    | plain hcall =>
      obtain ⟨name, us, rfl⟩ := hcall.exists_head
      obtain ⟨h₁, hc⟩ := reads_call.complete hs hcall hr trivial
      refine ⟨h₁, ?_⟩
      simp only [metric, hs.head?, hc, bind, Except.bind]
      rfl
    | @labelled x us c hcall =>
      obtain ⟨s₁, hs₁, hs₂⟩ := hs.uncons
      obtain ⟨h₁, ha⟩ := (reads_accept .fieldOrCall field?).complete hs₁ (.mk rfl) hs₂.ready
        trivial
      obtain ⟨s₂, h₂, h₃, hc, hcall⟩ := reads_call.complete_behind .equals hs₂ hcall hr trivial
      refine ⟨by omega, ?_⟩
      simp only [metric, hs.head?, ha, bind, Except.bind, hc, hcall]
      rfl

/-! ## Options -/

/-- Neither an option nor an equals sign follows. -/
def NoOption (t : Option Token) : Prop :=
  t ≠ some .equals ∧ ∀ name, t ≠ some (.flag name)

/-- The name and the value of an option, without its position. -/
def StageOption.setting (o : StageOption) : String × Value := (o.name, o.value)

theorem options_sound {s : Tokens} {os : List StageOption} {r : Ahead s} (hready : s.Ready)
    (h : options s = .ok (os, r)) :
    ∃ ts, Leads ts s r.1 ∧ Grammar.Options ts os ∧ r.1.Ready := by
  induction s using behind_induction generalizing os with
  | step s ih =>
    rw [options] at h
    split at h
    · obtain ⟨⟨name, s₁, h₁⟩, ha, h⟩ := bind_eq_ok_iff.1 h
      obtain ⟨hts, hr₁⟩ := leads_of_accept flag?_eq_some_iff.1 ha
      dsimp only at h
      split at h
      · obtain ⟨⟨⟨⟩, s₂, h₂⟩, hc, h⟩ := bind_eq_ok_iff.1 h
        obtain ⟨hlead, -⟩ := leads_of_expect hc
        dsimp only at h
        obtain ⟨⟨v, s₃, h₃⟩, hv, h⟩ := bind_eq_ok_iff.1 h
        obtain ⟨us, hus, hRv, hr₃⟩ := reads_literal.sound hv
        obtain ⟨hv⟩ := hRv
        dsimp only at h
        obtain ⟨⟨others, s₄, h₄⟩, ho, h⟩ := bind_eq_ok_iff.1 h
        cases h
        obtain ⟨vs, hvs, hRo, hr⟩ := ih ⟨s₃, by omega⟩ hr₃ ho
        exact ⟨_, ((hts.append hlead).append hus).append hvs, .value hv hRo, hr⟩
      · obtain ⟨⟨others, s₂, h₂⟩, ho, h⟩ := bind_eq_ok_iff.1 h
        cases h
        obtain ⟨vs, hvs, hRo, hr⟩ := ih ⟨s₁, h₁⟩ hr₁ ho
        exact ⟨_, hts.append hvs, .flag hRo, hr⟩
    · cases h
      exact ⟨[], .here, .none, hready⟩

theorem options_complete {s r : Tokens} {ts : List Token} {os : List StageOption}
    (hs : Leads ts s r) (hR : Grammar.Options ts os) (hr : r.Ready) (hF : NoOption r.head?) :
    ∃ os' h, options s = .ok (os', ⟨r, h⟩)
      ∧ os'.map StageOption.setting = os.map StageOption.setting := by
  induction hR generalizing s with
  | none =>
    cases hs
    refine ⟨[], Nat.le_refl _, ?_, rfl⟩
    rw [options]
    split
    · rename_i name hname
      exact absurd hname (hF.2 name)
    · rfl
  | @flag name p us os hR ih =>
    obtain ⟨s₁, hs₁, hs₂⟩ := hs.uncons
    have hno : ¬ s₁.startsWith .equals = true := by
      rw [startsWith_iff]
      cases hR with
      | none =>
        cases hs₂
        exact hF.1
      | flag _ =>
        rw [hs₂.head?]
        simp
      | value _ _ =>
        rw [hs₂.head?]
        simp
    obtain ⟨h₁, ha⟩ := (reads_accept .command flag?).complete hs₁ (.mk rfl)
      (hs₂.ready_of_ready hr) trivial
    obtain ⟨os', h₂, ho, hsame⟩ := ih hs₂
    refine ⟨⟨name, .boolean true, s.position⟩ :: os', by omega, ?_, ?_⟩
    · rw [options]
      simp only [hs.head?, ha, bind, Except.bind, hno, ho]
      rfl
    · rw [List.map_cons, List.map_cons, hsame]
      rfl
  | @value name p t v us os hv hR ih =>
    obtain ⟨s₁, hs₁, hs₂⟩ := hs.uncons
    obtain ⟨s₂, hs₃, hs₄⟩ := hs₂.uncons
    obtain ⟨s₃, hs₅, hs₆⟩ := hs₄.uncons
    obtain ⟨h₁, ha⟩ := (reads_accept .command flag?).complete hs₁ (.mk rfl) hs₂.ready trivial
    obtain ⟨h₂, hc⟩ := expect_of_leads .equals hs₃ hs₄.ready
    obtain ⟨h₃, hl⟩ := reads_literal.complete hs₅ (.mk hv) (hs₆.ready_of_ready hr) trivial
    obtain ⟨os', h₄, ho, hsame⟩ := ih hs₆
    refine ⟨⟨name, v, s.position⟩ :: os', by omega, ?_, ?_⟩
    · rw [options]
      simp only [hs.head?, ha, bind, Except.bind, startsWith_iff.2 hs₃.head?, hc, hl, ho]
      rfl
    · rw [List.map_cons, List.map_cons, hsame]
      rfl

/-- Where an option stands does not matter to its truth value. -/
theorem StageOption.truthValue_eq_ok_of_setting {o o' : StageOption} {b : Bool}
    (hsame : o'.setting = o.setting) (h : o.truthValue = .ok b) : o'.truthValue = .ok b := by
  obtain ⟨-, hv⟩ := Prod.mk.inj hsame
  unfold truthValue at h ⊢
  rw [hv]
  split at h
  · exact h
  · cases h

/-- Where an option stands does not matter to its text. -/
theorem StageOption.text_eq_ok_of_setting {o o' : StageOption} {x : String}
    (hsame : o'.setting = o.setting) (h : o.text = .ok x) : o'.text = .ok x := by
  obtain ⟨-, hv⟩ := Prod.mk.inj hsame
  unfold text at h ⊢
  rw [hv]
  split at h
  · exact h
  · cases h

/-- Where an option stands does not matter to its character. -/
theorem StageOption.character_eq_ok_of_setting {o o' : StageOption} {c : Char}
    (hsame : o'.setting = o.setting) (h : o.character = .ok c) : o'.character = .ok c := by
  obtain ⟨-, hv⟩ := Prod.mk.inj hsame
  unfold character at h ⊢
  rw [hv]
  split at h
  · split at h
    · split at h
      · cases h
        simp [*]
      · cases h
    · cases h
  · cases h

/-- Where an option stands does not matter to the options that it is applied to. -/
theorem CsvOptions.apply_eq_ok_of_setting {opts opts' : CsvOptions} {o o' : StageOption}
    (hsame : o'.setting = o.setting) (h : CsvOptions.apply opts o = .ok opts') :
    CsvOptions.apply opts o' = .ok opts' := by
  obtain ⟨hn, -⟩ := Prod.mk.inj hsame
  unfold CsvOptions.apply at h ⊢
  rw [hn]
  split at h
  · obtain ⟨c, hc, h⟩ := bind_eq_ok_iff.1 h
    rw [StageOption.character_eq_ok_of_setting hsame hc]
    exact h
  · obtain ⟨c, hc, h⟩ := bind_eq_ok_iff.1 h
    rw [StageOption.character_eq_ok_of_setting hsame hc]
    exact h
  · obtain ⟨b, hb, h⟩ := bind_eq_ok_iff.1 h
    rw [StageOption.truthValue_eq_ok_of_setting hsame hb]
    exact h
  · obtain ⟨b, hb, h⟩ := bind_eq_ok_iff.1 h
    rw [StageOption.truthValue_eq_ok_of_setting hsame hb]
    exact h
  · obtain ⟨b, hb, h⟩ := bind_eq_ok_iff.1 h
    rw [StageOption.truthValue_eq_ok_of_setting hsame hb]
    exact h
  · cases h

/-- Where an option stands does not matter to the options that it is applied to. -/
theorem XmlOptions.apply_eq_ok_of_setting {opts opts' : XmlOptions} {o o' : StageOption}
    (hsame : o'.setting = o.setting) (h : XmlOptions.apply opts o = .ok opts') :
    XmlOptions.apply opts o' = .ok opts' := by
  obtain ⟨hn, -⟩ := Prod.mk.inj hsame
  unfold XmlOptions.apply at h ⊢
  rw [hn]
  split at h
  · obtain ⟨b, hb, h⟩ := bind_eq_ok_iff.1 h
    rw [StageOption.truthValue_eq_ok_of_setting hsame hb]
    exact h
  · obtain ⟨b, hb, h⟩ := bind_eq_ok_iff.1 h
    rw [StageOption.truthValue_eq_ok_of_setting hsame hb]
    exact h
  · obtain ⟨x, hx, h⟩ := bind_eq_ok_iff.1 h
    rw [StageOption.text_eq_ok_of_setting hsame hx]
    exact h
  · obtain ⟨x, hx, h⟩ := bind_eq_ok_iff.1 h
    rw [StageOption.text_eq_ok_of_setting hsame hx]
    exact h
  · cases h

/-- If no option's place matters to `apply`, then the places of several do not either. -/
theorem foldlM_eq_ok_of_setting {β : Type} (apply : β → StageOption → Except ParseError β)
    (happly : ∀ {b b' : β} {o o' : StageOption}, o'.setting = o.setting →
      apply b o = .ok b' → apply b o' = .ok b')
    {os os' : List StageOption}
    (hsame : os'.map StageOption.setting = os.map StageOption.setting) {b b' : β}
    (h : os.foldlM apply b = .ok b') : os'.foldlM apply b = .ok b' := by
  induction os generalizing os' b with
  | nil =>
    obtain rfl := List.map_eq_nil_iff.1 hsame
    exact h
  | cons o os ih =>
    cases os' with
    | nil => cases hsame
    | cons o' os' =>
      obtain ⟨ho, hos⟩ := List.cons.inj hsame
      rw [List.foldlM_cons] at h ⊢
      obtain ⟨b₁, h₁, h₂⟩ := bind_eq_ok_iff.1 h
      exact bind_eq_ok_iff.2 ⟨b₁, happly ho h₁, ih hos h₂⟩

end PipeQuery.Query
