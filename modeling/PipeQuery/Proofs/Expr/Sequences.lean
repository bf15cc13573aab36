import PipeQuery.Proofs.Expr.Operands

/-!
# Sequences of expressions read back

Items, keys with values and predicates end at a token that no expression begins
with, so that the first token decides whether another one follows.  Each lemma is
by induction on what was printed, with what is ahead left general.
-/

namespace PipeQuery.Expr

open Ahead (Leads)

variable {n : Nat} {x : Node} {s r q : Ahead}

/-! ## One of them -/

/-- A node that may stand where an expression is expected. -/
structure Node.Operand (n : Nat) (x : Node) : Prop where
  readable : x.Readable n
  noSelector : x.isSelector = false

/-- Nothing that is read as an expression begins with a closing token. -/
theorem startsWith_eq_false {close : Token} (hclose : isClosing close = true) {y : Parsed s Node}
    (h : expression n s = .ok y) : s.startsWith close = false := by
  cases hs : s.startsWith close with
  | false => rfl
  | true =>
    have hfalse : isClosing close = false :=
      begins_of_expression h close (Ahead.startsWith_iff.1 hs)
    rw [hclose] at hfalse
    cases hfalse

/-- The last token of a sequence is seen and taken. -/
theorem close_of_leads (close : Token) (closing : Expected) (h : Leads n [close] s r) :
    s.startsWith close = true ∧ ∃ h, s.expect n closing close = .ok ⟨r, h⟩ := by
  obtain ⟨t, h₁, hexpect, hend⟩ := Ahead.expect_of_leads closing h
  cases hend
  exact ⟨Ahead.startsWith_iff.2 h.head?, h₁, hexpect⟩

theorem startsWith_ne {t u : Token} {ts : List Token} (h : Leads n (t :: ts) s q) (hne : t ≠ u) :
    s.startsWith u = false := by
  cases hs : s.startsWith u with
  | false => rfl
  | true =>
    have hu : some t = some u := h.head?.symm.trans (Ahead.startsWith_iff.1 hs)
    exact absurd (Option.some.inj hu) hne

/-- An expression is read up to a comma or a closing token. -/
theorem expression_of_leads {t : Token} {ts : List Token} (hx : x.Operand n)
    (hwords : s.Spells n x.words r) (h : Leads n (t :: ts) r q)
    (ht : t = .comma ∨ isClosing t = true) :
    ∃ h y, expression n s = .ok (y, ⟨r, h⟩) ∧ y.unplaced = x.unplaced := by
  have hstop : Stops 0 r.head? := by
    rw [h.head?]
    refine stops_token ?_
    rcases ht with rfl | ht
    · simp
    · cases t <;> simp [isClosing] at ht ⊢
  have hcolon : r.head? ≠ some .colon := by
    rw [h.head?]
    rcases ht with rfl | ht
    · simp
    · cases t <;> simp [isClosing] at ht ⊢
  exact reads_expression hx.readable hx.noSelector hwords hstop fun _ => hcolon

/-! ## Items -/

theorem items_of_spells (close : Token) (hclose : isClosing close = true)
    (closing separating : Expected) {xs : List Node} (hxs : ∀ x ∈ xs, x.Operand n)
    (h : s.Spells n (joined .comma (itemsWords xs) ++ [.token close]) r) :
    ∃ h ys, items n close closing separating s = .ok (ys, ⟨r, h⟩)
      ∧ unplacedItems ys = unplacedItems xs := by
  have hcomma : Token.comma ≠ close := by
    rintro rfl
    cases hclose
  induction xs generalizing s with
  | nil =>
    rw [itemsWords, joined] at h
    obtain ⟨hclosed, h₁, hexpect⟩ := close_of_leads close closing h
    refine ⟨h₁, [], ?_, rfl⟩
    rw [items]
    simp only [hclosed, if_true, hexpect, bind, Except.bind]
    rfl
  | cons x rest ih =>
    have hx : x.Operand n := hxs x List.mem_cons_self
    cases rest with
    | nil =>
      simp only [itemsWords, joined] at h
      obtain ⟨s₁, hwords, h⟩ := Ahead.Spells.split h
      obtain ⟨h₁, y, hread, hy⟩ := expression_of_leads hx hwords h (Or.inr hclose)
      obtain ⟨hclosed, h₂, hexpect⟩ := close_of_leads close closing h
      refine ⟨Nat.lt_trans h₂ h₁, [y], ?_, ?_⟩
      · rw [items]
        simp only [startsWith_eq_false hclose hread, Bool.false_eq_true, if_false, hread, bind,
          Except.bind, hclosed, if_true, hexpect]
        rfl
      · rw [unplacedItems, unplacedItems, hy]
        rfl
    | cons x' rest =>
      simp only [itemsWords, joined, List.append_assoc, List.cons_append] at h
      obtain ⟨s₁, hwords, h⟩ := Ahead.Spells.split h
      obtain ⟨h₁, y, hread, hy⟩ := expression_of_leads hx hwords h (Or.inl rfl)
      obtain ⟨s₂, h₂, hexpect, hrest⟩ := Ahead.expect_of_leads (t := .comma) separating h
      obtain ⟨h₃, ys, hitems, hys⟩ := ih (fun x hx => hxs x (List.mem_cons_of_mem _ hx)) hrest
      refine ⟨by omega, y :: ys, ?_, ?_⟩
      · rw [items]
        simp only [startsWith_eq_false hclose hread, Bool.false_eq_true, if_false, hread, bind,
          Except.bind, startsWith_ne h hcomma, hexpect, hitems]
        rfl
      · rw [unplacedItems, unplacedItems, hy, hys]

/-! ## Keys and values -/

/-- A key is read up to its colon. -/
theorem expression_of_key {ts : List Token} (hx : x.Operand n)
    (hwords : s.Spells n (enclosed x.endsOpen x.words) r) (h : Leads n (.colon :: ts) r q) :
    ∃ h y, expression n s = .ok (y, ⟨r, h⟩) ∧ y.unplaced = x.unplaced := by
  have hstop : Stops 0 r.head? := by
    rw [h.head?]
    exact stops_token (by simp)
  have hkey : Reads n 0 x s r :=
    reads_enclosed hx.readable hwords (by decide) hstop (by simp [hx.noSelector]) fun hclosed =>
      ⟨Nat.zero_le _, by simp [hclosed]⟩
  exact hkey

/-- A key and its value are read up to a comma or the closing brace. -/
theorem pair_of_spells {key value : Node} {t : Token} {ws : List Word} (hkey : key.Operand n)
    (hvalue : value.Operand n) (ht : t = .comma ∨ isClosing t = true)
    (h : s.Spells n (enclosed key.endsOpen key.words
      ++ .token .colon :: (value.words ++ .token t :: ws)) q) :
    ∃ s₁ h₁ k s₂ h₂ v s₃ h₃, expression n s = .ok (k, ⟨s₁, h₁⟩) ∧ k.unplaced = key.unplaced
      ∧ s₁.expect n .colon .colon = .ok ⟨s₂, h₂⟩
      ∧ expression n s₂ = .ok (v, ⟨s₃, h₃⟩) ∧ v.unplaced = value.unplaced
      ∧ s₃.Spells n (.token t :: ws) q := by
  obtain ⟨s₁, hwords, h⟩ := Ahead.Spells.split h
  obtain ⟨h₁, k, hreadk, hk⟩ := expression_of_key hkey hwords h
  obtain ⟨s₂, h₂, hcolon, h⟩ := Ahead.expect_of_leads (t := .colon) .colon h
  obtain ⟨s₃, hwords, h⟩ := Ahead.Spells.split h
  obtain ⟨h₃, v, hreadv, hv⟩ := expression_of_leads hvalue hwords h ht
  exact ⟨s₁, h₁, k, s₂, h₂, v, s₃, h₃, hreadk, hk, hcolon, hreadv, hv, h⟩

/-- A key and its value are all there is where the closing brace follows. -/
theorem pairs_of_last {key value : Node} {s₁ s₂ s₃ : Ahead} {h₁ : s₁.size < s.size}
    {h₂ : s₂.size < s₁.size} {h₃ : s₃.size < s₂.size}
    (hkey : expression n s = .ok (key, ⟨s₁, h₁⟩))
    (hcolon : s₁.expect n .colon .colon = .ok ⟨s₂, h₂⟩)
    (hvalue : expression n s₂ = .ok (value, ⟨s₃, h₃⟩)) (hclose : Leads n [.closeBrace] s₃ r) :
    ∃ h, pairs n s = .ok ([(key, value)], ⟨r, h⟩) := by
  have hopen : s.startsWith .closeBrace = false := startsWith_eq_false rfl hkey
  obtain ⟨hclosed, h₄, hexpect⟩ := close_of_leads .closeBrace .closeBrace hclose
  refine ⟨by omega, ?_⟩
  rw [pairs]
  simp only [hopen, Bool.false_eq_true, if_false, hkey, bind, Except.bind, hcolon, hvalue,
    hclosed, if_true, hexpect]
  rfl

theorem pairs_of_spells {xs : List (Node × Node)}
    (hxs : ∀ x ∈ xs, x.1.Operand n ∧ x.2.Operand n)
    (h : s.Spells n (joined .comma (pairsWords xs) ++ [.token .closeBrace]) r) :
    ∃ h ys, pairs n s = .ok (ys, ⟨r, h⟩) ∧ unplacedPairs ys = unplacedPairs xs := by
  induction xs generalizing s with
  | nil =>
    rw [pairsWords, joined] at h
    obtain ⟨hclosed, h₁, hexpect⟩ := close_of_leads .closeBrace .closeBrace h
    refine ⟨h₁, [], ?_, rfl⟩
    rw [pairs]
    simp only [hclosed, if_true, hexpect, bind, Except.bind]
    rfl
  | cons x rest ih =>
    obtain ⟨key, value⟩ := x
    obtain ⟨hkey, hvalue⟩ := hxs (key, value) List.mem_cons_self
    cases rest with
    | nil =>
      simp only [pairsWords, joined, List.append_assoc, List.cons_append] at h
      obtain ⟨s₁, h₁, k, s₂, h₂, v, s₃, h₃, hreadk, hk, hcolon, hreadv, hv, h⟩ :=
        pair_of_spells hkey hvalue (Or.inr rfl) h
      obtain ⟨h', hpairs⟩ := pairs_of_last hreadk hcolon hreadv h
      refine ⟨h', [(k, v)], hpairs, ?_⟩
      rw [unplacedPairs, unplacedPairs, hk, hv]
      rfl
    | cons x' rest =>
      simp only [pairsWords, joined, List.append_assoc, List.cons_append] at h
      obtain ⟨s₁, h₁, k, s₂, h₂, v, s₃, h₃, hreadk, hk, hcolon, hreadv, hv, h⟩ :=
        pair_of_spells hkey hvalue (Or.inl rfl) h
      have hopen : s.startsWith .closeBrace = false := startsWith_eq_false rfl hreadk
      have hmore : s₃.startsWith .closeBrace = false := startsWith_ne h (by decide)
      obtain ⟨s₄, h₄, hexpect, h⟩ := Ahead.expect_of_leads (t := .comma) .commaOrCloseBrace h
      have hrest : s₄.Spells n
          (joined .comma (pairsWords (x' :: rest)) ++ [.token .closeBrace]) r := by
        simpa only [pairsWords, joined, List.append_assoc, List.cons_append] using h
      obtain ⟨h₅, ys, hpairs, hys⟩ := ih (fun x hx => hxs x (List.mem_cons_of_mem _ hx)) hrest
      refine ⟨by omega, (k, v) :: ys, ?_, ?_⟩
      · rw [pairs]
        simp only [hopen, Bool.false_eq_true, if_false, hreadk, bind, Except.bind, hcolon, hreadv,
          hmore, hexpect, hpairs]
        rfl
      · rw [unplacedPairs, unplacedPairs, hk, hv, hys]

/-! ## Predicates -/

theorem predicatesAfter_of_spells {xs : List Node} {keepArray : Bool}
    (hxs : ∀ x ∈ xs, x.Operand n)
    (h : s.Spells n (predicatesWords xs ++ keptWords keepArray) r)
    (hr : r.head? ≠ some .openBracket) :
    ∃ h ys, predicatesAfter n s = .ok (ys, keepArray, ⟨r, h⟩)
      ∧ unplacedItems ys = unplacedItems xs := by
  induction xs generalizing s with
  | nil =>
    rw [predicatesWords, List.nil_append] at h
    cases keepArray with
    | false =>
      cases h
      exact ⟨Nat.le_refl _, [], predicatesAfter_eq_nil hr, rfl⟩
    | true =>
      obtain ⟨s₁, h₁, haccept, h⟩ := Ahead.acceptToken_of_leads (t := .openBracket) h
      obtain ⟨hclosed, h₂, hexpect⟩ := close_of_leads .closeBracket .closeBracket h
      refine ⟨by omega, [], ?_, rfl⟩
      rw [predicatesAfter]
      simp only [haccept, bind, Except.bind, hclosed, if_true,
        hexpect, predicatesAfter_eq_nil hr]
      rfl
  | cons x rest ih =>
    simp only [predicatesWords, List.append_assoc, List.cons_append] at h
    obtain ⟨s₁, h₁, haccept, h⟩ := Ahead.acceptToken_of_leads (t := .openBracket) h
    obtain ⟨s₂, hwords, h⟩ := Ahead.Spells.split h
    obtain ⟨h₂, y, hread, hy⟩ :=
      expression_of_leads (hxs x List.mem_cons_self) hwords h (Or.inr rfl)
    obtain ⟨s₃, h₃, hexpect, h⟩ := Ahead.expect_of_leads (t := .closeBracket) .closeBracket h
    obtain ⟨h₄, ys, hpreds, hys⟩ := ih (fun x hx => hxs x (List.mem_cons_of_mem _ hx)) h
    have hmore : s₁.startsWith .closeBracket = false := startsWith_eq_false rfl hread
    refine ⟨by omega, y :: ys, ?_, ?_⟩
    · rw [predicatesAfter]
      simp only [haccept, bind, Except.bind, hmore, Bool.false_eq_true, if_false, hread, hexpect,
        hpreds]
      rfl
    · rw [unplacedItems, unplacedItems, hy, hys]

/-! ## Steps -/

/-- What a step is printed as: its node as a single operand, its predicates, and brackets that
keep an array. -/
theorem step_of_spells {xs : List Node} {keepArray : Bool} (hx : x.Readable n)
    (hsel : x.isSelector = true → x.rank = 8) (hxs : ∀ x ∈ xs, x.Operand n)
    (h : s.Spells n (enclosed (x.rank < 8) x.words
      ++ (predicatesWords xs ++ keptWords keepArray)) r)
    (hr : r.head? ≠ some .openBracket) :
    ∃ h y ys, step n s = .ok (.mk y ys keepArray, ⟨r, h⟩) ∧ y.unplaced = x.unplaced
      ∧ unplacedItems ys = unplacedItems xs := by
  obtain ⟨s₁, hwords, h⟩ := Ahead.Spells.split h
  have hstop : Stops 8 s₁.head? := ⟨by simp, fun level hlevel => by
    cases level <;> simp [Level.rank] at hlevel, by simp⟩
  obtain ⟨h₁, y, hread, hy⟩ : Reads n 8 x s s₁ := by
    refine reads_enclosed hx hwords (Nat.le_refl 8) hstop (fun hs => ?_) fun hclosed => ?_
    · exact ⟨by simp [hsel hs], rfl⟩
    · have hle : 8 ≤ x.rank := by simpa using hclosed
      exact ⟨hle, by simp [Node.endsOpen_eq_false (by omega : 0 < x.rank)]⟩
  have hread : primary n s = .ok (y, ⟨s₁, h₁⟩) := hread
  obtain ⟨h₂, ys, hpreds, hys⟩ := predicatesAfter_of_spells hxs h hr
  refine ⟨by omega, y, ys, ?_, hy, hys⟩
  rw [step, hread]
  simp only [bind, Except.bind, hpreds]
  rfl

/-- A step whose parts are readable. -/
def Step.Readable (n : Nat) : Step → Prop
  | .mk x predicates _ =>
    x.Readable n ∧ (x.isSelector = true → x.rank = 8) ∧ ∀ x ∈ predicates, x.Operand n

theorem steps_of_spells {first : Step} {rest : List Step}
    (hfirst : first.Readable n) (hrest : ∀ st ∈ rest, st.Readable n)
    (h : s.Spells n (joined .dot (stepsWords (first :: rest))) r)
    (hdot : r.head? ≠ some .dot) (hbracket : r.head? ≠ some .openBracket) :
    ∃ s₁ h₁ st h₂ sts, step n s = .ok (st, ⟨s₁, h₁⟩) ∧ stepsAfter n s₁ = .ok (sts, ⟨r, h₂⟩)
      ∧ unplacedSteps (st :: sts) = unplacedSteps (first :: rest) := by
  induction rest generalizing first s with
  | nil =>
    obtain ⟨x, xs, keepArray⟩ := first
    obtain ⟨hx, hsel, hxs⟩ := hfirst
    simp only [stepsWords, joined] at h
    obtain ⟨h₁, y, ys, hstep, hy, hys⟩ := step_of_spells hx hsel hxs h hbracket
    refine ⟨r, h₁, _, Nat.le_refl _, [], hstep, stepsAfter_eq_nil hdot, ?_⟩
    rw [unplacedSteps, unplacedSteps, hy, hys]
    rfl
  | cons second rest ih =>
    obtain ⟨x, xs, keepArray⟩ := first
    obtain ⟨hx, hsel, hxs⟩ := hfirst
    obtain ⟨x', xs', keepArray'⟩ := second
    have h : s.Spells n ((enclosed (x.rank < 8) x.words ++ (predicatesWords xs
        ++ keptWords keepArray))
        ++ .token .dot :: joined .dot (stepsWords (.mk x' xs' keepArray' :: rest))) r := h
    obtain ⟨s₁, hwords, h⟩ := Ahead.Spells.split h
    have hhead : s₁.head? = some .dot := Leads.head? h
    obtain ⟨h₁, y, ys, hstep, hy, hys⟩ := step_of_spells hx hsel hxs hwords (by simp [hhead])
    obtain ⟨s₂, h₂, haccept, h⟩ := Ahead.acceptToken_of_leads (t := .dot) h
    obtain ⟨s₃, h₃, st, h₄, sts, hnext, hafter, hsts⟩ :=
      ih (hrest _ List.mem_cons_self) (fun st hst => hrest st (List.mem_cons_of_mem _ hst)) h
    refine ⟨s₁, h₁, _, by omega, st :: sts, hstep, ?_, ?_⟩
    · rw [stepsAfter]
      simp only [haccept, bind, Except.bind, hnext, hafter]
      rfl
    · rw [unplacedSteps, hsts]
      conv => rhs; rw [unplacedSteps]
      rw [hy, hys]

end PipeQuery.Expr
