import PipeQuery.Proofs.Expr.Lexemes

/-!
# Readers by rank

`readAt` lists the parsing functions from the loosest to the tightest.  What one
of them reads is read by every looser one as well, if the token behind it does not
go on with it (`readAt_of_le`); `Stops` says of a token that it goes on with
nothing from some rank on.

Operators of one level group to the left, so that a left operand is not read by
the function that reads the whole.  `Continues` says what it does instead: reading
the whole is going on behind the left operand.
-/

namespace PipeQuery.Expr

open Ahead (Leads)

variable {n : Nat}

/-! ## Taking tokens -/

theorem behind_of_next (t : Token) (source : List Char) {rest : List Char} {s : Ahead}
    (h : next n rest = .ok s) :
    ∃ h', Ahead.behind n t source rest = .ok ⟨s, h'⟩ := by
  unfold Ahead.behind
  split
  · rename_i s' h'
    obtain rfl := Except.ok.inj (h'.symm.trans h)
    exact ⟨Nat.lt_succ_of_le (size_next_le h), rfl⟩
  · rename_i h'
    rw [h] at h'
    cases h'

namespace Ahead

theorem Leads.split {ts us : List Token} {s q : Ahead} (h : Leads n (ts ++ us) s q) :
    ∃ r, Leads n ts s r ∧ Leads n us r q := by
  induction ts generalizing s with
  | nil => exact ⟨s, .here, h⟩
  | cons t ts ih =>
    cases h with
    | token hnext h =>
      obtain ⟨r, h₁, h₂⟩ := ih h
      exact ⟨r, .token hnext h₁, h₂⟩

theorem Leads.append {ts us : List Token} {s r q : Ahead} (h : Leads n ts s r)
    (hr : Leads n us r q) : Leads n (ts ++ us) s q := by
  induction h with
  | here => exact hr
  | token hnext _ ih => exact .token hnext (ih hr)

theorem Leads.head? {t : Token} {ts : List Token} {s r : Ahead} (h : Leads n (t :: ts) s r) :
    s.head? = some t := by
  cases h
  rfl

/-- What leads by a token begins with it. -/
theorem Leads.uncons {t : Token} {ts : List Token} {s q : Ahead} (h : Leads n (t :: ts) s q) :
    ∃ source rest, s = .token t source rest
      ∧ ∃ r h, behind n t source rest = .ok ⟨r, h⟩ ∧ Leads n ts r q := by
  cases h with
  | @token _ _ source rest r _ hnext h =>
    obtain ⟨hr, hbehind⟩ := behind_of_next t source hnext
    exact ⟨source, rest, rfl, r, hr, hbehind, h⟩

theorem accept_of_leads {α : Type} (read : Token → Option α) {t : Token} {a : α}
    {ts : List Token} {s q : Ahead} (ht : read t = some a) (h : Leads n (t :: ts) s q) :
    ∃ r h, s.accept n read = .ok (some (a, ⟨r, h⟩)) ∧ Leads n ts r q := by
  obtain ⟨source, rest, rfl, r, hr, hbehind, h⟩ := h.uncons
  refine ⟨r, hr, ?_, h⟩
  simp only [accept, ht, hbehind]
  rfl

theorem accept_eq_none {α : Type} {read : Token → Option α} {s : Ahead}
    (h : ∀ t ∈ s.head?, read t = none) : s.accept n read = .ok none := by
  cases s with
  | finished => rfl
  | token t source rest => simp only [accept, h t rfl]

theorem acceptToken_of_leads {t : Token} {ts : List Token} {s q : Ahead}
    (h : Leads n (t :: ts) s q) :
    ∃ r h, s.acceptToken n t = .ok (some ⟨r, h⟩) ∧ Leads n ts r q := by
  obtain ⟨r, hr, hs, h⟩ := accept_of_leads (fun found => if found = t then some () else none)
    (if_pos rfl) h
  refine ⟨r, hr, ?_, h⟩
  rw [acceptToken, hs]
  rfl

theorem acceptToken_eq_none {t : Token} {s : Ahead} (h : s.head? ≠ some t) :
    s.acceptToken n t = .ok none := by
  rw [acceptToken, accept_eq_none]
  · rfl
  · intro u hu
    refine if_neg ?_
    rintro rfl
    exact h hu

theorem expect_of_leads (what : Expected) {t : Token} {ts : List Token} {s q : Ahead}
    (h : Leads n (t :: ts) s q) :
    ∃ r h, s.expect n what t = .ok ⟨r, h⟩ ∧ Leads n ts r q := by
  obtain ⟨r, hr, hs, h⟩ := acceptToken_of_leads h
  refine ⟨r, hr, ?_, h⟩
  rw [expect, hs]
  rfl

theorem startsWith_iff {s : Ahead} {t : Token} : s.startsWith t = true ↔ s.head? = some t := by
  simp [startsWith]

end Ahead

/-! ## Ranks -/

/-- The parsing function of a rank. -/
def readAt (n : Nat) : Nat → (s : Ahead) → Except Error (Parsed s Node)
  | 0 => expression n
  | 1 => operators n .oneOf
  | 2 => operators n .both
  | 3 => operators n .comparison
  | 4 => operators n .sum
  | 5 => operators n .product
  | 6 => unary n
  | 7 => path n
  | _ => primary n

theorem readAt_rank (level : Level) : readAt n level.rank = operators n level := by
  cases level <;> rfl

/-- The operands of a level are what is read at the rank above it. -/
theorem operand_eq (level : Level) (s : Ahead) :
    operand n level s = readAt n (level.rank + 1) s := by
  cases level <;> rw [operand] <;> rfl

/-- A token, if any, that goes on with nothing of this rank or a tighter one. -/
structure Stops (rank : Nat) (t : Option Token) : Prop where
  /-- It does not begin the branches of a condition. -/
  condition : rank ≤ 0 → t ≠ some .question
  /-- It is no operator. -/
  operator : ∀ level : Level, rank ≤ level.rank → ∀ u ∈ t, level.operator? u = none
  /-- It begins neither a step nor a predicate. -/
  path : rank ≤ 7 → t ≠ some .dot ∧ t ≠ some .openBracket

theorem Stops.mono {k l : Nat} {t : Option Token} (h : Stops k t) (hkl : k ≤ l) : Stops l t where
  condition hl := h.condition (Nat.le_trans hkl hl)
  operator level hl := h.operator level (Nat.le_trans hkl hl)
  path hl := h.path (Nat.le_trans hkl hl)

theorem rank_cases {rank : Nat} (h : rank < 8) :
    rank = 0 ∨ (∃ level : Level, rank = level.rank) ∨ rank = 6 ∨ rank = 7 := by
  match rank, h with
  | 0, _ => exact Or.inl rfl
  | 1, _ => exact Or.inr (Or.inl ⟨.oneOf, rfl⟩)
  | 2, _ => exact Or.inr (Or.inl ⟨.both, rfl⟩)
  | 3, _ => exact Or.inr (Or.inl ⟨.comparison, rfl⟩)
  | 4, _ => exact Or.inr (Or.inl ⟨.sum, rfl⟩)
  | 5, _ => exact Or.inr (Or.inl ⟨.product, rfl⟩)
  | 6, _ => exact Or.inr (Or.inr (Or.inl rfl))
  | 7, _ => exact Or.inr (Or.inr (Or.inr rfl))

/-! ## Where reading begins -/

/-- Tokens that nothing begins with. -/
def isClosing : Token → Bool
  | .closeParen | .closeBracket | .closeBrace => true
  | _ => false

theorem begins_of_primary {s : Ahead} {x : Parsed s Node} (h : primary n s = .ok x) :
    ∀ t ∈ s.head?, isClosing t = false ∧ t ≠ .minus := by
  intro t ht
  cases s with
  | finished => cases ht
  | token u source rest =>
    cases ht
    cases t with
    | closeParen | closeBracket | closeBrace | minus =>
      simp only [primary] at h
      cases h
    | _ => exact ⟨rfl, by simp⟩

theorem begins_of_path {s : Ahead} {x : Parsed s Node} (h : path n s = .ok x) :
    ∀ t ∈ s.head?, isClosing t = false ∧ t ≠ .minus := by
  rw [path] at h
  obtain ⟨⟨st, s₁, h₁⟩, hst, -⟩ := bind_eq_ok_iff.1 h
  rw [step] at hst
  obtain ⟨y, hy, -⟩ := bind_eq_ok_iff.1 hst
  exact begins_of_primary hy

theorem begins_of_unary {s : Ahead} {x : Parsed s Node} (h : unary n s = .ok x) :
    ∀ t ∈ s.head?, isClosing t = false := by
  intro t ht
  by_cases hminus : s.head? = some .minus
  · obtain rfl := Option.some.inj (ht.symm.trans hminus)
    rfl
  · rw [unary, Ahead.acceptToken_eq_none hminus] at h
    exact (begins_of_path h t ht).1

theorem begins_of_operators {level : Level} {s : Ahead} {x : Parsed s Node}
    (h : operators n level s = .ok x) : ∀ t ∈ s.head?, isClosing t = false := by
  induction level using Level.by_rank generalizing x with
  | product =>
    rw [operators, operand_product] at h
    obtain ⟨y, hy, -⟩ := bind_eq_ok_iff.1 h
    exact begins_of_unary hy
  | looser hrank ih =>
    rw [operators, operand_of_rank hrank] at h
    obtain ⟨y, hy, -⟩ := bind_eq_ok_iff.1 h
    exact ih hy

/-- No expression begins with a token that ends something. -/
theorem begins_of_expression {s : Ahead} {x : Parsed s Node} (h : expression n s = .ok x) :
    ∀ t ∈ s.head?, isClosing t = false := by
  rw [expression] at h
  obtain ⟨y, hy, -⟩ := bind_eq_ok_iff.1 h
  exact begins_of_operators hy

/-! ## From a rank to looser ones -/

theorem operatorsAfter_eq_left {level : Level} {s : Ahead} (x : Node)
    (hstop : ∀ u ∈ s.head?, level.operator? u = none) :
    operatorsAfter n level x s = .ok (x, ⟨s, Nat.le_refl _⟩) := by
  rw [operatorsAfter, Ahead.accept_eq_none hstop]
  rfl

theorem operators_of_operand {level : Level} {s r : Ahead} {x : Node} {h : r.size < s.size}
    (hread : operand n level s = .ok (x, ⟨r, h⟩))
    (hstop : ∀ u ∈ r.head?, level.operator? u = none) :
    operators n level s = .ok (x, ⟨r, h⟩) := by
  rw [operators, hread]
  simp only [bind, Except.bind, operatorsAfter_eq_left x hstop]
  rfl

theorem expression_of_operators {s r : Ahead} {x : Node} {h : r.size < s.size}
    (hread : operators n .oneOf s = .ok (x, ⟨r, h⟩)) (hstop : r.head? ≠ some .question) :
    expression n s = .ok (x, ⟨r, h⟩) := by
  rw [expression, hread]
  simp only [bind, Except.bind, Ahead.acceptToken_eq_none hstop]
  rfl

theorem unary_of_path {s : Ahead} {x : Parsed s Node} (hread : path n s = .ok x) :
    unary n s = .ok x := by
  have hminus : s.head? ≠ some .minus := fun hs => (begins_of_path hread .minus hs).2 rfl
  rw [unary, Ahead.acceptToken_eq_none hminus]
  exact hread

theorem predicatesAfter_eq_nil {s : Ahead} (hstop : s.head? ≠ some .openBracket) :
    predicatesAfter n s = .ok ([], false, ⟨s, Nat.le_refl _⟩) := by
  rw [predicatesAfter, Ahead.acceptToken_eq_none hstop]
  rfl

theorem stepsAfter_eq_nil {s : Ahead} (hstop : s.head? ≠ some .dot) :
    stepsAfter n s = .ok ([], ⟨s, Nat.le_refl _⟩) := by
  rw [stepsAfter, Ahead.acceptToken_eq_none hstop]
  rfl

/-- An operand that selects no fields is a path by itself. -/
theorem path_of_primary {s r : Ahead} {x : Node} {h : r.size < s.size}
    (hread : primary n s = .ok (x, ⟨r, h⟩)) (hdot : r.head? ≠ some .dot)
    (hbracket : r.head? ≠ some .openBracket) (hx : x.isSelector = false) :
    path n s = .ok (x, ⟨r, h⟩) := by
  have hstep : step n s = .ok (.mk x [] false, ⟨r, h⟩) := by
    rw [step, hread]
    simp only [bind, Except.bind, predicatesAfter_eq_nil hbracket]
    rfl
  rw [path, hstep]
  simp only [bind, Except.bind, stepsAfter_eq_nil hdot, Node.ofSteps, hx]
  rfl

/-- What is read at a rank is read at the next looser one, if nothing goes on with it there. -/
theorem readAt_of_succ {rank : Nat} (hrank : rank < 8) {s r : Ahead} {x : Node}
    {h : r.size < s.size} (hread : readAt n (rank + 1) s = .ok (x, ⟨r, h⟩))
    (hstop : Stops rank r.head?) (hx : rank = 7 → x.isSelector = false) :
    readAt n rank s = .ok (x, ⟨r, h⟩) := by
  obtain rfl | ⟨level, rfl⟩ | rfl | rfl := rank_cases hrank
  · exact expression_of_operators hread (hstop.condition (Nat.le_refl _))
  · rw [readAt_rank]
    rw [← operand_eq] at hread
    exact operators_of_operand hread (hstop.operator level (Nat.le_refl _))
  · exact unary_of_path hread
  · obtain ⟨hdot, hbracket⟩ := hstop.path (Nat.le_refl _)
    exact path_of_primary hread hdot hbracket (hx rfl)

theorem readAt_of_le {k l : Nat} (hkl : k ≤ l) (hl : l ≤ 8) {s r : Ahead} {x : Node}
    {h : r.size < s.size} (hread : readAt n l s = .ok (x, ⟨r, h⟩)) (hstop : Stops k r.head?)
    (hx : k < l → l = 8 → x.isSelector = false) : readAt n k s = .ok (x, ⟨r, h⟩) := by
  obtain ⟨d, rfl⟩ := Nat.exists_eq_add_of_le hkl
  induction d with
  | zero => exact hread
  | succ d ih =>
    have hstop' : Stops (k + d) r.head? := hstop.mono (Nat.le_add_right k d)
    have hsucc : readAt n (k + d + 1) s = .ok (x, ⟨r, h⟩) := hread
    have hread' := readAt_of_succ (by omega) hsucc hstop' fun h7 => hx (by omega) (by omega)
    exact ih (by omega) (by omega) hread' fun _ h8 => by omega

/-! ## Whole texts -/

/-- A text is parsed where an expression is read up to its end. -/
theorem parse_eq_ok_iff {text : String} {x : Node} :
    parse text = .ok x ↔ ∃ s h, next text.toList.length text.toList = .ok s
      ∧ expression text.toList.length s = .ok (x, ⟨.finished, h⟩) := by
  constructor
  · intro hparse
    obtain ⟨s, hs, hparse⟩ := bind_eq_ok_iff.1 hparse
    obtain ⟨⟨y, s', h'⟩, hy, hparse⟩ := bind_eq_ok_iff.1 hparse
    cases s' with
    | finished =>
      cases hparse
      exact ⟨s, h', hs, hy⟩
    | token t source behind => cases hparse
  · rintro ⟨s, h, hs, hx⟩
    simp only [parse, hs, hx, bind, Except.bind]
    rfl

end PipeQuery.Expr
