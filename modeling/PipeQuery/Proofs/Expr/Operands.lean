import PipeQuery.Proofs.Expr.Reading

/-!
# Operands and operators read back

A node is *readable* if the parsing function of its rank reads its words and gives
the node again, up to positions.  It is then read wherever `enclosed` puts it: at
its place as it stands if it binds tightly enough there, and in parentheses
otherwise.

Each lemma `readable_` of a node supposes that its parts are readable.
-/

namespace PipeQuery.Expr

open Ahead (Leads)

variable {n rank : Nat} {level : Level} {x : Node} {s r q : Ahead}

/-! ## Positions do not matter -/

@[simp] theorem Node.isSelector_unplaced (x : Node) : x.unplaced.isSelector = x.isSelector := by
  cases x with
  | condition test yes no => cases no <;> rw [unplaced] <;> rfl
  | _ => rw [unplaced] <;> rfl

theorem Node.isSelector_congr {x y : Node} (h : y.unplaced = x.unplaced) :
    y.isSelector = x.isSelector := by
  rw [← isSelector_unplaced y, h, isSelector_unplaced]

/-- Whether a node has neither parts nor a position. -/
def Node.isLeaf : Node → Bool
  | .path _ | .array _ | .object _ | .negate _ _ | .binary _ _ _ _ | .condition _ _ _
  | .call _ _ _ => false
  | _ => true

/-- A node that is a leaf but for positions is that leaf. -/
theorem Node.eq_of_isLeaf {x y : Node} (hx : x.isLeaf = true) (h : y.unplaced = x) : y = x := by
  subst h
  cases y with
  | path | array | object | negate | binary | call => simp [unplaced, isLeaf] at hx
  | condition test yes no => cases no <;> simp [unplaced, isLeaf] at hx
  | _ => rw [unplaced]

theorem Node.unplaced_of_isLeaf {x : Node} (hx : x.isLeaf = true) : x.unplaced = x := by
  cases x with
  | path | array | object | negate | binary | condition | call => cases hx
  | _ => rw [unplaced]

theorem Node.unplaced_negated {x y : Node} (h : y.unplaced = x.unplaced)
    (hx : ∀ k, x ≠ .number k) (position : Nat) :
    (y.negated position).unplaced = .negate x.unplaced 0 := by
  unfold negated
  split
  · rename_i k
    rw [unplaced] at h
    exact absurd (eq_of_isLeaf rfl h.symm) (hx k)
  · rw [unplaced, h]

/-- The step with all positions at the beginning. -/
def Step.unplaced : Step → Step
  | .mk x predicates keepArray => .mk x.unplaced (unplacedItems predicates) keepArray

theorem unplacedSteps_cons (st : Step) (rest : List Step) :
    unplacedSteps (st :: rest) = st.unplaced :: unplacedSteps rest := by
  obtain ⟨x, predicates, keepArray⟩ := st
  rw [unplacedSteps]
  rfl

theorem Node.negated_unplaced (x : Node) (position : Nat) :
    x.unplaced.negated 0 = (x.negated position).unplaced := by
  cases x with
  | condition test yes no => cases no <;> simp only [negated, unplaced]
  | _ => simp only [negated, unplaced]

theorem Node.ofSteps_unplaced (first : Step) (rest : List Step) :
    ofSteps first.unplaced (unplacedSteps rest) = (ofSteps first rest).unplaced := by
  obtain ⟨x, predicates, keepArray⟩ := first
  have hpath : (Node.path (.mk x predicates keepArray :: rest)).unplaced
      = .path (.mk x.unplaced (unplacedItems predicates) keepArray :: unplacedSteps rest) := by
    rw [unplaced, unplacedSteps]
  cases predicates with
  | cons y predicates => exact hpath.symm
  | nil =>
    cases keepArray with
    | true => exact hpath.symm
    | false =>
      cases rest with
      | cons second rest =>
        obtain ⟨x', predicates', keepArray'⟩ := second
        exact hpath.symm
      | nil =>
        simp only [Step.unplaced, unplacedItems, unplacedSteps, ofSteps, isSelector_unplaced]
        split
        · rw [hpath]
          rfl
        · rfl

theorem Node.rank_le (x : Node) : x.rank ≤ 8 := by
  cases x with
  | binary op left right position =>
    rw [rank]
    cases op.level <;> simp [Level.rank]
  | number k => rcases k with _ | _ | ⟨_ | _, _⟩ <;> simp [rank]
  | _ => simp [rank]

/-! ## Tokens behind a node -/

/-- These tokens go on with nothing. -/
theorem stops_token {t : Token}
    (ht : t ∈ [Token.comma, .colon, .closeParen, .closeBracket, .closeBrace]) :
    Stops rank (some t) := by
  simp only [List.mem_cons, List.not_mem_nil, or_false] at ht
  refine ⟨fun _ => ?_, fun level _ u hu => ?_, fun _ => ?_⟩
  · rcases ht with rfl | rfl | rfl | rfl | rfl <;> simp
  · cases hu
    rcases ht with rfl | rfl | rfl | rfl | rfl <;> cases level <;> rfl
  · rcases ht with rfl | rfl | rfl | rfl | rfl <;> simp

theorem stops_question : Stops 1 (some .question) where
  condition h := absurd h (by decide)
  operator level _ u hu := by
    cases hu
    cases level <;> rfl
  path _ := by simp

theorem stops_finished : Stops rank none where
  condition _ := by simp
  operator level _ u hu := by cases hu
  path _ := by simp

theorem operator?_word (op : BinaryOp) : op.level.operator? op.word.read = some op := by
  cases op <;> rfl

/-- An operator goes on with nothing that binds more tightly. -/
theorem stops_operator (op : BinaryOp) : Stops (op.level.rank + 1) (some op.word.read) where
  condition h := absurd h (by omega)
  operator level hlevel u hu := by
    cases hu
    cases op <;> cases level <;> first | rfl | (simp [BinaryOp.level, Level.rank] at hlevel)
  path _ := by cases op <;> simp [BinaryOp.word, Word.read]

/-! ## Readable nodes -/

/-- What is ahead begins with these words, and `r` is behind them. -/
abbrev Ahead.Spells (n : Nat) (ws : List Word) (s r : Ahead) : Prop :=
  Leads n (ws.map Word.read) s r

theorem Ahead.Spells.split {ws vs : List Word} (h : Spells n (ws ++ vs) s q) :
    ∃ r, Spells n ws s r ∧ Spells n vs r q := by
  unfold Spells at h
  rw [List.map_append] at h
  exact Leads.split h

theorem Ahead.Spells.uncons {w : Word} {ws : List Word} (h : Spells n (w :: ws) s q) :
    ∃ r, Spells n [w] s r ∧ Spells n ws r q :=
  split (h : Spells n ([w] ++ ws) s q)

/-- The parsing function of a rank reads the node up to `r`. -/
def Reads (n rank : Nat) (x : Node) (s r : Ahead) : Prop :=
  ∃ h y, readAt n rank s = .ok (y, ⟨r, h⟩) ∧ y.unplaced = x.unplaced

/-- Reading with the operators of a level is going on with them behind the node. -/
def Continues (n : Nat) (level : Level) (x : Node) (s r : Ahead) : Prop :=
  r.size < s.size ∧ ∃ y, y.unplaced = x.unplaced
    ∧ ∀ z t h, operatorsAfter n level y r = .ok (z, ⟨t, h⟩) →
      ∃ h, operators n level s = .ok (z, ⟨t, h⟩)

/-- The node is read from its words. -/
structure Node.Readable (n : Nat) (x : Node) : Prop where
  /-- The parsing function of its rank reads it, if the token behind it is not a part of it. -/
  reads : ∀ {s r : Ahead}, s.Spells n x.words r → Stops x.rank r.head? →
    (x.endsOpen = true → r.head? ≠ some .colon) → Reads n x.rank x s r
  /-- It may be the left operand of an operator of its own level. -/
  continues : ∀ {level : Level} {s r : Ahead}, x.rank = level.rank → level.chains = true →
    s.Spells n x.words r → Stops (level.rank + 1) r.head? → Continues n level x s r

theorem Reads.of_le {loose tight : Nat} (h : Reads n tight x s r) (hle : loose ≤ tight)
    (htight : tight ≤ 8) (hstop : Stops loose r.head?)
    (hx : x.isSelector = true → loose = 8) : Reads n loose x s r := by
  obtain ⟨hr, y, hread, hy⟩ := h
  refine ⟨hr, y, readAt_of_le hle htight hread hstop fun hlt h8 => ?_, hy⟩
  rw [Node.isSelector_congr hy]
  cases hsel : x.isSelector with
  | false => rfl
  | true => exact absurd (hx hsel) (by omega)

/-- A node without operators of its own is readable if the function of its rank reads it. -/
theorem Node.readable_of_reads (hrank : ∀ level : Level, x.rank ≠ level.rank)
    (h : ∀ {s r : Ahead}, s.Spells n x.words r → Stops x.rank r.head? →
      (x.endsOpen = true → r.head? ≠ some .colon) → Reads n x.rank x s r) :
    x.Readable n where
  reads := h
  continues hlevel := absurd hlevel (hrank _)

theorem Node.ne_level_rank {k : Nat} (h : k = 0 ∨ 6 ≤ k) (level : Level) : k ≠ level.rank := by
  cases level <;> simp only [Level.rank] <;> omega

/-! ## Parentheses -/

/-- What is read between parentheses is read as a single operand. -/
theorem reads_parentheses {s₁ s₂ : Ahead} (hopen : Leads n [.openParen] s s₁)
    (hx : Reads n 0 x s₁ s₂) (hclose : Leads n [.closeParen] s₂ r) : Reads n 8 x s r := by
  obtain ⟨source, behind, rfl, s₃, h₁, hbehind, hopen⟩ := hopen.uncons
  cases hopen
  obtain ⟨h₂, y, hread, hy⟩ := hx
  obtain ⟨r', h₃, hexpect, hend⟩ := Ahead.expect_of_leads .closeParen hclose
  cases hend
  have hread : expression n s₁ = .ok (y, ⟨s₂, h₂⟩) := hread
  refine ⟨by omega, y, ?_, hy⟩
  show primary n (.token .openParen source behind) = _
  rw [primary]
  simp only [hbehind, hread, hexpect, bind, Except.bind]
  rfl

/-- What is in parentheses is read as a single operand. -/
theorem reads_parenthesized (hx : x.Readable n) (hsel : x.isSelector = false)
    (h : s.Spells n (.token .openParen :: (x.words ++ [.token .closeParen])) r) :
    Reads n 8 x s r := by
  obtain ⟨s₁, hopen, h⟩ := Ahead.Spells.uncons h
  obtain ⟨s₂, hwords, hclose⟩ := Ahead.Spells.split h
  have hhead : s₂.head? = some .closeParen := Leads.head? hclose
  have hstop : Stops 0 s₂.head? := by
    rw [hhead]
    exact stops_token (by simp)
  have hown : Reads n x.rank x s₁ s₂ :=
    hx.reads hwords (hstop.mono (Nat.zero_le _)) (by simp [hhead])
  exact reads_parentheses hopen (hown.of_le (Nat.zero_le _) x.rank_le hstop (by simp [hsel])) hclose

/-- A node is read in parentheses if it needs them, and as it stands otherwise. -/
theorem reads_enclosed {needed : Bool} (hx : x.Readable n)
    (h : s.Spells n (enclosed needed x.words) r) (hrank : rank ≤ 8) (hstop : Stops rank r.head?)
    (hsel : x.isSelector = true → needed = false ∧ rank = 8)
    (hneeded : needed = false → rank ≤ x.rank ∧ (x.endsOpen = true → r.head? ≠ some .colon)) :
    Reads n rank x s r := by
  cases needed with
  | false =>
    obtain ⟨hle, hopen⟩ := hneeded rfl
    have hown : Reads n x.rank x s r := hx.reads h (hstop.mono hle) hopen
    exact hown.of_le hle x.rank_le hstop fun hs => (hsel hs).2
  | true =>
    have hfalse : x.isSelector = false := by
      cases hs : x.isSelector with
      | false => rfl
      | true => exact absurd (hsel hs).1 (by decide)
    have hparens : Reads n 8 x s r := reads_parenthesized hx hfalse h
    exact hparens.of_le hrank (Nat.le_refl 8) hstop (by simp [hfalse])

/-- Only what binds least tightly ends in a condition. -/
theorem Node.endsOpen_eq_false (h : 0 < x.rank) : x.endsOpen = false := by
  cases x with
  | condition test yes no => simp [rank] at h
  | _ => rfl

/-- A node that stands where `rank` is asked for, and in parentheses otherwise, is read there. -/
theorem reads_operand (hx : x.Readable n) (hsel : x.isSelector = false) (hpos : 0 < rank)
    (hrank : rank ≤ 8) (h : s.Spells n (enclosed (x.rank < rank) x.words) r)
    (hstop : Stops rank r.head?) : Reads n rank x s r := by
  refine reads_enclosed hx h hrank hstop (by simp [hsel]) fun hneeded => ?_
  have hle : rank ≤ x.rank := by simpa using hneeded
  refine ⟨hle, fun hopen => ?_⟩
  rw [Node.endsOpen_eq_false (by omega)] at hopen
  cases hopen

/-- A whole expression is read where a token follows that goes on with nothing. -/
theorem reads_expression (hx : x.Readable n) (hsel : x.isSelector = false)
    (h : s.Spells n x.words r) (hstop : Stops 0 r.head?)
    (hopen : x.endsOpen = true → r.head? ≠ some .colon) : Reads n 0 x s r :=
  (hx.reads h (hstop.mono (Nat.zero_le _)) hopen).of_le (Nat.zero_le _) x.rank_le hstop
    (by simp [hsel])

/-- A text is parsed as the node that its tokens are the words of, up to positions. -/
theorem parse_of_spells {text : String} (hx : x.Readable text.toList.length)
    (hsel : x.isSelector = false) (hnext : next text.toList.length text.toList = .ok s)
    (h : s.Spells text.toList.length x.words .finished) :
    ∃ y, parse text = .ok y ∧ y.unplaced = x.unplaced := by
  obtain ⟨h', y, hread, hy⟩ := reads_expression hx hsel h stops_finished (by simp [Ahead.head?])
  have hread : expression text.toList.length s = .ok (y, ⟨.finished, h'⟩) := hread
  exact ⟨y, parse_eq_ok_iff.2 ⟨s, h', hnext, hread⟩, hy⟩

/-! ## Operators -/

/-- An operand of a level is where its operators go on. -/
theorem continues_of_reads (h : Reads n (level.rank + 1) x s r) : Continues n level x s r := by
  obtain ⟨hr, y, hread, hy⟩ := h
  refine ⟨hr, y, hy, fun z t ht hafter => ⟨by omega, ?_⟩⟩
  rw [← operand_eq] at hread
  rw [operators, hread]
  simp only [bind, Except.bind, hafter]
  rfl

/-- The left operand, with parentheses where it needs them, is where operators go on. -/
theorem continues_left (hx : x.Readable n) (hsel : x.isSelector = false)
    (h : s.Spells n (enclosed (x.rank < level.rank + if level.chains then 0 else 1) x.words) r)
    (hstop : Stops (level.rank + 1) r.head?) : Continues n level x s r := by
  have hlevel : level.rank + 1 ≤ 8 := by cases level <;> simp [Level.rank]
  by_cases hown : x.rank = level.rank ∧ level.chains = true
  · obtain ⟨hrank, hchains⟩ := hown
    simp only [hrank, hchains, if_true, Nat.add_zero, Nat.lt_irrefl, decide_false] at h
    exact hx.continues hrank hchains h hstop
  · -- no operator of the level itself, so that parentheses are those of a right operand
    have hneeded : (x.rank < level.rank + if level.chains then 0 else 1)
        ↔ x.rank < level.rank + 1 := by
      cases hchains : level.chains with
      | false => simp
      | true =>
        have hne : x.rank ≠ level.rank := fun heq => hown ⟨heq, hchains⟩
        simp only [if_true]
        omega
    rw [decide_eq_decide.2 hneeded] at h
    exact continues_of_reads (reads_operand hx hsel (by omega) hlevel h hstop)

variable {op : BinaryOp} {left right : Node} {position : Nat}

/-- An operator and its right operand are read behind the left one. -/
theorem operatorsAfter_of_reads (position : Nat) {y : Node} {s₁ : Ahead} {h : s₁.size < s.size}
    (hop : s.accept n op.level.operator? = .ok (some (op, ⟨s₁, h⟩)))
    (hright : Reads n (op.level.rank + 1) right s₁ r) (hy : y.unplaced = left.unplaced) :
    r.size < s.size ∧ ∃ z, z.unplaced = (Node.binary op left right position).unplaced
      ∧ (op.level.chains = true → ∀ u t h, operatorsAfter n op.level z r = .ok (u, ⟨t, h⟩) →
        ∃ h, operatorsAfter n op.level y s = .ok (u, ⟨t, h⟩))
      ∧ ((∀ u ∈ r.head?, op.level.operator? u = none) →
        ∃ h, operatorsAfter n op.level y s = .ok (z, ⟨r, h⟩)) := by
  obtain ⟨hr, y', hread, hy'⟩ := hright
  rw [← operand_eq] at hread
  refine ⟨by omega, .binary op y y' (s.position n), ?_, fun hchains u t ht hafter => ?_,
    fun hstop => ?_⟩
  · rw [Node.unplaced, Node.unplaced, hy, hy']
  · refine ⟨by omega, ?_⟩
    rw [operatorsAfter, hop]
    simp only [bind, Except.bind, hread, hchains, if_true, hafter]
    rfl
  · refine ⟨by omega, ?_⟩
    rw [operatorsAfter, hop]
    simp only [bind, Except.bind, hread, operatorsAfter_eq_left _ hstop]
    split <;> rfl

theorem readable_binary (hleft : left.Readable n) (hlsel : left.isSelector = false)
    (hright : right.Readable n) (hrsel : right.isSelector = false) :
    (Node.binary op left right position).Readable n := by
  have hlevel : op.level.rank + 1 ≤ 8 := by cases op.level <;> simp [Level.rank]
  -- both fields read the operands and differ in what follows
  have hparts : ∀ {s r : Ahead}, s.Spells n (Node.binary op left right position).words r →
      Stops (op.level.rank + 1) r.head? → ∃ s₁ s₂ h, Continues n op.level left s s₁
        ∧ s₁.accept n op.level.operator? = .ok (some (op, ⟨s₂, h⟩))
        ∧ Reads n (op.level.rank + 1) right s₂ r := by
    intro s r h hstop
    rw [Node.words] at h
    obtain ⟨s₁, hl, h⟩ := Ahead.Spells.split h
    have hstop₁ : Stops (op.level.rank + 1) s₁.head? := by
      rw [show s₁.head? = some op.word.read from Leads.head? h]
      exact stops_operator op
    obtain ⟨s₂, h₂, hop, h⟩ := Ahead.accept_of_leads _ (operator?_word op) h
    exact ⟨s₁, s₂, h₂, continues_left hleft hlsel hl hstop₁, hop,
      reads_operand hright hrsel (by omega) hlevel h hstop⟩
  constructor
  case reads =>
    intro s r h hstop hopen
    obtain ⟨s₁, s₂, h₂, ⟨h₁, y, hy, hleft⟩, hop, hright⟩ :=
      hparts h (hstop.mono (by simp [Node.rank]))
    obtain ⟨hr, z, hz, -, hafter⟩ := operatorsAfter_of_reads position hop hright hy
    obtain ⟨_, hafter⟩ := hafter (hstop.operator op.level (Nat.le_refl _))
    obtain ⟨h', hread⟩ := hleft _ _ _ hafter
    refine ⟨h', z, ?_, hz⟩
    rw [Node.rank, readAt_rank]
    exact hread
  case continues =>
    intro level s r hrank hchains h hstop
    obtain rfl : op.level = level := by
      cases hop : op.level <;> cases level <;> simp [Node.rank, hop, Level.rank] at hrank <;> rfl
    obtain ⟨s₁, s₂, h₂, ⟨h₁, y, hy, hleft⟩, hop, hright⟩ := hparts h hstop
    obtain ⟨hr, z, hz, hafter, -⟩ := operatorsAfter_of_reads position hop hright hy
    refine ⟨by omega, z, hz, fun u t ht hu => ?_⟩
    obtain ⟨ht', hu⟩ := hafter hchains u t ht hu
    exact hleft u t ht' hu

/-! ## Minus signs -/

/-- What a minus sign stands in front of is read with its sign turned. -/
theorem reads_minus {ws : List Word} (h : s.Spells n (.token .minus :: ws) r)
    (hread : ∀ {s : Ahead}, s.Spells n ws r → Reads n 6 x s r) :
    ∃ h, ∃ y : Node, ∃ position,
      unary n s = .ok (y.negated position, ⟨r, h⟩) ∧ y.unplaced = x.unplaced := by
  obtain ⟨s₁, h₁, haccept, h⟩ := Ahead.acceptToken_of_leads (t := .minus) h
  obtain ⟨h₂, y, hread, hy⟩ := hread h
  have hread : unary n s₁ = .ok (y, ⟨r, h₂⟩) := hread
  refine ⟨by omega, y, s.position n, ?_, hy⟩
  rw [unary, haccept]
  simp only [bind, Except.bind, hread]
  rfl

theorem readable_negate {operand : Node} {position : Nat} (hx : operand.Readable n)
    (hsel : operand.isSelector = false) (hnumber : ∀ k, operand ≠ .number k) :
    (Node.negate operand position).Readable n := by
  refine Node.readable_of_reads (Node.ne_level_rank (Or.inr (Nat.le_refl 6))) fun h hstop _ => ?_
  rw [Node.words] at h
  obtain ⟨h', y, position', hread, hy⟩ :=
    reads_minus h fun h => reads_operand hx hsel (by decide) (by decide) h hstop
  refine ⟨h', _, hread, ?_⟩
  rw [Node.unplaced_negated hy hnumber, Node.unplaced]

/-! ## Conditions -/

variable {test yes : Node} {no : Option Node}

/-- A condition begins with its test and a question mark. -/
theorem reads_test {ws : List Word} (hx : test.Readable n) (hsel : test.isSelector = false)
    (h : s.Spells n (enclosed (test.rank < 1) test.words ++ .token .question :: ws) q) :
    ∃ s₁ h₁ t s₂ h₂, operators n .oneOf s = .ok (t, ⟨s₁, h₁⟩) ∧ t.unplaced = test.unplaced
      ∧ s₁.acceptToken n .question = .ok (some ⟨s₂, h₂⟩) ∧ s₂.Spells n ws q := by
  obtain ⟨s₁, ht, h⟩ := Ahead.Spells.split h
  have hstop : Stops 1 s₁.head? := by
    rw [show s₁.head? = some .question from Leads.head? h]
    exact stops_question
  obtain ⟨h₁, t, hread, htest⟩ := reads_operand hx hsel (by decide) (by decide) ht hstop
  obtain ⟨s₂, h₂, haccept, h⟩ := Ahead.acceptToken_of_leads (t := .question) h
  exact ⟨s₁, h₁, t, s₂, h₂, hread, htest, haccept, h⟩

theorem readable_condition (htest : test.Readable n) (htsel : test.isSelector = false)
    (hyes : yes.Readable n) (hysel : yes.isSelector = false)
    (hno : ∀ x ∈ no, x.Readable n ∧ x.isSelector = false) :
    (Node.condition test yes no).Readable n := by
  refine Node.readable_of_reads (Node.ne_level_rank (Or.inl rfl)) fun {s r} h hstop hopen => ?_
  have hstop : Stops 0 r.head? := hstop
  cases no with
  | none =>
    have hcolon : r.head? ≠ some .colon := hopen rfl
    rw [Node.words] at h
    obtain ⟨s₁, h₁, t, s₂, h₂, hread, htest, haccept, h⟩ := reads_test htest htsel h
    obtain ⟨h₃, y, hready, hyes⟩ := reads_expression hyes hysel h hstop fun _ => hcolon
    have hready : expression n s₂ = .ok (y, ⟨r, h₃⟩) := hready
    refine ⟨by omega, .condition t y none, ?_, ?_⟩
    · show expression n s = _
      rw [expression, hread]
      simp only [bind, Except.bind, haccept, hready, Ahead.acceptToken_eq_none hcolon]
      rfl
    · rw [Node.unplaced, Node.unplaced, htest, hyes]
  | some no =>
    obtain ⟨hno, hnsel⟩ := hno no rfl
    have hopen : no.endsOpen = true → r.head? ≠ some .colon := hopen
    rw [Node.words] at h
    obtain ⟨s₁, h₁, t, s₂, h₂, hread, htest, haccept, h⟩ := reads_test htest htsel h
    obtain ⟨s₃, hy, h⟩ := Ahead.Spells.split h
    have hstop₃ : Stops 0 s₃.head? := by
      rw [show s₃.head? = some .colon from Leads.head? h]
      exact stops_token (by simp)
    obtain ⟨h₃, y, hready, hyes⟩ : Reads n 0 yes s₂ s₃ :=
      reads_enclosed hyes hy (by decide) hstop₃ (by simp [hysel]) fun hclosed =>
        ⟨Nat.zero_le _, by simp [hclosed]⟩
    have hready : expression n s₂ = .ok (y, ⟨s₃, h₃⟩) := hready
    obtain ⟨s₄, h₄, haccept', h⟩ := Ahead.acceptToken_of_leads (t := .colon) h
    obtain ⟨h₅, z, hreadz, hno⟩ := reads_expression hno hnsel h hstop hopen
    have hreadz : expression n s₄ = .ok (z, ⟨r, h₅⟩) := hreadz
    refine ⟨by omega, .condition t y (some z), ?_, ?_⟩
    · show expression n s = _
      rw [expression, hread]
      simp only [bind, Except.bind, haccept, hready, haccept', hreadz]
      rfl
    · rw [Node.unplaced, Node.unplaced, htest, hyes, hno]

end PipeQuery.Expr
