import PipeQuery.Proofs.Expr.Sequences

/-!
# Single operands and paths read back

A single operand begins with the token that says what it is, and `primary` goes on
by that token alone.  A path is made again of its steps: a normal one is not a
single step that stands for itself, so that `Node.ofSteps` keeps it.
-/

namespace PipeQuery.Expr

open Ahead (Leads)

variable {n : Nat} {x : Node}

/-! ## Single operands -/

theorem Node.readable_of_primary (hrank : x.rank = 8)
    (h : ∀ {s r : Ahead}, s.Spells n x.words r → Reads n 8 x s r) : x.Readable n := by
  refine readable_of_reads (fun level => ?_) fun hwords _ _ => ?_
  · rw [hrank]
    exact ne_level_rank (Or.inr (by decide)) level
  · rw [hrank]
    exact h hwords

/-- An operand of one token. -/
theorem readable_token {w : Word} (hrank : x.rank = 8) (hwords : x.words = [w])
    (hread : ∀ {source rest : List Char} {t : Behind (.token w.read source rest)},
      Ahead.behind n w.read source rest = .ok t →
        primary n (.token w.read source rest) = .ok (x, t)) : x.Readable n := by
  refine Node.readable_of_primary hrank fun h => ?_
  rw [hwords] at h
  obtain ⟨source, rest, rfl, r, hr, hbehind, h⟩ := Leads.uncons h
  cases h
  exact ⟨hr, x, hread hbehind, rfl⟩

theorem readable_string (text : String) : (Node.string text).Readable n := by
  refine readable_token (w := .token (.string text)) rfl (by rw [Node.words]) fun h => ?_
  simp only [Word.read] at h ⊢
  rw [primary, h]
  rfl

/-- A word that stands for a node reads as that node. -/
theorem readable_word {w : Word} {name : String} (hrank : x.rank = 8) (hwords : x.words = [w])
    (hw : w.read = .name name) (hname : nameNode name = x) : x.Readable n := by
  refine Node.readable_of_primary hrank fun {s r} h => ?_
  rw [hwords] at h
  have h : Leads n [.name name] s r := by
    rw [← hw]
    exact h
  obtain ⟨source, rest, rfl, s₁, h₁, hbehind, h⟩ := Leads.uncons h
  cases h
  refine ⟨h₁, x, ?_, rfl⟩
  show primary n (.token (.name name) source rest) = _
  rw [primary, hbehind, hname]
  rfl

theorem nameNode_eq_name {field : String} (h : field ∉ ["true", "false", "null"]) :
    nameNode field = .name field := by
  unfold nameNode
  split <;> simp_all

theorem readable_wildcard : Node.wildcard.Readable n := by
  refine readable_token (w := .token .star) rfl (by rw [Node.words]) fun h => ?_
  simp only [Word.read] at h ⊢
  rw [primary, h]
  rfl

theorem readable_context : Node.context.Readable n := by
  refine readable_token (w := .token (.variable "")) rfl (by rw [Node.words]) fun h => ?_
  simp only [Word.read] at h ⊢
  rw [primary]
  simp only [h, bind, Except.bind, if_true]
  rfl

theorem readable_root : Node.root.Readable n := by
  refine readable_token (w := .token (.variable "$")) rfl (by rw [Node.words]) fun h => ?_
  have hne : "$" ≠ "" := by decide
  simp only [Word.read] at h ⊢
  rw [primary]
  simp only [h, bind, Except.bind, hne, if_false, if_true]
  rfl

theorem readable_magnitude (m : Magnitude) : (Node.number (.finite false m)).Readable n := by
  refine readable_token (w := .token (.number (.finite false m))) rfl ?_ fun h => ?_
  · simp [Node.words, numberWords]
  · simp only [Word.read] at h ⊢
    rw [primary, h]
    rfl

/-- A negative number is read as its magnitude with the sign turned. -/
theorem readable_number (negative : Bool) (m : Magnitude) :
    (Node.number (.finite negative m)).Readable n := by
  cases negative with
  | false => exact readable_magnitude m
  | true =>
    refine Node.readable_of_reads (Node.ne_level_rank (Or.inr (Nat.le_refl 6)))
      fun {s r} h hstop _ => ?_
    rw [Node.words, numberWords] at h
    have hstop : Stops 6 r.head? := hstop
    have hread : ∀ {s : Ahead}, s.Spells n [.token (.number (.finite false m))] r →
        Reads n 6 (.number (.finite false m)) s r := by
      intro s h
      have hwords : s.Spells n (Node.number (.finite false m)).words r := by
        simpa [Node.words, numberWords] using h
      have hown : Reads n 8 (.number (.finite false m)) s r :=
        (readable_magnitude m).reads hwords (hstop.mono (by simp [Node.rank]))
          (by simp [Node.endsOpen])
      exact hown.of_le (by decide) (Nat.le_refl 8) hstop (by simp [Node.isSelector])
    obtain ⟨h', y, position, hunary, hy⟩ := reads_minus h hread
    rw [Node.unplaced] at hy
    obtain rfl := Node.eq_of_isLeaf rfl hy
    exact ⟨h', _, hunary, rfl⟩

/-! ## Operands with parts -/

theorem readable_array {xs : List Node} (hxs : ∀ x ∈ xs, x.Operand n) :
    (Node.array xs).Readable n := by
  refine Node.readable_of_primary rfl fun h => ?_
  rw [Node.words] at h
  obtain ⟨source, rest, rfl, s₁, h₁, hbehind, h⟩ := Leads.uncons (t := .openBracket) h
  obtain ⟨h₂, ys, hitems, hys⟩ :=
    items_of_spells .closeBracket rfl .closeBracket .commaOrCloseBracket hxs h
  refine ⟨by omega, .array ys, ?_, ?_⟩
  · show primary n (.token .openBracket source rest) = _
    rw [primary]
    simp only [hbehind, hitems, bind, Except.bind]
    rfl
  · rw [Node.unplaced, Node.unplaced, hys]

/-- Keys and values behind an opening brace are an object. -/
theorem primary_of_pairs {s s₁ r : Ahead} {h₁ : r.size < s₁.size} {ys : List (Node × Node)}
    (hopen : Leads n [.openBrace] s s₁) (hpairs : pairs n s₁ = .ok (ys, ⟨r, h₁⟩)) :
    ∃ h, primary n s = .ok (.object ys, ⟨r, h⟩) := by
  obtain ⟨source, rest, rfl, s₂, h₂, hbehind, hopen⟩ := hopen.uncons
  cases hopen
  refine ⟨by omega, ?_⟩
  rw [primary]
  simp only [hbehind, hpairs, bind, Except.bind]
  rfl

theorem readable_object {xs : List (Node × Node)}
    (hxs : ∀ x ∈ xs, x.1.Operand n ∧ x.2.Operand n) : (Node.object xs).Readable n := by
  refine Node.readable_of_primary rfl fun h => ?_
  rw [Node.words] at h
  obtain ⟨s₁, hopen, h⟩ := Ahead.Spells.uncons h
  obtain ⟨h₂, ys, hpairs, hys⟩ := pairs_of_spells hxs h
  obtain ⟨h', hread⟩ := primary_of_pairs hopen hpairs
  refine ⟨h', .object ys, hread, ?_⟩
  rw [Node.unplaced, Node.unplaced, hys]

theorem readable_call {function : String} {xs : List Node} {position : Nat}
    (hempty : function ≠ "") (hroot : function ≠ "$") (hxs : ∀ x ∈ xs, x.Operand n) :
    (Node.call function xs position).Readable n := by
  refine Node.readable_of_primary rfl fun h => ?_
  rw [Node.words] at h
  obtain ⟨source, rest, rfl, s₁, h₁, hbehind, h⟩ := Leads.uncons (t := .variable function) h
  have hopen : s₁.startsWith .openParen = true := Ahead.startsWith_iff.2 (Leads.head? h)
  obtain ⟨s₂, h₂, hexpect, h⟩ := Ahead.expect_of_leads (t := .openParen) .openParen h
  obtain ⟨h₃, ys, hitems, hys⟩ :=
    items_of_spells .closeParen rfl .closeParen .commaOrCloseParen hxs h
  refine ⟨by omega, .call function ys (positionOf n source), ?_, ?_⟩
  · show primary n (.token (.variable function) source rest) = _
    rw [primary]
    simp only [hbehind, bind, Except.bind, hempty, hroot, if_false, hopen, if_true, hexpect, hitems]
    rfl
  · rw [Node.unplaced, Node.unplaced, hys]

/-! ## Paths -/

theorem unplacedItems_eq_nil {xs : List Node} (h : unplacedItems xs = []) : xs = [] := by
  cases xs with
  | nil => rfl
  | cons x rest =>
    rw [unplacedItems] at h
    cases h

/-- The path of read steps is the printed one, if no step of it stands for itself. -/
theorem Node.unplaced_ofSteps {first st : Step} {rest sts : List Step}
    (h : unplacedSteps (st :: sts) = unplacedSteps (first :: rest))
    (hplain : ∀ x, first :: rest = [.mk x [] false] → x.isSelector = true) :
    (ofSteps st sts).unplaced = (path (first :: rest)).unplaced := by
  have hkept : (path (st :: sts)).unplaced = (path (first :: rest)).unplaced := by
    rw [unplaced, unplaced, h]
  unfold ofSteps
  split
  · rename_i y
    obtain ⟨x, xs, keepArray⟩ := first
    cases rest with
    | cons second rest =>
      obtain ⟨x', xs', keepArray'⟩ := second
      simp [unplacedSteps] at h
    | nil =>
      simp only [unplacedSteps, List.cons.injEq, Step.mk.injEq, and_true] at h
      obtain ⟨hy, hxs, rfl⟩ := h
      rw [unplacedItems] at hxs
      obtain rfl := unplacedItems_eq_nil hxs.symm
      have hsel : y.isSelector = true := by
        rw [isSelector_congr hy]
        exact hplain x rfl
      rw [if_pos hsel]
      exact hkept
  · exact hkept

theorem readable_path {steps : List Step} (hne : steps ≠ [])
    (hplain : ∀ x, steps = [.mk x [] false] → x.isSelector = true)
    (hsteps : ∀ st ∈ steps, st.Readable n) : (Node.path steps).Readable n := by
  refine Node.readable_of_reads (Node.ne_level_rank (Or.inr (by simp [Node.rank])))
    fun {s r} h hstop _ => ?_
  obtain ⟨hdot, hbracket⟩ := hstop.path (Nat.le_refl 7)
  obtain ⟨first, rest, rfl⟩ := List.exists_cons_of_ne_nil hne
  obtain ⟨hfirst, hrest⟩ := List.forall_mem_cons.1 hsteps
  rw [Node.words] at h
  obtain ⟨s₁, h₁, st, h₂, sts, hstep, hafter, hsts⟩ :=
    steps_of_spells hfirst hrest h hdot hbracket
  refine ⟨by omega, Node.ofSteps st sts, ?_, Node.unplaced_ofSteps hsts hplain⟩
  show path n s = _
  rw [path, hstep]
  simp only [bind, Except.bind, hafter]
  rfl

end PipeQuery.Expr
