import Mathlib.Logic.Relation
import PipeQuery.Expr.Evaluate
import PipeQuery.Proofs.Expr.FunctionRange
import PipeQuery.Proofs.Expr.RoundTrip

/-!
# Where numbers out of range come from

A node gives a value in range wherever the values it is made of are (`eval_fits`), but for two
kinds: literals, which may be too large themselves, and calls of functions that do not look at
what they have made of finite numbers (`Unchecked`).

`MadeOf` says which values these are: items, what keys hold, the branch that is taken, the
arguments of functions that hand numbers on, and what a step gives where the steps before it lead.
Predicates, conditions and the operands of operators are not among them.  So a value out of range
is made, through any number of nodes, of one that comes up at such a node in a context in range
(`evaluate_inRange_or_spills`).
-/

namespace PipeQuery.Expr

variable {root v : Value}

/-! ## Lists of nodes -/

/-- A predicate keeps some of the items. -/
theorem filterFrom_subset (test : Value → Except Error (Option Value)) (length i : Nat)
    (items : List Value) : Ensures (· ⊆ items) (filterFrom test length i items) := by
  induction items generalizing i with
  | nil => exact .ok (List.Subset.refl [])
  | cons v rest ih =>
    rw [filterFrom]
    refine .bind fun kept _ => .bind fun others hothers => .ok ?_
    have hrest := ih (i + 1) others hothers
    split
    · exact List.cons_subset_cons v hrest
    · exact List.subset_cons_of_subset v hrest

theorem evalPredicates_subset (root : Value) (predicates : List Node) (items : List Value) :
    Ensures (· ⊆ items) (evalPredicates root predicates items) := by
  induction predicates generalizing items with
  | nil =>
    rw [evalPredicates]
    exact .ok (List.Subset.refl items)
  | cons x rest ih =>
    rw [evalPredicates]
    exact .bind fun kept hkept left hleft =>
      List.Subset.trans (ih kept left hleft) (filterFrom_subset _ _ _ _ kept hkept)

theorem selector_inRange {y : Node} {select : Value → List Value} (hy : y.selector? = some select)
    (h : v.InRange) : ∀ x ∈ select v, x.InRange := by
  cases y with
  | name field =>
    cases hy
    exact h.select field
  | wildcard =>
    cases hy
    exact h.selectAll
  | _ => cases hy

/-- Steps lead from items in range to items in range, if each of their nodes does so where the
steps before it lead. -/
theorem evalSteps_inRange {steps : List Step} {items : List Value} {keepArray : Bool}
    (hitems : ∀ x ∈ items, x.InRange)
    (h : ∀ before y predicates keep after found kept,
      steps = before ++ .mk y predicates keep :: after → y.selector? = none →
      evalSteps root before items keepArray = .ok (found, kept) →
      ∀ w ∈ found, w.InRange → Ensures Fits (eval root y w)) :
    Ensures (fun r => ∀ x ∈ r.1, x.InRange) (evalSteps root steps items keepArray) := by
  induction steps generalizing items keepArray with
  | nil =>
    rw [evalSteps]
    exact .ok hitems
  | cons st rest ih =>
    obtain ⟨y, predicates, keep⟩ := st
    rw [evalSteps]
    refine .bind fun next hnext => ih ?_ fun before z ps k after found kept hrest hz hfound => ?_
    · have hfound : ∀ xs ∈ next, ∀ x ∈ xs, x.InRange := by
        refine Ensures.mapM (fun item hitem => ?_) next hnext
        cases hy : y.selector? with
        | some select =>
          exact fun left hleft x hx => selector_inRange hy (hitems item hitem) x
            (evalPredicates_subset root predicates _ left hleft hx)
        | none =>
          refine .bind fun found hfound => fun left hleft x hx => ?_
          obtain ⟨w, hw, rfl⟩ := map_eq_ok_iff.1 hfound
          have hfits := h [] y predicates keep rest items keepArray rfl hy (by rw [evalSteps])
            item hitem (hitems item hitem) w hw
          exact Value.inRange_spread_getD hfits x
            (evalPredicates_subset root predicates _ left hleft hx)
      intro x hx
      obtain ⟨xs, hxs, hx⟩ := List.mem_flatten.1 hx
      exact hfound xs hxs x hx
    · refine h (.mk y predicates keep :: before) z ps k after found kept ?_ hz ?_
      · rw [hrest]
        rfl
      · rw [evalSteps, hnext]
        exact hfound

theorem evalItems_inRange {nodes : List Node} (h : ∀ x ∈ nodes, Ensures Fits (eval root x v)) :
    Ensures (fun items => ∀ x ∈ items, x.InRange) (evalItems root nodes v) := by
  induction nodes with
  | nil =>
    rw [evalItems]
    exact .ok (List.forall_mem_nil _)
  | cons x rest ih =>
    obtain ⟨hx, hrest⟩ := List.forall_mem_cons.1 h
    rw [evalItems]
    refine .bind fun found hfound => .bind fun others hothers => .ok ?_
    have hfits := hx found hfound
    refine List.forall_mem_append.2 ⟨?_, ih hrest others hothers⟩
    split
    · exact List.forall_mem_nil _
    · split
      · exact (hfits _ rfl).spread
      · exact List.forall_mem_singleton.2 (hfits _ rfl)

theorem evalPairs_inRange {pairs : List (Node × Node)} {entries : Entries Value}
    (hentries : ∀ e ∈ entries, e.2.InRange)
    (h : ∀ x ∈ pairs, Ensures Fits (eval root x.2 v)) :
    Ensures (fun entries => ∀ e ∈ entries, e.2.InRange) (evalPairs root pairs v entries) := by
  induction pairs generalizing entries with
  | nil =>
    rw [evalPairs]
    exact .ok hentries
  | cons pair rest ih =>
    obtain ⟨key, value⟩ := pair
    obtain ⟨hvalue, hrest⟩ := List.forall_mem_cons.1 h
    rw [evalPairs]
    refine .bind fun found _ => ?_
    split
    · refine .bind fun w hw => ?_
      cases w with
      | some w => exact ih (Value.inRange_insert hentries (hvalue _ hw w rfl) _) hrest
      | none => exact ih hentries hrest
    · exact .error

theorem evalArguments_fits {nodes : List Node} (h : ∀ x ∈ nodes, Ensures Fits (eval root x v)) :
    Ensures (fun arguments => ∀ found, .value found ∈ arguments → Fits found)
      (evalArguments root nodes v) := by
  induction nodes with
  | nil =>
    rw [evalArguments]
    exact .ok fun _ hfound => absurd hfound List.not_mem_nil
  | cons x rest ih =>
    obtain ⟨hx, hrest⟩ := List.forall_mem_cons.1 h
    rw [evalArguments]
    have hcons : ∀ argument : Argument, (∀ found, argument = .value found → Fits found) →
        Ensures (fun arguments => ∀ found, .value found ∈ arguments → Fits found)
          (evalArguments root rest v >>= fun others => .ok (argument :: others)) := by
      refine fun argument hargument => .bind fun others hothers => .ok fun found hfound => ?_
      rcases List.mem_cons.1 hfound with heq | hmem
      · exact hargument found heq.symm
      · exact ih hrest others hothers found hmem
    cases x.regex? with
    | some r =>
      refine .bind fun argument hargument => hcons argument fun found hfound => ?_
      rw [hfound] at hargument
      cases hargument
    | none =>
      refine .bind fun argument hargument => hcons argument fun found hfound => ?_
      obtain ⟨w, hw, rfl⟩ := map_eq_ok_iff.1 hargument
      cases hfound
      exact hx found hw

/-! ## Where numbers come from -/

/-- What the first node gives in its context is made of what the second one gives in its own.  The
contexts differ in a path only, where they are what the steps before lead to. -/
inductive MadeOf (root : Value) : Node × Value → Node × Value → Prop
  | item {nodes : List Node} {y : Node} {v : Value} :
    y ∈ nodes → MadeOf root (.array nodes, v) (y, v)
  | held {pairs : List (Node × Node)} {key y : Node} {v : Value} :
    (key, y) ∈ pairs → MadeOf root (.object pairs, v) (y, v)
  | operand {y : Node} {position : Nat} {v : Value} : MadeOf root (.negate y position, v) (y, v)
  | yes {test y : Node} {no : Option Node} {found : Option Value} {v : Value} :
    eval root test v = .ok found → Value.present found = true →
    MadeOf root (.condition test y no, v) (y, v)
  | no {test yes y : Node} {found : Option Value} {v : Value} :
    eval root test v = .ok found → Value.present found = false →
    MadeOf root (.condition test yes (some y), v) (y, v)
  | argument {name : String} {f : Function} {nodes : List Node} {position : Nat} {y : Node}
    {v : Value} : Function.ofName? name = some f → f.handsOn = true → y ∈ nodes →
    MadeOf root (.call name nodes position, v) (y, v)
  | step {before after : List Step} {y : Node} {predicates : List Node} {keep kept : Bool}
    {found : List Value} {v w : Value} :
    evalSteps root before [v] false = .ok (found, kept) → w ∈ found → y.selector? = none →
    MadeOf root (.path (before ++ .mk y predicates keep :: after), v) (y, w)

/-- A node that takes a number for what it is: a literal, or a call of a function that overflows. -/
inductive Unchecked (root v : Value) : Node → Prop
  | literal (n : Number) : Unchecked root v (.number n)
  | call {name : String} {f : Function} {nodes : List Node} {position : Nat}
    {arguments : List Argument} : Function.ofName? name = some f →
    evalArguments root nodes v = .ok arguments → f.Overflows ⟨arguments, v⟩ →
    Unchecked root v (.call name nodes position)

/-- In a context in range an unchecked node gives a value that is not, and no error. -/
structure Unreported (root v : Value) (x : Node) : Prop where
  /-- The context is in range. -/
  context : v.InRange
  /-- The value is not. -/
  gives : ∃ w, eval root x v = .ok (some w) ∧ ¬ w.InRange
  /-- The node does not look at it. -/
  unchecked : Unchecked root v x

/-- Through any number of nodes, what the node gives in the context `v` is made of a value out of
range that comes up unreported. -/
def Spills (root v : Value) (x : Node) : Prop :=
  ∃ y w, Relation.ReflTransGen (MadeOf root) (x, v) (y, w) ∧ Unreported root w y

variable {w : Value} {x y : Node}

theorem Spills.of_madeOf (h : MadeOf root (x, v) (y, w)) (hy : Spills root w y) :
    Spills root v x := by
  obtain ⟨z, u, hmade, hz⟩ := hy
  exact ⟨z, u, hmade.head h, hz⟩

/-- An unchecked node gives a value in range, unless it spills. -/
theorem Unchecked.inRange (h : Unchecked root v x) (hv : v.InRange) (hx : ¬ Spills root v x)
    (hw : eval root x v = .ok (some w)) : w.InRange :=
  Decidable.byContradiction fun hout => hx ⟨x, v, .refl, hv, ⟨w, hw, hout⟩, h⟩

/-! ## Trees -/

theorem evalPath_inRange {steps : List Step} (hv : v.InRange) (hx : ¬ Spills root v (.path steps))
    (h : ∀ y predicates keep w, .mk y predicates keep ∈ steps → w.InRange → ¬ Spills root w y →
      Ensures Fits (eval root y w)) :
    Ensures (fun r => ∀ x ∈ r.1, x.InRange) (evalSteps root steps [v] false) := by
  refine evalSteps_inRange (List.forall_mem_singleton.2 hv) ?_
  rintro before y predicates keep after found kept rfl hy hfound w hw hin
  have hmem : Step.mk y predicates keep ∈ before ++ Step.mk y predicates keep :: after :=
    List.mem_append_right before List.mem_cons_self
  exact h y predicates keep w hmem hin fun hspills => hx (hspills.of_madeOf (.step hfound hw hy))

/-- A node gives a value in range, unless one spills. -/
theorem eval_fits {p : Place → Node → Prop} {place : Place} (h : Everywhere p place x)
    (hroot : root.InRange) (hv : v.InRange) (hx : ¬ Spills root v x) :
    Ensures Fits (eval root x v) := by
  induction h generalizing v with
  | @mk place x _ _ ih =>
    -- what the node is made of does not spill either
    have hmadeOf : ∀ {y w}, MadeOf root (x, v) (y, w) → ¬ Spills root w y :=
      fun hmade hspills => hx (hspills.of_madeOf hmade)
    cases x with
    | number n =>
      have hn : eval root (.number n) v = .ok (some (.number n)) := by rw [eval]
      rw [hn]
      exact .ok (fits_some ((Unchecked.literal n).inRange hv hx hn))
    | string s =>
      rw [eval]
      exact .ok (fits_some (.string s))
    | boolean b =>
      rw [eval]
      exact .ok (fits_some (.boolean b))
    | null =>
      rw [eval]
      exact .ok (fits_some .null)
    | regex r =>
      rw [eval]
      exact .error
    | name field =>
      rw [eval]
      exact .ok (Value.inRange_collapse (hv.select field))
    | wildcard =>
      rw [eval]
      exact .ok (Value.inRange_collapse hv.selectAll)
    | context =>
      rw [eval]
      exact .ok (fits_some hv)
    | root =>
      rw [eval]
      exact .ok (fits_some hroot)
    | path steps =>
      rw [eval]
      refine .bind fun r hr => ?_
      have hitems := evalPath_inRange hv hx (fun y predicates keep w hst hw hy =>
        ih (.step, y) (Node.step_mem_parts hst) hw hy) r hr
      dsimp only
      split
      · exact .ok (fits_some (.array hitems))
      · exact .ok (Value.inRange_collapse hitems)
    | array nodes =>
      rw [eval]
      refine .bind fun items hitems => .ok (fits_some (.array ?_))
      exact evalItems_inRange (fun y hy => ih _ (Node.item_mem_parts hy) hv (hmadeOf (.item hy)))
        items hitems
    | object pairs =>
      rw [eval]
      refine .bind fun entries hentries => .ok (fits_some (.object ?_))
      exact evalPairs_inRange (List.forall_mem_nil _)
        (fun y hy => ih _ (Node.value_mem_parts hy) hv (hmadeOf (.held hy))) entries hentries
    | negate operand position =>
      rw [eval]
      refine .bind fun found hfound => negatedValue_fits ?_ position
      exact ih (.operand, operand) (by simp [Node.parts]) hv (hmadeOf .operand) found hfound
    | binary op left right position =>
      rw [eval]
      refine .bind fun a _ => ?_
      split
      · exact .ok (fits_some (.boolean _))
      · exact .bind fun b _ => binary_fits op a b position
    | condition test yes no =>
      cases no with
      | none =>
        rw [eval]
        refine .bind fun found hfound => ?_
        split
        next hpresent =>
          exact ih (.operand, yes) (by simp [Node.parts]) hv (hmadeOf (.yes hfound hpresent))
        next => exact .ok fits_none
      | some no =>
        rw [eval]
        refine .bind fun found hfound => ?_
        split
        next hpresent =>
          exact ih (.operand, yes) (by simp [Node.parts]) hv (hmadeOf (.yes hfound hpresent))
        next habsent =>
          exact ih (.operand, no) (by simp [Node.parts]) hv
            (hmadeOf (.no hfound (Bool.eq_false_iff.2 habsent)))
    | call name nodes position =>
      intro found hfound
      have hcall := hfound
      rw [eval] at hfound
      obtain ⟨arguments, harguments, hfound⟩ := bind_eq_ok_iff.1 hfound
      unfold callFunction at hfound
      split at hfound
      · cases hfound
      · rename_i f hf
        have hargs : f.handsOn = true → Arguments.InRange ⟨arguments, v⟩ := fun hon =>
          ⟨hv, evalArguments_fits (fun y hy =>
            ih _ (Node.argument_mem_parts hy) hv (hmadeOf (.argument hf hon hy)))
            arguments harguments⟩
        by_cases hoverflows : f.Overflows ⟨arguments, v⟩
        · rintro w rfl
          exact (Unchecked.call hf harguments hoverflows).inRange hv hx hcall
        · exact (apply_fits hargs hoverflows).mapError found hfound

theorem evalTree_inRange {p : Place → Node → Prop} {place : Place} (h : Everywhere p place x)
    (hv : v.InRange) (hx : ¬ Spills v v x) :
    Ensures (fun r => r.toValue.InRange) (evalTree x v) := by
  cases x with
  | path steps =>
    rw [evalTree]
    refine .bind fun r hr => ?_
    have hitems := evalPath_inRange hv hx (fun y predicates keep w hst hw hy =>
      eval_fits (h.parts _ (Node.step_mem_parts hst)) hv hw hy) r hr
    obtain ⟨items, keep⟩ := r
    dsimp only
    split
    · exact .ok (.array hitems)
    · refine .ok ?_
      cases items with
      | nil => exact .null
      | cons w rest => exact hitems w List.mem_cons_self
  | _ =>
    rw [evalTree]
    · refine .bind fun found hfound => .ok ?_
      have hfits := eval_fits h hv hv hx found hfound
      cases found with
      | none => exact .null
      | some w => exact hfits w rfl
    · simp

/-- On an input in range an expression gives a value in range, unless that value is made of a
number that is too large and that nothing reports: a literal, or the sum or the mean of finite
numbers.  Arithmetic, `$number` and all other functions give finite numbers or fail. -/
theorem evaluate_inRange_or_spills {text : String} {r : Outcome} (hv : v.InRange)
    (h : evaluate text v = .ok r) :
    r.toValue.InRange ∨ ∃ x, parse text = .ok x ∧ Spills v v x := by
  obtain ⟨x, hx, htree⟩ := bind_eq_ok_iff.1 h
  by_cases hspills : Spills v v x
  · exact .inr ⟨x, hx, hspills⟩
  · exact .inl (evalTree_inRange (parse_normal hx) hv hspills r htree)

/-- The greatest of an array is out of range because of a sum in the array. -/
theorem evaluate_inRange_or_spills_sum :
    ∃ x, parse "$max([1, $sum($)])" = .ok x
      ∧ Spills (.array [.number (.ofNat (10 ^ 308)), .number (.ofNat (10 ^ 308))])
        (.array [.number (.ofNat (10 ^ 308)), .number (.ofNat (10 ^ 308))]) x := by
  have hv : (Value.array [.number (.ofNat (10 ^ 308)), .number (.ofNat (10 ^ 308))]).InRange := by
    decide +kernel
  have hany : (evaluate "$max([1, $sum($)])"
      (.array [.number (.ofNat (10 ^ 308)), .number (.ofNat (10 ^ 308))])).toOption.any
      (fun r => !decide r.toValue.InRange) = true := by decide +kernel
  obtain ⟨r, hr, hout⟩ := exists_of_any_toOption hany
  rcases evaluate_inRange_or_spills hv hr with hin | hspills
  · simp [hin] at hout
  · exact hspills

/-- A sum, a mean and a literal that are no finite numbers, from finite numbers or none. -/
theorem out_of_range_without_error :
    Value.null.InRange
      ∧ (∃ r, evaluate "$sum([1e308, 1e308])" .null = .ok r ∧ ¬ r.toValue.InRange)
      ∧ (∃ r, evaluate "$average([1e308, 1e308])" .null = .ok r ∧ ¬ r.toValue.InRange)
      ∧ ∃ r, evaluate "1e999" .null = .ok r ∧ ¬ r.toValue.InRange := by
  have hany : ∀ text ∈ ["$sum([1e308, 1e308])", "$average([1e308, 1e308])", "1e999"],
      (evaluate text .null).toOption.any (fun r => decide ¬ r.toValue.InRange) = true := by
    decide +kernel
  have hout : ∀ text ∈ ["$sum([1e308, 1e308])", "$average([1e308, 1e308])", "1e999"],
      ∃ r, evaluate text .null = .ok r ∧ ¬ r.toValue.InRange := by
    intro text htext
    obtain ⟨r, hr, hout⟩ := exists_of_any_toOption (hany text htext)
    exact ⟨r, hr, of_decide_eq_true hout⟩
  exact ⟨.null, hout _ (by simp), hout _ (by simp), hout _ (by simp)⟩

end PipeQuery.Expr
