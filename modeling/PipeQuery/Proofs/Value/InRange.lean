import PipeQuery.Expr.Eval
import PipeQuery.Proofs.Entries
import PipeQuery.Proofs.Expr.Grouping
import PipeQuery.Proofs.Number.Whole

/-!
# Values with finite numbers

A value is *in range* if every number inside it is finite.  It stays so when it is taken apart,
when fields are selected from it and when values in range are put together.

Of numbers themselves, the opposite and the extremes of finite ones are finite
(`isFinite_minNumbers?`, `isFinite_maxNumbers?`), and so is a count of anything that has an index
(`isFinite_ofNat`): rounding at most doubles.  Sums and means need not be.
-/

namespace PipeQuery

/-! ## Finite numbers -/

section

variable {a b n : Number} {ns : List Number}

/-- Rounding at most doubles. -/
theorem roundSteps_le (n : Nat) : roundSteps n 1 ≤ 2 * n := by
  cases n with
  | zero => decide
  | succ m =>
    have hround := roundHalfEven_le_succ (m + 1) (spacing (m + 1))
    have hgap : spacing (m + 1) ≤ m + 1 := spacing_le (Nat.succ_pos m)
    have hfloor := Nat.div_mul_le_self (m + 1) (spacing (m + 1))
    rw [roundSteps, Nat.div_one, Nat.one_mul]
    calc roundHalfEven (m + 1) (spacing (m + 1)) * spacing (m + 1)
        ≤ ((m + 1) / spacing (m + 1) + 1) * spacing (m + 1) := Nat.mul_le_mul_right _ hround
      _ = (m + 1) / spacing (m + 1) * spacing (m + 1) + spacing (m + 1) := Nat.succ_mul _ _
      _ ≤ 2 * (m + 1) := by omega

/-- What has an index can be counted. -/
theorem isFinite_ofNat {n : Nat} (h : n < indexLimit) : (Number.ofNat n).isFinite = true := by
  have hlimit : 2 * (indexLimit * stepsPerUnit) ≤ magnitudeLimit := by decide +kernel
  have hsteps : n * stepsPerUnit < indexLimit * stepsPerUnit :=
    Nat.mul_lt_mul_of_pos_right h stepsPerUnit_pos
  have hround := roundSteps_le (n * stepsPerUnit)
  rw [Number.ofNat, Number.ofQuotient, Magnitude.ofQuotient?, dif_pos (by omega)]
  rfl

theorem isFinite_min (ha : a.isFinite = true) (hb : b.isFinite = true) :
    (a.min b).isFinite = true := by
  unfold Number.min
  repeat' split
  all_goals assumption

theorem isFinite_max (ha : a.isFinite = true) (hb : b.isFinite = true) :
    (a.max b).isFinite = true := by
  unfold Number.max
  repeat' split
  all_goals assumption

/-- What an operation makes of finite numbers one after another is finite if it is of two. -/
theorem isFinite_foldl {op : Number → Number → Number}
    (hop : ∀ {a b : Number}, a.isFinite = true → b.isFinite = true → (op a b).isFinite = true)
    (ha : a.isFinite = true) (h : ∀ n ∈ ns, n.isFinite = true) :
    (ns.foldl op a).isFinite = true := by
  induction ns generalizing a with
  | nil => exact ha
  | cons n ns ih =>
    obtain ⟨hn, hns⟩ := List.forall_mem_cons.1 h
    exact ih (hop ha hn) hns

theorem isFinite_minNumbers? (h : ∀ n ∈ ns, n.isFinite = true) (hn : minNumbers? ns = some n) :
    n.isFinite = true := by
  cases ns with
  | nil => cases hn
  | cons a ns =>
    cases hn
    obtain ⟨ha, hns⟩ := List.forall_mem_cons.1 h
    exact isFinite_foldl isFinite_min ha hns

theorem isFinite_maxNumbers? (h : ∀ n ∈ ns, n.isFinite = true) (hn : maxNumbers? ns = some n) :
    n.isFinite = true := by
  cases ns with
  | nil => cases hn
  | cons a ns =>
    cases hn
    obtain ⟨ha, hns⟩ := List.forall_mem_cons.1 h
    exact isFinite_foldl isFinite_max ha hns

end

namespace Value

/-! ## Values in range -/

/-- Every number inside the value is finite. -/
inductive InRange : Value → Prop
  | null : InRange .null
  | boolean (b : Bool) : InRange (.boolean b)
  | number {n : Number} : n.isFinite = true → InRange (.number n)
  | string (s : String) : InRange (.string s)
  | array {items : List Value} : (∀ x ∈ items, InRange x) → InRange (.array items)
  | object {entries : List (String × Value)} :
    (∀ e ∈ entries, InRange e.2) → InRange (.object entries)

variable {v w : Value} {items : List Value} {entries : Entries Value}

theorem InRange.isFinite {n : Number} (h : (Value.number n).InRange) : n.isFinite = true := by
  cases h with
  | number hn => exact hn

theorem InRange.of_items (h : (Value.array items).InRange) : ∀ x ∈ items, x.InRange := by
  cases h with
  | array hitems => exact hitems

theorem InRange.of_entries (h : (Value.object entries).InRange) : ∀ e ∈ entries, e.2.InRange := by
  cases h with
  | object hentries => exact hentries

mutual

/-- Whether a value is in range. -/
def decideInRange : (v : Value) → Decidable v.InRange
  | .null => isTrue .null
  | .boolean b => isTrue (.boolean b)
  | .number _ => decidable_of_iff _ ⟨.number, InRange.isFinite⟩
  | .string s => isTrue (.string s)
  | .array items => @decidable_of_iff _ _ ⟨.array, InRange.of_items⟩ (decideItems items)
  | .object entries => @decidable_of_iff _ _ ⟨.object, InRange.of_entries⟩ (decideEntries entries)

/-- Whether items are in range. -/
def decideItems : (items : List Value) → Decidable (∀ x ∈ items, x.InRange)
  | [] => isTrue (List.forall_mem_nil _)
  | x :: xs => @decidable_of_iff _ _ List.forall_mem_cons.symm
    (@instDecidableAnd _ _ (decideInRange x) (decideItems xs))

/-- Whether held values are in range. -/
def decideEntries : (entries : List (String × Value)) → Decidable (∀ e ∈ entries, e.2.InRange)
  | [] => isTrue (List.forall_mem_nil _)
  | (_, x) :: rest => @decidable_of_iff _ _ List.forall_mem_cons.symm
    (@instDecidableAnd _ _ (decideInRange x) (decideEntries rest))

end

instance (v : Value) : Decidable v.InRange := decideInRange v

/-! ## Taking apart and selecting -/

theorem InRange.spread (h : v.InRange) : ∀ x ∈ v.spread, x.InRange := by
  cases v with
  | array items => exact h.of_items
  | _ => exact List.forall_mem_singleton.2 h

theorem inRange_spread_getD {found : Option Value} (h : ∀ w ∈ found, w.InRange) :
    ∀ x ∈ (found.map Value.spread).getD [], x.InRange := by
  cases found with
  | none => exact List.forall_mem_nil _
  | some w => exact (h w rfl).spread

theorem InRange.select (h : v.InRange) (field : String) : ∀ x ∈ v.select field, x.InRange := by
  induction h with
  | array _ ih =>
    rw [Value.select, selectItems_eq]
    intro x hx
    obtain ⟨item, hitem, hx⟩ := List.mem_flatMap.1 hx
    exact ih item hitem x hx
  | object hentries _ =>
    rw [Value.select]
    exact inRange_spread_getD fun w hw => hentries _ (Entries.mem_of_get? hw)
  | _ =>
    rw [Value.select]
    · exact List.forall_mem_nil _
    all_goals simp

theorem InRange.selectAll (h : v.InRange) : ∀ x ∈ v.selectAll, x.InRange := by
  induction h with
  | array _ ih =>
    rw [Value.selectAll, selectAllItems_eq]
    intro x hx
    obtain ⟨item, hitem, hx⟩ := List.mem_flatMap.1 hx
    exact ih item hitem x hx
  | object hentries _ =>
    rw [Value.selectAll]
    intro x hx
    obtain ⟨e, he, hx⟩ := List.mem_flatMap.1 hx
    exact (hentries e he).spread x hx
  | _ =>
    rw [Value.selectAll]
    · exact List.forall_mem_nil _
    all_goals simp

/-! ## Putting together -/

theorem inRange_collapse (h : ∀ x ∈ items, x.InRange) : ∀ w ∈ collapse items, w.InRange := by
  intro w hw
  match items with
  | [] => cases hw
  | [v] =>
    cases hw
    exact List.forall_mem_singleton.1 h
  | _ :: _ :: _ =>
    cases hw
    exact .array h

theorem inRange_insert (h : ∀ e ∈ entries, e.2.InRange) (hv : v.InRange) (key : String) :
    ∀ e ∈ entries.insert key v, e.2.InRange := by
  induction entries with
  | nil => exact List.forall_mem_singleton.2 hv
  | cons e rest ih =>
    obtain ⟨hold, hrest⟩ := List.forall_mem_cons.1 h
    rw [Entries.insert]
    split
    · exact List.forall_mem_cons.2 ⟨hv, hrest⟩
    · exact List.forall_mem_cons.2 ⟨hold, ih hrest⟩

theorem mem_of_mem_distinctFrom {index : Index} (h : v ∈ distinctFrom index items) :
    v ∈ items := by
  induction items generalizing index with
  | nil => exact h
  | cons x rest ih =>
    rw [distinctFrom] at h
    dsimp only at h
    split at h
    · rcases List.mem_cons.1 h with rfl | hrest
      · exact List.mem_cons_self
      · exact List.mem_cons_of_mem _ (ih hrest)
    · exact List.mem_cons_of_mem _ (ih h)

end Value

end PipeQuery
