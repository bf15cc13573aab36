import PipeQuery.Expr.Eval
import PipeQuery.Proofs.Value.InRange

/-!
# What functions and operators make of finite numbers

A result that is not finite is an error of arithmetic (`binary_fits`), and `$number` takes no text
that spells one (`numberOf_isFinite`).  Of the functions only `$sum` and `$average` may give a
number out of range for finite ones, since they do not look at what they have made.
`Function.Overflows` says when this happens, and also when a function would have to count more
things than have an index; apart from that all functions give values in range (`apply_fits`).

`Ensures Q x` says that `x` gives what `Q` holds for, if it gives anything.
-/

namespace PipeQuery.Expr

/-! ## Results -/

section

variable {ε ε' α β : Type} {Q : α → Prop} {R : β → Prop} {x : Except ε α}

/-- The result is as `Q` says, if there is one. -/
def Ensures (Q : α → Prop) (x : Except ε α) : Prop := ∀ a, x = .ok a → Q a

namespace Ensures

theorem ok {a : α} (h : Q a) : Ensures Q (.ok a : Except ε α) := by
  rintro _ ⟨⟩
  exact h

theorem error {e : ε} : Ensures Q (.error e) := fun _ h => nomatch h

theorem bind {f : α → Except ε β} (h : ∀ a, x = .ok a → Ensures R (f a)) :
    Ensures R (x >>= f) := by
  intro b hb
  obtain ⟨a, ha, hf⟩ := bind_eq_ok_iff.1 hb
  exact h a ha b hf

theorem map {f : α → β} (h : ∀ a, x = .ok a → R (f a)) : Ensures R (x.map f) := by
  cases x with
  | error e => exact error
  | ok a => exact ok (h a rfl)

theorem mapError {f : ε → ε'} (h : Ensures Q x) : Ensures Q (x.mapError f) := by
  cases x with
  | error e => exact error
  | ok a => exact ok (h a rfl)

theorem mapM {f : α → Except ε β} {xs : List α} (h : ∀ a ∈ xs, Ensures R (f a)) :
    Ensures (fun bs => ∀ b ∈ bs, R b) (xs.mapM f) := by
  induction xs with
  | nil => exact ok (List.forall_mem_nil _)
  | cons a xs ih =>
    obtain ⟨ha, hxs⟩ := List.forall_mem_cons.1 h
    rw [List.mapM_cons]
    exact bind fun b hb => bind fun bs hbs =>
      ok (List.forall_mem_cons.2 ⟨ha b hb, ih hxs bs hbs⟩)

end Ensures

theorem exists_of_any_toOption {p : α → Bool} (h : x.toOption.any p = true) :
    ∃ a, x = .ok a ∧ p a = true := by
  cases x with
  | error e => cases h
  | ok a => exact ⟨a, rfl, h⟩

end

/-! ## Values that may be missing -/

/-- The value is in range, if there is one. -/
def Fits (found : Option Value) : Prop := ∀ w ∈ found, w.InRange

variable {root v : Value}

theorem fits_none : Fits none := fun _ h => nomatch h

theorem fits_some (h : v.InRange) : Fits (some v) := by
  rintro _ ⟨⟩
  exact h

theorem fits_map {α : Type} {f : α → Value} {found : Option α} (h : ∀ a ∈ found, (f a).InRange) :
    Fits (found.map f) := by
  cases found with
  | none => exact fits_none
  | some a => exact fits_some (h a rfl)

/-! ## Arguments -/

/-- What a call works on is in range. -/
structure Arguments.InRange (args : Arguments) : Prop where
  /-- The context is in range. -/
  context : args.context.InRange
  /-- The values of the arguments are. -/
  values : ∀ found, .value found ∈ args.values → Fits found

variable {args : Arguments}

theorem Arguments.InRange.value (h : args.InRange) (i : Nat) : Ensures Fits (args.value i) := by
  unfold Arguments.value
  split
  · exact .ok (fits_some h.context)
  · split
    · exact .ok fits_none
    · rename_i found hfound
      exact .ok (h.values found (List.mem_of_getElem? hfound))
    · exact .error

theorem Arguments.InRange.items (h : args.InRange) (i : Nat) :
    Ensures (fun items => ∀ x ∈ items, x.InRange) (args.items i) := by
  refine .bind fun found hfound => ?_
  have hfits := h.value i found hfound
  split
  · exact .ok (List.forall_mem_nil _)
  · exact .ok (hfits _ rfl).of_items
  · exact .ok (List.forall_mem_singleton.2 (hfits _ rfl))

theorem numbersOf_isFinite {items : List Value} (h : ∀ x ∈ items, x.InRange) :
    Ensures (fun ns => ∀ n ∈ ns, n.isFinite = true) (Arguments.numbersOf items) := by
  induction items with
  | nil => exact .ok (List.forall_mem_nil _)
  | cons v rest ih =>
    obtain ⟨hv, hrest⟩ := List.forall_mem_cons.1 h
    cases v with
    | number n => exact .map fun ns hns => List.forall_mem_cons.2 ⟨hv.isFinite, ih hrest ns hns⟩
    | _ => exact .error

theorem Arguments.InRange.numbers (h : args.InRange) (i : Nat) :
    Ensures (fun ns => ∀ n ∈ ns, n.isFinite = true) (args.numbers i) :=
  .bind fun items hitems => numbersOf_isFinite (h.items i items hitems)

/-! ## Functions -/

/-- Whether what the function gives comes from numbers of its argument. -/
def Function.handsOn : Function → Bool
  | .sum | .max | .min | .average | .number | .distinct | .reverse => true
  | _ => false

/-- The function gives a number out of range for finite numbers, or would have to count more
things than have an index. -/
inductive Function.Overflows (args : Arguments) : Function → Prop
  | sum {ns : List Number} : args.numbers 0 = .ok ns → (∀ n ∈ ns, n.isFinite = true) →
    (sumNumbers ns).isFinite = false → Overflows args .sum
  | average {ns : List Number} {n : Number} : args.numbers 0 = .ok ns →
    (∀ n ∈ ns, n.isFinite = true) → meanNumbers? ns = some n → n.isFinite = false →
    Overflows args .average
  | count {items : List Value} : args.items 0 = .ok items → indexLimit ≤ items.length →
    Overflows args .count
  | length {s : String} : args.string 0 = .ok (some s) → indexLimit ≤ s.length →
    Overflows args .length

/-- A text that spells a number out of range spells none. -/
theorem numberOf_isFinite (h : v.InRange) : Ensures (fun n => n.isFinite = true) (numberOf v) := by
  unfold numberOf
  split
  · exact .ok h.isFinite
  · split
    · exact .ok (isFinite_ofNat (by decide))
    · exact .ok rfl
  · split
    · split
      next hfinite => exact .ok hfinite
      next => exact .error
    · exact .error
  · exact .error

theorem inRange_arrayOf (parts : List (List Char)) : (arrayOf parts).InRange := by
  refine .array fun x hx => ?_
  obtain ⟨cs, -, rfl⟩ := List.mem_map.1 hx
  exact .string _

theorem inRange_keysOf (items : List Value) : (Value.array (keysOf items)).InRange := by
  refine .array fun x hx => ?_
  obtain ⟨key, -, rfl⟩ := List.mem_map.1 hx
  exact .string key

/-- A function that does not overflow gives a value in range, if what it hands on is. -/
theorem apply_fits {f : Function} (hargs : f.handsOn = true → args.InRange)
    (h : ¬ f.Overflows args) : Ensures Fits (f.apply args) := by
  unfold Function.apply
  split
  · exact .error
  cases f with
  | count =>
    refine .bind fun items hitems => .ok (fits_some (.number (isFinite_ofNat ?_)))
    exact Nat.lt_of_not_le fun hmany => h (.count hitems hmany)
  | sum =>
    refine .bind fun ns hns => .ok (fits_some (.number ?_))
    have hfinite := (hargs rfl).numbers 0 ns hns
    exact eq_true_of_ne_false fun hsum => h (.sum hns hfinite hsum)
  | max =>
    refine .bind fun ns hns => .ok (fits_map fun n hn => .number ?_)
    exact isFinite_maxNumbers? ((hargs rfl).numbers 0 ns hns) hn
  | min =>
    refine .bind fun ns hns => .ok (fits_map fun n hn => .number ?_)
    exact isFinite_minNumbers? ((hargs rfl).numbers 0 ns hns) hn
  | average =>
    refine .bind fun ns hns => .ok (fits_map fun n hn => .number ?_)
    have hfinite := (hargs rfl).numbers 0 ns hns
    exact eq_true_of_ne_false fun hmean => h (.average hns hfinite hn hmean)
  | number =>
    refine .bind fun found hfound => ?_
    have hfits := (hargs rfl).value 0 found hfound
    split
    · exact .ok fits_none
    · exact .bind fun n hn => .ok (fits_some (.number (numberOf_isFinite (hfits _ rfl) n hn)))
  | length =>
    refine .bind fun found hfound => .ok (fits_map fun s hs => .number (isFinite_ofNat ?_))
    cases hs
    exact Nat.lt_of_not_le fun hmany => h (.length hfound hmany)
  | string | uppercase | lowercase | trim =>
    exact .bind fun _ _ => .ok (fits_map fun _ _ => .string _)
  | substring =>
    refine .bind fun found _ => ?_
    split
    · exact .ok fits_none
    · exact .bind fun _ _ => .bind fun _ _ => .bind fun _ _ => .ok (fits_some (.string _))
  | contains =>
    refine .bind fun found _ => ?_
    split
    · exact .ok fits_none
    · exact .bind fun _ _ => .ok (fits_some (.boolean _))
  | split =>
    refine .bind fun found _ => ?_
    split
    · exact .ok fits_none
    · refine .bind fun _ _ => .bind fun limit _ => ?_
      cases limit with
      | none => exact .ok (fits_some (inRange_arrayOf _))
      | some n => exact .ok (fits_some (inRange_arrayOf _))
  | join =>
    exact .bind fun _ _ => .bind fun _ _ => .bind fun _ _ => .ok (fits_some (.string _))
  | replace =>
    refine .bind fun found _ => ?_
    split
    · exact .ok fits_none
    · exact .bind fun _ _ => .bind fun _ _ => .bind fun _ _ => .bind fun _ _ =>
        .bind fun _ _ => .ok (fits_some (.string _))
  | keys =>
    refine .bind fun items _ => ?_
    dsimp only
    split
    · exact .ok fits_none
    · exact .ok (fits_some (inRange_keysOf items))
  | «exists» => exact .bind fun _ _ => .ok (fits_some (.boolean _))
  | not | boolean => exact .bind fun _ _ => .ok (fits_map fun _ _ => .boolean _)
  | distinct =>
    refine .bind fun found hfound => .ok (fits_map fun w hw => ?_)
    have hw := (hargs rfl).value 0 found hfound w hw
    split
    · exact .array fun x hx => hw.of_items x (Value.mem_of_mem_distinctFrom hx)
    · exact hw
  | reverse =>
    refine .bind fun found hfound => .ok (fits_map fun w hw => ?_)
    have hw := (hargs rfl).value 0 found hfound w hw
    split
    · exact .array fun x hx => hw.of_items x (List.mem_reverse.1 hx)
    · exact hw

/-! ## Operators -/

theorem negatedValue_fits {found : Option Value} (h : Fits found) (position : Nat) :
    Ensures Fits (negatedValue found position) := by
  unfold negatedValue
  split
  · exact .ok fits_none
  · rename_i n
    exact .ok (fits_some (.number ((Number.isFinite_neg n).trans (h _ rfl).isFinite)))
  · exact .error

/-- What an operator gives is in range whatever it is given: arithmetic says so if its result is
not. -/
theorem binary_fits (op : BinaryOp) (a b : Option Value) (position : Nat) :
    Ensures Fits (op.apply a b position) := by
  unfold BinaryOp.apply
  split
  case h_1 => exact .ok (fits_some (.string _))
  case h_7 =>
    split
    · split
      · unfold compared
        split
        · exact .ok (fits_some (.boolean _))
        · exact .ok (fits_some (.boolean _))
        · exact .error
      · unfold computed
        split
        · dsimp only
          split
          next hfinite => exact .ok (fits_some (.number hfinite))
          next => exact .error
        · exact .error
      · exact .ok fits_none
    · exact .ok fits_none
  all_goals exact .ok (fits_some (.boolean _))

end PipeQuery.Expr
