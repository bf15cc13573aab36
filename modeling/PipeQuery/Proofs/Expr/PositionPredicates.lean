import PipeQuery.Expr.Eval
import PipeQuery.Proofs.Number.Whole

/-!
# Predicates that are positions

A number in a predicate means a position among the items, from the end if it is negative.
`place?` says which one, in integers.  The items are filtered one by one, and whether an item is
kept is decided with numbers that are made from the count of the items and from its position.
`selects_iff` says that these numbers agree with the integers as long as the items can be counted
without rounding.  A number far below zero is rounded when the count is added to it.  That does
not matter, since the sum stays below zero and so meets no position.

What is left is about lists.  `keptAt` are the items at certain positions, and `filterFrom_const`
says that a predicate with the same value for all items keeps such items.  One number leaves one
item at most (`keptAt_some`), and several leave what any of them means.  All of it comes together
in `numbers_select_by_position`.
-/

namespace PipeQuery.Expr

/-- The position that an integer means among `length` items; below zero it counts from the
end. -/
def place? (length : Nat) (n : Int) : Option Nat :=
  if 0 ≤ n ∧ n < length then some n.toNat
  else if -length ≤ n ∧ n < 0 then some (length + n).toNat
  else none

/-- The position that a number means: that of the integer below it. -/
def placeOf? (length : Nat) (k : Number) : Option Nat := k.floor?.bind (place? length)

/-- The items at the positions that are accepted, in their order. -/
def keptAt {α : Type} (accepts : Nat → Bool) (items : List α) : List α :=
  (items.zipIdx.filter fun p => accepts p.2).map Prod.fst

variable {α : Type} {length i : Nat} {n : Int} {k : Number} {root : Value} {items : List Value}

/-! ## Which position is meant -/

theorem place?_eq_some_iff (hi : i < length) :
    place? length n = some i ↔ n = i ∨ n < 0 ∧ length + n = i := by
  unfold place?
  split
  · rw [Option.some.injEq]
    omega
  · split
    · rw [Option.some.injEq]
      omega
    · simp only [reduceCtorEq, false_iff]
      omega

/-- A negative integer added to the count of the items meets the positions that it means. -/
theorem equals_add_iff (hlength : length < 2 ^ 53) (hi : i < length) (hn : n < 0)
    (hk : k.IsInt n) :
    ((Number.ofNat length).add k).equals (.ofNat i) = true ↔ (length : Int) + n = i := by
  have hplace : (Number.ofNat i).IsInt i := Number.isInt_ofNat (by omega)
  rw [Number.equals_add (Number.isInt_ofNat (Nat.le_of_lt hlength)) hk]
  by_cases hneg : (length : Int) + n < 0
  · refine iff_of_false (Number.not_equals_of_neg hneg hplace (Int.natCast_nonneg i)) ?_
    omega
  · exact (Number.isInt_ofInt (by omega)).equals_iff hplace

/-- The numbers that are compared keep an item exactly at the position that is meant. -/
theorem selects_iff (hlength : length < 2 ^ 53) (hi : i < length) :
    selects k length i = true ↔ placeOf? length k = some i := by
  have hplace : (Number.ofNat i).IsInt i := Number.isInt_ofNat (by omega)
  cases hk : k.floor? with
  | none =>
    have hnot := Number.not_equals_of_floor?_eq_none hk hplace
    rw [placeOf?, hk, selects, Number.floor_of_floor?_eq_none hk,
      Number.add_of_floor?_eq_none hk (Number.isInt_ofNat (Nat.le_of_lt hlength)), ite_self]
    exact iff_of_false hnot (Option.some_ne_none i).symm
  | some n =>
    have hfloor := Number.isInt_floor hk
    rw [placeOf?, hk, Option.bind_some, place?_eq_some_iff hi, selects]
    by_cases hn : n < 0
    · rw [if_pos (hfloor.less_zero.2 hn), equals_add_iff hlength hi hn hfloor]
      omega
    · rw [if_neg (mt hfloor.less_zero.1 hn), hfloor.equals_iff hplace]
      omega

/-! ## Items at positions -/

theorem keptAt_congr {f g : Nat → Bool} (h : ∀ i < items.length, f i = g i) :
    keptAt f items = keptAt g items := by
  unfold keptAt
  congr 1
  refine List.filter_congr fun p hp => h p.2 ?_
  have := List.snd_lt_of_mem_zipIdx hp
  omega

/-- One position leaves the item there, if there is one. -/
theorem zipIdx_filter_eq (xs : List α) (start place : Nat) :
    ((xs.zipIdx start).filter fun p => decide (start + place = p.2)).map Prod.fst
      = xs[place]?.toList := by
  induction xs generalizing start place with
  | nil => rfl
  | cons x xs ih =>
    rw [List.zipIdx_cons]
    cases place with
    | zero =>
      have hrest : (xs.zipIdx (start + 1)).filter (fun p => decide (start + 0 = p.2)) = [] := by
        rw [List.filter_eq_nil_iff]
        intro p hp
        have := List.le_snd_of_mem_zipIdx hp
        rw [decide_eq_true_eq]
        omega
      rw [List.filter_cons_of_pos (by simp), hrest]
      rfl
    | succ place =>
      have hshift : start + (place + 1) = start + 1 + place := by omega
      have hother : ¬ start + 1 + place = start := by omega
      rw [hshift, List.filter_cons_of_neg (by simpa using hother), ih, List.getElem?_cons_succ]

/-- The item at the one position that is meant, if one is. -/
theorem keptAt_some (place : Option Nat) (items : List α) :
    keptAt (fun i => decide (place = some i)) items = (place.bind (items[·]?)).toList := by
  cases place with
  | none =>
    unfold keptAt
    rw [List.filter_eq_nil_iff.2 (by simp)]
    rfl
  | some place =>
    have h := zipIdx_filter_eq items 0 place
    simpa [keptAt] using h

/-! ## Filtering -/

/-- A predicate with the same value for all items keeps the items at certain positions. -/
theorem filterFrom_const {test : Value → Except Error (Option Value)} {w : Value}
    (h : ∀ v, test v = .ok (some w)) (length i : Nat) (items : List Value) :
    filterFrom test length i items
      = .ok (((items.zipIdx i).filter fun p => keeps (some w) length p.2).map Prod.fst) := by
  induction items generalizing i with
  | nil => rfl
  | cons v items ih =>
    rw [filterFrom, h, ih, List.zipIdx_cons, List.filter_cons]
    cases hkeeps : keeps (some w) length i <;> simp [hkeeps, bind, Except.bind, pure, Except.pure]

theorem evalPredicates_const {p : Node} {w : Value} (h : ∀ v, eval root p v = .ok (some w))
    (items : List Value) :
    evalPredicates root [p] items = .ok (keptAt (keeps (some w) items.length) items) := by
  rw [evalPredicates, filterFrom_const h]
  rfl

/-- A number keeps the item at the position that it means. -/
theorem evalPredicates_number (h : items.length < 2 ^ 53) (k : Number) :
    evalPredicates root [.number k] items
      = .ok ((placeOf? items.length k).bind (items[·]?)).toList := by
  rw [evalPredicates_const (w := .number k) fun v => by rw [eval], ← keptAt_some]
  congr 1
  refine keptAt_congr fun i hi => ?_
  rw [keeps, Bool.eq_iff_iff, selects_iff h hi, decide_eq_true_eq]

theorem evalItems_number (ks : List Number) (v : Value) :
    evalItems root (ks.map .number) v = .ok (ks.map .number) := by
  induction ks with
  | nil => rw [List.map_nil, evalItems, List.map_nil]
  | cons k ks ih =>
    rw [List.map_cons, evalItems, eval, ih]
    rfl

theorem mapM_asNumber? (ks : List Number) :
    (ks.map Value.number).mapM Value.asNumber? = some ks := by
  induction ks with
  | nil => rfl
  | cons k ks ih =>
    rw [List.map_cons, List.mapM_cons, ih]
    rfl

theorem positions?_number {ks : List Number} (h : ks ≠ []) :
    positions? (ks.map .number) = some ks := by
  rw [positions?, if_neg (by simpa using h), mapM_asNumber?]

/-- Several numbers keep the items at the positions that some of them means. -/
theorem evalPredicates_numbers (h : items.length < 2 ^ 53) {ks : List Number} (hks : ks ≠ []) :
    evalPredicates root [.array (ks.map .number)] items
      = .ok (keptAt (fun i => decide (∃ k ∈ ks, placeOf? items.length k = some i)) items) := by
  have heval : ∀ v, eval root (.array (ks.map .number)) v
      = .ok (some (.array (ks.map .number))) := by
    intro v
    rw [eval, evalItems_number]
    rfl
  rw [evalPredicates_const heval]
  congr 1
  refine keptAt_congr fun i hi => ?_
  rw [keeps, positions?_number hks, Bool.eq_iff_iff, List.any_eq_true, decide_eq_true_eq]
  refine exists_congr fun k => and_congr_right fun _ => selects_iff h hi

/-- Numbers in predicates select by position: an integer the item at its place, from the end if
it is negative; every number what the integer below it does; and several numbers the items that
some of them selects, each once and in their order. -/
theorem numbers_select_by_position (root : Value) {items : List Value}
    (h : items.length < 2 ^ 53) :
    (∀ n : Int, n.natAbs ≤ 2 ^ 53 → (Number.ofInt n).IsInt n
        ∧ ∀ k : Number, k.IsInt n → evalPredicates root [.number k] items
          = .ok ((place? items.length n).bind (items[·]?)).toList)
      ∧ (∀ k : Number, evalPredicates root [.number k] items
            = evalPredicates root [.number k.floor] items
          ∧ evalPredicates root [.number k] items
            = .ok ((placeOf? items.length k).bind (items[·]?)).toList)
      ∧ ∀ ks : List Number, ks ≠ [] → evalPredicates root [.array (ks.map .number)] items
          = .ok (keptAt (fun i => decide (∃ k ∈ ks, placeOf? items.length k = some i)) items) := by
  refine ⟨fun n hn => ⟨Number.isInt_ofInt hn, fun k hk => ?_⟩, fun k => ⟨?_, ?_⟩,
    fun ks hks => evalPredicates_numbers h hks⟩
  · rw [evalPredicates_number h, placeOf?, hk.floor?, Option.bind_some]
  · rw [evalPredicates_number h, evalPredicates_number h, placeOf?, placeOf?,
      Number.floor?_floor]
  · exact evalPredicates_number h k

/-- Among three items `-1` means the last, one and a half the second, and `-1`, `-3` and `2` the
first and the last. -/
theorem numbers_select_by_position_mixed :
    evalPredicates .null [.number (.ofInt (-1))] [.null, .boolean true, .string "c"]
        = .ok [.string "c"]
      ∧ evalPredicates .null [.number (.ofQuotient false (3 * stepsPerUnit) 2)]
          [.null, .boolean true, .string "c"] = .ok [.boolean true]
      ∧ evalPredicates .null [.array ([.ofInt (-1), .ofInt (-3), .ofInt 2].map .number)]
          [.null, .boolean true, .string "c"] = .ok [.null, .string "c"] := by
  have hlength : ([.null, .boolean true, .string "c"] : List Value).length < 2 ^ 53 := by decide
  obtain ⟨hinteger, hnumber, harray⟩ := numbers_select_by_position .null hlength
  refine ⟨?_, ?_, ?_⟩
  · obtain ⟨hint, hkept⟩ := hinteger (-1) (by decide)
    exact hkept _ hint
  · have hplace : placeOf? 3 (.ofQuotient false (3 * stepsPerUnit) 2) = some 1 := by
      decide +kernel
    rw [(hnumber _).2]
    show Except.ok ((placeOf? 3 _).bind _).toList = _
    rw [hplace]
    rfl
  · rw [harray _ (List.cons_ne_nil _ _)]
    refine congrArg Except.ok (keptAt_congr (g := fun i => decide (i ≠ 1)) ?_)
    decide +kernel

end PipeQuery.Expr
