import PipeQuery.Proofs.Pipeline.Ordering
import PipeQuery.Proofs.Query.Quoting

/-!
# Extremes

The least and the greatest of an array can be had by an operator or by ordering the array and
looking at its ends.  `min` and `max` choose one of two numbers at a time, `latest` sorts by itself,
and the query `order by ""` sorts rows by what the empty path leads to, which is the row.

Whatever chooses one by one ends with an item that may stand before all (`foldl_chooses`), and so
does the first row of an order (`isLE_head_orderRows`).  Two such numbers are equal, though one of
them may be the negative zero.  The last row of an order is more than some greatest one: it is the
*last greatest*, behind which every row is less (`lastGreatest_of_getLast?`).

All of it needs numbers with a place.  As `nan` ties with every number, an order of rows with one
among them need not have its extremes at its ends.
-/

namespace PipeQuery

/-! ## Chosen one by one -/

namespace Number

variable {a b : Number} {ns : List Number}

/-- A number may stand before another when they are sorted. -/
def MayPrecede (a b : Number) : Prop := ((Value.number a).compare (.number b)).isLE

theorem MayPrecede.trans {a b c : Number} (hb : b ≠ .nan) (hab : a.MayPrecede b)
    (hbc : b.MayPrecede c) : a.MayPrecede c := by
  have hplace : Value.number b ≠ Value.nan := by
    rintro ⟨⟩
    exact hb rfl
  exact Value.compare_isLE_trans hplace hab hbc

theorem less_iff : a.less b = true ↔ (Value.number a).compare (.number b) = .lt := by
  have hcompare : (Value.number a).compare (.number b) = (a.compare? b).getD .eq := rfl
  rw [less, beq_iff_eq, hcompare]
  cases a.compare? b <;> simp

theorem mayPrecede_of_less (h : a.less b = true) : a.MayPrecede b := by
  rw [MayPrecede, less_iff.1 h]
  rfl

theorem mayPrecede_of_not_less (h : ¬ a.less b = true) : b.MayPrecede a := by
  rw [less_iff] at h
  rw [MayPrecede, Value.compare_swap (.number a), Ordering.isLE_swap]
  exact Ordering.isGE_iff_ne_lt.2 h

theorem MayPrecede.refl (a : Number) : a.MayPrecede a := by
  by_cases h : a.less a = true
  · exact mayPrecede_of_less h
  · exact mayPrecede_of_not_less h

theorem min_chooses (ha : a ≠ .nan) (hb : b ≠ .nan) :
    (a.min b = a ∨ a.min b = b) ∧ (a.min b).MayPrecede a ∧ (a.min b).MayPrecede b := by
  rw [min, if_neg ha, if_neg hb]
  split
  next hless => exact ⟨.inr rfl, mayPrecede_of_less hless, .refl b⟩
  next hless => exact ⟨.inl rfl, .refl a, mayPrecede_of_not_less hless⟩

theorem max_chooses (ha : a ≠ .nan) (hb : b ≠ .nan) :
    (a.max b = a ∨ a.max b = b) ∧ a.MayPrecede (a.max b) ∧ b.MayPrecede (a.max b) := by
  rw [max, if_neg ha, if_neg hb]
  split
  next hless => exact ⟨.inr rfl, mayPrecede_of_less hless, .refl b⟩
  next hless => exact ⟨.inl rfl, .refl a, mayPrecede_of_not_less hless⟩

/-- What is chosen from numbers one by one is one of them, and stands to all of them as what is
chosen from two stands to both. -/
theorem foldl_chooses {op : Number → Number → Number} {R : Number → Number → Prop}
    (hop : ∀ {a b}, a ≠ .nan → b ≠ .nan → (op a b = a ∨ op a b = b) ∧ R (op a b) a ∧ R (op a b) b)
    (htrans : ∀ {a b c}, b ≠ .nan → R a b → R b c → R a c) (h : ∀ n ∈ a :: ns, n ≠ .nan) :
    ns.foldl op a ∈ a :: ns ∧ ∀ n ∈ a :: ns, R (ns.foldl op a) n := by
  obtain ⟨ha, hns⟩ := List.forall_mem_cons.1 h
  induction ns generalizing a with
  | nil =>
    obtain ⟨hself, hR, -⟩ := hop ha ha
    rw [or_self] at hself
    rw [hself] at hR
    exact ⟨List.mem_singleton.2 rfl, List.forall_mem_singleton.2 hR⟩
  | cons b ns ih =>
    obtain ⟨hb, hrest⟩ := List.forall_mem_cons.1 hns
    obtain ⟨hchosen, hRa, hRb⟩ := hop ha hb
    have hnan : op a b ≠ .nan := by
      rcases hchosen with heq | heq <;> rwa [heq]
    obtain ⟨hmem, hall⟩ := ih (List.forall_mem_cons.2 ⟨hnan, hrest⟩) hnan hrest
    obtain ⟨hR, hall⟩ := List.forall_mem_cons.1 hall
    refine ⟨?_, ?_⟩
    · rcases List.mem_cons.1 hmem with heq | hmem
      · rcases hchosen with hop | hop
        · exact List.mem_cons.2 (.inl (heq.trans hop))
        · exact List.mem_cons_of_mem _ (List.mem_cons.2 (.inl (heq.trans hop)))
      · exact List.mem_cons_of_mem _ (List.mem_cons_of_mem _ hmem)
    · exact List.forall_mem_cons.2 ⟨htrans hnan hR hRa,
        List.forall_mem_cons.2 ⟨htrans hnan hR hRb, hall⟩⟩

/-- The smallest of numbers is one of them that may stand before all. -/
theorem exists_minNumbers? (hne : ns ≠ []) (h : ∀ n ∈ ns, n ≠ .nan) :
    ∃ least ∈ ns, minNumbers? ns = some least ∧ ∀ n ∈ ns, least.MayPrecede n := by
  obtain ⟨a, ns, rfl⟩ := List.exists_cons_of_ne_nil hne
  obtain ⟨hmem, hall⟩ := foldl_chooses min_chooses MayPrecede.trans h
  exact ⟨_, hmem, rfl, hall⟩

/-- The largest of numbers is one of them that all may stand before. -/
theorem exists_maxNumbers? (hne : ns ≠ []) (h : ∀ n ∈ ns, n ≠ .nan) :
    ∃ greatest ∈ ns, maxNumbers? ns = some greatest ∧ ∀ n ∈ ns, n.MayPrecede greatest := by
  obtain ⟨a, ns, rfl⟩ := List.exists_cons_of_ne_nil hne
  have htrans : ∀ {a b c : Number}, b ≠ .nan → b.MayPrecede a → c.MayPrecede b →
      c.MayPrecede a := fun hb hab hbc => hbc.trans hb hab
  obtain ⟨hmem, hall⟩ := foldl_chooses (R := fun a b => b.MayPrecede a) max_chooses htrans h
  exact ⟨_, hmem, rfl, hall⟩

/-- Numbers each of which may stand before the other are equal. -/
theorem MayPrecede.antisymm (ha : a ≠ .nan) (hb : b ≠ .nan) (hab : a.MayPrecede b)
    (hba : b.MayPrecede a) : a.equals b = true := by
  have hposition : ∀ {n : Number}, n ≠ .nan → ∃ z, n.position? = some z := by
    intro n hn
    refine Value.exists_position ?_
    rintro ⟨⟩
    exact hn rfl
  obtain ⟨p, hp⟩ := hposition ha
  obtain ⟨q, hq⟩ := hposition hb
  have hcompare : ∀ {m n : Number} {x y : Int}, m.position? = some x → n.position? = some y →
      m.MayPrecede n → x ≤ y := by
    intro m n x y hm hn h
    simp only [MayPrecede, Value.compare, compare?, hm, hn, Option.getD_some] at h
    exact Int.isLE_compare.1 h
  have hpq : p = q := Int.le_antisymm (hcompare hp hq hab) (hcompare hq hp hba)
  exact Number.equals_iff.2 ⟨p, hp, hpq ▸ hq⟩

end Number

/-! ## The ends of an order -/

namespace Query

open Value (nan compare_swap)

variable {fields : List OrderField} {rows : List Value} {x : Value} {v : Value}

theorem Tied.refl (fields : List OrderField) (a : Value) : Tied fields a a := by
  intro f _
  have hswap := compare_swap (a.field f.field) (a.field f.field)
  unfold OrderField.Ties
  generalize (a.field f.field).compare (a.field f.field) = o at hswap ⊢
  cases o with
  | eq => rfl
  | lt => cases hswap
  | gt => cases hswap

theorem Tied.symm {a b : Value} (h : Tied fields a b) : Tied fields b a := by
  intro f hf
  have htie : (a.field f.field).compare (b.field f.field) = .eq := h f hf
  rw [OrderField.Ties, compare_swap (a.field f.field), htie]
  rfl

/-- The first row of an order may stand before all. -/
theorem isLE_head_orderRows (h : ∀ row ∈ rows, HasPlaces fields row)
    (hx : (orderRows fields rows).head? = some x) :
    x ∈ rows ∧ ∀ y ∈ rows, (compareRows fields x y).isLE := by
  obtain ⟨rest, hrest⟩ := List.head?_eq_some_iff.1 hx
  have hmem := fun {y} => (orderRows_perm fields rows).mem_iff (a := y)
  have hpairs := pairwise_orderRows h
  rw [hrest] at hmem hpairs
  refine ⟨hmem.1 List.mem_cons_self, ?_⟩
  intro y hy
  rcases List.mem_cons.1 (hmem.2 hy) with rfl | hy
  · exact Ordering.isLE_of_eq_eq (compareRows_eq_eq_iff.2 (Tied.refl fields y))
  · exact (List.pairwise_cons.1 hpairs).1 y hy

/-- All rows may stand before the last row of an order. -/
theorem isLE_getLast_orderRows (h : ∀ row ∈ rows, HasPlaces fields row) {init : List Value}
    (hinit : orderRows fields rows = init ++ [x]) :
    x ∈ rows ∧ ∀ y ∈ rows, (compareRows fields y x).isLE := by
  have hmem := fun {y} => (orderRows_perm fields rows).mem_iff (a := y)
  have hpairs := pairwise_orderRows h
  rw [hinit] at hmem hpairs
  refine ⟨hmem.1 (List.mem_append_right _ (List.mem_singleton.2 rfl)), ?_⟩
  intro y hy
  rcases List.mem_append.1 (hmem.2 hy) with hy | hy
  · exact (List.pairwise_append.1 hpairs).2.2 y hy x (List.mem_singleton.2 rfl)
  · obtain rfl := List.mem_singleton.1 hy
    exact Ordering.isLE_of_eq_eq (compareRows_eq_eq_iff.2 (Tied.refl fields y))

/-- The last of the greatest: what stands before it is not greater, and what stands behind it is
less. -/
def LastGreatest {α : Type} (cmp : α → α → Ordering) (items : List α) (x : α) : Prop :=
  ∃ before behind, items = before ++ x :: behind ∧ (∀ y ∈ before, (cmp y x).isLE)
    ∧ ∀ y ∈ behind, cmp y x = .lt

/-- The last row of an order is the last greatest one. -/
theorem lastGreatest_of_getLast? (h : ∀ row ∈ rows, HasPlaces fields row)
    (hx : (orderRows fields rows).getLast? = some x) :
    LastGreatest (compareRows fields) rows x := by
  obtain ⟨init, hinit⟩ := List.getLast?_eq_some_iff.1 hx
  obtain ⟨hmem, hle⟩ := isLE_getLast_orderRows h hinit
  -- the rows that tie with the last one keep their order, so that it is the last of them
  have hties := filter_orderRows h hmem
  have hself : [x].filter (Tied fields x) = [x] :=
    List.filter_cons_of_pos (decide_eq_true (Tied.refl fields x))
  rw [hinit, List.filter_append, hself] at hties
  obtain ⟨front, back, rfl, -, hback⟩ := List.filter_eq_append_iff.1 hties.symm
  obtain ⟨between, behind, rfl, -, -, hbehind⟩ := List.filter_eq_cons_iff.1 hback
  refine ⟨front ++ between, behind, (List.append_assoc _ _ _).symm, ?_, ?_⟩
  · intro y hy
    refine hle y ?_
    rw [← List.append_assoc]
    exact List.mem_append_left _ hy
  · intro y hy
    have hyle := hle y (List.mem_append_right _ (List.mem_append_right _
      (List.mem_cons_of_mem _ hy)))
    have hne : compareRows fields y x ≠ .eq := by
      intro heq
      have htied := (compareRows_eq_eq_iff.1 heq).symm
      exact List.filter_eq_nil_iff.1 hbehind y hy (decide_eq_true htied)
    exact (Ordering.isLE_iff_eq_lt_or_eq_eq.1 hyle).resolve_right hne

/-! ## Values in their own order -/

/-- The order by what the empty path leads to. -/
def bySelf : List OrderField := [⟨"", .asc⟩]

theorem compareRows_bySelf (a b : Value) : compareRows bySelf a b = a.compare b :=
  Ordering.then_eq

theorem hasPlaces_bySelf (hv : v ≠ nan) : HasPlaces bySelf v :=
  List.forall_mem_singleton.2 hv

/-- The query that orders rows by themselves. -/
theorem run_orderBySelf [Draws] (rows : List Value) :
    run "order by \"\"" (.array rows) = .ok (.array (orderRows bySelf rows)) := by
  have hname : (Token.identifier "order").Spelled := by decide
  have hbody : Grammar.Body "order" [.identifier "by", .field ""] (.orderBy bySelf) :=
    .orderBy (.last (.plain (.mk rfl)))
  exact run_of_parse (parse_named hname (by decide) hbody) rfl

theorem allNumbers_iff : Value.allNumbers rows = true ↔ ∀ v ∈ rows, ∃ n, v = .number n := by
  rw [Value.allNumbers, List.all_eq_true]
  refine forall₂_congr fun v _ => ?_
  cases v <;> simp [Value.asNumber?]

theorem allStrings_iff : Value.allStrings rows = true ↔ ∀ v ∈ rows, ∃ s, v = .string s := by
  rw [Value.allStrings, List.all_eq_true]
  refine forall₂_congr fun v _ => ?_
  cases v <;> simp [Value.asString?]

/-- Of numbers and of strings `latest` gives the row that stands last in their order. -/
theorem applyTo_latest [Draws]
    (h : (∀ row ∈ rows, ∃ n, row = .number n) ∨ (∀ row ∈ rows, ∃ s, row = .string s))
    (hx : (orderRows bySelf rows).getLast? = some x) :
    Operator.latest.applyTo (.array rows) = x := by
  have hsorts : (Value.allNumbers rows || Value.allStrings rows) = true := by
    rwa [Bool.or_eq_true, allNumbers_iff, allStrings_iff]
  have hcompare : compareRows bySelf = Value.compare := by
    funext a b
    exact compareRows_bySelf a b
  rw [orderRows, hcompare] at hx
  rw [Operator.applyTo, Operator.eval?, Value.latest?, if_pos hsorts, hx]
  rfl

theorem applyTo_min [Draws] {ns : List Number} {n : Number} (h : minNumbers? ns = some n) :
    Operator.min.applyTo (.array (ns.map .number)) = .number n := by
  rw [Operator.applyTo, Operator.eval?, Value.numbers?_map, Option.map_some, h]
  rfl

theorem applyTo_max [Draws] {ns : List Number} {n : Number} (h : maxNumbers? ns = some n) :
    Operator.max.applyTo (.array (ns.map .number)) = .number n := by
  rw [Operator.applyTo, Operator.eval?, Value.numbers?_map, Option.map_some, h]
  rfl

/-- Rows with a place have a first and a last one in their order.  The first may stand before all,
and the last is the last greatest. -/
theorem exists_ends (hne : rows ≠ []) (h : ∀ row ∈ rows, row ≠ nan) :
    ∃ first ∈ rows, ∃ last ∈ rows, (orderRows bySelf rows).head? = some first
      ∧ (orderRows bySelf rows).getLast? = some last
      ∧ (∀ row ∈ rows, (first.compare row).isLE) ∧ (∀ row ∈ rows, (row.compare last).isLE)
      ∧ LastGreatest Value.compare rows last := by
  have hplaces : ∀ row ∈ rows, HasPlaces bySelf row :=
    fun row hrow => hasPlaces_bySelf (h row hrow)
  have hsorted : orderRows bySelf rows ≠ [] := by
    intro hnil
    have hperm := orderRows_perm bySelf rows
    rw [hnil] at hperm
    exact hne (List.nil_perm.1 hperm)
  have hfirst := List.head?_eq_some_head hsorted
  have hlast := List.getLast?_eq_some_getLast hsorted
  obtain ⟨init, hinit⟩ := List.getLast?_eq_some_iff.1 hlast
  obtain ⟨hmem, hbefore⟩ := isLE_head_orderRows hplaces hfirst
  obtain ⟨hmem', hbehind⟩ := isLE_getLast_orderRows hplaces hinit
  have hgreatest := lastGreatest_of_getLast? hplaces hlast
  simp only [LastGreatest, compareRows_bySelf] at hbefore hbehind hgreatest
  exact ⟨_, hmem, _, hmem', hfirst, hlast, hbefore, hbehind, hgreatest⟩

/-- Strings among values compare as strings. -/
theorem lastGreatest_strings {ss : List String} {s : String}
    (h : LastGreatest Value.compare (ss.map .string) (.string s)) :
    LastGreatest Ord.compare ss s := by
  obtain ⟨before, behind, hsplit, hbefore, hbehind⟩ := h
  obtain ⟨front, back, rfl, rfl, hback⟩ := List.map_eq_append_iff.1 hsplit
  obtain ⟨t, rest, rfl, ht, rfl⟩ := List.map_eq_cons_iff.1 hback
  cases ht
  exact ⟨front, rest, rfl, List.forall_mem_map.1 hbefore, List.forall_mem_map.1 hbehind⟩

/-- The least and the greatest of numbers without `nan` are equal to the first and the last value in
the order that the query `order by ""` puts them in, and of numbers and of strings `latest` gives the
very value that stands last there, which of strings is the last greatest.  Of other items `latest`
gives the last. -/
theorem extremes_agree_with_order [Draws] :
    (∀ ns : List Number, ns ≠ [] → Number.nan ∉ ns →
      ∃ sorted first last, run "order by \"\"" (.array (ns.map .number)) = .ok (.array sorted)
        ∧ sorted.head? = some (.number first) ∧ sorted.getLast? = some (.number last)
        ∧ (∃ n, Operator.min.applyTo (.array (ns.map .number)) = .number n
          ∧ n.equals first = true)
        ∧ (∃ n, Operator.max.applyTo (.array (ns.map .number)) = .number n
          ∧ n.equals last = true)
        ∧ Operator.latest.applyTo (.array (ns.map .number)) = .number last)
      ∧ (∀ ss : List String, ss ≠ [] →
        ∃ sorted last, run "order by \"\"" (.array (ss.map .string)) = .ok (.array sorted)
          ∧ sorted.getLast? = some (.string last)
          ∧ Operator.latest.applyTo (.array (ss.map .string)) = .string last
          ∧ LastGreatest Ord.compare ss last)
      ∧ ∀ (items : List Value) (hne : items ≠ []), (¬ ∀ v ∈ items, ∃ n, v = .number n) →
        (¬ ∀ v ∈ items, ∃ s, v = .string s) →
        Operator.latest.applyTo (.array items) = items.getLast hne := by
  refine ⟨fun ns hne hnan => ?_, fun ss hne => ?_, fun items hne hnumbers hstrings => ?_⟩
  · have hplaces : ∀ n ∈ ns, n ≠ .nan := fun n hn heq => hnan (heq ▸ hn)
    have hrows : ∀ row ∈ ns.map Value.number, row ≠ nan := by
      refine List.forall_mem_map.2 fun n hn => ?_
      rintro ⟨⟩
      exact hnan hn
    obtain ⟨_, hmem, _, hmem', hhead, hgetLast, hbefore, hbehind, -⟩ :=
      exists_ends (mt List.map_eq_nil_iff.1 hne) hrows
    obtain ⟨first, hfirst, rfl⟩ := List.mem_map.1 hmem
    obtain ⟨last, hlast, rfl⟩ := List.mem_map.1 hmem'
    have hbefore : ∀ n ∈ ns, first.MayPrecede n :=
      fun n hn => hbefore _ (List.mem_map_of_mem hn)
    have hbehind : ∀ n ∈ ns, n.MayPrecede last :=
      fun n hn => hbehind _ (List.mem_map_of_mem hn)
    obtain ⟨least, hleast, hmin, hminLE⟩ := Number.exists_minNumbers? hne hplaces
    obtain ⟨greatest, hgreatest, hmax, hmaxLE⟩ := Number.exists_maxNumbers? hne hplaces
    have hequal : least.equals first = true :=
      Number.MayPrecede.antisymm (hplaces least hleast) (hplaces first hfirst)
        (hminLE first hfirst) (hbefore least hleast)
    have hequal' : greatest.equals last = true :=
      Number.MayPrecede.antisymm (hplaces greatest hgreatest) (hplaces last hlast)
        (hbehind greatest hgreatest) (hmaxLE last hlast)
    have hnumbers : ∀ row ∈ ns.map Value.number, ∃ n, row = .number n :=
      List.forall_mem_map.2 fun n _ => ⟨n, rfl⟩
    exact ⟨_, first, last, run_orderBySelf _, hhead, hgetLast, ⟨least, applyTo_min hmin, hequal⟩,
      ⟨greatest, applyTo_max hmax, hequal'⟩, applyTo_latest (.inl hnumbers) hgetLast⟩
  · have hrows : ∀ row ∈ ss.map Value.string, row ≠ nan :=
      List.forall_mem_map.2 fun s _ => by rintro ⟨⟩
    obtain ⟨_, -, _, hlast, -, hgetLast, -, -, hgreatest⟩ :=
      exists_ends (mt List.map_eq_nil_iff.1 hne) hrows
    obtain ⟨last, -, rfl⟩ := List.mem_map.1 hlast
    have hstrings : ∀ row ∈ ss.map Value.string, ∃ s, row = .string s :=
      List.forall_mem_map.2 fun s _ => ⟨s, rfl⟩
    exact ⟨_, last, run_orderBySelf _, hgetLast, applyTo_latest (.inr hstrings) hgetLast,
      lastGreatest_strings hgreatest⟩
  · have hneither : ¬ (Value.allNumbers items || Value.allStrings items) = true := by
      rw [Bool.or_eq_true, allNumbers_iff, allStrings_iff]
      exact not_or.2 ⟨hnumbers, hstrings⟩
    rw [Operator.applyTo, Operator.eval?, Value.latest?, if_neg hneither,
      List.getLast?_eq_some_getLast hne]
    rfl

/-- Both zeros among numbers with an infinity, a string that comes twice, and a mixed array. -/
theorem extremes_agree_with_order_zeros :
    (∃ sorted first last, run "order by \"\""
        (.array ([.finite true .zero, .infinite false, .zero].map .number)) = .ok (.array sorted)
      ∧ sorted.head? = some (.number first) ∧ sorted.getLast? = some (.number last)
      ∧ (∃ n, Operator.min.applyTo
          (.array ([.finite true .zero, .infinite false, .zero].map .number)) = .number n
        ∧ n.equals first = true)
      ∧ (∃ n, Operator.max.applyTo
          (.array ([.finite true .zero, .infinite false, .zero].map .number)) = .number n
        ∧ n.equals last = true)
      ∧ Operator.latest.applyTo
          (.array ([.finite true .zero, .infinite false, .zero].map .number)) = .number last)
    ∧ (∃ sorted last, run "order by \"\"" (.array (["b", "a", "b"].map .string))
          = .ok (.array sorted)
        ∧ sorted.getLast? = some (.string last)
        ∧ Operator.latest.applyTo (.array (["b", "a", "b"].map .string)) = .string last
        ∧ LastGreatest Ord.compare ["b", "a", "b"] last)
    ∧ Operator.latest.applyTo (.array [.string "b", .null]) = .null := by
  obtain ⟨hnumbers, hstrings, hitems⟩ := extremes_agree_with_order
  refine ⟨hnumbers _ (List.cons_ne_nil _ _) (by decide), hstrings _ (List.cons_ne_nil _ _),
    hitems _ (List.cons_ne_nil _ _) ?_ ?_⟩
  · intro h
    obtain ⟨n, hn⟩ := h (.string "b") List.mem_cons_self
    cases hn
  · intro h
    obtain ⟨s, hs⟩ := h .null (List.mem_cons_of_mem _ List.mem_cons_self)
    cases hs

end Query

end PipeQuery
