import PipeQuery.Proofs.Json.RoundTrip
import PipeQuery.Proofs.Value.DeepEquality
import PipeQuery.Proofs.Value.InRange

/-!
# What a canonical text tells

The canonical text of a value is the compact print of the value with the entries of each
object in the order of their keys (`canonical_eq_render`).  A print is read back, whatever is
nested in it, so that values with one print are read as one (`mapNumbers_reread_eq`).  This
value equals both if their numbers are finite: only the sign of zero is lost.  Other numbers
are printed as `null`.

`canonical_eq_iff` puts this together: values with finite numbers have one canonical text
exactly if they are equal.
-/

namespace PipeQuery

/-! ## Keys in order -/

namespace Entries

variable {α β : Type} {entries : Entries α} {e : String × α}

/-- Entries in the order of their keys. -/
def byKey (entries : Entries α) : Entries α :=
  entries.mergeSort fun x y => decide (x.1 ≤ y.1)

theorem mem_byKey : e ∈ byKey entries ↔ e ∈ entries := List.mem_mergeSort

theorem keys_byKey_perm (entries : Entries α) : (keys (byKey entries)).Perm (keys entries) :=
  (List.mergeSort_perm _ _).map Prod.fst

/-- What is held does not matter to the order. -/
theorem map_byKey (f : α → β) (entries : Entries α) :
    (byKey entries).map (fun e => (e.1, f e.2)) = byKey (entries.map fun e => (e.1, f e.2)) :=
  List.map_mergeSort fun _ _ _ _ => rfl

end Entries

namespace Value

variable {a b v : Value} {entries : Entries Value}

mutual

/-- The value with the entries of each object inside it in the order of their keys. -/
def sortKeys : Value → Value
  | .array items => .array (sortKeysItems items)
  | .object entries => .object (Entries.byKey (sortKeysEntries entries))
  | v => v

/-- The items with the keys inside them in order. -/
def sortKeysItems : List Value → List Value
  | [] => []
  | x :: xs => x.sortKeys :: sortKeysItems xs

/-- The entries, in the order they have, with the keys inside the held values in order. -/
def sortKeysEntries : List (String × Value) → List (String × Value)
  | [] => []
  | (key, x) :: rest => (key, x.sortKeys) :: sortKeysEntries rest

end

theorem sortKeysItems_eq (items : List Value) : sortKeysItems items = items.map sortKeys := by
  induction items with
  | nil => rw [sortKeysItems, List.map_nil]
  | cons x items ih => rw [sortKeysItems, ih, List.map_cons]

theorem sortKeysEntries_eq (entries : List (String × Value)) :
    sortKeysEntries entries = entries.map fun e => (e.1, e.2.sortKeys) := by
  induction entries with
  | nil => rw [sortKeysEntries, List.map_nil]
  | cons e entries ih => rw [sortKeysEntries, ih, List.map_cons]

theorem mem_sortedEntries {key : String} {y : Value} :
    (key, y) ∈ Entries.byKey (sortKeysEntries entries)
      ↔ ∃ x, (key, x) ∈ entries ∧ y = x.sortKeys := by
  rw [Entries.mem_byKey, sortKeysEntries_eq, List.mem_map]
  constructor
  · rintro ⟨⟨k, x⟩, hmem, heq⟩
    cases heq
    exact ⟨x, hmem, rfl⟩
  · rintro ⟨x, hmem, rfl⟩
    exact ⟨(key, x), hmem, rfl⟩

theorem keys_sortedEntries_perm (entries : Entries Value) :
    (Entries.keys (Entries.byKey (sortKeysEntries entries))).Perm (Entries.keys entries) := by
  have hkeys : Entries.keys (sortKeysEntries entries) = Entries.keys entries := by
    rw [sortKeysEntries_eq, Entries.keys, List.map_map]
    rfl
  rw [← hkeys]
  exact Entries.keys_byKey_perm _

/-- The canonical text is the compact print with keys in order. -/
theorem canonical_eq_render (v : Value) (d : Nat) :
    v.canonical = v.sortKeys.render .compact d := by
  induction v using by_parts generalizing d with
  | null => simp [canonical, sortKeys, render]
  | boolean b => cases b <;> simp [canonical, sortKeys, render]
  | number n => simp [canonical, sortKeys, render]
  | string s => simp [canonical, sortKeys, render]
  | array items ih =>
    have hitems : canonicalItems items = (sortKeysItems items).map (render .compact (d + 1)) := by
      rw [canonicalItems_eq, sortKeysItems_eq, List.map_map]
      exact List.map_congr_left fun x hx => ih x hx (d + 1)
    rw [canonical, sortKeys, Json.render_array_eq_joinWith, hitems]
  | object entries ih =>
    have hentries : canonicalEntries entries
        = (sortKeysEntries entries).map fun e => (e.1, e.2.render .compact (d + 1)) := by
      rw [canonicalEntries_eq, sortKeysEntries_eq, List.map_map]
      exact List.map_congr_left fun e he => congrArg (Prod.mk e.1) (ih e he (d + 1))
    have hsorted : Entries.byKey (canonicalEntries entries)
        = (Entries.byKey (sortKeysEntries entries)).map
          fun e => (e.1, e.2.render .compact (d + 1)) := by
      rw [hentries]
      exact (Entries.map_byKey _ _).symm
    rw [canonical, sortKeys, Json.render_object_eq_joinWith, ← Entries.byKey, hsorted, List.map_map]
    rfl

theorem distinct_sortKeys (hv : v.Distinct) : v.sortKeys.Distinct := by
  induction v using by_parts with
  | null => exact hv
  | boolean b => exact hv
  | number n => exact hv
  | string s => exact hv
  | array items ih =>
    rw [Distinct, distinctItems_iff] at hv
    rw [sortKeys, Distinct, distinctItems_iff, sortKeysItems_eq, List.forall_mem_map]
    exact fun x hx => ih x hx (hv x hx)
  | object entries ih =>
    rw [Distinct, distinctEntries_iff] at hv
    rw [sortKeys, Distinct, distinctEntries_iff]
    refine ⟨(keys_sortedEntries_perm entries).nodup_iff.2 hv.1, ?_⟩
    rintro ⟨key, y⟩ hmem
    obtain ⟨x, hx, rfl⟩ := mem_sortedEntries.1 hmem
    exact ih (key, x) hx (hv.2 _ hx)

theorem inRange_sortKeys (h : v.InRange) : v.sortKeys.InRange := by
  induction h with
  | null => exact .null
  | boolean b => exact .boolean b
  | number hn => exact .number hn
  | string s => exact .string s
  | array _ ih =>
    rw [sortKeys, sortKeysItems_eq]
    exact .array (List.forall_mem_map.2 ih)
  | object _ ih =>
    rw [sortKeys]
    refine .object ?_
    rintro ⟨key, y⟩ hmem
    obtain ⟨x, hx, rfl⟩ := mem_sortedEntries.1 hmem
    exact ih (key, x) hx

/-- Equality does not look at the order of keys. -/
theorem deeplyEqual_sortKeys (hv : v.Distinct) (hrange : v.InRange) :
    DeeplyEqual v v.sortKeys := by
  induction v using by_parts with
  | null => exact .null
  | boolean b => exact .boolean b
  | number n =>
    cases n with
    | finite negative m => exact .number rfl rfl
    | _ => cases hrange.isFinite
  | string s => exact .string s
  | array items ih =>
    rw [Distinct, distinctItems_iff] at hv
    rw [sortKeys, sortKeysItems_eq]
    refine .array (List.length_map _).symm fun i hx _ => ?_
    have hmem := List.getElem_mem hx
    rw [List.getElem_map]
    exact ih _ hmem (hv _ hmem) (hrange.of_items _ hmem)
  | object entries ih =>
    rw [Distinct, distinctEntries_iff] at hv
    rw [sortKeys]
    have hkeys := keys_sortedEntries_perm entries
    refine .object (fun key => hkeys.mem_iff.symm) fun key x y hx hy => ?_
    obtain ⟨z, hz, rfl⟩ := mem_sortedEntries.1 hy
    -- there is one value only under the key
    obtain rfl : x = z :=
      Option.some.inj ((Entries.get?_of_mem hv.1 hx).symm.trans (Entries.get?_of_mem hv.1 hz))
    exact ih _ hx (hv.2 _ hx) (hrange.of_entries _ hx)

/-! ## Reading prints -/

/-- Values with one print are read as one value. -/
theorem mapNumbers_reread_eq {d e : Nat} (ha : a.Distinct) (hb : b.Distinct)
    (h : a.render .compact d = b.render .compact e) :
    a.mapNumbers Json.reread = b.mapNumbers Json.reread := by
  -- both are read with as much room for nesting as either needs
  have hleft := Json.valueAt_render ha (Nat.le_max_left a.depth b.depth) d [] Json.ends_nil
  have hright := Json.valueAt_render hb (Nat.le_max_right a.depth b.depth) e [] Json.ends_nil
  rw [h] at hleft
  obtain ⟨_, hleft⟩ := hleft
  obtain ⟨_, hright⟩ := hright
  exact congrArg Prod.fst (Except.ok.inj (hleft.symm.trans hright))

/-- Finite numbers stand in data as they are. -/
theorem mapNumbers_orNull (h : v.InRange) : v.mapNumbers Json.orNull = v := by
  induction h with
  | array _ ih =>
    rw [mapNumbers, mapNumbersItems_eq, List.map_congr_left ih, List.map_id']
  | object _ ih =>
    rw [mapNumbers, mapNumbersEntries_eq,
      List.map_congr_left fun e he => congrArg (Prod.mk e.1) (ih e he), List.map_id']
  | number hn => rw [mapNumbers, Json.orNull, if_pos hn]
  | _ => simp [mapNumbers]

theorem orNull_equals (n : Number) : (Json.orNull n).equals (Json.reread n) = true := by
  have hreread : (Json.reread n).Distinct := by
    cases n <;> exact trivial
  have horNull : (Json.orNull n).Distinct := by
    unfold Json.orNull
    split <;> exact trivial
  exact equals_symm (Json.equals_reread n) hreread horNull

/-- Values with finite numbers that have one print are equal. -/
theorem equals_of_render_eq {d e : Nat} (ha : a.Distinct) (hb : b.Distinct) (haRange : a.InRange)
    (hbRange : b.InRange) (h : a.render .compact d = b.render .compact e) :
    a.equals b = true := by
  have hleft := equals_mapNumbers orNull_equals ha
  have hright := equals_mapNumbers Json.equals_reread hb
  rw [mapNumbers_orNull haRange, mapNumbers_reread_eq ha hb h] at hleft
  rw [mapNumbers_orNull hbRange] at hright
  exact equals_trans hleft hright

/-- Values with finite numbers have one canonical text exactly if they are equal. -/
theorem canonical_eq_iff (ha : a.Distinct) (hb : b.Distinct) (haRange : a.InRange)
    (hbRange : b.InRange) : a.canonical = b.canonical ↔ a.equals b = true := by
  constructor
  · intro h
    have ha' := distinct_sortKeys ha
    have hb' := distinct_sortKeys hb
    have hleft := equals_of_deeplyEqual (deeplyEqual_sortKeys ha haRange) ha ha'
    have hright := equals_of_deeplyEqual (deeplyEqual_sortKeys hb hbRange) hb hb'
    have hsorted : a.sortKeys.equals b.sortKeys = true := by
      rw [canonical_eq_render a 0, canonical_eq_render b 0] at h
      exact equals_of_render_eq ha' hb' (inRange_sortKeys haRange) (inRange_sortKeys hbRange) h
    exact equals_trans hleft (equals_trans hsorted (equals_symm hright hb hb'))
  · intro h
    exact canonical_eq_of_equals h ha hb

/-- A number that is not finite has the canonical text of `null`, which it does not equal. -/
example : (Value.number .nan).canonical = Value.null.canonical
    ∧ (Value.number .nan).equals .null = false := by decide

end Value

end PipeQuery
