import PipeQuery.Proofs.Entries
import PipeQuery.Value.Basic

/-!
# Values by their parts

`Value.by_parts` is induction over what containers hold.  By it, `Value.mapNumbers`
puts other values in place of the numbers inside a value; `equals_mapNumbers` says
that equal replacements give equal values, and `keyLists_mapNumbers` that keys stay
in their order.
-/

namespace PipeQuery

namespace Value

/-! ## Induction -/

/-- What holds of values that hold no others, and of containers if of what they hold, holds of
all values. -/
@[elab_as_elim]
theorem by_parts {motive : Value → Prop} (null : motive .null)
    (boolean : ∀ b, motive (.boolean b)) (number : ∀ n, motive (.number n))
    (string : ∀ s, motive (.string s))
    (array : ∀ items, (∀ x ∈ items, motive x) → motive (.array items))
    (object : ∀ entries, (∀ e ∈ entries, motive e.2) → motive (.object entries)) :
    ∀ v, motive v
  | .null => null
  | .boolean b => boolean b
  | .number n => number n
  | .string s => string s
  | .array items =>
    array items fun x _ => by_parts null boolean number string array object x
  | .object entries =>
    object entries fun e _ => by_parts null boolean number string array object e.2
termination_by v => sizeOf v
decreasing_by
  all_goals simp_wf
  · rename_i hx
    have := List.sizeOf_lt_of_mem hx
    omega
  · obtain ⟨k, x⟩ := e
    rename_i hx
    have := List.sizeOf_lt_of_mem hx
    simp only [Prod.mk.sizeOf_spec] at this
    dsimp only
    omega

theorem distinctItems_iff {items : List Value} :
    DistinctItems items ↔ ∀ x ∈ items, x.Distinct := by
  induction items with
  | nil => simp [DistinctItems]
  | cons x rest ih => simp [DistinctItems, ih]

theorem distinctEntries_iff {entries : List (String × Value)} :
    DistinctEntries entries ↔ ∀ e ∈ entries, e.2.Distinct := by
  induction entries with
  | nil => simp [DistinctEntries]
  | cons e rest ih => simp [DistinctEntries, ih]

/-! ## Depth -/

mutual

/-- How deep containers nest. -/
def depth : Value → Nat
  | .array items => depthItems items + 1
  | .object entries => depthEntries entries + 1
  | _ => 0

/-- How deep containers nest in items. -/
def depthItems : List Value → Nat
  | [] => 0
  | x :: xs => max x.depth (depthItems xs)

/-- How deep containers nest in held values. -/
def depthEntries : List (String × Value) → Nat
  | [] => 0
  | (_, x) :: rest => max x.depth (depthEntries rest)

end

theorem depthItems_le_iff {items : List Value} {d : Nat} :
    depthItems items ≤ d ↔ ∀ x ∈ items, x.depth ≤ d := by
  induction items with
  | nil => simp [depthItems]
  | cons x rest ih => simp only [depthItems, Nat.max_le, ih, List.forall_mem_cons]

theorem depthEntries_le_iff {entries : List (String × Value)} {d : Nat} :
    depthEntries entries ≤ d ↔ ∀ e ∈ entries, e.2.depth ≤ d := by
  induction entries with
  | nil => simp [depthEntries]
  | cons e rest ih => simp only [depthEntries, Nat.max_le, ih, List.forall_mem_cons]

/-! ## Keys in order -/

mutual

/-- The keys of each object inside a value, in their order. -/
def keyLists : Value → List (List String)
  | .array items => keyListsItems items
  | .object entries => Entries.keys entries :: keyListsEntries entries
  | _ => []

/-- The keys of each object inside items. -/
def keyListsItems : List Value → List (List String)
  | [] => []
  | x :: xs => x.keyLists ++ keyListsItems xs

/-- The keys of each object inside held values. -/
def keyListsEntries : List (String × Value) → List (List String)
  | [] => []
  | (_, x) :: rest => x.keyLists ++ keyListsEntries rest

end

/-! ## Numbers replaced -/

mutual

/-- The value with each number inside it replaced. -/
def mapNumbers (f : Number → Value) : Value → Value
  | .number n => f n
  | .array items => .array (mapNumbersItems f items)
  | .object entries => .object (mapNumbersEntries f entries)
  | v => v

/-- The items with each number inside them replaced. -/
def mapNumbersItems (f : Number → Value) : List Value → List Value
  | [] => []
  | x :: xs => x.mapNumbers f :: mapNumbersItems f xs

/-- The held values with each number inside them replaced. -/
def mapNumbersEntries (f : Number → Value) : List (String × Value) → List (String × Value)
  | [] => []
  | (key, x) :: rest => (key, x.mapNumbers f) :: mapNumbersEntries f rest

end

variable {f g : Number → Value}

theorem mapNumbersItems_eq (f : Number → Value) (items : List Value) :
    mapNumbersItems f items = items.map (mapNumbers f) := by
  induction items with
  | nil => rw [mapNumbersItems, List.map_nil]
  | cons x items ih => rw [mapNumbersItems, ih, List.map_cons]

theorem mapNumbersEntries_eq (f : Number → Value) (entries : List (String × Value)) :
    mapNumbersEntries f entries = entries.map fun e => (e.1, e.2.mapNumbers f) := by
  induction entries with
  | nil => rw [mapNumbersEntries, List.map_nil]
  | cons e entries ih => rw [mapNumbersEntries, ih, List.map_cons]

theorem keys_mapNumbersEntries (entries : List (String × Value)) :
    Entries.keys (mapNumbersEntries f entries) = Entries.keys entries := by
  induction entries with
  | nil => rw [mapNumbersEntries]
  | cons e rest ih =>
    obtain ⟨key, x⟩ := e
    rw [mapNumbersEntries]
    exact congrArg (key :: ·) ih

theorem mem_mapNumbersEntries {entries : List (String × Value)} {key : String} {x : Value}
    (h : (key, x) ∈ entries) : (key, x.mapNumbers f) ∈ mapNumbersEntries f entries := by
  induction entries with
  | nil => cases h
  | cons e rest ih =>
    obtain ⟨k, y⟩ := e
    rw [mapNumbersEntries]
    rcases List.mem_cons.1 h with heq | hmem
    · cases heq
      exact List.mem_cons_self
    · exact List.mem_cons_of_mem _ (ih hmem)

/-- Replacements without objects leave keys in their order. -/
theorem keyLists_mapNumbers (hf : ∀ n, (f n).keyLists = []) (v : Value) :
    (v.mapNumbers f).keyLists = v.keyLists := by
  induction v using by_parts with
  | null => simp [mapNumbers]
  | boolean b => simp [mapNumbers]
  | number n => simp [mapNumbers, hf, keyLists]
  | string s => simp [mapNumbers]
  | array items ih =>
    rw [mapNumbers, keyLists, keyLists]
    induction items with
    | nil => rw [mapNumbersItems]
    | cons x rest ihrest =>
      obtain ⟨hx, hrest⟩ := List.forall_mem_cons.1 ih
      rw [mapNumbersItems, keyListsItems, keyListsItems, hx, ihrest hrest]
  | object entries ih =>
    rw [mapNumbers, keyLists, keyLists, keys_mapNumbersEntries]
    congr 1
    induction entries with
    | nil => rw [mapNumbersEntries]
    | cons e rest ihrest =>
      obtain ⟨key, x⟩ := e
      obtain ⟨hx, hrest⟩ := List.forall_mem_cons.1 ih
      rw [mapNumbersEntries, keyListsEntries, keyListsEntries, hx, ihrest hrest]

/-- Equal replacements give equal values. -/
theorem equals_mapNumbers (h : ∀ n, (f n).equals (g n) = true) {v : Value} (hv : v.Distinct) :
    (v.mapNumbers f).equals (v.mapNumbers g) = true := by
  induction v using by_parts with
  | null => simp [mapNumbers, equals]
  | boolean b => simp [mapNumbers, equals]
  | number n => simpa [mapNumbers] using h n
  | string s => simp [mapNumbers, equals]
  | array items ih =>
    rw [Distinct, distinctItems_iff] at hv
    rw [mapNumbers, mapNumbers, equals]
    induction items with
    | nil => simp [mapNumbersItems, equalsItems]
    | cons x rest ihrest =>
      obtain ⟨hx, hrest⟩ := List.forall_mem_cons.1 ih
      obtain ⟨hdx, hdrest⟩ := List.forall_mem_cons.1 hv
      rw [mapNumbersItems, mapNumbersItems, equalsItems, hx hdx, ihrest hrest hdrest]
      rfl
  | object entries ih =>
    rw [Distinct, distinctEntries_iff] at hv
    obtain ⟨hkeys, hv⟩ := hv
    -- each key is looked up among all entries, so those that are left are kept apart from them
    have hget : ∀ {key x}, (key, x) ∈ entries →
        Entries.get? key (mapNumbersEntries g entries) = some (x.mapNumbers g) := by
      intro key x hmem
      refine Entries.get?_of_mem ?_ (mem_mapNumbersEntries hmem)
      rw [keys_mapNumbersEntries]
      exact hkeys
    have hall : ∀ es : List (String × Value), (∀ e ∈ es, e ∈ entries) →
        equalsEntries (mapNumbersEntries f es) (mapNumbersEntries g entries) = true := by
      intro es hes
      induction es with
      | nil => simp [mapNumbersEntries, equalsEntries]
      | cons e rest ihrest =>
        obtain ⟨key, x⟩ := e
        obtain ⟨hmem, hrest⟩ := List.forall_mem_cons.1 hes
        have hx := ih _ hmem (hv _ hmem)
        rw [mapNumbersEntries, equalsEntries, hget hmem, ihrest hrest]
        simpa using hx
    have hlength : (mapNumbersEntries f entries).length = (mapNumbersEntries g entries).length := by
      have hfg := (keys_mapNumbersEntries (f := f) entries).trans
        (keys_mapNumbersEntries (f := g) entries).symm
      simpa [Entries.keys] using congrArg List.length hfg
    rw [mapNumbers, mapNumbers, equals, hall entries fun e he => he, hlength]
    simp

end Value

end PipeQuery
