import Mathlib.Data.List.Nodup
import PipeQuery.Format.Csv
import PipeQuery.Number.Text
import PipeQuery.Proofs.Entries

/-!
# Fields of records as entries

When the first record names the fields, every other record becomes an object.  A field beyond
the header has a name made of its position.  Nothing keeps a header from using such a name
itself: two fields then have one key, and writing the second overwrites the first.

`keyed` are the fields of a record each under its key, with nothing overwritten.  Their keys are
distinct exactly if the header stands `Apart` from the names that are made
(`nodup_keys_keyed_iff`).  So a row keeps all fields of its record if this is so and loses one if
it is not, which `rows_keep_fields_but_for_clashes` says of every text.
-/

namespace PipeQuery.Csv

/-- The fields of a record, each under its key. -/
def keyed (header fields : List String) : Entries Value :=
  fields.zipIdx.map fun (field, i) => (columnKey header i, .string field)

/-- No key of a field beyond the header, among so many fields, is a name in the header. -/
def Apart (header : List String) (count : Nat) : Prop :=
  ∀ i < count, header.length ≤ i → columnKey header i ∉ header

instance (header : List String) (count : Nat) : Decidable (Apart header count) :=
  inferInstanceAs (Decidable (∀ i < count, header.length ≤ i → columnKey header i ∉ header))

/-- The records that become rows, as their fields. -/
def keptRecords (opts : CsvOptions) (text : String) : List (List String) :=
  let rows := (records opts text).map (·.fields)
  if opts.skipEmptyLines then rows.filter fun fields => !fields.all String.isEmpty else rows

variable {header fields : List String} {i j : Nat}

/-! ## Keys of columns -/

theorem columnKey_of_lt (h : i < header.length) : columnKey header i = header[i] := by
  rw [columnKey, List.getElem?_eq_getElem h]

theorem columnKey_of_le (h : header.length ≤ i) : columnKey header i = "col" ++ toString i := by
  rw [columnKey, List.getElem?_eq_none h]

theorem columnKey_mem (h : i < header.length) : columnKey header i ∈ header := by
  rw [columnKey_of_lt h]
  exact List.getElem_mem h

/-- The names that are made of positions are distinct. -/
theorem eq_of_columnKey_eq (hi : header.length ≤ i) (hj : header.length ≤ j)
    (h : columnKey header i = columnKey header j) : i = j := by
  rw [columnKey_of_le hi, columnKey_of_le hj, String.append_right_inj] at h
  have hdigits : decimalChars i = decimalChars j := by
    simpa [decimalChars] using congrArg String.toList h
  rw [← ofDigitChars_decimalChars i, hdigits, ofDigitChars_decimalChars]

/-- Distinct names of a header that stands apart, and names made of positions, are distinct. -/
theorem columnKey_inj (h : header.Nodup) (hapart : Apart header fields.length)
    (hi : i < fields.length) (hj : j < fields.length)
    (hij : columnKey header i = columnKey header j) : i = j := by
  rcases Nat.lt_or_ge i header.length with hih | hih
  · rcases Nat.lt_or_ge j header.length with hjh | hjh
    · rw [columnKey_of_lt hih, columnKey_of_lt hjh] at hij
      exact (List.Nodup.getElem_inj_iff h).1 hij
    · exact absurd (hij ▸ columnKey_mem hih) (hapart j hj hjh)
  · rcases Nat.lt_or_ge j header.length with hjh | hjh
    · exact absurd (hij ▸ columnKey_mem hjh) (hapart i hi hih)
    · exact eq_of_columnKey_eq hih hjh hij

theorem keys_keyed (header fields : List String) :
    Entries.keys (keyed header fields) = (List.range fields.length).map (columnKey header) := by
  have hkeys : Entries.keys (keyed header fields)
      = (fields.zipIdx.map Prod.snd).map (columnKey header) := by
    rw [Entries.keys, keyed, List.map_map, List.map_map]
    rfl
  rw [hkeys, List.zipIdx_map_snd, List.range_eq_range']

/-- No key comes twice exactly if the header stands apart from the names that are made. -/
theorem nodup_keys_keyed_iff (h : header.Nodup) :
    (Entries.keys (keyed header fields)).Nodup ↔ Apart header fields.length := by
  rw [keys_keyed]
  constructor
  · intro hnodup i hi hle hmem
    obtain ⟨j, hj, hname⟩ := List.getElem_of_mem hmem
    have hsame : columnKey header j = columnKey header i := by rw [columnKey_of_lt hj, hname]
    have hji : j = i := List.inj_on_of_nodup_map hnodup (List.mem_range.2 (by omega))
      (List.mem_range.2 hi) hsame
    omega
  · intro hapart
    refine List.Nodup.map_on (fun i hi j hj hij => ?_) List.nodup_range
    exact columnKey_inj h hapart (List.mem_range.1 hi) (List.mem_range.1 hj) hij

/-! ## Rows -/

/-- A row is made by writing the fields one after the other. -/
theorem rowFrom_eq_insertAll (header : List String) (i : Nat) (entries : Entries Value)
    (fields : List String) :
    rowFrom header i entries fields = Entries.insertAll
      ((fields.zipIdx i).map fun (field, i) => (columnKey header i, .string field)) entries := by
  induction fields generalizing i entries with
  | nil => rfl
  | cons field rest ih =>
    rw [rowFrom, ih]
    rfl

theorem objectRow_eq (header fields : List String) :
    objectRow header fields = .object (Entries.ofList (keyed header fields)) :=
  congrArg Value.object (rowFrom_eq_insertAll header 0 [] fields)

/-- Fields with distinct keys are the entries of the row. -/
theorem objectRow_of_apart (h : header.Nodup) (hapart : Apart header fields.length) :
    objectRow header fields = .object (keyed header fields) := by
  rw [objectRow_eq, Entries.ofList_of_nodup ((nodup_keys_keyed_iff h).2 hapart)]

/-- Where a key comes twice, the row has fewer entries than the record has fields. -/
theorem length_ofList_keyed_lt (h : header.Nodup) (hclash : ¬ Apart header fields.length) :
    (Entries.ofList (keyed header fields)).length < fields.length := by
  have hlt := Entries.length_ofList_lt (mt (nodup_keys_keyed_iff h).1 hclash)
  simpa [keyed] using hlt

/-! ## Reading -/

theorem checkFrom_eq_ok_iff {expected i : Nat} {rs : List Record} :
    checkFrom expected i rs = .ok () ↔ ∀ r ∈ rs, r.fields.length = expected := by
  induction rs generalizing i with
  | nil => simp [checkFrom]
  | cons r rest ih =>
    rw [checkFrom, List.forall_mem_cons]
    split
    next hr => rw [ih, and_iff_right hr]
    next hr => exact iff_of_false (by simp) fun hall => hr hall.1

/-- The check passes if every record has as many fields as the first. -/
theorem check_eq_ok_iff {rs : List Record} :
    check rs = .ok () ↔ ∀ first ∈ rs.head?, ∀ r ∈ rs, r.fields.length = first.fields.length := by
  cases rs with
  | nil => simp [check]
  | cons first rest => simp [check, checkFrom_eq_ok_iff]

variable {opts : CsvOptions} {text : String} {rest : List (List String)}

theorem read_eq_ok (h : opts.relaxColumnCount = true ∨ check (records opts text) = .ok ()) :
    read opts text = .ok (table opts.columns (keptRecords opts text)) := by
  unfold read keptRecords
  cases hrelax : opts.relaxColumnCount with
  | true => rfl
  | false =>
    have hcheck := h.resolve_left (by simp [hrelax])
    simp only [hcheck]
    rfl

theorem exists_record_of_mem (h : fields ∈ keptRecords opts text) :
    ∃ r ∈ records opts text, r.fields = fields := by
  unfold keptRecords at h
  dsimp only at h
  split at h
  · exact List.mem_map.1 (List.mem_filter.1 h).1
  · exact List.mem_map.1 h

/-- Records that are held to one length have no field beyond the header. -/
theorem apart_of_check (hcheck : check (records opts text) = .ok ())
    (hheader : header ∈ keptRecords opts text) (hfields : fields ∈ keptRecords opts text) :
    Apart header fields.length := by
  obtain ⟨r, hr, rfl⟩ := exists_record_of_mem hheader
  obtain ⟨r', hr', rfl⟩ := exists_record_of_mem hfields
  have hlengths := check_eq_ok_iff.1 hcheck
  cases hfirst : (records opts text).head? with
  | none =>
    rw [List.head?_eq_none_iff.1 hfirst] at hr
    cases hr
  | some first =>
    have hlength := hlengths first hfirst r hr
    have hlength' := hlengths first hfirst r' hr'
    intro i hi hle
    omega

/-- With distinct names in the first record of a text, every other record becomes an object.  The
object has all fields of the record in their order, each under its name in the header or beyond
that under the name made of its position, if no name in the header is one of those that are made;
if one is, a field is lost.  Records that are held to one length lose none. -/
theorem rows_keep_fields_but_for_clashes (hcolumns : opts.columns = true)
    (hread : opts.relaxColumnCount = true ∨ check (records opts text) = .ok ())
    (hrecords : keptRecords opts text = header :: rest) (hnames : header.Nodup) :
    read opts text = .ok (.array (rest.map (objectRow header)))
      ∧ ∀ fields ∈ rest,
        (Apart header fields.length → objectRow header fields = .object (keyed header fields))
          ∧ (¬ Apart header fields.length → ∃ entries,
            objectRow header fields = .object entries ∧ entries.length < fields.length)
          ∧ (opts.relaxColumnCount = false → Apart header fields.length) := by
  refine ⟨?_, fun fields hfields => ⟨objectRow_of_apart hnames, fun hclash => ?_, fun hrelax => ?_⟩⟩
  · rw [read_eq_ok hread, hcolumns, hrecords]
    rfl
  · exact ⟨_, objectRow_eq header fields, length_ofList_keyed_lt hnames hclash⟩
  · have hcheck := hread.resolve_left (by simp [hrelax])
    refine apart_of_check hcheck ?_ ?_
    · rw [hrecords]
      exact List.mem_cons_self
    · rw [hrecords]
      exact List.mem_cons_of_mem _ hfields

/-- A record with a field beyond the header, and one that is shorter. -/
theorem rows_keep_fields_but_for_clashes_ragged :
    keptRecords { columns := true, relaxColumnCount := true } "a,b\n1,2,3\n4"
        = [["a", "b"], ["1", "2", "3"], ["4"]]
      ∧ read { columns := true, relaxColumnCount := true } "a,b\n1,2,3\n4"
        = .ok (.array [.object (keyed ["a", "b"] ["1", "2", "3"]),
          .object (keyed ["a", "b"] ["4"])])
      ∧ keyed ["a", "b"] ["1", "2", "3"]
        = [("a", .string "1"), ("b", .string "2"), ("col2", .string "3")] := by
  have hrecords : keptRecords { columns := true, relaxColumnCount := true } "a,b\n1,2,3\n4"
      = [["a", "b"], ["1", "2", "3"], ["4"]] := by decide +kernel
  obtain ⟨hread, hrows⟩ := rows_keep_fields_but_for_clashes rfl (Or.inl rfl) hrecords (by decide)
  refine ⟨hrecords, ?_, rfl⟩
  have hlong := (hrows ["1", "2", "3"] (by simp)).1 (by decide +kernel)
  have hshort := (hrows ["4"] (by simp)).1 (by decide +kernel)
  rw [hread, List.map_cons, List.map_cons, hlong, hshort]
  rfl

/-- A name in the header that is made for a field beyond it loses the field under that name. -/
theorem rows_lose_field :
    read { columns := true, relaxColumnCount := true } "a,col2\n1,2,3"
        = .ok (.array [.object [("a", .string "1"), ("col2", .string "3")]])
      ∧ ["a", "col2"].Nodup
      ∧ keyed ["a", "col2"] ["1", "2", "3"]
        = [("a", .string "1"), ("col2", .string "2"), ("col2", .string "3")] := by
  have hrecords : keptRecords { columns := true, relaxColumnCount := true } "a,col2\n1,2,3"
      = [["a", "col2"], ["1", "2", "3"]] := by decide +kernel
  refine ⟨?_, by decide, rfl⟩
  rw [read_eq_ok (Or.inl rfl), hrecords]
  rfl

end PipeQuery.Csv
