import PipeQuery.Text.Search

/-!
# Occurrences of a text

Splitting, replacing and asking whether a text occurs each look for it on their own.  They go
through a text alike: an occurrence is passed over as a whole, and any other character by itself
(`by_occurrences`).

What they find is said of the parts that splitting leaves.  `fillGaps` puts one text in the first
gaps between parts, up to a limit, and another in those behind.  `replaceIn_eq_fillGaps` says that
replacing does just this.  Where nothing is replaced it says that the parts make up the text
(`joinWith_partsAt`).  There is a gap exactly if the text occurs (`occursIn_iff_one_lt_length`),
and it occurs in none of the parts (`not_infix_of_mem_partsAt`).
-/

namespace PipeQuery

variable {first c : Char} {more part rest new old : List Char} {parts : List (List Char)}

/-- The parts with `new` in as many of the gaps between them as `limit` says, and `old` in the
others. -/
def fillGaps (new old : List Char) : (limit : Option Nat) → List (List Char) → List Char
  | _, [] => []
  | _, [part] => part
  | limit, part :: rest =>
    part ++ (if limit = some 0 then old else new) ++ fillGaps new old (limit.map (· - 1)) rest

/-! ## Occurrences -/

/-- What holds of the empty text, and goes on from behind an occurrence to the text that begins
with it and from behind any other character to the text that begins with that, holds of all
texts. -/
@[elab_as_elim]
theorem by_occurrences (first : Char) (more : List Char) {motive : List Char → Prop}
    (nil : motive [])
    (occurs : ∀ c rest, (first :: more).isPrefixOf (c :: rest) = true →
      motive (rest.drop more.length) → motive (c :: rest))
    (other : ∀ c rest, ¬ (first :: more).isPrefixOf (c :: rest) = true → motive rest →
      motive (c :: rest)) (cs : List Char) : motive cs :=
  partsAt.induct first more (fun _ cs => motive cs) (fun _ => nil)
    (fun _ c rest => occurs c rest) (fun _ c rest => other c rest) [] cs

theorem eq_append_of_isPrefixOf (h : (first :: more).isPrefixOf (c :: rest) = true) :
    c :: rest = (first :: more) ++ rest.drop more.length := by
  obtain ⟨behind, hbehind⟩ := List.isPrefixOf_iff_prefix.1 h
  obtain ⟨rfl, rfl⟩ : first = c ∧ more ++ behind = rest := List.cons.inj hbehind
  rw [List.drop_left]
  rfl

/-! ## Parts -/

theorem partsAt_ne_nil (first : Char) (more part cs : List Char) :
    partsAt first more part cs ≠ [] := by
  fun_induction partsAt first more part cs with
  | case1 => simp
  | case2 => simp
  | case3 _ _ _ _ ih => exact ih

/-- What precedes in a part stands in front of it. -/
theorem partsAt_append (front part cs : List Char) :
    partsAt first more (front ++ part) cs
      = (partsAt first more part cs).modifyHead (front ++ ·) := by
  fun_induction partsAt first more part cs with
  | case1 part => rw [partsAt, List.modifyHead_cons]
  | case2 part c rest h => rw [partsAt, if_pos h, List.modifyHead_cons]
  | case3 part c rest h ih => rw [partsAt, if_neg h, List.append_assoc, ih]

theorem partsAt_nil : partsAt first more [] [] = [[]] := by rw [partsAt]

theorem partsAt_of_occurs (h : (first :: more).isPrefixOf (c :: rest) = true) :
    partsAt first more [] (c :: rest) = [] :: partsAt first more [] (rest.drop more.length) := by
  rw [partsAt, if_pos h]

theorem partsAt_cons (h : ¬ (first :: more).isPrefixOf (c :: rest) = true) :
    partsAt first more [] (c :: rest) = (partsAt first more [] rest).modifyHead (c :: ·) := by
  rw [partsAt, if_neg h]
  exact partsAt_append [c] [] rest

/-- The first part is what the text begins with. -/
theorem prefix_of_partsAt {cs : List Char} (h : partsAt first more [] cs = part :: parts) :
    part <+: cs := by
  induction cs generalizing part parts with
  | nil =>
    rw [partsAt_nil] at h
    cases h
    exact List.prefix_rfl
  | cons c rest ih =>
    by_cases hoccurs : (first :: more).isPrefixOf (c :: rest) = true
    · rw [partsAt_of_occurs hoccurs] at h
      cases h
      exact List.nil_prefix
    · obtain ⟨head, behind, hparts⟩ :=
        List.exists_cons_of_ne_nil (partsAt_ne_nil first more [] rest)
      rw [partsAt_cons hoccurs, hparts, List.modifyHead_cons] at h
      cases h
      exact List.cons_prefix_cons.2 ⟨rfl, ih hparts⟩

/-- The text does not occur in a part between its occurrences. -/
theorem not_infix_of_mem_partsAt {cs : List Char} (h : part ∈ partsAt first more [] cs) :
    ¬ first :: more <:+: part := by
  induction cs using by_occurrences first more generalizing part with
  | nil =>
    rw [partsAt_nil, List.mem_singleton] at h
    rw [h, List.infix_nil]
    exact List.cons_ne_nil _ _
  | occurs c rest hoccurs ih =>
    rw [partsAt_of_occurs hoccurs] at h
    rcases List.mem_cons.1 h with rfl | hmem
    · rw [List.infix_nil]
      exact List.cons_ne_nil _ _
    · exact ih hmem
  | other c rest hother ih =>
    obtain ⟨head, behind, hparts⟩ :=
      List.exists_cons_of_ne_nil (partsAt_ne_nil first more [] rest)
    rw [partsAt_cons hother, hparts, List.modifyHead_cons] at h
    rcases List.mem_cons.1 h with rfl | hmem
    · rw [List.infix_cons_iff, not_or]
      refine ⟨fun hbegins => hother ?_, ih (hparts ▸ List.mem_cons_self)⟩
      have hhead : c :: head <+: c :: rest :=
        List.cons_prefix_cons.2 ⟨rfl, prefix_of_partsAt hparts⟩
      exact List.isPrefixOf_iff_prefix.2 (hbegins.trans hhead)
    · exact ih (hparts ▸ List.mem_cons_of_mem _ hmem)

/-! ## Gaps -/

theorem joinWith_cons (sep part : List Char) (h : parts ≠ []) :
    joinWith sep (part :: parts) = part ++ sep ++ joinWith sep parts := by
  cases parts with
  | nil => exact absurd rfl h
  | cons => rfl

theorem fillGaps_cons (limit : Option Nat) (part : List Char) (h : parts ≠ []) :
    fillGaps new old limit (part :: parts)
      = part ++ (if limit = some 0 then old else new)
        ++ fillGaps new old (limit.map (· - 1)) parts := by
  cases parts with
  | nil => exact absurd rfl h
  | cons => rw [fillGaps]; simp

theorem fillGaps_modifyHead (limit : Option Nat) (c : Char) (h : parts ≠ []) :
    fillGaps new old limit (parts.modifyHead (c :: ·)) = c :: fillGaps new old limit parts := by
  match parts with
  | [] => exact absurd rfl h
  | [part] => rw [List.modifyHead_cons, fillGaps, fillGaps]
  | part :: next :: parts =>
    rw [List.modifyHead_cons, fillGaps_cons limit _ (List.cons_ne_nil _ _),
      fillGaps_cons limit _ (List.cons_ne_nil _ _)]
    simp

/-- Without a limit all gaps are filled alike. -/
theorem fillGaps_none (new old : List Char) (parts : List (List Char)) :
    fillGaps new old none parts = joinWith new parts := by
  induction parts with
  | nil => rfl
  | cons part parts ih =>
    cases parts with
    | nil => rfl
    | cons next parts =>
      rw [fillGaps_cons none part (List.cons_ne_nil _ _),
        joinWith_cons new part (List.cons_ne_nil _ _), ← ih]
      rfl

/-- At the limit the gaps stay what they are. -/
theorem fillGaps_zero (new old : List Char) (parts : List (List Char)) :
    fillGaps new old (some 0) parts = joinWith old parts := by
  induction parts with
  | nil => rfl
  | cons part parts ih =>
    cases parts with
    | nil => rfl
    | cons next parts =>
      rw [fillGaps_cons (some 0) part (List.cons_ne_nil _ _),
        joinWith_cons old part (List.cons_ne_nil _ _), ← ih]
      rfl

/-- The parts with the text itself in the gaps make up what was split. -/
theorem joinWith_partsAt (first : Char) (more cs : List Char) :
    joinWith (first :: more) (partsAt first more [] cs) = cs := by
  induction cs using by_occurrences first more with
  | nil => rw [partsAt_nil, joinWith]
  | occurs c rest h ih =>
    rw [partsAt_of_occurs h, joinWith_cons _ _ (partsAt_ne_nil first more [] _), ih,
      List.nil_append, ← eq_append_of_isPrefixOf h]
  | other c rest h ih =>
    rw [partsAt_cons h, ← fillGaps_none _ [],
      fillGaps_modifyHead none c (partsAt_ne_nil first more [] _), fillGaps_none, ih]

theorem replaceIn_zero (first : Char) (more new cs : List Char) :
    replaceIn first more new (some 0) cs = cs := by
  induction cs with
  | nil => rw [replaceIn]
  | cons c rest ih => rw [replaceIn, if_neg (by simp), ih]

/-- Replacing fills gaps between the parts of a text. -/
theorem replaceIn_eq_fillGaps (first : Char) (more new : List Char) (limit : Option Nat)
    (cs : List Char) : replaceIn first more new limit cs
      = fillGaps new (first :: more) limit (partsAt first more [] cs) := by
  induction cs using by_occurrences first more generalizing limit with
  | nil => rw [replaceIn, partsAt_nil, fillGaps]
  | occurs c rest h ih =>
    -- at the limit an occurrence is no longer passed over as a whole
    by_cases hlimit : limit = some 0
    · rw [hlimit, replaceIn_zero, fillGaps_zero, joinWith_partsAt]
    · rw [replaceIn, if_pos (by simp [hlimit, h]), partsAt_of_occurs h,
        fillGaps_cons limit [] (partsAt_ne_nil first more [] _), if_neg hlimit, ih,
        List.nil_append]
  | other c rest h ih =>
    rw [replaceIn, if_neg (by simp [h]), partsAt_cons h,
      fillGaps_modifyHead limit c (partsAt_ne_nil first more [] _), ih]

/-! ## Whether a text occurs -/

/-- A text occurs exactly if its characters stand in a row somewhere. -/
theorem occursIn_iff {sought cs : List Char} : occursIn sought cs = true ↔ sought <:+: cs := by
  induction cs with
  | nil => rw [occursIn, List.infix_nil, List.isEmpty_iff]
  | cons c rest ih =>
    rw [occursIn, Bool.or_eq_true, ih, List.isPrefixOf_iff_prefix, List.infix_cons_iff]

/-- A text occurs exactly if there is a gap between parts. -/
theorem occursIn_iff_one_lt_length (first : Char) (more cs : List Char) :
    occursIn (first :: more) cs = true ↔ 1 < (partsAt first more [] cs).length := by
  induction cs with
  | nil => simp [occursIn, partsAt_nil]
  | cons c rest ih =>
    rw [occursIn, Bool.or_eq_true]
    by_cases h : (first :: more).isPrefixOf (c :: rest) = true
    · have hbehind := List.length_pos_iff.2
        (partsAt_ne_nil first more [] (rest.drop more.length))
      rw [partsAt_of_occurs h, List.length_cons]
      exact iff_of_true (Or.inl h) (by omega)
    · rw [partsAt_cons h, List.length_modifyHead, ← ih, or_iff_right h]

/-! ## Splitting -/

/-- What splitting takes apart, joining puts together, also at the empty text. -/
theorem joinWith_splitText (sep cs : List Char) : joinWith sep (splitText sep cs) = cs := by
  cases sep with
  | cons first more => exact joinWith_partsAt first more cs
  | nil =>
    rw [splitText]
    induction cs with
    | nil => rfl
    | cons c rest ih =>
      rw [List.map_cons]
      cases rest with
      | nil => rfl
      | cons d rest => rw [joinWith_cons [] [c] (by simp), ih]; rfl

end PipeQuery
