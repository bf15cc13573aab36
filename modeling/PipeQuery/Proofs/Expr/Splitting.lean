import PipeQuery.Proofs.Expr.Calls
import PipeQuery.Proofs.Number.Whole
import PipeQuery.Proofs.Text.Search

/-!
# Splitting, joining and replacing

Calls that look for a text in a text find the same occurrences.  What `$split` gives are the
parts between them.  `$join` puts the parts together with the text itself or with another, and
`$replace` gives what `$join` makes with the other.  Under a limit `$split` gives the first parts,
and `$replace` fills the first gaps between all of them.  `$contains` holds if there is a gap.

The functions compute on characters, where all this is said of `splitText` and `fillGaps`.  Here
each call gives what its function computes, and `texts_are_searched_alike` puts them together.
-/

namespace PipeQuery

/-- A number that lets through `k` things: it is not below zero, and `k` is what is left of it
without its fraction, as far as an index reaches. -/
def Number.Limits (n : Number) (k : Nat) : Prop :=
  n.less .zero = false ∧ n.toNatUpTo (indexLimit - 1) = k

/-- A natural number lets through as many as it is, as far as an index reaches. -/
theorem limits_of_isInt {n : Number} {k : Nat} (h : n.IsInt k) :
    n.Limits (min k (indexLimit - 1)) := by
  refine ⟨?_, ?_⟩
  · rw [← Bool.not_eq_true, h.less_zero]
    omega
  · rw [toNatUpTo_of_isInt h, Int.toNat_natCast]

namespace Expr

variable {root v : Value} {text pattern new number list : Node} {s t r : String} {n : Number}
  {k i : Nat} {args : Arguments} {parts : List (List Char)} {first : Char} {more : List Char}
  {limit : Option Nat}

/-! ## What the functions make of their arguments -/

theorem limit_eq (hn : args.number i = .ok (some n)) (hk : n.Limits k) :
    args.limit i = .ok (some k) := by
  obtain ⟨hless, rfl⟩ := hk
  rw [Arguments.limit, hn]
  simp only [bind, Except.bind, hless, Bool.false_eq_true, if_false]
  rfl

theorem stringsOf_arrayOf (parts : List (List Char)) :
    Arguments.stringsOf (parts.map fun cs => .string (String.ofList cs)) = .ok parts := by
  induction parts with
  | nil => rfl
  | cons part parts ih =>
    rw [List.map_cons, Arguments.stringsOf, ih, String.toList_ofList]
    rfl

theorem apply_join (hlength : args.values.length ≤ 2) (ht : args.string 1 = .ok (some t))
    (hparts : args.value 0 = .ok (some (arrayOf parts))) :
    Function.apply .join args
      = .ok (some (.string (String.ofList (joinWith t.toList parts)))) := by
  have hmost : ¬ Function.join.mostArguments < args.values.length := Nat.not_lt.2 hlength
  have hitems : args.items 0 = .ok (parts.map fun cs => .string (String.ofList cs)) := by
    rw [Arguments.items, hparts]
    rfl
  rw [Function.apply, if_neg hmost]
  simp only [ht, hitems, bind, Except.bind, stringsOf_arrayOf]
  rfl

theorem apply_split_limit (hlength : args.values.length ≤ 3)
    (hs : args.string 0 = .ok (some s)) (ht : args.sought 1 = .ok (.text t.toList))
    (hlimit : args.limit 2 = .ok (some k)) :
    Function.apply .split args = .ok (some (arrayOf ((splitText t.toList s.toList).take k))) := by
  have hmost : ¬ Function.split.mostArguments < args.values.length := Nat.not_lt.2 hlength
  rw [Function.apply, if_neg hmost]
  simp only [hs, ht, hlimit]
  rfl

theorem apply_replace (hlength : args.values.length ≤ 4) (hs : args.string 0 = .ok (some s))
    (ht : args.sought 1 = .ok (.text t.toList)) (hr : args.string 2 = .ok (some r))
    (hlimit : args.limit 3 = .ok limit) (hne : t ≠ "") :
    Function.apply .replace args = .ok (some (.string (String.ofList
      (fillGaps r.toList t.toList limit (splitText t.toList s.toList))))) := by
  have hmost : ¬ Function.replace.mostArguments < args.values.length := Nat.not_lt.2 hlength
  obtain ⟨first, more, hpattern⟩ := List.exists_cons_of_ne_nil (mt String.toList_eq_nil_iff.1 hne)
  rw [hpattern] at ht
  rw [hpattern, splitText, ← replaceIn_eq_fillGaps, Function.apply, if_neg hmost]
  simp only [hs, ht, hr, hlimit]
  rfl

/-! ## Calls -/

theorem gives_join (hlist : Gives root v list (arrayOf parts))
    (ht : Gives root v text (.string t)) (position : Nat) :
    Gives root v (.call "join" [list, text] position)
      (.string (String.ofList (joinWith t.toList parts))) :=
  gives_call (f := .join) rfl (.cons hlist (.cons ht .nil))
    (apply_join (Nat.le_refl 2) rfl rfl) position

theorem gives_contains (hs : Gives root v text (.string s))
    (ht : Gives root v pattern (.string t)) (position : Nat) :
    Gives root v (.call "contains" [text, pattern] position)
      (.boolean (occursIn t.toList s.toList)) :=
  gives_call (f := .contains) rfl (.cons hs (.cons ht .nil)) rfl position

theorem gives_split (hs : Gives root v text (.string s)) (ht : Gives root v pattern (.string t))
    (position : Nat) : Gives root v (.call "split" [text, pattern] position)
      (arrayOf (splitText t.toList s.toList)) :=
  gives_call (f := .split) rfl (.cons hs (.cons ht .nil)) rfl position

theorem gives_split_limit (hs : Gives root v text (.string s))
    (ht : Gives root v pattern (.string t)) (hn : Gives root v number (.number n))
    (hk : n.Limits k) (position : Nat) :
    Gives root v (.call "split" [text, pattern, number] position)
      (arrayOf ((splitText t.toList s.toList).take k)) :=
  gives_call (f := .split) rfl (.cons hs (.cons ht (.cons hn .nil)))
    (apply_split_limit (Nat.le_refl 3) rfl rfl (limit_eq rfl hk)) position

theorem gives_replace (hs : Gives root v text (.string s)) (ht : Gives root v pattern (.string t))
    (hr : Gives root v new (.string r)) (hne : t ≠ "") (position : Nat) :
    Gives root v (.call "replace" [text, pattern, new] position) (.string (String.ofList
      (fillGaps r.toList t.toList none (splitText t.toList s.toList)))) :=
  gives_call (f := .replace) rfl (.cons hs (.cons ht (.cons hr .nil)))
    (apply_replace (Nat.le_succ 3) rfl rfl rfl rfl hne) position

theorem gives_replace_limit (hs : Gives root v text (.string s))
    (ht : Gives root v pattern (.string t)) (hr : Gives root v new (.string r))
    (hn : Gives root v number (.number n)) (hk : n.Limits k) (hne : t ≠ "") (position : Nat) :
    Gives root v (.call "replace" [text, pattern, new, number] position) (.string (String.ofList
      (fillGaps r.toList t.toList (some k) (splitText t.toList s.toList)))) :=
  gives_call (f := .replace) rfl (.cons hs (.cons ht (.cons hr (.cons hn .nil))))
    (apply_replace (Nat.le_refl 4) rfl rfl rfl (limit_eq rfl hk) hne) position

/-- The functions that look for a text in a text find the same occurrences.  `$split` and `$join`
with one text undo each other, also at the empty text.  What `$split` gives at a text that is not
empty are the parts between its occurrences, in which it does not occur; `$contains` holds if there
are several, which is if the text occurs, and `$replace` joins them with the new text.  Under a
limit `$split` gives so many parts, and `$replace` joins so many gaps with the new text and those
behind with the old one.  A limit that is a natural number is that many, as far as an index
reaches. -/
theorem texts_are_searched_alike (hs : Gives root v text (.string s))
    (ht : Gives root v pattern (.string t)) (p q : Nat) :
    Gives root v (.call "join" [.call "split" [text, pattern] p, pattern] q) (.string s)
      ∧ ∃ parts, Gives root v (.call "split" [text, pattern] p) (arrayOf parts)
        ∧ (∀ number n k, Gives root v number (.number n) → n.Limits k →
          Gives root v (.call "split" [text, pattern, number] p) (arrayOf (parts.take k)))
        ∧ (t ≠ "" →
          Gives root v (.call "contains" [text, pattern] p) (.boolean (decide (1 < parts.length)))
            ∧ (1 < parts.length ↔ t.toList <:+: s.toList)
            ∧ (∀ part ∈ parts, ¬ t.toList <:+: part)
            ∧ ∀ new r, Gives root v new (.string r) →
              (∃ u, Gives root v (.call "replace" [text, pattern, new] p) (.string u)
                ∧ Gives root v (.call "join" [.call "split" [text, pattern] p, new] q) (.string u))
              ∧ ∀ number n k, Gives root v number (.number n) → n.Limits k →
                Gives root v (.call "replace" [text, pattern, new, number] p)
                  (.string (String.ofList (fillGaps r.toList t.toList (some k) parts))))
        ∧ ∀ (n : Number) (k : Nat), n.IsInt k → n.Limits (min k (indexLimit - 1)) := by
  have hsplit := gives_split hs ht p
  refine ⟨?_, splitText t.toList s.toList, hsplit,
    fun _ _ _ hn hk => gives_split_limit hs ht hn hk p, fun hne => ?_,
    fun _ _ => limits_of_isInt⟩
  · have hjoin := gives_join hsplit ht q
    rwa [joinWith_splitText, String.ofList_toList] at hjoin
  · obtain ⟨first, more, hpattern⟩ :=
      List.exists_cons_of_ne_nil (mt String.toList_eq_nil_iff.1 hne)
    have hoccurs := occursIn_iff_one_lt_length first more s.toList
    refine ⟨?_, ?_, ?_, fun new r hr => ⟨⟨_, gives_replace hs ht hr hne p, ?_⟩,
      fun _ _ _ hn hk => gives_replace_limit hs ht hr hn hk hne p⟩⟩
    · have hcontains := gives_contains hs ht p
      rw [hpattern] at hcontains ⊢
      rwa [Bool.eq_iff_iff.2 (hoccurs.trans decide_eq_true_iff.symm)] at hcontains
    · rw [hpattern]
      exact hoccurs.symm.trans occursIn_iff
    · rw [hpattern]
      exact fun part hpart => not_infix_of_mem_partsAt hpart
    · rw [fillGaps_none]
      exact gives_join hsplit hr q

/-- Occurrences that overlap, of which the first one counts, and a limit of zero. -/
theorem texts_are_searched_alike_overlapping :
    Gives .null .null
        (.call "join" [.call "split" [.string "ababa", .string "aba"] 6, .string "aba"] 0)
        (.string "ababa")
      ∧ ∃ parts, Gives .null .null (.call "split" [.string "ababa", .string "aba"] 6)
          (arrayOf parts)
        ∧ Gives .null .null (.call "contains" [.string "ababa", .string "aba"] 6)
          (.boolean (decide (1 < parts.length)))
        ∧ Gives .null .null
          (.call "replace" [.string "ababa", .string "aba", .string "x", .number .zero] 6)
          (.string (String.ofList (fillGaps ['x'] ['a', 'b', 'a'] (some 0) parts))) := by
  have hs : Gives .null .null (.string "ababa") (.string "ababa") := rfl
  have ht : Gives .null .null (.string "aba") (.string "aba") := rfl
  obtain ⟨hjoin, parts, hsplit, -, hfound, hlimits⟩ := texts_are_searched_alike hs ht 6 0
  obtain ⟨hcontains, -, -, hreplace⟩ := hfound (by decide)
  have hzero := hlimits .zero 0 Number.isInt_zero
  exact ⟨hjoin, parts, hsplit, hcontains,
    (hreplace (.string "x") "x" rfl).2 (.number .zero) .zero 0 rfl hzero⟩

end Expr

end PipeQuery
