import PipeQuery.Proofs.Expr.Calls
import PipeQuery.Proofs.Number.Whole

/-!
# Parts of a text by position

A part of a text begins at a number, which may count from the end, and has as many characters as
another number says.  Whatever the numbers are, the part is a run of characters of the text
(`partOf_infix`), and what they are cut to on the way fits in 64 bits (`origin_fits`).

The numbers are rounded down and cut to what positions and counts can be.  For integers this
changes nothing as long as they or the length of the text stay below `2 ^ 63`: a part begins at
the integer or at the end of the text (`startOf_of_nonneg`), or at so many characters before the
end or at the beginning (`startOf_of_neg`).  So two parts that meet at one integer make up a whole
(`substring_cuts`).
-/

namespace PipeQuery.Expr

variable {root v : Value} {text start count far : Node} {s : String} {cs : List Char}
  {a b c : Number} {k n : Int} {length : Nat}

/-! ## Where parts begin and how long they are -/

/-- A part is a run of characters of the text. -/
theorem partOf_infix (cs : List Char) (start : Number) (count : Option Number) :
    partOf cs start count <:+: cs := by
  have hbehind := (List.drop_suffix (startOf cs.length start) cs).isInfix
  unfold partOf
  dsimp only
  split
  · exact hbehind
  · split
    · exact List.nil_infix
    · exact (List.take_prefix _ _).isInfix.trans hbehind

/-- The integer that a number stands for where a part is to begin, which may be below zero. -/
def origin (n : Number) : Int := n.floor.toIntWithin (-2 ^ 63) (2 ^ 63 - 1)

theorem startOf_eq (length : Nat) (a : Number) :
    startOf length a
      = if origin a < 0 then (length + origin a).toNat else min (origin a).toNat length := rfl

/-- No step from a number to the beginning of a part leaves the integers with 64 bits. -/
theorem origin_fits (a : Number) (h : length < 2 ^ 63) :
    -2 ^ 63 ≤ origin a ∧ origin a < 2 ^ 63
      ∧ (origin a < 0 → -2 ^ 63 ≤ length + origin a ∧ length + origin a < 2 ^ 63) := by
  have hrange : -2 ^ 63 ≤ origin a ∧ origin a ≤ 2 ^ 63 - 1 :=
    toIntWithin_mem (by decide) (by decide) a.floor
  omega

theorem origin_of_isInt (h : a.IsInt k) : origin a = max (-2 ^ 63) (min k (2 ^ 63 - 1)) :=
  toIntWithin_of_isInt h.floor (by decide) (by decide)

/-- From zero on a part begins at the integer, or at the end of a text that is shorter. -/
theorem startOf_of_nonneg (h : a.IsInt k) (hk : 0 ≤ k) (hcut : k < 2 ^ 63 ∨ length < 2 ^ 63) :
    startOf length a = min k.toNat length := by
  rw [startOf_eq, origin_of_isInt h, if_neg (by omega)]
  omega

/-- Below zero a part begins so many characters before the end, or at the beginning of a text
that is shorter. -/
theorem startOf_of_neg (h : a.IsInt (-k)) (hk : 0 < k) (hcut : k < 2 ^ 63 ∨ length < 2 ^ 63) :
    startOf length a = length - k.toNat := by
  rw [startOf_eq, origin_of_isInt h, if_pos (by omega)]
  omega

/-- A part with a natural number as its count has so many characters, or all there are. -/
theorem partOf_some (h : b.IsInt n) (hn : 0 ≤ n) (hcut : n < 2 ^ 63 ∨ cs.length < 2 ^ 63)
    (start : Number) :
    partOf cs start (some b) = (cs.drop (startOf cs.length start)).take n.toNat := by
  have hempty : (b.less .zero || b.equals .zero) = true ↔ n = 0 := by
    rw [Bool.or_eq_true, h.less_zero, h.equals_iff Number.isInt_zero]
    omega
  unfold partOf
  dsimp only
  split
  next hnone =>
    rw [hempty.1 hnone]
    rfl
  next =>
    rw [toNatUpTo_of_isInt h.floor, List.take_eq_take_iff, List.length_drop, indexLimit]
    omega

/-- Where one part ends the next one begins, if its beginning is the sum. -/
theorem partOf_append (ha : a.IsInt k) (hb : b.IsInt n) (hc : c.IsInt (k + n)) (hk : 0 ≤ k)
    (hn : 0 ≤ n) (hcut : k + n < 2 ^ 63 ∨ cs.length < 2 ^ 63) :
    partOf cs a (some b) ++ partOf cs c none = partOf cs a none := by
  have hfar : startOf cs.length c = min (k + n).toNat cs.length :=
    startOf_of_nonneg hc (by omega) hcut
  have hnear : startOf cs.length a = min k.toNat cs.length :=
    startOf_of_nonneg ha hk (by omega)
  have hrest : cs.drop (min (k + n).toNat cs.length)
      = (cs.drop (min k.toNat cs.length)).drop n.toNat := by
    rw [List.drop_drop, List.drop_eq_drop_iff]
    omega
  rw [partOf_some hb hn (by omega), partOf, partOf, hfar, hnear, hrest]
  exact List.take_append_drop _ _

/-! ## Calls -/

theorem gives_substring (hs : Gives root v text (.string s))
    (ha : Gives root v start (.number a)) (position : Nat) :
    Gives root v (.call "substring" [text, start] position)
      (.string (String.ofList (partOf s.toList a none))) :=
  gives_call (f := .substring) rfl (.cons hs (.cons ha .nil)) rfl position

theorem gives_substring_count (hs : Gives root v text (.string s))
    (ha : Gives root v start (.number a)) (hb : Gives root v count (.number b))
    (position : Nat) :
    Gives root v (.call "substring" [text, start, count] position)
      (.string (String.ofList (partOf s.toList a (some b)))) :=
  gives_call (f := .substring) rfl (.cons hs (.cons ha (.cons hb .nil))) rfl position

/-- Two parts that meet make up what is behind the beginning of the first one. -/
theorem gives_concat_substring (hs : Gives root v text (.string s))
    (hstart : Gives root v start (.number a)) (hcount : Gives root v count (.number b))
    (hfar : Gives root v far (.number c)) (ha : a.IsInt k) (hb : b.IsInt n)
    (hc : c.IsInt (k + n)) (hk : 0 ≤ k) (hn : 0 ≤ n)
    (hcut : k + n < 2 ^ 63 ∨ s.length < 2 ^ 63) (p q o : Nat) :
    Gives root v (.binary .concat (.call "substring" [text, start, count] p)
        (.call "substring" [text, far] q) o)
      (.string (String.ofList (partOf s.toList a none))) := by
  have hboth := gives_concat (gives_substring_count hs hstart hcount p)
    (gives_substring hs hfar q) o
  rwa [← String.ofList_append, partOf_append ha hb hc hk hn hcut] at hboth

/-- A part of a text is a run of its characters, whatever numbers say where it begins and how
long it is: no step on the way leaves the range of its words.  For integers a part ends where the
next one begins, so that the part before a cut and the part behind it make up the text, and so
they do behind any beginning; and a part that begins below zero is the end of the text with so
many characters.  Beyond `2 ^ 63` this needs a text that is shorter, as every text in a memory
is. -/
theorem substring_cuts (hs : Gives root v text (.string s)) (p q o : Nat) :
    (∀ start a, Gives root v start (.number a) →
      (∃ u, Gives root v (.call "substring" [text, start] p) (.string u)
        ∧ u.toList <:+: s.toList)
      ∧ (∀ count b, Gives root v count (.number b) →
        ∃ u, Gives root v (.call "substring" [text, start, count] p) (.string u)
          ∧ u.toList <:+: s.toList)
      ∧ (s.length < 2 ^ 63 → -2 ^ 63 ≤ origin a ∧ origin a < 2 ^ 63
        ∧ (origin a < 0 → -2 ^ 63 ≤ s.length + origin a ∧ s.length + origin a < 2 ^ 63)))
    ∧ (∀ zero z cut a, ∀ k : Int, Gives root v zero (.number z) → Gives root v cut (.number a) →
      z.IsInt 0 → a.IsInt k → 0 ≤ k → (k < 2 ^ 63 ∨ s.length < 2 ^ 63) →
      Gives root v (.binary .concat (.call "substring" [text, zero, cut] p)
        (.call "substring" [text, cut] q) o) (.string s))
    ∧ (∀ start a count b far c, ∀ k n : Int, Gives root v start (.number a) →
      Gives root v count (.number b) → Gives root v far (.number c) →
      a.IsInt k → b.IsInt n → c.IsInt (k + n) → 0 ≤ k → 0 ≤ n →
      (k + n < 2 ^ 63 ∨ s.length < 2 ^ 63) →
      ∃ u, Gives root v (.call "substring" [text, start] p) (.string u)
        ∧ Gives root v (.binary .concat (.call "substring" [text, start, count] p)
          (.call "substring" [text, far] q) o) (.string u))
    ∧ ∀ back a, ∀ k : Int, Gives root v back (.number a) → a.IsInt (-k) → 1 ≤ k →
      (k < 2 ^ 63 ∨ s.length < 2 ^ 63) →
      ∃ u, Gives root v (.call "substring" [text, back] p) (.string u)
        ∧ u.toList <:+ s.toList ∧ u.length = min k.toNat s.length := by
  refine ⟨fun start a ha => ⟨⟨_, gives_substring hs ha p, ?_⟩, fun count b hb =>
    ⟨_, gives_substring_count hs ha hb p, ?_⟩, origin_fits a⟩, ?_, ?_, ?_⟩
  · rw [String.toList_ofList]
    exact partOf_infix s.toList a none
  · rw [String.toList_ofList]
    exact partOf_infix s.toList a (some b)
  · intro zero z cut a k hzero hcut hz ha hk hlength
    have hsum : a.IsInt (0 + k) := by rwa [Int.zero_add]
    have hwhole := gives_concat_substring hs hzero hcut hcut hz ha hsum (Int.le_refl 0) hk
      (by omega) p q o
    rwa [partOf, startOf_of_nonneg hz (Int.le_refl 0) (by omega), Int.toNat_zero, Nat.zero_min,
      List.drop_zero, String.ofList_toList] at hwhole
  · intro start a count b far c k n hstart hcount hfar ha hb hc hk hn hlength
    exact ⟨_, gives_substring hs hstart p,
      gives_concat_substring hs hstart hcount hfar ha hb hc hk hn hlength p q o⟩
  · intro back a k hback ha hk hlength
    refine ⟨_, gives_substring hs hback p, ?_, ?_⟩
    · rw [String.toList_ofList]
      exact List.drop_suffix _ _
    · rw [partOf, startOf_of_neg ha (by omega) (by rwa [String.length_toList]),
        String.length_ofList, List.length_drop, String.length_toList]
      omega

/-- A cut within a text, one behind its end, and more characters from the end than there are. -/
theorem substring_cuts_within_and_behind :
    Gives .null .null (.binary .concat
        (.call "substring" [.string "héllo", .number (.ofInt 0), .number (.ofInt 2)] 0)
        (.call "substring" [.string "héllo", .number (.ofInt 2)] 0) 0) (.string "héllo")
      ∧ Gives .null .null (.binary .concat
        (.call "substring" [.string "héllo", .number (.ofInt 0), .number (.ofInt 9)] 0)
        (.call "substring" [.string "héllo", .number (.ofInt 9)] 0) 0) (.string "héllo")
      ∧ (∃ u, Gives .null .null
          (.call "substring" [.string "héllo", .number (.ofInt 1)] 0) (.string u)
        ∧ Gives .null .null (.binary .concat
          (.call "substring" [.string "héllo", .number (.ofInt 1), .number (.ofInt 3)] 0)
          (.call "substring" [.string "héllo", .number (.ofInt (1 + 3))] 0) 0) (.string u))
      ∧ (∃ u, Gives .null .null
          (.call "substring" [.string "héllo", .number (.infinite true), .number .nan] 0)
          (.string u) ∧ u.toList <:+: "héllo".toList)
      ∧ ∃ u, Gives .null .null
          (.call "substring" [.string "héllo", .number (.ofInt (-7))] 0) (.string u)
        ∧ u.toList <:+ "héllo".toList ∧ u.length = min (7 : Int).toNat "héllo".length := by
  have hs : Gives .null .null (.string "héllo") (.string "héllo") := rfl
  obtain ⟨hparts, hwhole, hbehind, hback⟩ := substring_cuts hs 0 0 0
  have hint : ∀ n : Int, n.natAbs ≤ 2 ^ 53 → (Number.ofInt n).IsInt n :=
    fun _ => Number.isInt_ofInt
  refine ⟨?_, ?_, ?_, ?_, ?_⟩
  · exact hwhole _ _ _ _ 2 rfl rfl (hint 0 (by decide)) (hint 2 (by decide)) (by decide)
      (.inl (by decide))
  · exact hwhole _ _ _ _ 9 rfl rfl (hint 0 (by decide)) (hint 9 (by decide)) (by decide)
      (.inl (by decide))
  · exact hbehind _ _ _ _ _ _ 1 3 rfl rfl rfl (hint 1 (by decide)) (hint 3 (by decide))
      (hint (1 + 3) (by decide)) (by decide) (by decide) (.inl (by decide))
  · exact (hparts _ _ rfl).2.1 _ _ rfl
  · exact hback _ _ 7 rfl (hint (-7) (by decide)) (by decide) (.inl (by decide))

end PipeQuery.Expr
