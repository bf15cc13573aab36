import PipeQuery.Format.Xml.Reference

/-!
# Attributes of a tag

Attributes are names with values in quotes.  No name may come twice.  References
in values are resolved.  Places are counted in a tag of `total` bytes, from what
is left of it.
-/

namespace PipeQuery.Xml

/-- White space in markup. -/
def isSpace (c : Char) : Bool := c = ' ' || c = '\t' || c = '\n' || c = '\r'

/-- The text without white space in front. -/
def skipSpace (cs : List Char) : List Char := cs.dropWhile isSpace

theorem length_skipSpace_le (cs : List Char) : (skipSpace cs).length ≤ cs.length :=
  (List.dropWhile_sublist _).length_le

/-- The place at which `ahead` is left of `total` bytes. -/
def placeOf (total : Nat) (ahead : List Char) : Nat := total - byteCount ahead

/-- What stands behind the equals sign that has to come, white space looked past. -/
def behindEquals (total : Nat) (cs : List Char) :
    Except AttributeFault { rest : List Char // rest.length < cs.length } :=
  match h : skipSpace cs with
  | [] => .error (.expectedEquals total)
  | c :: rest =>
    if c = '=' then
      .ok ⟨rest, by
        have := length_skipSpace_le cs
        rw [h] at this
        exact this⟩
    else .error (.expectedEquals (placeOf total (c :: rest)))

/-- A value in quotes, and what stands behind it, white space before it looked past. -/
def quotedValue (total : Nat) (cs : List Char) :
    Except AttributeFault (List Char × { rest : List Char // rest.length < cs.length }) :=
  match h : skipSpace cs with
  | [] => .error (.expectedValue total)
  | quote :: value =>
    if quote = '"' || quote = '\'' then
      match h' : value.dropWhile (· ≠ quote) with
      | [] => .error (.expectedQuote total quote)
      | _ :: rest =>
        .ok (value.takeWhile (· ≠ quote), ⟨rest, by
          have h₁ := length_skipSpace_le cs
          have h₂ := (List.dropWhile_sublist (fun c => decide (c ≠ quote)) (l := value)).length_le
          rw [h] at h₁
          rw [h'] at h₂
          simp only [List.length_cons] at h₁ h₂
          omega⟩)
    else .error (.unquoted (placeOf total (quote :: value)))

/-- The attributes in what is left of a tag; `seen` are the names before with their places. -/
def attributesFrom (total : Nat) (seen : List (List Char × Nat)) (cs : List Char) :
    Except Error (List (String × String)) :=
  match _h : skipSpace cs with
  | [] => .ok []
  | c :: rest => do
    let isNameChar := fun c => !(c = '=' || isSpace c)
    let name := c :: rest.takeWhile isNameChar
    let place := placeOf total (c :: rest)
    let ⟨r₁, _h₁⟩ ← (behindEquals total (rest.dropWhile isNameChar)).mapError .attribute
    match seen.lookup name with
    | some earlier => .error (.attribute (.duplicated place earlier))
    | none =>
      let (value, ⟨r₂, _h₂⟩) ← (quotedValue total r₁).mapError .attribute
      let value ← resolve value
      let others ← attributesFrom total (seen ++ [(name, place)]) r₂
      return (String.ofList name, String.ofList value) :: others
termination_by cs.length
decreasing_by
  have h₃ := length_skipSpace_le cs
  have h₄ := (List.dropWhile_sublist isNameChar (l := rest)).length_le
  rw [_h] at h₃
  simp only [List.length_cons] at h₃
  omega

/-- The attributes of a tag, which begins with the name of the element. -/
def attributes (tag : List Char) : Except Error (List (String × String)) :=
  attributesFrom (byteCount tag) [] (tag.dropWhile (!isSpace ·))

end PipeQuery.Xml
