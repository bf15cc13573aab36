import PipeQuery.Format.Xml.Error
import PipeQuery.Text.Bytes
import PipeQuery.Text.Radix

/-!
# References in markup

Between an ampersand and a semicolon stands the name of one of five characters,
or after a number sign the number of a character, in hexadecimal behind an `x`.
`resolve` puts the characters in place of the references.
-/

namespace PipeQuery.Xml

/-- The character with a name. -/
def entity? : String → Option Char
  | "lt" => some '<'
  | "gt" => some '>'
  | "amp" => some '&'
  | "apos" => some '\''
  | "quot" => some '"'
  | _ => none

/-- The number that digits go on to spell from `n`, below 2 ^ 32. -/
def numberFrom (base n : Nat) : List Char → Except ReferenceFault Nat
  | [] => .ok n
  | c :: rest =>
    match digitIn? base c with
    | none => .error .invalidDigit
    | some d =>
      if base * n + d < 2 ^ 32 then numberFrom base (base * n + d) rest else .error .tooLarge

/-- The number that digits spell. -/
def number (base : Nat) (digits : List Char) : Except ReferenceFault Nat :=
  match digits with
  | [] => .error .noDigits
  | '+' :: _ | '-' :: _ => .error .sign
  | _ => numberFrom base 0 digits

/-- The character that stands behind the number sign. -/
def numbered (digits : List Char) : Except ReferenceFault Char := do
  let n ← match digits with
    | 'x' :: digits => number 16 digits
    | _ => number 10 digits
  if n = 0 then .error .zero
  else if n.isValidChar then return Char.ofNat n
  else .error (.noCharacter n)

/-- The character that is referred to by what stands at `start`. -/
def referred (start : Nat) (name : List Char) : Except Error Char :=
  match name with
  | '#' :: digits => (numbered digits).mapError .characterReference
  | _ =>
    match entity? (String.ofList name) with
    | some c => .ok c
    | none => .error (.unknownEntity start (start + byteCount name) (String.ofList name))

/-- The text from the byte `offset` on with its references resolved. -/
def resolveFrom (offset : Nat) (cs : List Char) : Except Error (List Char) :=
  match cs with
  | [] => .ok []
  | c :: rest =>
    if c = '&' then
      let isMark := fun c => c = '&' || c = ';'
      let name := rest.takeWhile (!isMark ·)
      match _h : rest.dropWhile (!isMark ·) with
      | ';' :: behind => do
        let c ← referred (offset + 1) name
        return c :: (← resolveFrom (offset + byteCount name + 2) behind)
      | _ => .error (.unterminatedReference offset (offset + byteCount cs))
    else (resolveFrom (offset + c.utf8Size) rest).map (c :: ·)
termination_by cs.length
decreasing_by
  · have := (List.dropWhile_sublist (fun c => !isMark c) (l := rest)).length_le
    rw [_h] at this
    simp only [List.length_cons] at *
    omega
  · simp

/-- The text with its references resolved. -/
def resolve (cs : List Char) : Except Error (List Char) := resolveFrom 0 cs

end PipeQuery.Xml
