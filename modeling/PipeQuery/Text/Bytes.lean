/-!
# Bytes of a text

Some places in texts are counted in the bytes of their UTF-8 form.
-/

namespace PipeQuery

/-- How many bytes a text takes in UTF-8. -/
def byteCount : List Char → Nat
  | [] => 0
  | c :: rest => c.utf8Size + byteCount rest

end PipeQuery
