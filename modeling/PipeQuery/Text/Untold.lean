/-!
# Faults that are not told

Some readers accept a text or reject it without saying why.  Messages then have a
fixed word where the reason would stand.
-/

namespace PipeQuery

/-- What stands for the reason of a fault that is not told. -/
def untoldFault : String := "<library text>"

end PipeQuery
