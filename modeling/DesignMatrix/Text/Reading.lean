/-!
# Reading from the front of a text

A reader yields what it has read and what follows it.
-/

namespace DesignMatrix

/-- Characters that have been read, and what follows them. -/
abbrev Reading := List Char × List Char

namespace Reading

/-- The reading with characters in front. -/
def prepend (cs : List Char) (reading : Reading) : Reading := (cs ++ reading.1, reading.2)

end Reading

end DesignMatrix
