/-!
# What this program calls itself
-/

namespace PackedBits.About

/-- The name of the program. -/
def name : String := "Syncbits"

/-- The version of the program. -/
def version : String := "0.1.0"

/-- The name with the version. -/
def banner : String := s!"{name} v{version}"

end PackedBits.About
