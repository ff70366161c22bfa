/-!
# Listings — items on one line
-/

set_option autoImplicit false

namespace BlockReuse.Text

/-- The items with a comma and a blank between neighbours. -/
def commaSeparated (items : List String) : String := ", ".intercalate items

end BlockReuse.Text
