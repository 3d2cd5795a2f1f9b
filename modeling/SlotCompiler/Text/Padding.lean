/-!
# Padded fields

Fixed-width fields of the listings.  A text that is already as wide as its field is left as it
is, so a field may outgrow its width but never loses anything.
-/

set_option autoImplicit false

namespace SlotCompiler.Padding

/-- A text followed by blanks up to a width in characters. -/
def right (width : Nat) (text : String) : String :=
  text ++ String.ofList (List.replicate (width - text.length) ' ')

/-- A decimal number with zeros in front up to a width in digits. -/
def zeros (width : Nat) (number : Nat) : String :=
  let digits := toString number
  String.ofList (List.replicate (width - digits.length) '0') ++ digits

end SlotCompiler.Padding
