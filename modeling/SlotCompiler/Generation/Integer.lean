/-!
# Integer literals

The text of an integer is an optional plus sign and one or more decimal digits, and its value
is a word.  Any number of zeros may stand in front.
-/

set_option autoImplicit false

namespace SlotCompiler.IntegerLiteral

/-- The digits of an integer, without a plus sign in front. -/
def unsigned : List Char → List Char
  | '+' :: digits => digits
  | digits => digits

/-- The number that decimal digits denote. -/
def value (digits : List Char) : Nat :=
  digits.foldl (fun value digit => 10 * value + (digit.toNat - '0'.toNat)) 0

/-- The word that a text denotes, if it is an integer and its value fits. -/
def read? (text : String) : Option UInt64 :=
  let digits := unsigned text.toList
  if digits ≠ [] ∧ digits.all Char.isDigit ∧ value digits < UInt64.size then
    some (.ofNat (value digits))
  else none

end SlotCompiler.IntegerLiteral
