import DemandPaging.Address

/-!
# Decimal numerals

Reading a byte count: a plus sign may stand in front of the digits, and the value must fit a machine
word. Of two faults the one further left counts.
-/

namespace DemandPaging.Numeral

/-- Why a text is not the numeral of a byte count. -/
inductive Fault where
  | empty
  | invalidDigit
  | tooLarge
  deriving DecidableEq

namespace Fault

def message : Fault → String
  | empty => "cannot parse integer from empty string"
  | invalidDigit => "invalid digit found in string"
  | tooLarge => "number too large to fit in target type"

instance : ToString Fault := ⟨message⟩

end Fault

/-- Read digits behind a numeral with value `n`. -/
def digitsFrom (n : Nat) : List Char → Except Fault Nat
  | [] => .ok n
  | c :: cs =>
    if c.isDigit then
      let n := 10 * n + (c.toNat - '0'.toNat)
      if sizeBound ≤ n then .error .tooLarge else digitsFrom n cs
    else .error .invalidDigit

/-- The value of a numeral; a sign alone is none. -/
def read : List Char → Except Fault Nat
  | [] => .error .empty
  | ['+'] => .error .invalidDigit
  | '+' :: cs => digitsFrom 0 cs
  | cs => digitsFrom 0 cs

end DemandPaging.Numeral
