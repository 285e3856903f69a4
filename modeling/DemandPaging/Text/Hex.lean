/-!
# Hexadecimal numerals

Addresses are written with a fixed least number of upper-case digits, single bytes with two
lower-case digits.
-/

namespace DemandPaging.Hex

/-- Numeral of `n` in base sixteen, lower case, without leading zeroes; zero is `0`. -/
def digits (n : Nat) : List Char := Nat.toDigits 16 n

/-- Put zeroes in front of `ds` until there are at least `width` digits. -/
def pad (width : Nat) (ds : List Char) : List Char :=
  List.replicate (width - ds.length) '0' ++ ds

/-- At least `width` lower-case digits. -/
def lower (width n : Nat) : String := String.ofList (pad width (digits n))

/-- At least `width` upper-case digits. -/
def upper (width n : Nat) : String := String.ofList (pad width ((digits n).map Char.toUpper))

/-- The value of one lower-case digit. -/
def value? (c : Char) : Option Nat :=
  if '0' ≤ c ∧ c ≤ '9' then some (c.toNat - '0'.toNat)
  else if 'a' ≤ c ∧ c ≤ 'f' then some (c.toNat - 'a'.toNat + 10)
  else none

/-- Read bytes behind those in `done`, of which the last one comes first. -/
def bytesFrom? (done : List UInt8) : List Char → Option (List UInt8)
  | [] => some done.reverse
  | [_] => none
  | hi :: lo :: rest =>
    match value? hi, value? lo with
    | some h, some l => bytesFrom? (UInt8.ofNat (16 * h + l) :: done) rest
    | _, _ => none

/-- Two digits per byte, high digit first; an odd digit at the end is refused. -/
def bytes? (cs : List Char) : Option (List UInt8) := bytesFrom? [] cs

end DemandPaging.Hex
