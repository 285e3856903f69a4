import DemandPaging.Page
import DemandPaging.Text.Numeral

/-!
# Byte strings as runs

A byte string is written as its longest runs of equal bytes. A run of four or more is a token of its
own, the byte and its number of repetitions joined by a star. Shorter runs that follow each other
make up one token. Tokens stand apart by one blank:

    68656c6c6f 00*1019

When such a text is read, any token may be repeated.
-/

namespace DemandPaging.ByteRuns

/-- The shortest run that is written with a number. -/
def leastRun : Nat := 4

/-- A byte and how often it stands in a row. -/
abbrev Run := UInt8 × Nat

/-- The runs after one more byte in front. -/
def extend (b : UInt8) : List Run → List Run
  | [] => [(b, 1)]
  | (c, n) :: rest => if b = c then (c, n + 1) :: rest else (b, 1) :: (c, n) :: rest

/-- The longest runs of equal bytes in `bs` followed by `n` times the byte `last`. -/
def runs (bs : Bytes) (last : UInt8) (n : Nat) : List Run :=
  bs.foldr extend (if n = 0 then [] else [(last, n)])

/-- A text as far as it is written: its tokens, the last one first, and the digits of the short runs
since. -/
structure Draft where
  tokens : List String
  digits : String

namespace Draft

/-- End the token that the digits make up. -/
def close (d : Draft) : Draft := if d.digits.isEmpty then d else ⟨d.digits :: d.tokens, ""⟩

/-- Write one more run. -/
def add (d : Draft) (r : Run) : Draft :=
  let byte := Hex.lower 2 r.1.toNat
  if r.2 < leastRun then ⟨d.tokens, d.digits ++ String.join (List.replicate r.2 byte)⟩
  else ⟨(byte ++ s!"*{r.2}") :: d.close.tokens, ""⟩

/-- The whole text. -/
def finish (d : Draft) : String := " ".intercalate d.close.tokens.reverse

end Draft

/-- The text of a byte string followed by `n` times the byte `last`. -/
def renderFilled (bs : Bytes) (last : UInt8) (n : Nat) : String :=
  ((runs bs last n).foldl Draft.add ⟨[], ""⟩).finish

/-- The text of a byte string. -/
def render (bs : Bytes) : String := renderFilled bs 0 0

/-- The parts of a text between blanks, in order, without empty ones. -/
def words (s : String) : List (List Char) :=
  (s.toList.splitOn ' ').filter (· ≠ [])

/-- The bytes of one token. -/
def token? (cs : List Char) : Option Bytes :=
  match cs.splitOn '*' with
  | [digits] => Hex.bytes? digits
  | [digits, count] => do
    let bs ← Hex.bytes? digits
    let n ← (Numeral.read count).toOption
    return (List.replicate n bs).flatten
  | _ => none

/-- The bytes of a text. -/
def read? (s : String) : Option Bytes := do
  let parts ← (words s).mapM token?
  return parts.flatten

end DemandPaging.ByteRuns
