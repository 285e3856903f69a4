/-!
# Reading UTF-8 with errors in it

Well-formed sequences are read as the characters they encode. Every longest piece that could begin a
character, but is not completed, is read as one replacement character, and so is every byte that
cannot begin one.
-/

namespace DemandPaging.Utf8

/-- What stands for bytes that encode no character. -/
def replacement : Char := '\ufffd'

/-- How a character of more than one byte begins: the bytes that follow, the range in which the first
of them must lie, and the bits of the character in the first byte. -/
structure Lead where
  following : Nat
  low : UInt8
  high : UInt8
  bits : Nat

/-- The kinds of first bytes. The ranges leave out overlong forms, surrogates and numbers past the
last code point. -/
def lead? (b : UInt8) : Option Lead :=
  if b < 0xC2 then none
  else if b ≤ 0xDF then some ⟨1, 0x80, 0xBF, b.toNat - 0xC0⟩
  else if b = 0xE0 then some ⟨2, 0xA0, 0xBF, 0⟩
  else if b = 0xED then some ⟨2, 0x80, 0x9F, 0xD⟩
  else if b ≤ 0xEF then some ⟨2, 0x80, 0xBF, b.toNat - 0xE0⟩
  else if b = 0xF0 then some ⟨3, 0x90, 0xBF, 0⟩
  else if b ≤ 0xF3 then some ⟨3, 0x80, 0xBF, b.toNat - 0xF0⟩
  else if b = 0xF4 then some ⟨3, 0x80, 0x8F, 4⟩
  else none

/-- Where the reader is: between characters, or inside one, with the bytes it still expects, the range
of the next of them, and the bits read so far. -/
inductive State where
  | between
  | inside (expected : Nat) (low high : UInt8) (bits : Nat)

/-- Take a byte that begins a character. -/
def start (b : UInt8) : State × List Char :=
  if b < 0x80 then (.between, [Char.ofNat b.toNat])
  else
    match lead? b with
    | none => (.between, [replacement])
    | some l => (.inside l.following l.low l.high l.bits, [])

/-- Take one byte; the characters that are complete with it come back. -/
def step : State → UInt8 → State × List Char
  | .between, b => start b
  | .inside expected low high bits, b =>
    if low ≤ b ∧ b ≤ high then
      let bits := 64 * bits + (b.toNat - 0x80)
      if expected ≤ 1 then (.between, [Char.ofNat bits])
      else (.inside (expected - 1) 0x80 0xBF bits, [])
    else
      let (s, cs) := start b
      (s, replacement :: cs)

/-- How far a text is read: the state behind the bytes so far, and the characters they make up. -/
structure Reading where
  state : State
  text : String

namespace Reading

/-- Read one more byte. -/
def take (r : Reading) (b : UInt8) : Reading :=
  let (s, cs) := step r.state b
  ⟨s, cs.foldl String.push r.text⟩

/-- The text if no more bytes follow. A character that is not completed is replaced. -/
def finish (r : Reading) : String :=
  match r.state with
  | .between => r.text
  | .inside .. => r.text.push replacement

end Reading

/-- The text that the bytes encode, with replacement characters for what encodes nothing. -/
def decodeLossy (bs : List UInt8) : String := (bs.foldl Reading.take ⟨.between, ""⟩).finish

end DemandPaging.Utf8
