/-!
# Hexadecimal numerals

Numbers in messages are written `0x…` in lower case without leading zeros; a register mask is padded
to four digits.
-/

namespace Rehost.Text

/-- The lower-case hexadecimal digits of a number, at least one. -/
def hexDigits (n : Nat) : List Char := Nat.toDigits 16 n

/-- A number as `0x…`. -/
def hex (n : Nat) : String := "0x" ++ String.ofList (hexDigits n)

/-- A number as `0x…` with at least `width` digits. -/
def hexPadded (width n : Nat) : String :=
  let digits := hexDigits n
  "0x" ++ String.ofList (List.replicate (width - digits.length) '0' ++ digits)

end Rehost.Text
