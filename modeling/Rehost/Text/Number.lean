/-!
# Numbers in text

A number is written in decimal digits, perhaps after a plus sign, and is below 2^64.
-/

namespace Rehost.Text

/-- Why a text is not a number below 2^64. -/
inductive NumberError where
  | empty | invalidDigit | overflow
  deriving DecidableEq, Repr

namespace NumberError

def message : NumberError → String
  | empty => "cannot parse integer from empty string"
  | invalidDigit => "invalid digit found in string"
  | overflow => "number too large to fit in target type"

/-- The short name of the error. -/
def kind : NumberError → String
  | empty => "Empty"
  | invalidDigit => "InvalidDigit"
  | overflow => "PosOverflow"

end NumberError

/-- Reads digits after `value`. The leftmost obstacle is reported, whether a character that is no digit
or a digit that leads past 2^64. -/
def readDigits (value : Nat) : List Char → Except NumberError Nat
  | [] => .ok value
  | c :: rest =>
    if c.isDigit then
      let value := 10 * value + (c.toNat - '0'.toNat)
      if value < 0x10000000000000000 then readDigits value rest else .error .overflow
    else .error .invalidDigit

/-- A number: one or more digits, perhaps after a plus sign. -/
def readNumber (text : String) : Except NumberError Nat :=
  match text.toList with
  | [] => .error .empty
  | ['+'] => .error .invalidDigit
  | '+' :: digits => readDigits 0 digits
  | digits => readDigits 0 digits

end Rehost.Text
