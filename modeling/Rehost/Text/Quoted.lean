import Rehost.Text.Escaped
import Rehost.Text.Hex

/-!
# Quoted text

Text between double quotes, with a backslash before quotes and backslashes, short escapes for tab,
carriage return, line feed and NUL, and `\u` escapes for characters that cannot be shown.
-/

namespace Rehost.Text

/-- One character inside quotes. -/
def quoteChar (c : Char) : String :=
  match c with
  | '\t' => "\\t"
  | '\r' => "\\r"
  | '\n' => "\\n"
  | '"' => "\\\""
  | '\\' => "\\\\"
  | _ =>
    if c.toNat = 0 then "\\0"
    else if isEscaped c then "\\u\x7b" ++ String.ofList (hexDigits c.toNat) ++ "\x7d"
    else c.toString

def quote (text : String) : String :=
  "\"" ++ String.join (text.toList.map quoteChar) ++ "\""

end Rehost.Text
