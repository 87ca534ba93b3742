import LambdaCalculi.Text.Printable

/-!
# Quoted text

Names are shown in messages between double quotes. Inside the quotes a quote and a backslash are
escaped, the usual control characters are written by letter, and any other character that is not
printable is written by its code point in lower-case hexadecimal.
-/

set_option autoImplicit false

namespace LambdaCalculi.Text

/-- The last `width` hexadecimal digits of a number, in lower case. -/
def hex : (width value : Nat) → List Char
  | 0, _ => []
  | width + 1, value => hex width (value / 16) ++ [Nat.digitChar (value % 16)]

def escape (c : Char) : List Char :=
  if c = '"' then ['\\', '"']
  else if c = '\\' then ['\\', '\\']
  else if isPrintable c then [c]
  else if c.toNat = 7 then ['\\', 'a']
  else if c.toNat = 8 then ['\\', 'b']
  else if c.toNat = 12 then ['\\', 'f']
  else if c = '\n' then ['\\', 'n']
  else if c = '\r' then ['\\', 'r']
  else if c = '\t' then ['\\', 't']
  else if c.toNat = 11 then ['\\', 'v']
  else if c.toNat < 0x80 then '\\' :: 'x' :: hex 2 c.toNat
  else if c.toNat < 0x10000 then '\\' :: 'u' :: hex 4 c.toNat
  else '\\' :: 'U' :: hex 8 c.toNat

/-- The text between double quotes, with escapes as needed. -/
def quote (text : String) : String :=
  "\"" ++ String.ofList (text.toList.flatMap escape) ++ "\""

end LambdaCalculi.Text
