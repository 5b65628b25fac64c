/-
  Quoted text, as the descriptions of matchers show it.

  A quote, a backslash, and the characters NUL, tab, newline and carriage return
  are written with a backslash and one letter or sign; every other character that
  is not shown as it is stands as its code point in hexadecimal between braces.
-/
import PathSieve.Text.Printable

namespace PathSieve.Text

/-- The code point of a character in lower-case hexadecimal, without leading zeros. -/
def hexCode (c : Char) : List Char :=
  Nat.toDigits 16 c.toNat

/-- How one character stands inside quotes. -/
def quotedChar (c : Char) : List Char :=
  if c = '\x00' then ['\\', '0']
  else if c = '\t' then ['\\', 't']
  else if c = '\n' then ['\\', 'n']
  else if c = '\r' then ['\\', 'r']
  else if c = '\\' then ['\\', '\\']
  else if c = '"' then ['\\', '"']
  else if isPrintable c then [c]
  else ['\\', 'u', '\x7b'] ++ hexCode c ++ ['\x7d']

/-- The text between quotes, escaped. -/
def quoted (text : String) : String :=
  String.ofList ('"' :: text.toList.flatMap quotedChar ++ ['"'])

end PathSieve.Text
