import OnePass.Text.Visible

/-! # Texts between quotes

A text is shown between double quotes so that it stays on one line and every character can be told:
quotes and backslashes are escaped, the common controls have a letter each, and any other character
that is not visible on its own is written as its code point in hexadecimal between braces. -/

namespace OnePass.Text

/-- The opening brace of an escaped code point. -/
def openBrace : Char := '\x7b'

/-- The closing brace of an escaped code point. -/
def closeBrace : Char := '\x7d'

/-- One character of a quoted text. -/
def escape (c : Char) : List Char :=
  if c == '\x00' then ['\\', '0']
  else if c == '\t' then ['\\', 't']
  else if c == '\r' then ['\\', 'r']
  else if c == '\n' then ['\\', 'n']
  else if c == '\\' then ['\\', '\\']
  else if c == '"' then ['\\', '"']
  else if isPrintable c && !isExtending c then [c]
  else ['\\', 'u', openBrace] ++ Nat.toDigits 16 c.toNat ++ [closeBrace]

/-- A text between double quotes. -/
def quoted (text : String) : String :=
  String.ofList (['"'] ++ text.toList.flatMap escape ++ ['"'])

end OnePass.Text
