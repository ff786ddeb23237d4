import CssPruning.Text.GraphemeExtend
import CssPruning.Text.Lowercase
import CssPruning.Text.Unprintable

/-!
# Quoted text for messages

A message that cites a text puts it in double quotes, with a backslash before
quotes and backslashes, short escapes for line ends, tabs and NUL, and codes for
what has no picture or would change the picture of the character before it.
-/

set_option autoImplicit false

namespace CssPruning.Text

/-- A character that a message can show as it is. -/
def isPrintable (c : Char) : Bool := !inRanges unprintableRanges c.toNat

/-- A character that belongs to the one before it. -/
def isGraphemeExtend (c : Char) : Bool :=
  0x80 ≤ c.toNat && inRanges graphemeExtendRanges c.toNat

/-- The escape by code, in small hexadecimal digits. -/
def codeEscape (c : Char) : List Char :=
  ['\\', 'u', '\x7b'] ++ Nat.toDigits 16 c.toNat ++ ['\x7d']

/-- A character inside quotes. -/
def quotedChar (c : Char) : List Char :=
  if c == '"' then ['\\', '"']
  else if c == '\\' then ['\\', '\\']
  else if c == '\n' then ['\\', 'n']
  else if c == '\r' then ['\\', 'r']
  else if c == '\t' then ['\\', 't']
  else if c == '\x00' then ['\\', '0']
  else if isGraphemeExtend c || !isPrintable c then codeEscape c
  else [c]

/-- A text in quotes. -/
def quoted (s : String) : String :=
  String.ofList ('"' :: s.toList.flatMap quotedChar ++ ['"'])

end CssPruning.Text
