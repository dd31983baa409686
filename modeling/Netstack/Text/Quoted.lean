import Netstack.Text.Digits
import Netstack.Text.Invisible

/-
Quoted text: a string between double quotes, on one line, from which every
character can be told. The quote and the backslash are escaped by a backslash,
four controls have a letter, and any other character without a form of its own
is written by its number.
-/

set_option autoImplicit false

namespace Netstack.Text

/-- How one character is written inside double quotes. -/
def escape (c : Char) : List Char :=
  if c = '"' then ['\\', '"']
  else if c = '\\' then ['\\', '\\']
  else if c = '\n' then ['\\', 'n']
  else if c = '\r' then ['\\', 'r']
  else if c = '\t' then ['\\', 't']
  else if c.toNat = 0 then ['\\', '0']
  else if isInvisible c then ['\\', 'u', '\x7b'] ++ hexDigits 1 c.toNat ++ ['\x7d']
  else [c]

/-- `s` between double quotes with its characters escaped. -/
def quoted (s : String) : String :=
  String.ofList ('"' :: s.toList.flatMap escape ++ ['"'])

end Netstack.Text
