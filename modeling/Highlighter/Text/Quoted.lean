import Highlighter.Text.Hexadecimal
import Highlighter.Text.InvisibleTable

/-!
Texts between quotes, so that every character of them can be seen.
-/

namespace Highlighter.Text

def quotedChar (c : Char) : Text :=
  if c = '\x00' then ['\\', '0']
  else if c = '\t' then ['\\', 't']
  else if c = '\r' then ['\\', 'r']
  else if c = '\n' then ['\\', 'n']
  else if c = '"' || c = '\\' then ['\\', c]
  else if inRanges invisibleRanges c.toNat then '\\' :: 'u' :: '{' :: (hexDigits c.toNat ++ ['}'])
  else [c]

def quoted (t : Text) : Text := '"' :: (t.flatMap quotedChar ++ ['"'])

end Highlighter.Text
