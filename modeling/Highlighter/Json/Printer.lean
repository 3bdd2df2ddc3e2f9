import Highlighter.Json.Number
import Highlighter.Text.Hexadecimal

/-!
JSON values as texts without blanks. Only quotes, backslashes and controls are escaped.
-/

namespace Highlighter.Json

def printChar (c : Char) : Text :=
  if c = '"' then ['\\', '"']
  else if c = '\\' then ['\\', '\\']
  else if c = '\x08' then ['\\', 'b']
  else if c = '\x0c' then ['\\', 'f']
  else if c = '\n' then ['\\', 'n']
  else if c = '\r' then ['\\', 'r']
  else if c = '\t' then ['\\', 't']
  else if c.toNat < 32 then '\\' :: 'u' :: '0' :: '0' :: Text.hexPair (.ofNat c.toNat)
  else [c]

def printString (s : String) : Text := '"' :: (s.toList.flatMap printChar ++ ['"'])

mutual

/-- The text of a value; that of one which reading broke off goes as far as it was read. -/
def print : Json → Text
  | null => "null".toList
  | bool b => (if b then "true" else "false").toList
  | number n => n.print.toList
  | string s => printString s
  | array items _ => '[' :: (printItems items ++ [']'])
  | object members _ => '{' :: (printMembers members ++ ['}'])
  | broken _ => []

def printItems : List Json → Text
  | [] => []
  | [v] => print v
  | v :: next :: rest => print v ++ ',' :: printItems (next :: rest)

def printMembers : List (String × Json) → Text
  | [] => []
  | [(k, v)] => printString k ++ ':' :: print v
  | (k, v) :: next :: rest =>
    printString k ++ ':' :: (print v ++ ',' :: printMembers (next :: rest))

end

end Highlighter.Json
