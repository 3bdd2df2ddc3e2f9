import Highlighter.Text.Basic

/-!
Hexadecimal digits. They are read in either case and written in lower case.
-/

namespace Highlighter.Text

def hexValue? (c : Char) : Option Nat :=
  if '0' ≤ c ∧ c ≤ '9' then some (c.toNat - 48)
  else if 'a' ≤ c ∧ c ≤ 'f' then some (c.toNat - 87)
  else if 'A' ≤ c ∧ c ≤ 'F' then some (c.toNat - 55)
  else none

def hexDigit (n : Nat) : Char := if n < 10 then .ofNat (n + 48) else .ofNat (n + 87)

def hexPair? (high low : Char) : Option UInt8 := do
  let h ← hexValue? high
  let l ← hexValue? low
  return .ofNat (16 * h + l)

def hexPair (b : UInt8) : Text := [hexDigit (b.toNat / 16), hexDigit (b.toNat % 16)]

def hexDigits (n : Nat) : Text := Nat.toDigits 16 n

end Highlighter.Text
