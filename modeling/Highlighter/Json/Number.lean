import Highlighter.Json.Basic
import Highlighter.Decimal.Shortest

/-!
The value of a number with a point or an exponent, and the text of a number.
-/

namespace Highlighter.Json

def powerOfTen (n : Nat) : Float := .ofScientific 1 false n

/-- Divides by a power of ten in steps that are doubles themselves. -/
def scaleDown (f : Float) (n : Nat) : Float :=
  if n ≤ 308 then f / powerOfTen n
  else if f == 0 then f
  else scaleDown (f / powerOfTen 308) (n - 308)
termination_by n

/-- The double nearest to the significand, times or divided by a power of ten; nothing if that is
out of the range of doubles. -/
def scale? (significand : UInt64) (exponent : Int) : Option Float :=
  let f := significand.toFloat
  if exponent < 0 then some (scaleDown f (-exponent).toNat)
  else if 308 < exponent then (if f == 0 then some f else none)
  else
    let g := f * powerOfTen exponent.toNat
    if g.isInf then none else some g

namespace Number

def ofScaled? (negative : Bool) (significand : Nat) (exponent : Int) : Option Number :=
  (scale? (.ofNat significand) exponent).map
    (fun f ↦ .double (if negative then -f else f).toBits)

/-- A number without point or exponent: an integer if 64 bits hold it. Minus zero is a double. -/
def ofNatural (negative : Bool) (n : Nat) : Number :=
  if !negative then .integer n
  else if n = 0 ∨ 0x8000000000000000 < n then .double (-(UInt64.ofNat n).toFloat).toBits
  else .integer (-n)

/-- Doubles have a point or an exponent, which begins right below the fifth zero. -/
def layout : Decimal.Layout := ⟨-4, 16⟩

def print : Number → String
  | .integer n => toString n
  | .double bits =>
    let sign := if 0x8000000000000000 ≤ bits.toNat then "-" else ""
    sign ++ String.ofList (layout.write (Decimal.shortest (.ofBits bits)))

end Number

end Highlighter.Json
