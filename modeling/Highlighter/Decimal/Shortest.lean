/-!
Doubles in decimal: the fewest digits that read back as the same double, and of several such the
nearest to it.
-/

namespace Highlighter.Decimal

/-- The positive number `mantissa * 2 ^ exponent`. -/
structure Binary where
  mantissa : Nat
  exponent : Int
  deriving DecidableEq, Repr

/-- The leading bit of a mantissa, which is not stored: two to the power of 52. -/
def leadingBit : Nat := 0x10000000000000

/-- The magnitude of a finite double. -/
def Binary.ofBits (bits : UInt64) : Binary :=
  let fraction : Nat := bits.toNat % leadingBit
  let exponent : Nat := bits.toNat / leadingBit % 2048
  if exponent = 0 then ⟨fraction, -1074⟩ else ⟨leadingBit + fraction, (exponent : Int) - 1075⟩

/-- The number `digits * 10 ^ exponent`. -/
structure Digits where
  digits : Nat
  exponent : Int
  deriving DecidableEq, Repr

/-- Whether `n * 10 ^ e` is at most `m * 2 ^ q`. -/
def leBinary (n : Nat) (e : Int) (m : Nat) (q : Int) : Bool :=
  decide (n * Nat.pow 10 e.toNat * Nat.pow 2 (-q).toNat ≤
    m * Nat.pow 2 q.toNat * Nat.pow 10 (-e).toNat)

def geBinary (n : Nat) (e : Int) (m : Nat) (q : Int) : Bool :=
  decide (m * Nat.pow 2 q.toNat * Nat.pow 10 (-e).toNat ≤
    n * Nat.pow 10 e.toNat * Nat.pow 2 (-q).toNat)

/-- Whether `n * 10 ^ e` reads back as the double: it lies within half a unit of the mantissa, or
less below a power of two. Both ends of that interval count if the mantissa is even. -/
def readsBack (b : Binary) (n : Nat) (e : Int) : Bool :=
  let below := if b.mantissa = leadingBit ∧ -1074 < b.exponent then 1 else 2
  let low := 4 * b.mantissa - below
  let high := 4 * b.mantissa + 2
  let q := b.exponent - 2
  if b.mantissa % 2 = 0 then geBinary n e low q && leBinary n e high q
  else !leBinary n e low q && !geBinary n e high q

/-- The neighbor on the grid of `10 ^ e` that reads back, if there is one; of two the nearer. -/
def onGrid? (b : Binary) (e : Int) : Option Nat :=
  let num := b.mantissa * Nat.pow 2 b.exponent.toNat * Nat.pow 10 (-e).toNat
  let den := Nat.pow 10 e.toNat * Nat.pow 2 (-b.exponent).toNat
  let n := num / den
  let nearer := if 2 * (num % den) < den ∨ (2 * (num % den) = den ∧ n % 2 = 0) then n else n + 1
  let farther := 2 * n + 1 - nearer
  if 0 < nearer ∧ readsBack b nearer e then some nearer
  else if 0 < farther ∧ readsBack b farther e then some farther
  else none

/-- Tries the grids from `10 ^ (fuel - 400)` down; all doubles lie on the finest of them. -/
def shortestFrom (b : Binary) : Nat → Digits
  | 0 => ⟨0, 0⟩
  | fuel + 1 =>
    let e : Int := (fuel : Int) - 400
    match onGrid? b e with
    | some n => ⟨n, e⟩
    | none => shortestFrom b fuel

def shortest (b : Binary) : Digits := if b.mantissa = 0 then ⟨0, 0⟩ else shortestFrom b 720

/-- Where positional notation ends: the least and the greatest place of the decimal point, counted
from the first digit, that are written so. -/
structure Layout where
  leastPoint : Int
  greatestPoint : Int

def zeros (n : Nat) : List Char := List.replicate n '0'

/-- A number with a point between digits, or in powers of ten. -/
def Layout.write (layout : Layout) (d : Digits) : List Char :=
  let ds := (toString d.digits).toList
  let point := (ds.length : Int) + d.exponent
  if layout.leastPoint ≤ point ∧ point ≤ layout.greatestPoint then
    if 0 ≤ d.exponent then ds ++ zeros d.exponent.toNat ++ ['.', '0']
    else if 0 < point then ds.take point.toNat ++ '.' :: ds.drop point.toNat
    else '0' :: '.' :: zeros (-point).toNat ++ ds
  else
    let power := (toString (point - 1)).toList
    match ds with
    | first :: second :: rest => first :: '.' :: second :: rest ++ 'e' :: power
    | _ => ds ++ 'e' :: power

end Highlighter.Decimal
