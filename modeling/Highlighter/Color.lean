import Highlighter.Text.Hexadecimal

/-!
Colors, and the one way a color is written: `#` and six hexadecimal digits.
-/

namespace Highlighter

inductive Color where
  | plain
  | rgb (red green blue : UInt8)
  deriving DecidableEq, Repr, Inhabited

structure ColorError where
  text : Text
  deriving DecidableEq, Repr

def ColorError.message (e : ColorError) : String :=
  "expected a color of the form #rrggbb, got `" ++ String.ofList e.text ++ "`"

namespace Color

/-- The color whose components are the three low bytes of a number, red highest. -/
def ofNat (n : Nat) : Color := .rgb (.ofNat (n / 65536)) (.ofNat (n / 256)) (.ofNat n)

def parse? (t : Text) : Option Color :=
  match Text.trim t with
  | ['#', r₁, r₂, g₁, g₂, b₁, b₂] => do
    let r ← Text.hexPair? r₁ r₂
    let g ← Text.hexPair? g₁ g₂
    let b ← Text.hexPair? b₁ b₂
    return .rgb r g b
  | _ => none

def parse (t : Text) : Except ColorError Color :=
  match parse? t with
  | some c => .ok c
  | none => .error ⟨t⟩

def print : Color → Text
  | .plain => "default".toList
  | .rgb r g b => '#' :: (Text.hexPair r ++ Text.hexPair g ++ Text.hexPair b)

end Color

end Highlighter
