import Highlighter.Text.WordTable
import Highlighter.Text.Basic

/-!
Word characters and decimal digits of all scripts.
-/

namespace Highlighter.Text

def isWordChar (c : Char) : Bool := inRanges wordRanges c.toNat

def isDecimal (c : Char) : Bool := inRanges digitRanges c.toNat

end Highlighter.Text
