import Statechart.Text.Clinging
import Statechart.Text.Hidden

/-
  Which characters stand for themselves in a quoted text: those that are neither hidden nor
  clinging.
-/

namespace Statechart.Text

def inRanges (ranges : List (Nat × Nat)) (n : Nat) : Bool :=
  ranges.any fun r => r.1 ≤ n && n ≤ r.2

/-- A visible character is written as it is in a quoted text. The printable part of ASCII is
answered without a table. -/
def isVisible (c : Char) : Bool :=
  let n := c.toNat
  if n < 0x7f then 0x20 ≤ n
  else !inRanges hiddenRanges n && !inRanges clingingRanges n

end Statechart.Text
