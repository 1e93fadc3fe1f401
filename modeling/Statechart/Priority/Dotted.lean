import Statechart.ModelError
import Statechart.Priority
import Statechart.Text.Blank

/-
  The text of an explicit priority: decimal segments, each followed by a dot, as in `2.1.`. Reading
  is more generous than writing: the last dot may be missing, blanks may stand around the text and
  around a segment, and a segment may have leading zeros and a plus sign.
-/

namespace Statechart

namespace Priority

open Text

/-- The number that decimal digits stand for; nothing if a character is no digit. -/
def digitsValue : Nat → List Char → Option Nat
  | n, [] => some n
  | n, c :: cs => if c.isDigit then digitsValue (10 * n + (c.toNat - '0'.toNat)) cs else none

def dropPlus : List Char → List Char
  | '+' :: cs => cs
  | cs => cs

/-- The greatest number a segment may be. -/
def maxSegment : Nat := 65535

/-- Reads one segment, trimmed already. -/
def segment? (cs : List Char) : Option Nat :=
  let digits := dropPlus cs
  if digits.isEmpty then none
  else (digitsValue 0 digits).filter (· ≤ maxSegment)

/-- The parts between the dots. -/
def splitDots : List Char → List (List Char)
  | [] => [[]]
  | c :: cs =>
    if c = '.' then [] :: splitDots cs
    else
      match splitDots cs with
      | [] => [[c]]
      | part :: parts => (c :: part) :: parts

def dropLastDot (cs : List Char) : List Char :=
  if cs.getLast? = some '.' then cs.dropLast else cs

/-- The segments of a dotted text. -/
def segments? (cs : List Char) : Option (List Nat) :=
  let body := dropLastDot (trim cs)
  if body.isEmpty then none
  else
    ((splitDots body).mapM fun part => segment? (trim part)).filter
      fun segments => segments.length ≤ maxSegments

def parse (text : String) : Except ModelError Priority :=
  match segments? text.toList with
  | some segments => .ok (explicit segments)
  | none => .error (.invalidPriority text)

/-- The written form; an explicit priority reads back. -/
def text : Priority → String
  | explicit segments => String.join (segments.map fun n => decimal n ++ ".")
  | unordered => "unordered"
  | otherwise => "else"

end Priority

end Statechart
