import Statechart.Text.Visible

/-
  The long form of values: a record with its fields, a list, an optional value, a quoted text. Every
  long form in this library is put together from these four.
-/

namespace Statechart.Text

/-- The hexadecimal digits of `n`, most significant first, without leading zeros. -/
def hex (n : Nat) : String := String.ofList (Nat.toDigits 16 n)

/-- A character inside quotes: quotes and backslashes are escaped, so is all that is not visible. -/
def escape (c : Char) : String :=
  if c = '"' then "\\\""
  else if c = '\\' then "\\\\"
  else if c = '\n' then "\\n"
  else if c = '\r' then "\\r"
  else if c = '\t' then "\\t"
  else if c = '\x00' then "\\0"
  else if isVisible c then c.toString
  else "\\u\x7b" ++ hex c.toNat ++ "\x7d"

def quote (text : String) : String :=
  "\"" ++ String.join (text.toList.map escape) ++ "\""

/-- `Name { field: value, … }`; a record without fields is its name alone. -/
def record (name : String) (fields : List (String × String)) : String :=
  if fields.isEmpty then name
  else name ++ " \x7b " ++ ", ".intercalate (fields.map fun f => f.1 ++ ": " ++ f.2) ++ " \x7d"

def list (items : List String) : String := "[" ++ ", ".intercalate items ++ "]"

/-- `Name(value)`. -/
def wrap (name value : String) : String := name ++ "(" ++ value ++ ")"

def option : Option String → String
  | none => "None"
  | some value => wrap "Some" value

def bool (b : Bool) : String := if b then "true" else "false"

/-- Decimal digits. -/
def decimal (n : Nat) : String := String.ofList (Nat.toDigits 10 n)

end Statechart.Text
