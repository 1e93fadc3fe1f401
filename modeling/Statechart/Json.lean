import Statechart.Text.Long

/-
  JSON values without fractions, and their indented text: two blanks a level, a field on a line of
  its own, empty lists and objects as `[]` and `{}`.
-/

namespace Statechart

inductive Json where
  | null
  | bool (value : Bool)
  | num (value : Nat)
  | str (text : String)
  | arr (items : List Json)
  | obj (fields : List (String × Json))

namespace Json

/-- Four hexadecimal digits. -/
def hex4 (n : Nat) : String :=
  let digits := Nat.toDigits 16 n
  String.ofList (List.replicate (4 - digits.length) '0' ++ digits)

def escape (c : Char) : String :=
  if c = '"' then "\\\""
  else if c = '\\' then "\\\\"
  else if c = '\n' then "\\n"
  else if c = '\r' then "\\r"
  else if c = '\t' then "\\t"
  else if c = '\x08' then "\\b"
  else if c = '\x0c' then "\\f"
  else if c.toNat < 0x20 then "\\u" ++ hex4 c.toNat
  else c.toString

def quote (text : String) : String := "\"" ++ String.join (text.toList.map escape) ++ "\""

/-- A new line at a level of indentation. -/
def newline (level : Nat) : String := String.ofList ('\n' :: List.replicate (2 * level) ' ')

/-- Parts between an opening and a closing bracket, each on a line of its own. -/
def block (left right : String) (level : Nat) (parts : List String) : String :=
  if parts.isEmpty then left ++ right
  else
    left ++ ",".intercalate (parts.map fun part => newline (level + 1) ++ part) ++ newline level ++
      right

def optional {α : Type} (f : α → Json) : Option α → Json
  | none => null
  | some a => f a

mutual

def render (level : Nat) : Json → String
  | null => "null"
  | bool value => Text.bool value
  | num value => Text.decimal value
  | str text => quote text
  | arr items => block "[" "]" level (renderItems (level + 1) items)
  | obj fields => block "\x7b" "\x7d" level (renderFields (level + 1) fields)

def renderItems (level : Nat) : List Json → List String
  | [] => []
  | item :: items => item.render level :: renderItems level items

def renderFields (level : Nat) : List (String × Json) → List String
  | [] => []
  | (name, value) :: fields =>
    (quote name ++ ": " ++ value.render level) :: renderFields level fields

end

/-- The indented text. -/
def pretty (value : Json) : String := value.render 0

end Json

end Statechart
