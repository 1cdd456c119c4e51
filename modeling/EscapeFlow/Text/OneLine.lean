import EscapeFlow.Text.Quoted

/-!
# One-line forms

How a value with parts is written on one line: a list in square brackets, unnamed parts in
round brackets after a head word, named parts in braces after it.
-/

namespace EscapeFlow.Text

/-- Parts with a separator between neighbours. -/
def separated (sep : String) : List String → String
  | [] => ""
  | [s] => s
  | s :: rest => s ++ sep ++ separated sep rest

def bracketed (parts : List String) : String := "[" ++ separated ", " parts ++ "]"

/-- A construct with unnamed parts. -/
def applied (head : String) (part : String) : String := head ++ "(" ++ part ++ ")"

/-- A construct with named parts. -/
def record (head : String) (parts : List (String × String)) : String :=
  head ++ " \x7b " ++ separated ", " (parts.map fun p => p.1 ++ ": " ++ p.2) ++ " \x7d"

def optional : Option String → String
  | none => "None"
  | some s => applied "Some" s

end EscapeFlow.Text
