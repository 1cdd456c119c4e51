import EscapeFlow.Doc.Basic
import EscapeFlow.Text.Quoted

/-!
# Documents as text

One item or field on a line, two blanks for each level.  An empty list or record stays on its
line.
-/

namespace EscapeFlow

namespace Doc

/-- Four digits after a backslash and `u`. -/
def unitEscape (n : Nat) : String :=
  let digits := Text.hexDigits n
  "\\u" ++ String.ofList (List.replicate (4 - digits.length) '0') ++ digits

/-- Quotes, backslashes and control characters are escaped, all else stands for itself. -/
def escapeChar (c : Char) : String :=
  if c = '"' then "\\\""
  else if c = '\\' then "\\\\"
  else if c = '\n' then "\\n"
  else if c = '\r' then "\\r"
  else if c = '\t' then "\\t"
  else if c.toNat = 8 then "\\b"
  else if c.toNat = 12 then "\\f"
  else if c.toNat < 32 then unitEscape c.toNat
  else c.toString

def quoted (s : String) : String := "\"" ++ String.join (s.toList.map escapeChar) ++ "\""

def indent (level : Nat) : String := "\n" ++ String.ofList (List.replicate (2 * level) ' ')

/-- Lines between two brackets, with commas between them. -/
def block (opening closing : String) (level : Nat) : List String → String
  | [] => opening ++ closing
  | lines =>
    opening ++ String.intercalate "," (lines.map (indent (level + 1) ++ ·)) ++
      indent level ++ closing

mutual

def prettyAt (level : Nat) : Doc → String
  | .null => "null"
  | .bool b => if b then "true" else "false"
  | .int n => toString n
  | .real => "0.0"
  | .str s => quoted s
  | .list items => block "[" "]" level (prettyItems (level + 1) items)
  | .record fields => block "\x7b" "\x7d" level (prettyFields (level + 1) fields)

def prettyItems (level : Nat) : List Doc → List String
  | [] => []
  | d :: ds => prettyAt level d :: prettyItems level ds

def prettyFields (level : Nat) : List (String × Doc) → List String
  | [] => []
  | (name, d) :: fs => (quoted name ++ ": " ++ prettyAt level d) :: prettyFields level fs

end

def pretty (d : Doc) : String := prettyAt 0 d

end Doc

end EscapeFlow
