import EscapeFlow.Yaml.Glyph

/-!
# Scalars

A scalar is written plainly, in quotes, or as a block on lines of its own.  Only a plain one can
be null, a truth value or a number, or a literal block whose tag says so; any scalar can be read
as the text that it spells.

A line end inside of a plain scalar or of quotes is folded: one stands for a space, and of
several the first is left out.  Blanks around line ends are left out.
-/

namespace EscapeFlow.Yaml

inductive Style where
  | plain
  | quoted
  | literal
  | folded
deriving DecidableEq, Inhabited

structure Scalar where
  text : String
  style : Style := .plain
  /-- The full tag, once the handles of the document are known. -/
  tag : Option String := none
deriving DecidableEq, Inhabited

/-- The text for the space between two words of a scalar. -/
def fold (space : List Glyph) : List Char :=
  let chars := space.map (·.char)
  match chars.filter isBreak with
  | [] => chars
  | ['\n'] => [' ']
  | '\n' :: breaks => breaks
  | breaks => breaks

/-! ## Plain scalars -/

/-- A plain scalar starts with no mark of its own.  The marks are `-`, `?` and `:` only in
front of a space, or the last two in braces. -/
def startsPlain (flow : Bool) (c : Char) (gs : List Glyph) : Bool :=
  if c == '-' then !endsWord gs
  else if c == '?' || c == ':' then !flow && !endsWord gs
  else !isSpace c && !",[]\x7b\x7d#&*!|>'\"%@`".toList.contains c

/-- In braces a colon of a plain scalar may not stand in front of these. -/
def isClash (gs : List Glyph) : Bool :=
  match gs with
  | [] => false
  | g :: _ => ",?[]\x7b\x7d".toList.contains g.char

/-- Where a plain scalar ends inside of a word. -/
def endsPlain (flow : Bool) (c : Char) (gs : List Glyph) : Bool :=
  (c == ':' && endsWord gs) || (flow && ",[]\x7b\x7d".toList.contains c)

/-- Where a plain scalar ends behind a space: at a document marker, at a comment, or, outside
of braces, on a line that starts left of the margin. -/
def endsBefore (flow : Bool) (margin : Nat) (g : Glyph) (gs : List Glyph) : Bool :=
  isMarker (g :: gs) || g.char == '#' || (!flow && g.column < margin)

/-- A tab left of the margin may not stand on a line of its own. -/
def isStrayTab (margin : Nat) (space : List Glyph) (g : Glyph) : Bool :=
  g.char == '\t' && g.column < margin && space.any fun s => isBreak s.char

/-- The text of a plain scalar, and the line of its last word.  The space behind the words so far
is held back until another word follows, and dropped if none does. -/
def plainText (flow : Bool) (margin : Nat) :
    (line : Option Nat) → (space : List Glyph) → List Glyph → Option (Found (List Char))
  | line, _, [] => some ⟨[], line, []⟩
  | line, space, g :: gs =>
    if isSpace g.char then
      if isStrayTab margin space g then none else plainText flow margin line (space ++ [g]) gs
    else if !space.isEmpty && endsBefore flow margin g gs then some ⟨[], line, g :: gs⟩
    else if flow && g.char == ':' && isClash gs then none
    else if endsPlain flow g.char gs then some ⟨[], line, g :: gs⟩
    else (plainText flow margin (some g.line) [] gs).map fun t =>
      { t with value := fold space ++ g.char :: t.value }

/-! ## Quoted scalars -/

/-- The text up to a single quote; two of them stand for one. -/
def singleText : (space : List Glyph) → List Glyph → Option (Found (List Char))
  | _, [] => none
  | space, g :: gs =>
    if isSpace g.char then singleText (space ++ [g]) gs
    else if isMarker (g :: gs) then none
    else if g.char == '\'' then
      match gs with
      | h :: hs =>
        if h.char == '\'' then
          (singleText [] hs).map fun t => { t with value := fold space ++ '\'' :: t.value }
        else some ⟨fold space, some g.line, h :: hs⟩
      | [] => some ⟨fold space, some g.line, []⟩
    else (singleText [] gs).map fun t => { t with value := fold space ++ g.char :: t.value }

/-- The characters that a backslash and one more character stand for. -/
def escapes : List (Char × Char) := [
  ('0', '\x00'), ('a', '\x07'), ('b', '\x08'), ('t', '\t'), ('\t', '\t'), ('n', '\n'),
  ('v', '\x0b'), ('f', '\x0c'), ('r', '\r'), ('e', '\x1b'), (' ', ' '), ('"', '"'), ('/', '/'),
  ('\\', '\\'), ('N', '\u0085'), ('_', '\u00a0'), ('L', '\u2028'), ('P', '\u2029')]

/-- The number of hexadecimal digits behind a backslash and a letter. -/
def codeLength : List (Char × Nat) := [('x', 2), ('u', 4), ('U', 8)]

def hexDigit? (c : Char) : Option Nat :=
  if '0' ≤ c && c ≤ '9' then some (c.toNat - '0'.toNat)
  else if 'a' ≤ c && c ≤ 'f' then some (c.toNat - 'a'.toNat + 10)
  else if 'A' ≤ c && c ≤ 'F' then some (c.toNat - 'A'.toNat + 10)
  else none

def charOf? (n : Nat) : Option Char := if n.isValidChar then some (Char.ofNat n) else none

/-- Where the reader of a scalar in double quotes stands. -/
inductive Escape where
  | none
  /-- Behind a backslash. -/
  | started
  /-- Inside of a character code, with so many digits to come. -/
  | code (digits value : Nat)
  /-- Behind a line end that a backslash takes away; the line ends that follow are kept. -/
  | broken
deriving DecidableEq, Inhabited

def Escape.fold (e : Escape) (space : List Glyph) : List Char :=
  match e with
  | .broken => (space.map (·.char)).filter isBreak
  | _ => Yaml.fold space

/-- The text up to a double quote. -/
def doubleText : Escape → (space : List Glyph) → List Glyph → Option (Found (List Char))
  | _, _, [] => none
  | .started, _, g :: gs =>
    if isBreak g.char then doubleText .broken [] gs
    else
      match escapes.lookup g.char, codeLength.lookup g.char with
      | some c, _ => (doubleText .none [] gs).map fun t => { t with value := c :: t.value }
      | none, some n => doubleText (.code n 0) [] gs
      | none, none => none
  | .code n v, _, g :: gs => do
    let v := 16 * v + (← hexDigit? g.char)
    if n ≤ 1 then
      let c ← charOf? v
      (doubleText .none [] gs).map fun t => { t with value := c :: t.value }
    else doubleText (.code (n - 1) v) [] gs
  | e, space, g :: gs =>
    if isSpace g.char then doubleText e (space ++ [g]) gs
    else if isMarker (g :: gs) then none
    else if g.char == '"' then some ⟨e.fold space, some g.line, gs⟩
    else if g.char == '\\' then
      (doubleText .started [] gs).map fun t => { t with value := e.fold space ++ t.value }
    else (doubleText .none [] gs).map fun t => { t with value := e.fold space ++ g.char :: t.value }

namespace Scalar

/-- The plain or quoted scalar that starts here. -/
def read? (flow : Bool) (margin : Nat) : List Glyph → Option (Found Scalar)
  | [] => none
  | g :: gs =>
    let scalar (style : Style) (t : Found (List Char)) : Found Scalar :=
      ⟨{ text := String.ofList t.value, style := style }, t.line, t.rest⟩
    if isMarker (g :: gs) then none
    else if g.char == '\'' then (singleText [] gs).map (scalar .quoted)
    else if g.char == '"' then (doubleText .none [] gs).map (scalar .quoted)
    else if startsPlain flow g.char gs then
      (plainText flow margin none [] (g :: gs)).map (scalar .plain)
    else none

/-! ## Meaning -/

def empty : Scalar := { text := "" }

/-- The full tag of one of the kinds that every document knows. -/
def kindTag (kind : String) : String := "tag:yaml.org,2002:" ++ kind

/-- A null with a tag has to have the one for null.  An empty scalar with a tag is not null. -/
def isNull (s : Scalar) : Bool :=
  s.style == .plain &&
    ((s.text == "" && s.tag.isNone) ||
      (["~", "null", "Null", "NULL"].contains s.text &&
        (s.tag.isNone || s.tag == some (kindTag "null"))))

/-- Whether nothing is written, but for a tag of another kind than null. -/
def isBare (s : Scalar) : Bool :=
  s.style == .plain && s.text == "" && s.tag != some (kindTag "null")

/-- Whether the text can stand for a value of a kind.  A plain one can, whatever its tag is, unless
it is the one for null. -/
def spells (kind : String) (s : Scalar) : Bool :=
  (s.style == .plain && s.tag != some (kindTag "null")) ||
    (s.style == .literal && s.tag == some (kindTag kind))

def bool? (s : Scalar) : Option Bool :=
  if !s.spells "bool" then none
  else if ["true", "True", "TRUE"].contains s.text then some true
  else if ["false", "False", "FALSE"].contains s.text then some false
  else none

/-- The number that digits spell; there has to be one. -/
def digits? (base : Nat) (cs : List Char) : Option Nat :=
  if cs.isEmpty then none
  else cs.foldlM (fun n c => do
    let d ← hexDigit? c
    if d < base then some (base * n + d) else none) 0

/-- A sign in front may be a plus.  Numbers with base 16, 8 or 2 start with `0x`, `0o` or `0b`;
other numbers of more than one digit do not start with zero. -/
def nat? (s : Scalar) : Option Nat :=
  if !s.spells "int" then none
  else
    let cs := s.text.toList
    match if cs.head? == some '+' then cs.tail else cs with
    | '0' :: 'x' :: cs => digits? 16 cs
    | '0' :: 'o' :: cs => digits? 8 cs
    | '0' :: 'b' :: cs => digits? 2 cs
    | ['0'] => some 0
    | '0' :: _ => none
    | cs => digits? 10 cs

end Scalar

end EscapeFlow.Yaml
