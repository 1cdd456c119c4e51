/-!
# Placed characters

A text as characters that know their line and column, and the gaps between the items that
stand in it.
-/

namespace EscapeFlow.Yaml

structure Glyph where
  char : Char
  line : Nat
  column : Nat
  /-- The number of characters before this one. -/
  index : Nat
deriving DecidableEq, Inhabited

def isBreak (c : Char) : Bool := c == '\n' || c == '\u2028' || c == '\u2029'

def isBlank (c : Char) : Bool := c == ' ' || c == '\t'

def isSpace (c : Char) : Bool := isBlank c || isBreak c

/-- Control characters may not stand in a text, but for tabs and line ends. -/
def isAllowed (c : Char) : Bool :=
  c == '\t' || c == '\n' || c == '\r' || ('\x20' ≤ c && c ≤ '\x7e') || c == '\u0085' ||
    ('\u00a0' ≤ c && c ≤ '\ufffd') || '\uffff' < c

/-- A carriage return, alone or in front of a newline, ends a line as a newline does, and so does
the next-line character. -/
def newlines : List Char → List Char
  | [] => []
  | '\r' :: '\n' :: cs => '\n' :: newlines cs
  | c :: cs => (if c == '\r' || c == '\u0085' then '\n' else c) :: newlines cs

def place (line column index : Nat) : List Char → List Glyph
  | [] => []
  | c :: cs =>
    ⟨c, line, column, index⟩ ::
      if isBreak c then place (line + 1) 0 (index + 1) cs
      else place line (column + 1) (index + 1) cs

/-- The characters of a text in their places, if all of them are allowed. -/
def glyphs? (s : String) : Option (List Glyph) :=
  if s.toList.all isAllowed then some (place 0 0 0 (newlines s.toList)) else none

/-- Whether no word goes on here. -/
def endsWord : List Glyph → Bool
  | [] => true
  | g :: _ => isSpace g.char

/-- A line that starts or ends a document: three times the same character. -/
def isMark (c : Char) : List Glyph → Bool
  | g₁ :: g₂ :: g₃ :: gs =>
    g₁.column == 0 && g₁.char == c && g₂.char == c && g₃.char == c && endsWord gs
  | _ => false

def isMarker (gs : List Glyph) : Bool := isMark '-' gs || isMark '.' gs

/-- Outside of braces a tab is a blank only behind an item, on the line where it ends.  A byte
order mark is a blank at the start of a line. -/
def isGap (flow : Bool) (line : Option Nat) (g : Glyph) : Bool :=
  g.char == ' ' || isBreak g.char || (g.char == '\t' && (flow || line == some g.line)) ||
    (g.char == '\ufeff' && g.column == 0)

def gapFrom (flow : Bool) (line : Option Nat) : (comment : Bool) → List Glyph → List Glyph
  | _, [] => []
  | true, g :: gs => gapFrom flow line (!isBreak g.char) gs
  | false, g :: gs =>
    if isGap flow line g then gapFrom flow line false gs
    else if g.char == '#' then gapFrom flow line true gs
    else g :: gs

/-- The next item: blanks, line ends and comments are left out.  The line is where the item
before ends, if there is one. -/
def gap (flow : Bool) (line : Option Nat) (gs : List Glyph) : List Glyph :=
  gapFrom flow line false gs

/-- The lines that follow, if nothing but blanks and a comment is left on this one. -/
def nextLine? (gs : List Glyph) : Option (List Glyph) :=
  match gs.dropWhile fun g => isBlank g.char with
  | [] => some []
  | g :: gs =>
    if isBreak g.char then some gs
    else if g.char == '#' then some ((gs.dropWhile fun g => !isBreak g.char).drop 1)
    else none

/-- Something that was read, the line where it ends, and what follows. -/
structure Found (α : Type) where
  value : α
  line : Option Nat
  rest : List Glyph

end EscapeFlow.Yaml
