import EscapeFlow.Yaml.Scalar

/-!
# Block scalars

A block scalar is the text of the lines that follow, from a fixed column on.  A literal one
keeps its line ends.  A folded one puts a blank for a line end between two lines that do not
start with one, or leaves it out if more line ends follow.
-/

namespace EscapeFlow.Yaml

/-- What becomes of the line ends behind the last line. -/
inductive Tail where
  /-- The first is kept. -/
  | clip
  | strip
  | keep
deriving DecidableEq, Inhabited

/-- What stands behind the mark of a block scalar, on the same line. -/
structure BlockHead where
  tail : Tail := .clip
  /-- The number of columns by which the text is indented. -/
  depth : Option Nat := none
deriving DecidableEq, Inhabited

namespace BlockHead

def tailMark? : List Glyph → Option (Tail × List Glyph)
  | [] => none
  | g :: gs =>
    if g.char == '+' then some (.keep, gs)
    else if g.char == '-' then some (.strip, gs)
    else none

def depthMark? : List Glyph → Option (Nat × List Glyph)
  | [] => none
  | g :: gs => if g.char.isDigit then some (g.char.toNat - '0'.toNat, gs) else none

/-- The two marks come in any order. -/
def marks (gs : List Glyph) : BlockHead × List Glyph :=
  match tailMark? gs, depthMark? gs with
  | some (t, gs), _ =>
    match depthMark? gs with
    | some (n, gs) => (⟨t, some n⟩, gs)
    | none => (⟨t, none⟩, gs)
  | none, some (n, gs) =>
    match tailMark? gs with
    | some (t, gs) => (⟨t, some n⟩, gs)
    | none => (⟨.clip, some n⟩, gs)
  | none, none => ({}, gs)

/-- The head, and the lines that follow it. -/
def read? (gs : List Glyph) : Option (BlockHead × List Glyph) := do
  let (head, rest) := marks gs
  if head.depth == some 0 then none
  let lines ← nextLine? rest
  some (head, lines)

end BlockHead

/-- The column where the first line that is not empty starts, or a deeper one that an empty line
before it reaches. -/
def textColumn? (deepest : Nat) : List Glyph → Option Nat
  | [] => some deepest
  | g :: gs =>
    if g.char == ' ' then textColumn? (max deepest (g.column + 1)) gs
    else if g.char == '\t' then none
    else if isBreak g.char then textColumn? deepest gs
    else some deepest

/-- Where the reader of a block scalar stands. -/
structure BlockState where
  /-- Whether a line has started. -/
  inside : Bool := false
  /-- The line end behind the last line. -/
  lineEnd : List Char := []
  /-- The line ends of the empty lines behind it. -/
  more : List Char := []
  /-- Whether the last line starts with a blank. -/
  blank : Bool := false

/-- The text for the line ends in front of a line. -/
def BlockState.join (folded : Bool) (s : BlockState) (blank : Bool) : List Char :=
  if folded && s.lineEnd == ['\n'] && !s.blank && !blank then
    if s.more.isEmpty then [' '] else s.more
  else s.lineEnd ++ s.more

def BlockState.close (tail : Tail) (s : BlockState) : List Char :=
  match tail with
  | .strip => []
  | .clip => s.lineEnd
  | .keep => s.lineEnd ++ s.more

/-- The text from the given column on, up to a line that starts left of it. -/
def blockText (folded : Bool) (tail : Tail) (column : Nat) :
    BlockState → List Glyph → Option (List Char × List Glyph)
  | s, [] => some (s.close tail, [])
  | s, g :: gs =>
    if isBreak g.char then
      blockText folded tail column
        (if s.inside then { s with inside := false, lineEnd := [g.char], more := [] }
          else { s with more := s.more ++ [g.char] }) gs
    else if s.inside then
      (blockText folded tail column s gs).map fun t => (g.char :: t.1, t.2)
    else if g.column < column then
      if g.char == ' ' then blockText folded tail column s gs
      else if g.char == '\t' then none
      else some (s.close tail, g :: gs)
    else
      (blockText folded tail column { inside := true, blank := isBlank g.char } gs).map fun t =>
        (s.join folded (isBlank g.char) ++ g.char :: t.1, t.2)

namespace Scalar

/-- The block scalar behind its mark.  Its column is right of the margin of the block around. -/
def readBlock? (style : Style) (margin : Nat) (gs : List Glyph) : Option (Found Scalar) := do
  let (head, lines) ← BlockHead.read? gs
  let column ←
    match head.depth with
    | some n => some (margin - 1 + n)
    | none => (textColumn? 0 lines).map fun n => max n (max margin 1)
  let (text, rest) ← blockText (style == .folded) head.tail column {} lines
  some ⟨{ text := String.ofList text, style := style }, none, rest⟩

end Scalar

end EscapeFlow.Yaml
