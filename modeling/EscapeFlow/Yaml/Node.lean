import EscapeFlow.Yaml.BlockText
import EscapeFlow.Yaml.Tag

/-!
# YAML documents

A document is a mapping whose keys are scalars and whose values are scalars and mappings.  A
mapping is written as a block, with its keys in one column, or in braces.  A node can have a tag,
and an anchor by which an alias refers to it.  Lists are not part of the language, nor are keys
that are mappings.

A key is marked by a colon behind it on the same line, or by a question mark in front of it.

The readers take fuel; `Document.ofText?` gives them more than twice the number of characters, and
they read a character at least for every second call.
-/

namespace EscapeFlow.Yaml

/-- What stands in front of a node. -/
structure Props where
  anchor : Option String := none
  tag : Option Tag := none
deriving DecidableEq, Inhabited

inductive Leaf where
  | scalar (props : Props) (s : Scalar)
  | alias (name : String)
deriving DecidableEq, Inhabited

inductive Node where
  | leaf (l : Leaf)
  | mapping (props : Props) (entries : List (Leaf × Node))
deriving Inhabited

/-! ## Properties -/

namespace Props

/-- The property that starts here, if it is one that is still missing. -/
def add? (flow : Bool) (p : Props) : List Glyph → Option (Found Props)
  | [] => none
  | g :: gs =>
    if g.char == '&' && p.anchor.isNone then
      (name? gs).map fun n => ⟨{ p with anchor := some n.1 }, some g.line, n.2⟩
    else if g.char == '!' && p.tag.isNone then
      (Tag.read? flow gs).map fun t => ⟨{ p with tag := some t.1 }, some g.line, t.2⟩
    else none

def starts (gs : List Glyph) : Bool := gs.head?.any fun g => g.char == '&' || g.char == '!'

/-- One property if there is one. -/
def upTo1? (flow : Bool) (p : Found Props) : Option (Found Props) :=
  let rest := gap flow p.line p.rest
  if starts rest then p.value.add? flow rest else some p

/-- All properties in front of a node. -/
def read? (flow : Bool) (gs : List Glyph) : Option (Found Props) := do
  let first ← upTo1? flow ⟨{}, none, gs⟩
  upTo1? flow first

end Props

/-! ## Leaves -/

namespace Leaf

/-- A node of which nothing but its properties is written. -/
def empty (p : Props) : Leaf := .scalar p .empty

/-- The leaf behind its properties.  An alias has none. -/
def readBody? (flow : Bool) (margin : Nat) (p : Props) : List Glyph → Option (Found Leaf)
  | [] => none
  | g :: gs =>
    if g.char == '*' then
      if p = {} then (name? gs).map fun n => ⟨.alias n.1, some g.line, n.2⟩ else none
    else (Scalar.read? flow margin (g :: gs)).map fun s => ⟨.scalar p s.value, s.line, s.rest⟩

/-- The leaf that starts here.  Behind properties it may be left out. -/
def read? (flow : Bool) (margin : Nat) (ends : List Glyph → Bool) (gs : List Glyph) :
    Option (Found Leaf) := do
  let p ← Props.read? flow gs
  let rest := gap flow p.line p.rest
  if p.value ≠ {} && ends rest then some ⟨empty p.value, p.line, p.rest⟩
  else readBody? flow margin p.value rest

end Leaf

/-! ## Mappings in braces -/

/-- A key and its colon stand on one line, and not far from each other. -/
def isKey (key colon : Glyph) : Bool := key.line == colon.line && colon.index ≤ key.index + 1024

/-- Whether a node in braces is left out in front of this. -/
def endsItem (gs : List Glyph) : Bool := gs.head?.any fun g => ":,\x7d".toList.contains g.char

namespace Node

def empty (p : Props) : Node := .leaf (.empty p)

def leaf? : Node → Option Leaf
  | .leaf l => some l
  | .mapping _ _ => none

/-- The key of an entry in braces. -/
def flowKey? (margin : Nat) (gs : List Glyph) : Option (Found Leaf) :=
  Leaf.read? true margin endsItem gs

/-- The key behind a question mark; it may be left out. -/
def markedFlowKey? (margin : Nat) (gs : List Glyph) : Option (Found Leaf) :=
  let rest := gap true none gs
  if endsItem rest then some ⟨.empty {}, none, rest⟩ else flowKey? margin rest

mutual

/-- The entries up to the closing brace.  An entry may start at once, or behind a comma. -/
def flowEntries (fuel margin : Nat) (start : Bool) (gs : List Glyph) :
    Option (Found (List (Leaf × Node))) :=
  match fuel with
  | 0 => none
  | fuel + 1 =>
    match gap true none gs with
    | [] => none
    | g :: rest =>
      if g.char == '\x7d' then some ⟨[], some g.line, rest⟩
      else if !start then
        if g.char == ',' then flowEntries fuel margin true rest else none
      else do
        let marked := g.char == '?'
        let key ← if marked then markedFlowKey? margin rest else flowKey? margin (g :: rest)
        let value ← flowEntryValue fuel margin (if marked then none else some g) key.rest
        let more ← flowEntries fuel margin false value.rest
        some { more with value := (key.value, value.value) :: more.value }

/-- The value of an entry in braces; without a colon it is empty.  A key without a question mark
has to stand by its colon. -/
def flowEntryValue (fuel margin : Nat) (key : Option Glyph) (gs : List Glyph) :
    Option (Found Node) :=
  match fuel with
  | 0 => none
  | fuel + 1 =>
    match gap true none gs with
    | [] => none
    | g :: rest =>
      if g.char != ':' then some ⟨empty {}, some g.line, g :: rest⟩
      else if !(key.all fun k => isKey k g) then none
      else
        match gap true none rest with
        | [] => none
        | g :: rest =>
          if g.char == ',' || g.char == '\x7d' then some ⟨empty {}, some g.line, g :: rest⟩
          else flowNode fuel margin (g :: rest)

/-- A node in braces that is not left out. -/
def flowNode (fuel margin : Nat) (gs : List Glyph) : Option (Found Node) :=
  match fuel with
  | 0 => none
  | fuel + 1 => do
    let p ← Props.read? true gs
    let rest := gap true none p.rest
    if rest.head?.any fun g => g.char == '\x7b' then
      (flowEntries fuel margin true (rest.drop 1)).map fun es =>
        ⟨.mapping p.value es.value, es.line, es.rest⟩
    else if p.value ≠ {} && endsItem rest then some ⟨empty p.value, p.line, rest⟩
    else (Leaf.readBody? true margin p.value rest).map fun l => ⟨.leaf l.value, l.line, l.rest⟩

end

/-! ## Blocks -/

/-- A mark of one character, which a blank follows. -/
def isSign (c : Char) : List Glyph → Bool
  | [] => false
  | g :: gs => g.char == c && endsWord gs

/-- The key of an entry of a block, up to the colon. -/
def blockKey? (margin : Nat) (gs : List Glyph) : Option (Found Leaf) := do
  let key ← gs.head?
  let l ← Leaf.read? false margin (isSign ':') gs
  match gap false l.line l.rest with
  | colon :: rest =>
    if isSign ':' (colon :: rest) && isKey key colon then
      some ⟨l.value, some colon.line, rest⟩
    else none
  | [] => none

/-- Whether an entry of a block starts here. -/
def startsEntry (margin : Nat) (gs : List Glyph) : Bool :=
  isSign '?' gs || (blockKey? margin gs).isSome

def startsBlockText (g : Glyph) : Bool := g.char == '|' || g.char == '>'

/-- Whether something at the start of a line is outside of the block with the given margin.  The
mark of a block scalar may stand one column left of it. -/
def isOutside (margin : Nat) (g : Glyph) : Bool :=
  g.column + (if startsBlockText g then 1 else 0) < margin

mutual

/-- The entries of a block with keys in the given column.  An entry is the first on its line, even
if the value before it ends left of the column. -/
def blockEntries (fuel column : Nat) (line : Option Nat) (gs : List Glyph) :
    Option (Found (List (Leaf × Node))) :=
  match fuel with
  | 0 => none
  | fuel + 1 =>
    match gap false line gs with
    | [] => some ⟨[], line, []⟩
    | g :: rest =>
      if line == some g.line then none
      else if isMarker (g :: rest) || g.column < column then some ⟨[], line, g :: rest⟩
      else if column < g.column then none
      else do
        let (key, value) ←
          if isSign '?' (g :: rest) then markedEntry fuel column rest
          else do
            let key ← blockKey? (column + 1) (g :: rest)
            let value ← blockNode fuel (column + 1) {} key.line key.rest
            some (key.value, value)
        let more ← blockEntries fuel column value.line value.rest
        some { more with value := (key, value.value) :: more.value }

/-- The entry behind a question mark.  The value follows a colon in the column of the question
mark, the first on its line; without the colon it is empty. -/
def markedEntry (fuel column : Nat) (gs : List Glyph) : Option (Leaf × Found Node) :=
  match fuel with
  | 0 => none
  | fuel + 1 => do
    let key ← blockNode fuel (column + 1) {} none gs
    let l ← key.value.leaf?
    let rest := gap false key.line key.rest
    if isSign ':' rest &&
        rest.head?.any fun g => g.column == column && key.line != some g.line then do
      let value ← blockNode fuel (column + 1) {} none (rest.drop 1)
      some (l, value)
    else some (l, ⟨empty {}, key.line, key.rest⟩)

/-- The node behind a colon, a question mark or its properties, or at the start of a document.
It is empty if nothing follows that stands right of the margin.  A block starts on a line of its
own, or behind a mark that is the first on its line. -/
def blockNode (fuel margin : Nat) (p : Props) (line : Option Nat) (gs : List Glyph) :
    Option (Found Node) :=
  match fuel with
  | 0 => none
  | fuel + 1 =>
    match gap false line gs with
    | [] => some ⟨empty p, line, []⟩
    | g :: rest =>
      let fresh := line != some g.line
      if isMarker (g :: rest) || (fresh && isOutside margin g) then
        some ⟨empty p, line, g :: rest⟩
      else if fresh && startsEntry margin (g :: rest) then
        (blockEntries fuel g.column line (g :: rest)).map fun es =>
          ⟨.mapping p es.value, es.line, es.rest⟩
      else if Props.starts (g :: rest) then do
        let more ← p.add? false (g :: rest)
        blockNode fuel margin more.value more.line more.rest
      else if g.char == '\x7b' then
        (flowEntries fuel margin true rest).map fun es =>
          ⟨.mapping p es.value, es.line, es.rest⟩
      else
        let body :=
          if startsBlockText g then
            (Scalar.readBlock? (if g.char == '|' then .literal else .folded) margin rest).map
              fun s => ⟨.scalar p s.value, s.line, s.rest⟩
          else Leaf.readBody? false margin p (g :: rest)
        body.map fun l => ⟨.leaf l.value, l.line, l.rest⟩

end

end Node

/-! ## Documents -/

structure Document where
  /-- What the handles of the tags stand for. -/
  handles : Handles
  root : Node

namespace Document

/-- Whether nothing but closing marks follows. -/
def isClosed (fuel : Nat) (line : Option Nat) (gs : List Glyph) : Bool :=
  match fuel with
  | 0 => false
  | fuel + 1 =>
    match gap false line gs with
    | [] => true
    | g :: rest => isMark '.' (g :: rest) && isClosed fuel (some g.line) (rest.drop 2)

/-- The one document of a text, which may stand between markers.  Directives need the marker
behind them. -/
def ofText? (s : String) : Option Document := do
  let fuel := 2 * s.length + 4
  let (heading, gs) ← Heading.read? fuel {} none (← glyphs? s)
  let opened := gs.head?.filter fun _ => isMark '-' gs
  if opened.isNone && !heading.isEmpty then none
  let line := opened.map (·.line)
  let root ← Node.blockNode fuel 0 {} line (if opened.isSome then gs.drop 3 else gs)
  if isClosed fuel root.line root.rest then
    some ⟨heading.handles ++ Handles.standard, root.value⟩
  else none

end Document

end EscapeFlow.Yaml
