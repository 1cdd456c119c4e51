import EscapeFlow.Yaml.Scalar

/-!
# Tags and directives

A tag names the kind of a node by a handle and a suffix.  The handle stands for the first part of
the full tag; a directive in front of the document can say for which.

The text of a tag is a sequence of bytes up to a zero.  A byte is written as the character with
its number, or by a percent sign and two digits.
-/

namespace EscapeFlow.Yaml

def isWordChar (c : Char) : Bool := c.isAlphanum || c == '_' || c == '-'

def word (gs : List Glyph) : String × List Glyph :=
  (String.ofList ((gs.takeWhile fun g => isWordChar g.char).map (·.char)),
    gs.dropWhile fun g => isWordChar g.char)

/-- The name of an anchor or of an alias. -/
def name? (gs : List Glyph) : Option (String × List Glyph) :=
  let (name, rest) := word gs
  let ends := endsWord rest || rest.head?.any fun g => "?:,]\x7d%@`".toList.contains g.char
  if name != "" && ends then some (name, rest) else none

/-! ## Tags -/

/-- A comma or a bracket belongs to a tag only if the tag is written in full. -/
def isTagChar (full : Bool) (c : Char) : Bool :=
  isWordChar c || ";/?:@&=+$.!~*'()".toList.contains c || (full && ",[]".toList.contains c)

/-- The number of bytes that follow a byte to make up a character. -/
def moreBytes? (byte : Nat) : Option Nat :=
  if byte < 0x80 then some 0
  else if byte < 0xc0 then none
  else if byte < 0xe0 then some 1
  else if byte < 0xf0 then some 2
  else if byte < 0xf8 then some 3
  else none

/-- The number of bytes that are due behind the next one. -/
def dueAfter? (due byte : Nat) : Option Nat :=
  if due = 0 then moreBytes? byte
  else if 0x80 ≤ byte && byte < 0xc0 then some (due - 1)
  else none

/-- The bytes of a tag.  Bytes with a percent sign come in groups that make up a character, though
not always one that exists. -/
def tagBytes? (full : Bool) : (due : Nat) → List Glyph → Option (List Char × List Glyph)
  | due, [] => if due = 0 then some ([], []) else none
  | due, g :: gs =>
    if g.char == '%' then
      match gs with
      | a :: b :: gs => do
        let hi ← hexDigit? a.char
        let lo ← hexDigit? b.char
        let due ← dueAfter? due (16 * hi + lo)
        let t ← tagBytes? full due gs
        some (Char.ofNat (16 * hi + lo) :: t.1, t.2)
      | _ => none
    else if due ≠ 0 then none
    else if isTagChar full g.char then
      (tagBytes? full 0 gs).map fun t => (g.char :: t.1, t.2)
    else some ([], g :: gs)

def tagText (bytes : List Char) : String := String.ofList (bytes.takeWhile fun c => c != '\x00')

def tagText? (full : Bool) (gs : List Glyph) : Option (String × List Glyph) :=
  (tagBytes? full 0 gs).map fun t => (tagText t.1, t.2)

/-- Tag text for which something is written. -/
def tagText1? (full : Bool) (gs : List Glyph) : Option (String × List Glyph) :=
  ((tagBytes? full 0 gs).filter fun t => !t.1.isEmpty).map fun t => (tagText t.1, t.2)

/-- The handle is empty if the tag is written in full. -/
structure Tag where
  handle : String
  suffix : String
deriving DecidableEq, Inhabited

namespace Tag

/-- A tag between angle brackets, behind the opening one. -/
def readFull? (gs : List Glyph) : Option (Tag × List Glyph) := do
  match ← tagText1? true gs with
  | (text, g :: rest) => if g.char == '>' then some (⟨"", text⟩, rest) else none
  | (_, []) => none

/-- A tag with a handle of its own, such as `!a!b`, or with the shortest one, as in `!b`.  A lone
exclamation mark is a full tag. -/
def readShort? (gs : List Glyph) : Option (Tag × List Glyph) :=
  let (w, rest) := word gs
  if rest.head?.any fun g => g.char == '!' then
    (tagText1? false (rest.drop 1)).map fun t => (⟨"!" ++ w ++ "!", t.1⟩, t.2)
  else
    (tagText? false rest).map fun t =>
      (if w ++ t.1 = "" then ⟨"", "!"⟩ else ⟨"!", w ++ t.1⟩, t.2)

/-- The tag behind its exclamation mark.  A blank follows, or in braces a comma. -/
def read? (flow : Bool) (gs : List Glyph) : Option (Tag × List Glyph) :=
  let tag :=
    if gs.head?.any fun g => g.char == '<' then readFull? (gs.drop 1) else readShort? gs
  tag.filter fun t => endsWord t.2 || (flow && t.2.head?.any fun g => g.char == ',')

end Tag

/-! ## Directives -/

/-- What the handles stand for. -/
abbrev Handles := List (String × String)

def Handles.standard : Handles := [("!", "!"), ("!!", Scalar.kindTag "")]

def Tag.full? (handles : Handles) (t : Tag) : Option String :=
  if t.handle = "" then some t.suffix else (handles.lookup t.handle).map (· ++ t.suffix)

inductive Directive where
  | version (major minor : Nat)
  | handle (name start : String)
deriving DecidableEq, Inhabited

namespace Directive

/-- A number of at most nine digits. -/
def number? (gs : List Glyph) : Option (Nat × List Glyph) := do
  let digits := (gs.takeWhile fun g => g.char.isDigit).map (·.char)
  if 9 < digits.length then none
  let n ← Scalar.digits? 10 digits
  some (n, gs.dropWhile fun g => g.char.isDigit)

def readVersion? (gs : List Glyph) : Option (Directive × List Glyph) := do
  match ← number? gs with
  | (major, g :: rest) =>
    if g.char != '.' then none
    let (minor, rest) ← number? rest
    some (.version major minor, rest)
  | (_, []) => none

def readHandle? : List Glyph → Option (Directive × List Glyph)
  | [] => none
  | g :: gs => do
    if g.char != '!' then none
    let (w, rest) := word gs
    let closed := rest.head?.any fun g => g.char == '!'
    if !closed && w != "" then none
    let rest := if closed then rest.drop 1 else rest
    if !(rest.head?.any fun g => isBlank g.char) then none
    let (start, rest) ← tagText1? true (rest.dropWhile fun g => isBlank g.char)
    if !endsWord rest then none
    some (.handle ("!" ++ w ++ if closed then "!" else "") start, rest)

/-- The directive behind its percent sign, and the lines that follow. -/
def read? (gs : List Glyph) : Option (Directive × List Glyph) := do
  let (kind, rest) := word gs
  if !endsWord rest then none
  let rest := rest.dropWhile fun g => isBlank g.char
  let (d, rest) ←
    match kind with
    | "YAML" => readVersion? rest
    | "TAG" => readHandle? rest
    | _ => none
  let lines ← nextLine? rest
  some (d, lines)

end Directive

/-- The directives in front of a document. -/
structure Heading where
  versioned : Bool := false
  handles : Handles := []
deriving DecidableEq, Inhabited

namespace Heading

def isEmpty (h : Heading) : Bool := !h.versioned && h.handles.isEmpty

/-- The version comes at most once, and so does each handle. -/
def add? (h : Heading) : Directive → Option Heading
  | .version major minor =>
    if !h.versioned && major == 1 && (minor == 1 || minor == 2) then
      some { h with versioned := true }
    else none
  | .handle name start =>
    if (h.handles.lookup name).isSome then none
    else some { h with handles := (name, start) :: h.handles }

/-- The directives up to the first item that is none.  There are fewer than characters. -/
def read? (fuel : Nat) (h : Heading) (line : Option Nat) (gs : List Glyph) :
    Option (Heading × List Glyph) :=
  match fuel with
  | 0 => none
  | fuel + 1 =>
    match gap false line gs with
    | [] => some (h, [])
    | g :: rest =>
      if g.char == '%' && g.column == 0 then do
        let (d, lines) ← Directive.read? rest
        let h ← h.add? d
        read? fuel h (some (g.line + 1)) lines
      else some (h, g :: rest)

end Heading

end EscapeFlow.Yaml
