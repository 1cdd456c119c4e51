/-!
# Documents

Trees of plain data, in which programs, reports and configurations are exchanged.  A reader
takes a document and gives a value, or nothing if the document has another form.

A record may hold more fields than are read.  A field that is read by `optional` may be
missing or null.  A choice without content is a word, or a record with the word as its only
field and null as the content; a choice with content is a record with one field.
-/

namespace EscapeFlow

inductive Doc where
  | null
  | bool (b : Bool)
  | int (n : Int)
  /-- A number that is not an integer. -/
  | real
  | str (s : String)
  | list (items : List Doc)
  | record (fields : List (String × Doc))
deriving Inhabited

namespace Doc

variable {α : Type}

mutual

/-- The number of levels. -/
def height : Doc → Nat
  | .list items => heightOfList items + 1
  | .record fields => heightOfFields fields + 1
  | _ => 1

def heightOfList : List Doc → Nat
  | [] => 0
  | d :: ds => max (height d) (heightOfList ds)

def heightOfFields : List (String × Doc) → Nat
  | [] => 0
  | (_, d) :: fs => max (height d) (heightOfFields fs)

end

/-! ## Readers -/

def bool? : Doc → Option Bool
  | .bool b => some b
  | _ => none

def str? : Doc → Option String
  | .str s => some s
  | _ => none

/-- An integer between two bounds, the upper one excluded. -/
def intIn? (lo hi : Int) : Doc → Option Int
  | .int n => if lo ≤ n ∧ n < hi then some n else none
  | _ => none

/-- A number below a power of two. -/
def nat? (bits : Nat) (d : Doc) : Option Nat :=
  (d.intIn? 0 (Int.ofNat (Nat.pow 2 bits))).map Int.toNat

/-- An integer that fits into a signed word. -/
def int? (bits : Nat) (d : Doc) : Option Int :=
  d.intIn? (-Int.ofNat (Nat.pow 2 (bits - 1))) (Int.ofNat (Nat.pow 2 (bits - 1)))

def list? (read : Doc → Option α) : Doc → Option (List α)
  | .list items => items.mapM read
  | _ => none

def fields? : Doc → Option (List (String × Doc))
  | .record fields => some fields
  | _ => none

def field? (d : Doc) (name : String) : Option Doc := d.fields?.bind (·.lookup name)

/-- A field that must be there. -/
def required (d : Doc) (name : String) (read : Doc → Option α) : Option α :=
  (d.field? name).bind read

/-- Null stands for no value. -/
def nullable (read : Doc → Option α) : Doc → Option (Option α)
  | .null => some none
  | d => (read d).map some

/-- A field of a record that may be missing or null. -/
def optional (d : Doc) (name : String) (read : Doc → Option α) : Option (Option α) := do
  match (← d.fields?).lookup name with
  | none => some none
  | some x => nullable read x

/-- A field of a record that may be missing, but not null. -/
def withDefault (d : Doc) (name : String) (read : Doc → Option α) (other : α) : Option α := do
  match (← d.fields?).lookup name with
  | none => some other
  | some x => read x

/-- Whether a record has no other fields than the given ones. -/
def onlyFields (d : Doc) (names : List String) : Bool :=
  d.fields?.any fun fields => fields.all fun f => names.contains f.1

/-- The word of a choice without content. -/
def word? : Doc → Option String
  | .str s => some s
  | .record [(s, .null)] => some s
  | _ => none

/-- The word and the content of a choice with content. -/
def choice? : Doc → Option (String × Doc)
  | .record [f] => some f
  | _ => none

/-! ## Writers -/

def nat (n : Nat) : Doc := .int n

def ofOption (write : α → Doc) : Option α → Doc
  | none => .null
  | some a => write a

def ofList (write : α → Doc) (xs : List α) : Doc := .list (xs.map write)

def choice (word : String) (content : Doc) : Doc := .record [(word, content)]

end Doc

end EscapeFlow
