import EscapeFlow.Doc.Basic
import EscapeFlow.Yaml.Node

/-!
# YAML values

The value of a document: its tree with full tags, and without aliases.

Anchors have numbers: the number of an anchor is how many names there are before it.  An anchor
whose name was used before therefore shares its number with the next one that has a new name.  An
alias takes the number that its name has last, and stands for the last node of the document with
this number, which may come after the alias.  It has to be a scalar.
-/

namespace EscapeFlow.Yaml

inductive Value where
  | scalar (s : Scalar)
  | mapping (entries : List (String × Value))
deriving Inhabited

/-! ## Anchors -/

/-- The names that are known at some place of a document, each with its last number. -/
abbrev Names := List (String × Nat)

def Names.add (names : Names) (name : String) : Names :=
  (name, names.length) :: names.filter fun n => n.1 != name

def Props.names (p : Props) (names : Names) : Names :=
  match p.anchor with
  | none => names
  | some name => names.add name

def Leaf.anchored : Leaf → List (String × Node)
  | .scalar p s => (p.anchor.map fun name => (name, Node.leaf (.scalar p s))).toList
  | .alias _ => []

mutual

/-- The nodes with an anchor, in the order of the document. -/
def Node.anchored : Node → List (String × Node)
  | .leaf l => Leaf.anchored l
  | .mapping p es =>
    (p.anchor.map fun name => (name, Node.mapping p es)).toList ++ Node.entriesAnchored es

def Node.entriesAnchored : List (Leaf × Node) → List (String × Node)
  | [] => []
  | (key, node) :: es => Leaf.anchored key ++ Node.anchored node ++ Node.entriesAnchored es

end

/-- The numbers of anchored nodes. -/
def numbered (names : Names) : List (String × Node) → List (Nat × Node)
  | [] => []
  | (name, node) :: rest => (names.length, node) :: numbered (names.add name) rest

/-- What the tags and the aliases of a document stand for. -/
structure Scope where
  handles : Handles
  /-- The last node comes first. -/
  nodes : List (Nat × Node)

def Document.scope (d : Document) : Scope := ⟨d.handles, (numbered [] d.root.anchored).reverse⟩

/-! ## Values -/

namespace Scope

/-- The full tag of a node, if it has a tag. -/
def tag? (scope : Scope) (p : Props) : Option (Option String) :=
  match p.tag with
  | none => some none
  | some t => (t.full? scope.handles).map some

def scalar? (scope : Scope) (p : Props) (s : Scalar) : Option Scalar :=
  (scope.tag? p).map fun tag => { s with tag := tag }

def alias? (scope : Scope) (names : Names) (name : String) : Option Scalar := do
  let number ← names.lookup name
  match ← scope.nodes.lookup number with
  | .leaf (.scalar p s) => scope.scalar? p s
  | _ => none

end Scope

/-- The scalar of a leaf, and the names behind it. -/
def Leaf.value? (scope : Scope) (names : Names) : Leaf → Option (Scalar × Names)
  | .scalar p s => (scope.scalar? p s).map fun s => (s, p.names names)
  | .alias name => (scope.alias? names name).map fun s => (s, names)

mutual

def Node.value? (scope : Scope) (names : Names) : Node → Option (Value × Names)
  | .leaf l => (l.value? scope names).map fun s => (.scalar s.1, s.2)
  | .mapping p es => do
    let _ ← scope.tag? p
    let (entries, names) ← Node.entryValues? scope (p.names names) es
    some (.mapping entries, names)

def Node.entryValues? (scope : Scope) (names : Names) :
    List (Leaf × Node) → Option (List (String × Value) × Names)
  | [] => some ([], names)
  | (key, node) :: es => do
    let (key, names) ← key.value? scope names
    let (value, names) ← node.value? scope names
    let (entries, names) ← Node.entryValues? scope names es
    some ((key.text, value) :: entries, names)

end

namespace Value

def ofText? (s : String) : Option Value := do
  let d ← Document.ofText? s
  let (value, _) ← d.root.value? d.scope []
  some value

/-! ## Reading -/

def text? : Value → Option String
  | .scalar s => some s.text
  | .mapping _ => none

/-- The entries of a mapping, if no key comes twice.  A node without content is a mapping without
entries. -/
def entries? : Value → Option (List (String × Value))
  | .scalar s => if s.isBare then some [] else none
  | .mapping es => if (es.map (·.1)).Nodup then some es else none

/-- The value that a scalar spells. -/
def scalarDoc? : Value → Option Doc
  | .scalar s =>
    if s.isNull then some .null
    else
      match s.bool?, s.nat? with
      | some b, _ => some (.bool b)
      | none, some n => some (.nat n)
      | none, none => some (.str s.text)
  | .mapping _ => none

def isNull : Value → Bool
  | .scalar s => s.isNull
  | .mapping _ => false

/-- A mapping of scalars, or null. -/
def recordDoc? (v : Value) : Option Doc :=
  if v.isNull then some .null
  else do
    let es ← v.entries?
    let fields ← es.mapM fun e => e.2.scalarDoc?.map fun d => (e.1, d)
    some (.record fields)

end Value

end EscapeFlow.Yaml
