import EscapeFlow.Doc.Basic
import EscapeFlow.Program.Basic

/-!
# Programs as documents

Reading and writing handles, expressions, statements and programs.  A program that is read is
not checked: its handles may lead nowhere.
-/

namespace EscapeFlow

open Doc

def FuncId.ofDoc? (d : Doc) : Option FuncId := (d.nat? 32).map .mk

def FuncId.toDoc (f : FuncId) : Doc := .nat f.index

def VarId.ofDoc? (d : Doc) : Option VarId := (d.nat? 32).map .mk

def VarId.toDoc (v : VarId) : Doc := .nat v.index

def SiteId.ofDoc? (d : Doc) : Option SiteId := (d.nat? 32).map .mk

def SiteId.toDoc (s : SiteId) : Doc := .nat s.index

def LabelId.ofDoc? (d : Doc) : Option LabelId := (d.nat? 32).map .mk

def LabelId.toDoc (l : LabelId) : Doc := .nat l.index

namespace Site

def ofDoc? (d : Doc) : Option Site := do
  match ← d.required "kind" word? with
  | "var" => return .var (← d.required "id" VarId.ofDoc?)
  | "alloc" => return .alloc (← d.required "id" SiteId.ofDoc?)
  | _ => none

def toDoc : Site → Doc
  | .var v => .record [("kind", .str "var"), ("id", v.toDoc)]
  | .alloc s => .record [("kind", .str "alloc"), ("id", s.toDoc)]

end Site

/-! ## Expressions -/

namespace Literal

def ofDoc? (d : Doc) : Option Literal :=
  if d.word? = some "Nil" then some .nil
  else do
    match ← d.choice? with
    | ("Int", x) => return .int (← x.int? 64)
    | ("Bool", x) => return .bool (← x.bool?)
    | ("Str", x) => return .str (← x.str?)
    | _ => none

def toDoc : Literal → Doc
  | .int n => .choice "Int" (.int n)
  | .bool b => .choice "Bool" (.bool b)
  | .str s => .choice "Str" (.str s)
  | .nil => .str "Nil"

end Literal

namespace IndexKind

def ofDoc? (d : Doc) : Option IndexKind := do
  match ← d.word? with
  | "array" => some .array
  | "slice" => some .slice
  | "map" => some .map
  | _ => none

def toDoc : IndexKind → Doc
  | .array => .str "array"
  | .slice => .str "slice"
  | .map => .str "map"

end IndexKind

namespace CompositeKind

def ofDoc? (d : Doc) : Option CompositeKind := do
  match ← d.word? with
  | "struct" => some .struct
  | "array" => some .array
  | "slice" => some .slice
  | _ => none

def toDoc : CompositeKind → Doc
  | .struct => .str "struct"
  | .array => .str "array"
  | .slice => .str "slice"

end CompositeKind

namespace AllocKind

def ofDoc? (d : Doc) : Option AllocKind :=
  match d.word? with
  | some "new" => some .new
  | some "map" => some .map
  | some "closure" => some .closure
  | _ => do
    match ← d.choice? with
    | ("composite", x) => return .composite (← CompositeKind.ofDoc? x)
    | _ => none

def toDoc : AllocKind → Doc
  | .new => .str "new"
  | .composite kind => .choice "composite" kind.toDoc
  | .map => .str "map"
  | .closure => .str "closure"

end AllocKind

namespace Expr

/-- Reads an expression of at most `n` levels. -/
def read (n : Nat) (d : Doc) : Option Expr :=
  match n with
  | 0 => none
  | n + 1 => do
    let (word, x) ← d.choice?
    match word with
    | "Ident" => return .ident (← VarId.ofDoc? x)
    | "Literal" => return .literal (← Literal.ofDoc? x)
    | "FuncRef" => return .funcRef (← FuncId.ofDoc? x)
    | "AddrOf" => return .addrOf (← read n x)
    | "Deref" => return .deref (← read n x)
    | "Field" => return .field (← x.required "base" (read n)) (← x.required "field" str?)
    | "PtrField" => return .ptrField (← x.required "base" (read n)) (← x.required "field" str?)
    | "Index" =>
      return .index (← x.required "kind" IndexKind.ofDoc?) (← x.required "base" (read n))
        (← x.required "index" (read n))
    | "Binary" => return .binary (← x.required "lhs" (read n)) (← x.required "rhs" (read n))
    | "Call" =>
      return .call (← x.required "callee" (read n)) (← x.required "args" (list? (read n)))
    | "New" => return .new (← x.required "site" SiteId.ofDoc?)
    | "Composite" =>
      return .composite (← x.required "kind" CompositeKind.ofDoc?)
        (← x.required "site" SiteId.ofDoc?) (← x.required "elems" (list? (read n)))
    | "MapLit" =>
      return .mapLit (← x.required "site" SiteId.ofDoc?)
        (← x.required "entries" (list? (readEntry (read n))))
    | "Closure" =>
      return .closure (← x.required "site" SiteId.ofDoc?) (← x.required "func" FuncId.ofDoc?)
    | _ => none
where
  readEntry (readExpr : Doc → Option Expr) : Doc → Option (Expr × Expr)
    | .list [k, v] => return (← readExpr k, ← readExpr v)
    | _ => none

def ofDoc? (d : Doc) : Option Expr := read d.height d

mutual

def toDoc : Expr → Doc
  | .ident v => .choice "Ident" v.toDoc
  | .literal l => .choice "Literal" l.toDoc
  | .funcRef f => .choice "FuncRef" f.toDoc
  | .addrOf e => .choice "AddrOf" (toDoc e)
  | .deref e => .choice "Deref" (toDoc e)
  | .field base name => .choice "Field" (.record [("base", toDoc base), ("field", .str name)])
  | .ptrField base name =>
    .choice "PtrField" (.record [("base", toDoc base), ("field", .str name)])
  | .index kind base i =>
    .choice "Index" (.record [("base", toDoc base), ("index", toDoc i), ("kind", kind.toDoc)])
  | .binary lhs rhs => .choice "Binary" (.record [("lhs", toDoc lhs), ("rhs", toDoc rhs)])
  | .call callee args =>
    .choice "Call" (.record [("callee", toDoc callee), ("args", .list (toDocs args))])
  | .new site => .choice "New" (.record [("site", site.toDoc)])
  | .composite kind site elems =>
    .choice "Composite"
      (.record [("site", site.toDoc), ("kind", kind.toDoc), ("elems", .list (toDocs elems))])
  | .mapLit site entries =>
    .choice "MapLit" (.record [("site", site.toDoc), ("entries", .list (entryDocs entries))])
  | .closure site f => .choice "Closure" (.record [("site", site.toDoc), ("func", f.toDoc)])

def toDocs : List Expr → List Doc
  | [] => []
  | e :: es => toDoc e :: toDocs es

def entryDocs : List (Expr × Expr) → List Doc
  | [] => []
  | (k, v) :: es => .list [toDoc k, toDoc v] :: entryDocs es

end

end Expr

/-! ## Statements -/

namespace Stmt

/-- Reads a statement of at most `n` levels. -/
def read (n : Nat) (d : Doc) : Option Stmt :=
  match n with
  | 0 => none
  | n + 1 => do
    let (word, x) ← d.choice?
    match word with
    | "Decl" => return .decl (← x.required "var" VarId.ofDoc?) (← x.optional "init" Expr.ofDoc?)
    | "Assign" =>
      return .assign (← x.required "lhs" (list? Expr.ofDoc?))
        (← x.required "rhs" (list? Expr.ofDoc?))
    | "Expr" => return .expr (← Expr.ofDoc? x)
    | "If" =>
      return .ifElse (← x.required "cond" Expr.ofDoc?) (← x.required "then_body" (list? (read n)))
        (← x.required "else_body" (list? (read n)))
    | "Loop" =>
      return .loop (← x.optional "cond" Expr.ofDoc?) (← x.required "body" (list? (read n)))
    | "Block" => return .block (← x.list? (read n))
    | "Return" => return .ret (← x.list? Expr.ofDoc?)
    | "Label" => return .label (← LabelId.ofDoc? x)
    | "Goto" => return .goto (← LabelId.ofDoc? x)
    | "Go" => return .go (← Expr.ofDoc? x)
    | "Defer" => return .defer (← Expr.ofDoc? x)
    | _ => none

def ofDoc? (d : Doc) : Option Stmt := read d.height d

mutual

def toDoc : Stmt → Doc
  | .decl v init =>
    .choice "Decl" (.record [("var", v.toDoc), ("init", Doc.ofOption Expr.toDoc init)])
  | .assign lhs rhs =>
    .choice "Assign" (.record [("lhs", .list (Expr.toDocs lhs)), ("rhs", .list (Expr.toDocs rhs))])
  | .expr e => .choice "Expr" e.toDoc
  | .ifElse cond t e =>
    .choice "If" (.record
      [("cond", cond.toDoc), ("then_body", .list (toDocs t)), ("else_body", .list (toDocs e))])
  | .loop cond body =>
    .choice "Loop" (.record [("cond", Doc.ofOption Expr.toDoc cond), ("body", .list (toDocs body))])
  | .block body => .choice "Block" (.list (toDocs body))
  | .ret values => .choice "Return" (.list (Expr.toDocs values))
  | .label l => .choice "Label" l.toDoc
  | .goto l => .choice "Goto" l.toDoc
  | .go e => .choice "Go" e.toDoc
  | .defer e => .choice "Defer" e.toDoc

def toDocs : List Stmt → List Doc
  | [] => []
  | s :: ss => toDoc s :: toDocs ss

end

end Stmt

/-! ## Tables -/

namespace Storage

def ofDoc? (d : Doc) : Option Storage := do
  match ← d.word? with
  | "param" => some .param
  | "result" => some .result
  | "local" => some .localVar
  | "global" => some .globalVar
  | _ => none

def toDoc : Storage → Doc
  | .param => .str "param"
  | .result => .str "result"
  | .localVar => .str "local"
  | .globalVar => .str "global"

end Storage

namespace Variable

def ofDoc? (d : Doc) : Option Variable := do
  return {
    id := ← d.required "id" VarId.ofDoc?
    name := ← d.required "name" str?
    storage := ← d.required "class" Storage.ofDoc?
    func := ← d.optional "func" FuncId.ofDoc? }

def toDoc (v : Variable) : Doc := .record [
  ("id", v.id.toDoc),
  ("name", .str v.name),
  ("class", v.storage.toDoc),
  ("func", Doc.ofOption FuncId.toDoc v.func)]

end Variable

namespace Function

def ofDoc? (d : Doc) : Option Function := do
  return {
    id := ← d.required "id" FuncId.ofDoc?
    name := ← d.required "name" str?
    params := ← d.required "params" (list? VarId.ofDoc?)
    results := ← d.required "results" (list? VarId.ofDoc?)
    locals := ← d.required "locals" (list? VarId.ofDoc?)
    body := ← d.optional "body" (list? Stmt.ofDoc?)
    enclosing := ← d.optional "enclosing" FuncId.ofDoc?
    captures := ← d.required "captures" (list? VarId.ofDoc?)
    noescape := ← d.required "noescape" bool? }

def toDoc (f : Function) : Doc := .record [
  ("id", f.id.toDoc),
  ("name", .str f.name),
  ("params", Doc.ofList VarId.toDoc f.params),
  ("results", Doc.ofList VarId.toDoc f.results),
  ("locals", Doc.ofList VarId.toDoc f.locals),
  ("body", Doc.ofOption (Doc.ofList Stmt.toDoc) f.body),
  ("enclosing", Doc.ofOption FuncId.toDoc f.enclosing),
  ("captures", Doc.ofList VarId.toDoc f.captures),
  ("noescape", .bool f.noescape)]

end Function

namespace AllocSite

def ofDoc? (d : Doc) : Option AllocSite := do
  return {
    id := ← d.required "id" SiteId.ofDoc?
    kind := ← d.required "kind" AllocKind.ofDoc?
    func := ← d.required "func" FuncId.ofDoc? }

def toDoc (s : AllocSite) : Doc :=
  .record [("id", s.id.toDoc), ("kind", s.kind.toDoc), ("func", s.func.toDoc)]

end AllocSite

namespace Program

def ofDoc? (d : Doc) : Option Program := do
  return {
    functions := (← d.required "functions" (list? Function.ofDoc?)).toArray
    vars := (← d.required "vars" (list? Variable.ofDoc?)).toArray
    sites := (← d.required "sites" (list? AllocSite.ofDoc?)).toArray }

def toDoc (p : Program) : Doc := .record [
  ("functions", Doc.ofList Function.toDoc p.functions.toList),
  ("vars", Doc.ofList Variable.toDoc p.vars.toList),
  ("sites", Doc.ofList AllocSite.toDoc p.sites.toList)]

end Program

end EscapeFlow
