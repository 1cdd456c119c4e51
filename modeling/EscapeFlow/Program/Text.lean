import EscapeFlow.Program.Stmt
import EscapeFlow.Text.OneLine

/-!
# Program text

Expressions and statements written on one line, as error messages show them: the name of
the construct, then its unnamed parts in round brackets or its named parts in braces.
-/

namespace EscapeFlow

open Text

def Literal.text : Literal → String
  | .int n => applied "Int" (toString n)
  | .bool b => applied "Bool" (toString b)
  | .str s => applied "Str" (quote s)
  | .nil => "Nil"

def IndexKind.text : IndexKind → String
  | .array => "Array"
  | .slice => "Slice"
  | .map => "Map"

def CompositeKind.text : CompositeKind → String
  | .struct => "Struct"
  | .array => "Array"
  | .slice => "Slice"

namespace Expr

/-- The name of the construct. -/
def head : Expr → String
  | .ident _ => "Ident"
  | .literal _ => "Literal"
  | .funcRef _ => "FuncRef"
  | .addrOf _ => "AddrOf"
  | .deref _ => "Deref"
  | .field _ _ => "Field"
  | .ptrField _ _ => "PtrField"
  | .index _ _ _ => "Index"
  | .binary _ _ => "Binary"
  | .call _ _ => "Call"
  | .new _ => "New"
  | .composite _ _ _ => "Composite"
  | .mapLit _ _ => "MapLit"
  | .closure _ _ => "Closure"

mutual

def text : Expr → String
  | .ident v => applied "Ident" v.text
  | .literal l => applied "Literal" l.text
  | .funcRef f => applied "FuncRef" f.text
  | .addrOf e => applied "AddrOf" (text e)
  | .deref e => applied "Deref" (text e)
  | .field base name => record "Field" [("base", text base), ("field", quote name)]
  | .ptrField base name => record "PtrField" [("base", text base), ("field", quote name)]
  | .index kind base i =>
    record "Index" [("base", text base), ("index", text i), ("kind", kind.text)]
  | .binary lhs rhs => record "Binary" [("lhs", text lhs), ("rhs", text rhs)]
  | .call callee args =>
    record "Call" [("callee", text callee), ("args", bracketed (texts args))]
  | .new site => record "New" [("site", site.text)]
  | .composite kind site elems =>
    record "Composite"
      [("site", site.text), ("kind", kind.text), ("elems", bracketed (texts elems))]
  | .mapLit site entries =>
    record "MapLit" [("site", site.text), ("entries", bracketed (entryTexts entries))]
  | .closure site func => record "Closure" [("site", site.text), ("func", func.text)]

def texts : List Expr → List String
  | [] => []
  | e :: es => text e :: texts es

def entryTexts : List (Expr × Expr) → List String
  | [] => []
  | (k, v) :: es => ("(" ++ text k ++ ", " ++ text v ++ ")") :: entryTexts es

end

end Expr

namespace Stmt

/-- The name of the construct. -/
def head : Stmt → String
  | .decl _ _ => "Decl"
  | .assign _ _ => "Assign"
  | .expr _ => "Expr"
  | .ifElse _ _ _ => "If"
  | .loop _ _ => "Loop"
  | .block _ => "Block"
  | .ret _ => "Return"
  | .label _ => "Label"
  | .goto _ => "Goto"
  | .go _ => "Go"
  | .defer _ => "Defer"

mutual

def text : Stmt → String
  | .decl v init => record "Decl" [("var", v.text), ("init", optional (init.map Expr.text))]
  | .assign lhs rhs =>
    record "Assign" [("lhs", bracketed (Expr.texts lhs)), ("rhs", bracketed (Expr.texts rhs))]
  | .expr e => applied "Expr" e.text
  | .ifElse cond t e =>
    record "If"
      [("cond", cond.text), ("then_body", bracketed (texts t)), ("else_body", bracketed (texts e))]
  | .loop cond body =>
    record "Loop" [("cond", optional (cond.map Expr.text)), ("body", bracketed (texts body))]
  | .block body => applied "Block" (bracketed (texts body))
  | .ret values => applied "Return" (bracketed (Expr.texts values))
  | .label l => applied "Label" l.text
  | .goto l => applied "Goto" l.text
  | .go e => applied "Go" e.text
  | .defer e => applied "Defer" e.text

def texts : List Stmt → List String
  | [] => []
  | s :: ss => text s :: texts ss

end

end Stmt

end EscapeFlow
