import EscapeFlow.Error
import EscapeFlow.Program.Basic

/-!
# Drafts

A program under construction.  Entries are added one at a time and get the next free position
as their handle, which is the position itself however long the table is.  Functions are declared
before they have a body, so that bodies can refer to functions declared later.  `Draft.build`
checks the result.
-/

namespace EscapeFlow

structure Draft where
  program : Program := {}
  nextLabel : Nat := 0
deriving Inhabited

namespace Draft

def addVar (d : Draft) (name : String) (storage : Storage) (func : Option FuncId) :
    VarId × Draft :=
  let id : VarId := ⟨d.program.vars.size⟩
  (id, { d with program := { d.program with
    vars := d.program.vars.push ⟨id, name, storage, func⟩ } })

def addFunction (d : Draft) (name : String) (enclosing : Option FuncId) : FuncId × Draft :=
  let id : FuncId := ⟨d.program.functions.size⟩
  (id, { d with program := { d.program with
    functions := d.program.functions.push { id := id, name := name, enclosing := enclosing } } })

def addSite (d : Draft) (kind : AllocKind) (func : FuncId) : SiteId × Draft :=
  let id : SiteId := ⟨d.program.sites.size⟩
  (id, { d with program := { d.program with sites := d.program.sites.push ⟨id, kind, func⟩ } })

/-- Changes a function; one that does not exist stays so. -/
def updateFunction (d : Draft) (f : FuncId) (change : Function → Function) : Draft :=
  { d with program := { d.program with functions := d.program.functions.modify f.index change } }

def global (d : Draft) (name : String) : VarId × Draft := d.addVar name .globalVar none

def function (d : Draft) (name : String) : FuncId × Draft := d.addFunction name none

/-- A closure may name an enclosing function that is declared later. -/
def closure (d : Draft) (enclosing : FuncId) (name : String) : FuncId × Draft :=
  d.addFunction name (some enclosing)

/-- The variable is made even if the function does not exist. -/
def param (d : Draft) (f : FuncId) (name : String) : VarId × Draft :=
  let (v, d) := d.addVar name .param (some f)
  (v, d.updateFunction f fun x => { x with params := x.params ++ [v] })

def result (d : Draft) (f : FuncId) (name : String) : VarId × Draft :=
  let (v, d) := d.addVar name .result (some f)
  (v, d.updateFunction f fun x => { x with results := x.results ++ [v] })

def localVar (d : Draft) (f : FuncId) (name : String) : VarId × Draft :=
  let (v, d) := d.addVar name .localVar (some f)
  (v, d.updateFunction f fun x => { x with locals := x.locals ++ [v] })

def capture (d : Draft) (f : FuncId) (v : VarId) : Draft :=
  d.updateFunction f fun x =>
    if x.captures.contains v then x else { x with captures := x.captures ++ [v] }

def markNoescape (d : Draft) (f : FuncId) : Draft :=
  d.updateFunction f fun x => { x with noescape := true }

def label (d : Draft) : LabelId × Draft :=
  (⟨d.nextLabel⟩, { d with nextLabel := d.nextLabel + 1 })

def new (d : Draft) (f : FuncId) : Expr × Draft :=
  let (s, d) := d.addSite .new f
  (.new s, d)

def composite (d : Draft) (f : FuncId) (kind : CompositeKind) (elems : List Expr) :
    Expr × Draft :=
  let (s, d) := d.addSite (.composite kind) f
  (.composite kind s elems, d)

def mapLit (d : Draft) (f : FuncId) (entries : List (Expr × Expr)) : Expr × Draft :=
  let (s, d) := d.addSite .map f
  (.mapLit s entries, d)

/-- A closure literal allocates in the function around the closure. -/
def closureLit (d : Draft) (f : FuncId) : Except Error (Expr × Draft) :=
  match d.program.function? f with
  | none => .error (.unknownFunction f)
  | some decl =>
    match decl.enclosing with
    | none => .error (.malformed (.notClosure f))
    | some outer =>
      let (s, d) := d.addSite .closure outer
      .ok (.closure s f, d)

def setBody (d : Draft) (f : FuncId) (body : List Stmt) : Except Error Draft :=
  match d.program.function? f with
  | none => .error (.unknownFunction f)
  | some _ => .ok (d.updateFunction f fun x => { x with body := some body })

/-! ## Checks -/

/-- What is wrong with an expression itself, its parts apart. -/
def exprFault? (p : Program) : Expr → Option Error
  | .ident v => if (p.var? v).isNone then some (.unknownVariable v) else none
  | .funcRef f | .closure _ f => if (p.function? f).isNone then some (.unknownFunction f) else none
  | .new s | .composite _ s _ | .mapLit s _ =>
    if (p.site? s).isNone then some (.invalidSite s) else none
  | .addrOf e => if e.isAddressable then none else some (.malformed (.notAddressable e))
  | _ => none

def declaredFault? (p : Program) (f : Function) (v : VarId) : Option Error :=
  match p.var? v with
  | some decl => if decl.func = some f.id then none else some (.duplicateLocation (p.varName v))
  | none => some (.unknownVariable v)

/-- A closure must lie in a function of the program and not in a circle that leads back to it. -/
def enclosingFault? (p : Program) (f : Function) : Option Error :=
  match f.enclosing with
  | none => none
  | some outer =>
    if (p.function? outer).isNone || p.outermost f.id = f.id then
      some (.malformed (.noEnclosing f.name))
    else none

/-- The first fault of a function: of its place, its variables, its body. -/
def functionFault? (p : Program) (f : Function) : Option Error :=
  (enclosingFault? p f).or
    ((f.declared.findSome? (declaredFault? p f)).or
      ((bodyExprs f.stmts).findSome? (exprFault? p)))

/-- The finished program, if no function has a fault. -/
def build (d : Draft) : Except Error Program :=
  match d.program.functions.toList.findSome? (functionFault? d.program) with
  | some e => .error e
  | none => .ok d.program

end Draft

end EscapeFlow
