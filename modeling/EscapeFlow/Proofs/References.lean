import EscapeFlow.Proofs.DraftTables
import EscapeFlow.Proofs.SummaryOrder
import Mathlib

/-!
# What the text of a function refers to

A function refers to variables, functions and allocations in its expressions, at any depth, to
variables also in its declarations and in the list of what it captures.  A program whose handles
are all found in its tables `Resolves`.  The checks of a draft go through all expressions of a body
(`mem_bodyExprs_of_hasExpr`), so that a program that is accepted has what they refer to:

    d.build = .ok p → p.function? f = some decl →
      decl.HasExpr (.ident v) → v.index < p.vars.size                      (ident_of_build)
      decl.RefersToFunction g → g.index < p.functions.size                 (function_of_build)

They pass over three places, which are all that can keep an accepted program from resolving
(`resolves_iff_of_build`): the variable of a declaration, the captured variables, and the
allocation of a closure literal.
-/

namespace EscapeFlow

/-! ## Parts of bodies -/

/-- `x` is the expression or stands in it, at any depth. -/
inductive Expr.Within (x : Expr) : Expr → Prop
  | self : Within x x
  | addrOf {e : Expr} (h : Within x e) : Within x (.addrOf e)
  | deref {e : Expr} (h : Within x e) : Within x (.deref e)
  | field {e : Expr} {name : String} (h : Within x e) : Within x (.field e name)
  | ptrField {e : Expr} {name : String} (h : Within x e) : Within x (.ptrField e name)
  | indexed {kind : IndexKind} {e i : Expr} (h : Within x e) : Within x (.index kind e i)
  | index {kind : IndexKind} {e i : Expr} (h : Within x i) : Within x (.index kind e i)
  | lhs {e e' : Expr} (h : Within x e) : Within x (.binary e e')
  | rhs {e e' : Expr} (h : Within x e') : Within x (.binary e e')
  | callee {e : Expr} {args : List Expr} (h : Within x e) : Within x (.call e args)
  | arg {e a : Expr} {args : List Expr} (ha : a ∈ args) (h : Within x a) : Within x (.call e args)
  | elem {kind : CompositeKind} {site : SiteId} {e : Expr} {elems : List Expr} (he : e ∈ elems)
    (h : Within x e) : Within x (.composite kind site elems)
  | key {site : SiteId} {k v : Expr} {entries : List (Expr × Expr)} (he : (k, v) ∈ entries)
    (h : Within x k) : Within x (.mapLit site entries)
  | value {site : SiteId} {k v : Expr} {entries : List (Expr × Expr)} (he : (k, v) ∈ entries)
    (h : Within x v) : Within x (.mapLit site entries)

/-- `x` is the statement or stands in it, at any depth. -/
inductive Stmt.Within (x : Stmt) : Stmt → Prop
  | self : Within x x
  | thenBody {cond : Expr} {t e : List Stmt} {s : Stmt} (hs : s ∈ t) (h : Within x s) :
    Within x (.ifElse cond t e)
  | elseBody {cond : Expr} {t e : List Stmt} {s : Stmt} (hs : s ∈ e) (h : Within x s) :
    Within x (.ifElse cond t e)
  | loop {cond : Option Expr} {body : List Stmt} {s : Stmt} (hs : s ∈ body) (h : Within x s) :
    Within x (.loop cond body)
  | block {body : List Stmt} {s : Stmt} (hs : s ∈ body) (h : Within x s) : Within x (.block body)

/-- The expression stands in the statement itself, as a whole. -/
inductive Stmt.Has (e : Expr) : Stmt → Prop
  | init {v : VarId} : Has e (.decl v (some e))
  | lhs {l r : List Expr} (h : e ∈ l) : Has e (.assign l r)
  | rhs {l r : List Expr} (h : e ∈ r) : Has e (.assign l r)
  | expr : Has e (.expr e)
  | ifCond {t f : List Stmt} : Has e (.ifElse e t f)
  | loopCond {body : List Stmt} : Has e (.loop (some e) body)
  | ret {values : List Expr} (h : e ∈ values) : Has e (.ret values)
  | go : Has e (.go e)
  | defer : Has e (.defer e)

namespace Function

def HasStmt (decl : Function) (s : Stmt) : Prop := ∃ outer ∈ decl.stmts, Stmt.Within s outer

def HasExpr (decl : Function) (e : Expr) : Prop :=
  ∃ s, decl.HasStmt s ∧ ∃ outer, Stmt.Has outer s ∧ Expr.Within e outer

/-! ## References -/

inductive RefersToVar (decl : Function) : VarId → Prop
  | ident {v : VarId} (h : decl.HasExpr (.ident v)) : RefersToVar decl v
  | declaration {v : VarId} {init : Option Expr} (h : decl.HasStmt (.decl v init)) :
    RefersToVar decl v
  | capture {v : VarId} (h : v ∈ decl.captures) : RefersToVar decl v

inductive RefersToFunction (decl : Function) : FuncId → Prop
  | funcRef {g : FuncId} (h : decl.HasExpr (.funcRef g)) : RefersToFunction decl g
  | closure {s : SiteId} {g : FuncId} (h : decl.HasExpr (.closure s g)) : RefersToFunction decl g

inductive RefersToSite (decl : Function) : SiteId → Prop
  | new {s : SiteId} (h : decl.HasExpr (.new s)) : RefersToSite decl s
  | composite {kind : CompositeKind} {s : SiteId} {elems : List Expr}
    (h : decl.HasExpr (.composite kind s elems)) : RefersToSite decl s
  | mapLit {s : SiteId} {entries : List (Expr × Expr)} (h : decl.HasExpr (.mapLit s entries)) :
    RefersToSite decl s
  | closure {s : SiteId} {g : FuncId} (h : decl.HasExpr (.closure s g)) : RefersToSite decl s

end Function

/-- Whatever a function refers to is in the tables. -/
structure Program.Resolves (p : Program) (decl : Function) : Prop where
  vars : ∀ v, decl.RefersToVar v → v.index < p.vars.size
  functions : ∀ g, decl.RefersToFunction g → g.index < p.functions.size
  sites : ∀ s, decl.RefersToSite s → s.index < p.sites.size

/-! ## The checks see all expressions -/

theorem Expr.mem_nodesOfEntries {es : List (Expr × Expr)} {k v x : Expr} (he : (k, v) ∈ es)
    (hx : x ∈ k.nodes ∨ x ∈ v.nodes) : x ∈ nodesOfEntries es := by
  induction es with
  | nil => cases he
  | cons e es ih =>
    obtain ⟨k', v'⟩ := e
    rw [nodesOfEntries, List.mem_append, List.mem_append]
    rcases List.mem_cons.1 he with heq | he
    · cases heq
      exact hx.imp_right .inl
    · exact .inr (.inr (ih he))

theorem Expr.mem_nodes_of_within {x e : Expr} (h : Within x e) : x ∈ e.nodes := by
  induction h with
  | self => exact x.mem_nodes_self
  | addrOf _ ih | deref _ ih | field _ ih | ptrField _ ih =>
    rw [nodes]
    exact .tail _ ih
  | indexed _ ih | lhs _ ih | callee _ ih =>
    rw [nodes]
    exact .tail _ (List.mem_append_left _ ih)
  | index _ ih | rhs _ ih =>
    rw [nodes]
    exact .tail _ (List.mem_append_right _ ih)
  | arg ha _ ih =>
    rw [nodes, nodesOfList_eq_flatMap]
    exact .tail _ (List.mem_append_right _ (List.mem_flatMap.2 ⟨_, ha, ih⟩))
  | elem he _ ih =>
    rw [nodes, nodesOfList_eq_flatMap]
    exact .tail _ (List.mem_flatMap.2 ⟨_, he, ih⟩)
  | key he _ ih =>
    rw [nodes]
    exact .tail _ (mem_nodesOfEntries he (.inl ih))
  | value he _ ih =>
    rw [nodes]
    exact .tail _ (mem_nodesOfEntries he (.inr ih))

namespace Stmt

theorem mem_exprs_of_has {e : Expr} {s : Stmt} (h : Has e s) : e ∈ s.exprs := by
  cases h with
  | init | expr | ifCond | loopCond | go | defer => exact .head _
  | lhs h => exact List.mem_append_left _ h
  | rhs h => exact List.mem_append_right _ h
  | ret h => exact h

theorem mem_bodyExprs_of_mem {body : List Stmt} {s : Stmt} (hs : s ∈ body) {e : Expr}
    (he : e ∈ s.parts) : e ∈ bodyExprs body := by
  induction body with
  | nil => cases hs
  | cons s' body ih =>
    rw [bodyExprs_cons, List.mem_append]
    rcases List.mem_cons.1 hs with rfl | hs
    · exact .inl he
    · exact .inr (ih hs)

/-- The parts of a statement include those of the expressions that stand in it. -/
theorem mem_parts_of_mem_exprs {s : Stmt} {e : Expr} (he : e ∈ Expr.nodesOfList s.exprs) :
    e ∈ s.parts := by
  cases s with
  | ifElse cond t e' =>
    rw [parts_ifElse]
    refine List.mem_append_left _ ?_
    rwa [← Expr.nodesOfList_singleton]
  | loop cond body =>
    rw [parts_loop]
    exact List.mem_append_left _ he
  | block _ | label _ | goto _ => cases he
  | decl _ _ | assign _ _ | expr _ | ret _ | go _ | defer _ =>
    rw [parts_of_nodes (by rw [nodes])]
    exact he

theorem parts_subset_of_within {x s : Stmt} (h : Within x s) : x.parts ⊆ s.parts := by
  induction h with
  | self => exact List.Subset.refl _
  | thenBody hs _ ih =>
    intro e he
    rw [parts_ifElse]
    exact List.mem_append_right _ (List.mem_append_left _ (mem_bodyExprs_of_mem hs (ih he)))
  | elseBody hs _ ih =>
    intro e he
    rw [parts_ifElse]
    exact List.mem_append_right _ (List.mem_append_right _ (mem_bodyExprs_of_mem hs (ih he)))
  | loop hs _ ih =>
    intro e he
    rw [parts_loop]
    exact List.mem_append_right _ (mem_bodyExprs_of_mem hs (ih he))
  | block hs _ ih =>
    intro e he
    rw [parts_block]
    exact mem_bodyExprs_of_mem hs (ih he)

end Stmt

theorem Function.mem_bodyExprs_of_hasExpr {decl : Function} {e : Expr} (h : decl.HasExpr e) :
    e ∈ bodyExprs decl.stmts := by
  obtain ⟨s, ⟨outer, houter, hs⟩, e', he', he⟩ := h
  refine Stmt.mem_bodyExprs_of_mem houter (Stmt.parts_subset_of_within hs ?_)
  refine Stmt.mem_parts_of_mem_exprs ?_
  rw [Expr.nodesOfList_eq_flatMap]
  exact List.mem_flatMap.2 ⟨e', Stmt.mem_exprs_of_has he', Expr.mem_nodes_of_within he⟩

/-! ## What is accepted -/

namespace Draft

variable {d : Draft} {p : Program} (h : d.build = .ok p) {f : FuncId} {decl : Function}
  (hf : p.function? f = some decl)

include h hf

theorem exprFault?_of_build {e : Expr} (he : decl.HasExpr e) : exprFault? p e = none :=
  (checked_of_build h hf).2 e (Function.mem_bodyExprs_of_hasExpr he)

theorem ident_of_build {v : VarId} (hv : decl.HasExpr (.ident v)) : v.index < p.vars.size := by
  have hok := exprFault?_of_build h hf hv
  simpa [exprFault?, Program.var?] using hok

theorem function_of_build {g : FuncId} (hg : decl.RefersToFunction g) :
    g.index < p.functions.size := by
  cases hg with
  | funcRef hg | closure hg =>
    have hok := exprFault?_of_build h hf hg
    simpa [exprFault?, Program.function?] using hok

theorem site_of_build {s : SiteId} (hs : decl.RefersToSite s) :
    s.index < p.sites.size ∨ ∃ g, decl.HasExpr (.closure s g) := by
  cases hs with
  | new hs | composite hs | mapLit hs =>
    have hok := exprFault?_of_build h hf hs
    exact .inl (by simpa [exprFault?, Program.site?] using hok)
  | closure hs => exact .inr ⟨_, hs⟩

end Draft

/-- A function of an accepted program has the variables, functions and allocations that its
expressions refer to, closure literals apart, and has all that it refers to if the program has
what it declares, what it captures and where its closure literals are allocated. -/
theorem resolves_iff_of_build {d : Draft} {p : Program} (h : d.build = .ok p) {f : FuncId}
    {decl : Function} (hf : p.function? f = some decl) :
    (∀ v, decl.HasExpr (.ident v) → v.index < p.vars.size) ∧
      (∀ g, decl.RefersToFunction g → g.index < p.functions.size) ∧
      (∀ s, decl.RefersToSite s → s.index < p.sites.size ∨ ∃ g, decl.HasExpr (.closure s g)) ∧
      (p.Resolves decl ↔
        (∀ v init, decl.HasStmt (.decl v init) → v.index < p.vars.size) ∧
        (∀ v ∈ decl.captures, v.index < p.vars.size) ∧
        ∀ s g, decl.HasExpr (.closure s g) → s.index < p.sites.size) := by
  refine ⟨fun _ => Draft.ident_of_build h hf, fun _ => Draft.function_of_build h hf,
    fun _ => Draft.site_of_build h hf, ?_, ?_⟩
  · intro hres
    exact ⟨fun v _ hv => hres.vars v (.declaration hv), fun v hv => hres.vars v (.capture hv),
      fun s _ hs => hres.sites s (.closure hs)⟩
  · rintro ⟨hdecls, hcaptures, hsites⟩
    refine ⟨fun v hv => ?_, fun _ => Draft.function_of_build h hf, fun s hs => ?_⟩
    · cases hv with
      | ident hv => exact Draft.ident_of_build h hf hv
      | declaration hv => exact hdecls v _ hv
      | capture hv => exact hcaptures v hv
    · rcases Draft.site_of_build h hf hs with hs | ⟨g, hs⟩
      · exact hs
      · exact hsites s g hs

/-- A function that, where its variable holds, calls itself with the address of a new cell. -/
def callsItself : Program where
  functions := #[
    { id := ⟨0⟩
      name := "f"
      params := [⟨0⟩]
      body := some [.ifElse (.ident ⟨0⟩) [.expr (.call (.funcRef ⟨0⟩) [.new ⟨0⟩])] []] }]
  vars := #[⟨⟨0⟩, "x", .param, some ⟨0⟩⟩]
  sites := #[⟨⟨0⟩, .new, ⟨0⟩⟩]

theorem resolves_iff_of_build_callsItself :
    ∃ decl, (⟨callsItself, 0⟩ : Draft).build = .ok callsItself ∧
      callsItself.function? ⟨0⟩ = some decl ∧ decl.HasExpr (.new ⟨0⟩) ∧
      callsItself.Resolves decl := by
  have hbuild : (⟨callsItself, 0⟩ : Draft).build = .ok callsItself := by cbv
  refine ⟨_, hbuild, rfl, ?_, (resolves_iff_of_build (f := ⟨0⟩) hbuild rfl).2.2.2.2 ⟨?_, ?_, ?_⟩⟩
  · exact ⟨_, ⟨_, .head _, .thenBody (.head _) .self⟩, _, .expr, .arg (.head _) .self⟩
  · rintro v init ⟨s, hs, hin⟩
    cases List.mem_singleton.1 hs
    cases hin with
    | thenBody hs hin =>
      cases List.mem_singleton.1 hs
      cases hin
    | elseBody hs _ => cases hs
  · intro v hv
    cases hv
  · rintro s g ⟨x, ⟨s', hs, hin⟩, e, he, hpart⟩
    cases List.mem_singleton.1 hs
    cases hin with
    | self =>
      cases he
      cases hpart
    | thenBody hs hin =>
      cases List.mem_singleton.1 hs
      cases hin
      cases he
      cases hpart with
      | callee hpart => cases hpart
      | arg ha hpart =>
        cases List.mem_singleton.1 ha
        cases hpart
    | elseBody hs _ => cases hs

/-- An accepted program that declares a variable, captures another and allocates a closure, none of
which are in its tables. -/
theorem unresolved_of_build :
    ∃ (d : Draft) (p : Program) (f c : Function), d.Made ∧ d.build = .ok p ∧
      p.function? ⟨0⟩ = some f ∧ p.function? ⟨1⟩ = some c ∧
      (f.HasStmt (.decl ⟨0⟩ none) ∧ p.var? ⟨0⟩ = none) ∧
      (⟨1⟩ ∈ c.captures ∧ p.var? ⟨1⟩ = none) ∧
      f.HasExpr (.closure ⟨0⟩ ⟨1⟩) ∧ p.site? ⟨0⟩ = none := by
  have htables := ((Draft.Made.empty.function "f").closure ⟨0⟩ "c").capture ⟨1⟩ ⟨1⟩
  have hmade := @Draft.Made.setBody _ _ htables ⟨0⟩
    [.decl ⟨0⟩ none, .expr (.closure ⟨0⟩ ⟨1⟩)] rfl
  refine ⟨_, _, _, _, hmade, rfl, rfl, rfl, ⟨?_, rfl⟩, ⟨.head _, rfl⟩, ?_, rfl⟩
  · exact ⟨_, .head _, .self⟩
  · exact ⟨_, ⟨_, .tail _ (.head _), .self⟩, _, .expr, .self⟩

end EscapeFlow
