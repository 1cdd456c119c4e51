import EscapeFlow.Program.Draft
import EscapeFlow.Proofs.Nesting

/-!
# The tables of a draft

Drafts are made from the empty one by adding entries and changing functions (`Draft.Made`).
Whatever the order of these steps, entries stand where their handles say, and a global belongs
to no function (`Made.sound`).  A draft that passes the checks also has every declared variable
belong to the function that declares it:

    d.Made → d.build = .ok p → p.Owned                                        (owned_of_build)
-/

namespace EscapeFlow

namespace Draft

/-- Drafts that come about by the operations on drafts, errors apart. -/
inductive Made : Draft → Prop
  | empty : Made {}
  | global {d : Draft} (h : Made d) (name : String) : Made (d.global name).2
  | function {d : Draft} (h : Made d) (name : String) : Made (d.function name).2
  | closure {d : Draft} (h : Made d) (f : FuncId) (name : String) : Made (d.closure f name).2
  | param {d : Draft} (h : Made d) (f : FuncId) (name : String) : Made (d.param f name).2
  | result {d : Draft} (h : Made d) (f : FuncId) (name : String) : Made (d.result f name).2
  | localVar {d : Draft} (h : Made d) (f : FuncId) (name : String) : Made (d.localVar f name).2
  | capture {d : Draft} (h : Made d) (f : FuncId) (v : VarId) : Made (d.capture f v)
  | markNoescape {d : Draft} (h : Made d) (f : FuncId) : Made (d.markNoescape f)
  | label {d : Draft} (h : Made d) : Made d.label.2
  | new {d : Draft} (h : Made d) (f : FuncId) : Made (d.new f).2
  | composite {d : Draft} (h : Made d) (f : FuncId) (kind : CompositeKind) (es : List Expr) :
    Made (d.composite f kind es).2
  | mapLit {d : Draft} (h : Made d) (f : FuncId) (es : List (Expr × Expr)) :
    Made (d.mapLit f es).2
  | closureLit {d d' : Draft} (h : Made d) {f : FuncId} {e : Expr}
    (ok : d.closureLit f = .ok (e, d')) : Made d'
  | setBody {d d' : Draft} (h : Made d) {f : FuncId} {body : List Stmt}
    (ok : d.setBody f body = .ok d') : Made d'

/-- Entries stand where their handles say, and a global belongs to no function. -/
structure Sound (d : Draft) : Prop where
  functions : d.program.Indexed
  vars : ∀ v x, d.program.var? v = some x → x.id = v
  globals : ∀ v x, d.program.var? v = some x → x.isGlobal = true → x.func = none

namespace Sound

variable {d : Draft}

theorem addVar (h : d.Sound) (name : String) (storage : Storage) (func : Option FuncId)
    (hglobal : storage = .globalVar → func = none) : (d.addVar name storage func).2.Sound := by
  have hcases : ∀ v x, (d.addVar name storage func).2.program.var? v = some x →
      d.program.var? v = some x ∨ x = ⟨⟨d.program.vars.size⟩, name, storage, func⟩ ∧
        v = ⟨d.program.vars.size⟩ := by
    rintro ⟨i⟩ x hx
    replace hx : (d.program.vars.push _)[i]? = some x := hx
    rw [Array.getElem?_push] at hx
    split at hx
    · next hi =>
      cases hi
      exact .inr ⟨(Option.some.inj hx).symm, rfl⟩
    · exact .inl hx
  refine ⟨h.functions, ?_, ?_⟩
  · intro v x hx
    rcases hcases v x hx with hold | ⟨rfl, rfl⟩
    · exact h.vars v x hold
    · rfl
  · intro v x hx hx'
    rcases hcases v x hx with hold | ⟨rfl, rfl⟩
    · exact h.globals v x hold hx'
    · exact hglobal (of_decide_eq_true hx')

theorem addFunction (h : d.Sound) (name : String) (enclosing : Option FuncId) :
    (d.addFunction name enclosing).2.Sound := by
  refine ⟨?_, h.vars, h.globals⟩
  rintro ⟨i⟩ x hx
  replace hx : (d.program.functions.push _)[i]? = some x := hx
  rw [Array.getElem?_push] at hx
  split at hx
  · next hi =>
    cases hi
    cases hx
    rfl
  · exact h.functions ⟨i⟩ x hx

theorem updateFunction (h : d.Sound) (f : FuncId) {change : Function → Function}
    (hid : ∀ x, (change x).id = x.id) : (d.updateFunction f change).Sound := by
  refine ⟨?_, h.vars, h.globals⟩
  rintro ⟨i⟩ x hx
  replace hx : (d.program.functions.modify f.index change)[i]? = some x := hx
  rw [Array.getElem?_modify] at hx
  split at hx
  · obtain ⟨y, hy, rfl⟩ := Option.map_eq_some_iff.1 hx
    exact (hid y).trans (h.functions ⟨i⟩ y hy)
  · exact h.functions ⟨i⟩ x hx

/-- Sites do not matter here. -/
theorem addSite (h : d.Sound) (kind : AllocKind) (f : FuncId) : (d.addSite kind f).2.Sound :=
  ⟨h.functions, h.vars, h.globals⟩

end Sound

theorem Made.sound {d : Draft} (h : d.Made) : d.Sound := by
  induction h with
  | empty => exact ⟨nofun, nofun, nofun⟩
  | global _ name ih => exact ih.addVar name _ none fun _ => rfl
  | function _ name ih => exact ih.addFunction name none
  | closure _ f name ih => exact ih.addFunction name (some f)
  | param _ f name ih =>
    refine Sound.updateFunction (ih.addVar name .param (some f) nofun) f ?_
    exact fun _ => rfl
  | result _ f name ih =>
    refine Sound.updateFunction (ih.addVar name .result (some f) nofun) f ?_
    exact fun _ => rfl
  | localVar _ f name ih =>
    refine Sound.updateFunction (ih.addVar name .localVar (some f) nofun) f ?_
    exact fun _ => rfl
  | capture _ f v ih =>
    refine ih.updateFunction f fun x => ?_
    split <;> rfl
  | markNoescape _ f ih => exact ih.updateFunction f fun _ => rfl
  | label _ ih => exact ⟨ih.functions, ih.vars, ih.globals⟩
  | new _ f ih => exact ih.addSite _ f
  | composite _ f _ _ ih => exact ih.addSite _ f
  | mapLit _ f _ ih => exact ih.addSite _ f
  | @closureLit d _ _ f _ ok ih =>
    unfold Draft.closureLit at ok
    split at ok
    · cases ok
    · split at ok
      · cases ok
      · cases ok
        exact ih.addSite _ _
  | @setBody d _ _ f _ ok ih =>
    unfold Draft.setBody at ok
    split at ok
    · cases ok
    · cases ok
      exact ih.updateFunction f fun _ => rfl

end Draft

/-- Entries stand where their handles say, and each variable belongs to the function that
declares it, if any. -/
structure Program.Owned (p : Program) : Prop where
  functions : p.Indexed
  vars : ∀ v x, p.var? v = some x → x.id = v
  globals : ∀ v x, p.var? v = some x → x.isGlobal = true → x.func = none
  declared : ∀ f decl, p.function? f = some decl → ∀ v ∈ decl.declared,
    ∃ x, p.var? v = some x ∧ x.func = some f

theorem Draft.program_of_build {d : Draft} {p : Program} (h : d.build = .ok p) :
    d.program = p := by
  unfold build at h
  split at h
  · cases h
  · exact Except.ok.inj h

theorem Draft.functionFault?_of_build {d : Draft} {p : Program} (h : d.build = .ok p) {f : FuncId}
    {decl : Function} (hf : p.function? f = some decl) : functionFault? p decl = none := by
  obtain rfl := program_of_build h
  unfold build at h
  split at h
  · cases h
  · next hfault =>
    exact List.findSome?_eq_none_iff.1 hfault decl
      (Array.mem_toList_iff.2 (Array.mem_of_getElem? hf))

/-- A function of a program that is accepted passes all checks. -/
theorem Draft.checked_of_build {d : Draft} {p : Program} (h : d.build = .ok p) {f : FuncId}
    {decl : Function} (hf : p.function? f = some decl) :
    (∀ v ∈ decl.declared, declaredFault? p decl v = none) ∧
      ∀ e ∈ bodyExprs decl.stmts, exprFault? p e = none := by
  have hok := functionFault?_of_build h hf
  unfold functionFault? at hok
  rw [Option.or_eq_none_iff, Option.or_eq_none_iff] at hok
  exact ⟨List.findSome?_eq_none_iff.1 hok.2.1, List.findSome?_eq_none_iff.1 hok.2.2⟩

/-- A closure of a program that is accepted lies in a function of the program, and a climb from it
does not end with itself. -/
theorem Draft.enclosing_of_build {d : Draft} {p : Program} (hd : d.Made) (h : d.build = .ok p)
    {f g : FuncId} (hfg : p.enclosing? f = some g) :
    (p.function? g).isSome ∧ p.outermost f ≠ f := by
  obtain ⟨decl, hf, henc⟩ := Option.bind_eq_some_iff.1 hfg
  have hid : decl.id = f := by
    obtain rfl := program_of_build h
    exact hd.sound.functions f decl hf
  have hok := functionFault?_of_build h hf
  unfold functionFault? at hok
  have hplace := (Option.or_eq_none_iff.1 hok).1
  unfold enclosingFault? at hplace
  simpa [henc, hid, Option.isSome_iff_ne_none] using hplace

theorem Draft.owned_of_build {d : Draft} {p : Program} (hd : d.Made) (h : d.build = .ok p) :
    p.Owned := by
  have hsound := hd.sound
  obtain rfl := program_of_build h
  refine ⟨hsound.functions, hsound.vars, hsound.globals, ?_⟩
  intro f decl hf v hv
  have hvar := (checked_of_build h hf).1 v hv
  unfold declaredFault? at hvar
  split at hvar
  · next x hx =>
    split at hvar
    · next hfunc => exact ⟨x, hx, by rw [hfunc, hsound.functions f decl hf]⟩
    · cases hvar
  · cases hvar

namespace Program.Owned

variable {p : Program} (h : p.Owned)

include h

/-- No variable is declared by two functions. -/
theorem declared_unique {f g : FuncId} {decl decl' : Function} (hf : p.function? f = some decl)
    (hg : p.function? g = some decl') {v : VarId} (hv : v ∈ decl.declared)
    (hv' : v ∈ decl'.declared) : f = g := by
  obtain ⟨x, hx, hxf⟩ := h.declared f decl hf v hv
  obtain ⟨y, hy, hyg⟩ := h.declared g decl' hg v hv'
  rw [hx] at hy
  cases hy
  rw [hxf] at hyg
  exact Option.some.inj hyg

theorem nodup_globals : (p.globals.map (·.id)).Nodup := by
  unfold Program.globals
  refine List.Nodup.sublist (List.filter_sublist.map _) ?_
  rw [map_eq_range fun i x hx => h.vars ⟨i⟩ x hx]
  exact List.nodup_range.map fun _ _ => VarId.mk.inj

/-- No function declares a global. -/
theorem not_declared_of_global {x : Variable} (hx : x ∈ p.globals) {f : FuncId}
    {decl : Function} (hf : p.function? f = some decl) : x.id ∉ decl.declared := by
  intro hmem
  obtain ⟨hx, hglobal⟩ := List.mem_filter.1 hx
  obtain ⟨i, hi⟩ := List.mem_iff_getElem?.1 hx
  rw [Array.getElem?_toList] at hi
  have hid := h.vars ⟨i⟩ x hi
  obtain ⟨y, hy, hfunc⟩ := h.declared f decl hf _ hmem
  rw [hid, show p.var? ⟨i⟩ = some x from hi] at hy
  cases hy
  rw [h.globals ⟨i⟩ x hi hglobal] at hfunc
  cases hfunc

end Program.Owned

end EscapeFlow
