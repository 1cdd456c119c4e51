import EscapeFlow.Proofs.Batches
import EscapeFlow.Proofs.DraftTables
import EscapeFlow.Proofs.Placing

/-!
# The lists of a draft

A function lists the variables it declares by their class.  Whatever the order in which a draft is
made, also where a variable is added to a function that is not there, what the lists say agrees
with the table of variables:

    d.Made → d.program.Filed                                                     (Made.filed)

So a variable is in one list at most, and once:

    p.Filed → (p.functions.toList.flatMap Function.declared).Nodup     (Filed.nodup_declared)

The checks of a draft never find a variable in the list of another function
(`build_ne_duplicateLocation`), and the functions of a batch can be declared together
(`Filed.exists_declare`).
-/

namespace EscapeFlow

open BatchGraph

/-! ## Lists and the table -/

namespace Function

/-- The variables that a function declares, by their class. -/
def listOf (x : Function) : Storage → List VarId
  | .param => x.params
  | .result => x.results
  | .localVar => x.locals
  | .globalVar => []

theorem exists_listOf_of_mem_declared {x : Function} {v : VarId} (hv : v ∈ x.declared) :
    ∃ s, v ∈ x.listOf s := by
  unfold declared at hv
  rw [List.mem_append, List.mem_append] at hv
  rcases hv with hv | hv | hv
  · exact ⟨.param, hv⟩
  · exact ⟨.result, hv⟩
  · exact ⟨.localVar, hv⟩

end Function

namespace Program

/-- The function in place `f` lists variables of its own, each in the list of its class and once,
and captures none twice. -/
structure Files (p : Program) (f : FuncId) (x : Function) : Prop where
  listed : ∀ s, ∀ v ∈ x.listOf s, ∃ y, p.var? v = some y ∧ y.storage = s ∧ y.func = some f
  nodup : ∀ s, (x.listOf s).Nodup
  captures : x.captures.Nodup

/-- Sites stand where their handles say, and what functions list agrees with the table. -/
structure Filed (p : Program) : Prop where
  sites : ∀ i x, p.site? i = some x → x.id = i
  functions : ∀ f x, p.function? f = some x → p.Files f x

namespace Files

variable {p p' : Program} {f : FuncId} {x x' : Function}

theorem mono (h : p.Files f x) (hvars : ∀ v y, p.var? v = some y → p'.var? v = some y) :
    p'.Files f x where
  listed s v hv := by
    obtain ⟨y, hy, hclass⟩ := h.listed s v hv
    exact ⟨y, hvars v y hy, hclass⟩
  nodup := h.nodup
  captures := h.captures

/-- A change that leaves the lists alone. -/
theorem congr (h : p.Files f x) (hlists : ∀ s, x'.listOf s = x.listOf s)
    (hcaptures : x'.captures.Nodup) : p.Files f x' where
  listed s := by
    rw [hlists s]
    exact h.listed s
  nodup s := by
    rw [hlists s]
    exact h.nodup s
  captures := hcaptures

/-- A variable that was not in the table comes into the list of its class. -/
theorem insert (h : p.Files f x) (hvars : ∀ v y, p.var? v = some y → p'.var? v = some y)
    {v : VarId} {y : Variable} (hnew : p.var? v = none) (hy : p'.var? v = some y)
    (hfunc : y.func = some f)
    (hlists : ∀ s, x'.listOf s = if s = y.storage then x.listOf s ++ [v] else x.listOf s)
    (hcaptures : x'.captures = x.captures) : p'.Files f x' where
  listed s w hw := by
    rw [hlists s] at hw
    by_cases hs : s = y.storage
    · rw [if_pos hs, List.mem_append, List.mem_singleton] at hw
      rcases hw with hw | rfl
      · exact (h.mono hvars).listed s w hw
      · exact ⟨y, hy, hs.symm, hfunc⟩
    · rw [if_neg hs] at hw
      exact (h.mono hvars).listed s w hw
  nodup s := by
    rw [hlists s]
    by_cases hs : s = y.storage
    · rw [if_pos hs, List.nodup_append]
      refine ⟨h.nodup s, List.nodup_singleton v, ?_⟩
      intro w hw u hu hwu
      obtain rfl := List.mem_singleton.1 hu
      -- whatever is listed is in the table already
      obtain ⟨z, hz, -⟩ := h.listed s w hw
      rw [hwu, hnew] at hz
      cases hz
    · rw [if_neg hs]
      exact h.nodup s
  captures := by
    rw [hcaptures]
    exact h.captures

/-- No variable is in two lists of a function. -/
theorem nodup_declared (h : p.Files f x) : x.declared.Nodup := by
  have hclass : ∀ s s', s ≠ s' → ∀ v ∈ x.listOf s, ∀ w ∈ x.listOf s', v ≠ w := by
    rintro s s' hne v hv _ hw rfl
    obtain ⟨y, hy, hs, -⟩ := h.listed s v hv
    obtain ⟨z, hz, hs', -⟩ := h.listed s' v hw
    rw [hy] at hz
    cases hz
    exact hne (hs.symm.trans hs')
  unfold Function.declared
  rw [List.nodup_append, List.nodup_append]
  refine ⟨h.nodup .param, ⟨h.nodup .result, h.nodup .localVar, ?_⟩, ?_⟩
  · exact hclass .result .localVar nofun
  · intro v hv w hw
    rcases List.mem_append.1 hw with hw | hw
    · exact hclass .param .result nofun v hv w hw
    · exact hclass .param .localVar nofun v hv w hw

end Files

namespace Filed

variable {p : Program} (h : p.Filed)

include h

theorem exists_var {f : FuncId} {x : Function} (hf : p.function? f = some x) {v : VarId}
    (hv : v ∈ x.declared) : ∃ y, p.var? v = some y ∧ y.func = some f := by
  obtain ⟨s, hs⟩ := Function.exists_listOf_of_mem_declared hv
  obtain ⟨y, hy, -, hfunc⟩ := (h.functions f x hf).listed s v hs
  exact ⟨y, hy, hfunc⟩

/-- Different functions declare different variables. -/
theorem nodup_flatMap_declared {fs : List FuncId} {ds : List Function}
    (hds : List.Forall₂ (fun f d => p.function? f = some d) fs ds) (hfs : fs.Nodup) :
    (ds.flatMap Function.declared).Nodup := by
  induction hds with
  | nil => exact List.nodup_nil
  | @cons f d fs ds hf hrest ih =>
    obtain ⟨hnew, hfs⟩ := List.nodup_cons.1 hfs
    rw [List.flatMap_cons, List.nodup_append]
    refine ⟨(h.functions f d hf).nodup_declared, ih hfs, ?_⟩
    rintro v hv _ hw rfl
    obtain ⟨d', hd', hw⟩ := List.mem_flatMap.1 hw
    obtain ⟨f', hf', hfd'⟩ := mem_of_forall₂ hrest hd'
    obtain ⟨y, hy, hfunc⟩ := h.exists_var hf hv
    obtain ⟨z, hz, hfunc'⟩ := h.exists_var hfd' hw
    rw [hy] at hz
    cases hz
    rw [hfunc] at hfunc'
    exact hnew (Option.some.inj hfunc' ▸ hf')

/-- No variable is in two lists, or twice in one. -/
theorem nodup_declared : (p.functions.toList.flatMap Function.declared).Nodup := by
  have hall : List.Forall₂ (fun f d => p.function? f = some d)
      ((List.range p.functions.size).map FuncId.mk) p.functions.toList := by
    rw [List.forall₂_iff_get]
    refine ⟨by simp, fun i h₁ h₂ => ?_⟩
    simp [function?]
  exact h.nodup_flatMap_declared hall (List.nodup_range.map fun _ _ => FuncId.mk.inj)

end Filed

end Program

/-! ## Steps of a draft -/

namespace Draft

variable {d : Draft}

theorem var?_fst_addVar (d : Draft) (name : String) (storage : Storage) (func : Option FuncId) :
    d.program.var? (d.addVar name storage func).1 = none :=
  Array.getElem?_eq_none (Nat.le_refl _)

theorem var?_addVar_self (d : Draft) (name : String) (storage : Storage) (func : Option FuncId) :
    (d.addVar name storage func).2.program.var? (d.addVar name storage func).1 =
      some ⟨⟨d.program.vars.size⟩, name, storage, func⟩ :=
  Array.getElem?_push_size

theorem var?_addVar (name : String) (storage : Storage) (func : Option FuncId) {v : VarId}
    {y : Variable} (h : d.program.var? v = some y) :
    (d.addVar name storage func).2.program.var? v = some y := by
  obtain ⟨hlt, heq⟩ := Array.getElem?_eq_some_iff.1 h
  show (d.program.vars.push _)[v.index]? = some y
  rw [Array.getElem?_push_lt hlt, heq]

theorem function?_updateFunction {f g : FuncId} {change : Function → Function} {x : Function}
    (h : (d.updateFunction f change).program.function? g = some x) :
    (g = f ∧ ∃ y, d.program.function? f = some y ∧ change y = x) ∨
      d.program.function? g = some x := by
  replace h : (d.program.functions.modify f.index change)[g.index]? = some x := h
  rw [Array.getElem?_modify] at h
  split at h
  · next heq =>
    obtain ⟨y, hy, rfl⟩ := Option.map_eq_some_iff.1 h
    obtain rfl : f = g := congrArg FuncId.mk heq
    exact .inl ⟨rfl, y, hy, rfl⟩
  · exact .inr h

end Draft

namespace Program.Filed

open Draft

variable {d : Draft} (h : d.program.Filed)

include h

theorem addVar (name : String) (storage : Storage) (func : Option FuncId) :
    (d.addVar name storage func).2.program.Filed where
  sites := h.sites
  functions f x hf := (h.functions f x hf).mono fun _ _ => var?_addVar name storage func

theorem addFunction (name : String) (enclosing : Option FuncId) :
    (d.addFunction name enclosing).2.program.Filed where
  sites := h.sites
  functions f x hf := by
    replace hf : (d.program.functions.push _)[f.index]? = some x := hf
    rw [Array.getElem?_push] at hf
    split at hf
    · -- the new function lists nothing
      cases hf
      have hnil : ∀ s, Function.listOf
          { id := ⟨d.program.functions.size⟩, name := name, enclosing := enclosing } s = [] := by
        intro s
        cases s <;> rfl
      refine ⟨fun s v hv => ?_, fun s => ?_, List.nodup_nil⟩
      · rw [hnil s] at hv
        cases hv
      · rw [hnil s]
        exact List.nodup_nil
    · exact (h.functions f x hf).mono fun _ _ => id

theorem addSite (kind : AllocKind) (func : FuncId) : (d.addSite kind func).2.program.Filed where
  sites i x hi := by
    replace hi : (d.program.sites.push _)[i.index]? = some x := hi
    rw [Array.getElem?_push] at hi
    split at hi
    · next heq =>
      cases hi
      exact congrArg SiteId.mk heq.symm
    · exact h.sites i x hi
  functions f x hf := (h.functions f x hf).mono fun _ _ => id

theorem updateFunction (f : FuncId) {change : Function → Function}
    (hchange : ∀ x, d.program.Files f x → d.program.Files f (change x)) :
    (d.updateFunction f change).program.Filed where
  sites := h.sites
  functions g x hg := by
    rcases function?_updateFunction hg with ⟨rfl, y, hy, rfl⟩ | hg
    · exact (hchange y (h.functions g y hy)).mono fun _ _ => id
    · exact (h.functions g x hg).mono fun _ _ => id

/-- A new variable of function `f` comes into the list of its class, if there is such a function. -/
theorem declare (f : FuncId) (name : String) (storage : Storage)
    (change : VarId → Function → Function)
    (hlists : ∀ v x s, (change v x).listOf s =
      if s = storage then x.listOf s ++ [v] else x.listOf s)
    (hcaptures : ∀ v x, (change v x).captures = x.captures) :
    ((d.addVar name storage (some f)).2.updateFunction f
      (change (d.addVar name storage (some f)).1)).program.Filed where
  sites := h.sites
  functions g x hg := by
    have hvars : ∀ v y, d.program.var? v = some y →
        (d.addVar name storage (some f)).2.program.var? v = some y :=
      fun _ _ => var?_addVar name storage (some f)
    rcases function?_updateFunction hg with ⟨rfl, y, hy, rfl⟩ | hg
    · exact (h.functions g y hy).insert hvars (var?_fst_addVar d name storage _)
        (var?_addVar_self d name storage _) rfl (hlists _ y) (hcaptures _ y)
    · exact (h.functions g x hg).mono hvars

theorem capture (f : FuncId) (v : VarId) : (d.capture f v).program.Filed := by
  refine h.updateFunction f fun x hx => ?_
  split
  · exact hx
  · next hnew =>
    refine hx.congr (fun s => by cases s <;> rfl) ?_
    refine List.nodup_append.2 ⟨hx.captures, List.nodup_singleton v, ?_⟩
    intro w hw u hu hwu
    obtain rfl := List.mem_singleton.1 hu
    exact hnew (List.contains_iff_mem.2 (hwu ▸ hw))

end Program.Filed

theorem Draft.Made.filed {d : Draft} (h : d.Made) : d.program.Filed := by
  induction h with
  | empty => exact ⟨nofun, nofun⟩
  | global _ name ih => exact ih.addVar name .globalVar none
  | function _ name ih => exact ih.addFunction name none
  | closure _ f name ih => exact ih.addFunction name (some f)
  | param _ f name ih =>
    refine ih.declare f name .param (fun v x => { x with params := x.params ++ [v] }) ?_
      fun _ _ => rfl
    intro v x s
    cases s <;> rfl
  | result _ f name ih =>
    refine ih.declare f name .result (fun v x => { x with results := x.results ++ [v] }) ?_
      fun _ _ => rfl
    intro v x s
    cases s <;> rfl
  | localVar _ f name ih =>
    refine ih.declare f name .localVar (fun v x => { x with locals := x.locals ++ [v] }) ?_
      fun _ _ => rfl
    intro v x s
    cases s <;> rfl
  | capture _ f v ih => exact ih.capture f v
  | markNoescape _ f ih =>
    exact ih.updateFunction f fun x hx => hx.congr (fun s => by cases s <;> rfl) hx.captures
  | label _ ih => exact ⟨ih.sites, ih.functions⟩
  | new _ f ih => exact ih.addSite _ f
  | composite _ f _ _ ih => exact ih.addSite _ f
  | mapLit _ f _ ih => exact ih.addSite _ f
  | @closureLit d _ _ f _ ok ih =>
    unfold Draft.closureLit at ok
    split at ok
    · cases ok
    · split at ok
      · cases ok
      · cases ok
        exact ih.addSite _ _
  | @setBody d _ _ f _ ok ih =>
    unfold Draft.setBody at ok
    split at ok
    · cases ok
    · cases ok
      exact ih.updateFunction f fun x hx => hx.congr (fun s => by cases s <;> rfl) hx.captures

/-! ## Checks -/

namespace Draft

theorem enclosingFault?_ne (p : Program) (x : Function) (name : String) :
    enclosingFault? p x ≠ some (.duplicateLocation name) := by
  fun_cases enclosingFault? p x <;> exact nofun

theorem exprFault?_ne (p : Program) (e : Expr) (name : String) :
    exprFault? p e ≠ some (.duplicateLocation name) := by
  fun_cases exprFault? p e <;> exact nofun

/-- The checks of a draft never find a variable in the list of another function. -/
theorem build_ne_duplicateLocation {d : Draft} (hd : d.Made) (name : String) :
    d.build ≠ .error (.duplicateLocation name) := by
  intro h
  unfold build at h
  split at h
  · next e hfault =>
    cases h
    obtain ⟨x, hx, hfault⟩ := List.exists_of_findSome?_eq_some hfault
    have hf := hd.sound.functions.mem_functions.1 hx
    have hlists : x.declared.findSome? (declaredFault? d.program x) = none := by
      rw [List.findSome?_eq_none_iff]
      intro v hv
      obtain ⟨y, hy, hfunc⟩ := hd.filed.exists_var hf hv
      unfold declaredFault?
      rw [hy]
      exact if_pos hfunc
    unfold functionFault? at hfault
    rw [hlists, Option.none_or, Option.or_eq_some_iff] at hfault
    rcases hfault with hfault | ⟨-, hfault⟩
    · exact enclosingFault?_ne _ x name hfault
    · obtain ⟨e, -, hfault⟩ := List.exists_of_findSome?_eq_some hfault
      exact exprFault?_ne _ e name hfault
  · cases h

end Draft

/-! ## Declaring a batch -/

/-- Entries can be placed as long as no variable comes twice. -/
theorem Declared.exists_run {es : List (VarId × Location)} {b : BatchGraph} (h : Declared es b)
    (s : Scene) (es' : List (VarId × Location)) (hnodup : ((es ++ es').map Prod.fst).Nodup) :
    ∃ b', (es'.forM (Build.place s)).run b = .ok ((), b') ∧ Declared (es ++ es') b' := by
  induction es' generalizing es b with
  | nil => exact ⟨b, rfl, by rwa [List.append_nil]⟩
  | cons e es' ih =>
    have hnew : b.varLoc? e.1 = none := by
      rw [Option.eq_none_iff_forall_ne_some]
      intro l hl
      obtain ⟨x, hx, -⟩ := h.of_varLoc? hl
      rw [List.map_append, List.nodup_append] at hnodup
      exact hnodup.2.2 e.1 (List.mem_map.2 ⟨_, hx, rfl⟩) e.1 List.mem_cons_self rfl
    rw [List.append_cons] at hnodup ⊢
    obtain ⟨b', hrun, hb'⟩ := ih (h.push hnew e.2) hnodup
    refine ⟨b', ?_, hb'⟩
    show (Build.place s e >>= fun _ => es'.forM (Build.place s)).run b = _
    rw [StateT.run_bind, Build.run_place, hnew]
    exact hrun

theorem BatchGraph.exists_declarations_of_isSome {p : Program} {fs : List FuncId}
    (h : ∀ f ∈ fs, (p.function? f).isSome) :
    ∃ ds, declarations p fs = .ok ds ∧
      List.Forall₂ (fun f d => p.function? f = some d) fs ds := by
  unfold declarations
  induction fs with
  | nil => exact ⟨[], rfl, .nil⟩
  | cons f fs ih =>
    obtain ⟨d, hd⟩ := Option.isSome_iff_exists.1 (h f List.mem_cons_self)
    obtain ⟨ds, hok, hds⟩ := ih fun g hg => h g (List.mem_cons_of_mem f hg)
    refine ⟨d :: ds, ?_, .cons hd hds⟩
    rw [List.mapM_cons, hd, hok]
    rfl

/-- Functions of the program can be declared together, each once, and then every variable they
declare has a location. -/
theorem Program.Filed.exists_declare {p : Program} (h : p.Filed) {fs : List FuncId}
    (hfs : fs.Nodup) (hin : ∀ f ∈ fs, (p.function? f).isSome) :
    ∃ ds, declarations p fs = .ok ds ∧ ∀ summary? o, ∃ b,
      (ds.forM (Build.declare (scene p fs summary? o ds))).run {} = .ok ((), b) ∧
        ∀ x ∈ ds, ∀ v ∈ x.declared, (b.varLoc? v).isSome := by
  obtain ⟨ds, hok, hds⟩ := exists_declarations_of_isSome hin
  refine ⟨ds, hok, fun summary? o => ?_⟩
  set s := scene p fs summary? o ds
  have hnodup : (([] ++ ds.flatMap (Build.declEntries s)).map Prod.fst).Nodup := by
    rw [List.nil_append, declEntries_flatMap_fst]
    exact h.nodup_flatMap_declared hds hfs
  obtain ⟨b, hrun, hb⟩ := Declared.empty.exists_run s _ hnodup
  refine ⟨b, by rw [Build.declares_eq, hrun], fun x hx v hv => ?_⟩
  rw [← Build.declEntries_fst s] at hv
  obtain ⟨e, he, rfl⟩ := List.mem_map.1 hv
  obtain ⟨l, hl, -⟩ := hb.varLoc?_of_mem (List.mem_flatMap.2 ⟨x, hx, he⟩)
  rw [hl]
  rfl

/-- However a draft is made, entries stand where their handles say, a variable is in one list at
most, that of its class in its function, and once, and nothing is captured twice.  So a draft is
never refused for a variable that is declared twice, and the functions of each batch of an accepted
program can be declared. -/
theorem declared_once {d : Draft} (hd : d.Made) :
    (∀ f x, d.program.function? f = some x → x.id = f) ∧
      (∀ v x, d.program.var? v = some x → x.id = v) ∧
      (∀ i x, d.program.site? i = some x → x.id = i) ∧
      (d.program.functions.toList.flatMap Function.declared).Nodup ∧
      (∀ f x, d.program.function? f = some x →
        (∀ s, ∀ v ∈ x.listOf s, ∃ y, d.program.var? v = some y ∧ y.storage = s ∧
          y.func = some f) ∧ x.captures.Nodup) ∧
      (∀ name, d.build ≠ .error (.duplicateLocation name)) ∧
      ∀ p, d.build = .ok p → ∀ b ∈ (Plan.ofProgram p).batches,
        ∃ ds, declarations p b.functions = .ok ds ∧ ∀ summary? o, ∃ g,
          (ds.forM (Build.declare (scene p b.functions summary? o ds))).run {} = .ok ((), g) ∧
            ∀ x ∈ ds, ∀ v ∈ x.declared, (g.varLoc? v).isSome := by
  have hfiled := hd.filed
  refine ⟨hd.sound.functions, hd.sound.vars, hfiled.sites, hfiled.nodup_declared, ?_,
    Draft.build_ne_duplicateLocation hd, ?_⟩
  · exact fun f x hf => ⟨(hfiled.functions f x hf).listed, (hfiled.functions f x hf).captures⟩
  · intro p hp b hb
    have hin : ∀ f g, p.enclosing? f = some g → (p.function? g).isSome :=
      fun _ _ hfg => (Draft.enclosing_of_build hd hp hfg).1
    obtain rfl := Draft.program_of_build hp
    refine hfiled.exists_declare (Plan.nodup_functions hd.sound.functions hb) fun f hf => ?_
    exact Plan.isSome_of_mem_functions hd.sound.functions
      (fun _ _ => CallGraph.function?_of_callees hin) hb hf

/-- A parameter for a function that comes later, and a function with a parameter of its own, which
is captured twice, and a local variable. -/
def earlyParam : Draft :=
  let d := ((({} : Draft).param ⟨0⟩ "a").2.function "f").2
  let d := ((d.param ⟨0⟩ "x").2.localVar ⟨0⟩ "y").2
  (d.capture ⟨0⟩ ⟨1⟩).capture ⟨0⟩ ⟨1⟩

theorem declared_once_earlyParam :
    earlyParam.Made ∧ earlyParam.program.vars.size = 3 ∧
      earlyParam.program.functions.toList.flatMap Function.declared = [⟨1⟩, ⟨2⟩] ∧
      (earlyParam.program.functions.toList.flatMap Function.declared).Nodup ∧
      ∃ p, earlyParam.build = .ok p ∧ ∃ b ∈ (Plan.ofProgram p).batches, ⟨0⟩ ∈ b.roots ∧
        ∃ ds, declarations p b.functions = .ok ds ∧
          ∃ g, (ds.forM (Build.declare (scene p b.functions (fun _ => none) {} ds))).run {} =
            .ok ((), g) := by
  have hmade : earlyParam.Made :=
    (((((Draft.Made.empty.param ⟨0⟩ "a").function "f").param ⟨0⟩ "x").localVar ⟨0⟩ "y").capture
      ⟨0⟩ ⟨1⟩).capture ⟨0⟩ ⟨1⟩
  obtain ⟨-, -, -, hnodup, -, -, hbatches⟩ := declared_once hmade
  obtain ⟨b, hb, hroot⟩ := Plan.exists_batch_of_isTopLevel hmade.sound.functions (f := ⟨0⟩)
    ⟨rfl, rfl⟩
  obtain ⟨ds, hds, hrun⟩ := hbatches earlyParam.program rfl b hb
  obtain ⟨g, hg, -⟩ := hrun (fun _ => none) {}
  exact ⟨hmade, rfl, rfl, hnodup, _, rfl, b, hb, hroot, ds, hds, g, hg⟩

end EscapeFlow
