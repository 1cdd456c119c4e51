import EscapeFlow.Proofs.AnalysisRun
import EscapeFlow.Proofs.Captures
import EscapeFlow.Proofs.DeclDepths
import EscapeFlow.Proofs.SimulationBodies

/-!
# Programs with another body

`p.Recasts xs ys p'` says that `p'` is `p` with the body `ys` in the place of the body `xs`.  If
`ys` does all that `xs` does (`Within xs ys`), and no variable is declared at another depth, the
graph of a batch of `p` maps into that of `p'`:

    p.Recasts xs ys p' → Within xs ys → … → ∃ ρ, Maps p p' ρ b.graph b'.graph …    (build_maps)

Solving `p'` then gives each site and each parameter what solving `p` gives it, and maybe more.
-/

namespace EscapeFlow

open BatchGraph Build

/-! ## Recasting -/

/-- The function is the same, or it has the body `ys` in the place of `xs`. -/
def Function.Recast (xs ys : List Stmt) (d d' : Function) : Prop :=
  d' = d ∨ d.body = some xs ∧ d' = { d with body := some ys }

/-- The functions of a program, some with another body. -/
structure Program.Recasts (xs ys : List Stmt) (p p' : Program) : Prop where
  function? : ∀ f, Option.Rel (Function.Recast xs ys) (p.function? f) (p'.function? f)
  vars : p'.vars = p.vars
  size : p'.functions.size = p.functions.size

/-- The program with another body for the function `f`. -/
def Program.withBody (p : Program) (f : FuncId) (ys : List Stmt) : Program :=
  { p with functions := p.functions.modify f.index fun d => { d with body := some ys } }

section Recast

variable {xs ys : List Stmt}

namespace Function.Recast

variable {d d' : Function}

theorem symm (h : Recast xs ys d d') : Recast ys xs d' d := by
  rcases h with rfl | ⟨hbody, rfl⟩
  · exact .inl rfl
  · refine .inr ⟨rfl, ?_⟩
    rw [← hbody]

/-- A function looks the same from outside. -/
theorem same (h : Recast xs ys d d') :
    d'.id = d.id ∧ d'.params = d.params ∧ d'.results = d.results ∧ d'.locals = d.locals ∧
      d'.captures = d.captures ∧ d'.enclosing = d.enclosing ∧ d'.noescape = d.noescape ∧
      d'.isExternal = d.isExternal := by
  rcases h with rfl | ⟨hbody, rfl⟩
  · exact ⟨rfl, rfl, rfl, rfl, rfl, rfl, rfl, rfl⟩
  · refine ⟨rfl, rfl, rfl, rfl, rfl, rfl, rfl, ?_⟩
    unfold isExternal
    rw [hbody]
    rfl

/-- What holds between the bodies holds between the functions. -/
theorem stmts {R : List Stmt → List Stmt → Prop} (h : Recast xs ys d d') (hR : ∀ zs, R zs zs)
    (hxy : R xs ys) : R d.stmts d'.stmts := by
  rcases h with rfl | ⟨hbody, rfl⟩
  · exact hR _
  · unfold Function.stmts
    rw [hbody]
    exact hxy

end Function.Recast

namespace Program

variable {p p' : Program}

theorem recasts_withBody {f : FuncId} {d : Function} (hf : p.function? f = some d)
    (hbody : d.body = some xs) (ys : List Stmt) : p.Recasts xs ys (p.withBody f ys) where
  function? g := by
    unfold function? withBody at *
    rw [Array.getElem?_modify]
    by_cases hg : f.index = g.index
    · rw [if_pos hg, ← hg, hf]
      exact .some (.inr ⟨hbody, rfl⟩)
    · rw [if_neg hg]
      cases p.functions[g.index]? with
      | none => exact .none
      | some d => exact .some (.inl rfl)
  vars := rfl
  size := Array.size_modify

namespace Recasts

variable (h : p.Recasts xs ys p')

include h

/-- A function is in neither program, or in both. -/
theorem function?_cases (f : FuncId) : (p.function? f = none ∧ p'.function? f = none) ∨
    ∃ d d', p.function? f = some d ∧ p'.function? f = some d' ∧ d.Recast xs ys d' := by
  have hf := h.function? f
  generalize p.function? f = x at hf
  generalize p'.function? f = y at hf
  cases hf with
  | none => exact .inl ⟨rfl, rfl⟩
  | some hd => exact .inr ⟨_, _, rfl, rfl, hd⟩

theorem symm : p'.Recasts ys xs p where
  function? f := by
    rcases h.function?_cases f with ⟨hn, hn'⟩ | ⟨d, d', hd, hd', hrecast⟩
    · rw [hn, hn']
      exact .none
    · rw [hd, hd']
      exact .some hrecast.symm
  vars := h.vars.symm
  size := h.size.symm

theorem of_function? {f : FuncId} {d d' : Function} (hd : p.function? f = some d)
    (hd' : p'.function? f = some d') : d.Recast xs ys d' := by
  have hf := h.function? f
  rw [hd, hd'] at hf
  cases hf with
  | some hrecast => exact hrecast

theorem enclosing? (f : FuncId) : p'.enclosing? f = p.enclosing? f := by
  unfold Program.enclosing?
  rcases h.function?_cases f with ⟨hn, hn'⟩ | ⟨d, d', hd, hd', hrecast⟩
  · rw [hn, hn']
  · rw [hd, hd']
    exact hrecast.same.2.2.2.2.2.1

theorem containsClosure (f g : FuncId) : p'.containsClosure f g = p.containsClosure f g := by
  have hmeets : ∀ n g, p'.meets f n g = p.meets f n g := by
    intro n
    induction n with
    | zero => exact fun _ => rfl
    | succ n ih =>
      intro g
      rw [meets, meets, h.enclosing? g]
      cases p.enclosing? g with
      | none => rfl
      | some f' => exact congrArg (decide (f' = f) || ·) (ih f')
  unfold Program.containsClosure
  rw [hmeets, h.size]

end Recasts

end Program

end Recast

/-! ## One body inside another -/

/-- The statements `ys` do all that `xs` do. -/
structure Within (xs ys : List Stmt) : Prop where
  looping : loopingLabels ys = loopingLabels xs
  assigned : (bodyStmts xs).flatMap Stmt.assignedVars ⊆ (bodyStmts ys).flatMap Stmt.assignedVars
  addressed : (bodyExprs xs).filterMap Expr.addressedVar ⊆
    (bodyExprs ys).filterMap Expr.addressedVar
  follows : ∀ {s s' : Scene}, s.Widens s' → ∀ {T : Target} {W : World} looping pl,
    T.Follows W Target.Follows.done (stmts s looping pl xs) (stmts s' looping pl ys)

theorem flatMap_subset_of_forall₂ {α β : Type} {R : α → α → Prop} {f : α → List β}
    (hf : ∀ a a', R a a' → f a ⊆ f a') {as as' : List α} (h : List.Forall₂ R as as') :
    as.flatMap f ⊆ as'.flatMap f := by
  intro x hx
  obtain ⟨a, ha, hx⟩ := List.mem_flatMap.1 hx
  obtain ⟨a', ha', haa'⟩ := mem_of_forall₂ h.flip ha
  exact List.mem_flatMap.2 ⟨a', ha', hf a a' haa' hx⟩

section Scene

variable {p p' : Program} {xs ys : List Stmt} {fs : List FuncId}
  {summary? : FuncId → Option Summary} {o : BuildOptions} {ds ds' : List Function}

/-- The functions of a batch, before and after. -/
theorem Program.Recasts.forall₂ (h : p.Recasts xs ys p')
    (hds : List.Forall₂ (fun f d => p.function? f = some d) fs ds)
    (hds' : List.Forall₂ (fun f d => p'.function? f = some d) fs ds') :
    List.Forall₂ (Function.Recast xs ys) ds ds' := by
  induction hds generalizing ds' with
  | nil =>
    cases hds'
    exact .nil
  | cons hd _ ih =>
    cases hds' with
    | cons hd' hrest => exact .cons (h.of_function? hd hd') (ih hrest)

theorem Program.Recasts.widens (h : p.Recasts xs ys p') (hw : Within xs ys)
    (hds : List.Forall₂ (Function.Recast xs ys) ds ds') :
    (scene p fs summary? o ds).Widens (scene p' fs summary? o ds') where
  signature f d d' hd hd' := by
    obtain ⟨-, hparams, hresults, -, hcaptures, -⟩ := (h.of_function? hd hd').same
    exact ⟨hparams, hresults, hcaptures⟩
  var? v := by
    show p'.vars[v.index]? = p.vars[v.index]?
    rw [h.vars]
  members := rfl
  summary? := rfl
  precise := rfl
  changes v hv := by
    unfold Scene.changes at hv ⊢
    rw [Bool.or_eq_true, List.contains_iff_mem, List.contains_iff_mem] at hv ⊢
    refine hv.imp (fun hmem => ?_) fun hmem => ?_
    · refine flatMap_subset_of_forall₂ (fun d d' hd => ?_) hds hmem
      exact hd.stmts (R := fun xs ys => (bodyStmts xs).flatMap Stmt.assignedVars ⊆
        (bodyStmts ys).flatMap Stmt.assignedVars) (fun _ => List.Subset.refl _) hw.assigned
    · refine flatMap_subset_of_forall₂ (fun d d' hd => ?_) hds hmem
      exact hd.stmts (R := fun xs ys => (bodyExprs xs).filterMap Expr.addressedVar ⊆
        (bodyExprs ys).filterMap Expr.addressedVar) (fun _ => List.Subset.refl _) hw.addressed

theorem Function.Recast.follows {d d' : Function} (h : d.Recast xs ys d') (hw : Within xs ys)
    {s s' : Scene} (S : s.Widens s') {T : Target} {W : World} :
    T.Follows W Target.Follows.done (Build.body s d) (Build.body s' d') := by
  rcases h with rfl | ⟨hbody, rfl⟩
  · unfold Build.body
    cases d'.body with
    | none => exact .pure trivial
    | some zs => exact S.follows_stmts _ zs _
  · unfold Build.body
    rw [hbody]
    dsimp only
    rw [hw.looping]
    exact hw.follows S _ _

end Scene

/-! ## What is declared -/

/-- A location without the marks that solving does not look at. -/
def Location.unmarked (x : Location) : Location :=
  { x with reassigned := false, addrTaken := false }

theorem Location.view_eq_of_unmarked {x y : Location} (h : x.unmarked = y.unmarked) {α : Type}
    {view : Location → α} (hv : ∀ z, view z.unmarked = view z) : view x = view y := by
  rw [← hv, h, hv]

/-- What is declared does not depend on bodies, but for marks. -/
theorem Build.declEntries_recast {xs ys : List Stmt} {d d' : Function} (h : d.Recast xs ys d')
    (s s' : Scene) :
    (declEntries s' d').map (Prod.map id Location.unmarked) =
      (declEntries s d).map (Prod.map id Location.unmarked) := by
  obtain ⟨hid, hparams, hresults, hlocals, -⟩ := h.same
  unfold declEntries
  rw [hid, hparams, hresults, hlocals]
  simp only [List.map_append, List.map_map]
  rfl

theorem declEntries_flatMap_recast {xs ys : List Stmt} {ds ds' : List Function}
    (h : List.Forall₂ (Function.Recast xs ys) ds ds') (s s' : Scene) :
    (ds'.flatMap (declEntries s')).map (Prod.map id Location.unmarked) =
      (ds.flatMap (declEntries s)).map (Prod.map id Location.unmarked) := by
  induction h with
  | nil => rfl
  | cons hd _ ih =>
    rw [List.flatMap_cons, List.flatMap_cons, List.map_append, List.map_append, ih,
      declEntries_recast hd s s']

theorem Build.depth_leaks_of_mem_declEntries {s : Scene} {f : Function} {e : VarId × Location}
    (he : e ∈ declEntries s f) : e.2.loopDepth = 0 ∧ e.2.leaks = .empty := by
  unfold declEntries at he
  rw [List.mem_append, List.mem_append] at he
  rcases he with he | he | he
  all_goals
    obtain ⟨v, -, rfl⟩ := List.mem_map.1 he
    exact ⟨rfl, rfl⟩

section Start

variable {es es' : List (VarId × Location)} {b c : BatchGraph}

/-- The same variables are declared, but for marks. -/
theorem Declared.same (hb : Declared es b) (hc : Declared es' c)
    (h : es'.map (Prod.map id Location.unmarked) = es.map (Prod.map id Location.unmarked)) :
    c.graph.size = b.graph.size ∧ c.vars = b.vars ∧
      ∀ l, (c.graph.loc l).unmarked = (b.graph.loc l).unmarked := by
  have hlen : es'.length = es.length := by
    have := congrArg List.length h
    rwa [List.length_map, List.length_map] at this
  have hfst : es'.map Prod.fst = es.map Prod.fst := by
    have := congrArg (List.map Prod.fst) h
    rwa [List.map_map, List.map_map] at this
  refine ⟨by rw [hc.size, hb.size, hlen], ?_, fun l => ?_⟩
  · have hvars : ∀ es : List (VarId × Location), es.zipIdx.map (fun e => (e.1.1, e.2 + 3)) =
        (es.map Prod.fst).zipIdx.map fun e => (e.1, e.2 + 3) := by
      intro es
      rw [List.zipIdx_map, List.map_map]
      rfl
    rw [hc.vars, hb.vars, hvars, hvars, hfst]
  · have hlocs : c.graph.locs.toList.map Location.unmarked =
        b.graph.locs.toList.map Location.unmarked := by
      have := congrArg (List.map Prod.snd) h
      rw [List.map_map, List.map_map] at this
      rw [hc.locs, hb.locs, List.map_append, List.map_append, List.map_map, List.map_map]
      exact congrArg _ this
    rw [c.graph.view_loc Location.unmarked, b.graph.view_loc Location.unmarked, hlocs]

theorem Declared.tabled {ds : List Function} {s : Scene}
    (h : Declared (ds.flatMap (declEntries s)) b) : b.Tabled := by
  intro v l hv
  obtain ⟨x, hx, rfl, -⟩ := h.of_varLoc? hv
  obtain ⟨d, -, hx⟩ := List.mem_flatMap.1 hx
  exact (mem_declEntries hx).1

/-- What holds of the sinks and of each declared variable holds of all locations. -/
theorem Declared.forall_loc {ds : List Function} {s : Scene}
    (h : Declared (ds.flatMap (declEntries s)) b) {P : Location → Prop}
    (hsinks : ∀ x < 3, P (Graph.sinks.loc x)) (hvars : ∀ d, ∀ e ∈ declEntries s d, P e.2)
    (hnone : P { owner := .temp }) (l : LocId) : P (b.graph.loc l) := by
  rcases h.loc_cases l with ⟨hl, heq⟩ | ⟨-, e, he, heq⟩ | ⟨-, heq⟩
  · rw [heq]
    exact hsinks l hl
  · rw [heq]
    obtain ⟨d, -, he⟩ := List.mem_flatMap.1 he
    exact hvars d e he
  · rw [heq]
    exact hnone

/-- A declared variable has no edges, and the depth of its declaration is not known yet. -/
theorem Declared.blank {ds : List Function} {s : Scene}
    (h : Declared (ds.flatMap (declEntries s)) b) (l : LocId) :
    (b.graph.loc l).edges = [] ∧ (b.graph.loc l).loopDepth = 0 := by
  refine h.forall_loc (P := fun x => x.edges = [] ∧ x.loopDepth = 0) (by decide) ?_ ⟨rfl, rfl⟩ l
  exact fun d e he => ⟨(mem_declEntries he).2.2.1, (depth_leaks_of_mem_declEntries he).1⟩

/-- The declared variables of one build are those of the other. -/
theorem Target.embeds_declared {T : Target} {ds : List Function} {s : Scene}
    (hb : Declared (ds.flatMap (declEntries s)) b) (hc : Declared es' c)
    (h : es'.map (Prod.map id Location.unmarked) =
      (ds.flatMap (declEntries s)).map (Prod.map id Location.unmarked))
    (hk : c.Keeps T.built) : T.Embeds (List.range b.graph.size) b := by
  obtain ⟨hsize, hvars, hloc⟩ := hb.same hc h
  have hv : ∀ v, c.varLoc? v = b.varLoc? v := fun v => by rw [varLoc?, hvars, varLoc?]
  have hrole : ∀ l, (c.graph.loc l).role = (b.graph.loc l).role := fun l =>
    Location.view_eq_of_unmarked (hloc l) fun _ => rfl
  have hmem : ∀ {l l' : LocId}, (List.range b.graph.size)[l]? = some l' →
      l' = l ∧ l < c.graph.size := by
    intro l l' hl
    rw [hsize]
    obtain ⟨hlt, rfl⟩ := List.getElem?_eq_some_iff.1 hl
    rw [List.getElem_range]
    rw [List.length_range] at hlt
    exact ⟨rfl, hlt⟩
  have hget : ∀ {l : LocId}, l < b.graph.size → (List.range b.graph.size)[l]? = some l :=
    fun hl => List.getElem?_range hl
  constructor
  case length => exact List.length_range
  case sinks =>
    intro l hl
    refine hget (Nat.lt_of_lt_of_le hl ?_)
    rw [hb.size]
    exact Nat.le_add_left 3 _
  case lt =>
    intro l l' hl
    obtain ⟨rfl, hlt⟩ := hmem hl
    exact Nat.lt_of_lt_of_le hlt hk.size
  case role =>
    intro l l' hl
    obtain ⟨rfl, hlt⟩ := hmem hl
    rw [hk.role _ hlt, hrole]
  case depth =>
    intro l l' hl hown
    obtain ⟨rfl, hlt⟩ := hmem hl
    have howner : (c.graph.loc l').owner = (b.graph.loc l').owner := congrArg Role.owner (hrole l')
    rw [hk.depth _ hlt (by rw [howner]; exact hown)]
    exact Location.view_eq_of_unmarked (hloc l') fun _ => rfl
  case attrs =>
    intro l l' hl
    obtain ⟨rfl, hlt⟩ := hmem hl
    have hattrs : (c.graph.loc l').attrs = (b.graph.loc l').attrs :=
      Location.view_eq_of_unmarked (hloc l') fun _ => rfl
    rw [← hattrs]
    exact Attrs.le_trans (hk.attrs _ hlt) (T.contains _)
  case edge =>
    rintro d s w ⟨e, he, -⟩
    rw [(hb.blank d).1] at he
    cases he
  case vars =>
    intro v l hl
    obtain ⟨-, -, -, -, hlt⟩ := hb.of_varLoc? hl
    exact ⟨l, hget hlt, hk.vars v l (by rw [hv]; exact hl)⟩
  case global =>
    intro v l' hn hT
    exact hk.global v l' (by rw [hv]; exact hn) hT

end Start

/-- A build that succeeds runs over the declarations first and then over the bodies. -/
theorem exists_runs {p : Program} {fs : List FuncId} {summary? : FuncId → Option Summary}
    {o : BuildOptions} {b : BatchGraph} (h : build p fs summary? o = .ok b) :
    ∃ ds b₀, List.Forall₂ (fun f d => p.function? f = some d) fs ds ∧
      ((ds.flatMap (declEntries (scene p fs summary? o ds))).forM
        (place (scene p fs summary? o ds))).run {} = .ok ((), b₀) ∧
      (ds.forM (body (scene p fs summary? o ds))).run b₀ = .ok ((), b) := by
  obtain ⟨ds, hok, hds⟩ := exists_declarations h
  rw [build_eq] at h
  obtain ⟨_, heq, h⟩ := bind_eq_ok.1 h
  rw [hok] at heq
  cases heq
  obtain ⟨⟨⟨⟩, b₀⟩, hb₀, h⟩ := bind_eq_ok.1 h
  obtain ⟨⟨⟨⟩, b₁⟩, hrun, h⟩ := bind_eq_ok.1 h
  cases h
  exact ⟨ds, b₀, hds, hb₀, hrun⟩

theorem declared_of_places {s : Scene} {ds : List Function} {b₀ : BatchGraph}
    (hb₀ : ((ds.flatMap (declEntries s)).forM (place s)).run {} = .ok ((), b₀)) :
    Declared (ds.flatMap (declEntries s)) b₀ := by
  have hself : s.program.Offers False s.program := .refl _
  have hplaces := Declared.empty.run_places hself (ds.flatMap (declEntries s))
  rw [hb₀] at hplaces
  exact hplaces.2

theorem keeps_of_bodies {s : Scene} {ds : List Function} {b₀ b : BatchGraph} (hb₀ : b₀.Tabled)
    (hrun : (ds.forM (body s)).run b₀ = .ok ((), b)) : b₀.Keeps b :=
  ((inferInstance : Respects Evolves (ds.forM (body s))).run hrun hb₀).1

/-- The two passes of a build that succeeds. -/
theorem exists_passes {p : Program} {fs : List FuncId} {summary? : FuncId → Option Summary}
    {o : BuildOptions} {b : BatchGraph} (h : build p fs summary? o = .ok b) :
    ∃ ds b₀, List.Forall₂ (fun f d => p.function? f = some d) fs ds ∧
      Declared (ds.flatMap (declEntries (scene p fs summary? o ds))) b₀ ∧
      (ds.forM (body (scene p fs summary? o ds))).run b₀ = .ok ((), b) ∧ b₀.Keeps b := by
  obtain ⟨ds, b₀, hds, hb₀, hrun⟩ := exists_runs h
  have hdecl := declared_of_places hb₀
  exact ⟨ds, b₀, hds, hdecl, hrun, keeps_of_bodies hdecl.tabled hrun⟩

/-! ## Mapping a build into another -/

/-- A built graph with the attributes that solving gives. -/
def Target.ofSolved (b : BatchGraph) (hb : b.WellFormed)
    (hsinks : ∀ l, l < 3 → (b.graph.loc l).role = (Graph.sinks.loc l).role) (p : Program)
    (o : SolveOptions) (ho : o.maxWalks = 0) : Target where
  built := b
  attrs l := ((b.graph.solveWith .exact p o).graph.loc l).attrs
  wellFormed := hb
  contains := (Graph.solve_solved .exact p o hb.graph_full).1.attrs
  full := (Graph.solve_solved .exact p o hb.graph_full).2
  address d s w he hw hd := by
    have hclosed := escaping_escapeClosed .exact p b.graph o ho hb.graph_full
    refine (Graph.solve_solved .exact p o hb.graph_full).2 s ?_
    refine hclosed.address d s _ (hb.source d s w he).2 (he.flowPath .root) ?_ (.inl hd)
    omega
  sinks := hsinks

theorem Declared.role_sinks {es : List (VarId × Location)} {b : BatchGraph} (h : Declared es b)
    {l : LocId} (hl : l < 3) : (b.graph.loc l).role = (Graph.sinks.loc l).role := by
  rcases h.loc_cases l with ⟨-, heq⟩ | ⟨h3, -⟩ | ⟨hsize, -⟩
  · rw [heq]
  · exact absurd h3 (Nat.not_le_of_lt hl)
  · rw [h.size] at hsize
    have h3 : 3 ≤ l := Nat.le_trans (Nat.le_add_left 3 _) hsize
    exact absurd h3 (Nat.not_le_of_lt hl)

section Maps

variable {p p' : Program} {xs ys : List Stmt}

/-- What storage outlasts is said by functions and depths. -/
theorem Program.Recasts.outlasts (hp : p.Recasts xs ys p') {x y x' y' : Location}
    (hx : x'.func = x.func) (hy : y'.func = y.func)
    (hdx : x.func.isSome = true → x'.loopDepth = x.loopDepth)
    (hdy : y.func.isSome = true → y'.loopDepth = y.loopDepth) :
    x'.outlasts p' y' = x.outlasts p y := by
  unfold Location.outlasts
  rw [hx, hy]
  cases hf : x.func with
  | none => rfl
  | some f =>
    cases hg : y.func with
    | none => rfl
    | some g =>
      rw [hf] at hdx
      rw [hg] at hdy
      dsimp only
      rw [hdx rfl, hdy rfl, hp.containsClosure]

/-- A graph inside a finished one maps into it, if storage of a function has the same depth. -/
theorem Target.Embeds.maps {T : Target} {ρ : List LocId} {b : BatchGraph} (h : T.Embeds ρ b)
    (hp : p.Recasts xs ys p')
    (hdeep : ∀ l l' : LocId, ρ[l]? = some l' → (b.graph.loc l).func.isSome = true →
      (T.built.graph.loc l').loopDepth = (b.graph.loc l).loopDepth) :
    Maps p p' (fun l => ρ.getD l 0) b.graph T.built.graph T.attrs ∧
      ∀ l, l < b.graph.size →
        (T.built.graph.loc (ρ.getD l 0)).role = (b.graph.loc l).role := by
  have himage : ∀ {l}, l < b.graph.size → ρ[l]? = some (ρ.getD l 0) := by
    intro l hl
    rw [← h.length] at hl
    rw [List.getD_eq_getElem _ _ hl, List.getElem?_eq_getElem hl]
  have hrole : ∀ l, l < b.graph.size →
      (T.built.graph.loc (ρ.getD l 0)).role = (b.graph.loc l).role := fun l hl =>
    h.role l _ (himage hl)
  refine ⟨?_, hrole⟩
  constructor
  case lt => exact fun l hl => h.lt l _ (himage hl)
  case attrs => exact fun l hl => h.attrs l _ (himage hl)
  case edge =>
    intro d s w _ he
    obtain ⟨d', s', hd', hs', hflows⟩ := h.edge d s w he
    rw [List.getD_eq_getElem?_getD, List.getD_eq_getElem?_getD, hd', hs']
    exact hflows
  case outlives =>
    intro r l hr hl hout
    rw [outlives_empty_iff] at hout ⊢
    have hresult := congrArg Role.result (hrole r hr)
    have hfunc := congrArg Role.func (hrole r hr)
    have houtlasts := hp.outlasts hfunc (congrArg Role.func (hrole l hl))
      (hdeep r _ (himage hr)) (hdeep l _ (himage hl))
    have hright : (T.built.graph.loc (ρ.getD r 0)).result.isSome = true ∨
        (T.built.graph.loc (ρ.getD r 0)).outlasts p' (T.built.graph.loc (ρ.getD l 0)) = true := by
      rw [houtlasts]
      refine hout.2.imp_left fun hsome => ?_
      show (T.built.graph.loc (ρ.getD r 0)).role.result.isSome = true
      rw [hrole r hr]
      exact hsome
    -- the sinks for writes and calls outlive nothing
    have hsink : ∀ k, k < 3 → ρ.getD r 0 ≠ k := by
      rintro k hk heq
      have hnone : ∀ x < 3, (Graph.sinks.loc x).result = none ∧
          (Graph.sinks.loc x).func = none := by decide
      have hr₀ := (congrArg Role.result (T.sinks k hk)).trans (hnone k hk).1
      have hf₀ := (congrArg Role.func (T.sinks k hk)).trans (hnone k hk).2
      unfold Location.role at hr₀ hf₀
      dsimp only at hr₀ hf₀
      unfold Location.outlasts at hright
      rw [heq, hr₀, hf₀] at hright
      simp at hright
    exact ⟨⟨hsink mutatorId (by decide), hsink calleeId (by decide)⟩, hright⟩
  case func => exact fun l hl => congrArg Role.func (hrole l hl)
  case result => exact fun l hl => congrArg Role.result (hrole l hl)
  case isParam => exact fun l hl => congrArg Role.isParam (hrole l hl)

end Maps

/-- The declarations inside the bodies of a batch, with their depths. -/
def Program.declDepths (p : Program) (fs : List FuncId) : List (VarId × Nat) :=
  (fs.filterMap p.function?).flatMap Function.declDepths

section Builds

variable {p p' : Program} {xs ys : List Stmt} {fs : List FuncId}
  {summary? : FuncId → Option Summary} {o : BuildOptions} {b b' : BatchGraph}

/-- The storage of a variable has the depth of the last declaration of the variable. -/
theorem build_depth (hb : build p fs summary? o = .ok b) {v : VarId} {l : LocId}
    (hv : (b.graph.loc l).owner = .site (.var v)) (hfunc : (b.graph.loc l).func.isSome = true) :
    (b.graph.loc l).loopDepth = depthOf (p.declDepths fs) v 0 := by
  obtain ⟨ds, b₀, hds, hb₀, hrun, hk⟩ := exists_passes hb
  have hbv := ((wellFormed_of_build hb).var_iff v l).2 hv
  cases hv₀ : b₀.varLoc? v with
  | none =>
    -- whatever is not declared is a global, and belongs to no function
    have hglobal : (b.graph.loc l).func = none := congrArg Role.func (hk.global v l hv₀ hbv)
    rw [hglobal] at hfunc
    cases hfunc
  | some l₀ =>
    obtain rfl : l₀ = l := Option.some.inj ((hk.vars v l₀ hv₀).symm.trans hbv)
    unfold Program.declDepths
    rw [filterMap_of_forall₂ hds, (settles_bodies _ ds hrun).depth hb₀.tabled v l₀ hv₀,
      (hb₀.blank l₀).2]

/-- Two builds of which the second has another body that does all the first does. -/
theorem build_maps (hp : p.Recasts xs ys p') (hw : Within xs ys)
    (hdepth : ∀ v, depthOf (p.declDepths fs) v 0 = depthOf (p'.declDepths fs) v 0)
    (hb : build p fs summary? o = .ok b) (hb' : build p' fs summary? o = .ok b')
    (so : SolveOptions) (hso : so.maxWalks = 0) :
    ∃ ρ : LocId → LocId, Maps p p' ρ b.graph b'.graph
        (fun l => ((b'.graph.solveWith .exact p' so).graph.loc l).attrs) ∧
      ∀ l, l < b.graph.size → (b'.graph.loc (ρ l)).role = (b.graph.loc l).role := by
  obtain ⟨ds, b₀, hds, hb₀, hrun, -⟩ := exists_passes hb
  obtain ⟨ds', c₀, hds', hc₀, hrun', hk'⟩ := exists_passes hb'
  have hrecast := hp.forall₂ hds hds'
  have S : (scene p fs summary? o ds).Widens (scene p' fs summary? o ds') := hp.widens hw hrecast
  set s := scene p fs summary? o ds
  set s' := scene p' fs summary? o ds'
  have h3 : 3 ≤ c₀.graph.size := by
    rw [hc₀.size]
    exact Nat.le_add_left 3 _
  let T := Target.ofSolved b' (wellFormed_of_build hb') (fun l hl => by
    rw [hk'.role l (Nat.lt_of_lt_of_le hl h3), hc₀.role_sinks hl]) p' so hso
  have hstart : T.Embeds (List.range b₀.graph.size) b₀ :=
    Target.embeds_declared hb₀ hc₀ (declEntries_flatMap_recast hrecast s s') hk'
  let W : World := ⟨List.range b₀.graph.size, c₀.graph.size, hstart.sinks, h3⟩
  have hfollows : T.Follows W Target.Follows.done (ds.forM (body s)) (ds'.forM (body s')) :=
    Target.Follows.forM₂ (hrecast.imp fun d d' hd W' _ => hd.follows hw S) W W.le_refl
  obtain ⟨W', -, -, hend, -⟩ := hfollows b₀ c₀ () b () b' hstart hc₀.tabled (Nat.le_refl _) hrun
    hrun' (.refl b')
  refine ⟨_, hend.maps hp fun l l' hl' hfunc => ?_⟩
  have hrole := hend.role l l' hl'
  by_cases hvar : ∃ v, (b.graph.loc l).owner = .site (.var v)
  · obtain ⟨v, hv⟩ := hvar
    have hv' : (b'.graph.loc l').owner = .site (.var v) := (congrArg Role.owner hrole).trans hv
    have hfunc' : (b'.graph.loc l').func = (b.graph.loc l).func := congrArg Role.func hrole
    rw [build_depth hb hv hfunc, hdepth v]
    exact build_depth hb' hv' (by rw [hfunc']; exact hfunc)
  · exact hend.depth l l' hl' fun v hv => hvar ⟨v, hv⟩

end Builds

/-! ## Decisions -/

/-- A decision by location: the decision for the same site has the same owner, and all attributes
that this one has. -/
theorem exists_decision {p p' : Program} {xs ys : List Stmt} (hp : p.Recasts xs ys p')
    (hw : Within xs ys) {c : Config} (hc : c.maxWalkRounds = 0) {batch : Batch}
    (hdepth : ∀ v, depthOf (p.declDepths batch.functions) v 0 =
      depthOf (p'.declDepths batch.functions) v 0)
    {summary? : FuncId → Option Summary} {r r' : BatchRun}
    (hr : BatchRun.analyze c p batch summary? = .ok r)
    (hr' : BatchRun.analyze c p' batch summary? = .ok r') {d : Decision}
    (hd : d ∈ r.output.decisions) :
    ∃ d' ∈ r'.output.decisions, d'.site = d.site ∧ d'.func = d.func ∧ d.attrs ≤ d'.attrs := by
  obtain ⟨b, hb, rfl⟩ := BatchRun.analyze_eq_ok hr
  obtain ⟨b', hb', rfl⟩ := BatchRun.analyze_eq_ok hr'
  set o : SolveOptions := ⟨c.maxWalkRounds, 2 ≤ c.diagnosticLevel⟩
  obtain ⟨ρ, hmaps, hrole⟩ := build_maps hp hw hdepth hb hb' o hc
  obtain ⟨l, hl, hsite, hdec⟩ := mem_decisions.1 hd
  replace hl : l < b.graph.size := hl.trans_eq (b.graph.solve_size .exact p o)
  have hsame : ((b'.graph.solveWith .exact p' o).graph.loc (ρ l)).role =
      ((b.graph.solveWith .exact p o).graph.loc l).role := by
    rw [b'.graph.solve_role .exact, b.graph.solve_role .exact, hrole l hl]
  refine ⟨((b'.graph.solveWith .exact p' o).graph.loc (ρ l)).decision d.site, ?_, rfl, ?_, ?_⟩
  · refine mem_decisions.2 ⟨ρ l, ?_, ?_, rfl⟩
    · exact (hmaps.lt l hl).trans_eq (b'.graph.solve_size .exact p' o).symm
    · show ((b'.graph.solveWith .exact p' o).graph.loc (ρ l)).role.decided? = _
      rw [hsame]
      exact hsite
  · rw [← hdec]
    exact congrArg Role.func hsame
  · rw [← hdec]
    exact hmaps.solve_attrs hc hc (wellFormed_of_build hb').graph_full hl

theorem isHeap_of_mem_decisions {r : BatchRun} {c : Config} {p : Program} {batch : Batch}
    {summary? : FuncId → Option Summary} (hr : BatchRun.analyze c p batch summary? = .ok r)
    {d : Decision} (hd : d ∈ r.output.decisions) : d.isHeap = d.attrs.escapes := by
  obtain ⟨b, -, rfl⟩ := BatchRun.analyze_eq_ok hr
  obtain ⟨l, -, -, hdec⟩ := mem_decisions.1 hd
  rw [← hdec, Location.isHeap_decision]
  rfl

end EscapeFlow
