import EscapeFlow.Proofs.WellFormed

/-!
# What closures capture by value

A captured variable flows into its closure by value exactly if, in the bodies of the batch, it is
not assigned to as a whole and neither its address nor that of a part of it is taken; otherwise its
address flows there:

    build p fs summary? o = .ok b → … → ∃ l lv, b.siteLoc? i = some l ∧ b.varLoc? v = some lv ∧
      (HasEdge b.graph l lv 0 ↔ ¬ p.Alters fs v) ∧ (p.Alters fs v → Fed b.graph l lv (-1))
                                                                         (captured_by_value_iff)

Nothing but captures flows into the location of a closure (`Changes.capturesOnly`), so the edge
tells how the variable was captured.

An assignment to a field or an element of the variable does not count, although it stores into the
same location as one to the whole (`stored_field_captured_by_value`).
-/

namespace EscapeFlow

open BatchGraph

/-! ## Edges into closures -/

/-- What flows into an allocation of `lits` is a variable, in the way in which it is captured. -/
def CapturesOnly (s : Scene) (lits : SiteId → Prop) (b : BatchGraph) : Prop :=
  ∀ i l, lits i → b.siteLoc? i = some l → ∀ src w, HasEdge b.graph l src w →
    ∃ v, b.varLoc? v = some src ∧ w = if s.changes v then -1 else 0

section Changes

variable {s : Scene} {lits : SiteId → Prop} {b b' : BatchGraph}

theorem Change.capturesOnly (h : Change s lits b b') (hb : b.WellFormed)
    (hc : CapturesOnly s lits b) : CapturesOnly s lits b' := by
  intro i l hi hl src w hedge
  have hgrows := h.grows
  -- an edge that was there before, into a location that was
  have hold : b.siteLoc? i = some l → HasEdge b.graph l src w →
      ∃ v, b'.varLoc? v = some src ∧ w = if s.changes v then -1 else 0 := by
    intro hl hedge
    obtain ⟨v, hv, hw⟩ := hc i l hi hl src w hedge
    exact ⟨v, hgrows.vars v src hv, hw⟩
  cases h with
  | @flow k src' hole source =>
    rw [siteLoc?, flow_sites] at hl
    rcases of_hasEdge_flow hedge with hedge | ⟨hdst, -⟩
    · exact hold hl hedge
    · exact absurd hi (hole.apart l hdst i ((hb.site_iff i l).1 hl))
  | @capture k src' v captured derefs =>
    rw [siteLoc?, flow_sites] at hl
    rcases of_hasEdge_flow hedge with hedge | ⟨-, -, rfl, rfl, -⟩
    · exact hold hl hedge
    · exact ⟨v, hgrows.vars v src captured, derefs⟩
  | temp pl persists => exact hold hl ((b.graph.hasEdge_push rfl l src w).1 hedge)
  | @site pl j new =>
    have hedge := (b.graph.hasEdge_push rfl l src w).1 hedge
    rcases (siteLoc?_pushSite new pl i l).1 hl with hl | ⟨-, rfl⟩
    · exact hold hl hedge
    · exact absurd hedge.lt_size (Nat.lt_irrefl _)
  | var new isNew => exact hold hl ((b.graph.hasEdge_push isNew.edges l src w).1 hedge)
  | mark l' role edges attrs =>
    refine hold hl ?_
    obtain ⟨e, he, hsrc⟩ := hedge
    refine ⟨e, ?_, hsrc⟩
    rwa [← b.graph.update_view Location.edges l' l edges]

theorem Changes.capturesOnly (h : Changes s lits b b') (hb : b.WellFormed)
    (hc : CapturesOnly s lits b) : CapturesOnly s lits b' := by
  induction h with
  | refl => exact hc
  | tail hsteps hstep ih => exact hstep.capturesOnly (Changes.wellFormed hsteps hb) ih

end Changes

/-! ## Closure literals -/

/-- If a partial map takes no value twice on a list, members with one value are one. -/
theorem eq_of_nodup_filterMap {α β : Type} {f : α → Option β} {xs : List α}
    (h : (xs.filterMap f).Nodup) {x y : α} {b : β} (hx : x ∈ xs) (hy : y ∈ xs)
    (hfx : f x = some b) (hfy : f y = some b) : x = y := by
  by_contra hne
  have hpair := List.pairwise_filterMap.1 (List.nodup_iff_pairwise_ne.1 h)
  have hsymm : Std.Symm fun a a' => ∀ b, f a = some b → ∀ b', f a' = some b' → b ≠ b' :=
    ⟨fun a a' hab b hb b' hb' heq => hab b' hb' b hb heq.symm⟩
  exact hpair.forall hx hy hne b hfx b hfy rfl

/-- An allocation that a closure literal makes is made by nothing else in the bodies. -/
theorem closure_of_allocSite {p : Program} {fs : List FuncId}
    {summary? : FuncId → Option Summary} {o : BuildOptions} {b : BatchGraph}
    (h : build p fs summary? o = .ok b) {ds : List Function}
    (hds : List.Forall₂ (fun f d => p.function? f = some d) fs ds) {i : SiteId} {g : FuncId}
    {e : Expr} (hlit : .closure i g ∈ ds.flatMap fun d => bodyExprs d.stmts)
    (he : e ∈ ds.flatMap fun d => bodyExprs d.stmts) (hi : e.allocSite? = some i) :
    e = .closure i g := by
  obtain ⟨ds', is, hds', -, -, hnodup, hcount⟩ := build_sites h
  have hsame : ds' = ds := List.right_unique_forall₂'
    (fun _ _ _ hd hd' => Option.some.inj (hd.symm.trans hd')) hds' hds
  subst hsame
  have hsites : ((ds'.flatMap fun d => bodyExprs d.stmts).filterMap Expr.allocSite?).Nodup :=
    (Multiset.coe_eq_coe.1 hcount).nodup hnodup
  exact eq_of_nodup_filterMap hsites he hlit hi rfl

/-! ## How a variable is captured -/

/-- In a body of `fs`, the variable is assigned to as a whole, or the address of it or of a part of
it is taken. -/
def Program.Alters (p : Program) (fs : List FuncId) (v : VarId) : Prop :=
  ∃ f ∈ fs, ∃ d, p.function? f = some d ∧
    ((∃ lhs rhs, Stmt.assign lhs rhs ∈ bodyStmts d.stmts ∧ Expr.ident v ∈ lhs) ∨
      ∃ e, Expr.addrOf e ∈ bodyExprs d.stmts ∧ e.storageVar = some v)

theorem Stmt.mem_assignedVars {x : Stmt} {v : VarId} :
    v ∈ x.assignedVars ↔ ∃ lhs rhs, x = .assign lhs rhs ∧ .ident v ∈ lhs := by
  unfold assignedVars
  split
  · next lhs rhs =>
    rw [List.mem_filterMap]
    constructor
    · rintro ⟨e, he, hv⟩
      split at hv
      · cases hv
        exact ⟨lhs, rhs, rfl, he⟩
      · cases hv
    · rintro ⟨lhs', rhs', heq, hv⟩
      cases heq
      exact ⟨.ident v, hv, rfl⟩
  · next hx =>
    constructor
    · nofun
    · rintro ⟨lhs, rhs, rfl, -⟩
      exact absurd rfl (hx lhs rhs)

theorem Expr.addressedVar_eq_some {e : Expr} {v : VarId} :
    e.addressedVar = some v ↔ ∃ x, e = .addrOf x ∧ x.storageVar = some v := by
  unfold addressedVar
  split
  · next x => exact ⟨fun h => ⟨x, rfl, h⟩, fun ⟨y, heq, h⟩ => by cases heq; exact h⟩
  · next hx => exact ⟨nofun, fun ⟨y, heq, _⟩ => absurd heq (hx y)⟩

theorem scene_changes_iff {p : Program} {fs : List FuncId} {ds : List Function}
    (hds : List.Forall₂ (fun f d => p.function? f = some d) fs ds)
    (summary? : FuncId → Option Summary) (o : BuildOptions) (v : VarId) :
    (scene p fs summary? o ds).changes v = true ↔ p.Alters fs v := by
  have hassigned : v ∈ (scene p fs summary? o ds).reassigned ↔ ∃ d ∈ ds, ∃ lhs rhs,
      Stmt.assign lhs rhs ∈ bodyStmts d.stmts ∧ Expr.ident v ∈ lhs := by
    simp only [scene, List.mem_flatMap, Stmt.mem_assignedVars]
    constructor
    · rintro ⟨d, hd, x, hx, lhs, rhs, rfl, hv⟩
      exact ⟨d, hd, lhs, rhs, hx, hv⟩
    · rintro ⟨d, hd, lhs, rhs, hx, hv⟩
      exact ⟨d, hd, _, hx, lhs, rhs, rfl, hv⟩
  have htaken : v ∈ (scene p fs summary? o ds).addrTaken ↔ ∃ d ∈ ds, ∃ e,
      Expr.addrOf e ∈ bodyExprs d.stmts ∧ e.storageVar = some v := by
    simp only [scene, List.mem_flatMap, List.mem_filterMap, Expr.addressedVar_eq_some]
    constructor
    · rintro ⟨d, hd, _, hx, e, rfl, hv⟩
      exact ⟨d, hd, e, hx, hv⟩
    · rintro ⟨d, hd, e, hx, hv⟩
      exact ⟨d, hd, _, hx, e, rfl, hv⟩
  unfold Scene.changes Program.Alters
  rw [Bool.or_eq_true, List.contains_iff_mem, List.contains_iff_mem, hassigned, htaken]
  constructor
  · rintro (⟨d, hd, hx⟩ | ⟨d, hd, hx⟩)
    · obtain ⟨f, hf, hfd⟩ := mem_of_forall₂ hds hd
      exact ⟨f, hf, d, hfd, .inl hx⟩
    · obtain ⟨f, hf, hfd⟩ := mem_of_forall₂ hds hd
      exact ⟨f, hf, d, hfd, .inr hx⟩
  · rintro ⟨f, hf, d, hfd, hx⟩
    have hd := mem_of_forall₂_left hds hf hfd
    exact hx.imp (fun hx => ⟨d, hd, hx⟩) fun hx => ⟨d, hd, hx⟩

/-- A built graph holds what each closure literal captures, and nothing else flows into it. -/
theorem build_captures {p : Program} {fs : List FuncId} {summary? : FuncId → Option Summary}
    {o : BuildOptions} {b : BatchGraph} (h : build p fs summary? o = .ok b) {ds : List Function}
    (hdecls : declarations p fs = .ok ds)
    (hds : List.Forall₂ (fun f d => p.function? f = some d) fs ds) {i : SiteId} {g : FuncId}
    (hlit : .closure i g ∈ ds.flatMap fun d => bodyExprs d.stmts) :
    CapturesOnly (scene p fs summary? o ds) (· = i) b ∧
      (scene p fs summary? o ds).Seen b (.closure i g) := by
  let W : Watch := ⟨scene p fs summary? o ds, (· = i), False⟩
  have hadmits : ∀ d ∈ ds, ∀ e ∈ bodyExprs d.stmts, W.Admits e := by
    intro d hd e he
    refine ⟨fun j hj hji => ?_, False.elim⟩
    rw [show j = i from hji] at hj ⊢
    exact ⟨g, closure_of_allocSite h hds hlit (List.mem_flatMap.2 ⟨d, hd, he⟩) hj⟩
  have hgives := build_gives (W := W) hdecls rfl hadmits
  rw [h] at hgives
  obtain ⟨hchanges, hsees⟩ := hgives
  obtain ⟨d, hd, he⟩ := List.mem_flatMap.1 hlit
  refine ⟨hchanges.capturesOnly .empty ?_, (hsees d hd).1 _ he⟩
  intro j l _ hl
  cases hl

/-- A variable that a closure captures flows into the closure by value exactly if no body of the
batch assigns to it as a whole or takes the address of it or of a part of it.  Otherwise its
address does. -/
theorem captured_by_value_iff {p : Program} {fs : List FuncId}
    {summary? : FuncId → Option Summary} {o : BuildOptions} {b : BatchGraph}
    (h : build p fs summary? o = .ok b) {f : FuncId} (hf : f ∈ fs) {decl : Function}
    (hdecl : p.function? f = some decl) {i : SiteId} {g : FuncId}
    (hlit : .closure i g ∈ bodyExprs decl.stmts) {closure : Function}
    (hg : p.function? g = some closure) {v : VarId} (hv : v ∈ closure.captures) {var : Variable}
    (hvar : p.var? v = some var) (hlocal : var.isGlobal = false) :
    ∃ l lv, b.siteLoc? i = some l ∧ b.varLoc? v = some lv ∧
      (HasEdge b.graph l lv 0 ↔ ¬ p.Alters fs v) ∧
      (p.Alters fs v → Fed b.graph l lv (-1)) := by
  obtain ⟨ds, hdecls, hds⟩ := exists_declarations h
  have hd := mem_of_forall₂_left hds hf hdecl
  have hb := wellFormed_of_build h
  obtain ⟨honly, hseen⟩ := build_captures h hdecls hds (List.mem_flatMap.2 ⟨decl, hd, hlit⟩)
  obtain ⟨l, hl, hgets⟩ := hseen closure hg
  obtain ⟨lv, hlv, hfed⟩ := hgets v hv ⟨var, hvar, hlocal⟩
  have hfed := hfed l rfl
  rw [← scene_changes_iff hds summary? o v]
  refine ⟨l, lv, hl, hlv, ⟨fun hedge hchanges => ?_, fun hkeeps => ?_⟩, fun hchanges => ?_⟩
  · obtain ⟨w, hw, hweight⟩ := honly i l rfl hl lv 0 hedge
    rw [hb.var_inj hw hlv, if_pos hchanges] at hweight
    cases hweight
  · rw [if_neg hkeeps] at hfed
    rcases hfed with ⟨hneg, -⟩ | ⟨rfl, -⟩ | hedge
    · cases hneg
    · -- the closure is no variable
      have howner := (hb.site_iff i l).1 hl
      rw [(hb.var_iff v l).1 hlv] at howner
      cases howner
    · exact hedge
  · rwa [if_pos hchanges] at hfed

/-- A function that stores into `target` and keeps a closure over its variable in a global. -/
def storeThenCapture (target : Expr) : Program where
  functions := #[
    { id := ⟨0⟩
      name := "f"
      locals := [⟨1⟩]
      body := some [.decl ⟨1⟩ none, .assign [target] [.int 1],
        .assign [.ident ⟨0⟩] [.closure ⟨0⟩ ⟨1⟩]] },
    { id := ⟨1⟩
      name := "c"
      body := some []
      enclosing := some ⟨0⟩
      captures := [⟨1⟩] }]
  vars := #[⟨⟨0⟩, "g", .globalVar, none⟩, ⟨⟨1⟩, "x", .localVar, some ⟨0⟩⟩]
  sites := #[⟨⟨0⟩, .closure, ⟨0⟩⟩]

theorem captured_by_value_iff_store :
    ∃ b l lv, build (storeThenCapture (.ident ⟨1⟩)) [⟨0⟩, ⟨1⟩] (fun _ => none) {} = .ok b ∧
      b.siteLoc? ⟨0⟩ = some l ∧ b.varLoc? ⟨1⟩ = some lv ∧
      (storeThenCapture (.ident ⟨1⟩)).Alters [⟨0⟩, ⟨1⟩] ⟨1⟩ ∧ ¬ HasEdge b.graph l lv 0 ∧
      Fed b.graph l lv (-1) := by
  have hbuild : (build (storeThenCapture (.ident ⟨1⟩)) [⟨0⟩, ⟨1⟩] (fun _ => none) {}).map
      (fun _ => ()) = .ok () := by cbv
  have hlit : Expr.closure ⟨0⟩ ⟨1⟩ ∈ bodyExprs [.decl ⟨1⟩ none, .assign [.ident ⟨1⟩] [.int 1],
      .assign [.ident ⟨0⟩] [.closure ⟨0⟩ ⟨1⟩]] :=
    .tail _ (.tail _ (.tail _ (.head _)))
  have halters : (storeThenCapture (.ident ⟨1⟩)).Alters [⟨0⟩, ⟨1⟩] ⟨1⟩ :=
    ⟨⟨0⟩, .head _, _, rfl, .inl ⟨_, _, .tail _ (.head _), .head _⟩⟩
  obtain ⟨b, hb, -⟩ := exists_of_map_eq_ok hbuild
  obtain ⟨l, lv, hl, hlv, hiff, hfed⟩ :=
    captured_by_value_iff hb (.head _) rfl hlit rfl (.head _) rfl rfl
  exact ⟨b, l, lv, hb, hl, hlv, halters, fun hedge => hiff.1 hedge halters, hfed halters⟩

/-- A closure that escapes captures a variable by value, although a field of the variable is
assigned to. -/
theorem stored_field_captured_by_value :
    ∃ b l lv f target rhs,
      build (storeThenCapture (.field (.ident ⟨1⟩) "a")) [⟨0⟩, ⟨1⟩] (fun _ => none) {} = .ok b ∧
      b.siteLoc? ⟨0⟩ = some l ∧ b.varLoc? ⟨1⟩ = some lv ∧ (b.graph.loc l).escapes = true ∧
      HasEdge b.graph l lv 0 ∧
      (storeThenCapture (.field (.ident ⟨1⟩) "a")).function? ⟨0⟩ = some f ∧
      Stmt.assign [target] rhs ∈ bodyStmts f.stmts ∧ target.storageVar = some ⟨1⟩ := by
  have hbuild : (build (storeThenCapture (.field (.ident ⟨1⟩) "a")) [⟨0⟩, ⟨1⟩]
      (fun _ => none) {}).map (fun b => (b.siteLoc? ⟨0⟩, b.varLoc? ⟨1⟩,
        (b.graph.loc 5).escapes, (b.graph.loc 5).edges)) =
          .ok (some 5, some 3, true, [⟨3, 0, []⟩]) := by cbv
  obtain ⟨b, hb, heq⟩ := exists_of_map_eq_ok hbuild
  simp only [Prod.mk.injEq] at heq
  obtain ⟨hl, hlv, hescapes, hedges⟩ := heq
  have hedge : HasEdge b.graph 5 3 0 := ⟨⟨3, 0, []⟩, hedges ▸ .head _, rfl, rfl⟩
  exact ⟨b, 5, 3, _, _, _, hb, hl, hlv, hescapes, hedge, rfl, .tail _ (.head _), rfl⟩

end EscapeFlow
