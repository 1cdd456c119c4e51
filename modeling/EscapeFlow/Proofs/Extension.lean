import EscapeFlow.Proofs.Batches
import EscapeFlow.Proofs.Coupling
import EscapeFlow.Proofs.DraftTables

/-!
# Programs that are extended

A program is extended by entries at the end of its tables, where new closures lie in new
functions only (`Program.Extends`), and which can be asked to have handles and variables of their
own (`Program.AddsOwn`).  What was there stays out of reach of what is added: old
functions lie in the same functions as before, name the same ones and are numbered as before, so
the search through the call graph goes through all of them first and the plan starts with the
batches that it had:

    ∃ more, (Plan.ofProgram p').batches = (Plan.ofProgram p).batches ++ more ∧
      ∀ b ∈ more, ∀ f ∈ b.functions, p.function? f = none                 (exists_batches_append)
-/

namespace EscapeFlow

open Relation Schedule

/-! ## Tables that grow -/

theorem getElem?_append_or {α : Type} {xs more : Array α} (i : Nat) :
    (xs ++ more)[i]? = xs[i]? ∨ xs[i]? = none := by
  by_cases hi : i < xs.size
  · exact .inl (Array.getElem?_append_left hi)
  · exact .inr (Array.getElem?_eq_none (Nat.le_of_not_lt hi))

/-- An entry that is added stands where there was none. -/
theorem exists_getElem?_append {α : Type} (xs : Array α) {more : Array α} {x : α}
    (hx : x ∈ more.toList) : ∃ i : Nat, (xs ++ more)[i]? = some x ∧ xs[i]? = none := by
  rw [Array.mem_toList_iff, Array.mem_iff_getElem?] at hx
  obtain ⟨i, hi⟩ := hx
  refine ⟨xs.size + i, ?_, Array.getElem?_eq_none (Nat.le_add_right _ _)⟩
  rw [Array.getElem?_append_right (Nat.le_add_right _ _), Nat.add_sub_cancel_left, hi]

namespace Program

/-- The program `p'` has more functions, variables and sites than `p`, at the end of the tables.
New closures lie in new functions, and new bodies hold no allocation of `p`. -/
structure Extends (p p' : Program) : Prop where
  functions : ∃ more, p'.functions = p.functions ++ more
  vars : ∃ more, p'.vars = p.vars ++ more
  sites : ∃ more, p'.sites = p.sites ++ more
  enclosing : ∀ f g, p.function? f = none → p'.enclosing? f = some g → p.function? g = none
  allocs : ∀ f decl, p.function? f = none → p'.function? f = some decl →
    ∀ e ∈ bodyExprs decl.stmts, ∀ i, e.allocSite? = some i → p.site? i = none

/-- What `p'` has more than `p` has handles and variables of its own: new entries stand where their
handles say, and new functions declare no variable of `p`. -/
structure AddsOwn (p p' : Program) : Prop where
  functions : ∀ f decl, p.function? f = none → p'.function? f = some decl → decl.id = f
  vars : ∀ v x, p.var? v = none → p'.var? v = some x → x.id = v
  declared : ∀ f decl, p.function? f = none → p'.function? f = some decl →
    ∀ v ∈ decl.declared, p.var? v = none

/-- Functions lie in, name and make closures of functions of the program only. -/
structure SelfContained (p : Program) : Prop where
  indexed : p.Indexed
  nested : p.WellNested
  named : ∀ f decl, p.function? f = some decl → ∀ g, .funcRef g ∈ bodyExprs decl.stmts ∨
    (∃ i, .closure i g ∈ bodyExprs decl.stmts) → (p.function? g).isSome

theorem SelfContained.acyclic {p : Program} (hp : p.SelfContained) : p.Acyclic := hp.nested.acyclic

/-- The call graph holds top-level functions of the program only. -/
theorem SelfContained.isTopLevel_of_mem_vertices {p : Program} (hp : p.SelfContained) {f : FuncId}
    (hf : f ∈ (CallGraph.ofProgram p).vertices) : p.IsTopLevel f := by
  unfold CallGraph.vertices at hf
  rw [List.mem_eraseDups, List.mem_append, List.mem_flatMap] at hf
  rcases hf with hf | ⟨g, -, hf⟩
  · exact (CallGraph.mem_nodes hp.indexed).1 hf
  · exact ((CallGraph.mem_callees hp.indexed hp.nested.plannable).1 hf).2.1

/-- Functions that are added at the end of the table have new handles. -/
theorem Indexed.function?_eq_none_of_append {p p' : Program} (hp' : p'.Indexed)
    {more : Array Function} (hmore : p'.functions = p.functions ++ more) {decl : Function}
    (hdecl : decl ∈ more.toList) : p.function? decl.id = none := by
  obtain ⟨i, hi, hnone⟩ := exists_getElem?_append p.functions hdecl
  rw [← hmore] at hi
  rw [hp' ⟨i⟩ decl hi]
  exact hnone

end Program

theorem Draft.selfContained_of_build {d : Draft} (hd : d.Made) {p : Program}
    (h : d.build = .ok p) (hn : p.Acyclic) : p.SelfContained where
  indexed := (owned_of_build hd h).functions
  nested := ⟨fun _ _ hfg => (enclosing_of_build hd h hfg).1, hn⟩
  named f decl hf g hg := by
    have hok := (checked_of_build h hf).2
    rcases hg with hg | ⟨i, hg⟩
    · simpa [exprFault?, Option.isSome_iff_ne_none] using hok _ hg
    · simpa [exprFault?, Option.isSome_iff_ne_none] using hok _ hg

namespace Program.Extends

variable {p p' : Program} (h : p.Extends p')

include h

theorem function?_eq {f : FuncId} (hf : (p.function? f).isSome) :
    p'.function? f = p.function? f := by
  obtain ⟨more, heq⟩ := h.functions
  unfold function? at hf ⊢
  rw [heq]
  refine (getElem?_append_or f.index).resolve_right fun hnone => ?_
  rw [hnone] at hf
  cases hf

theorem function?_of_some {f : FuncId} {decl : Function} (hf : p.function? f = some decl) :
    p'.function? f = some decl := by
  rw [h.function?_eq (hf ▸ rfl), hf]

theorem enclosing?_eq {f : FuncId} (hf : (p.function? f).isSome) :
    p'.enclosing? f = p.enclosing? f := by
  unfold enclosing?
  rw [h.function?_eq hf]

/-- Functions stand where their handles say if old and new ones do. -/
theorem indexed (hp : p.Indexed) (hadds : p.AddsOwn p') : p'.Indexed := by
  intro f decl hf
  cases hold : p.function? f with
  | none => exact hadds.functions f decl hold hf
  | some decl' =>
    rw [h.function?_of_some hold] at hf
    cases hf
    exact hp f decl hold

theorem size_le : p.functions.size ≤ p'.functions.size := by
  obtain ⟨more, heq⟩ := h.functions
  rw [heq, Array.size_append]
  exact Nat.le_add_right _ _

/-! ## Functions inside functions -/

/-- Chains of enclosing functions that start with a new function have new functions only. -/
theorem function?_eq_none_of_liesIn {f g : FuncId} (hf : p.function? f = none)
    (hfg : p'.LiesIn f g) : p.function? g = none := by
  induction hfg with
  | refl => exact hf
  | tail _ hstep ih => exact h.enclosing _ _ ih hstep

variable (hp : p.SelfContained)

include hp

theorem climb_eq (n : Nat) {f : FuncId} (hf : (p.function? f).isSome) :
    p'.climb n f = p.climb n f := by
  induction n generalizing f with
  | zero => rfl
  | succ n ih =>
    rw [climb, climb, h.enclosing?_eq hf]
    cases hg : p.enclosing? f with
    | none => rfl
    | some g => exact ih (hp.nested.inTable f g hg)

theorem outermost_eq {f : FuncId} (hf : (p.function? f).isSome) :
    p'.outermost f = p.outermost f := by
  have htop := hp.acyclic.climb_top f
  unfold outermost
  rw [h.climb_eq hp _ hf, climb_of_top htop (Nat.le_succ_of_le h.size_le),
    climb_of_top htop (Nat.le_succ _)]

theorem meets_eq (g : FuncId) (n : Nat) {f : FuncId} (hf : (p.function? f).isSome) :
    p'.meets g n f = p.meets g n f := by
  induction n generalizing f with
  | zero => rfl
  | succ n ih =>
    rw [meets, meets, h.enclosing?_eq hf]
    cases hg : p.enclosing? f with
    | none => rfl
    | some f' => exact congrArg (decide (f' = g) || ·) (ih (hp.nested.inTable f f' hg))

theorem containsClosure_eq (g : FuncId) {f : FuncId} (hf : (p.function? f).isSome) :
    p'.containsClosure g f = p.containsClosure g f := by
  unfold containsClosure
  rw [h.meets_eq hp g _ hf]
  congr 1
  rw [Bool.eq_iff_iff, meets_iff_transGen (Nat.le_succ_of_le h.size_le),
    meets_iff_transGen (Nat.le_succ _)]

omit hp in
theorem containsClosure_eq_false {g f : FuncId} (hg : (p.function? g).isSome)
    (hf : p.function? f = none) : p'.containsClosure g f = false := by
  rw [Bool.eq_false_iff]
  intro hcon
  rw [h.function?_eq_none_of_liesIn hf (containsClosure_iff.1 hcon).2] at hg
  cases hg

variable (hp' : p'.Indexed)

include hp'

theorem nestedClosures_eq {f : FuncId} (hf : (p.function? f).isSome) :
    p'.nestedClosures f = p.nestedClosures f := by
  obtain ⟨more, hmore⟩ := h.functions
  have hnew : more.toList.filter (fun g => g.isClosure && p'.containsClosure f g.id) = [] := by
    rw [List.filter_eq_nil_iff]
    intro g hg hcl
    have hnone := hp'.function?_eq_none_of_append hmore hg
    rw [h.containsClosure_eq_false hf hnone, Bool.and_false] at hcl
    cases hcl
  unfold nestedClosures
  rw [hmore, Array.toList_append, List.filter_append, hnew, List.append_nil]
  congr 1
  refine List.filter_congr fun g hg => ?_
  rw [h.containsClosure_eq hp f (hp.indexed.mem_functions.1 hg ▸ rfl)]

/-- A new function has new closures only. -/
theorem function?_eq_none_of_mem_nestedClosures {f c : FuncId} (hf : p.function? f = none)
    (hc : c ∈ p'.nestedClosures f) : p.function? c = none := by
  by_contra hin
  rw [← ne_eq, ← Option.isSome_iff_ne_none] at hin
  have hcon := (hp'.mem_nestedClosures.1 hc).2
  rw [h.containsClosure_eq hp f hin, containsClosure_iff] at hcon
  have := hp.nested.function?_of_liesIn hcon.2 hin
  rw [hf] at this
  cases this

/-! ## References -/

omit hp' in
theorem referenced?_eq {f : FuncId} {decl : Function} (hf : p.function? f = some decl) {e : Expr}
    (he : e ∈ bodyExprs decl.stmts) : p'.referenced? e = p.referenced? e := by
  unfold referenced?
  split
  · next g =>
    have hg := hp.named f decl hf g (.inl he)
    rw [h.function?_eq hg, h.outermost_eq hp hg]
  · rfl

omit hp' in
/-- An old function that is referred to anywhere is a top-level function. -/
theorem enclosing?_of_referenced? {e : Expr} {f : FuncId} (he : p'.referenced? e = some f)
    (hf : (p.function? f).isSome) : p.enclosing? f = none := by
  unfold referenced? at he
  split at he
  · next g =>
    split at he
    · cases he
      by_cases hg : (p.function? g).isSome
      · rw [h.outermost_eq hp hg]
        exact hp.acyclic.enclosing?_outermost g
      · rw [Option.not_isSome_iff_eq_none] at hg
        have hnew := h.function?_eq_none_of_liesIn hg (liesIn_climb (p'.functions.size + 1) g)
        change (p.function? (p'.climb _ g)).isSome at hf
        rw [hnew] at hf
        cases hf
    · cases he
  · cases he

theorem references_eq {f : FuncId} {decl : Function} (hf : p.function? f = some decl) :
    p'.references decl = p.references decl := by
  have hid := hp.indexed f decl hf
  have hbodies : p'.bodiesOf decl = p.bodiesOf decl := by
    unfold bodiesOf
    rw [hid, h.nestedClosures_eq hp hp' (hf ▸ rfl)]
    congr 1
    refine List.filterMap_congr fun c hc => ?_
    have hcl := (hp.indexed.mem_nestedClosures.1 hc).1
    obtain ⟨g, hg⟩ := Option.isSome_iff_exists.1 hcl
    rw [h.function?_eq (function?_of_enclosing? hg)]
  unfold references
  rw [hbodies]
  congr 1
  refine List.flatMap_congr fun body hbody => ?_
  obtain ⟨c, cdecl, -, hc, rfl⟩ := (CallGraph.mem_bodiesOf hp.indexed hf).1 hbody
  exact List.filterMap_congr fun e he => h.referenced?_eq hp hc he

theorem callees_eq {f : FuncId} (hf : (p.function? f).isSome) :
    (CallGraph.ofProgram p').callees f = (CallGraph.ofProgram p).callees f := by
  obtain ⟨decl, hdecl⟩ := Option.isSome_iff_exists.1 hf
  have hdecl' := h.function?_of_some hdecl
  cases htop : decl.enclosing with
  | none =>
    rw [CallGraph.callees_eq hp' hdecl' htop, CallGraph.callees_eq hp.indexed hdecl htop,
      h.references_eq hp hp' hdecl]
  | some g =>
    -- closures are no nodes
    have hnil : ∀ q : Program, q.Indexed → q.function? f = some decl →
        (CallGraph.ofProgram q).callees f = [] := by
      intro q hq hqf
      refine List.eq_nil_iff_forall_not_mem.2 fun k hk => ?_
      have hnode := ((CallGraph.mem_nodes hq).1 (CallGraph.mem_nodes_of_callees hk)).2
      simp [enclosing?, hqf, htop] at hnode
    rw [hnil p' hp' hdecl', hnil p hp.indexed hdecl]

/-! ## The call graph -/

/-- Whatever is referred to in the longer program is new or was a node before. -/
theorem mem_vertices {f : FuncId} (hf : f ∈ (CallGraph.ofProgram p').vertices)
    (hin : (p.function? f).isSome) : f ∈ (CallGraph.ofProgram p).vertices := by
  refine CallGraph.nodes_subset _ ((CallGraph.mem_nodes hp.indexed).2 ⟨hin, ?_⟩)
  unfold CallGraph.vertices at hf
  rw [List.mem_eraseDups, List.mem_append, List.mem_flatMap] at hf
  rcases hf with hf | ⟨k, -, hf⟩
  · rw [← h.enclosing?_eq hin]
    exact ((CallGraph.mem_nodes hp').1 hf).2
  · obtain ⟨decl, -, -, hf⟩ := CallGraph.exists_references_of_callees hf
    unfold references at hf
    rw [List.mem_eraseDups, List.mem_flatMap] at hf
    obtain ⟨body, -, hf⟩ := hf
    obtain ⟨e, -, hf⟩ := List.mem_filterMap.1 hf
    exact h.enclosing?_of_referenced? hp hf hin

omit hp hp' in
theorem exists_nodes_append :
    ∃ more, (CallGraph.ofProgram p').nodes = (CallGraph.ofProgram p).nodes ++ more := by
  obtain ⟨more, hmore⟩ := h.functions
  refine ⟨(more.toList.filter (!·.isClosure)).map (·.id), ?_⟩
  simp only [CallGraph.ofProgram, topLevel]
  rw [hmore, Array.toList_append, List.filter_append, List.map_append]

omit hp' in
theorem vertices_subset :
    (CallGraph.ofProgram p).vertices ⊆ (CallGraph.ofProgram p').vertices := by
  intro f hf
  have htop := hp.isTopLevel_of_mem_vertices hf
  obtain ⟨more, hmore⟩ := h.exists_nodes_append
  refine CallGraph.nodes_subset _ ?_
  rw [hmore]
  exact List.mem_append_left _ ((CallGraph.mem_nodes hp.indexed).2 htop)

/-- The components of a program stay, and new ones are of new functions. -/
theorem exists_components_append :
    ∃ more, Plan.componentsOf p' = Plan.componentsOf p ++ more ∧
      ∀ C ∈ more, ∀ f ∈ C, p.function? f = none := by
  obtain ⟨new, hnew⟩ := h.exists_nodes_append
  have hin : ∀ f ∈ (CallGraph.ofProgram p).vertices, (p.function? f).isSome :=
    fun f hf => (hp.isTopLevel_of_mem_vertices hf).1
  have hall : ∀ f ∈ (CallGraph.ofProgram p).vertices,
      ∃ g ∈ (CallGraph.ofProgram p).nodes, CanReach (CallGraph.ofProgram p).callees g f :=
    fun f hf => ⟨f, (CallGraph.mem_nodes hp.indexed).2 (hp.isTopLevel_of_mem_vertices hf), .refl⟩
  have hnewnodes : new ⊆ (CallGraph.ofProgram p').vertices := fun f hf =>
    CallGraph.nodes_subset _ (hnew ▸ List.mem_append_right _ hf)
  obtain ⟨more, hcomponents, hmore⟩ := components_append (CallGraph.callees_subset p)
    (fun f hf => h.callees_eq hp hp' (hin f hf)) (h.vertices_subset hp)
    (CallGraph.callees_subset p') (CallGraph.nodes_subset _) hnewnodes hall
  refine ⟨more, ?_, ?_⟩
  · unfold Plan.componentsOf
    rw [hnew, hcomponents]
  · intro C hC f hf
    obtain ⟨hf', hout⟩ := hmore C hC f hf
    by_contra hin
    exact hout (h.mem_vertices hp hp' hf' (Option.isSome_iff_ne_none.2 hin))

end Program.Extends

/-! ## The plan -/

namespace Plan

/-- Placing components adds batches to those placed. -/
theorem exists_foldl_place (p : Program) (calls : CallGraph) (cs : List (List FuncId))
    (placed : List Batch) :
    ∃ more, cs.foldl (place p calls) placed = placed ++ more ∧ ∀ b ∈ more, ∃ C ∈ cs,
      ∀ f ∈ b.functions, f ∈ C ∨ ∃ r ∈ C, f ∈ p.nestedClosures r := by
  induction cs generalizing placed with
  | nil => exact ⟨[], by simp, by simp⟩
  | cons C cs ih =>
    obtain ⟨more, heq, hmore⟩ := ih (place p calls placed C)
    refine ⟨batchAfter p calls placed C :: more, ?_, ?_⟩
    · rw [List.foldl_cons, heq]
      exact List.append_assoc _ [_] more
    · intro b hb
      rcases List.mem_cons.1 hb with rfl | hb
      · refine ⟨C, List.mem_cons_self, fun f hf => ?_⟩
        rcases List.mem_append.1 hf with hf | hf
        · exact .inl (List.mem_mergeSort.1 hf)
        · obtain ⟨r, hr, hf⟩ := List.mem_flatMap.1 hf
          exact .inr ⟨r, List.mem_mergeSort.1 hr, hf⟩
      · obtain ⟨D, hD, hb⟩ := hmore b hb
        exact ⟨D, List.mem_cons_of_mem _ hD, hb⟩

theorem isRecursive_congr {calls calls' : CallGraph} {roots : List FuncId}
    (h : ∀ f ∈ roots, calls'.callees f = calls.callees f) :
    isRecursive calls' roots = isRecursive calls roots := by
  match roots with
  | [] | _ :: _ :: _ => rfl
  | [f] =>
    show (calls'.callees f).contains f = (calls.callees f).contains f
    rw [h f List.mem_cons_self]

theorem waveOf_congr {calls calls' : CallGraph} (placed : List Batch) {roots : List FuncId}
    (h : ∀ f ∈ roots, calls'.callees f = calls.callees f) :
    waveOf calls' placed roots = waveOf calls placed roots := by
  unfold waveOf
  rw [List.flatMap_congr h]

end Plan

namespace Program.Extends

variable {p p' : Program} (h : p.Extends p') (hp : p.SelfContained) (hp' : p'.Indexed)

include h hp hp'

theorem foldl_place_eq {cs : List (List FuncId)}
    (hcs : ∀ C ∈ cs, ∀ f ∈ C, (p.function? f).isSome) (placed : List Batch) :
    cs.foldl (Plan.place p' (CallGraph.ofProgram p')) placed =
      cs.foldl (Plan.place p (CallGraph.ofProgram p)) placed := by
  induction cs generalizing placed with
  | nil => rfl
  | cons C cs ih =>
    have hroots : ∀ f ∈ C.mergeSort (fun f g => f.index ≤ g.index), (p.function? f).isSome :=
      fun f hf => hcs C List.mem_cons_self f (List.mem_mergeSort.1 hf)
    have hcallees := fun f hf => h.callees_eq hp hp' (hroots f hf)
    have hplace : Plan.place p' (CallGraph.ofProgram p') placed C =
        Plan.place p (CallGraph.ofProgram p) placed C := by
      unfold Plan.place
      dsimp only
      rw [Plan.isRecursive_congr hcallees, Plan.waveOf_congr placed hcallees,
        List.flatMap_congr fun f hf => h.nestedClosures_eq hp hp' (hroots f hf)]
    rw [List.foldl_cons, List.foldl_cons, hplace]
    exact ih (fun D hD => hcs D (List.mem_cons_of_mem _ hD)) _

/-- The plan of the longer program starts with the batches of the shorter one, and has new
functions in the others. -/
theorem exists_batches_append :
    ∃ more, (Plan.ofProgram p').batches = (Plan.ofProgram p).batches ++ more ∧
      ∀ b ∈ more, ∀ f ∈ b.functions, p.function? f = none := by
  obtain ⟨new, hcomponents, hnew⟩ := h.exists_components_append hp hp'
  have hold : ∀ C ∈ Plan.componentsOf p, ∀ f ∈ C, (p.function? f).isSome := by
    intro C hC f hf
    obtain ⟨g, hg, hp'⟩ := Plan.mem_flatten_componentsOf.1 (List.mem_flatten.2 ⟨C, hC, hf⟩)
    have hmem := mem_of_canReach (CallGraph.callees_subset p) (CallGraph.nodes_subset _) hg hp'
    exact (hp.isTopLevel_of_mem_vertices hmem).1
  obtain ⟨more, heq, hmore⟩ := Plan.exists_foldl_place p' (CallGraph.ofProgram p') new
    (Plan.ofProgram p).batches
  refine ⟨more, ?_, ?_⟩
  · show (Plan.componentsOf p').foldl _ [] = _
    rw [hcomponents, List.foldl_append, h.foldl_place_eq hp hp' hold]
    exact heq
  · intro b hb f hf
    obtain ⟨C, hC, hfunctions⟩ := hmore b hb
    rcases hfunctions f hf with hf | ⟨r, hr, hf⟩
    · exact hnew C hC f hf
    · exact h.function?_eq_none_of_mem_nestedClosures hp hp' (hnew C hC r hr) hf

end Program.Extends

end EscapeFlow
