import EscapeFlow.Proofs.PreciseCalls
import EscapeFlow.Proofs.Recasting
import EscapeFlow.Proofs.Statements
import Mathlib

/-!
# Statements added to a body

Whatever is put on the heap stays there when statements are added to a body, as long as these
declare no variable and do not jump.  They may do anything else: what they bring in is an edge, an
attribute or a location more, and at most one more variable is captured by address.

    d ∈ r.output.decisions → d.isHeap → its site is decided heap with more statements
                                                                      (heap_of_added_statement)

That the depth of loops stays the same is where jumps matter, since a label that is jumped back to
counts as a loop around what follows it.
-/

namespace EscapeFlow

open BatchGraph Build

/-! ## One more statement -/

/-- Statements without jumps do not change what is done before them. -/
theorem within_append (xs : List Stmt) {ys : List Stmt} (h : jumps ys = []) :
    Within xs (xs ++ ys) where
  looping := by
    refine loopingLabels_congr ?_
    rw [jumps_append, h, List.append_nil]
  assigned := by
    rw [Stmt.bodyStmts_append, List.flatMap_append]
    exact List.subset_append_left _ _
  addressed := by
    rw [Stmt.bodyExprs_append, List.filterMap_append]
    exact List.subset_append_left _ _
  follows S _ _ looping pl := by
    rw [stmts_append]
    exact (S.follows_stmts looping xs pl).then_right

/-! ## Decisions -/

section Added

variable {xs ys : List Stmt} (hjumps : jumps ys = [])
  (hdecl : (bodyStmts ys).filterMap Stmt.declared? = [])

include hjumps hdecl

theorem declDepths_of_recast {d d' : Function} (h : d.Recast xs (xs ++ ys) d') :
    d'.declDepths = d.declDepths := by
  refine h.stmts (R := fun xs ys => Stmt.declDepthsOfList (loopingLabels ys) 0 ys =
    Stmt.declDepthsOfList (loopingLabels xs) 0 xs) (fun _ => rfl) ?_
  rw [(within_append xs hjumps).looping, declDepths_append]
  have hnone : Stmt.declDepthsOfList (loopingLabels xs) (depthAfterList (loopingLabels xs) 0 xs)
      ys = [] := by
    rw [← List.map_eq_nil_iff (f := Prod.fst), Stmt.declDepthsOfList_fst, hdecl]
  rw [hnone, List.append_nil]

theorem Program.Recasts.declDepths_eq {p p' : Program} (h : p.Recasts xs (xs ++ ys) p')
    (fs : List FuncId) : p'.declDepths fs = p.declDepths fs := by
  unfold Program.declDepths
  induction fs with
  | nil => rfl
  | cons f fs ih =>
    rcases h.function?_cases f with ⟨hn, hn'⟩ | ⟨d, d', hd, hd', hrecast⟩
    · rw [List.filterMap_cons_none hn, List.filterMap_cons_none hn', ih]
    · rw [List.filterMap_cons_some hd, List.filterMap_cons_some hd', List.flatMap_cons,
        List.flatMap_cons, ih, declDepths_of_recast hjumps hdecl hrecast]

end Added

/-- Whatever is put on the heap is put there when a statement is added to a body. -/
theorem heap_of_added_statement (c : Config) (hc : c.maxWalkRounds = 0) (p : Program)
    (batch : Batch) (summary? : FuncId → Option Summary) {f : FuncId} {decl : Function}
    {xs : List Stmt} (hf : p.function? f = some decl) (hbody : decl.body = some xs) {x : Stmt}
    (hx : ∀ y ∈ x.inner, y.isJump = false ∧ y.declared? = none) {r r' : BatchRun}
    (hr : BatchRun.analyze c p batch summary? = .ok r)
    (hr' : BatchRun.analyze c (p.withBody f (xs ++ [x])) batch summary? = .ok r')
    {d : Decision} (hd : d ∈ r.output.decisions) (hheap : d.isHeap = true) :
    (∃ d' ∈ r'.output.decisions, d'.site = d.site) ∧
      ∀ d' ∈ r'.output.decisions, d'.site = d.site → d'.isHeap = true := by
  have hinner : bodyStmts [x] = x.inner := by
    rw [Stmt.bodyStmts_cons]
    exact List.append_nil _
  have hjumps : jumps [x] = [] := by
    unfold jumps
    rw [hinner, List.filter_eq_nil_iff]
    intro y hy
    rw [(hx y hy).1]
    exact Bool.false_ne_true
  have hdecl : (bodyStmts [x]).filterMap Stmt.declared? = [] := by
    rw [hinner, List.filterMap_eq_nil_iff]
    exact fun y hy => (hx y hy).2
  have hp := Program.recasts_withBody hf hbody (xs ++ [x])
  obtain ⟨d', hd', hsite, -, hattrs⟩ := exists_decision hp (within_append xs hjumps) hc
    (fun v => by rw [hp.declDepths_eq hjumps hdecl]) hr hr' hd
  refine ⟨⟨d', hd', hsite⟩, fun d₁ hd₁ hsite₁ => ?_⟩
  rw [List.inj_on_of_nodup_map (BatchRun.nodup_sites hr') hd₁ hd' (hsite₁.trans hsite.symm),
    isHeap_of_mem_decisions hr' hd']
  rw [isHeap_of_mem_decisions hr hd] at hheap
  exact hattrs .escapes hheap

/-- The storage that `storingRecursion` passes on stays on the heap when a loop that stores the
address of the parameter is added. -/
theorem heap_of_added_statement_storing :
    ∃ (r r' : BatchRun) (d : Decision),
      BatchRun.analyze (Config.ofPreset .custom) storingRecursion storingBatch (fun _ => none) =
        .ok r ∧
      BatchRun.analyze (Config.ofPreset .custom)
        (storingRecursion.withBody ⟨0⟩ ([.assign [.ident ⟨0⟩] [.ident ⟨1⟩],
          .ret [.call (.funcRef ⟨0⟩) [.new ⟨0⟩]]] ++
          [.loop none [.assign [.ident ⟨0⟩] [.addrOf (.ident ⟨1⟩)]]])) storingBatch
        (fun _ => none) = .ok r' ∧
      d ∈ r.output.decisions ∧ d.isHeap = true ∧ d.site = .alloc ⟨0⟩ ∧
      ∀ d' ∈ r'.output.decisions, d'.site = .alloc ⟨0⟩ → d'.isHeap = true := by
  have hr : (BatchRun.analyze (Config.ofPreset .custom) storingRecursion storingBatch
      (fun _ => none)).map (·.output.decisions) = .ok [
        ⟨.var ⟨1⟩, some ⟨0⟩, .stack, ⟨14⟩, false⟩, ⟨.var ⟨2⟩, some ⟨0⟩, .stack, ⟨2⟩, false⟩,
        ⟨.alloc ⟨0⟩, some ⟨0⟩, .heap, .all, false⟩] := by cbv
  have hr' : (BatchRun.analyze (Config.ofPreset .custom)
      (storingRecursion.withBody ⟨0⟩ ([.assign [.ident ⟨0⟩] [.ident ⟨1⟩],
        .ret [.call (.funcRef ⟨0⟩) [.new ⟨0⟩]]] ++
        [.loop none [.assign [.ident ⟨0⟩] [.addrOf (.ident ⟨1⟩)]]])) storingBatch
      (fun _ => none)).map (fun _ => ()) = .ok () := by cbv
  obtain ⟨r, hr, hdecisions⟩ := exists_of_map_eq_ok hr
  obtain ⟨r', hr', -⟩ := exists_of_map_eq_ok hr'
  have hd : ⟨.alloc ⟨0⟩, some ⟨0⟩, .heap, .all, false⟩ ∈ r.output.decisions := by
    rw [hdecisions]
    decide
  refine ⟨r, r', _, hr, hr', hd, rfl, rfl, ?_⟩
  refine (heap_of_added_statement _ rfl _ _ _ rfl rfl ?_ hr hr' hd rfl).2
  decide

end EscapeFlow
