import EscapeFlow.Proofs.Decisions
import EscapeFlow.Proofs.PreciseCalls
import EscapeFlow.Proofs.WellFormed

/-!
# Arguments of functions without body

Nothing is known of a function without body that is not marked otherwise, so an address that is
passed to it has to be taken to be kept.  It is, wherever the call stands and whether it runs at
once, later or on its own: the variable ends up on the heap,

    (analyze c p m).result = .ok report → … → report.isHeap (.var v) = true
                                                                    (heap_of_external_argument)

unless the call is precise, lies in the same batch as the function, does not run on its own, and the
function has a parameter for the argument.  Then the address goes to the location of the parameter
and ends there (`stack_of_precise_external_argument`): the summary says that the parameter leaks,
but a call inside the batch does not look at it.

The way there: summaries say so (`Runs.exists_analyze_of_summaries`, `toHeap_of_summarize`), the
address flows to the heap in the graph (`AddressLeaks.flowPath`), what has a flow path of negative
length into what escapes does so too once the graph is solved (`Graph.escapes_solve_of_flowPath`),
and the decision for a variable is that of its batch (`Runs.decision?_var`).
-/

namespace EscapeFlow

open BatchGraph Analysis

/-! ## From the graph to the solution -/

theorem isSinkId_eq_false {l : LocId} (hl : 3 ≤ l) : isSinkId l = false :=
  decide_eq_false (Nat.not_lt.2 hl)

/-- An address that gets to a location which escapes makes its own location escape. -/
theorem Graph.escapes_solve_of_flowPath (a : Adder) (p : Program) (o : SolveOptions) {g : Graph}
    (hg : g.Full) {r l : LocId} {n : Int} (hr : (g.loc r).escapes = true) (h3 : 3 ≤ l)
    (hl : l < g.size) (hpath : FlowPath g Set.univ r l n) (hn : n < 0) :
    ((g.solveWith a p o).graph.loc l).escapes = true := by
  obtain ⟨m, hf, hgrows, -, ⟨hd, hend⟩ | hend⟩ := solve_cases a p o hg
  · rw [hend]
    show ((g.withMarks m).loc l).attrs.escapes = true
    rw [g.withMarks_attrs hf]
    have hroot : (m.attrsOf r).escapes = true := by
      refine hgrows.attrs r .escapes ?_
      rw [g.marks_attrsOf]
      exact hr
    have hle := hd.learned_le (fun r => List.mem_range) hg hl hpath
    refine hle .escapes ?_
    unfold learned learnedByAddress
    rw [if_pos hn, if_pos ((outlives_iff p g _ r l).2 (.inl hroot)), Attrs.has_union,
      Attrs.has_all]
    rfl
  · -- cut short: everything but the sinks escapes
    rw [hend]
    show ((g.withMarks (m.escapeAll g)).loc l).attrs.escapes = true
    rw [g.withMarks_attrs (Marks.escapeAll_fits hf), m.escapeAll_attrsOf g (by rwa [hf.attrs]),
      isSinkId_eq_false h3]
    exact Attrs.le_union_right _ Attrs.all .escapes (Attrs.has_all _)

theorem Graph.escapes_solve_of_escapes (a : Adder) (p : Program) (o : SolveOptions) {g : Graph}
    (hg : g.Full) {l : LocId} (hl : (g.loc l).escapes = true) :
    ((g.solveWith a p o).graph.loc l).escapes = true :=
  (solve_solved a p o hg).1.attrs l .escapes hl

/-- An address that leaks gets to the heap, if its variable does not escape at once. -/
theorem BatchGraph.AddressLeaks.flowPath {b : BatchGraph} {v : VarId} (h : b.AddressLeaks v) :
    ∃ l, b.varLoc? v = some l ∧
      ((b.graph.loc l).escapes = true ∨ FlowPath b.graph Set.univ heapId l (-1)) := by
  obtain ⟨d, hd, l, hl, hfed⟩ := h
  refine ⟨l, hl, ?_⟩
  have hroot : FlowPath b.graph Set.univ heapId heapId 0 := .root
  have hdpath : FlowPath b.graph Set.univ heapId d 0 := by
    rcases hd with rfl | ⟨hneg, -⟩ | ⟨rfl, -⟩ | hedge
    · exact hroot
    · omega
    · exact hroot
    · exact HasEdge.flowPath hedge hroot
  rcases hfed d rfl with ⟨-, hescapes⟩ | ⟨-, hpos⟩ | hedge
  · exact .inl hescapes
  · omega
  · exact .inr (HasEdge.flowPath hedge hdpath)

/-- A variable whose address leaks is on the heap once the graph is solved. -/
theorem BatchGraph.AddressLeaks.escapes {b : BatchGraph} (hb : b.WellFormed) {v : VarId}
    (h : b.AddressLeaks v) (a : Adder) (p : Program) (o : SolveOptions) :
    ∃ l, b.varLoc? v = some l ∧ ((b.graph.solveWith a p o).graph.loc l).escapes = true := by
  obtain ⟨l, hl, hescapes | hpath⟩ := h.flowPath
  · exact ⟨l, hl, Graph.escapes_solve_of_escapes a p o hb.graph_full hescapes⟩
  · obtain ⟨h3, hlt⟩ := hb.holds_of_var hl
    refine ⟨l, hl, Graph.escapes_solve_of_flowPath a p o hb.graph_full ?_ h3 hlt hpath (by omega)⟩
    exact hb.escapes heapId (.inl rfl)

/-! ## Locations of globals -/

/-- Only globals of the program have locations that are marked so. -/
def MarksGlobals (p : Program) (b : BatchGraph) : Prop :=
  ∀ l, (b.graph.loc l).isGlobal = true → ∃ v decl, (b.graph.loc l).owner = .site (.var v) ∧
    p.var? v = some decl ∧ decl.isGlobal = true

section Changes

variable {s : Scene} {lits : SiteId → Prop} {b b' : BatchGraph}

theorem Change.marksGlobals (h : Change s lits b b') (hb : MarksGlobals s.program b) :
    MarksGlobals s.program b' := by
  -- where roles stay, and where a location is added that is no global
  have hroles : (∀ l, (b'.graph.loc l).role = (b.graph.loc l).role) →
      MarksGlobals s.program b' := by
    intro hrole l hl
    rw [show (b'.graph.loc l).isGlobal = _ from congrArg Role.isGlobal (hrole l)] at hl
    rw [show (b'.graph.loc l).owner = _ from congrArg Role.owner (hrole l)]
    exact hb l hl
  have hpush : ∀ {x : Location}, b'.graph = b.graph.push x → (x.isGlobal = true →
      ∃ v decl, x.owner = .site (.var v) ∧ s.program.var? v = some decl ∧
        decl.isGlobal = true) → MarksGlobals s.program b' := by
    intro x hgraph hx l hl
    rw [hgraph, b.graph.push_loc] at hl ⊢
    split at hl
    · next hnew =>
      rw [if_pos hnew]
      exact hx hl
    · next hnew =>
      rw [if_neg hnew]
      exact hb l hl
  cases h with
  | flow hole source => exact hroles fun l => Covers.flow_role l
  | capture captured derefs => exact hroles fun l => Covers.flow_role l
  | temp pl persists => exact hpush rfl nofun
  | site pl new => exact hpush rfl nofun
  | @var v x new isNew =>
    refine hpush rfl fun hx => ?_
    rcases isNew.kind with ⟨hnot, -⟩ | ⟨-, decl, hdecl, hglobal⟩
    · exact absurd (hx.symm.trans hnot) (by decide)
    · exact ⟨v, decl, isNew.owner, hdecl, hglobal⟩
  | mark l role edges attrs => exact hroles fun x => b.graph.update_view Location.role l x role

theorem Changes.marksGlobals (h : Changes s lits b b') (hb : MarksGlobals s.program b) :
    MarksGlobals s.program b' := by
  induction h with
  | refl => exact hb
  | tail _ hstep ih => exact hstep.marksGlobals ih

end Changes

theorem marksGlobals_empty (p : Program) : MarksGlobals p {} :=
  fun l hl => absurd (hl.symm.trans (Graph.sinks_loc l).2.1) (by decide)

/-! ## Summaries of functions without body -/

/-- What a batch says of a function without body that is not marked otherwise: every parameter
leaks to the heap. -/
theorem toHeap_of_summarize {a : Adder} {c : Config} {p : Program} (hp : p.Indexed) {b : Batch}
    {summary? : FuncId → Option Summary} {x : BatchRun}
    (h : BatchRun.analyze c p b summary? a = .ok x) {s : Summary} (hs : s ∈ x.output.summaries)
    {ext : Function} (hext : p.function? s.func = some ext) (hbody : ext.isExternal = true)
    (hescape : ext.noescape = false) : ∀ leaks ∈ s.params, leaks = .toHeap := by
  obtain ⟨built, -, rfl⟩ := BatchRun.analyze_eq_ok h
  obtain ⟨decl, hdecl, rfl⟩ := List.mem_map.1 hs
  obtain ⟨f, -, hf⟩ := List.mem_filterMap.1 hdecl
  -- the function that is summarised stands where its handle says
  have hsame : decl = ext := by
    have hid : p.function? decl.id = some ext := hext
    rw [hp f decl hf, hf] at hid
    exact Option.some.inj hid
  subst hsame
  intro leaks hleaks
  obtain ⟨v, -, rfl⟩ := List.mem_map.1 hleaks
  unfold paramLeaks
  rw [if_pos hbody, hescape]
  rfl

/-- What holds of every summary that a batch makes holds of those it is analysed against. -/
theorem Analysis.Runs.exists_analyze_of_summaries {a : Adder} {c : Config} {p : Program}
    {P : Summary → Prop}
    (hP : ∀ b summary? x, BatchRun.analyze c p b summary? a = .ok x → ∀ s ∈ x.output.summaries, P s)
    {r r' : Report} {ws : List (List Batch)} {runs : List BatchRun} (h : Runs a c p r ws runs r')
    (hnodup : r.summarized.Nodup) (hr : ∀ s ∈ r.summaries.entries, P s) {x : BatchRun}
    (hx : x ∈ runs) :
    ∃ r₀ : Report, BatchRun.analyze c p x.batch r₀.summary? a = .ok x ∧
      ∀ s ∈ r₀.summaries.entries, P s := by
  induction h with
  | done => cases hx
  | @wave r r₁ r' w ws runs rest analyzed merged further ih =>
    obtain ⟨hnodup', rfl⟩ := (Report.foldlM_merge_eq_ok hnodup).1 merged
    rw [← Report.summarized_foldl_absorb] at hnodup'
    rcases List.mem_append.1 hx with hx | hx
    · obtain ⟨b, -, hb⟩ := mem_of_forall₂ analyzed hx
      obtain rfl := BatchRun.batch_of_analyze hb
      exact ⟨r, hb, hr⟩
    · refine ih hnodup' (fun s hs => ?_) hx
      rw [Report.entries_foldl_absorb] at hs
      rcases List.mem_append.1 hs with hs | hs
      · exact hr s hs
      · obtain ⟨out, hout, hs⟩ := List.mem_flatMap.1 hs
        obtain ⟨y, hy, rfl⟩ := List.mem_map.1 hout
        obtain ⟨b, -, hb⟩ := mem_of_forall₂ analyzed hy
        exact hP b _ y hb s hs

/-! ## From the solution to the report -/

theorem Report.decision?_eq_some {r : Report} (hr : InOrder r.decisions) {e : Decision}
    (he : e ∈ r.decisions) : r.decision? e.site = some e := by
  unfold decision?
  cases hfound : r.decisions.find? (·.site = e.site) with
  | none => exact absurd (decide_eq_true rfl) (List.find?_eq_none.1 hfound e he)
  | some e' =>
    have hsite := List.find?_some hfound
    have hmem := List.mem_of_find?_eq_some hfound
    rw [List.inj_on_of_nodup_map hr.nodup hmem he (of_decide_eq_true hsite)]

/-- The decision that a batch makes for a variable is the one in the report. -/
theorem Analysis.Runs.decision?_var {a : Adder} {c : Config} {p : Program} (hp : p.Owned)
    {ws : List (List Batch)} {runs : List BatchRun} {r : Report} (h : Runs a c p {} ws runs r)
    {x : BatchRun} (hx : x ∈ runs) {e : Decision} (he : e ∈ x.output.decisions) {v : VarId}
    (hv : e.site = .var v) : (finish p r).decision? (.var v) = some e := by
  have hemitted : e ∈ emitted p runs :=
    List.mem_append_left _ (List.mem_flatMap.2 ⟨x, hx, he⟩)
  rw [← hv]
  refine Report.decision?_eq_some ?_ ?_
  · rw [h.decisions_eq]
    exact Report.inOrder_insertAll .nil
  · rw [h.decisions_eq]
    refine Report.mem_insertAll_of_unique hemitted fun e' he' hsite => ?_
    exact h.emitted_var_unique hp hemitted he' hv (hsite.trans hv)

/-- A batch puts a variable on the heap if its address leaks in the graph. -/
theorem BatchRun.heap_of_addressLeaks (a : Adder) {c : Config} {p : Program} {b : Batch}
    {built : BatchGraph} (hbuilt : built.WellFormed) (hglobals : MarksGlobals p built) {v : VarId}
    {var : Variable} (hvar : p.var? v = some var) (hlocal : var.isGlobal = false)
    (h : built.AddressLeaks v) :
    ∃ e ∈ (ofBuilt a c p b built).output.decisions, e.site = .var v ∧ e.isHeap = true := by
  let o : SolveOptions := ⟨c.maxWalkRounds, 2 ≤ c.diagnosticLevel⟩
  obtain ⟨l, hl, hescapes⟩ := h.escapes hbuilt a p o
  have howner := (hbuilt.var_iff v l).1 hl
  have hnot : (built.graph.loc l).isGlobal = false := by
    by_contra hglobal
    obtain ⟨w, decl, hw, hdecl, hg⟩ := hglobals l (Bool.eq_true_of_not_eq_false hglobal)
    rw [howner] at hw
    cases hw
    rw [hvar] at hdecl
    cases hdecl
    rw [hlocal] at hg
    cases hg
  have hrole := built.graph.solve_role a p o l
  refine ⟨((built.graph.solveWith a p o).graph.loc l).decision (.var v), ?_, rfl, ?_⟩
  · refine mem_decisions.2 ⟨l, ?_, ?_, rfl⟩
    · exact (hbuilt.holds_of_var hl).2.trans_eq (built.graph.solve_size a p o).symm
    · show ((built.graph.solveWith a p o).graph.loc l).role.decided? = _
      rw [hrole]
      show (if (built.graph.loc l).isGlobal then _ else (built.graph.loc l).owner.site?) = _
      rw [hnot, howner]
      rfl
  · rw [Location.isHeap_decision]
    exact hescapes

/-! ## Calls of functions without body -/

/-- The arguments of a function without body leak, precise calls of a function of the batch that
has a parameter for the argument apart. -/
theorem leaks_of_external {p : Program} {fs : List FuncId} {summary? : FuncId → Option Summary}
    {o : BuildOptions} {ds : List Function} {callee : Option FuncId} {g : FuncId}
    (hg : callee = some g) {ext : Function} (hext : p.function? g = some ext) {i : Nat}
    (hprecise : o.precise = true → g ∈ fs → ext.params[i]? = none)
    (hsummary : ∀ s, summary? g = some s → ∀ leaks ∈ s.params, leaks = .toHeap) :
    (scene p fs summary? o ds).Leaks callee i := by
  intro g' hg'
  rw [hg] at hg'
  cases hg'
  split
  · next hmem =>
    intro hp decl hdecl
    rw [show p.function? g = some decl from hdecl] at hext
    cases hext
    exact hprecise hp (List.contains_iff_mem.1 hmem)
  · intro leaks hleaks
    obtain ⟨s, hs, hi⟩ := Option.bind_eq_some_iff.1 hleaks
    exact hsummary s hs leaks (List.mem_of_getElem? hi)

/-- In a body of the batch, one of the given calls names `g` and has the address of `v`, or of a
part of it, as argument `i`. -/
def Batch.PassesAddress (p : Program) (b : Batch) (calls : List Stmt → List Expr) (g : FuncId)
    (i : Nat) (v : VarId) : Prop :=
  ∃ f ∈ b.functions, ∃ decl, p.function? f = some decl ∧ ∃ callee args a,
    .call callee args ∈ calls decl.stmts ∧ callee.staticCallee = some g ∧
      args[i]? = some a ∧ a.addressedVar = some v

/-- A batch puts a variable on the heap whose address it passes to a function that, as far as it can
see, leaks all its arguments, or passes in a call that runs on its own. -/
theorem BatchRun.heap_of_passesAddress {a : Adder} {c : Config} {p : Program} {b : Batch}
    {summary? : FuncId → Option Summary} {x : BatchRun} (h : analyze c p b summary? a = .ok x)
    {g : FuncId} {i : Nat} {v : VarId} (hcall : b.PassesAddress p bodyExprs g i v) {ext : Function}
    (hext : p.function? g = some ext)
    (hsummary : ∀ s, summary? g = some s → ∀ leaks ∈ s.params, leaks = .toHeap) {var : Variable}
    (hvar : p.var? v = some var) (hlocal : var.isGlobal = false)
    (hprecise : c.preciseRecursiveCalls = true → g ∈ b.functions →
      ext.params[i]? = none ∨ b.PassesAddress p spawnedExprs g i v) :
    ∃ e ∈ x.output.decisions, e.site = .var v ∧ e.isHeap = true := by
  obtain ⟨built, hbuild, rfl⟩ := analyze_eq_ok h
  obtain ⟨ds, hdecls, hds⟩ := exists_declarations hbuild
  obtain ⟨hchanges, hsees⟩ := build_sees hbuild hdecls
  have haddress : built.AddressLeaks v := by
    by_cases hspawned : b.PassesAddress p spawnedExprs g i v
    · obtain ⟨f, hf, decl, hdecl, callee, args, a, hmem, -, ha, hv⟩ := hspawned
      exact (hsees decl (mem_of_forall₂_left hds hf hdecl)).2 callee args hmem a
        (List.mem_of_getElem? ha) v hv ⟨var, hvar, hlocal⟩
    · obtain ⟨f, hf, decl, hdecl, callee, args, a, hmem, hg, ha, hv⟩ := hcall
      refine (hsees decl (mem_of_forall₂_left hds hf hdecl)).1 _ hmem i a v ha hv
        ⟨var, hvar, hlocal⟩ (leaks_of_external hg hext (fun hp hmem => ?_) hsummary)
      exact (hprecise hp hmem).resolve_right hspawned
  exact heap_of_addressLeaks _ (hchanges.wellFormed .empty)
    (hchanges.marksGlobals (marksGlobals_empty p)) hvar hlocal haddress

/-- A variable is on the heap if its address is passed to a function without body that is not
marked `noescape`; unless calls inside the batch are precise, the function is one of the batch and
has a parameter for the argument, and no call that passes the address runs on its own. -/
theorem heap_of_external_argument {d : Draft} {p : Program} (hd : d.Made) (hp : d.build = .ok p)
    {m : Machine} {c : Config} {report : Report} (hreport : (analyze c p m).result = .ok report)
    {b : Batch} (hb : b ∈ (Plan.ofProgram p).batches) {g : FuncId} {i : Nat} {v : VarId}
    (hcall : b.PassesAddress p bodyExprs g i v) {ext : Function}
    (hext : p.function? g = some ext) (hbody : ext.isExternal = true)
    (hescape : ext.noescape = false) {var : Variable} (hvar : p.var? v = some var)
    (hlocal : var.isGlobal = false)
    (hprecise : c.preciseRecursiveCalls = true → g ∈ b.functions →
      ext.params[i]? = none ∨ b.PassesAddress p spawnedExprs g i v) :
    report.isHeap (.var v) = true := by
  have howned := Draft.owned_of_build hd hp
  obtain ⟨runs, r, hruns, rfl⟩ := runs_of_analyze hreport
  obtain ⟨x, hx, rfl⟩ : ∃ x ∈ runs, x.batch = b := by
    rw [← Plan.mem_flatten_waves, ← hruns.map_batch] at hb
    exact List.mem_map.1 hb
  -- the batch was analysed against summaries in which the parameters of `ext` leak
  obtain ⟨r₀, hanalyze, hsummaries⟩ := hruns.exists_analyze_of_summaries
    (P := fun s => s.func = g → ∀ leaks ∈ s.params, leaks = .toHeap)
    (fun b summary? y hy s hs hsg =>
      toHeap_of_summarize howned.functions hy hs (hsg ▸ hext) hbody hescape) .nil nofun hx
  have hsummary : ∀ s, r₀.summary? g = some s → ∀ leaks ∈ s.params, leaks = .toHeap := by
    intro s hs
    have hfound := List.find?_some hs
    exact hsummaries s (List.mem_of_find?_eq_some hs) (of_decide_eq_true hfound)
  obtain ⟨e, he, hsite, hheap⟩ :=
    BatchRun.heap_of_passesAddress hanalyze hcall hext hsummary hvar hlocal hprecise
  unfold Report.isHeap
  rw [hruns.decision?_var howned hx he hsite]
  exact hheap

/-- A function passes the address of its variable to a function without body, which is declared
inside the first or beside it, in a call that runs at once or on its own. -/
def callsExternal (inside spawned : Bool) : Program where
  functions := #[
    { id := ⟨0⟩
      name := "f"
      locals := [⟨1⟩]
      body :=
        let call : Expr := .call (.funcRef ⟨1⟩) [.addrOf (.ident ⟨1⟩)]
        some [.decl ⟨1⟩ none, if spawned then .go call else .expr call] },
    { id := ⟨1⟩
      name := "ext"
      params := [⟨0⟩]
      enclosing := if inside then some ⟨0⟩ else none }]
  vars := #[⟨⟨0⟩, "p", .param, some ⟨1⟩⟩, ⟨⟨1⟩, "x", .localVar, some ⟨0⟩⟩]

theorem callsExternal_made (inside spawned : Bool) :
    (⟨callsExternal inside spawned, 0⟩ : Draft).Made ∧
      (⟨callsExternal inside spawned, 0⟩ : Draft).build = .ok (callsExternal inside spawned) := by
  have hf := Draft.Made.empty.function "f"
  refine ⟨?_, by cases inside <;> cases spawned <;> cbv⟩
  cases inside with
  | true =>
    have htables := ((hf.closure ⟨0⟩ "ext").param ⟨1⟩ "p").localVar ⟨0⟩ "x"
    exact .setBody (f := ⟨0⟩) htables rfl
  | false =>
    have htables := ((hf.function "ext").param ⟨1⟩ "p").localVar ⟨0⟩ "x"
    exact .setBody (f := ⟨0⟩) htables rfl

theorem callsExternal_passes (inside spawned : Bool) :
    ∃ b ∈ (Plan.ofProgram (callsExternal inside spawned)).batches,
      b.PassesAddress (callsExternal inside spawned) bodyExprs ⟨1⟩ 0 ⟨1⟩ ∧
      (spawned = true →
        b.PassesAddress (callsExternal inside spawned) spawnedExprs ⟨1⟩ 0 ⟨1⟩) ∧
      (⟨1⟩ ∈ b.functions ↔ inside = true) := by
  have hpasses : ∀ b : Batch, ⟨0⟩ ∈ b.functions →
      b.PassesAddress (callsExternal inside spawned) bodyExprs ⟨1⟩ 0 ⟨1⟩ ∧
      (spawned = true →
        b.PassesAddress (callsExternal inside spawned) spawnedExprs ⟨1⟩ 0 ⟨1⟩) := by
    intro b hb
    cases spawned with
    | true =>
      exact ⟨⟨⟨0⟩, hb, _, rfl, _, _, _, .head _, rfl, rfl, rfl⟩,
        fun _ => ⟨⟨0⟩, hb, _, rfl, _, _, _, .head _, rfl, rfl, rfl⟩⟩
    | false => exact ⟨⟨⟨0⟩, hb, _, rfl, _, _, _, .head _, rfl, rfl, rfl⟩, nofun⟩
  cases inside with
  | true =>
    have hbatches : (Plan.ofProgram (callsExternal true spawned)).batches =
        [⟨0, [⟨0⟩], [⟨0⟩, ⟨1⟩], true, 0⟩] := by cases spawned <;> cbv
    rw [hbatches]
    obtain ⟨hbody, hspawned⟩ := hpasses ⟨0, [⟨0⟩], [⟨0⟩, ⟨1⟩], true, 0⟩ (.head _)
    exact ⟨_, .head _, hbody, hspawned, by decide⟩
  | false =>
    have hbatches : (Plan.ofProgram (callsExternal false spawned)).batches =
        [⟨0, [⟨1⟩], [⟨1⟩], false, 0⟩, ⟨1, [⟨0⟩], [⟨0⟩], false, 1⟩] := by cases spawned <;> cbv
    rw [hbatches]
    obtain ⟨hbody, hspawned⟩ := hpasses ⟨1, [⟨0⟩], [⟨0⟩], false, 1⟩ (.head _)
    exact ⟨_, .tail _ (.head _), hbody, hspawned, by decide⟩

theorem heap_of_external_argument_beside :
    (∃ report, (analyze (Config.ofPreset .thorough) (callsExternal false false)).result =
      .ok report ∧ report.isHeap (.var ⟨1⟩) = true) ∧
    ∃ report, (analyze (Config.ofPreset .thorough) (callsExternal true true)).result =
      .ok report ∧ report.isHeap (.var ⟨1⟩) = true := by
  have hreport : ∀ inside spawned,
      (analyze (Config.ofPreset .thorough) (callsExternal inside spawned)).result.map
        (fun _ => ()) = .ok () := by
    intro inside spawned
    cases inside <;> cases spawned <;> cbv
  constructor
  · obtain ⟨report, hreport, -⟩ := exists_of_map_eq_ok (hreport false false)
    obtain ⟨hd, hp⟩ := callsExternal_made false false
    obtain ⟨b, hb, hcall, -, hnot⟩ := callsExternal_passes false false
    refine ⟨report, hreport, ?_⟩
    exact heap_of_external_argument hd hp hreport hb hcall rfl rfl rfl rfl rfl fun _ hmem =>
      absurd (hnot.1 hmem) (by decide)
  · obtain ⟨report, hreport, -⟩ := exists_of_map_eq_ok (hreport true true)
    obtain ⟨hd, hp⟩ := callsExternal_made true true
    obtain ⟨b, hb, hcall, hspawned, -⟩ := callsExternal_passes true true
    refine ⟨report, hreport, ?_⟩
    exact heap_of_external_argument hd hp hreport hb hcall rfl rfl rfl rfl rfl fun _ _ =>
      .inr (hspawned rfl)

/-- A variable whose address is passed to a function without body stays on the stack, though the
summary of the function says that the argument leaks. -/
theorem stack_of_precise_external_argument :
    ∃ (d : Draft) (p : Program) (ext : Function) (report : Report), d.Made ∧ d.build = .ok p ∧
      p.function? ⟨1⟩ = some ext ∧ ext.isExternal = true ∧ ext.noescape = false ∧
      (∃ b ∈ (Plan.ofProgram p).batches, b.PassesAddress p bodyExprs ⟨1⟩ 0 ⟨1⟩) ∧
      (Config.ofPreset .thorough).validate = .ok () ∧
      (analyze (Config.ofPreset .thorough) p).result = .ok report ∧
      report.summary? ⟨1⟩ = some ⟨⟨1⟩, [.toHeap]⟩ ∧ report.isHeap (.var ⟨1⟩) = false := by
  have hreport : (analyze (Config.ofPreset .thorough) (callsExternal true false)).result.map
      (fun report => (report.summary? ⟨1⟩, report.isHeap (.var ⟨1⟩))) =
        .ok (some ⟨⟨1⟩, [.toHeap]⟩, false) := by cbv
  obtain ⟨report, hreport, heq⟩ := exists_of_map_eq_ok hreport
  obtain ⟨hsummary, hheap⟩ := Prod.mk.inj heq
  obtain ⟨hd, hp⟩ := callsExternal_made true false
  obtain ⟨b, hb, hcall, -, -⟩ := callsExternal_passes true false
  exact ⟨_, _, _, report, hd, hp, rfl, rfl, rfl, ⟨b, hb, hcall⟩, rfl, hreport, hsummary, hheap⟩

end EscapeFlow
