import EscapeFlow.Proofs.AnalysisRun
import EscapeFlow.Proofs.Batches
import Mathlib

/-!
# One summary for each function, before it is needed

The batches of a plan are the strongly connected components of the references between
top-level functions, each with the closures inside it, so that every function is in one batch
only and an analysis summarises it once (`plan_components`).  Batches refer to earlier waves
only.  When a batch is analysed, the report therefore holds the summary of every function that
is named in its bodies and lies outside:

    reportBefore c p b.wave = .ok r → f ∈ b.functions → g ∉ b.functions → p.Mentions f g →
      ∃ s, r.summary? g = some s ∧ s.Describes p                        (summary_of_mentions)

and an argument of a call goes to the heap for want of a summary only if the function has no
parameter for it (`callees_summarized`).
-/

namespace EscapeFlow

open Relation

/-! ## Calls name their functions -/

/-- With each call the expressions hold what is called. -/
def HoldsCallees (xs : List Expr) : Prop := ∀ e args, .call e args ∈ xs → e ∈ xs

namespace HoldsCallees

variable {x : Expr} {xs ys : List Expr}

theorem nil : HoldsCallees [] := fun _ _ h => nomatch h

theorem append (h : HoldsCallees xs) (h' : HoldsCallees ys) : HoldsCallees (xs ++ ys) := by
  intro e args hmem
  rcases List.mem_append.1 hmem with hmem | hmem
  · exact List.mem_append_left _ (h e args hmem)
  · exact List.mem_append_right _ (h' e args hmem)

theorem cons (hx : x.isCall = false) (h : HoldsCallees xs) : HoldsCallees (x :: xs) := by
  intro e args hmem
  rcases List.mem_cons.1 hmem with rfl | hmem
  · cases hx
  · exact List.mem_cons_of_mem _ (h e args hmem)

end HoldsCallees

theorem Expr.mem_nodes_self (e : Expr) : e ∈ e.nodes := by
  cases e <;> rw [nodes] <;> exact List.mem_cons_self

mutual

theorem Expr.holdsCallees_nodes (e : Expr) : HoldsCallees e.nodes := by
  match e with
  | .ident _ | .literal _ | .funcRef _ | .new _ | .closure _ _ =>
    rw [Expr.nodes]
    exact .cons rfl .nil
  | .addrOf e | .deref e | .field e _ | .ptrField e _ =>
    rw [Expr.nodes]
    exact .cons rfl (Expr.holdsCallees_nodes e)
  | .index _ e e' | .binary e e' =>
    rw [Expr.nodes]
    exact .cons rfl ((Expr.holdsCallees_nodes e).append (Expr.holdsCallees_nodes e'))
  | .call e es =>
    rw [Expr.nodes]
    have hparts := (Expr.holdsCallees_nodes e).append (Expr.holdsCallees_nodesOfList es)
    intro e' args hmem
    refine List.mem_cons_of_mem _ ?_
    rcases List.mem_cons.1 hmem with heq | hmem
    · cases heq
      exact List.mem_append_left _ e.mem_nodes_self
    · exact hparts e' args hmem
  | .composite _ _ es =>
    rw [Expr.nodes]
    exact .cons rfl (Expr.holdsCallees_nodesOfList es)
  | .mapLit _ es =>
    rw [Expr.nodes]
    exact .cons rfl (Expr.holdsCallees_nodesOfEntries es)

theorem Expr.holdsCallees_nodesOfList (es : List Expr) : HoldsCallees (Expr.nodesOfList es) := by
  match es with
  | [] =>
    rw [Expr.nodesOfList]
    exact .nil
  | e :: es =>
    rw [Expr.nodesOfList]
    exact (Expr.holdsCallees_nodes e).append (Expr.holdsCallees_nodesOfList es)

theorem Expr.holdsCallees_nodesOfEntries (es : List (Expr × Expr)) :
    HoldsCallees (Expr.nodesOfEntries es) := by
  match es with
  | [] =>
    rw [Expr.nodesOfEntries]
    exact .nil
  | (k, v) :: es =>
    rw [Expr.nodesOfEntries]
    exact (Expr.holdsCallees_nodes k).append
      ((Expr.holdsCallees_nodes v).append (Expr.holdsCallees_nodesOfEntries es))

end

mutual

theorem Stmt.holdsCallees_parts (x : Stmt) : HoldsCallees x.parts := by
  match x with
  | .ifElse cond t e =>
    rw [Stmt.parts_ifElse]
    exact cond.holdsCallees_nodes.append
      ((Stmt.holdsCallees_bodyExprs t).append (Stmt.holdsCallees_bodyExprs e))
  | .loop cond body =>
    rw [Stmt.parts_loop]
    exact (Expr.holdsCallees_nodesOfList _).append (Stmt.holdsCallees_bodyExprs body)
  | .block body =>
    rw [Stmt.parts_block]
    exact Stmt.holdsCallees_bodyExprs body
  | .decl _ _ | .assign _ _ | .expr _ | .ret _ | .go _ | .defer _ =>
    rw [Stmt.parts_of_nodes (by rw [Stmt.nodes])]
    exact Expr.holdsCallees_nodesOfList _
  | .label _ | .goto _ =>
    unfold Stmt.parts
    rw [Stmt.nodes]
    exact .nil

theorem Stmt.holdsCallees_bodyExprs (body : List Stmt) : HoldsCallees (bodyExprs body) := by
  match body with
  | [] =>
    unfold bodyExprs
    rw [Stmt.nodesOfList]
    exact .nil
  | x :: xs =>
    rw [Stmt.bodyExprs_cons]
    exact (Stmt.holdsCallees_parts x).append (Stmt.holdsCallees_bodyExprs xs)

end

namespace Program

/-- A call in the body of `f` is known to run `g`. -/
def Calls (p : Program) (f g : FuncId) : Prop :=
  ∃ decl, p.function? f = some decl ∧ ∃ x ∈ bodyExprs decl.stmts, x.called? = some g

variable {p : Program}

/-- To call a function by its name is to name it. -/
theorem mentions_of_call {f g : FuncId} {decl : Function} {args : List Expr}
    (hf : p.function? f = some decl) (hg : (p.function? g).isSome)
    (hcall : .call (.funcRef g) args ∈ bodyExprs decl.stmts) : p.Mentions f g :=
  ⟨decl, hf, Stmt.holdsCallees_bodyExprs _ _ _ hcall, hg⟩

/-- A function that is called is named, or the closure is made on the spot. -/
theorem Calls.named_or_made {f g : FuncId} (h : p.Calls f g) :
    ∃ decl, p.function? f = some decl ∧ (.funcRef g ∈ bodyExprs decl.stmts ∨
      ∃ site, .closure site g ∈ bodyExprs decl.stmts) := by
  obtain ⟨decl, hdecl, x, hx, hcalled⟩ := h
  unfold Expr.called? at hcalled
  split at hcalled
  · next callee args =>
    have hcallee := Stmt.holdsCallees_bodyExprs _ _ _ hx
    refine ⟨decl, hdecl, ?_⟩
    unfold Expr.staticCallee at hcalled
    split at hcalled
    · cases hcalled
      exact .inl hcallee
    · cases hcalled
      exact .inr ⟨_, hcallee⟩
    · cases hcalled
  · cases hcalled

end Program

/-! ## Reports when a wave starts -/

theorem Report.exists_summary {r : Report} {f : FuncId} (h : f ∈ r.summarized) :
    ∃ s ∈ r.summaries.entries, s.func = f ∧ r.summary? f = some s := by
  obtain ⟨s, hs⟩ := Option.isSome_iff_exists.1 (SummaryStore.get?_isSome.2 h)
  have hfunc := List.find?_some hs
  exact ⟨s, List.mem_of_find?_eq_some hs, of_decide_eq_true hfunc, hs⟩

/-- A batch is analysed alike against all summaries that agree on the functions it calls. -/
theorem BatchRun.analyze_congr {a : Adder} {c : Config} {p : Program} {b : Batch}
    {summary? other? : FuncId → Option Summary}
    (h : ∀ f ∈ b.functions, ∀ g ∉ b.functions, p.Calls f g → other? g = summary? g) :
    analyze c p b other? a = analyze c p b summary? a := by
  rw [analyze_eq, analyze_eq]
  refine congrArg _ (build_congr p b.functions _ ?_)
  intro f hf decl hdecl x hx g hg houter
  have hnot : g ∉ b.functions := by
    intro hmem
    rw [List.contains_iff_mem.2 hmem] at houter
    cases houter
  exact h f hf g hnot ⟨decl, hdecl, x, hx, hg⟩

namespace Plan

variable {p : Program} (hp : p.Indexed) (hn : p.Plannable)

include hp hn

/-- What a batch names lies in it or in a batch before it, in an earlier wave. -/
theorem batch_of_mentions {b : Batch} (hb : b ∈ (ofProgram p).batches) {f g : FuncId}
    (hf : f ∈ b.functions) (h : p.Mentions f g) :
    g ∈ b.functions ∨ ∃ b' ∈ (ofProgram p).batches,
      g ∈ b'.functions ∧ b'.index < b.index ∧ b'.wave < b.wave := by
  obtain ⟨b', hb', hg⟩ := exists_batch_of_mentions hp hn hb hf h
  have hrefers : b.RefersTo p b' := ⟨f, hf, g, hg, h⟩
  by_cases heq : b' = b
  · exact .inl (heq ▸ hg)
  · exact .inr ⟨b', hb', hg, index_lt_of_refersTo hp hn hb hb' hrefers heq,
      (wave_spec hp hn hb).1 b' hb' hrefers heq⟩

/-- A batch that refers to others comes in the first wave after theirs. -/
theorem isGreatest_wave {b : Batch} (hb : b ∈ (ofProgram p).batches)
    (h : ∃ b' ∈ (ofProgram p).batches, b.RefersTo p b' ∧ b' ≠ b) :
    IsGreatest {w | ∃ b' ∈ (ofProgram p).batches, b.RefersTo p b' ∧ b' ≠ b ∧ w = b'.wave + 1}
      b.wave := by
  obtain ⟨hlt, hwave⟩ := wave_spec hp hn hb
  constructor
  · rcases hwave with hzero | hsucc
    · obtain ⟨b', hb', hrefers, hne⟩ := h
      have := hlt b' hb' hrefers hne
      omega
    · exact hsucc
  · rintro _ ⟨b', hb', hrefers, hne, rfl⟩
    exact hlt b' hb' hrefers hne

omit hp hn

theorem mem_flatten_take_waves {plan : Plan} {n : Nat} {b : Batch} (hb : b ∈ plan.batches)
    (hlt : b.wave < n) : b ∈ (plan.waves.take n).flatten := by
  unfold waves
  rw [← List.map_take, List.take_range, List.mem_flatten]
  have hcount := wave_lt_waveCount hb
  exact ⟨plan.wave b.wave, List.mem_map.2 ⟨b.wave, List.mem_range.2 (by omega), rfl⟩,
    mem_wave.2 ⟨hb, rfl⟩⟩

theorem perm_flatMap_waves : ((ofProgram p).waves.flatten.flatMap (·.functions)).Perm
    ((ofProgram p).batches.flatMap (·.functions)) :=
  (flatten_waves_perm p).flatMap_right _

end Plan

namespace Analysis

variable {m : Machine} {c : Config} {p : Program} (hp : p.Indexed) (hn : p.WellNested)

include hp hn

/-- The summaries of functions outside a batch are there when it is analysed. -/
theorem summary_of_mentions {b : Batch} (hb : b ∈ (Plan.ofProgram p).batches) {r : Report}
    (hr : reportBefore m c p b.wave = .ok r) {f g : FuncId} (hf : f ∈ b.functions)
    (hg : g ∉ b.functions) (h : p.Mentions f g) :
    ∃ s, r.summary? g = some s ∧ s.func = g ∧ s.Describes p := by
  obtain ⟨b', hb', hmem, -, hwave⟩ := (Plan.batch_of_mentions hp hn hb hf h).resolve_left hg
  obtain ⟨runs, hruns⟩ := runs_of_reportBefore hr
  have hsummarized : g ∈ r.summarized := by
    rw [hruns.summarized_eq hp]
    exact List.mem_flatMap.2 ⟨b', Plan.mem_flatten_take_waves hb' hwave, hmem⟩
  obtain ⟨s, hs, hfunc, hget⟩ := Report.exists_summary hsummarized
  exact ⟨s, hget, hfunc, hruns.describes hp s hs⟩

omit hn in
/-- Every function of a batch has a summary in the end. -/
theorem isSome_summary? {report : Report} (h : (analyze c p m).result = .ok report) {b : Batch}
    (hb : b ∈ (Plan.ofProgram p).batches) {f : FuncId} (hf : f ∈ b.functions) :
    (report.summary? f).isSome := by
  obtain ⟨runs, r, hruns, rfl⟩ := runs_of_analyze h
  have hsummarized : f ∈ r.summarized := by
    rw [hruns.summarized_eq hp]
    exact List.mem_flatMap.2 ⟨b, Plan.mem_flatten_waves.2 hb, hf⟩
  unfold Report.summary?
  rw [finish_summaries]
  exact SummaryStore.get?_isSome.2 hsummarized

/-- No analysis of a well-nested program summarises a function twice. -/
theorem analyze_not_finalized (f : FuncId) :
    (analyze c p m).result ≠ .error (.summaryFinalized f) := by
  intro h
  unfold analyze at h
  rw [Traced.result_bind] at h
  rcases bind_eq_error.1 h with h | ⟨⟨⟩, -, h⟩
  · unfold checkConfig at h
    split at h <;> cases h
  · rw [result_runProgram] at h
    rcases bind_eq_error.1 h with h | ⟨r, -, h⟩
    · refine foldlM_runWave_not_finalized hp ?_ f h
      rw [map_snd_numberedWaves]
      exact (Plan.perm_flatMap_waves.trans (Plan.functions_perm hp hn)).nodup_iff.2 hp.nodup_ids
    · cases h

end Analysis

/-- The hole for an argument when there is a summary to go by. -/
theorem Build.paramHole_of_summary {s : Scene} {g : FuncId} (hg : g ∉ s.members) {x : Summary}
    (hx : s.summary? g = some x) (pl : Place) (ks : Option (List Hole)) (i : Nat) :
    (∀ leaks, x.params[i]? = some leaks →
      paramHole s pl ks (some g) i = (do tee s pl (← leakHoles leaks ks))) ∧
    (x.params[i]? = none → paramHole s pl ks (some g) i = pure (.ofLoc heapId)) := by
  have hcontains : ¬ s.members.contains g = true := fun h => hg (List.contains_iff_mem.1 h)
  unfold paramHole
  constructor
  · intro leaks hi
    simp only [if_neg hcontains, hx, Option.bind_some, hi]
  · intro hi
    simp only [if_neg hcontains, hx, Option.bind_some, hi]

/-! ## The plan and what the analysis makes of it -/

/-- Batches are the strongly connected components of the references between top-level
functions, with closures attached to their outermost function.  Each function is in one batch,
once, and is summarised once. -/
theorem plan_components {p : Program} (hp : p.Indexed) (hn : p.WellNested) :
    (∀ f g, p.IsTopLevel f → p.IsTopLevel g →
      ((∃ b ∈ (Plan.ofProgram p).batches, f ∈ b.roots ∧ g ∈ b.roots) ↔
        ReflTransGen p.Refers f g ∧ ReflTransGen p.Refers g f)) ∧
    (∀ b ∈ (Plan.ofProgram p).batches,
      (∀ f ∈ b.roots, p.IsTopLevel f) ∧
      (b.recursive = true ↔ 1 < b.roots.length ∨ ∃ f ∈ b.roots, p.Refers f f) ∧
      ∀ f, f ∈ b.functions ↔ (p.function? f).isSome ∧ p.outermost f ∈ b.roots) ∧
    ((Plan.ofProgram p).batches.flatMap (·.functions)).Perm
      ((List.range p.functions.size).map FuncId.mk) ∧
    (∀ m c f, (analyze c p m).result ≠ .error (.summaryFinalized f)) ∧
    ∀ m c report, (analyze c p m).result = .ok report →
      report.summarized.Perm ((List.range p.functions.size).map FuncId.mk) ∧
        ∀ s ∈ report.summaries.entries, s.Describes p := by
  have hperm := Plan.functions_perm hp hn
  rw [hp.ids_eq] at hperm
  refine ⟨?_, ?_, hperm, fun m c f => Analysis.analyze_not_finalized hp hn f, ?_⟩
  · intro f g hf _
    constructor
    · rintro ⟨b, hb, hfb, hgb⟩
      exact (Plan.mem_roots_iff hp hn hb hfb).1 hgb
    · intro h
      obtain ⟨b, hb, hfb⟩ := Plan.exists_batch_of_isTopLevel hp hf
      exact ⟨b, hb, hfb, (Plan.mem_roots_iff hp hn hb hfb).2 h⟩
  · intro b hb
    refine ⟨fun f => Plan.isTopLevel_of_mem_roots hp hn hb, Plan.recursive_iff hp hn hb, ?_⟩
    intro f
    constructor
    · intro hf
      obtain ⟨r, hr, hlies⟩ := (Plan.mem_functions_iff hp hb).1 hf
      have hout := hn.outermost_eq_iff.2 ⟨hlies, (Plan.isTopLevel_of_mem_roots hp hn hb hr).2⟩
      exact ⟨Plan.function?_of_mem_functions hp hn hb hf, hout ▸ hr⟩
    · rintro ⟨-, hf⟩
      exact (Plan.mem_functions_iff hp hb).2 ⟨_, hf, hn.liesIn_outermost f⟩
  · intro m c report h
    obtain ⟨runs, r, hruns, rfl⟩ := Analysis.runs_of_analyze h
    have hsummarized := hruns.summarized_eq hp
    unfold Report.summarized at hsummarized ⊢
    rw [Analysis.finish_summaries, hsummarized]
    exact ⟨Plan.perm_flatMap_waves.trans hperm, hruns.describes hp⟩

/-- Two functions that call each other, one of them from a closure, and a third that calls one
of them. -/
def mutualCalls : Program where
  functions := #[
    { id := ⟨0⟩, name := "even", params := [⟨0⟩] },
    { id := ⟨1⟩
      name := "odd"
      params := [⟨1⟩]
      body := some [.expr (.call (.funcRef ⟨0⟩) [.ident ⟨1⟩])] },
    { id := ⟨2⟩
      name := "even.func1"
      enclosing := some ⟨0⟩
      captures := [⟨0⟩]
      body := some [.expr (.call (.funcRef ⟨1⟩) [.ident ⟨0⟩])] },
    { id := ⟨3⟩, name := "main", body := some [.expr (.call (.funcRef ⟨1⟩) [.new ⟨0⟩])] }]
  vars := #[⟨⟨0⟩, "n", .param, some ⟨0⟩⟩, ⟨⟨1⟩, "n", .param, some ⟨1⟩⟩]
  sites := #[⟨⟨0⟩, .new, ⟨3⟩⟩]

theorem mutualCalls_indexed : mutualCalls.Indexed := Program.indexed_of_ids rfl

theorem mutualCalls_wellNested : mutualCalls.WellNested :=
  mutualCalls_indexed.wellNested (by decide)

theorem mutualCalls_refers : mutualCalls.Refers ⟨0⟩ ⟨1⟩ ∧ mutualCalls.Refers ⟨1⟩ ⟨0⟩ := by
  have h₀ : mutualCalls.IsTopLevel ⟨0⟩ := ⟨rfl, rfl⟩
  have h₁ : mutualCalls.IsTopLevel ⟨1⟩ := ⟨rfl, rfl⟩
  constructor
  · refine ⟨h₀, h₁, ⟨2⟩, ⟨1⟩, .single rfl, ⟨_, rfl, ?_, rfl⟩, .refl⟩
    exact .tail _ (.head _)
  · refine ⟨h₁, h₀, ⟨1⟩, ⟨0⟩, .refl, ⟨_, rfl, ?_, rfl⟩, .refl⟩
    exact .tail _ (.head _)

theorem plan_components_mutualCalls :
    mutualCalls.Indexed ∧ mutualCalls.WellNested ∧
      (∃ b ∈ (Plan.ofProgram mutualCalls).batches, ⟨0⟩ ∈ b.roots ∧ ⟨1⟩ ∈ b.roots) ∧
      ∃ report, (analyze (Config.ofPreset .custom) mutualCalls).result = .ok report ∧
        report.summarized.Perm [⟨0⟩, ⟨1⟩, ⟨2⟩, ⟨3⟩] := by
  obtain ⟨hbatch, -, -, -, hreport⟩ := plan_components mutualCalls_indexed mutualCalls_wellNested
  obtain ⟨h₀₁, h₁₀⟩ := mutualCalls_refers
  refine ⟨mutualCalls_indexed, mutualCalls_wellNested,
    (hbatch _ _ h₀₁.1 h₀₁.2.1).2 ⟨.single h₀₁, .single h₁₀⟩, ?_⟩
  have hok : (analyze (Config.ofPreset .custom) mutualCalls).result.map (fun _ => ()) = .ok () := by
    cbv
  obtain ⟨report, hok, -⟩ := exists_of_map_eq_ok hok
  exact ⟨report, hok, (hreport _ _ _ hok).1⟩

/-- What a batch names outside itself is summarised before the batch is analysed, so that an
argument of a call goes to the heap for want of a summary only if there is no parameter for
it. -/
theorem callees_summarized {p : Program} (hp : p.Indexed) (hn : p.WellNested) :
    (∀ b ∈ (Plan.ofProgram p).batches,
      (∀ f ∈ b.functions, ∀ g, p.Mentions f g → g ∈ b.functions ∨
        ∃ b' ∈ (Plan.ofProgram p).batches,
          g ∈ b'.functions ∧ b'.index < b.index ∧ b'.wave < b.wave) ∧
      ((∀ b' ∈ (Plan.ofProgram p).batches, b.RefersTo p b' → b' = b) → b.wave = 0) ∧
      ((∃ b' ∈ (Plan.ofProgram p).batches, b.RefersTo p b' ∧ b' ≠ b) →
        IsGreatest {w | ∃ b' ∈ (Plan.ofProgram p).batches,
          b.RefersTo p b' ∧ b' ≠ b ∧ w = b'.wave + 1} b.wave) ∧
      ∃ w, (Plan.ofProgram p).waves[b.wave]? = some w ∧ b ∈ w) ∧
    ((Plan.ofProgram p).waves.flatten.map (·.index)).Perm
      (List.range (Plan.ofProgram p).batches.length) ∧
    (∀ w ∈ (Plan.ofProgram p).waves, (w.map (·.index)).Pairwise (· < ·)) ∧
    (∀ f decl g args, p.function? f = some decl → (p.function? g).isSome →
      .call (.funcRef g) args ∈ bodyExprs decl.stmts → p.Mentions f g) ∧
    ∀ m c, ∀ b ∈ (Plan.ofProgram p).batches, ∀ r, Analysis.reportBefore m c p b.wave = .ok r →
      (∀ f ∈ b.functions, ∀ g ∉ b.functions, p.Mentions f g → ∃ x decl,
        r.summary? g = some x ∧ p.function? g = some decl ∧
        x.params.length = decl.params.length ∧
        ∀ (s : Scene) (pl : Place) (ks : Option (List Hole)) (i : Nat), s.members = b.functions →
          s.summary? = r.summary? →
          (∀ leaks, x.params[i]? = some leaks → Build.paramHole s pl ks (some g) i =
            (do Build.tee s pl (← Build.leakHoles leaks ks))) ∧
          (decl.params.length ≤ i → Build.paramHole s pl ks (some g) i = pure (.ofLoc heapId))) ∧
      ∀ other?, (∀ f ∈ b.functions, ∀ g ∉ b.functions, p.Calls f g → other? g = r.summary? g) →
        BatchRun.analyze c p b other? m.adder = BatchRun.analyze c p b r.summary? m.adder := by
  refine ⟨?_, ?_, fun w hw => Plan.waves_sorted hw, ?_, ?_⟩
  · intro b hb
    refine ⟨fun f hf g h => Plan.batch_of_mentions hp hn hb hf h, ?_,
      Plan.isGreatest_wave hp hn hb, ?_⟩
    · intro hself
      rcases (Plan.wave_spec hp hn hb).2 with hzero | ⟨b', hb', hrefers, hne, -⟩
      · exact hzero
      · exact absurd (hself b' hb' hrefers) hne
    · refine ⟨(Plan.ofProgram p).wave b.wave, ?_, Plan.mem_wave.2 ⟨hb, rfl⟩⟩
      unfold Plan.waves
      rw [List.getElem?_map, List.getElem?_range (Plan.wave_lt_waveCount hb)]
      rfl
  · rw [← Plan.map_index]
    exact (Plan.flatten_waves_perm p).map _
  · exact fun f decl g args hf hg hcall => Program.mentions_of_call hf hg hcall
  · intro m c b hb r hr
    refine ⟨?_, fun other? h => BatchRun.analyze_congr h⟩
    intro f hf g hg h
    obtain ⟨x, hx, rfl, decl, hdecl, hlength⟩ :=
      Analysis.summary_of_mentions hp hn hb hr hf hg h
    refine ⟨x, decl, hx, hdecl, hlength, ?_⟩
    intro s pl ks i hmembers hprovider
    obtain ⟨hsome, hnone⟩ :=
      Build.paramHole_of_summary (hmembers ▸ hg) (hprovider ▸ hx) pl ks i
    exact ⟨hsome, fun hi => hnone (List.getElem?_eq_none (hlength ▸ hi))⟩

theorem callees_summarized_mutualCalls :
    mutualCalls.Indexed ∧ mutualCalls.WellNested ∧
      ∃ b ∈ (Plan.ofProgram mutualCalls).batches, ⟨3⟩ ∈ b.functions ∧ ⟨1⟩ ∉ b.functions ∧
        ∃ r, Analysis.reportBefore {} (Config.ofPreset .custom) mutualCalls b.wave = .ok r ∧
          ∃ x, r.summary? ⟨1⟩ = some x ∧ x.params.length = 1 := by
  have hbatches : (Plan.ofProgram mutualCalls).batches =
      [⟨0, [⟨0⟩, ⟨1⟩], [⟨0⟩, ⟨1⟩, ⟨2⟩], true, 0⟩, ⟨1, [⟨3⟩], [⟨3⟩], false, 1⟩] := by cbv
  have hb : ⟨1, [⟨3⟩], [⟨3⟩], false, 1⟩ ∈ (Plan.ofProgram mutualCalls).batches := by
    rw [hbatches]
    exact .tail _ (.head _)
  have hr : (Analysis.reportBefore {} (Config.ofPreset .custom) mutualCalls 1).map
      (fun _ => ()) = .ok () := by cbv
  obtain ⟨r, hr, -⟩ := exists_of_map_eq_ok hr
  have hmentions : mutualCalls.Mentions ⟨3⟩ ⟨1⟩ := ⟨_, rfl, .tail _ (.head _), rfl⟩
  obtain ⟨-, -, -, -, hlook⟩ := callees_summarized mutualCalls_indexed mutualCalls_wellNested
  obtain ⟨x, decl, hx, hdecl, hlength, -⟩ :=
    (hlook _ _ _ hb r hr).1 ⟨3⟩ (by decide) ⟨1⟩ (by decide) hmentions
  cases hdecl
  exact ⟨mutualCalls_indexed, mutualCalls_wellNested, _, hb, by decide, by decide, r, hr, x, hx,
    hlength⟩

end EscapeFlow
