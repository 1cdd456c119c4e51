import EscapeFlow.Proofs.Jobs
import EscapeFlow.Proofs.Nesting
import EscapeFlow.Proofs.Placing
import EscapeFlow.Proofs.SumsFit

/-!
# Runs of the analysis

An analysis goes through the waves of a plan.  The batches of a wave are analysed against the
summaries in the report so far, and the report then takes in what they found.  `Runs` says so
as a relation between the report before some waves, the batches analysed and the report after.
Every analysis that ends well is such a run, whenever the batches of a wave are done:

    (analyze c p m).result = .ok report →
      ∃ runs r, Runs m.adder c p {} (Plan.ofProgram p).waves runs r ∧ report = finish p r
                                                                        (runs_of_analyze)

A report takes in outputs one after the other as long as no function is summarised twice:

    outs.foldlM merge r = .ok r' ↔
      (r.summarized ++ outs.flatMap BatchOutput.summarized).Nodup ∧ r' = outs.foldl absorb r
                                                                        (foldlM_merge_eq_ok)

Each batch brings one summary for each of its functions, with the leaks of each parameter
(`summarized_of_analyze`).

What is proved of analyses with exact sums holds of those with sums of 32 bits wherever these fit in
the graphs of the batches:

    SumsFit finish c p → analyze c p ⟨.int32, finish⟩ = analyze c p ⟨.exact, finish⟩
                                                                        (SumsFit.analyze)
-/

namespace EscapeFlow

/-! ## Taking in outputs -/

namespace SummaryStore

theorem get?_isSome {s : SummaryStore} {f : FuncId} :
    (s.get? f).isSome = true ↔ f ∈ s.entries.map (·.func) := by
  unfold get?
  simp [List.mem_map]

/-- Summaries are taken as long as no function has two. -/
theorem insertAll_eq_ok {s s' : SummaryStore} {xs : List Summary}
    (hs : (s.entries.map (·.func)).Nodup) :
    s.insertAll xs = .ok s' ↔
      ((s.entries ++ xs).map (·.func)).Nodup ∧ s' = ⟨s.entries ++ xs⟩ := by
  unfold insertAll
  induction xs generalizing s with
  | nil =>
    rw [List.foldlM_nil, List.append_nil]
    exact ⟨fun h => ⟨hs, (Except.ok.inj h).symm⟩, fun h => congrArg Except.ok h.2.symm⟩
  | cons x xs ih =>
    rw [List.foldlM_cons]
    by_cases hx : (s.get? x.func).isSome = true
    · -- a second summary for the function
      have hinsert : s.insert x = .error (.summaryFinalized x.func) := if_pos hx
      rw [hinsert]
      refine ⟨fun h => (nomatch h), fun ⟨hnodup, _⟩ => ?_⟩
      rw [List.map_append, List.map_cons] at hnodup
      exact absurd List.mem_cons_self
        (List.disjoint_of_nodup_append hnodup (get?_isSome.1 hx))
    · have hinsert : s.insert x = .ok ⟨s.entries ++ [x]⟩ := if_neg hx
      have hs' : ((s.entries ++ [x]).map (·.func)).Nodup := by
        rw [List.map_append, List.nodup_append_comm]
        exact List.nodup_cons.2 ⟨fun h => hx (get?_isSome.2 h), hs⟩
      have hassoc : s.entries ++ [x] ++ xs = s.entries ++ x :: xs := List.append_assoc _ _ _
      rw [hinsert, ← hassoc]
      exact ih hs'

end SummaryStore

namespace BatchOutput

/-- The functions that an output holds a summary for. -/
def summarized (out : BatchOutput) : List FuncId := out.summaries.map (·.func)

end BatchOutput

namespace Report

/-- The functions that a report holds a summary for. -/
def summarized (r : Report) : List FuncId := r.summaries.entries.map (·.func)

/-- Puts decisions in, one after the other. -/
def insertAll (xs ds : List Decision) : List Decision :=
  xs.foldl (fun ds d => insertDecision d ds) ds

/-- The report with all of an output in it. -/
def absorb (r : Report) (out : BatchOutput) : Report where
  decisions := insertAll out.decisions r.decisions
  summaries := ⟨r.summaries.entries ++ out.summaries⟩
  diagnostics := r.diagnostics ++ out.diagnostics
  stats := r.stats.merge out.stats

theorem foldl_put (r : Report) (ds : List Decision) :
    ds.foldl put r = { r with decisions := insertAll ds r.decisions } := by
  induction ds generalizing r with
  | nil => rfl
  | cons d ds ih =>
    rw [List.foldl_cons, ih]
    rfl

theorem decideGlobals_eq (r : Report) (globals : List Variable) :
    r.decideGlobals globals =
      { r with
        decisions := insertAll (globals.map globalDecision) r.decisions
        stats := { r.stats with heapSites := r.stats.heapSites + globals.length } } := by
  unfold decideGlobals
  rw [← List.foldl_map, foldl_put]

theorem summarized_absorb (r : Report) (out : BatchOutput) :
    (r.absorb out).summarized = r.summarized ++ out.summarized :=
  List.map_append

theorem merge_eq_ok {r r' : Report} {out : BatchOutput} (hr : r.summarized.Nodup) :
    r.merge out = .ok r' ↔ (r.summarized ++ out.summarized).Nodup ∧ r' = r.absorb out := by
  unfold merge
  dsimp only
  rw [foldl_put, bind_eq_ok]
  constructor
  · rintro ⟨s', hs', h⟩
    obtain ⟨hnodup, rfl⟩ := (SummaryStore.insertAll_eq_ok hr).1 hs'
    rw [List.map_append] at hnodup
    exact ⟨hnodup, (Except.ok.inj h).symm⟩
  · rintro ⟨hnodup, rfl⟩
    unfold summarized BatchOutput.summarized at hnodup
    rw [← List.map_append] at hnodup
    exact ⟨_, (SummaryStore.insertAll_eq_ok hr).2 ⟨hnodup, rfl⟩, rfl⟩

/-- Outputs are taken in as long as no function is summarised twice. -/
theorem foldlM_merge_eq_ok {r r' : Report} {outs : List BatchOutput} (hr : r.summarized.Nodup) :
    outs.foldlM merge r = .ok r' ↔
      (r.summarized ++ outs.flatMap BatchOutput.summarized).Nodup ∧ r' = outs.foldl absorb r := by
  induction outs generalizing r with
  | nil =>
    rw [List.foldlM_nil, List.flatMap_nil, List.append_nil]
    exact ⟨fun h => ⟨hr, (Except.ok.inj h).symm⟩, fun h => congrArg Except.ok h.2.symm⟩
  | cons out outs ih =>
    rw [List.foldlM_cons, List.flatMap_cons, ← List.append_assoc, ← summarized_absorb,
      List.foldl_cons]
    rw [bind_eq_ok]
    constructor
    · rintro ⟨r₁, hm, h⟩
      obtain ⟨hnodup, rfl⟩ := (merge_eq_ok hr).1 hm
      rw [← summarized_absorb] at hnodup
      exact (ih hnodup).1 h
    · intro h
      have hnodup : (r.absorb out).summarized.Nodup := h.1.of_append_left
      exact ⟨_, (merge_eq_ok hr).2 ⟨summarized_absorb r out ▸ hnodup, rfl⟩, (ih hnodup).2 h⟩

theorem entries_foldl_absorb (r : Report) (outs : List BatchOutput) :
    (outs.foldl absorb r).summaries.entries =
      r.summaries.entries ++ outs.flatMap (·.summaries) := by
  induction outs generalizing r with
  | nil => rw [List.foldl_nil, List.flatMap_nil, List.append_nil]
  | cons out outs ih =>
    rw [List.foldl_cons, ih, List.flatMap_cons, ← List.append_assoc]
    rfl

theorem decisions_foldl_absorb (r : Report) (outs : List BatchOutput) :
    (outs.foldl absorb r).decisions = insertAll (outs.flatMap (·.decisions)) r.decisions := by
  induction outs generalizing r with
  | nil => rfl
  | cons out outs ih =>
    rw [List.foldl_cons, ih, List.flatMap_cons]
    exact List.foldl_append.symm

/-- What is counted in each batch adds up. -/
theorem stats_foldl_absorb {count : Stats → Nat}
    (hcount : ∀ s t, count (s.merge t) = count s + count t) (r : Report)
    (outs : List BatchOutput) :
    count (outs.foldl absorb r).stats = count r.stats + total (fun o => count o.stats) outs := by
  induction outs generalizing r with
  | nil => rfl
  | cons out outs ih =>
    have hone : count (r.absorb out).stats = count r.stats + count out.stats := hcount _ _
    rw [List.foldl_cons, ih, total, hone]
    omega

theorem summarized_foldl_absorb (r : Report) (outs : List BatchOutput) :
    (outs.foldl absorb r).summarized = r.summarized ++ outs.flatMap BatchOutput.summarized := by
  unfold summarized
  rw [entries_foldl_absorb, List.map_append, List.map_flatMap]
  rfl

end Report

/-! ## What a batch brings -/

theorem map_of_forall₂ {α β γ : Type} {R : α → β → Prop} {f : α → γ} {g : β → γ}
    {as : List α} {bs : List β} (h : List.Forall₂ R as bs) (hfg : ∀ a b, R a b → g b = f a) :
    bs.map g = as.map f := by
  induction h with
  | nil => rfl
  | cons hab _ ih => rw [List.map_cons, List.map_cons, hfg _ _ hab, ih]

theorem filterMap_of_forall₂ {α β : Type} {f : α → Option β} {as : List α} {bs : List β}
    (h : List.Forall₂ (fun a b => f a = some b) as bs) : as.filterMap f = bs := by
  induction h with
  | nil => rfl
  | cons hab _ ih => rw [List.filterMap_cons_some hab, ih]

/-- Each parameter of a function of the program has its leaks in the summary. -/
def Summary.Describes (p : Program) (s : Summary) : Prop :=
  ∃ decl, p.function? s.func = some decl ∧ s.params.length = decl.params.length

namespace BatchRun

variable {a : Adder} {c : Config} {p : Program} {b : Batch} {summary? : FuncId → Option Summary}
  {x : BatchRun}

theorem batch_of_analyze (h : analyze c p b summary? a = .ok x) : x.batch = b := by
  obtain ⟨built, -, rfl⟩ := analyze_eq_ok h
  rfl

/-- A batch brings a summary for each of its functions, in order. -/
theorem summarized_of_analyze (hp : p.Indexed) (h : analyze c p b summary? a = .ok x) :
    x.output.summarized = b.functions ∧ ∀ s ∈ x.output.summaries, s.Describes p := by
  obtain ⟨ds, is, hds, -⟩ := analyze_sites h
  obtain ⟨built, -, rfl⟩ := analyze_eq_ok h
  have hdecls : b.functions.filterMap p.function? = ds := filterMap_of_forall₂ hds
  have hids : ds.map (·.id) = b.functions :=
    (map_of_forall₂ (f := id) hds hp).trans (List.map_id _)
  set g := solved built (built.graph.solveWith a p ⟨c.maxWalkRounds, 2 ≤ c.diagnosticLevel⟩)
  have hsummaries : (ofBuilt a c p b built).output.summaries = ds.map g.summarize :=
    congrArg (List.map g.summarize) hdecls
  unfold BatchOutput.summarized
  rw [hsummaries]
  constructor
  · rw [List.map_map, ← hids]
    rfl
  · intro s hs
    obtain ⟨d, hd, rfl⟩ := List.mem_map.1 hs
    obtain ⟨f, -, hfd⟩ := mem_of_forall₂ hds hd
    refine ⟨d, ?_, List.length_map _⟩
    show p.function? d.id = some d
    rw [hp f d hfd, hfd]

end BatchRun

/-! ## Runs -/

namespace Analysis

/-- The report `r'` comes from `r` by going through the waves `ws`, and `runs` are the batches
as they were analysed. -/
inductive Runs (a : Adder) (c : Config) (p : Program) :
    Report → List (List Batch) → List BatchRun → Report → Prop
  | done (r : Report) : Runs a c p r [] [] r
  | wave {r r₁ r' : Report} {w : List Batch} {ws : List (List Batch)} {runs rest : List BatchRun}
    (analyzed : List.Forall₂ (fun b x => BatchRun.analyze c p b r.summary? a = .ok x) w runs)
    (merged : (runs.map (·.output)).foldlM Report.merge r = .ok r₁)
    (further : Runs a c p r₁ ws rest r') : Runs a c p r (w :: ws) (runs ++ rest) r'

/-- What is left to do when all waves are done. -/
def finish (p : Program) (r : Report) : Report :=
  let decided := r.decideGlobals p.globals
  { decided with stats := planStats p (Plan.ofProgram p) decided.stats }

/-- The waves of a plan with their numbers, as the analysis goes through them. -/
def numberedWaves (p : Program) : List (Nat × List Batch) :=
  (Plan.ofProgram p).waves.zipIdx.map fun w => (w.2, w.1)

/-- The report when wave `n` is about to start. -/
def reportBefore (m : Machine) (c : Config) (p : Program) (n : Nat) : Except Error Report :=
  (((numberedWaves p).take n).foldlM (runWave m c p) {}).result

theorem finish_summaries (p : Program) (r : Report) : (finish p r).summaries = r.summaries := by
  unfold finish
  rw [r.decideGlobals_eq]

variable {m : Machine} {c : Config} {p : Program}

theorem map_snd_numberedWaves (p : Program) :
    (numberedWaves p).map Prod.snd = (Plan.ofProgram p).waves := by
  unfold numberedWaves
  rw [List.map_map]
  exact List.zipIdx_map_fst 0 _

theorem result_runBatch (m : Machine) (c : Config) (p : Program)
    (summary? : FuncId → Option Summary) (b : Batch) :
    (runBatch m c p summary? b).result =
      BatchRun.analyze c p b summary? m.adder >>= fun x => .ok x.output := by
  unfold runBatch
  rw [Traced.result_bind, Traced.result_ofExcept]
  rfl

theorem result_runWave (m : Machine) (c : Config) (p : Program) (r : Report)
    (w : Nat × List Batch) :
    (runWave m c p r w).result =
      (outputs m c p r w).result >>= fun outs => outs.foldlM Report.merge r := by
  unfold runWave
  rw [Traced.result_bind]
  rfl

theorem outputs_eq_ok {r : Report} {w : Nat × List Batch} {outs : List BatchOutput} :
    (outputs m c p r w).result = .ok outs ↔ ∃ runs,
      List.Forall₂ (fun b x => BatchRun.analyze c p b r.summary? m.adder = .ok x) w.2 runs ∧
      outs = runs.map (·.output) := by
  have hturn : (outputs m c p r w).result = .ok outs ↔
      (w.2.mapM (runBatch m c p r.summary?)).result = .ok outs := by
    unfold outputs
    split
    · exact Traced.result_inParallel_eq_ok
    · exact Iff.rfl
  rw [hturn, Traced.result_mapM]
  simp only [result_runBatch]
  rw [mapM_bind_ok, bind_eq_ok]
  simp only [mapM_eq_ok]
  exact exists_congr fun runs => and_congr_right fun _ => by
    rw [Except.ok.injEq, eq_comm]

/-- A wave that fails before its outputs are taken in fails like one of its batches. -/
theorem exists_of_outputs_eq_error {r : Report} {w : Nat × List Batch} {e : Error}
    (h : (outputs m c p r w).result = .error e) :
    ∃ b ∈ w.2, BatchRun.analyze c p b r.summary? m.adder = .error e := by
  obtain ⟨b, hb, hrun⟩ : ∃ b ∈ w.2, (runBatch m c p r.summary? b).result = .error e := by
    unfold outputs at h
    split at h
    · exact Traced.exists_of_result_inParallel_eq_error h
    · rw [Traced.result_mapM] at h
      exact exists_of_mapM_eq_error h
  rw [result_runBatch] at hrun
  rcases bind_eq_error.1 hrun with hrun | ⟨_, -, hrun⟩
  · exact ⟨b, hb, hrun⟩
  · cases hrun

theorem result_runWave_eq_ok {r r' : Report} {w : Nat × List Batch} :
    (runWave m c p r w).result = .ok r' ↔ ∃ runs,
      List.Forall₂ (fun b x => BatchRun.analyze c p b r.summary? m.adder = .ok x) w.2 runs ∧
      (runs.map (·.output)).foldlM Report.merge r = .ok r' := by
  rw [result_runWave, bind_eq_ok]
  constructor
  · rintro ⟨outs, houts, hmerge⟩
    obtain ⟨runs, hruns, rfl⟩ := outputs_eq_ok.1 houts
    exact ⟨runs, hruns, hmerge⟩
  · rintro ⟨runs, hruns, hmerge⟩
    exact ⟨_, outputs_eq_ok.2 ⟨runs, hruns, rfl⟩, hmerge⟩

/-- Going through waves is a run of the analysis over them. -/
theorem result_foldlM_runWave {r r' : Report} {ws : List (Nat × List Batch)} :
    (ws.foldlM (runWave m c p) r).result = .ok r' ↔
      ∃ runs, Runs m.adder c p r (ws.map Prod.snd) runs r' := by
  rw [Traced.result_foldlM]
  induction ws generalizing r with
  | nil =>
    constructor
    · intro h
      cases h
      exact ⟨[], .done _⟩
    · rintro ⟨runs, h⟩
      cases h
      rfl
  | cons w ws ih =>
    rw [List.foldlM_cons, bind_eq_ok]
    constructor
    · rintro ⟨r₁, hw, hws⟩
      obtain ⟨runs, hruns, hmerge⟩ := result_runWave_eq_ok.1 hw
      obtain ⟨rest, hrest⟩ := ih.1 hws
      exact ⟨runs ++ rest, .wave hruns hmerge hrest⟩
    · rintro ⟨_, h⟩
      cases h with
      | wave hruns hmerge hrest =>
        exact ⟨_, result_runWave_eq_ok.2 ⟨_, hruns, hmerge⟩, ih.2 ⟨_, hrest⟩⟩

theorem runs_of_reportBefore {n : Nat} {r : Report} (h : reportBefore m c p n = .ok r) :
    ∃ runs, Runs m.adder c p {} ((Plan.ofProgram p).waves.take n) runs r := by
  rw [← map_snd_numberedWaves, ← List.map_take]
  exact result_foldlM_runWave.1 h

theorem result_runProgram : (runProgram m c p).result =
    ((numberedWaves p).foldlM (runWave m c p) {}).result >>= fun r => .ok (finish p r) := by
  unfold runProgram
  rw [Traced.result_bind, Traced.result_log, Traced.result_bind]
  rfl

/-- An analysis that ends well is a run through the waves of its plan. -/
theorem runs_of_analyze {report : Report} (h : (analyze c p m).result = .ok report) :
    ∃ runs r, Runs m.adder c p {} (Plan.ofProgram p).waves runs r ∧ report = finish p r := by
  unfold analyze at h
  rw [Traced.result_bind] at h
  obtain ⟨⟨⟩, -, h⟩ := bind_eq_ok.1 h
  rw [result_runProgram] at h
  obtain ⟨r, hr, h⟩ := bind_eq_ok.1 h
  obtain ⟨runs, hruns⟩ := result_foldlM_runWave.1 hr
  rw [map_snd_numberedWaves] at hruns
  exact ⟨runs, r, hruns, (Except.ok.inj h).symm⟩

variable {a : Adder}

/-- A wave brings the summaries of the functions of its batches. -/
theorem flatMap_summarized (hp : p.Indexed) {r : Report} {w : List Batch} {runs : List BatchRun}
    (h : List.Forall₂ (fun b x => BatchRun.analyze c p b r.summary? a = .ok x) w runs) :
    (runs.map (·.output)).flatMap BatchOutput.summarized = w.flatMap (·.functions) := by
  rw [List.flatMap_map, List.flatMap_def, List.flatMap_def]
  exact congrArg List.flatten
    (map_of_forall₂ h fun _ _ hb => (BatchRun.summarized_of_analyze hp hb).1)

namespace Runs

variable {r r' : Report} {ws : List (List Batch)} {runs : List BatchRun}

/-- A run analyses the batches of its waves in order. -/
theorem map_batch (h : Runs a c p r ws runs r') : runs.map (·.batch) = ws.flatten := by
  induction h with
  | done => rfl
  | wave analyzed _ _ ih =>
    rw [List.map_append, ih, List.flatten_cons]
    congr 1
    exact (map_of_forall₂ (f := id) analyzed fun _ _ => BatchRun.batch_of_analyze).trans
      (List.map_id _)

theorem exists_analyze (h : Runs a c p r ws runs r') {x : BatchRun} (hx : x ∈ runs) :
    ∃ summary?, BatchRun.analyze c p x.batch summary? a = .ok x := by
  induction h with
  | done => cases hx
  | wave analyzed _ _ ih =>
    rcases List.mem_append.1 hx with hx | hx
    · obtain ⟨b, -, hb⟩ := mem_of_forall₂ analyzed hx
      obtain rfl := BatchRun.batch_of_analyze hb
      exact ⟨_, hb⟩
    · exact ih hx

/-- The report has taken in what all batches brought, and no function is summarised twice. -/
theorem report_eq (h : Runs a c p r ws runs r') (hr : r.summarized.Nodup) :
    r' = (runs.map (·.output)).foldl Report.absorb r ∧ r'.summarized.Nodup := by
  induction h with
  | done => exact ⟨rfl, hr⟩
  | wave _ merged _ ih =>
    obtain ⟨hnodup, rfl⟩ := (Report.foldlM_merge_eq_ok hr).1 merged
    rw [List.map_append, List.foldl_append]
    rw [← Report.summarized_foldl_absorb] at hnodup
    exact ih hnodup

theorem entries_eq (h : Runs a c p {} ws runs r') :
    r'.summaries.entries = runs.flatMap (·.output.summaries) := by
  obtain ⟨rfl, -⟩ := h.report_eq .nil
  rw [Report.entries_foldl_absorb, List.flatMap_map]
  rfl

/-- The report holds a summary for each function of each batch, in the order of the waves. -/
theorem summarized_eq (hp : p.Indexed) (h : Runs a c p {} ws runs r') :
    r'.summarized = ws.flatten.flatMap (·.functions) := by
  unfold Report.summarized
  rw [h.entries_eq, List.map_flatMap, ← h.map_batch, List.flatMap_map]
  refine List.flatMap_congr fun x hx => ?_
  obtain ⟨summary?, hx⟩ := h.exists_analyze hx
  exact (BatchRun.summarized_of_analyze hp hx).1

theorem describes (hp : p.Indexed) (h : Runs a c p {} ws runs r') :
    ∀ s ∈ r'.summaries.entries, s.Describes p := by
  intro s hs
  rw [h.entries_eq] at hs
  obtain ⟨x, hx, hs⟩ := List.mem_flatMap.1 hs
  obtain ⟨summary?, hx⟩ := h.exists_analyze hx
  exact (BatchRun.summarized_of_analyze hp hx).2 s hs

end Runs

/-- A wave of batches that share no function, with each other or with earlier waves, goes into
the report. -/
theorem runWave_not_finalized (hp : p.Indexed) {r : Report} {w : Nat × List Batch}
    (hnodup : (r.summarized ++ w.2.flatMap (·.functions)).Nodup) (f : FuncId) :
    (runWave m c p r w).result ≠ .error (.summaryFinalized f) := by
  intro h
  rw [result_runWave] at h
  rcases bind_eq_error.1 h with h | ⟨outs, houts, h⟩
  · obtain ⟨b, -, hb⟩ := exists_of_outputs_eq_error h
    exact BatchRun.analyze_error hb f rfl
  · obtain ⟨runs, hruns, rfl⟩ := outputs_eq_ok.1 houts
    rw [← flatMap_summarized hp hruns] at hnodup
    rw [(Report.foldlM_merge_eq_ok hnodup.of_append_left).2 ⟨hnodup, rfl⟩] at h
    cases h

theorem foldlM_runWave_not_finalized (hp : p.Indexed) {ws : List (Nat × List Batch)} {r : Report}
    (hnodup : (r.summarized ++ (ws.map Prod.snd).flatten.flatMap (·.functions)).Nodup)
    (f : FuncId) : (ws.foldlM (runWave m c p) r).result ≠ .error (.summaryFinalized f) := by
  rw [Traced.result_foldlM]
  induction ws generalizing r with
  | nil => exact fun h => (nomatch h)
  | cons w ws ih =>
    rw [List.map_cons, List.flatten_cons, List.flatMap_append, ← List.append_assoc] at hnodup
    rw [List.foldlM_cons]
    intro h
    rcases bind_eq_error.1 h with h | ⟨r₁, hw, h⟩
    · exact runWave_not_finalized hp hnodup.of_append_left f h
    · obtain ⟨runs, hruns, hmerge⟩ := result_runWave_eq_ok.1 hw
      have hr := hnodup.of_append_left.of_append_left
      obtain ⟨-, rfl⟩ := (Report.foldlM_merge_eq_ok hr).1 hmerge
      rw [← flatMap_summarized hp hruns, ← Report.summarized_foldl_absorb] at hnodup
      exact ih hnodup h

end Analysis

/-! ## Sums of 32 bits -/

theorem BatchRun.analyze_int32 {c : Config} {p : Program} {b : Batch}
    {summary? : FuncId → Option Summary}
    (h : ∀ x, analyze c p b summary? = .ok x → x.built.graph.SumsFit) :
    analyze c p b summary? .int32 = analyze c p b summary? := by
  rw [analyze_eq] at h ⊢
  rw [analyze_eq]
  cases hb : BatchGraph.build p b.functions summary?
      ⟨c.preciseRecursiveCalls, 2 ≤ c.diagnosticLevel⟩ with
  | error e => rfl
  | ok built =>
    have hfit : built.graph.SumsFit := h _ (by rw [hb]; rfl)
    show Except.ok (ofBuilt .int32 c p b built) = Except.ok (ofBuilt .exact c p b built)
    unfold ofBuilt
    rw [← hfit.solve]
    rfl

namespace Analysis

/-- In the graph of each batch that is analysed, no sum is above the greatest integer of 32 bits. -/
def SumsFit (finish : Nat → Nat → Nat) (c : Config) (p : Program) : Prop :=
  ∀ n r w, reportBefore ⟨.exact, finish⟩ c p n = .ok r → (numberedWaves p)[n]? = some w →
    ∀ b ∈ w.2, ∀ x, BatchRun.analyze c p b r.summary? = .ok x → x.built.graph.SumsFit

theorem SumsFit.runWave {finish : Nat → Nat → Nat} {c : Config} {p : Program}
    (h : SumsFit finish c p) {n : Nat} {r : Report} {w : Nat × List Batch}
    (hr : reportBefore ⟨.exact, finish⟩ c p n = .ok r) (hw : (numberedWaves p)[n]? = some w) :
    runWave ⟨.exact, finish⟩ c p r w = runWave ⟨.int32, finish⟩ c p r w := by
  have hbatch : ∀ b ∈ w.2, runBatch ⟨.exact, finish⟩ c p r.summary? b =
      runBatch ⟨.int32, finish⟩ c p r.summary? b := by
    intro b hb
    unfold runBatch
    rw [BatchRun.analyze_int32 (h n r w hr hw b hb)]
  unfold Analysis.runWave outputs
  rw [Traced.inParallel_congr hbatch, mapM_congr hbatch]

end Analysis

/-- Where all sums fit, an analysis with sums of 32 bits is the same as with exact ones, in its
report or error and in its log. -/
theorem Analysis.SumsFit.analyze {finish : Nat → Nat → Nat} {c : Config} {p : Program}
    (h : SumsFit finish c p) :
    EscapeFlow.analyze c p ⟨.int32, finish⟩ = EscapeFlow.analyze c p ⟨.exact, finish⟩ := by
  have hwaves : (numberedWaves p).foldlM (Analysis.runWave ⟨.exact, finish⟩ c p) {} =
      (numberedWaves p).foldlM (Analysis.runWave ⟨.int32, finish⟩ c p) {} :=
    Traced.foldlM_congr fun n r w hr hw => h.runWave hr hw
  unfold EscapeFlow.analyze runProgram
  unfold numberedWaves at hwaves
  dsimp only
  rw [hwaves]

end EscapeFlow
