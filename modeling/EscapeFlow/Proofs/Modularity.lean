import EscapeFlow.Proofs.Decisions
import EscapeFlow.Proofs.Extension
import EscapeFlow.Proofs.SummaryOrder
import Mathlib

/-!
# Code that is not referred to

The analysis goes from callees to callers, so code that is added to a program does not show in what
is found about the code that was there.  The batches of the program come first in the plan of the
longer one.  Each is built from its own functions and the summaries of functions that it calls, none
of which is new, and walks tell apart functions of the batch only:

    outlives p' g = outlives p g → g.solveWith a p' o = g.solveWith a p o            (solve_congr)

So, wave by wave, the two reports agree on old functions and old sites (`Runs.sameOn`).  Later
batches bring summaries of new functions and decisions for new sites (`BatchRun.New`), and the
decision for a site is the last one that is made for it (`find?_insertAll`).
-/

namespace EscapeFlow

/-! ## Walks -/

section

variable {p p' : Program} {g : Graph} (h : outlives p' g = outlives p g)

include h

theorem learned_congr : learned p' g = learned p g := by
  funext attrs root l d
  unfold learned learnedByAddress
  rw [h]

theorem leaked_congr : leaked p' g = leaked p g := by
  funext attrs root l d leaks
  unfold leaked
  rw [h]

namespace Walk

theorem learn_congr (record : Bool) (root : LocId) (w : Walk) (l : LocId) (d : Int) :
    w.learn p' g record root l d = w.learn p g record root l d := by
  unfold learn mark
  rw [learned_congr h, leaked_congr h, h]

theorem step_congr (a : Adder) (record : Bool) (root : LocId) (w : Walk) (l : LocId) :
    w.step a p' g record root l = w.step a p g record root l := by
  unfold step turnsEscaping
  simp only [learn_congr h, learned_congr h]

theorem run_congr (a : Adder) (record : Bool) (root : LocId) (w : Walk) :
    w.run a p' g record root = w.run a p g record root := by
  fun_induction run a p g record root w with
  | case1 w hstack =>
    rw [run]
    split
    · rfl
    · next heq => rw [hstack] at heq; cases heq
  | case2 w l rest hstack ih =>
    rw [run]
    split
    · next heq => rw [hstack] at heq; cases heq
    · next l' rest' heq =>
      rw [hstack] at heq
      cases heq
      rw [step_congr h a]
      exact ih

end Walk

theorem Graph.drain_congr (a : Adder) (o : SolveOptions) (m : Marks) (todo : List LocId)
    (walks : Nat) (relaxed : List Relaxation) :
    g.drain a p' o m todo walks relaxed = g.drain a p o m todo walks relaxed := by
  fun_induction Graph.drain a p g o m todo walks relaxed with
  | case1 => rw [drain]
  | case2 m walks relaxed root rest hlimit => rw [drain, if_pos hlimit]
  | case3 m walks relaxed root rest hlimit ih =>
    rw [drain, if_neg hlimit, Walk.run_congr h a]
    exact ih

theorem Graph.solve_congr (a : Adder) (o : SolveOptions) :
    g.solveWith a p' o = g.solveWith a p o :=
  Graph.drain_congr h a o g.marks (List.range g.size) 0 []

end

/-! ## Batches -/

theorem Location.outlasts_congr {p p' : Program} {x y : Location}
    (h : ∀ f g, x.func = some f → y.func = some g →
      p'.containsClosure f g = p.containsClosure f g) :
    x.outlasts p' y = x.outlasts p y := by
  unfold outlasts
  split
  · next f g hx hy => rw [h f g hx hy]
  · rfl

theorem outlives_congr {p p' : Program} {g : Graph}
    (h : ∀ k l x y, (g.loc k).func = some x → (g.loc l).func = some y →
      p'.containsClosure x y = p.containsClosure x y) : outlives p' g = outlives p g := by
  funext attrs root l
  unfold outlives
  rw [Location.outlasts_congr (h root l)]

namespace Program

/-- The sites of a program: the variables that its functions declare, its globals and the
allocations of its table. -/
def HasSite (p : Program) : Site → Prop
  | .var v => (∃ f decl, p.function? f = some decl ∧ v ∈ decl.declared) ∨
      ∃ x ∈ p.globals, x.id = v
  | .alloc i => (p.site? i).isSome

theorem HasSite.isSome_var? {p : Program} (hp : p.Owned) {v : VarId} (h : p.HasSite (.var v)) :
    (p.var? v).isSome := by
  rcases h with ⟨f, decl, hf, hv⟩ | ⟨x, hx, rfl⟩
  · obtain ⟨x, hx, -⟩ := hp.declared f decl hf v hv
    exact hx ▸ rfl
  · obtain ⟨i, hi⟩ := List.mem_iff_getElem?.1 (List.mem_filter.1 hx).1
    rw [Array.getElem?_toList] at hi
    rw [hp.vars ⟨i⟩ x hi, show p.var? ⟨i⟩ = some x from hi]
    rfl

theorem Extends.offers {p p' : Program} (h : p.Extends p') : p.Offers True p' := by
  have htable {α : Type} {xs ys : Array α} (hxs : ∃ more, ys = xs ++ more) (i : Nat) :
      ys[i]? = xs[i]? ∨ True ∧ xs[i]? = none := by
    obtain ⟨more, rfl⟩ := hxs
    exact (getElem?_append_or i).imp_right fun hnone => ⟨trivial, hnone⟩
  exact ⟨fun f => htable h.functions f.index, fun v => htable h.vars v.index,
    fun i => htable h.sites i.index⟩

end Program

/-- The batch holds functions only that are not in the program. -/
def Batch.New (p : Program) (b : Batch) : Prop := ∀ f ∈ b.functions, p.function? f = none

section

variable {p p' : Program} (h : p.Extends p') (hp : p.SelfContained)

include h hp

/-- An old batch comes out the same if old functions have the same summaries. -/
theorem BatchRun.output_eq_of_extends {a : Adder} {c : Config} {b : Batch}
    (hb : ∀ f ∈ b.functions, (p.function? f).isSome) {summary? other? : FuncId → Option Summary}
    (hsummary : ∀ f, (p.function? f).isSome → other? f = summary? f) {x x' : BatchRun}
    (hx : analyze c p b summary? a = .ok x) (hx' : analyze c p' b other? a = .ok x') :
    x'.output.decisions = x.output.decisions ∧ x'.output.summaries = x.output.summaries := by
  obtain ⟨built, hbuilt, rfl⟩ := analyze_eq_ok hx
  obtain ⟨built', hbuilt', rfl⟩ := analyze_eq_ok hx'
  have hcalls : ∀ f ∈ b.functions, ∀ decl, p.function? f = some decl → CallsOnly
      (fun g => b.functions.contains g = false → other? g = summary? g) (bodyExprs decl.stmts) := by
    intro f hf decl hdecl e he g hg _
    obtain ⟨decl', hdecl', hnamed⟩ := Program.Calls.named_or_made ⟨decl, hdecl, e, he, hg⟩
    exact hsummary g (hp.named f decl' hdecl' g hnamed)
  have hout := build_outcome h.offers b.functions
    ⟨c.preciseRecursiveCalls, 2 ≤ c.diagnosticLevel⟩ hcalls
  rw [hbuilt, hbuilt'] at hout
  obtain ⟨heq, ds, hds, -, hplaced⟩ := hout
  subst heq
  have hfunc : ∀ l f, (built'.graph.loc l).func = some f → (p.function? f).isSome := by
    intro l f hl
    obtain ⟨d, hd, rfl⟩ := hplaced.func hl
    obtain ⟨f, hf, hfd⟩ := mem_of_forall₂ hds hd
    rw [hp.indexed f d hfd]
    exact hb f hf
  have hsolve := Graph.solve_congr (outlives_congr fun k l f g _ hg =>
    h.containsClosure_eq hp f (hfunc l g hg)) a ⟨c.maxWalkRounds, 2 ≤ c.diagnosticLevel⟩
  unfold ofBuilt BatchGraph.output
  dsimp only
  rw [hsolve, List.filterMap_congr fun f hf => h.function?_eq (hb f hf)]
  exact ⟨rfl, rfl⟩

omit h hp in
/-- New functions have sites of their own. -/
theorem Batch.New.not_decides {b : Batch} (hb : b.New p) (h : p.Extends p') (hadds : p.AddsOwn p')
    (hp : p.Owned) {s : Site} (hs : p.HasSite s) : ¬ b.Decides p' s := by
  cases s with
  | var v =>
    rintro ⟨f, hf, decl, hdecl, hv⟩
    have hsome := hs.isSome_var? hp
    rw [hadds.declared f decl (hb f hf) hdecl v hv] at hsome
    cases hsome
  | alloc i =>
    rintro ⟨f, hf, decl, hdecl, e, he, hi⟩
    have hsome : (p.site? i).isSome := hs
    rw [h.allocs f decl (hb f hf) hdecl e he i hi] at hsome
    cases hsome

end

/-! ## Runs -/

namespace Analysis

/-- Two lists of batches bring the same for the functions and sites of a program. -/
structure SameOn (p : Program) (xs ys : List BatchRun) : Prop where
  summaries : ∀ f, (p.function? f).isSome →
    (ys.flatMap (·.output.summaries)).find? (·.func = f) =
      (xs.flatMap (·.output.summaries)).find? (·.func = f)
  decisions : ∀ s, p.HasSite s →
    (ys.flatMap (·.output.decisions)).filter (·.site = s) =
      (xs.flatMap (·.output.decisions)).filter (·.site = s)

namespace SameOn

variable {p : Program} {xs ys : List BatchRun}

theorem nil (p : Program) : SameOn p [] [] := ⟨fun _ _ => rfl, fun _ _ => rfl⟩

theorem append (h : SameOn p xs ys) {xs' ys' : List BatchRun} (h' : SameOn p xs' ys') :
    SameOn p (xs ++ xs') (ys ++ ys') where
  summaries f hf := by
    rw [List.flatMap_append, List.flatMap_append, List.find?_append, List.find?_append,
      h.summaries f hf, h'.summaries f hf]
  decisions s hs := by
    rw [List.flatMap_append, List.flatMap_append, List.filter_append, List.filter_append,
      h.decisions s hs, h'.decisions s hs]

theorem cons (h : SameOn p xs ys) {x y : BatchRun}
    (hout : y.output.decisions = x.output.decisions ∧ y.output.summaries = x.output.summaries) :
    SameOn p (x :: xs) (y :: ys) := by
  have hone : SameOn p [x] [y] := by
    constructor
    · intro f _
      rw [List.flatMap_singleton, List.flatMap_singleton, hout.2]
    · intro s _
      rw [List.flatMap_singleton, List.flatMap_singleton, hout.1]
  exact hone.append h

theorem cons_right (h : SameOn p xs ys) {y : BatchRun}
    (hsummaries : ∀ s ∈ y.output.summaries, p.function? s.func = none)
    (hdecisions : ∀ e ∈ y.output.decisions, ¬ p.HasSite e.site) : SameOn p xs (y :: ys) := by
  have hone : SameOn p [] [y] := by
    constructor
    · intro f hf
      rw [List.flatMap_singleton, List.flatMap_nil, List.find?_nil, List.find?_eq_none]
      intro s hmem hfunc
      rw [← of_decide_eq_true hfunc, hsummaries s hmem] at hf
      cases hf
    · intro s hs
      rw [List.flatMap_singleton, List.flatMap_nil, List.filter_nil, List.filter_eq_nil_iff]
      intro e hmem hsite
      exact hdecisions e hmem (of_decide_eq_true hsite ▸ hs)
  exact hone.append h

end SameOn

theorem summary?_foldl_absorb (r : Report) (runs : List BatchRun) (f : FuncId) :
    ((runs.map (·.output)).foldl Report.absorb r).summary? f =
      (r.summary? f).or ((runs.flatMap (·.output.summaries)).find? (·.func = f)) := by
  unfold Report.summary? SummaryStore.get?
  rw [Report.entries_foldl_absorb, List.find?_append, List.flatMap_map]

section

variable {p p' : Program} (h : p.Extends p') (hadds : p.AddsOwn p') (hp : p.SelfContained)
  (howned : p.Owned)

include h hadds hp howned

/-- New batches at the end of a wave do not show. -/
theorem sameOn_of_wave {a : Adder} {c : Config} {w new : List Batch}
    (hw : ∀ b ∈ w, ∀ f ∈ b.functions, (p.function? f).isSome) (hnew : ∀ b ∈ new, b.New p)
    {summary? other? : FuncId → Option Summary}
    (hsummary : ∀ f, (p.function? f).isSome → other? f = summary? f) {xs ys : List BatchRun}
    (hxs : List.Forall₂ (fun b x => BatchRun.analyze c p b summary? a = .ok x) w xs)
    (hys : List.Forall₂ (fun b y => BatchRun.analyze c p' b other? a = .ok y) (w ++ new) ys) :
    SameOn p xs ys := by
  induction hxs generalizing ys with
  | nil =>
    rw [List.nil_append] at hys
    induction hys with
    | nil => exact .nil p
    | @cons b y new ys hy _ ih =>
      have hb := hnew b List.mem_cons_self
      refine (ih fun b hb => hnew b (List.mem_cons_of_mem _ hb)).cons_right ?_ ?_
      · intro s hs
        refine hb s.func ?_
        rw [← (BatchRun.summarized_of_analyze (h.indexed hp.indexed hadds) hy).1]
        exact List.mem_map_of_mem hs
      · intro e he hsite
        exact hb.not_decides h hadds howned hsite
          ((BatchRun.mem_sites_of_analyze hy).1 (List.mem_map_of_mem he))
  | @cons b x w xs hx _ ih =>
    cases hys with
    | cons hy hys =>
      refine (ih (fun b hb => hw b (List.mem_cons_of_mem _ hb)) hys).cons ?_
      exact BatchRun.output_eq_of_extends h hp (hw b List.mem_cons_self) hsummary hx hy

/-- Going through waves, with new batches at the end of each in the longer program, brings the same
for what was there. -/
theorem Runs.sameOn {a : Adder} {c : Config} {ws ws' : List (List Batch)} {r r' e e' : Report}
    {xs ys : List BatchRun}
    (hws : List.Forall₂ (fun w w' => (∀ b ∈ w, ∀ f ∈ b.functions, (p.function? f).isSome) ∧
      ∃ new, w' = w ++ new ∧ ∀ b ∈ new, b.New p) ws ws')
    (hr : r.summarized.Nodup) (hr' : r'.summarized.Nodup)
    (hsummary : ∀ f, (p.function? f).isSome → r'.summary? f = r.summary? f)
    (hxs : Runs a c p r ws xs e) (hys : Runs a c p' r' ws' ys e') : SameOn p xs ys := by
  induction hws generalizing r r' xs ys with
  | nil =>
    cases hxs
    cases hys
    exact .nil p
  | cons hw _ ih =>
    obtain ⟨hw, new, rfl, hnew⟩ := hw
    cases hxs with
    | wave analyzed merged further =>
      cases hys with
      | wave analyzed' merged' further' =>
        have hsame := sameOn_of_wave h hadds hp howned hw hnew hsummary analyzed analyzed'
        obtain ⟨hnodup, rfl⟩ := (Report.foldlM_merge_eq_ok hr).1 merged
        obtain ⟨hnodup', rfl⟩ := (Report.foldlM_merge_eq_ok hr').1 merged'
        rw [← Report.summarized_foldl_absorb] at hnodup hnodup'
        refine hsame.append (ih hnodup hnodup' (fun f hf => ?_) further further')
        rw [summary?_foldl_absorb, summary?_foldl_absorb, hsummary f hf, hsame.summaries f hf]

end

/-- Empty waves can be added to a run. -/
theorem Runs.append_nils {a : Adder} {c : Config} {p : Program} {r e : Report}
    {ws : List (List Batch)} {xs : List BatchRun} (h : Runs a c p r ws xs e) (n : Nat) :
    Runs a c p r (ws ++ List.replicate n []) xs e := by
  induction h with
  | done r =>
    rw [List.nil_append]
    induction n with
    | zero => exact .done r
    | succ n ih => exact .wave .nil rfl ih
  | wave analyzed merged _ ih => exact .wave analyzed merged ih

end Analysis

namespace Plan

/-- The waves of a plan, and empty ones after them. -/
theorem map_wave_range {plan : Plan} {n : Nat} (h : plan.waveCount ≤ n) :
    (List.range n).map plan.wave = plan.waves ++ List.replicate (n - plan.waveCount) [] := by
  obtain ⟨k, rfl⟩ := Nat.exists_eq_add_of_le h
  rw [List.range_add, List.map_append, Nat.add_sub_cancel_left, List.map_map]
  congr 1
  rw [List.eq_replicate_iff]
  refine ⟨by rw [List.length_map, List.length_range], fun w hw => ?_⟩
  obtain ⟨i, -, rfl⟩ := List.mem_map.1 hw
  refine List.filter_eq_nil_iff.2 fun b hb hwave => ?_
  have hlt := wave_lt_waveCount hb
  rw [of_decide_eq_true hwave] at hlt
  exact Nat.not_lt.2 (Nat.le_add_right _ _) hlt

theorem waveCount_le_of_append {plan plan' : Plan} {more : List Batch}
    (h : plan'.batches = plan.batches ++ more) : plan.waveCount ≤ plan'.waveCount := by
  unfold waveCount
  rw [h, List.map_append, List.foldl_append]
  exact (le_foldl_max _ _).1

theorem wave_append {plan plan' : Plan} {more : List Batch}
    (h : plan'.batches = plan.batches ++ more) (w : Nat) :
    plan'.wave w = plan.wave w ++ more.filter (·.wave = w) := by
  unfold wave
  rw [h, List.filter_append]

end Plan

/-! ## Reports -/

namespace Report

theorem find?_insertDecision (d : Decision) (ds : List Decision) (s : Site) :
    (insertDecision d ds).find? (·.site = s) =
      if d.site = s then some d else ds.find? (·.site = s) := by
  have hcons (a : Decision) (ds : List Decision) : (a :: ds).find? (·.site = s) =
      if a.site = s then some a else ds.find? (·.site = s) := by
    rw [List.find?_cons]
    by_cases ha : a.site = s <;> simp [ha]
  induction ds with
  | nil => exact hcons d []
  | cons a ds ih =>
    unfold insertDecision
    split
    · next hsite =>
      rw [hcons, hcons, hsite]
      split <;> rfl
    · next hsite =>
      split
      · exact hcons d (a :: ds)
      · rw [hcons, hcons, ih]
        by_cases hd : d.site = s
        · rw [if_neg fun ha => hsite (ha.trans hd.symm), if_pos hd, if_pos hd]
        · rw [if_neg hd, if_neg hd]

/-- Of all decisions that are put in for a site the last one stays. -/
theorem find?_insertAll (xs ds : List Decision) (s : Site) :
    (insertAll xs ds).find? (·.site = s) =
      (xs.filter (·.site = s)).getLast?.or (ds.find? (·.site = s)) := by
  unfold insertAll
  induction xs generalizing ds with
  | nil => rfl
  | cons x xs ih =>
    rw [List.foldl_cons, ih, find?_insertDecision]
    by_cases hx : x.site = s
    · rw [if_pos hx, List.filter_cons_of_pos (by simpa using hx), List.getLast?_cons]
      cases (xs.filter (·.site = s)).getLast? <;> rfl
    · rw [if_neg hx, List.filter_cons_of_neg (by simpa using hx)]

end Report

namespace Program

/-- New globals have sites of their own. -/
theorem Extends.filter_globals {p p' : Program} (h : p.Extends p') (hadds : p.AddsOwn p')
    (hp : p.Owned) {s : Site} (hs : p.HasSite s) :
    (p'.globals.map Report.globalDecision).filter (·.site = s) =
      (p.globals.map Report.globalDecision).filter (·.site = s) := by
  obtain ⟨more, hmore⟩ := h.vars
  have hnew : ((more.toList.filter (·.isGlobal)).map Report.globalDecision).filter (·.site = s) =
      [] := by
    rw [List.filter_eq_nil_iff]
    intro e he hsite
    obtain ⟨x, hx, rfl⟩ := List.mem_map.1 he
    obtain rfl : Site.var x.id = s := of_decide_eq_true hsite
    obtain ⟨i, hi, hnone⟩ := exists_getElem?_append p.vars (List.mem_filter.1 hx).1
    rw [← hmore] at hi
    have hsome := hs.isSome_var? hp
    rw [hadds.vars ⟨i⟩ x hnone hi, show p.var? ⟨i⟩ = none from hnone] at hsome
    cases hsome
  unfold globals
  rw [hmore, Array.toList_append, List.filter_append, List.map_append, List.filter_append, hnew,
    List.append_nil]

end Program

/-- Code that is added to a program and that the program does not refer to changes nothing for it:
every function has the summary that it had, and every site the decision.  The longer program need
not be accepted, and its new closures may lie in each other, but what it adds must have handles and
variables of its own (`Program.AddsOwn`). -/
theorem report_eq_of_extends {d : Draft} (hd : d.Made) {p : Program} (hbuild : d.build = .ok p)
    (hn : p.Acyclic) {p' : Program} (h : p.Extends p') (hadds : p.AddsOwn p') (c : Config)
    {m m' : Machine} (hm : m'.adder = m.adder) {report report' : Report}
    (hr : (analyze c p m).result = .ok report) (hr' : (analyze c p' m').result = .ok report') :
    (∀ f, (p.function? f).isSome →
      ∃ x, report.summary? f = some x ∧ report'.summary? f = some x) ∧
    ∀ s, p.HasSite s → report'.decision? s = report.decision? s := by
  have howned := Draft.owned_of_build hd hbuild
  have hp := Draft.selfContained_of_build hd hbuild hn
  obtain ⟨more, hbatches, hmore⟩ :=
    h.exists_batches_append hp (h.indexed hp.indexed hadds)
  obtain ⟨xs, r, hxs, rfl⟩ := Analysis.runs_of_analyze hr
  obtain ⟨ys, r', hys, rfl⟩ := Analysis.runs_of_analyze hr'
  rw [hm] at hys
  have hsame : Analysis.SameOn p xs ys := by
    have hxs' := hxs.append_nils ((Plan.ofProgram p').waveCount - (Plan.ofProgram p).waveCount)
    rw [← Plan.map_wave_range (Plan.waveCount_le_of_append hbatches)] at hxs'
    have hnil : ({} : Report).summarized.Nodup := .nil
    refine Analysis.Runs.sameOn h hadds hp howned ?_ hnil hnil (fun _ _ => rfl) hxs' hys
    unfold Plan.waves
    rw [List.forall₂_map_left_iff, List.forall₂_map_right_iff, List.forall₂_same]
    intro w _
    refine ⟨fun b hb f hf => ?_, more.filter (·.wave = w), Plan.wave_append hbatches w,
      fun b hb => hmore b (List.mem_filter.1 hb).1⟩
    exact Plan.function?_of_mem_functions hp.indexed hp.nested (Plan.mem_wave.1 hb).1 hf
  constructor
  · intro f hf
    obtain ⟨b, hb, hfb⟩ := Plan.exists_batch hp.indexed hp.nested hf
    obtain ⟨x, hx⟩ := Option.isSome_iff_exists.1 (Analysis.isSome_summary? hp.indexed hr hb hfb)
    refine ⟨x, hx, ?_⟩
    rw [← hx]
    unfold Report.summary? SummaryStore.get?
    rw [Analysis.finish_summaries, Analysis.finish_summaries, hxs.entries_eq, hys.entries_eq]
    exact hsame.summaries f hf
  · intro s hs
    unfold Report.decision?
    rw [hxs.decisions_eq, hys.decisions_eq, Report.find?_insertAll, Report.find?_insertAll]
    unfold Analysis.emitted
    rw [List.filter_append, List.filter_append, hsame.decisions s hs,
      h.filter_globals hadds howned hs]

/-- A function that keeps its argument in a global, and uses new storage for itself only. -/
def keeper : Program where
  functions := #[
    { id := ⟨0⟩, name := "keep", params := [⟨1⟩],
      body := some [.assign1 (.ident ⟨0⟩) (.ident ⟨1⟩), .expr (.deref (.new ⟨0⟩))] }]
  vars := #[⟨⟨0⟩, "x", .globalVar, none⟩, ⟨⟨1⟩, "a", .param, some ⟨0⟩⟩]
  sites := #[⟨⟨0⟩, .new, ⟨0⟩⟩]

/-- The same with a caller, which has a closure that uses the global. -/
def keeperCalled : Program where
  functions := keeper.functions ++ #[
    { id := ⟨1⟩, name := "caller", body := some [.expr (.call (.funcRef ⟨0⟩) [.new ⟨1⟩])] },
    { id := ⟨2⟩, name := "inner", enclosing := some ⟨1⟩,
      body := some [.assign1 (.ident ⟨0⟩) (.new ⟨2⟩)] }]
  vars := keeper.vars
  sites := keeper.sites ++ #[⟨⟨1⟩, .new, ⟨1⟩⟩, ⟨⟨2⟩, .new, ⟨2⟩⟩]

theorem keeper_made : (⟨keeper, 0⟩ : Draft).Made := by
  have htables := (((Draft.Made.empty.global "x").function "keep").param ⟨0⟩ "a").new ⟨0⟩
  exact @Draft.Made.setBody _ _ htables ⟨0⟩
    [.assign1 (.ident ⟨0⟩) (.ident ⟨1⟩), .expr (.deref (.new ⟨0⟩))] rfl

theorem keeper_acyclic : keeper.Acyclic := by
  refine (Program.wellNested_of_lt fun f g hfg => ?_).acyclic
  match f with
  | ⟨0⟩ | ⟨i + 1⟩ => cases hfg

theorem keeper_extends : keeper.Extends keeperCalled where
  functions := ⟨_, rfl⟩
  vars := ⟨#[], rfl⟩
  sites := ⟨_, rfl⟩
  enclosing := by
    rintro ⟨i⟩ g hf hfg
    match i with
    | 0 => cases hf
    | 1 => cases hfg
    | 2 =>
      cases hfg
      rfl
    | i + 3 => cases hfg
  allocs := by
    have hsites : ∀ (decl : Function) (i j : SiteId),
        (bodyExprs decl.stmts).filterMap Expr.allocSite? = [j] → ∀ e ∈ bodyExprs decl.stmts,
        e.allocSite? = some i → i = j := by
      intro decl i j hdecl e he hi
      exact List.mem_singleton.1 (hdecl ▸ List.mem_filterMap.2 ⟨e, he, hi⟩)
    rintro ⟨k⟩ decl hf hdecl e he i hi
    match k with
    | 0 => cases hf
    | 1 =>
      cases hdecl
      rw [hsites _ i ⟨1⟩ (by cbv) e he hi]
      rfl
    | 2 =>
      cases hdecl
      rw [hsites _ i ⟨2⟩ (by cbv) e he hi]
      rfl
    | k + 3 => cases hdecl

theorem keeper_addsOwn : keeper.AddsOwn keeperCalled where
  functions := by
    rintro ⟨k⟩ decl hf hdecl
    match k with
    | 0 => cases hf
    | 1 | 2 =>
      cases hdecl
      rfl
    | k + 3 => cases hdecl
  vars v x hv hx := by
    rw [show keeperCalled.var? v = keeper.var? v from rfl, hv] at hx
    cases hx
  declared := by
    rintro ⟨k⟩ decl hf hdecl v hv
    match k with
    | 0 => cases hf
    | 1 | 2 =>
      cases hdecl
      cases hv
    | k + 3 => cases hdecl

theorem report_eq_of_extends_keeper :
    ∃ (report report' : Report) (x : Summary),
      (⟨keeper, 0⟩ : Draft).Made ∧ (⟨keeper, 0⟩ : Draft).build = .ok keeper ∧ keeper.Acyclic ∧
      keeper.Extends keeperCalled ∧ keeper.AddsOwn keeperCalled ∧
      (analyze (Config.ofPreset .custom) keeper).result = .ok report ∧
      (analyze (Config.ofPreset .custom) keeperCalled).result = .ok report' ∧
      report.summary? ⟨0⟩ = some x ∧ report'.summary? ⟨0⟩ = some x ∧
      (report.decision? (.alloc ⟨0⟩)).map (·.isHeap) = some false ∧
      report'.decision? (.alloc ⟨0⟩) = report.decision? (.alloc ⟨0⟩) := by
  have hbuild : (⟨keeper, 0⟩ : Draft).build = .ok keeper := by cbv
  have hreport : (analyze (Config.ofPreset .custom) keeper).result.map
      (fun report => (report.decision? (.alloc ⟨0⟩)).map (·.isHeap)) = .ok (some false) := by cbv
  have hreport' : (analyze (Config.ofPreset .custom) keeperCalled).result.map (fun _ => ()) =
      .ok () := by cbv
  obtain ⟨report, hreport, hstack⟩ := exists_of_map_eq_ok hreport
  obtain ⟨report', hreport', -⟩ := exists_of_map_eq_ok hreport'
  obtain ⟨hsummary, hdecision⟩ := report_eq_of_extends keeper_made hbuild keeper_acyclic
    keeper_extends keeper_addsOwn _ rfl hreport hreport'
  obtain ⟨x, hx, hx'⟩ := hsummary ⟨0⟩ rfl
  exact ⟨report, report', x, keeper_made, hbuild, keeper_acyclic, keeper_extends, keeper_addsOwn,
    hreport, hreport', hx, hx', hstack, hdecision (.alloc ⟨0⟩) rfl⟩

/-- A function that hands the address of its variable to one that looks at what is there. -/
def lender : Program where
  functions := #[
    { id := ⟨0⟩, name := "lend", locals := [⟨0⟩],
      body := some [.expr (.call (.funcRef ⟨1⟩) [.addrOf (.ident ⟨0⟩)])] },
    { id := ⟨1⟩, name := "look", params := [⟨1⟩], body := some [.expr (.deref (.ident ⟨1⟩))] }]
  vars := #[⟨⟨0⟩, "x", .localVar, some ⟨0⟩⟩, ⟨⟨1⟩, "a", .param, some ⟨1⟩⟩]

/-- The same with top-level functions and variables after its own. -/
def lenderWith (functions : List Function) (vars : List Variable) : Program where
  functions := lender.functions ++ functions.toArray
  vars := lender.vars ++ vars.toArray

/-- The new function calls the first, has its variable among its own and returns the address. -/
def lenderRobbed : Program :=
  lenderWith
    [{ id := ⟨2⟩, name := "rob", results := [⟨2⟩], locals := [⟨0⟩],
       body := some [.expr (.call (.funcRef ⟨0⟩) []), .ret [.addrOf (.ident ⟨0⟩)]] }]
    [⟨⟨2⟩, "r", .result, some ⟨2⟩⟩]

/-- The new global has the handle of the variable. -/
def lenderHidden : Program := lenderWith [] [⟨⟨0⟩, "x", .globalVar, none⟩]

/-- The new function has the handle of the first and calls nothing. -/
def lenderReplaced : Program := lenderWith [{ id := ⟨0⟩, name := "lend", body := some [] }] []

theorem lender_made : (⟨lender, 0⟩ : Draft).Made := by
  have htables := (((Draft.Made.empty.function "lend").function "look").localVar ⟨0⟩ "x").param
    ⟨1⟩ "a"
  have hlend := @Draft.Made.setBody _ _ htables ⟨0⟩
    [.expr (.call (.funcRef ⟨1⟩) [.addrOf (.ident ⟨0⟩)])] rfl
  exact @Draft.Made.setBody _ _ hlend ⟨1⟩ [.expr (.deref (.ident ⟨1⟩))] rfl

theorem lender_acyclic : lender.Acyclic := by
  refine (Program.wellNested_of_lt fun f g hfg => ?_).acyclic
  match f with
  | ⟨0⟩ | ⟨1⟩ | ⟨i + 2⟩ => cases hfg

theorem lenderWith_function? {functions : List Function} {vars : List Variable} {f : FuncId}
    {decl : Function} (hf : lender.function? f = none)
    (hdecl : (lenderWith functions vars).function? f = some decl) : decl ∈ functions := by
  unfold Program.function? at hf hdecl
  rw [lenderWith, Array.getElem?_append_right (Array.getElem?_eq_none_iff.1 hf)] at hdecl
  exact List.mem_toArray.1 (Array.mem_of_getElem? hdecl)

theorem lender_extends {functions : List Function} (vars : List Variable)
    (htop : ∀ decl ∈ functions, decl.enclosing = none)
    (hallocs : ∀ decl ∈ functions, (bodyExprs decl.stmts).filterMap Expr.allocSite? = []) :
    lender.Extends (lenderWith functions vars) where
  functions := ⟨_, rfl⟩
  vars := ⟨_, rfl⟩
  sites := ⟨#[], rfl⟩
  enclosing f g hf hfg := by
    obtain ⟨decl, hdecl, hg⟩ := Option.bind_eq_some_iff.1 hfg
    rw [htop decl (lenderWith_function? hf hdecl)] at hg
    cases hg
  allocs f decl hf hdecl e he i hi := by
    have hmem := List.mem_filterMap.2 ⟨e, he, hi⟩
    rw [hallocs decl (lenderWith_function? hf hdecl)] at hmem
    cases hmem

theorem lenderRobbed_extends : lender.Extends lenderRobbed :=
  lender_extends _ (by decide) (by intro d hd; cases List.mem_singleton.1 hd; cbv)

theorem lenderHidden_extends : lender.Extends lenderHidden :=
  lender_extends _ (by decide) (by decide)

theorem lenderReplaced_extends : lender.Extends lenderReplaced :=
  lender_extends _ (by decide) (by decide)

/-- Where what is added does not have handles and variables of its own, a decision can be replaced:
by a function that decides on a variable of another, by a global that has the handle of a variable,
or by a function that has the handle of another and takes its place in the call graph, so that the
callee comes too late. -/
theorem decision_replaced :
    (⟨lender, 0⟩ : Draft).Made ∧ (⟨lender, 0⟩ : Draft).build = .ok lender ∧ lender.Acyclic ∧
      lender.HasSite (.var ⟨0⟩) ∧
      ((analyze (Config.ofPreset .custom) lender).result.map
        fun report => (report.decision? (.var ⟨0⟩)).map (·.isHeap)) = .ok (some false) ∧
      ∀ q ∈ [lenderRobbed, lenderHidden, lenderReplaced], lender.Extends q ∧
        ((analyze (Config.ofPreset .custom) q).result.map
          fun report => (report.decision? (.var ⟨0⟩)).map (·.isHeap)) = .ok (some true) := by
  refine ⟨lender_made, by cbv, lender_acyclic, .inl ⟨⟨0⟩, _, rfl, List.mem_cons_self⟩, by cbv, ?_⟩
  rw [List.forall_mem_cons, List.forall_mem_cons, List.forall_mem_singleton]
  exact ⟨⟨lenderRobbed_extends, by cbv⟩, ⟨lenderHidden_extends, by cbv⟩,
    ⟨lenderReplaced_extends, by cbv⟩⟩

end EscapeFlow
