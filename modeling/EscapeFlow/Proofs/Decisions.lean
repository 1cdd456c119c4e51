import EscapeFlow.Proofs.AnalysisRun
import EscapeFlow.Proofs.Batches
import EscapeFlow.Proofs.DraftTables
import Mathlib

/-!
# The decisions in a report

A report keeps its decisions in the order of their sites, one for each site, and a later
decision takes the place of an earlier one:

    InOrder ds → (e ∈ insertDecision d ds ↔ e = d ∨ e ∈ ds ∧ e.site ≠ d.site)  (mem_insertDecision)

So a report has one decision for each site that some batch decides and for each global, and no
other.  The sites of a batch are the variables that its functions declare and the allocations
in their bodies (`Batch.Decides`).  Variables belong to one function, and a function to one
batch, so the decision for a variable is never replaced.  An allocation that occurs in the
bodies of two batches is decided by both, the later decision replaces the earlier one, and both
are counted.  Nothing is lost and all counts are right exactly if there is no such allocation
(`report_decisions`).
-/

namespace EscapeFlow

namespace Site

theorem le_antisymm {a b : Site} (h : a.le b = true) (h' : b.le a = true) : a = b := by
  cases a <;> cases b <;> simp only [le, decide_eq_true_eq] at h h'
  · exact congrArg (Site.var ∘ VarId.mk) (Nat.le_antisymm h h')
  · cases h'
  · cases h
  · exact congrArg (Site.alloc ∘ SiteId.mk) (Nat.le_antisymm h h')

theorem le_trans {a b c : Site} (h : a.le b = true) (h' : b.le c = true) : a.le c = true := by
  cases a <;> cases b <;> cases c <;> simp only [le, decide_eq_true_eq] at h h' ⊢ <;> first
    | omega
    | contradiction

theorem le_of_not_le {a b : Site} (h : ¬ a.le b = true) : b.le a = true := by
  cases a <;> cases b <;> simp only [le, decide_eq_true_eq] at h ⊢ <;> first
    | omega
    | contradiction

end Site

/-! ## Putting decisions in -/

namespace Report

/-- The decisions are in the order of their sites, none of which has two. -/
def InOrder (ds : List Decision) : Prop :=
  ds.Pairwise fun a b => a.site.le b.site = true ∧ a.site ≠ b.site

variable {d e : Decision} {ds xs : List Decision}

theorem length_eq_counts (ds : List Decision) :
    ds.length = ds.countP (·.isHeap) + ds.countP (!·.isHeap) := by
  rw [ds.length_eq_countP_add_countP (·.isHeap)]
  simp

theorem InOrder.nodup (h : InOrder ds) : (ds.map (·.site)).Nodup :=
  List.pairwise_map.2 (List.Pairwise.imp (fun hab => hab.2) h)

/-- The new decision takes the place of that for the same site. -/
theorem mem_insertDecision (h : InOrder ds) :
    e ∈ insertDecision d ds ↔ e = d ∨ e ∈ ds ∧ e.site ≠ d.site := by
  induction ds with
  | nil => simp [insertDecision]
  | cons a ds ih =>
    obtain ⟨ha, hds⟩ := List.pairwise_cons.1 h
    unfold insertDecision
    split
    · next hsite =>
      -- the sites behind are not that of `a`, which is that of `d`
      have hne : ∀ x ∈ ds, x.site ≠ d.site := fun x hx heq => (ha x hx).2 (hsite.trans heq.symm)
      rw [List.mem_cons, List.mem_cons]
      constructor
      · rintro (rfl | he)
        · exact .inl rfl
        · exact .inr ⟨.inr he, hne e he⟩
      · rintro (rfl | ⟨rfl | he, hne⟩)
        · exact .inl rfl
        · exact absurd hsite hne
        · exact .inr he
    · next hsite =>
      split
      · next hle =>
        -- the sites behind come after that of `a` and so after that of `d`
        have hne : ∀ x ∈ a :: ds, x.site ≠ d.site := by
          intro x hx heq
          rcases List.mem_cons.1 hx with rfl | hx
          · exact hsite heq
          · rw [← heq] at hle
            exact (ha x hx).2 (Site.le_antisymm (ha x hx).1 hle)
        rw [List.mem_cons]
        constructor
        · exact fun he => he.imp id fun he => ⟨he, hne e he⟩
        · exact fun he => he.imp id And.left
      · rw [List.mem_cons, List.mem_cons, ih hds]
        constructor
        · rintro (rfl | rfl | ⟨he, hne⟩)
          · exact .inr ⟨.inl rfl, hsite⟩
          · exact .inl rfl
          · exact .inr ⟨.inr he, hne⟩
        · rintro (rfl | ⟨rfl | he, hne⟩)
          · exact .inr (.inl rfl)
          · exact .inl rfl
          · exact .inr (.inr ⟨he, hne⟩)

theorem inOrder_insertDecision (h : InOrder ds) : InOrder (insertDecision d ds) := by
  induction ds with
  | nil => exact List.pairwise_singleton _ _
  | cons a ds ih =>
    obtain ⟨ha, hds⟩ := List.pairwise_cons.1 h
    unfold insertDecision
    split
    · next hsite => exact List.pairwise_cons.2 ⟨fun x hx => hsite ▸ ha x hx, hds⟩
    · next hsite =>
      split
      · next hle =>
        refine List.pairwise_cons.2 ⟨fun x hx => ?_, h⟩
        rcases List.mem_cons.1 hx with rfl | hx
        · exact ⟨hle, fun heq => hsite heq.symm⟩
        · refine ⟨Site.le_trans hle (ha x hx).1, fun heq => ?_⟩
          rw [heq] at hle
          exact (ha x hx).2 (Site.le_antisymm (ha x hx).1 hle)
      · next hle =>
        refine List.pairwise_cons.2 ⟨fun x hx => ?_, ih hds⟩
        rcases (mem_insertDecision hds).1 hx with rfl | ⟨hx, -⟩
        · exact ⟨Site.le_of_not_le hle, hsite⟩
        · exact ha x hx

theorem inOrder_insertAll (h : InOrder ds) : InOrder (insertAll xs ds) := by
  unfold insertAll
  induction xs generalizing ds with
  | nil => exact h
  | cons x xs ih => exact ih (inOrder_insertDecision h)

theorem of_mem_insertAll (h : InOrder ds) (he : e ∈ insertAll xs ds) : e ∈ ds ∨ e ∈ xs := by
  unfold insertAll at he
  induction xs generalizing ds with
  | nil => exact .inl he
  | cons x xs ih =>
    rcases ih (inOrder_insertDecision h) he with he | he
    · rcases (mem_insertDecision h).1 he with rfl | ⟨he, -⟩
      · exact .inr List.mem_cons_self
      · exact .inl he
    · exact .inr (List.mem_cons_of_mem _ he)

/-- Decisions may be replaced, but sites stay decided. -/
theorem mem_sites_insertAll (h : InOrder ds) {s : Site} :
    s ∈ (insertAll xs ds).map (·.site) ↔ s ∈ ds.map (·.site) ∨ s ∈ xs.map (·.site) := by
  unfold insertAll
  induction xs generalizing ds with
  | nil => simp
  | cons x xs ih =>
    have hinsert : s ∈ (insertDecision x ds).map (·.site) ↔ s = x.site ∨ s ∈ ds.map (·.site) := by
      simp only [List.mem_map, mem_insertDecision h]
      constructor
      · rintro ⟨e, rfl | ⟨he, -⟩, rfl⟩
        · exact .inl rfl
        · exact .inr ⟨e, he, rfl⟩
      · rintro (rfl | ⟨e, he, rfl⟩)
        · exact ⟨x, .inl rfl, rfl⟩
        · by_cases hsite : e.site = x.site
          · exact ⟨x, .inl rfl, hsite.symm⟩
          · exact ⟨e, .inr ⟨he, hsite⟩, rfl⟩
    rw [List.foldl_cons, ih (inOrder_insertDecision h), hinsert, List.map_cons, List.mem_cons]
    tauto

/-- A decision stays if no other is put in for its site. -/
theorem mem_insertAll_of_unique (he : e ∈ xs) (hunique : ∀ x ∈ xs, x.site = e.site → x = e) :
    e ∈ insertAll xs [] := by
  obtain ⟨x, hx, hsite⟩ := List.mem_map.1
    ((mem_sites_insertAll .nil).2 (.inr (List.mem_map.2 ⟨e, he, rfl⟩)))
  have hmem := (of_mem_insertAll .nil hx).resolve_left List.not_mem_nil
  exact hunique x hmem hsite ▸ hx

/-- Nothing is replaced if and only if there are as many decisions as were put in. -/
theorem insertAll_tfae (xs : List Decision) : List.TFAE [
    (xs.map (·.site)).Nodup,
    (insertAll xs []).Perm xs,
    xs.length ≤ (insertAll xs []).length] := by
  have horder : InOrder (insertAll xs []) := inOrder_insertAll .nil
  tfae_have 1 → 2 := by
    intro hnodup
    rw [List.perm_ext_iff_of_nodup horder.nodup.of_map hnodup.of_map]
    intro e
    constructor
    · exact fun he => (of_mem_insertAll .nil he).resolve_left List.not_mem_nil
    · exact fun he => mem_insertAll_of_unique he fun x hx hsite =>
        List.inj_on_of_nodup_map hnodup hx he hsite
  tfae_have 2 → 3 := fun hperm => hperm.length_eq.ge
  tfae_have 3 → 1 := by
    intro hlength
    -- the sites of the result are among those put in, without repetition, and no fewer
    have hsubperm : ((insertAll xs []).map (·.site)).Subperm (xs.map (·.site)) := by
      refine List.subperm_of_subset horder.nodup fun s hs => ?_
      exact ((mem_sites_insertAll .nil).1 hs).resolve_left List.not_mem_nil
    have hperm := hsubperm.perm_of_length_le (by simpa using hlength)
    exact hperm.nodup_iff.1 horder.nodup
  tfae_finish

end Report

/-! ## What the batches decide -/

/-- The batch has a decision to make for the site. -/
def Batch.Decides (p : Program) (b : Batch) : Site → Prop
  | .var v => ∃ f ∈ b.functions, ∃ decl, p.function? f = some decl ∧ v ∈ decl.declared
  | .alloc i => ∃ f ∈ b.functions, ∃ decl, p.function? f = some decl ∧
      ∃ x ∈ bodyExprs decl.stmts, x.allocSite? = some i

theorem exists_mem_iff_of_forall₂ {p : Program} {fs : List FuncId} {ds : List Function}
    (h : List.Forall₂ (fun f d => p.function? f = some d) fs ds) {P : Function → Prop} :
    (∃ d ∈ ds, P d) ↔ ∃ f ∈ fs, ∃ d, p.function? f = some d ∧ P d := by
  constructor
  · rintro ⟨d, hd, hP⟩
    obtain ⟨f, hf, hfd⟩ := mem_of_forall₂ h hd
    exact ⟨f, hf, d, hfd, hP⟩
  · rintro ⟨f, hf, d, hfd, hP⟩
    exact ⟨d, mem_of_forall₂_left h hf hfd, hP⟩

namespace BatchRun

variable {a : Adder} {c : Config} {p : Program} {b : Batch} {summary? : FuncId → Option Summary}
  {x : BatchRun}

/-- A batch makes the decisions it has to make. -/
theorem mem_sites_of_analyze (h : analyze c p b summary? a = .ok x) {s : Site} :
    s ∈ x.output.decisions.map (·.site) ↔ b.Decides p s := by
  obtain ⟨ds, is, hds, hsites, -, -, his⟩ := analyze_sites h
  rw [hsites, List.mem_append, List.mem_map, List.mem_map]
  cases s with
  | var v =>
    rw [Batch.Decides, ← exists_mem_iff_of_forall₂ hds, ← List.mem_flatMap]
    constructor
    · rintro (⟨w, hw, heq⟩ | ⟨i, -, heq⟩)
      · cases heq
        exact hw
      · cases heq
    · exact fun hv => .inl ⟨v, hv, rfl⟩
  | alloc i =>
    have hi : i ∈ is ↔ ∃ d ∈ ds, ∃ x ∈ bodyExprs d.stmts, x.allocSite? = some i := by
      rw [← Multiset.mem_coe, his]
      unfold allocSites
      rw [Multiset.mem_coe, List.mem_filterMap]
      simp only [List.mem_flatMap]
      constructor
      · rintro ⟨x, ⟨d, hd, hx⟩, heq⟩
        exact ⟨d, hd, x, hx, heq⟩
      · rintro ⟨d, hd, x, hx, heq⟩
        exact ⟨x, ⟨d, hd, hx⟩, heq⟩
    rw [Batch.Decides, ← exists_mem_iff_of_forall₂ hds, ← hi]
    constructor
    · rintro (⟨v, -, heq⟩ | ⟨j, hj, heq⟩)
      · cases heq
      · cases heq
        exact hj
    · exact fun hi => .inr ⟨i, hi, rfl⟩

/-- A batch counts the decisions it makes. -/
theorem stats_of_analyze (h : analyze c p b summary? a = .ok x) :
    x.output.stats.heapSites = x.output.decisions.countP (·.isHeap) ∧
      x.output.stats.stackSites = x.output.decisions.countP (!·.isHeap) := by
  obtain ⟨built, -, rfl⟩ := analyze_eq_ok h
  exact ⟨rfl, rfl⟩

end BatchRun

/-- No site is decided by both batches. -/
def BatchRun.Apart (x y : BatchRun) : Prop :=
  ∀ e ∈ x.output.decisions, ∀ e' ∈ y.output.decisions, e.site ≠ e'.site

/-- No allocation occurs in the bodies of two batches. -/
def Plan.AllocationsApart (p : Program) : Prop :=
  ∀ b ∈ (ofProgram p).batches, ∀ b' ∈ (ofProgram p).batches, b ≠ b' →
    ∀ i, b.Decides p (.alloc i) → ¬ b'.Decides p (.alloc i)

/-! ## What the report holds -/

namespace Analysis

/-- All decisions made for a program: those of its batches and those for the globals. -/
def emitted (p : Program) (runs : List BatchRun) : List Decision :=
  runs.flatMap (·.output.decisions) ++ p.globals.map Report.globalDecision

namespace Runs

variable {a : Adder} {c : Config} {p : Program} {ws : List (List Batch)} {runs : List BatchRun}
  {r : Report}

theorem decisions_eq (h : Runs a c p {} ws runs r) :
    (finish p r).decisions = Report.insertAll (emitted p runs) [] := by
  obtain ⟨rfl, -⟩ := h.report_eq .nil
  unfold finish emitted
  rw [Report.decideGlobals_eq, Report.decisions_foldl_absorb, List.flatMap_map]
  exact List.foldl_append.symm

theorem total_stats {count : Stats → Nat} {P : Decision → Bool} {runs : List BatchRun}
    (hP : ∀ x ∈ runs, count x.output.stats = x.output.decisions.countP P) :
    total (fun o : BatchOutput => count o.stats) (runs.map (·.output)) =
      (runs.flatMap (·.output.decisions)).countP P := by
  induction runs with
  | nil => rfl
  | cons x xs ih =>
    rw [List.map_cons, total, List.flatMap_cons, List.countP_append, hP x List.mem_cons_self,
      ih fun y hy => hP y (List.mem_cons_of_mem _ hy)]

theorem sum_stats (h : Runs a c p {} ws runs r) (count : Stats → Nat)
    (hcount : ∀ s t, count (s.merge t) = count s + count t) (hzero : count {} = 0)
    {P : Decision → Bool} (hP : ∀ x ∈ runs, count x.output.stats = x.output.decisions.countP P) :
    count r.stats = (runs.flatMap (·.output.decisions)).countP P := by
  obtain ⟨rfl, -⟩ := h.report_eq .nil
  rw [Report.stats_foldl_absorb hcount, total_stats hP]
  show count {} + _ = _
  rw [hzero, Nat.zero_add]

/-- The counts are those of all decisions made. -/
theorem stats_eq (h : Runs a c p {} ws runs r) :
    (finish p r).stats.heapSites = (emitted p runs).countP (·.isHeap) ∧
      (finish p r).stats.stackSites = (emitted p runs).countP (!·.isHeap) := by
  have hheap := h.sum_stats (·.heapSites) (fun _ _ => rfl) rfl fun x hx =>
    (h.exists_analyze hx).elim fun _ hx => (BatchRun.stats_of_analyze hx).1
  have hstack := h.sum_stats (·.stackSites) (fun _ _ => rfl) rfl fun x hx =>
    (h.exists_analyze hx).elim fun _ hx => (BatchRun.stats_of_analyze hx).2
  have hglobal : (p.globals.map Report.globalDecision).countP (·.isHeap) = p.globals.length := by
    rw [List.countP_map]
    exact congrFun List.countP_true _
  have hglobal' : (p.globals.map Report.globalDecision).countP (!·.isHeap) = 0 := by
    rw [List.countP_map]
    exact congrFun List.countP_false _
  unfold finish emitted
  rw [Report.decideGlobals_eq, List.countP_append, List.countP_append, hglobal, hglobal',
    ← hheap, ← hstack]
  exact ⟨rfl, rfl⟩

theorem mem_sites (h : Runs a c p {} ws runs r) {x : BatchRun} (hx : x ∈ runs) {s : Site} :
    s ∈ x.output.decisions.map (·.site) ↔ x.batch.Decides p s := by
  obtain ⟨summary?, hx⟩ := h.exists_analyze hx
  exact BatchRun.mem_sites_of_analyze hx

/-- Sites are decided by batches of the plan, or are those of globals. -/
theorem mem_sites_emitted (h : Runs a c p {} (Plan.ofProgram p).waves runs r) {s : Site} :
    s ∈ (emitted p runs).map (·.site) ↔
      (∃ b ∈ (Plan.ofProgram p).batches, b.Decides p s) ∨ ∃ x ∈ p.globals, s = .var x.id := by
  unfold emitted
  rw [List.map_append, List.mem_append, List.map_flatMap, List.mem_flatMap, List.map_map]
  refine or_congr ?_ ?_
  · constructor
    · rintro ⟨x, hx, hs⟩
      have hb : x.batch ∈ (Plan.ofProgram p).waves.flatten :=
        h.map_batch ▸ List.mem_map.2 ⟨x, hx, rfl⟩
      exact ⟨x.batch, Plan.mem_flatten_waves.1 hb, (h.mem_sites hx).1 hs⟩
    · rintro ⟨b, hb, hs⟩
      rw [← Plan.mem_flatten_waves, ← h.map_batch] at hb
      obtain ⟨x, hx, rfl⟩ := List.mem_map.1 hb
      exact ⟨x, hx, (h.mem_sites hx).2 hs⟩
  · rw [List.mem_map]
    constructor
    · rintro ⟨x, hx, rfl⟩
      exact ⟨x, hx, rfl⟩
    · rintro ⟨x, hx, rfl⟩
      exact ⟨x, hx, rfl⟩

/-- No function is in two batches, or the second summary would not have been taken. -/
theorem pairwise_functions (hp : p.Indexed) (h : Runs a c p {} ws runs r) :
    runs.Pairwise fun x y => List.Disjoint x.batch.functions y.batch.functions := by
  have hnodup := (h.report_eq .nil).2
  rw [h.summarized_eq hp, ← h.map_batch, List.flatMap_map, List.nodup_flatMap] at hnodup
  exact hnodup.2

variable (hp : p.Owned)

include hp

/-- No variable is decided by two batches. -/
theorem pairwise_vars (h : Runs a c p {} ws runs r) :
    runs.Pairwise fun x y =>
      ∀ v, x.batch.Decides p (.var v) → ¬ y.batch.Decides p (.var v) := by
  refine (h.pairwise_functions hp.functions).imp ?_
  rintro x y hdisjoint v ⟨f, hf, decl, hdecl, hv⟩ ⟨g, hg, decl', hdecl', hv'⟩
  obtain rfl := hp.declared_unique hdecl hdecl' hv hv'
  exact hdisjoint hf hg

theorem not_decides_global (b : Batch) {x : Variable} (hx : x ∈ p.globals) :
    ¬ b.Decides p (.var x.id) := by
  rintro ⟨f, -, decl, hdecl, hv⟩
  exact hp.not_declared_of_global hx hdecl hv

theorem nodup_emitted_iff (h : Runs a c p {} ws runs r) :
    ((emitted p runs).map (·.site)).Nodup ↔ runs.Pairwise BatchRun.Apart := by
  have hglobals : (p.globals.map Report.globalDecision).map (·.site) =
      (p.globals.map (·.id)).map .var := by
    rw [List.map_map, List.map_map]
    rfl
  unfold emitted
  rw [List.map_append, List.map_flatMap, hglobals, List.nodup_append, List.nodup_flatMap]
  have hapart : ∀ x y : BatchRun, x.Apart y ↔ List.Disjoint
      (x.output.decisions.map (·.site)) (y.output.decisions.map (·.site)) := by
    intro x y
    constructor
    · intro hxy s hs hs'
      obtain ⟨e, he, rfl⟩ := List.mem_map.1 hs
      obtain ⟨e', he', heq⟩ := List.mem_map.1 hs'
      exact hxy e he e' he' heq.symm
    · intro hxy e he e' he' heq
      exact hxy (List.mem_map.2 ⟨e, he, rfl⟩) (List.mem_map.2 ⟨e', he', heq.symm⟩)
  constructor
  · rintro ⟨⟨-, hpair⟩, -⟩
    exact hpair.imp fun hxy => (hapart _ _).2 hxy
  · intro hpair
    refine ⟨⟨?_, hpair.imp fun hxy => (hapart _ _).1 hxy⟩, ?_, ?_⟩
    · intro x hx
      obtain ⟨summary?, hx⟩ := h.exists_analyze hx
      exact BatchRun.nodup_sites hx
    · exact hp.nodup_globals.map fun _ _ => Site.var.inj
    · rintro s hs _ hs' rfl
      obtain ⟨x, hx, hs⟩ := List.mem_flatMap.1 hs
      obtain ⟨_, hv, rfl⟩ := List.mem_map.1 hs'
      obtain ⟨y, hy, rfl⟩ := List.mem_map.1 hv
      exact not_decides_global hp x.batch hy ((h.mem_sites hx).1 hs)

/-- The decision for a variable is the only one for its site. -/
theorem emitted_var_unique (h : Runs a c p {} ws runs r) {e e' : Decision} {v : VarId}
    (he : e ∈ emitted p runs) (he' : e' ∈ emitted p runs) (hv : e.site = .var v)
    (hv' : e'.site = .var v) : e' = e := by
  have hruns : ∀ {a}, a ∈ runs.flatMap (·.output.decisions) → a.site = .var v →
      ∃ x ∈ runs, a ∈ x.output.decisions ∧ x.batch.Decides p (.var v) := by
    intro a ha hav
    obtain ⟨x, hx, ha⟩ := List.mem_flatMap.1 ha
    exact ⟨x, hx, ha, (h.mem_sites hx).1 (List.mem_map.2 ⟨a, ha, hav⟩)⟩
  have hglobals : ∀ {a}, a ∈ p.globals.map Report.globalDecision → a.site = .var v →
      ∃ y ∈ p.globals, a = Report.globalDecision y ∧ y.id = v := by
    intro a ha hav
    obtain ⟨y, hy, rfl⟩ := List.mem_map.1 ha
    exact ⟨y, hy, rfl, Site.var.inj hav⟩
  rcases List.mem_append.1 he with he | he <;> rcases List.mem_append.1 he' with he' | he'
  · obtain ⟨x, hx, he, hdec⟩ := hruns he hv
    obtain ⟨y, hy, he', hdec'⟩ := hruns he' hv'
    have hsymm : Std.Symm fun x y : BatchRun =>
        ∀ v, x.batch.Decides p (.var v) → ¬ y.batch.Decides p (.var v) :=
      ⟨fun x y hxy v hy hx => hxy v hx hy⟩
    obtain rfl : x = y := by
      by_contra hne
      exact (h.pairwise_vars hp).forall hx hy hne v hdec hdec'
    obtain ⟨summary?, hx⟩ := h.exists_analyze hx
    exact List.inj_on_of_nodup_map (BatchRun.nodup_sites hx) he' he (hv'.trans hv.symm)
  · obtain ⟨x, -, -, hdec⟩ := hruns he hv
    obtain ⟨y, hy, -, rfl⟩ := hglobals he' hv'
    exact absurd hdec (not_decides_global hp _ hy)
  · obtain ⟨y, hy, -, rfl⟩ := hglobals he hv
    obtain ⟨x, -, -, hdec⟩ := hruns he' hv'
    exact absurd hdec (not_decides_global hp _ hy)
  · obtain ⟨y, -, rfl, hy⟩ := hglobals he hv
    obtain ⟨y', -, rfl, hy'⟩ := hglobals he' hv'
    unfold Report.globalDecision
    rw [hy, hy']

/-- Batches share a site only if they share an allocation. -/
theorem pairwise_apart_iff (h : Runs a c p {} (Plan.ofProgram p).waves runs r) :
    runs.Pairwise BatchRun.Apart ↔ Plan.AllocationsApart p := by
  have hbatch : (runs.map (·.batch)).Perm (Plan.ofProgram p).batches := by
    rw [h.map_batch]
    exact Plan.flatten_waves_perm p
  constructor
  · intro hpair b hb b' hb' hne i hi hi'
    obtain ⟨x, hx, rfl⟩ := List.mem_map.1 (hbatch.mem_iff.2 hb)
    obtain ⟨y, hy, rfl⟩ := List.mem_map.1 (hbatch.mem_iff.2 hb')
    obtain ⟨e, he, hsite⟩ := List.mem_map.1 ((h.mem_sites hx).2 hi)
    obtain ⟨e', he', hsite'⟩ := List.mem_map.1 ((h.mem_sites hy).2 hi')
    have hsymm : Std.Symm BatchRun.Apart :=
      ⟨fun x y hxy e he e' he' heq => hxy e' he' e he heq.symm⟩
    have hxy : x ≠ y := fun heq => hne (congrArg _ heq)
    exact hpair.forall hx hy hxy e he e' he' (hsite.trans hsite'.symm)
  · intro hallocs
    have hdistinct : runs.Pairwise fun x y => x.batch ≠ y.batch :=
      List.pairwise_map.1 (hbatch.nodup_iff.2 (Plan.nodup_batches p))
    refine List.Pairwise.imp_of_mem ?_ (hdistinct.and (h.pairwise_vars hp))
    rintro x y hx hy ⟨hne, hvars⟩ e he e' he' heq
    have hdec := (h.mem_sites hx).1 (List.mem_map.2 ⟨e, he, rfl⟩)
    have hdec' := (h.mem_sites hy).1 (List.mem_map.2 ⟨e', he', heq.symm⟩)
    cases hsite : e.site with
    | var v =>
      rw [hsite] at hdec hdec'
      exact hvars v hdec hdec'
    | alloc i =>
      rw [hsite] at hdec hdec'
      exact hallocs _ (hbatch.mem_iff.1 (List.mem_map.2 ⟨x, hx, rfl⟩)) _
        (hbatch.mem_iff.1 (List.mem_map.2 ⟨y, hy, rfl⟩)) hne i hdec hdec'

end Runs

end Analysis

/-- A report has one decision for each site that some batch decides and for each global, and
none other.  The decision for a variable is the one that was made for it, and the counts are
those of all decisions made.  That no decision is replaced, that all are in the report and that
the counts are those of the report come to the same: no allocation occurs in the bodies of two
batches. -/
theorem report_decisions {d : Draft} (hd : d.Made) {p : Program} (hbuild : d.build = .ok p)
    {m : Machine} {c : Config} {report : Report} (h : (analyze c p m).result = .ok report) :
    ∃ runs r, Analysis.Runs m.adder c p {} (Plan.ofProgram p).waves runs r ∧
      report = Analysis.finish p r ∧
      (report.decisions.map (·.site)).Nodup ∧
      (∀ s, s ∈ report.decisions.map (·.site) ↔
        (∃ b ∈ (Plan.ofProgram p).batches, b.Decides p s) ∨ ∃ x ∈ p.globals, s = .var x.id) ∧
      (∀ e ∈ report.decisions, e ∈ Analysis.emitted p runs) ∧
      (∀ e ∈ Analysis.emitted p runs, ∀ v, e.site = .var v → e ∈ report.decisions) ∧
      report.stats.heapSites = (Analysis.emitted p runs).countP (·.isHeap) ∧
      report.stats.stackSites = (Analysis.emitted p runs).countP (!·.isHeap) ∧
      List.TFAE [
        Plan.AllocationsApart p,
        runs.Pairwise BatchRun.Apart,
        report.decisions.Perm (Analysis.emitted p runs),
        report.stats.heapSites = report.decisions.countP (·.isHeap) ∧
          report.stats.stackSites = report.decisions.countP (!·.isHeap)] := by
  have hp := Draft.owned_of_build hd hbuild
  obtain ⟨runs, r, hruns, rfl⟩ := Analysis.runs_of_analyze h
  obtain ⟨hheap, hstack⟩ := hruns.stats_eq
  refine ⟨runs, r, hruns, rfl, ?_, ?_, ?_, ?_, hheap, hstack, ?_⟩
  · rw [hruns.decisions_eq]
    exact (Report.inOrder_insertAll .nil).nodup
  · intro s
    rw [hruns.decisions_eq, Report.mem_sites_insertAll .nil, ← hruns.mem_sites_emitted]
    exact ⟨fun hs => hs.resolve_left List.not_mem_nil, .inr⟩
  · intro e he
    rw [hruns.decisions_eq] at he
    exact (Report.of_mem_insertAll .nil he).resolve_left List.not_mem_nil
  · intro e he v hv
    rw [hruns.decisions_eq]
    exact Report.mem_insertAll_of_unique he fun x hx hsite =>
      hruns.emitted_var_unique hp he hx hv (hsite.trans hv)
  · rw [hheap, hstack, hruns.decisions_eq]
    have htfae := Report.insertAll_tfae (Analysis.emitted p runs)
    tfae_have 1 ↔ 2 := (hruns.pairwise_apart_iff hp).symm
    tfae_have 2 ↔ 3 := (hruns.nodup_emitted_iff hp).symm.trans (htfae.out 0 1)
    tfae_have 3 → 4 := fun hperm => ⟨(hperm.countP_eq _).symm, (hperm.countP_eq _).symm⟩
    tfae_have 4 → 3 := by
      rintro ⟨h₁, h₂⟩
      refine (htfae.out 2 1).1 (Nat.le_of_eq ?_)
      rw [Report.length_eq_counts, Report.length_eq_counts, h₁, h₂]
    tfae_finish

/-- One function keeps new storage in a global, another uses new storage and forgets it.  The two
allocations are one if `shared` says so. -/
def keepAndForget (shared : Bool) : Except Error Draft := do
  let (x, d) := ({} : Draft).global "x"
  let (f, d) := d.function "keep"
  let (g, d) := d.function "forget"
  let (kept, d) := d.new f
  let (used, d) := if shared then (kept, d) else d.new g
  let d ← d.setBody f [.assign1 (.ident x) kept]
  d.setBody g [.expr (.deref used)]

theorem keepAndForget_made {shared : Bool} {d : Draft} (h : keepAndForget shared = .ok d) :
    d.Made := by
  have hstart : ∀ (d : Draft), d.Made → ∀ f g body body' (d' : Draft),
      (d.setBody f body >>= fun d => d.setBody g body') = .ok d' → d'.Made := by
    intro d hd f g body body' d' h
    obtain ⟨d₁, h₁, h₂⟩ := bind_eq_ok.1 h
    exact .setBody (.setBody hd h₁) h₂
  have hkept := ((((Draft.Made.empty.global "x").function "keep").function "forget").new ⟨0⟩)
  cases shared with
  | true => exact hstart _ hkept _ _ _ _ _ h
  | false => exact hstart _ (hkept.new ⟨1⟩) _ _ _ _ _ h

/-- How many decisions the report counts and how many it holds, first for the heap, then for the
stack. -/
def decisionCounts (draft : Except Error Draft) : Except Error (Nat × Nat × Nat × Nat) := do
  let d ← draft
  let p ← d.build
  let report ← (analyze (Config.ofPreset .custom) p).result
  return (report.stats.heapSites, report.decisions.countP (·.isHeap),
    report.stats.stackSites, report.decisions.countP (!·.isHeap))

theorem exists_of_decisionCounts {shared : Bool} {n : Nat × Nat × Nat × Nat}
    (h : decisionCounts (keepAndForget shared) = .ok n) :
    ∃ (d : Draft) (p : Program) (report : Report), d.Made ∧ d.build = .ok p ∧
      (analyze (Config.ofPreset .custom) p).result = .ok report ∧
      (report.stats.heapSites, report.decisions.countP (·.isHeap),
        report.stats.stackSites, report.decisions.countP (!·.isHeap)) = n := by
  obtain ⟨d, hd, h⟩ := bind_eq_ok.1 h
  obtain ⟨p, hp, h⟩ := bind_eq_ok.1 h
  obtain ⟨report, hreport, h⟩ := bind_eq_ok.1 h
  exact ⟨d, p, report, keepAndForget_made hd, hp, hreport, Except.ok.inj h⟩

theorem report_decisions_apart :
    ∃ (d : Draft) (p : Program) (report : Report) (runs : List BatchRun), d.Made ∧ d.build = .ok p ∧
      (analyze (Config.ofPreset .custom) p).result = .ok report ∧
      report.decisions.length = 3 ∧ Plan.AllocationsApart p ∧
      report.decisions.Perm (Analysis.emitted p runs) := by
  have hcounts : decisionCounts (keepAndForget false) = .ok (2, 2, 1, 1) := by cbv
  obtain ⟨d, p, report, hd, hp, hreport, hcounts⟩ := exists_of_decisionCounts hcounts
  simp only [Prod.mk.injEq] at hcounts
  obtain ⟨h₁, h₂, h₃, h₄⟩ := hcounts
  obtain ⟨runs, r, -, -, -, -, -, -, -, -, htfae⟩ := report_decisions hd hp hreport
  have hagree : report.stats.heapSites = report.decisions.countP (·.isHeap) ∧
      report.stats.stackSites = report.decisions.countP (!·.isHeap) :=
    ⟨h₁.trans h₂.symm, h₃.trans h₄.symm⟩
  refine ⟨d, p, report, runs, hd, hp, hreport, ?_, (htfae.out 3 0).1 hagree,
    (htfae.out 3 2).1 hagree⟩
  rw [Report.length_eq_counts, h₂, h₄]

/-- An allocation that two batches share is on the heap for one and on the stack for the other,
and is counted twice. -/
theorem shared_allocation_counted_twice :
    ∃ (d : Draft) (p : Program) (report : Report), d.Made ∧ d.build = .ok p ∧
      (Config.ofPreset .custom).validate = .ok () ∧
      (analyze (Config.ofPreset .custom) p).result = .ok report ∧
      report.stats.heapSites = 2 ∧ report.decisions.countP (·.isHeap) = 1 := by
  have hcounts : decisionCounts (keepAndForget true) = .ok (2, 1, 1, 1) := by cbv
  obtain ⟨d, p, report, hd, hp, hreport, hcounts⟩ := exists_of_decisionCounts hcounts
  simp only [Prod.mk.injEq] at hcounts
  exact ⟨d, p, report, hd, hp, rfl, hreport, hcounts.1, hcounts.2.1⟩

end EscapeFlow
