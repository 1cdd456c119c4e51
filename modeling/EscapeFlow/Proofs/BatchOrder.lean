import EscapeFlow.Proofs.SummaryOrder
import Mathlib

/-!
# Orders of analysing batches

The batches of a plan can be analysed one after the other, each against the summaries of all those
before it (`runInOrder`), or wave by wave, where the batches of a wave see earlier waves only.
Either way a batch finds what it looks up as long as the batches that it refers to come first and
closure literals make closures of the function they stand in.  Both ways are schedules in which
each batch is `Supplied`, and a supplied schedule goes through exactly when every batch comes out
as it does against the summaries of all batches together:

    Supplied p [] ws → ((∃ r, Runs a c p {} ws runs r) ↔
      runs.map (·.batch) = ws.flatten ∧ Settled a c p runs)                        (runs_iff)

so that the order does not show in the outputs (`runInOrder_eq_ok_iff`).
-/

namespace EscapeFlow

open Relation

/-- Each closure literal makes a closure of the outermost function that it stands in. -/
def Program.ClosesWithin (p : Program) : Prop :=
  ∀ f decl, p.function? f = some decl → ∀ site g, .closure site g ∈ bodyExprs decl.stmts →
    p.outermost g = p.outermost f

theorem SummaryStore.get?_eq_some_iff {s : SummaryStore} (hs : (s.entries.map (·.func)).Nodup)
    {f : FuncId} {x : Summary} : s.get? f = some x ↔ x ∈ s.entries ∧ x.func = f := by
  constructor
  · intro h
    have hfunc := List.find?_some h
    exact ⟨List.mem_of_find?_eq_some h, of_decide_eq_true hfunc⟩
  · rintro ⟨hx, rfl⟩
    obtain ⟨y, hy⟩ := Option.isSome_iff_exists.1
      (get?_isSome.2 (List.mem_map_of_mem (f := (·.func)) hx))
    have hfunc := List.find?_some hy
    rw [hy, List.inj_on_of_nodup_map hs (List.mem_of_find?_eq_some hy) hx (of_decide_eq_true hfunc)]

namespace Analysis

/-- Analyses batches in the given order, each against the summaries of those before it. -/
def runInOrder (a : Adder) (c : Config) (p : Program) : SummaryStore → List Batch →
    Except Error (List BatchOutput)
  | _, [] => .ok []
  | store, b :: order => do
    let x ← BatchRun.analyze c p b store.get? a
    let store ← store.insertAll x.output.summaries
    let outs ← runInOrder a c p store order
    return x.output :: outs

/-- The summaries that some batches bring. -/
def storeOf (runs : List BatchRun) : SummaryStore := ⟨runs.flatMap (·.output.summaries)⟩

/-- Each batch comes out as it does against the summaries of all of them. -/
def Settled (a : Adder) (c : Config) (p : Program) (runs : List BatchRun) : Prop :=
  ∀ x ∈ runs, BatchRun.analyze c p x.batch (storeOf runs).get? a = .ok x

variable {a : Adder} {c : Config} {p : Program}

/-! ## Summaries of several batches -/

section

variable (hp : p.Indexed) {xs ys : List BatchRun}
  (hxs : ∀ x ∈ xs, ∃ summary?, BatchRun.analyze c p x.batch summary? a = .ok x)
  (hys : ∀ y ∈ ys, ∃ summary?, BatchRun.analyze c p y.batch summary? a = .ok y)

include hp hxs

theorem summarized_storeOf :
    (storeOf xs).entries.map (·.func) = (xs.map (·.batch)).flatMap (·.functions) := by
  unfold storeOf
  rw [List.map_flatMap, List.flatMap_map]
  refine List.flatMap_congr fun x hx => ?_
  obtain ⟨summary?, hx⟩ := hxs x hx
  exact (BatchRun.summarized_of_analyze hp hx).1

theorem isSome_get?_storeOf {g : FuncId} :
    ((storeOf xs).get? g).isSome ↔ ∃ x ∈ xs, g ∈ x.batch.functions := by
  rw [SummaryStore.get?_isSome, summarized_storeOf hp hxs, List.flatMap_map, List.mem_flatMap]

include hys

/-- Later summaries do not matter for a function that has one, or that gets none. -/
theorem get?_storeOf_append {g : FuncId}
    (h : (∃ x ∈ xs, g ∈ x.batch.functions) ∨ ∀ y ∈ ys, g ∉ y.batch.functions) :
    (storeOf (xs ++ ys)).get? g = (storeOf xs).get? g := by
  have happend : (storeOf (xs ++ ys)).get? g = ((storeOf xs).get? g).or ((storeOf ys).get? g) := by
    unfold storeOf SummaryStore.get?
    rw [List.flatMap_append, List.find?_append]
  rw [happend]
  rcases h with hg | hg
  · obtain ⟨s, hs⟩ := Option.isSome_iff_exists.1 ((isSome_get?_storeOf hp hxs).2 hg)
    rw [hs, Option.some_or]
  · have hnone : (storeOf ys).get? g = none := by
      rw [← Option.not_isSome_iff_eq_none, isSome_get?_storeOf hp hys]
      rintro ⟨y, hy, hmem⟩
      exact hg y hy hmem
    rw [hnone, Option.or_none]

end

/-! ## Schedules -/

/-- What the batch calls outside itself is in a batch that is done, or in none. -/
def Ready (p : Program) (done : List Batch) (b : Batch) : Prop :=
  ∀ f ∈ b.functions, ∀ g ∉ b.functions, p.Calls f g →
    (∃ b' ∈ done, g ∈ b'.functions) ∨ ∀ b' ∈ (Plan.ofProgram p).batches, g ∉ b'.functions

/-- In a schedule that goes on after some batches each batch is ready when its wave starts. -/
def Supplied (p : Program) : List Batch → List (List Batch) → Prop
  | _, [] => True
  | done, w :: ws => (∀ b ∈ w, Ready p done b) ∧ Supplied p (done ++ w) ws

theorem analyze_storeOf (hp : p.Indexed) {xs ys : List BatchRun}
    (hxs : ∀ x ∈ xs, ∃ summary?, BatchRun.analyze c p x.batch summary? a = .ok x)
    (hys : ∀ y ∈ ys, ∃ summary?, BatchRun.analyze c p y.batch summary? a = .ok y)
    (hplan : ∀ y ∈ ys, y.batch ∈ (Plan.ofProgram p).batches) {b : Batch}
    (hb : Ready p (xs.map (·.batch)) b) :
    BatchRun.analyze c p b (storeOf (xs ++ ys)).get? a =
      BatchRun.analyze c p b (storeOf xs).get? a := by
  refine BatchRun.analyze_congr fun f hf g hg hcall => get?_storeOf_append hp hxs hys ?_
  rcases hb f hf g hg hcall with ⟨b', hb', hmem⟩ | hnone
  · obtain ⟨x, hx, rfl⟩ := List.mem_map.1 hb'
    exact .inl ⟨x, hx, hmem⟩
  · exact .inr fun y hy => hnone _ (hplan y hy)

theorem summaries_foldl_absorb {xs runs : List BatchRun} {r : Report}
    (hr : r.summaries = storeOf xs) :
    ((runs.map (·.output)).foldl Report.absorb r).summaries = storeOf (xs ++ runs) := by
  have hentries := Report.entries_foldl_absorb r (runs.map (·.output))
  rw [hr, List.flatMap_map] at hentries
  unfold storeOf at hentries ⊢
  rw [List.flatMap_append, ← hentries]

/-- A schedule that goes on after the batches `xs` goes through as each batch comes out against all
summaries, earlier and later ones. -/
theorem runs_after_iff (hp : p.Indexed) {ws : List (List Batch)} {xs ys : List BatchRun}
    {r : Report} (hxs : ∀ x ∈ xs, ∃ summary?, BatchRun.analyze c p x.batch summary? a = .ok x)
    (hr : r.summaries = storeOf xs) (hws : Supplied p (xs.map (·.batch)) ws)
    (hplan : ∀ b ∈ ws.flatten, b ∈ (Plan.ofProgram p).batches)
    (hnodup : ((xs.map (·.batch) ++ ws.flatten).flatMap (·.functions)).Nodup) :
    (∃ r', Runs a c p r ws ys r') ↔ ys.map (·.batch) = ws.flatten ∧
      ∀ y ∈ ys, BatchRun.analyze c p y.batch (storeOf (xs ++ ys)).get? a = .ok y := by
  induction ws generalizing xs ys r with
  | nil =>
    constructor
    · rintro ⟨r', h⟩
      cases h
      exact ⟨rfl, fun y hy => by cases hy⟩
    · rintro ⟨hmap, -⟩
      cases List.map_eq_nil_iff.1 hmap
      exact ⟨r, .done r⟩
  | cons w ws ih =>
    obtain ⟨hready, hrest⟩ := hws
    rw [List.flatten_cons] at hplan hnodup ⊢
    have hsummarized : r.summarized = (xs.map (·.batch)).flatMap (·.functions) := by
      unfold Report.summarized
      rw [hr, summarized_storeOf hp hxs]
    have hrnodup : r.summarized.Nodup := by
      rw [hsummarized]
      rw [List.flatMap_append] at hnodup
      exact hnodup.of_append_left
    -- a batch of the wave does not see the difference between the report and all summaries
    have hwave {ys} (hys : ∀ y ∈ ys, ∃ summary?, BatchRun.analyze c p y.batch summary? a = .ok y)
        (hmap : ys.map (·.batch) = w ++ ws.flatten) {b} (hb : b ∈ w) :
        BatchRun.analyze c p b (storeOf (xs ++ ys)).get? a =
          BatchRun.analyze c p b r.summary? a := by
      have hsummary : r.summary? = (storeOf xs).get? := congrArg SummaryStore.get? hr
      rw [hsummary]
      refine analyze_storeOf hp hxs hys (fun y hy => hplan _ ?_) (hready b hb)
      rw [← hmap]
      exact List.mem_map_of_mem hy
    have hnext {runs rest} (hruns : runs.map (·.batch) = w)
        (hys : ∀ y ∈ runs, ∃ summary?, BatchRun.analyze c p y.batch summary? a = .ok y) :
        (∃ r', Runs a c p ((runs.map (·.output)).foldl Report.absorb r) ws rest r') ↔
          rest.map (·.batch) = ws.flatten ∧ ∀ y ∈ rest,
            BatchRun.analyze c p y.batch (storeOf (xs ++ (runs ++ rest))).get? a = .ok y := by
      rw [← List.append_assoc]
      refine ih (fun x hx => (List.mem_append.1 hx).elim (hxs x) (hys x))
        (summaries_foldl_absorb hr) ?_ (fun b hb => hplan b (List.mem_append_right _ hb)) ?_
      · rw [List.map_append, hruns]
        exact hrest
      · rw [List.map_append, hruns, List.append_assoc]
        exact hnodup
    constructor
    · rintro ⟨r', h⟩
      have hys : ∀ y ∈ ys, _ := fun _ => h.exists_analyze
      have hmap := h.map_batch
      cases h with
      | @wave _ _ _ _ _ runs rest analyzed merged further =>
        have hruns : runs.map (·.batch) = w :=
          (map_of_forall₂ (f := id) analyzed fun _ _ => BatchRun.batch_of_analyze).trans
            (List.map_id _)
        obtain ⟨-, rfl⟩ := (Report.foldlM_merge_eq_ok hrnodup).1 merged
        have hsettled := (hnext hruns fun y hy => hys y (List.mem_append_left _ hy)).1 ⟨r', further⟩
        refine ⟨hmap, fun y hy => ?_⟩
        rcases List.mem_append.1 hy with hy | hy
        · obtain ⟨b, hb, hanalyze⟩ := mem_of_forall₂ analyzed hy
          obtain rfl := BatchRun.batch_of_analyze hanalyze
          rw [hwave hys hmap hb, hanalyze]
        · exact hsettled.2 y hy
    · rintro ⟨hmap, hsettled⟩
      have hys : ∀ y ∈ ys, ∃ summary?, BatchRun.analyze c p y.batch summary? a = .ok y :=
        fun y hy => ⟨_, hsettled y hy⟩
      obtain ⟨runs, rest, rfl, hruns, hrestmap⟩ := List.map_eq_append_iff.1 hmap
      have analyzed :
          List.Forall₂ (fun b x => BatchRun.analyze c p b r.summary? a = .ok x) w runs := by
        rw [← hruns, List.forall₂_map_left_iff, List.forall₂_same]
        intro y hy
        rw [← hwave hys hmap (hruns ▸ List.mem_map_of_mem hy)]
        exact hsettled y (List.mem_append_left _ hy)
      have merged : (runs.map (·.output)).foldlM Report.merge r = .ok _ :=
        (Report.foldlM_merge_eq_ok hrnodup).2 ⟨by
        rw [flatMap_summarized hp analyzed, hsummarized, ← List.flatMap_append]
        rw [← List.append_assoc, List.flatMap_append] at hnodup
        exact hnodup.of_append_left, rfl⟩
      obtain ⟨r', further⟩ := (hnext hruns fun y hy => hys y (List.mem_append_left _ hy)).2
        ⟨hrestmap, fun y hy => hsettled y (List.mem_append_right _ hy)⟩
      exact ⟨r', .wave analyzed merged further⟩

/-- A schedule in which each batch is supplied goes through exactly when the batches are settled. -/
theorem runs_iff (hp : p.Indexed) {ws : List (List Batch)} (hws : Supplied p [] ws)
    (hplan : ∀ b ∈ ws.flatten, b ∈ (Plan.ofProgram p).batches)
    (hnodup : (ws.flatten.flatMap (·.functions)).Nodup) {runs : List BatchRun} :
    (∃ r, Runs a c p {} ws runs r) ↔ runs.map (·.batch) = ws.flatten ∧ Settled a c p runs :=
  @runs_after_iff a c p hp ws [] runs {} (fun x hx => by cases hx) rfl hws hplan hnodup

/-! ## The order does not matter -/

theorem get?_storeOf_perm {xs ys : List BatchRun} (hperm : xs.Perm ys)
    (hnodup : ((storeOf xs).entries.map (·.func)).Nodup) :
    (storeOf xs).get? = (storeOf ys).get? := by
  have hentries : (storeOf xs).entries.Perm (storeOf ys).entries := hperm.flatMap_right _
  funext g
  ext s
  rw [SummaryStore.get?_eq_some_iff hnodup,
    SummaryStore.get?_eq_some_iff ((hentries.map _).nodup_iff.1 hnodup), hentries.mem_iff]

theorem Settled.perm {xs ys : List BatchRun} (h : Settled a c p xs) (hperm : xs.Perm ys)
    (hnodup : ((storeOf xs).entries.map (·.func)).Nodup) : Settled a c p ys := by
  intro y hy
  rw [← get?_storeOf_perm hperm hnodup]
  exact h y (hperm.mem_iff.2 hy)

theorem Settled.eq_of_batch {runs : List BatchRun} (h : Settled a c p runs) {x y : BatchRun}
    (hx : x ∈ runs) (hy : y ∈ runs) (hbatch : x.batch = y.batch) : x = y := by
  have hsame := h y hy
  rw [← hbatch, h x hx] at hsame
  exact Except.ok.inj hsame

/-- One batch after the other is a schedule of waves with one batch each. -/
theorem runInOrder_eq_ok {order : List Batch} {r : Report} (hr : r.summarized.Nodup)
    {outs : List BatchOutput} :
    runInOrder a c p r.summaries order = .ok outs ↔
      ∃ runs, (∃ r', Runs a c p r (order.map ([·])) runs r') ∧ outs = runs.map (·.output) := by
  induction order generalizing r outs with
  | nil =>
    unfold runInOrder
    constructor
    · intro h
      cases h
      exact ⟨[], ⟨r, .done r⟩, rfl⟩
    · rintro ⟨runs, ⟨r', h⟩, rfl⟩
      cases h
      rfl
  | cons b order ih =>
    have hmerge {x : BatchRun} : (r.summarized ++ [x.output].flatMap BatchOutput.summarized).Nodup ↔
        ((r.summaries.entries ++ x.output.summaries).map Summary.func).Nodup := by
      rw [List.flatMap_singleton, List.map_append]
      rfl
    have hnext {x : BatchRun}
        (hx : ((r.summaries.entries ++ x.output.summaries).map Summary.func).Nodup)
        (outs : List BatchOutput) := @ih (r.absorb x.output) hx outs
    unfold runInOrder
    simp only [bind_eq_ok]
    constructor
    · rintro ⟨x, hx, store, hstore, rest, hrest, h⟩
      cases h
      obtain ⟨hnodup, rfl⟩ := (SummaryStore.insertAll_eq_ok hr).1 hstore
      obtain ⟨runs, ⟨r', hruns⟩, rfl⟩ := (hnext hnodup rest).1 hrest
      have merged := (Report.foldlM_merge_eq_ok hr).2 ⟨hmerge.2 hnodup, rfl⟩
      exact ⟨[x] ++ runs, ⟨r', .wave (.cons hx .nil) merged hruns⟩, rfl⟩
    · rintro ⟨_, ⟨r', h⟩, rfl⟩
      cases h with
      | wave analyzed merged further =>
        cases analyzed with
        | cons hx hnil =>
          cases hnil
          obtain ⟨hnodup, rfl⟩ := (Report.foldlM_merge_eq_ok hr).1 merged
          have hstore := (SummaryStore.insertAll_eq_ok hr).2 ⟨hmerge.1 hnodup, rfl⟩
          have hrest := (hnext (hmerge.1 hnodup) _).2 ⟨_, ⟨r', further⟩, rfl⟩
          exact ⟨_, hx, _, hstore, _, hrest, rfl⟩

/-! ## Both orders are schedules -/

section

variable (hp : p.Indexed) (hn : p.Plannable) (hlit : p.ClosesWithin)

include hp hn hlit

/-- What a batch calls outside itself is in another batch that it refers to, or in none. -/
theorem refersTo_of_calls {b : Batch} (hb : b ∈ (Plan.ofProgram p).batches) {f g : FuncId}
    (hf : f ∈ b.functions) (hg : g ∉ b.functions) (hcall : p.Calls f g) :
    (∃ b' ∈ (Plan.ofProgram p).batches, g ∈ b'.functions ∧ b.RefersTo p b' ∧ b' ≠ b) ∨
      ∀ b' ∈ (Plan.ofProgram p).batches, g ∉ b'.functions := by
  obtain ⟨decl, hdecl, hname | ⟨site, hmade⟩⟩ := hcall.named_or_made
  · by_cases htable : (p.function? g).isSome
    · have hmentions : p.Mentions f g := ⟨decl, hdecl, hname, htable⟩
      obtain ⟨b', hb', hmem⟩ := Plan.exists_batch_of_mentions hp hn hb hf hmentions
      exact .inl ⟨b', hb', hmem, ⟨f, hf, g, hmem, hmentions⟩, fun heq => hg (heq ▸ hmem)⟩
    · exact .inr fun b' hb' hmem => htable (Plan.function?_of_mem_functions hp hn hb' hmem)
  · obtain ⟨r, hr, hlies⟩ := (Plan.mem_functions_iff hp hb).1 hf
    have hout := hn.acyclic.outermost_eq_iff.2
      ⟨hlies, (Plan.isTopLevel_of_mem_roots hp hn hb hr).2⟩
    rw [← hlit f decl hdecl site g hmade] at hout
    refine absurd ((Plan.mem_functions_iff hp hb).2 ⟨r, hr, ?_⟩) hg
    exact (hn.acyclic.outermost_eq_iff.1 hout).1

/-- A schedule is supplied if no batch refers to another one of its wave or of a later wave. -/
theorem supplied_of_pairwise {ws : List (List Batch)} {done : List Batch}
    (hcover : ∀ b ∈ (Plan.ofProgram p).batches, b ∈ done ++ ws.flatten)
    (hplan : ∀ b ∈ ws.flatten, b ∈ (Plan.ofProgram p).batches)
    (hwithin : ∀ w ∈ ws, ∀ b ∈ w, ∀ b' ∈ w, b.RefersTo p b' → b' = b)
    (hlater : ws.Pairwise fun w w' => ∀ b ∈ w, ∀ b' ∈ w', ¬ b.RefersTo p b') :
    Supplied p done ws := by
  induction ws generalizing done with
  | nil => trivial
  | cons w ws ih =>
    rw [List.flatten_cons] at hcover hplan
    obtain ⟨hw, hws⟩ := List.pairwise_cons.1 hlater
    constructor
    · intro b hb f hf g hg hcall
      have hbplan := hplan b (List.mem_append_left _ hb)
      refine (refersTo_of_calls hp hn hlit hbplan hf hg hcall).imp_left ?_
      rintro ⟨b', hb', hmem, hrefers, hne⟩
      rcases List.mem_append.1 (hcover b' hb') with hdone | hrest
      · exact ⟨b', hdone, hmem⟩
      · rcases List.mem_append.1 hrest with hsame | hrest
        · exact absurd (hwithin w List.mem_cons_self b hb b' hsame hrefers) hne
        · obtain ⟨w', hw', hb'⟩ := List.mem_flatten.1 hrest
          exact absurd hrefers (hw w' hw' b hb b' hb')
    · refine ih ?_ (fun b hb => hplan b (List.mem_append_right _ hb))
        (fun w' hw' => hwithin w' (List.mem_cons_of_mem _ hw')) hws
      rwa [List.append_assoc]

omit hlit in
/-- The batches of later waves, or of the same wave, are not referred to. -/
theorem eq_of_refersTo_of_wave_le {b b' : Batch} (hb : b ∈ (Plan.ofProgram p).batches)
    (hb' : b' ∈ (Plan.ofProgram p).batches) (hle : b.wave ≤ b'.wave) (h : b.RefersTo p b') :
    b' = b := by
  by_contra hne
  exact Nat.not_lt.2 hle ((Plan.wave_spec hp hn hb).1 b' hb' h hne)

omit hlit in
theorem pairwise_waves :
    (Plan.ofProgram p).waves.Pairwise fun w w' => ∀ b ∈ w, ∀ b' ∈ w', ¬ b.RefersTo p b' := by
  unfold Plan.waves
  rw [List.pairwise_map]
  refine List.Pairwise.imp ?_ List.pairwise_lt_range
  intro n n' hlt b hb b' hb' hrefers
  obtain ⟨hbatch, rfl⟩ := Plan.mem_wave.1 hb
  obtain ⟨hbatch', rfl⟩ := Plan.mem_wave.1 hb'
  rw [eq_of_refersTo_of_wave_le hp hn hbatch hbatch' hlt.le hrefers] at hlt
  exact Nat.lt_irrefl _ hlt

theorem supplied_waves : Supplied p [] (Plan.ofProgram p).waves := by
  refine supplied_of_pairwise hp hn hlit (fun b => Plan.mem_flatten_waves.2)
    (fun b => Plan.mem_flatten_waves.1) ?_ (pairwise_waves hp hn)
  unfold Plan.waves
  intro w hw b hb b' hb' hrefers
  obtain ⟨n, -, rfl⟩ := List.mem_map.1 hw
  obtain ⟨hbatch, rfl⟩ := Plan.mem_wave.1 hb
  obtain ⟨hbatch', heq⟩ := Plan.mem_wave.1 hb'
  exact eq_of_refersTo_of_wave_le hp hn hbatch hbatch' heq.ge hrefers

omit hlit in
theorem pairwise_batches :
    (Plan.ofProgram p).batches.Pairwise fun b b' => ¬ b.RefersTo p b' := by
  refine List.Pairwise.imp_of_mem ?_ (Plan.index_lt_pairwise p)
  intro b b' hb hb' hlt hrefers
  exact Nat.not_le.2 hlt (Plan.index_le_of_refersTo hp hn hb hb' hrefers)

omit hlit in
theorem pairwise_flatten_waves :
    (Plan.ofProgram p).waves.flatten.Pairwise fun b b' => ¬ b.RefersTo p b' := by
  refine List.pairwise_flatten.2 ⟨fun w hw => ?_, pairwise_waves hp hn⟩
  unfold Plan.waves at hw
  obtain ⟨n, -, rfl⟩ := List.mem_map.1 hw
  exact (pairwise_batches hp hn).filter _

omit hp hn hlit in
theorem flatten_singletons (order : List Batch) : (order.map ([·])).flatten = order := by
  rw [← List.flatMap_def, List.flatMap_singleton']

theorem supplied_singletons {order : List Batch}
    (hperm : order.Perm (Plan.ofProgram p).batches)
    (horder : order.Pairwise fun b b' => ¬ b.RefersTo p b') :
    Supplied p [] (order.map ([·])) := by
  refine supplied_of_pairwise hp hn hlit ?_ ?_ ?_ ?_
  · intro b hb
    rw [flatten_singletons]
    exact hperm.mem_iff.2 hb
  · intro b hb
    rw [flatten_singletons] at hb
    exact hperm.mem_iff.1 hb
  · intro w hw b hb b' hb' _
    obtain ⟨x, -, rfl⟩ := List.mem_map.1 hw
    rw [List.mem_singleton.1 hb, List.mem_singleton.1 hb']
  · rw [List.pairwise_map]
    refine List.Pairwise.imp ?_ horder
    intro x x' hnot b hb b' hb'
    rwa [List.mem_singleton.1 hb, List.mem_singleton.1 hb']

omit hlit in
/-- A schedule that goes through gives a run of any other one, of the same batches as they were
analysed. -/
theorem runs_reorder {ws ws' : List (List Batch)} (hws : Supplied p [] ws)
    (hws' : Supplied p [] ws') (hperm : ws.flatten.Perm (Plan.ofProgram p).batches)
    (hperm' : ws'.flatten.Perm (Plan.ofProgram p).batches) {runs : List BatchRun}
    (h : ∃ r, Runs a c p {} ws runs r) :
    Settled a c p runs ∧ ∃ runs', runs'.Perm runs ∧ ∃ r, Runs a c p {} ws' runs' r := by
  have hnodup := Plan.nodup_flatMap_functions hp hn
  have hruns : ∀ x ∈ runs, ∃ summary?, BatchRun.analyze c p x.batch summary? a = .ok x := by
    obtain ⟨r, h⟩ := h
    exact fun x => h.exists_analyze
  obtain ⟨hmap, hsettled⟩ := (runs_iff hp hws (fun b => hperm.mem_iff.1)
    ((hperm.flatMap_right _).nodup_iff.2 hnodup)).1 h
  -- the batches as they were analysed, in the order of the other schedule
  obtain ⟨runs', hmap', hruns'⟩ : Relation.Comp (List.Forall₂ fun b x => x.batch = b) List.Perm
      ws'.flatten runs := by
    refine List.perm_comp_forall₂ (hperm'.trans hperm.symm) ?_
    rw [← hmap, List.forall₂_map_left_iff, List.forall₂_same]
    exact fun _ _ => rfl
  refine ⟨hsettled, runs', hruns', (runs_iff hp hws' (fun b => hperm'.mem_iff.1)
    ((hperm'.flatMap_right _).nodup_iff.2 hnodup)).2 ⟨?_, hsettled.perm hruns'.symm ?_⟩⟩
  · exact (map_of_forall₂ (f := id) hmap' fun _ _ => id).trans (List.map_id _)
  · rw [summarized_storeOf hp hruns, hmap]
    exact (hperm.flatMap_right _).nodup_iff.2 hnodup

end

/-- A plan whose batches can all be analysed refers to functions of the table only. -/
theorem plannable_of_analyze (hp : p.Indexed) (hn : p.Acyclic) {runs : List BatchRun}
    (hruns : ∀ x ∈ runs, ∃ summary?, BatchRun.analyze c p x.batch summary? a = .ok x)
    (hplan : (runs.map (·.batch)).Perm (Plan.ofProgram p).batches) : p.Plannable := by
  refine ⟨hn, fun f g hg => ?_⟩
  obtain ⟨b, hb, hroot⟩ :=
    Plan.exists_batch_of_canReach (CallGraph.mem_nodes_of_callees hg) (.single hg)
  obtain ⟨C, hC⟩ := Plan.exists_madeOf hb
  obtain ⟨x, hx, rfl⟩ := List.mem_map.1 (hplan.mem_iff.2 hb)
  obtain ⟨summary?, hx⟩ := hruns x hx
  obtain ⟨hsummarized, hdescribes⟩ := BatchRun.summarized_of_analyze hp hx
  have hmem : g ∈ x.output.summarized := by
    rw [hsummarized, hC.functions]
    exact List.mem_append_left _ hroot
  obtain ⟨s, hs, rfl⟩ := List.mem_map.1 hmem
  obtain ⟨decl, hdecl, -⟩ := hdescribes s hs
  rw [hdecl]
  rfl

theorem exists_report_iff {m : Machine} : (∃ report, (analyze c p m).result = .ok report) ↔
    c.validate = .ok () ∧ ∃ runs r, Runs m.adder c p {} (Plan.ofProgram p).waves runs r := by
  constructor
  · rintro ⟨report, h⟩
    obtain ⟨runs, r, hruns, -⟩ := runs_of_analyze h
    refine ⟨?_, runs, r, hruns⟩
    unfold analyze at h
    rw [Traced.result_bind] at h
    obtain ⟨⟨⟩, hcheck, -⟩ := bind_eq_ok.1 h
    unfold checkConfig at hcheck
    split at hcheck
    · assumption
    · cases hcheck
  · rintro ⟨hvalid, runs, r, hruns⟩
    refine ⟨finish p r, ?_⟩
    unfold analyze
    rw [Traced.result_bind, result_runProgram]
    refine bind_eq_ok.2 ⟨(), ?_, bind_eq_ok.2 ⟨r, ?_, rfl⟩⟩
    · unfold checkConfig
      rw [hvalid]
      rfl
    · rw [← map_snd_numberedWaves] at hruns
      exact result_foldlM_runWave.2 ⟨runs, hruns⟩

/-- The outputs are those of the batches `order` when the analysis goes wave by wave. -/
def OutputsByWave (a : Adder) (c : Config) (p : Program) (order : List Batch)
    (outs : List BatchOutput) : Prop :=
  ∃ runs r, Runs a c p {} (Plan.ofProgram p).waves runs r ∧
    List.Forall₂ (fun b out => ∃ x ∈ runs, x.batch = b ∧ x.output = out) order outs

section

variable (hp : p.Indexed) (hn : p.Acyclic) (hlit : p.ClosesWithin) {order : List Batch}
  (hperm : order.Perm (Plan.ofProgram p).batches)
  (horder : p.Plannable → order.Pairwise fun b b' => ¬ b.RefersTo p b')

include hp hn hlit hperm horder

theorem outputsByWave_of_runInOrder {outs : List BatchOutput}
    (h : runInOrder a c p {} order = .ok outs) : OutputsByWave a c p order outs := by
  obtain ⟨runs, ⟨r, hruns⟩, rfl⟩ := (runInOrder_eq_ok (r := {}) .nil).1 h
  have hmap : runs.map (·.batch) = order := hruns.map_batch.trans (flatten_singletons order)
  have hplannable := plannable_of_analyze hp hn (fun x => hruns.exists_analyze) (hmap ▸ hperm)
  obtain ⟨-, runs', hruns', r', h'⟩ := runs_reorder hp hplannable
    (supplied_singletons hp hplannable hlit hperm (horder hplannable))
    (supplied_waves hp hplannable hlit) ((flatten_singletons order).symm ▸ hperm)
    (Plan.flatten_waves_perm p) ⟨r, hruns⟩
  refine ⟨runs', r', h', ?_⟩
  rw [← hmap, List.forall₂_map_left_iff, List.forall₂_map_right_iff, List.forall₂_same]
  exact fun x hx => ⟨x, hruns'.mem_iff.2 hx, rfl, rfl⟩

theorem exists_runInOrder {runs : List BatchRun} {r : Report}
    (h : Runs a c p {} (Plan.ofProgram p).waves runs r) :
    Settled a c p runs ∧ ∃ runs' : List BatchRun, runs'.Perm runs ∧ runs'.map (·.batch) = order ∧
      runInOrder a c p {} order = .ok (runs'.map (·.output)) := by
  have hplannable := plannable_of_analyze hp hn (fun x => h.exists_analyze)
    (h.map_batch ▸ Plan.flatten_waves_perm p)
  obtain ⟨hsettled, runs', hruns', r', h'⟩ := runs_reorder hp hplannable
    (supplied_waves hp hplannable hlit)
    (supplied_singletons hp hplannable hlit hperm (horder hplannable))
    (Plan.flatten_waves_perm p) ((flatten_singletons order).symm ▸ hperm) ⟨r, h⟩
  exact ⟨hsettled, runs', hruns', h'.map_batch.trans (flatten_singletons order),
    (runInOrder_eq_ok (r := {}) .nil).2 ⟨runs', ⟨r', h'⟩, rfl⟩⟩

theorem runInOrder_of_outputsByWave {outs : List BatchOutput}
    (h : OutputsByWave a c p order outs) : runInOrder a c p {} order = .ok outs := by
  obtain ⟨runs, r, h, houts⟩ := h
  obtain ⟨hsettled, runs', hruns', hmap, hok⟩ := exists_runInOrder hp hn hlit hperm horder h
  have houts' : outs.map id = runs'.map (·.output) := by
    rw [← hmap, List.forall₂_map_left_iff] at houts
    have hmem : ∀ y ∈ runs', y ∈ runs := fun _ hy => hruns'.mem_iff.1 hy
    refine map_of_forall₂ ((List.forall₂_and_left _ _).2 ⟨hmem, houts⟩) ?_
    rintro y out ⟨hy, x, hx, hbatch, rfl⟩
    exact congrArg BatchRun.output (hsettled.eq_of_batch hx hy hbatch)
  rw [List.map_id] at houts'
  rw [hok, houts']

end

/-- If all batches succeed it does not matter whether they are analysed wave by wave or one after
the other, in an order in which no batch refers to a later one. -/
theorem runInOrder_eq_ok_iff {p : Program} (hp : p.Indexed) (hn : p.Acyclic)
    (hlit : p.ClosesWithin) (m : Machine) (c : Config) :
    (∀ order : List Batch, order.Perm (Plan.ofProgram p).batches →
      order.Pairwise (fun b b' => ¬ b.RefersTo p b') → ∀ outs,
        (runInOrder m.adder c p {} order = .ok outs ↔ OutputsByWave m.adder c p order outs)) ∧
    (∀ order ∈ [(Plan.ofProgram p).batches, (Plan.ofProgram p).waves.flatten], ∀ outs,
      (runInOrder m.adder c p {} order = .ok outs ↔ OutputsByWave m.adder c p order outs)) ∧
    ((∃ report, (analyze c p m).result = .ok report) ↔ c.validate = .ok () ∧
      ∃ outs, runInOrder m.adder c p {} (Plan.ofProgram p).batches = .ok outs) := by
  have hiff {order : List Batch} (hperm : order.Perm (Plan.ofProgram p).batches)
      (horder : p.Plannable → order.Pairwise fun b b' => ¬ b.RefersTo p b')
      (outs : List BatchOutput) :
      runInOrder m.adder c p {} order = .ok outs ↔ OutputsByWave m.adder c p order outs :=
    ⟨outputsByWave_of_runInOrder hp hn hlit hperm horder,
      runInOrder_of_outputsByWave hp hn hlit hperm horder⟩
  refine ⟨fun order hperm horder => hiff hperm fun _ => horder, fun order horder => ?_, ?_⟩
  · rcases List.mem_cons.1 horder with rfl | horder
    · exact hiff (.refl _) (pairwise_batches hp)
    · obtain rfl := List.mem_singleton.1 horder
      exact hiff (Plan.flatten_waves_perm p) (pairwise_flatten_waves hp)
  · rw [exists_report_iff]
    refine and_congr_right fun _ => ⟨?_, ?_⟩
    · rintro ⟨runs, r, h⟩
      obtain ⟨-, runs', -, -, hok⟩ := exists_runInOrder hp hn hlit (.refl _) (pairwise_batches hp) h
      exact ⟨_, hok⟩
    · rintro ⟨outs, h⟩
      obtain ⟨runs, r, h, -⟩ :=
        outputsByWave_of_runInOrder hp hn hlit (.refl _) (pairwise_batches hp) h
      exact ⟨runs, r, h⟩

end Analysis

/-- A function that calls another one and runs a closure, which calls a third. -/
def callsThroughClosure : Program where
  functions := #[
    { id := ⟨0⟩, name := "keep", params := [⟨0⟩] },
    { id := ⟨1⟩, name := "look", params := [⟨1⟩], noescape := true },
    { id := ⟨2⟩
      name := "main"
      body := some [
        .expr (.call (.funcRef ⟨0⟩) [.new ⟨0⟩]),
        .expr (.call (.closure ⟨1⟩ ⟨3⟩) [])] },
    { id := ⟨3⟩
      name := "main.func1"
      enclosing := some ⟨2⟩
      body := some [.expr (.call (.funcRef ⟨1⟩) [.new ⟨2⟩])] }]
  vars := #[⟨⟨0⟩, "x", .param, some ⟨0⟩⟩, ⟨⟨1⟩, "y", .param, some ⟨1⟩⟩]
  sites := #[⟨⟨0⟩, .new, ⟨2⟩⟩, ⟨⟨1⟩, .closure, ⟨2⟩⟩, ⟨⟨2⟩, .new, ⟨3⟩⟩]

theorem callsThroughClosure_batches : (Plan.ofProgram callsThroughClosure).batches =
    [⟨0, [⟨0⟩], [⟨0⟩], false, 0⟩, ⟨1, [⟨1⟩], [⟨1⟩], false, 0⟩,
      ⟨2, [⟨2⟩], [⟨2⟩, ⟨3⟩], false, 1⟩] := by
  cbv

theorem callsThroughClosure_indexed : callsThroughClosure.Indexed := Program.indexed_of_ids rfl

theorem callsThroughClosure_wellNested : callsThroughClosure.WellNested :=
  callsThroughClosure_indexed.wellNested (by decide)

theorem callsThroughClosure_closesWithin : callsThroughClosure.ClosesWithin := by
  have hall : callsThroughClosure.functions.toList.all (fun decl =>
      (bodyExprs decl.stmts).all fun e =>
        match e with
        | .closure _ g =>
          decide (callsThroughClosure.outermost g = callsThroughClosure.outermost decl.id)
        | _ => true) = true := by cbv
  intro f decl hf site g hmem
  have hdecl := List.all_eq_true.1 hall decl (Array.mem_toList_iff.2 (Array.mem_of_getElem? hf))
  have hclosure := of_decide_eq_true (List.all_eq_true.1 hdecl _ hmem)
  rwa [callsThroughClosure_indexed f decl hf] at hclosure

theorem runInOrder_eq_ok_iff_swapped :
    ∃ order outs, order.Perm (Plan.ofProgram callsThroughClosure).batches ∧
      order ≠ (Plan.ofProgram callsThroughClosure).batches ∧
      Analysis.runInOrder .exact (Config.ofPreset .custom) callsThroughClosure {} order = .ok outs ∧
      Analysis.OutputsByWave .exact (Config.ofPreset .custom) callsThroughClosure order outs := by
  have hok : (Analysis.runInOrder .exact (Config.ofPreset .custom) callsThroughClosure {}
      [⟨1, [⟨1⟩], [⟨1⟩], false, 0⟩, ⟨0, [⟨0⟩], [⟨0⟩], false, 0⟩,
        ⟨2, [⟨2⟩], [⟨2⟩, ⟨3⟩], false, 1⟩]).map (fun _ => ()) = .ok () := by cbv
  obtain ⟨outs, hok, -⟩ := exists_of_map_eq_ok hok
  have hperm : [⟨1, [⟨1⟩], [⟨1⟩], false, 0⟩, ⟨0, [⟨0⟩], [⟨0⟩], false, 0⟩,
      ⟨2, [⟨2⟩], [⟨2⟩, ⟨3⟩], false, 1⟩].Perm (Plan.ofProgram callsThroughClosure).batches := by
    rw [callsThroughClosure_batches]
    exact .swap _ _ _
  refine ⟨_, outs, hperm, by rw [callsThroughClosure_batches]; decide, hok, ?_⟩
  refine ((Analysis.runInOrder_eq_ok_iff callsThroughClosure_indexed
    callsThroughClosure_wellNested.acyclic callsThroughClosure_closesWithin {} _).1 _ hperm ?_ _).1
      hok
  have hleaf {b b' : Batch} (hb : ∀ f ∈ b.functions, f = ⟨0⟩ ∨ f = ⟨1⟩) :
      ¬ b.RefersTo callsThroughClosure b' := by
    rintro ⟨f, hf, h, -, decl, hdecl, hmem, -⟩
    rcases hb f hf with rfl | rfl
    all_goals
      cases hdecl
      cases hmem
  exact .cons (fun _ _ => hleaf (by decide))
    (.cons (fun _ _ => hleaf (by decide)) (List.pairwise_singleton _ _))

end EscapeFlow
