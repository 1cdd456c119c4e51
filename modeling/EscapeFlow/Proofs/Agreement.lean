import EscapeFlow.Proofs.Recasting

/-!
# Bodies that do the same

If each of two bodies does all that the other does, solving gives the same for both: the graphs map
into each other, so that each site has the same attributes and each parameter the same leaks.

    p.Recasts xs ys p' → Within xs ys → Within ys xs → … →
      r'.output.decisions.Perm r.output.decisions ∧
        r'.output.summaries = r.output.summaries                      (output_eq_of_within)

Maps say something of the four attributes only.  Attributes are the same to the bit since building
and solving set no bit but these (`Attrs.Plain`).
-/

namespace EscapeFlow

open BatchGraph Build

/-! ## Attributes without further bits -/

namespace Attrs

/-- No bit is set but those of the four attributes. -/
def Plain (s : Attrs) : Prop := s.inter all = s

instance (s : Attrs) : Decidable s.Plain := inferInstanceAs (Decidable (s.inter all = s))

theorem plain_empty : empty.Plain := by decide

theorem plain_all : all.Plain := by decide

theorem plain_ofAttr (a : Attr) : (ofAttr a).Plain := by
  cases a <;> decide

variable {s t : Attrs}

theorem Plain.union (hs : s.Plain) (ht : t.Plain) : (s.union t).Plain := by
  have hbits : s.bits &&& 15 = s.bits := congrArg bits hs
  have hbits' : t.bits &&& 15 = t.bits := congrArg bits ht
  show Attrs.mk ((s.bits ||| t.bits) &&& 15) = ⟨s.bits ||| t.bits⟩
  rw [BitVec.and_or_distrib_right, hbits, hbits']

theorem plain_inter_effects (s : Attrs) : (s.inter effects).Plain := by
  show Attrs.mk (s.bits &&& 12 &&& 15) = ⟨s.bits &&& 12⟩
  rw [BitVec.and_assoc]
  rfl

/-- The four attributes are all there is to compare. -/
theorem Plain.eq_of_le (hs : s.Plain) (ht : t.Plain) (h : s ≤ t) (h' : t ≤ s) : s = t := by
  have hhas : ∀ a, s.has a = t.has a := fun a => Bool.eq_iff_iff.2 ⟨h a, h' a⟩
  rw [← hs, ← ht]
  refine congrArg Attrs.mk (BitVec.eq_of_getLsbD_eq fun i hi => ?_)
  rw [BitVec.getLsbD_and, BitVec.getLsbD_and]
  by_cases hlow : i < 4
  · have hbit : ∃ a : Attr, a.bit = i := by
      interval_cases i
      · exact ⟨.escapes, rfl⟩
      · exact ⟨.persists, rfl⟩
      · exact ⟨.mutates, rfl⟩
      · exact ⟨.calls, rfl⟩
    obtain ⟨a, rfl⟩ := hbit
    exact congrArg (· && _) (hhas a)
  · have hzero : ∀ j < 8, 4 ≤ j → all.bits.getLsbD j = false := by decide
    rw [hzero i hi (by omega), Bool.and_false, Bool.and_false]

end Attrs

theorem learned_plain (p : Program) (g : Graph) (s : Attrs) (root l : LocId) (d : Int) :
    (learned p g s root l d).Plain := by
  have haddress : (learnedByAddress p g s root l).Plain := by
    unfold learnedByAddress
    split
    · exact Attrs.plain_all
    · split
      · exact Attrs.plain_ofAttr _
      · exact Attrs.plain_empty
  refine .union ?_ ?_
  · split
    · exact haddress
    · exact Attrs.plain_empty
  · split
    · exact s.plain_inter_effects
    · exact Attrs.plain_empty

theorem solve_plain {p : Program} {g : Graph} {o : SolveOptions} (ho : o.maxWalks = 0)
    (h : ∀ l, (g.loc l).attrs.Plain) (l : LocId) :
    ((g.solveWith .exact p o).graph.loc l).attrs.Plain := by
  obtain ⟨m, hd, hf, hm⟩ := solve_drains .exact p g o ho
  rw [hm, g.withMarks_attrs hf]
  refine hd.marks g.marks_fits (fun r hr => List.mem_range.1 hr) (N := fun _ _ _ => True)
    (fun _ => ⟨trivial, fun _ _ _ _ _ _ => trivial⟩) (fun m => ∀ l, (m.attrsOf l).Plain) ?_ ?_ l
  · intro w root x d hf hx _ hw y
    rcases w.learn_attrsOf p g o.recordPaths root x d (by rw [hf.attrs]; exact hx) y with
      he | ⟨-, -, he⟩
    · rw [he]
      exact hw y
    · rw [he]
      exact (hw y).union (learned_plain p g _ root x d)
  · intro y
    rw [g.marks_attrsOf]
    exact h y

/-! ## Graphs before they are solved -/

/-- Nothing leaks yet, and attributes have no further bits. -/
def BatchGraph.Unsolved (b : BatchGraph) : Prop :=
  ∀ l, (b.graph.loc l).leaks = .empty ∧ (b.graph.loc l).attrs.Plain

namespace BatchGraph.Unsolved

variable {b b' : BatchGraph}

theorem push (h : b.Unsolved) {x : Location} (hb : b'.graph = b.graph.push x)
    (hleaks : x.leaks = .empty) (hattrs : x.attrs.Plain) : b'.Unsolved := by
  intro l
  rw [hb, b.graph.push_loc]
  split
  · exact ⟨hleaks, hattrs⟩
  · exact h l

theorem update (h : b.Unsolved) (l : LocId) {f : Location → Location}
    (hleaks : ∀ x, (f x).leaks = x.leaks) (hattrs : ∀ x, (f x).attrs = x.attrs) :
    (b.update l f).Unsolved := by
  intro x
  show ((b.graph.update l f).loc x).leaks = _ ∧ ((b.graph.update l f).loc x).attrs.Plain
  rw [b.graph.update_view Location.leaks l x hleaks, b.graph.update_view Location.attrs l x hattrs]
  exact h x

end BatchGraph.Unsolved

/-- Building does not solve. -/
instance : DeepEvolution fun b b' => b.Unsolved → b'.Unsolved where
  refl _ := id
  trans h h' hb := h' (h hb)
  flow b notes k src hb l := by
    rw [Covers.flow_leaks]
    refine ⟨(hb l).1, ?_⟩
    rcases b.attrs_flow notes k src l with hsame | ⟨-, hall⟩
    · rw [hsame]
      exact (hb l).2
    · rw [hall]
      exact (hb l).2.union Attrs.plain_all
  temp b pl persists hb := by
    refine hb.push rfl rfl ?_
    cases persists with
    | false => exact Attrs.plain_empty
    | true => exact Attrs.plain_ofAttr .persists
  site b pl i _ hb := hb.push rfl rfl Attrs.plain_empty
  global b v _ hb := hb.push rfl rfl Attrs.plain_all
  captured b l hb := hb.update l (fun _ => rfl) fun _ => rfl
  depth b _ l _ _ hb := hb.update l (fun _ => rfl) fun _ => rfl

section Builds

variable {p : Program} {fs : List FuncId} {summary? : FuncId → Option Summary} {o : BuildOptions}
  {b : BatchGraph}

theorem build_unsolved (hb : build p fs summary? o = .ok b) : b.Unsolved := by
  obtain ⟨ds, b₀, -, hb₀, hrun, -⟩ := exists_passes hb
  refine (inferInstance : Respects (fun b b' => b.Unsolved → b'.Unsolved)
    (ds.forM (body _))).run hrun fun l => ?_
  refine hb₀.forall_loc (P := fun x => x.leaks = .empty ∧ x.attrs.Plain) (by decide) ?_
    ⟨rfl, Attrs.plain_empty⟩ l
  intro d e he
  refine ⟨(depth_leaks_of_mem_declEntries he).2, ?_⟩
  rw [(mem_declEntries he).2.2.2.1]
  exact Attrs.plain_ofAttr .persists

/-- A parameter has a location that is marked as one. -/
theorem build_param (hb : build p fs summary? o = .ok b) {f : FuncId} (hf : f ∈ fs) {d : Function}
    (hd : p.function? f = some d) {v : VarId} (hv : v ∈ d.params) :
    ∃ l, b.varLoc? v = some l ∧ (b.graph.loc l).isParam = true := by
  obtain ⟨ds, b₀, hds, hb₀, -, hk⟩ := exists_passes hb
  set s := scene p fs summary? o ds
  have hentry : (v, { varLocation s d.id v with isParam := true }) ∈ declEntries s d :=
    List.mem_append_left _ (List.mem_map.2 ⟨v, hv, rfl⟩)
  obtain ⟨l, hl, hloc⟩ := hb₀.varLoc?_of_mem
    (List.mem_flatMap.2 ⟨d, mem_of_forall₂_left hds hf hd, hentry⟩)
  refine ⟨l, hk.vars v l hl, ?_⟩
  have hrole := hk.role l (Graph.lt_size_of_site (hb₀.tabled v l hl))
  rw [hloc] at hrole
  exact congrArg Role.isParam hrole

end Builds

/-! ## Results that are the same -/

theorem Location.decision_congr {x y : Location} (hfunc : y.func = x.func)
    (hattrs : y.attrs = x.attrs) (site : Site) : y.decision site = x.decision site := by
  unfold Location.decision Location.placement Location.escapes
  rw [hfunc, hattrs]

section Agreement

variable {p p' : Program} {xs ys : List Stmt} {c : Config} {batch : Batch}
  {summary? : FuncId → Option Summary}

theorem eq_of_mem_decisions (hc : c.maxWalkRounds = 0) {r r' : BatchRun}
    (hr : BatchRun.analyze c p batch summary? = .ok r)
    (hr' : BatchRun.analyze c p' batch summary? = .ok r') {d d' : Decision}
    (hd : d ∈ r.output.decisions) (hd' : d' ∈ r'.output.decisions) (hsite : d'.site = d.site)
    (hfunc : d'.func = d.func) (hle : d.attrs ≤ d'.attrs) (hge : d'.attrs ≤ d.attrs) : d' = d := by
  obtain ⟨b, hb, rfl⟩ := BatchRun.analyze_eq_ok hr
  obtain ⟨b', hb', rfl⟩ := BatchRun.analyze_eq_ok hr'
  obtain ⟨l, -, -, hdec⟩ := mem_decisions.1 hd
  obtain ⟨l', -, -, hdec'⟩ := mem_decisions.1 hd'
  have hplain : d.attrs.Plain := by
    rw [← hdec]
    exact solve_plain hc (fun l => (build_unsolved hb l).2) l
  have hplain' : d'.attrs.Plain := by
    rw [← hdec']
    exact solve_plain hc (fun l => (build_unsolved hb' l).2) l'
  have hattrs := hplain'.eq_of_le hplain hge hle
  rw [← hdec, ← hdec'] at hfunc hattrs
  rw [← hdec, ← hdec', hsite]
  exact Location.decision_congr hfunc hattrs d.site

variable (hp : p.Recasts xs ys p') (hw : Within xs ys)
  (hdepth : ∀ v, depthOf (p.declDepths batch.functions) v 0 =
    depthOf (p'.declDepths batch.functions) v 0)

include hp hw hdepth

theorem leaks_subsume {o : BuildOptions} {b b' : BatchGraph}
    (hb : build p batch.functions summary? o = .ok b)
    (hb' : build p' batch.functions summary? o = .ok b') {so : SolveOptions} (hso : so.maxWalks = 0)
    {v : VarId} {l l' : LocId} (hl : b.varLoc? v = some l) (hl' : b'.varLoc? v = some l')
    (hparam : (b.graph.loc l).isParam = true) :
    ((b'.graph.solveWith .exact p' so).graph.loc l').leaks.Subsumes
      ((b.graph.solveWith .exact p so).graph.loc l).leaks := by
  obtain ⟨ρ, hmaps, hrole⟩ := build_maps hp hw hdepth hb hb' so hso
  have hwf := wellFormed_of_build hb
  have hwf' := wellFormed_of_build hb'
  have hlt := (hwf.holds_of_var hl).2
  -- the location of the variable is sent to that of the variable
  have howner : (b'.graph.loc (ρ l)).owner = .site (.var v) :=
    (congrArg Role.owner (hrole l hlt)).trans ((hwf.var_iff v l).1 hl)
  obtain rfl : ρ l = l' := Option.some.inj (((hwf'.var_iff v (ρ l)).2 howner).symm.trans hl')
  exact (hmaps.solve_leaks hso hso hwf'.graph_full (fun l _ => (build_unsolved hb l).1) hlt
    hparam).of_optimize

variable (hc : c.maxWalkRounds = 0) {r r' : BatchRun}
  (hr : BatchRun.analyze c p batch summary? = .ok r)
  (hr' : BatchRun.analyze c p' batch summary? = .ok r') (hw' : Within ys xs)

include hc hr hr' hw'

theorem decisions_subset : r.output.decisions ⊆ r'.output.decisions := by
  intro d hd
  obtain ⟨d', hd', hsite, hfunc, hle⟩ := exists_decision hp hw hc hdepth hr hr' hd
  obtain ⟨d₀, hd₀, hsite₀, -, hge⟩ :=
    exists_decision hp.symm hw' hc (fun v => (hdepth v).symm) hr' hr hd'
  obtain rfl : d₀ = d :=
    List.inj_on_of_nodup_map (BatchRun.nodup_sites hr) hd₀ hd (hsite₀.trans hsite)
  rw [← eq_of_mem_decisions hc hr hr' hd hd' hsite hfunc hle hge]
  exact hd'

theorem summaries_eq : r'.output.summaries = r.output.summaries := by
  obtain ⟨b, hb, rfl⟩ := BatchRun.analyze_eq_ok hr
  obtain ⟨b', hb', rfl⟩ := BatchRun.analyze_eq_ok hr'
  show (batch.functions.filterMap p'.function?).map _ =
    (batch.functions.filterMap p.function?).map _
  rw [List.map_filterMap, List.map_filterMap]
  refine List.filterMap_congr fun f hf => ?_
  rcases hp.function?_cases f with ⟨hn, hn'⟩ | ⟨d, d', hd, hd', hrecast⟩
  · rw [hn, hn']
    rfl
  · rw [hd, hd']
    obtain ⟨hid, hparams, -, -, -, -, hnoescape, hexternal⟩ := hrecast.same
    refine congrArg some ?_
    show Summary.mk d'.id (d'.params.map _) = Summary.mk d.id (d.params.map _)
    rw [hid, hparams]
    refine congrArg (Summary.mk d.id) (List.map_congr_left fun v hv => ?_)
    obtain ⟨l, hl, hparam⟩ := build_param hb hf hd hv
    obtain ⟨l', hl', hparam'⟩ := build_param hb' hf hd' (by rwa [hparams])
    unfold paramLeaks
    rw [hexternal, hnoescape]
    split
    · rfl
    · rw [show (BatchRun.solved b' _).varLoc? v = some l' from hl',
        show (BatchRun.solved b _).varLoc? v = some l from hl]
      exact Leaks.optimize_eq_of_subsumes (leaks_subsume hp hw hdepth hb hb' hc hl hl' hparam)
        (leaks_subsume hp.symm hw' (fun v => (hdepth v).symm) hb' hb hc hl' hl hparam')

/-- The runs decide the same and summarise the same. -/
theorem output_eq_of_within :
    r'.output.decisions.Perm r.output.decisions ∧ r'.output.summaries = r.output.summaries := by
  refine ⟨?_, summaries_eq hp hw hdepth hc hr hr' hw'⟩
  refine (List.perm_ext_iff_of_nodup (BatchRun.nodup_sites hr').of_map
    (BatchRun.nodup_sites hr).of_map).2 fun d => ⟨?_, ?_⟩
  · exact fun hd => decisions_subset hp.symm hw' (fun v => (hdepth v).symm) hc hr' hr hw hd
  · exact fun hd => decisions_subset hp hw hdepth hc hr hr' hw' hd

end Agreement

end EscapeFlow
