import EscapeFlow.Proofs.Covering
import EscapeFlow.Proofs.Placing
import Mathlib

/-!
# Precise calls inside a batch

A call of a function of the same batch can lead to the parameters and from the results of the
callee, or all arguments can be sent to the heap.  The graph built the second way covers the
graph built the first way:

    build p fs summary? ⟨true, notes⟩ = .ok b → build p fs summary? ⟨false, notes⟩ = .ok b' →
      Covers b'.graph b.graph                                                    (build_pair)

so that nothing is put on the heap by precise calls that is not there without them, slots of
results apart (`heap_of_preciseCalls`).
-/

namespace EscapeFlow

open BatchGraph

/-- What holds between the graphs of `fs` that are built with and without precise calls. -/
structure PrecisePair (p : Program) (fs : List FuncId) (b b' : BatchGraph) : Prop where
  covers : Covers b'.graph b.graph
  vars : b'.vars = b.vars
  sites : b'.sites = b.sites
  three_le : 3 ≤ b.graph.size
  placed : ∀ v l, b.varLoc? v = some l → 3 ≤ l ∧ l < b.graph.size
  results : ∀ f ∈ fs, ∀ d, p.function? f = some d → ∀ r ∈ d.results,
    ∃ l, b.varLoc? r = some l ∧ (b.graph.loc l).result.isSome = true
  owners : ∀ l, (b.graph.loc l).result.isSome = true →
    ∃ f ∈ fs, ∃ d, p.function? f = some d ∧ ∃ r ∈ d.results,
      (b.graph.loc l).owner = .site (.var r)

namespace PrecisePair

variable {p : Program} {fs : List FuncId} {b b' : BatchGraph}

/-- A change that keeps the table of variables, the locations and their roles. -/
theorem keep (h : PrecisePair p fs b b') {c c' : BatchGraph} (hc : Covers c'.graph c.graph)
    (hvars : c.vars = b.vars) (hvars' : c'.vars = b'.vars) (hsites : c'.sites = c.sites)
    (hsize : c.graph.size = b.graph.size)
    (hrole : ∀ l, (c.graph.loc l).role = (b.graph.loc l).role) : PrecisePair p fs c c' := by
  have hloc : ∀ v, c.varLoc? v = b.varLoc? v := fun v => by rw [varLoc?, varLoc?, hvars]
  have hresult : ∀ l, (c.graph.loc l).result = (b.graph.loc l).result := fun l =>
    congrArg Role.result (hrole l)
  constructor
  · exact hc
  · rw [hvars', h.vars, hvars]
  · exact hsites
  · rw [hsize]
    exact h.three_le
  · intro v l hv
    rw [hloc] at hv
    rw [hsize]
    exact h.placed v l hv
  · intro f hf d hd r hr
    obtain ⟨l, hl, hres⟩ := h.results f hf d hd r hr
    exact ⟨l, (hloc r).trans hl, by rwa [hresult]⟩
  · intro l hl
    rw [hresult] at hl
    obtain ⟨f, hf, d, hd, r, hr, howner⟩ := h.owners l hl
    exact ⟨f, hf, d, hd, r, hr, (congrArg Role.owner (hrole l)).trans howner⟩

theorem flow (h : PrecisePair p fs b b') {k k' : Hole} {src : LocId} (notes notes' : Bool)
    (hd : k'.derefs = k.derefs) (hk : k'.dst = k.dst ∨ k'.dst = some heapId) (h3 : 3 ≤ src)
    (hsrc : src < b.graph.size) :
    PrecisePair p fs (b.flow notes k src) (b'.flow notes' k' src) :=
  h.keep (h.covers.flow hd hk h3 hsrc) (flow_vars _ _ _ _) (flow_vars _ _ _ _)
    (by rw [flow_sites, flow_sites, h.sites]) (flow_size _ _ _ _) Covers.flow_role

theorem flow_left (h : PrecisePair p fs b b') (notes : Bool) (k : Hole) {src : LocId}
    (hres : (b.graph.loc src).result.isSome = true) :
    PrecisePair p fs (b.flow notes k src) b' :=
  h.keep (h.covers.flow_left hres) (flow_vars _ _ _ _) rfl (by rw [flow_sites, h.sites])
    (flow_size _ _ _ _) Covers.flow_role

theorem update (h : PrecisePair p fs b b') (l : LocId) {f : Location → Location}
    (hrole : ∀ x, (f x).role = x.role) (hedges : ∀ x, (f x).edges = x.edges)
    (hattrs : ∀ x, (f x).attrs = x.attrs)
    (hdepth : ∀ x y : Location, y.loopDepth = x.loopDepth → (f y).loopDepth = (f x).loopDepth) :
    PrecisePair p fs (b.update l f) (b'.update l f) :=
  h.keep (h.covers.update l hrole hedges hattrs hdepth) rfl rfl h.sites (b.graph.update_size l f)
    fun x => b.graph.update_view _ l x hrole

/-- A variable without location may get one; all others stay where they are. -/
theorem varLoc?_cases {c : BatchGraph} {n : LocId}
    (hvars : c.vars = b.vars ∨ ∃ v, b.varLoc? v = none ∧ c.vars = (v, n) :: b.vars) :
    (∀ v l, c.varLoc? v = some l → b.varLoc? v = some l ∨ l = n) ∧
      ∀ v l, b.varLoc? v = some l → c.varLoc? v = some l := by
  unfold varLoc?
  rcases hvars with hvars | ⟨w, hw, hvars⟩
  · rw [hvars]
    exact ⟨fun _ _ => .inl, fun _ _ => id⟩
  · rw [hvars]
    constructor
    · intro v l hv
      rw [List.lookup_cons] at hv
      split at hv
      · exact .inr (Option.some.inj hv).symm
      · exact .inl hv
    · intro v l hv
      rw [List.lookup_cons]
      split
      · next heq =>
        rw [eq_of_beq heq, show b.vars.lookup w = none from hw] at hv
        cases hv
      · exact hv

/-- A new location in both graphs, which may be that of a variable without one. -/
theorem push (h : PrecisePair p fs b b') {x : Location} (hedges : x.edges = [])
    (hresult : x.result = none) (hattrs : x.escapes = false ∨ x.attrs = .all)
    {c c' : BatchGraph} (hc : c.graph = b.graph.push x) (hc' : c'.graph = b'.graph.push x)
    (hvars : c.vars = b.vars ∨ ∃ v, b.varLoc? v = none ∧ c.vars = (v, b.graph.size) :: b.vars)
    (hvars' : c'.vars = c.vars) (hsites : c'.sites = c.sites) : PrecisePair p fs c c' := by
  obtain ⟨hold, hkept⟩ := varLoc?_cases hvars
  have hsize : c.graph.size = b.graph.size + 1 := by rw [hc, b.graph.push_size]
  have hnew : ∀ l, (c.graph.loc l).result.isSome = true →
      c.graph.loc l = b.graph.loc l ∧ (b.graph.loc l).result.isSome = true := by
    intro l hl
    rw [hc, b.graph.push_loc] at hl ⊢
    split at hl
    · rw [hresult] at hl
      cases hl
    · next hne =>
      rw [if_neg hne]
      exact ⟨rfl, hl⟩
  constructor
  · rw [hc, hc']
    refine h.covers.push hedges hresult fun he => ?_
    rcases hattrs with hattrs | hattrs
    · rw [hattrs] at he
      cases he
    · rw [hattrs]
      decide
  · exact hvars'
  · exact hsites
  · rw [hsize]
    exact Nat.le_succ_of_le h.three_le
  · intro v l hv
    rw [hsize]
    rcases hold v l hv with hv | rfl
    · exact ⟨(h.placed v l hv).1, Nat.lt_succ_of_lt (h.placed v l hv).2⟩
    · exact ⟨h.three_le, Nat.lt_succ_self _⟩
  · intro f hf d hd r hr
    obtain ⟨l, hl, hres⟩ := h.results f hf d hd r hr
    refine ⟨l, hkept r l hl, ?_⟩
    rw [hc, b.graph.push_loc_of_lt x (h.placed r l hl).2]
    exact hres
  · intro l hl
    obtain ⟨heq, hres⟩ := hnew l hl
    rw [heq]
    exact h.owners l hres

end PrecisePair

/-- With precise calls in the first build only, each build may fail on its own. -/
def preciseBuild (p : Program) (fs : List FuncId) : Coupling where
  loose := True
  Callee := fun _ => True
  Inside := fun _ => True
  State := fun _ b b' => PrecisePair p fs b b'
  Holes := fun k k' => k'.derefs = k.derefs ∧ (k'.dst = k.dst ∨ k'.dst = some heapId)

theorem lockstep_preciseBuild {s : Scene} (hs : s.precise = true) :
    Lockstep (preciseBuild s.program s.members) s { s with precise := false } where
  program := .refl _
  members := rfl
  reassigned := rfl
  addrTaken := rfl
  summary? := fun _ _ _ => rfl
  vars := fun h => h.vars
  sites := fun h => h.sites
  size := fun h => h.covers.size
  three_le := fun h => h.three_le
  placed := fun h hv => h.placed _ _ hv
  discard := ⟨rfl, .inl rfl⟩
  ofLoc := fun _ => ⟨rfl, .inl rfl⟩
  note := by
    rintro k k' why ⟨hd, hk⟩
    refine ⟨?_, ?_⟩
    · rw [Build.note_derefs, Build.note_derefs, hd]
    · rwa [Build.note_dst, Build.note_dst]
  derefs := fun h => h.1
  shift := fun _ _ h => ⟨rfl, h.2⟩
  flow := fun h hk h3 hsrc => h.flow _ _ hk.1 hk.2 h3 hsrc
  temp := fun _ persists h => h.push rfl rfl
    (.inl (Location.temp_escapes _ _ persists)) rfl rfl (.inl rfl) h.vars h.sites
  site := fun _ h _ => h.push rfl rfl (.inl (by exact Attrs.has_empty _)) rfl rfl (.inl rfl) h.vars
    (by simp only [pushSite, h.sites, h.covers.size])
  global := fun {_ b b' v _} h hv _ _ => h.push rfl rfl (.inr rfl) rfl rfl (.inr ⟨v, hv, rfl⟩)
    (by simp only [pushGlobal, pushVar, h.vars, h.covers.size]) h.sites
  captured := fun l h => h.update l (fun _ => rfl) (fun _ => rfl) (fun _ => rfl) fun _ _ h => h
  depth := fun l _ h => h.update l (fun _ => rfl) (fun _ => rfl) (fun _ => rfl) fun _ _ _ => rfl
  precise := fun _ => hs
  loosened := fun _ _ => trivial
  argument := fun _ _ _ => ⟨rfl, .inr rfl⟩
  result := by
    intro _ _ τ b b' f decl r l k h hf hdecl hr hl
    obtain ⟨l', hl', hres⟩ := h.results f (List.elem_iff.1 hf) decl hdecl r hr
    rw [hl] at hl'
    cases hl'
    exact h.flow_left _ k hres

/-! ## Builds with and without precise calls -/

theorem sinks_spec : ∀ l < 3, (Graph.sinks.loc l).result = none ∧
    ((Graph.sinks.loc l).escapes = true → (Graph.sinks.loc l).attrs.contains .all = true) := by
  decide

namespace Declared

variable {p : Program} {fs : List FuncId} {ds : List Function} {s : Scene} {b : BatchGraph}
  (h : Declared (ds.flatMap (Build.declEntries s)) b)

include h

/-- Slots of results belong to the results that functions declare. -/
theorem owner_of_result (hds : List.Forall₂ (fun f d => p.function? f = some d) fs ds) {l : LocId}
    (hl : (b.graph.loc l).result.isSome = true) : 3 ≤ l ∧ ∃ f ∈ fs, ∃ d,
      p.function? f = some d ∧ ∃ r ∈ d.results, (b.graph.loc l).owner = .site (.var r) := by
  rcases h.loc_cases l with ⟨h3, heq⟩ | ⟨h3, e, he, heq⟩ | ⟨-, heq⟩
  · rw [heq, (sinks_spec l h3).1] at hl
    cases hl
  · rw [heq] at hl ⊢
    obtain ⟨d, hd, he⟩ := List.mem_flatMap.1 he
    obtain ⟨f, hf, hfd⟩ := mem_of_forall₂ hds hd
    obtain ⟨howner, -, -, -, hres⟩ := Build.mem_declEntries he
    exact ⟨h3, f, hf, d, hfd, e.1, hres hl, howner⟩
  · rw [heq] at hl
    cases hl

/-- Only sinks escape. -/
theorem full : b.graph.Full := by
  intro l _ hl
  rcases h.loc_cases l with ⟨h3, heq⟩ | ⟨-, e, he, heq⟩ | ⟨-, heq⟩
  · rw [heq] at hl ⊢
    exact (sinks_spec l h3).2 hl
  · obtain ⟨d, -, he⟩ := List.mem_flatMap.1 he
    obtain ⟨-, -, -, hattrs, -⟩ := Build.mem_declEntries he
    rw [heq] at hl
    replace hl : e.2.attrs.escapes = true := hl
    rw [hattrs] at hl
    exact absurd hl (by decide)
  · rw [heq] at hl
    exact absurd hl (by decide)

theorem heap_escapes : (b.graph.loc heapId).escapes = true := by
  rcases h.loc_cases heapId with ⟨-, heq⟩ | ⟨h3, -⟩ | ⟨hle, -⟩
  · rw [heq]
    decide
  · exact absurd h3 (by decide)
  · rw [h.size] at hle
    exact absurd hle (Nat.not_succ_le_zero _)

/-- Before any body is gone through there is nothing to tell the builds apart. -/
theorem precisePair (hds : List.Forall₂ (fun f d => p.function? f = some d) fs ds) :
    PrecisePair p fs b b := by
  constructor
  · exact .refl h.full h.heap_escapes fun l hl => (h.owner_of_result hds hl).1
  · rfl
  · rfl
  · rw [h.size]
    exact Nat.le_add_left _ _
  · intro v l hv
    obtain ⟨_, -, -, hl⟩ := h.of_varLoc? hv
    exact hl
  · intro f hf d hd r hr
    obtain ⟨x, hx, hres⟩ := Build.mem_declEntries_of_result s hr
    obtain ⟨l, hl, heq⟩ := h.varLoc?_of_mem
      (List.mem_flatMap.2 ⟨d, mem_of_forall₂_left hds hf hd, hx⟩)
    exact ⟨l, hl, by rwa [heq]⟩
  · exact fun l hl => (h.owner_of_result hds hl).2

end Declared

/-- Built without precise calls, the graph covers the one built with them. -/
theorem build_pair {p : Program} {fs : List FuncId} {summary? : FuncId → Option Summary}
    {notes : Bool} {b b' : BatchGraph} (hon : build p fs summary? ⟨true, notes⟩ = .ok b)
    (hoff : build p fs summary? ⟨false, notes⟩ = .ok b') : PrecisePair p fs b b' := by
  have hout : Outcome True (fun b b' => PrecisePair p fs b b') (build p fs summary? ⟨true, notes⟩)
      (build p fs summary? ⟨false, notes⟩) := by
    rw [build_eq, build_eq]
    refine (declarations_outcome (.refl p) fs).bind ?_
    rintro _ ds ⟨rfl, hds⟩
    set s := scene p fs summary? ⟨true, notes⟩ ds
    refine (Declared.empty.run_places (s := s) (.refl p) (ds.flatMap (Build.declEntries s))).bind ?_
    rintro _ ⟨⟨⟩, b⟩ ⟨rfl, hb⟩
    rw [List.nil_append] at hb
    have L := lockstep_preciseBuild (s := s) rfl
    refine ((L.bodies_steps ds (fun _ _ => trivial) fun _ _ _ _ _ _ => trivial) 0 b b
      (hb.precisePair hds) (Nat.zero_le _)).bind ?_
    rintro ⟨⟨⟩, b₁⟩ ⟨⟨⟩, b₁'⟩ ⟨hpair, -⟩
    exact .ok hpair
  rw [hon, hoff] at hout
  exact hout

/-! ## Decisions -/

/-- Whatever is put on the heap with precise calls, slots of results apart, is put there
without them. -/
theorem heap_of_preciseCalls (c : Config) (hc : c.maxWalkRounds = 0) (p : Program) (batch : Batch)
    (summary? : FuncId → Option Summary) {on off : BatchRun}
    (hon : BatchRun.analyze { c with preciseRecursiveCalls := true } p batch summary? = .ok on)
    (hoff : BatchRun.analyze { c with preciseRecursiveCalls := false } p batch summary? = .ok off)
    {d : Decision} (hd : d ∈ on.output.decisions) (hheap : d.isHeap = true)
    (hslot : ∀ f ∈ batch.functions, ∀ decl, p.function? f = some decl →
      ∀ r ∈ decl.results, d.site ≠ .var r) :
    (∃ d' ∈ off.output.decisions, d'.site = d.site) ∧
      ∀ d' ∈ off.output.decisions, d'.site = d.site → d'.isHeap = true := by
  obtain ⟨b, hb, rfl⟩ := BatchRun.analyze_eq_ok hon
  obtain ⟨b', hb', hoff'⟩ := BatchRun.analyze_eq_ok hoff
  have hpair := build_pair hb hb'
  have hnodup := BatchRun.nodup_sites hoff
  obtain ⟨l, hl, hsite, hdec⟩ := mem_decisions.1 hd
  set o : SolveOptions := ⟨c.maxWalkRounds, 2 ≤ c.diagnosticLevel⟩
  replace hl : l < b.graph.size := hl.trans_eq (b.graph.solve_size .exact p o)
  have hrole : (b.graph.loc l).role.decided? = some d.site := by
    rw [← b.graph.solve_role .exact p o]
    exact hsite
  have hin : l ∈ escaping .exact p o b.graph := by
    rw [← hdec, Location.isHeap_decision] at hheap
    exact hheap
  have hin' : l ∈ escaping .exact p o b'.graph := by
    refine (hpair.covers.mem_escaping hc hl hin).resolve_right fun hres => ?_
    obtain ⟨f, hf, decl, hdecl, r, hr, howner⟩ := hpair.owners l hres
    refine hslot f hf decl hdecl r hr ?_
    unfold Role.decided? at hrole
    split at hrole
    · cases hrole
    · rw [show (b.graph.loc l).role.owner = _ from howner] at hrole
      exact (Option.some.inj hrole).symm
  -- the decision that is made for the same location without precise calls
  have hmem :
      ((b'.graph.solveWith .exact p o).graph.loc l).decision d.site ∈ off.output.decisions := by
    rw [hoff']
    refine mem_decisions.2 ⟨l, ?_, ?_, rfl⟩
    · exact (hl.trans_eq hpair.covers.size.symm).trans_eq (b'.graph.solve_size .exact p o).symm
    · show ((b'.graph.solveWith .exact p o).graph.loc l).role.decided? = _
      rw [b'.graph.solve_role, hpair.covers.role]
      exact hrole
  refine ⟨⟨_, hmem, rfl⟩, fun d' hd' hsite' => ?_⟩
  rw [List.inj_on_of_nodup_map hnodup hd' hmem hsite', Location.isHeap_decision]
  exact hin'

/-- A function that stores its argument in a global and calls itself with new storage. -/
def storingRecursion : Program where
  functions := #[
    { id := ⟨0⟩
      name := "f"
      params := [⟨1⟩]
      results := [⟨2⟩]
      body := some [.assign [.ident ⟨0⟩] [.ident ⟨1⟩],
        .ret [.call (.funcRef ⟨0⟩) [.new ⟨0⟩]]] }]
  vars := #[⟨⟨0⟩, "g", .globalVar, none⟩, ⟨⟨1⟩, "x", .param, some ⟨0⟩⟩,
    ⟨⟨2⟩, "r", .result, some ⟨0⟩⟩]
  sites := #[⟨⟨0⟩, .new, ⟨0⟩⟩]

def storingBatch : Batch := ⟨0, [⟨0⟩], [⟨0⟩], true, 0⟩

theorem heap_of_preciseCalls_storing :
    ∃ (on off : BatchRun) (d : Decision),
      BatchRun.analyze { Config.ofPreset .custom with preciseRecursiveCalls := true }
        storingRecursion storingBatch (fun _ => none) = .ok on ∧
      BatchRun.analyze { Config.ofPreset .custom with preciseRecursiveCalls := false }
        storingRecursion storingBatch (fun _ => none) = .ok off ∧
      d ∈ on.output.decisions ∧ d.isHeap = true ∧ d.site = .alloc ⟨0⟩ ∧
      ∀ d' ∈ off.output.decisions, d'.site = .alloc ⟨0⟩ → d'.isHeap = true := by
  have hon : (BatchRun.analyze { Config.ofPreset .custom with preciseRecursiveCalls := true }
      storingRecursion storingBatch (fun _ => none)).map (·.output.decisions) = .ok [
        ⟨.var ⟨1⟩, some ⟨0⟩, .stack, ⟨14⟩, false⟩, ⟨.var ⟨2⟩, some ⟨0⟩, .stack, ⟨2⟩, false⟩,
        ⟨.alloc ⟨0⟩, some ⟨0⟩, .heap, .all, false⟩] := by cbv
  have hoff : (BatchRun.analyze { Config.ofPreset .custom with preciseRecursiveCalls := false }
      storingRecursion storingBatch (fun _ => none)).map (fun _ => ()) = .ok () := by cbv
  obtain ⟨on, hon, hdecisions⟩ := exists_of_map_eq_ok hon
  obtain ⟨off, hoff, -⟩ := exists_of_map_eq_ok hoff
  have hd : ⟨.alloc ⟨0⟩, some ⟨0⟩, .heap, .all, false⟩ ∈ on.output.decisions := by
    rw [hdecisions]
    decide
  refine ⟨on, off, _, hon, hoff, hd, rfl, rfl, ?_⟩
  refine (heap_of_preciseCalls _ rfl _ _ _ hon hoff hd rfl ?_).2
  intro f _ decl _ r _ hnone
  cases hnone

end EscapeFlow
