import EscapeFlow.Proofs.CallExpansion
import EscapeFlow.Proofs.LeakSummary
import Mathlib

/-!
# Summaries against inlining

A call can be modelled in two ways: by the summary of the callee, as `Build.argumentFlows` does,
or by the graph of the callee itself, with edges from its parameters to the arguments and from
the places of the results to its results (`inlined`).  The summary misses nothing that inlining
would find:

    l ∈ escaping .exact p o (inlined c f x) → l ∈ escaping .int32 p o b'.graph
                                                                  (Expands.escaping_of_inlined)

for every location `l` of the caller, where `b'` is the caller with the call expanded.  With sums of
32 bits this needs that the sums of the inlined graph fit (`escapes_of_inlined`).  A flow
path of the inlined graph can go in and out of the callee many times.  It is followed edge by
edge (`tracked_step`): at a location of the caller there is a path of the expanded graph that is
no longer (`Reaches`); at one of the callee there is a path inside the callee, from the result
at which it was entered or from a location that escapes there (`Inside`), which is what the
summary of the parameter where it leaves has on record.
-/

namespace EscapeFlow

/-! ## The inlined graph -/

/-- A call: parameters and results are locations of the callee, each argument is a location of
the caller after a number of dereferences, and results go to `holes`. -/
structure CallSite where
  params : List LocId
  results : List LocId
  args : List (LocId × Int)
  holes : Option (List Hole)

/-- The place of location `l` of the callee after `n` locations of the caller; the sinks are
shared. -/
def embed (n l : Nat) : Nat := if isSinkId l then l else n + (l - 3)

def Edge.embed (n : Nat) (e : Edge) : Edge := { e with src := EscapeFlow.embed n e.src }

namespace CallSite

/-- The edges from parameter `q` to its arguments. -/
def argumentEdges (x : CallSite) (q : LocId) : List Edge :=
  (x.params.zip x.args).filterMap fun pa =>
    if pa.1 = q then some ⟨pa.2.1, pa.2.2, []⟩ else none

/-- The edges from location `l` of the caller to the results that go there. -/
def resultEdges (x : CallSite) (n : Nat) (l : LocId) : List Edge :=
  (x.results.zip (x.holes.getD [])).filterMap fun rk =>
    if rk.2.dst = some l then some ⟨embed n rk.1, rk.2.derefs, []⟩ else none

def callerLoc (x : CallSite) (c f : Graph) (l : LocId) : Location :=
  { c.loc l with
    edges := (c.loc l).edges ++
      ((if isSinkId l then (f.loc l).edges.map (Edge.embed c.size) else []) ++
        x.resultEdges c.size l) }

/-- The results of the callee are no results of the caller. -/
def calleeLoc (x : CallSite) (c f : Graph) (q : LocId) : Location :=
  { f.loc q with
    result := none
    edges := (f.loc q).edges.map (Edge.embed c.size) ++ x.argumentEdges q }

end CallSite

/-- The caller `c` and the callee `f` in one graph, joined at the call `x`. -/
def inlined (c f : Graph) (x : CallSite) : Graph where
  locs := .mk ((List.range (c.size + (f.size - 3))).map fun i =>
    if i < c.size then x.callerLoc c f i else x.calleeLoc c f (i - c.size + 3))

/-- What building guarantees of a graph: the sinks have the attributes they start with and are
never the source of an edge, and what escapes has all attributes. -/
structure Graph.Proper (g : Graph) : Prop where
  size : 3 ≤ g.size
  heap : (g.loc heapId).attrs = .all
  mutator : (g.loc mutatorId).attrs = .ofAttr .mutates
  callee : (g.loc calleeId).attrs = .ofAttr .calls
  sources : ∀ l, l < g.size → ∀ e ∈ (g.loc l).edges, 3 ≤ e.src ∧ e.src < g.size
  full : g.Full

/-- The call `x` is one of the callee `f` by the caller `c`. -/
structure CallSite.Fits (x : CallSite) (c f : Graph) : Prop where
  params : ∀ q ∈ x.params, 3 ≤ q ∧ q < f.size ∧ (f.loc q).isParam = true
  results : ∀ j r, x.results[j]? = some r → 3 ≤ r ∧ r < f.size ∧ (f.loc r).result = some j
  args : ∀ a ∈ x.args, 3 ≤ a.1 ∧ a.1 < c.size ∧ -1 ≤ a.2
  holes : ∀ k ∈ x.holes.getD [], k.Fits c.size

/-- No function of the callee is one of the caller, or has one of them nested in it. -/
def Apart (p : Program) (c f : Graph) : Prop :=
  ∀ l, l < c.size → ∀ q, q < f.size → ∀ fc ∈ (c.loc l).func, ∀ ff ∈ (f.loc q).func,
    ff ≠ fc ∧ p.containsClosure ff fc = false

instance (p : Program) (c f : Graph) : Decidable (Apart p c f) :=
  inferInstanceAs (Decidable (∀ l, l < c.size → _))

/-! ## Locations and edges of the inlined graph -/

theorem Graph.Proper.heap_escapes {g : Graph} (hg : g.Proper) :
    (g.loc heapId).escapes = true := by
  unfold Location.escapes
  rw [hg.heap]
  exact Attrs.has_all _

theorem Graph.Proper.source {g : Graph} (hg : g.Proper) {l : LocId} {e : Edge}
    (he : e ∈ (g.loc l).edges) : 3 ≤ e.src ∧ e.src < g.size :=
  hg.sources l (lt_size_of_mem_edges he) e he

theorem ne_sinks {l : Nat} (h : 3 ≤ l) : l ≠ mutatorId ∧ l ≠ calleeId := by
  unfold mutatorId calleeId
  omega

theorem eq_heapId {l : Nat} (h : l < 3) (hm : l ≠ mutatorId) (hc : l ≠ calleeId) :
    l = heapId := by
  unfold mutatorId at hm
  unfold calleeId at hc
  unfold heapId
  omega

theorem embed_of_lt {n l : Nat} (h : l < 3) : embed n l = l := by
  simp [embed, isSinkId, h]

theorem embed_of_le {n l : Nat} (h : 3 ≤ l) : embed n l = n + (l - 3) := by
  simp [embed, isSinkId, Nat.not_lt.2 h]

theorem le_embed {n l : Nat} (h : 3 ≤ l) : n ≤ embed n l := by
  rw [embed_of_le h]
  exact Nat.le_add_right n _

theorem embed_inj {n l k : Nat} (hl : 3 ≤ l) (hk : 3 ≤ k)
    (h : embed n l = embed n k) : l = k := by
  rw [embed_of_le hl, embed_of_le hk] at h
  omega

/-- The edges of the inlined graph, by source and weight: those of the caller and of the callee,
and those that the call adds. -/
inductive InlinedEdge (c f : Graph) (x : CallSite) : LocId → LocId → Int → Prop
  | caller {l : LocId} {e : Edge} : e ∈ (c.loc l).edges → InlinedEdge c f x l e.src e.derefs
  | callee {q : LocId} {e : Edge} : e ∈ (f.loc q).edges →
      InlinedEdge c f x (embed c.size q) (embed c.size e.src) e.derefs
  | argument {i : Nat} {q a : LocId} {w : Int} : x.params[i]? = some q →
      x.args[i]? = some (a, w) → InlinedEdge c f x (embed c.size q) a w
  | result {j : Nat} {r l : LocId} {k : Hole} : x.results[j]? = some r →
      (x.holes.getD [])[j]? = some k → k.dst = some l →
      InlinedEdge c f x l (embed c.size r) k.derefs

section Edges

variable {c f : Graph} {x : CallSite}

theorem inlined_size : (inlined c f x).size = c.size + (f.size - 3) := by
  simp [inlined, Graph.size]

theorem lt_inlined_size {l : Nat} (hl : l < c.size) : l < (inlined c f x).size := by
  rw [inlined_size]
  exact Nat.lt_add_right _ hl

theorem inlined_loc_caller {l : LocId} (hl : l < c.size) :
    (inlined c f x).loc l = x.callerLoc c f l := by
  rw [Graph.loc_of_lt _ l (lt_inlined_size hl)]
  simp [inlined, hl]

theorem embed_lt_size {q : Nat} (h3 : 3 ≤ q) (hq : q < f.size) :
    embed c.size q < (inlined c f x).size := by
  rw [inlined_size, embed_of_le h3]
  omega

theorem inlined_loc_embed {q : Nat} (h3 : 3 ≤ q) (hq : q < f.size) :
    (inlined c f x).loc (embed c.size q) = x.calleeLoc c f q := by
  rw [Graph.loc_of_lt _ _ (embed_lt_size h3 hq)]
  simp [inlined, embed_of_le h3, Nat.sub_add_cancel h3]

/-- A location of the inlined graph is one of the caller or one of the callee. -/
theorem lt_or_eq_embed {l : Nat} (hl : l < (inlined c f x).size) :
    l < c.size ∨ ∃ q, 3 ≤ q ∧ q < f.size ∧ l = embed c.size q := by
  rcases Nat.lt_or_ge l c.size with h | h
  · exact .inl h
  · rw [inlined_size] at hl
    refine .inr ⟨l - c.size + 3, Nat.le_add_left 3 _, by omega, ?_⟩
    rw [embed_of_le (Nat.le_add_left 3 _)]
    omega

theorem mem_argumentEdges {q : LocId} {e : Edge} (he : e ∈ x.argumentEdges q) :
    ∃ i : Nat, x.params[i]? = some q ∧ x.args[i]? = some (e.src, e.derefs) := by
  obtain ⟨⟨q', a, w⟩, hmem, hite⟩ := List.mem_filterMap.1 he
  obtain ⟨i, hi⟩ := List.mem_iff_getElem?.1 hmem
  obtain ⟨hq, ha⟩ := List.getElem?_zip_eq_some.1 hi
  split at hite
  · next heq =>
    cases hite
    exact ⟨i, hq.trans (congrArg some heq), ha⟩
  · cases hite

theorem mem_resultEdges {n : Nat} {l : LocId} {e : Edge} (he : e ∈ x.resultEdges n l) :
    ∃ (j : Nat) (r : LocId) (k : Hole), x.results[j]? = some r ∧
      (x.holes.getD [])[j]? = some k ∧ k.dst = some l ∧
      e.src = embed n r ∧ e.derefs = k.derefs := by
  obtain ⟨⟨r, k⟩, hmem, hite⟩ := List.mem_filterMap.1 he
  obtain ⟨j, hj⟩ := List.mem_iff_getElem?.1 hmem
  obtain ⟨hr, hk⟩ := List.getElem?_zip_eq_some.1 hj
  split at hite
  · next heq =>
    cases hite
    exact ⟨j, r, k, hr, hk, heq, rfl, rfl⟩
  · cases hite

theorem inlinedEdge_of_mem {l : LocId} {e : Edge} (he : e ∈ ((inlined c f x).loc l).edges) :
    InlinedEdge c f x l e.src e.derefs := by
  rcases lt_or_eq_embed (Graph.lt_size_of_mem_edges he) with hl | ⟨q, h3, hq, rfl⟩
  · rw [inlined_loc_caller hl] at he
    rcases List.mem_append.1 he with he | he
    · exact .caller he
    · rcases List.mem_append.1 he with he | he
      · split at he
        · next hs =>
          obtain ⟨e', he', rfl⟩ := List.mem_map.1 he
          have := InlinedEdge.callee (c := c) (x := x) he'
          rwa [embed_of_lt (of_decide_eq_true hs)] at this
        · cases he
      · obtain ⟨j, r, k, hr, hk, hdst, hsrc, hd⟩ := mem_resultEdges he
        rw [hsrc, hd]
        exact .result hr hk hdst
  · rw [inlined_loc_embed h3 hq] at he
    rcases List.mem_append.1 he with he | he
    · obtain ⟨e', he', rfl⟩ := List.mem_map.1 he
      exact .callee he'
    · obtain ⟨i, hi, ha⟩ := mem_argumentEdges he
      exact .argument hi ha

/-- No sink is the source of an edge. -/
theorem InlinedEdge.source (hc : c.Proper) (hf : f.Proper) (hx : x.Fits c f) {l src : LocId}
    {w : Int} (h : InlinedEdge c f x l src w) : 3 ≤ src := by
  cases h with
  | caller he => exact (hc.source he).1
  | callee he => exact Nat.le_trans hc.size (le_embed (hf.source he).1)
  | argument _ ha => exact (hx.args _ (List.mem_of_getElem? ha)).1
  | result hr _ _ => exact Nat.le_trans hc.size (le_embed (hx.results _ _ hr).1)

/-- A flow path gets to a sink only if it starts there. -/
theorem eq_root_of_sink (hc : c.Proper) (hf : f.Proper) (hx : x.Fits c f) {r l : LocId} {d : Int}
    (h : FlowPath (inlined c f x) Set.univ r l d) (hl : l < 3) : l = r := by
  cases h with
  | root => rfl
  | step _ he _ => exact absurd hl (Nat.not_lt.2 ((inlinedEdge_of_mem he).source hc hf hx))

end Edges

/-! ## Inside the callee -/

/-- What callers see of parameter `q`. -/
def summaryLeaks (p : Program) (o : SolveOptions) (f : Graph) (q : LocId) : Leaks :=
  ((f.solve p o).graph.loc q).leaks.optimize

section Callee

variable {p : Program} {o : SolveOptions} {f : Graph}

theorem Graph.Proper.heap_mem_escaping (hf : f.Proper) (ho : o.maxWalks = 0) :
    heapId ∈ escaping .int32 p o f :=
  mem_escaping_of_escapes .int32 p ho hf.full hf.heap_escapes

/-- A result outlives everything in its function. -/
theorem outlives_of_result {r : LocId} (h3 : 3 ≤ r) (hr : (f.loc r).result.isSome = true)
    (attrs : Attrs) (q : LocId) : outlives p f attrs r q = true :=
  (outlives_iff p f attrs r q).2 (.inr ((outlives_empty_iff p f r q).2 ⟨ne_sinks h3, .inl hr⟩))

/-- A parameter that gets to a location which escapes leaks to the heap. -/
theorem heap_within_of_escaping (ho : o.maxWalks = 0) {z q : LocId} {d : Int}
    (hz : z ∈ escaping .int32 p o f) (hq : q < f.size) (hp : (f.loc q).isParam = true)
    (hpath : FlowPath f Set.univ z q d) :
    (summaryLeaks p o f q).Within .heap (Leaks.clampDepth d) :=
  (optimize_solved_within .int32 p f o ho hq hp hpath (records_heap_of_escapes z q hz)).elim id id

/-- A parameter that gets to a result leaks to it or to the heap. -/
theorem within_of_result (ho : o.maxWalks = 0) {r q : LocId} {j : Nat} {d : Int} (h3 : 3 ≤ r)
    (hr : (f.loc r).result = some j) (hq : q < f.size) (hp : (f.loc q).isParam = true)
    (hpath : FlowPath f Set.univ r q d) :
    (j < Sink.trackedResults ∧
        (summaryLeaks p o f q).Within (.result j) (Leaks.clampDepth d)) ∨
      (summaryLeaks p o f q).Within .heap (Leaks.clampDepth d) := by
  have hout : outlives p f ((f.solveWith .int32 p o).graph.loc r).attrs r q = true :=
    outlives_of_result h3 (by rw [hr]; rfl) _ q
  have hin := optimize_solved_within .int32 p f o ho hq hp hpath (records_leakSink hout)
  by_cases hsink : ((f.solveWith .int32 p o).graph.loc r).attrs.escapes = false ∧
      (f.loc r).func = (f.loc q).func ∧ j < Sink.trackedResults
  · obtain ⟨he, hfn, hj⟩ := hsink
    rw [leakSink_eq_result he hr hfn hj] at hin
    exact hin.imp (⟨hj, ·⟩) id
  · rw [leakSink_eq_heap] at hin
    · exact .inr (hin.elim id id)
    · intro i hi hfn hlt
      rw [hr] at hi
      cases hi
      exact eq_true_of_ne_false fun he => hsink ⟨he, hfn, hlt⟩

end Callee

/-! ## Following a path of the inlined graph -/

/-- `g` is the caller with the call expanded: every argument feeds the places that the summary of
its parameter names. -/
structure Expands (p : Program) (o : SolveOptions) (c f : Graph) (x : CallSite) (g : Graph) :
    Prop where
  grows : c.Extends g
  feeds : ∀ (i : Nat) (q a : LocId) (w : Int) (dst : LocId) (d : Int), x.params[i]? = some q →
    x.args[i]? = some (a, w) → LeadsTo (summaryLeaks p o f q) x.holes (some dst) d →
    Feeds g dst a (d + w)

/-- In the expanded graph `l` escapes, or flows into a member of `Z` in at most `d`
dereferences. -/
def Reaches (p : Program) (o : SolveOptions) (g : Graph) (Z : Set LocId) (l : LocId) (d : Int) :
    Prop :=
  l ∈ escaping .int32 p o g ∨ ∃ z ∈ Z, ∃ n, n ≤ d ∧ FlowPath g Set.univ z l n

/-- A path is at location `q` of the callee after `d` dereferences.  It has been at a location
that escapes there, or it came in by a result whose place is reached in the expanded graph. -/
inductive Inside (p : Program) (o : SolveOptions) (f : Graph) (x : CallSite) (g : Graph)
    (Z : Set LocId) (q : LocId) (d : Int) : Prop
  | escaped {z : LocId} {n : Int} : z ∈ escaping .int32 p o f → FlowPath f Set.univ z q n →
      n ≤ max d 0 → Inside p o f x g Z q d
  | entered {j : Nat} {r l : LocId} {k : Hole} {t n : Int} : x.results[j]? = some r →
      (x.holes.getD [])[j]? = some k → k.dst = some l → Reaches p o g Z l t →
      FlowPath f Set.univ r q n → 0 ≤ n → max t 0 + k.derefs + n ≤ d → Inside p o f x g Z q d

/-- What is known of a path of the inlined graph that is at `y` after `d` dereferences. -/
def Tracked (p : Program) (o : SolveOptions) (c f : Graph) (x : CallSite) (g : Graph)
    (Z : Set LocId) (y : LocId) (d : Int) : Prop :=
  (y < c.size ∧ y ≠ mutatorId ∧ y ≠ calleeId ∧ Reaches p o g Z y d) ∨
    ∃ q, 3 ≤ q ∧ q < f.size ∧ y = embed c.size q ∧ Inside p o f x g Z q d

section Following

variable {p : Program} {o : SolveOptions} {c f g : Graph} {x : CallSite} {Z : Set LocId}

theorem Reaches.mono {l : LocId} {d d' : Int} (h : Reaches p o g Z l d) (hd : d ≤ d') :
    Reaches p o g Z l d' := by
  rcases h with h | ⟨z, hz, n, hn, hpath⟩
  · exact .inl h
  · exact .inr ⟨z, hz, n, Int.le_trans hn hd, hpath⟩

theorem Reaches.edge (hZ : escaping .int32 p o g ⊆ Z) {l : LocId} {d : Int}
    (h : Reaches p o g Z l d) {e : Edge} (he : e ∈ (g.loc l).edges) :
    Reaches p o g Z e.src (max d 0 + e.derefs) := by
  rcases h with h | ⟨z, hz, n, hn, hpath⟩
  · exact .inr ⟨l, hZ h, _, by omega, FlowPath.root.step he trivial⟩
  · exact .inr ⟨z, hz, _, by omega, hpath.step he trivial⟩

theorem Reaches.fed (ho : o.maxWalks = 0) (hg : g.Full) (hZ : escaping .int32 p o g ⊆ Z)
    {l src : LocId} {d n : Int} (h : Reaches p o g Z l d) (hfed : Fed g l src n) :
    Reaches p o g Z src (max d 0 + n) := by
  rcases hfed with ⟨-, hesc⟩ | ⟨rfl, hn⟩ | ⟨e, he, rfl, rfl⟩
  · exact .inl (mem_escaping_of_escapes .int32 p ho hg hesc)
  · exact h.mono (by omega)
  · exact h.edge hZ he

theorem Reaches.feeds (ho : o.maxWalks = 0) (hg : g.Full) (hZ : escaping .int32 p o g ⊆ Z)
    {l src : LocId} {d n : Int} (h : Reaches p o g Z l d) (hfeeds : Feeds g l src n) :
    Reaches p o g Z src (max d 0 + n) := by
  rcases hfeeds with hfed | ⟨t, m, hm, hfed, hfed'⟩
  · exact h.fed ho hg hZ hfed
  · exact ((h.fed ho hg hZ hfed).fed ho hg hZ hfed').mono (by omega)

/-- Coming in by a result. -/
theorem Reaches.enter {j : Nat} {r l : LocId} {k : Hole} {t : Int} (h : Reaches p o g Z l t)
    (hr : x.results[j]? = some r) (hk : (x.holes.getD [])[j]? = some k) (hl : k.dst = some l) :
    Inside p o f x g Z r (max t 0 + k.derefs) :=
  .entered hr hk hl h .root (Int.le_refl 0) (by omega)

/-- Going on inside the callee. -/
theorem Inside.edge (ho : o.maxWalks = 0) (hf : f.Proper) (hx : x.Fits c f) {q : LocId} {d : Int}
    (h : Inside p o f x g Z q d) {e : Edge} (he : e ∈ (f.loc q).edges) :
    Inside p o f x g Z e.src (max d 0 + e.derefs) := by
  cases h with
  | escaped hz hpath hn => exact .escaped hz (hpath.step he trivial) (by omega)
  | @entered j r l k t n hr hk hl hreach hpath h0 hle =>
    have hpath' := hpath.step he trivial
    by_cases hneg : max n 0 + e.derefs < 0
    · -- the address of this location gets to a result, so it escapes in the callee
      obtain ⟨h3, -, hres⟩ := hx.results j r hr
      have hmem := (escaping_escapeClosed .int32 p f o ho hf.full).address r e.src _
        (hf.source he).2 hpath' hneg
        (.inr (outlives_of_result h3 (by rw [hres]; rfl) _ _))
      exact .escaped hmem .root (by omega)
    · exact .entered hr hk hl hreach hpath' (by omega) (by omega)

/-- Leaving by an argument. -/
theorem Inside.leave (ho : o.maxWalks = 0) (hc : c.Proper) (hx : x.Fits c f)
    (hexp : Expands p o c f x g) (hZ : escaping .int32 p o g ⊆ Z) {i : Nat} {q a : LocId}
    {w d : Int} (h : Inside p o f x g Z q d) (hq : x.params[i]? = some q)
    (ha : x.args[i]? = some (a, w)) :
    Reaches p o g Z a (max d 0 + w) := by
  have hg : g.Full := hexp.grows.full hc.full
  obtain ⟨-, hlt, hparam⟩ := hx.params q (List.mem_of_getElem? hq)
  -- a heap record that is deep enough suffices
  have hheap : heapId ∈ escaping .int32 p o g :=
    mem_escaping_of_escapes .int32 p ho hg (hexp.grows.escapes hc.heap_escapes)
  have hdone : ∀ n : Int, n ≤ max d 0 →
      (summaryLeaks p o f q).Within .heap (Leaks.clampDepth n) →
      Reaches p o g Z a (max d 0 + w) := by
    rintro n hn ⟨m, hm, hget⟩
    have hclamp := Leaks.clampDepth_le n
    have hfeeds := hexp.feeds i q a w heapId m hq ha (.heap hget)
    exact (Reaches.feeds ho hg hZ (d := 0) (.inl hheap) hfeeds).mono (by omega)
  cases h with
  | escaped hz hpath hn => exact hdone _ hn (heap_within_of_escaping ho hz hlt hparam hpath)
  | @entered j r l k t n hr hk hl hreach hpath h0 hle =>
    obtain ⟨h3, -, hres⟩ := hx.results j r hr
    have hk0 := (hx.holes k (List.mem_of_getElem? hk)).derefs
    rcases within_of_result ho h3 hres hlt hparam hpath with ⟨hj, m, hm, hget⟩ | hin
    · have hclamp := Leaks.clampDepth_le n
      have hto := LeadsTo.result hj hget hk
      rw [hl] at hto
      exact (hreach.feeds ho hg hZ (hexp.feeds i q a w l _ hq ha hto)).mono (by omega)
    · exact hdone n (by omega) hin

/-- One edge further. -/
theorem tracked_step (ho : o.maxWalks = 0) (hc : c.Proper) (hf : f.Proper) (hx : x.Fits c f)
    (hexp : Expands p o c f x g) (hZ : escaping .int32 p o g ⊆ Z) {y src : LocId} {d w : Int}
    (h : Tracked p o c f x g Z y d) (he : InlinedEdge c f x y src w) :
    Tracked p o c f x g Z src (max d 0 + w) := by
  cases he with
  | @caller l e he =>
    obtain ⟨h3, hlt⟩ := hc.source he
    rcases h with ⟨-, -, -, hreach⟩ | ⟨q, hq3, -, rfl, -⟩
    · exact .inl ⟨hlt, (ne_sinks h3).1, (ne_sinks h3).2,
        hreach.edge hZ (hexp.grows.mem_edges he)⟩
    · exact absurd (Graph.lt_size_of_mem_edges he) (Nat.not_lt.2 (le_embed hq3))
  | @callee q e he =>
    obtain ⟨h3, hlt⟩ := hf.source he
    refine .inr ⟨e.src, h3, hlt, rfl, ?_⟩
    rcases Nat.lt_or_ge q 3 with hq | hq
    · -- the only sink that a path of interest goes through is the heap, where it starts
      rw [embed_of_lt hq] at h
      rcases h with ⟨-, hm, hcl, -⟩ | ⟨q', hq3, -, rfl, -⟩
      · obtain rfl := eq_heapId hq hm hcl
        exact .escaped (hf.heap_mem_escaping ho) (FlowPath.root.step he trivial) (by omega)
      · exact absurd hq (Nat.not_lt.2 (Nat.le_trans hc.size (le_embed hq3)))
    · rcases h with ⟨hlt', -⟩ | ⟨q', hq3, -, heq, hin⟩
      · exact absurd hlt' (Nat.not_lt.2 (le_embed hq))
      · obtain rfl := embed_inj hq hq3 heq
        exact hin.edge ho hf hx he
  | @argument i q _ _ hq ha =>
    obtain ⟨hq3, -, -⟩ := hx.params q (List.mem_of_getElem? hq)
    obtain ⟨h3, hlt, -⟩ := hx.args (src, w) (List.mem_of_getElem? ha)
    refine .inl ⟨hlt, (ne_sinks h3).1, (ne_sinks h3).2, ?_⟩
    rcases h with ⟨hlt', -⟩ | ⟨q', hq3', -, heq, hin⟩
    · exact absurd hlt' (Nat.not_lt.2 (le_embed hq3))
    · obtain rfl := embed_inj hq3 hq3' heq
      exact hin.leave ho hc hx hexp hZ hq ha
  | @result j r l k hr hk hl =>
    obtain ⟨h3, hlt, -⟩ := hx.results j r hr
    refine .inr ⟨r, h3, hlt, rfl, ?_⟩
    rcases h with ⟨-, -, -, hreach⟩ | ⟨q', hq3', -, rfl, -⟩
    · exact hreach.enter hr hk hl
    · exact absurd ((hx.holes k (List.mem_of_getElem? hk)).dst _ hl)
        (Nat.not_lt.2 (le_embed hq3'))

theorem tracked_path (ho : o.maxWalks = 0) (hc : c.Proper) (hf : f.Proper) (hx : x.Fits c f)
    (hexp : Expands p o c f x g) (hZ : escaping .int32 p o g ⊆ Z) {r y : LocId} {d : Int}
    (h : FlowPath (inlined c f x) Set.univ r y d) (hr : Tracked p o c f x g Z r 0) :
    Tracked p o c f x g Z y d := by
  induction h with
  | root => exact hr
  | step _ he _ ih => exact tracked_step ho hc hf hx hexp hZ ih (inlinedEdge_of_mem he)

/-- The end of a path that is inside the callee: it starts there, or at the result at which the
path last came in. -/
theorem path_inside (hc : c.Proper) (hf : f.Proper) (hx : x.Fits c f) {r y : LocId} {d : Int}
    (h : FlowPath (inlined c f x) Set.univ r y d) :
    ∀ q, 3 ≤ q → y = embed c.size q →
      ∃ r' n, n ≤ d ∧ FlowPath f Set.univ r' q n ∧
        (r = embed c.size r' ∨ ∃ j : Nat, x.results[j]? = some r') := by
  induction h with
  | root =>
    intro q _ heq
    exact ⟨q, 0, Int.le_refl 0, .root, .inl heq⟩
  | @step y d e hpath he _ ih =>
    intro q hq3 heq
    generalize hs : e.src = src at heq
    generalize hw : e.derefs = w
    have hedge := inlinedEdge_of_mem he
    rw [hs, hw] at hedge
    cases hedge with
    | @caller _ e' he' =>
      exact absurd (hc.source he').2 (by rw [heq]; exact Nat.not_lt.2 (le_embed hq3))
    | @callee q' e' he' =>
      obtain rfl := embed_inj (hf.source he').1 hq3 heq
      rcases Nat.lt_or_ge q' 3 with hq | hq
      · have hroot := eq_root_of_sink hc hf hx hpath (by rw [embed_of_lt hq]; exact hq)
        exact ⟨q', _, by omega, FlowPath.root.step he' trivial, .inl hroot.symm⟩
      · obtain ⟨r', n, hn, hpath', hor⟩ := ih q' hq rfl
        exact ⟨r', _, by omega, hpath'.step he' trivial, hor⟩
    | @argument i q' a w hq ha =>
      exact absurd (hx.args (_, w) (List.mem_of_getElem? ha)).2.1
        (by rw [heq]; exact Nat.not_lt.2 (le_embed hq3))
    | @result j r' l k hr hk hl =>
      obtain rfl := embed_inj (hx.results j r' hr).1 hq3 heq
      have hk0 := (hx.holes k (List.mem_of_getElem? hk)).derefs
      exact ⟨r', 0, by omega, .root, .inr ⟨j, hr⟩⟩

end Following

/-! ## What escapes when the callee is inlined -/

/-- The locations of the caller that escape when the call is expanded, and those of the callee
that escape there. -/
def escapedApart (p : Program) (o : SolveOptions) (c f g : Graph) : Set LocId :=
  {y | (y < c.size ∧ y ≠ mutatorId ∧ y ≠ calleeId ∧ y ∈ escaping .int32 p o g) ∨
    ∃ q, 3 ≤ q ∧ q < f.size ∧ y = embed c.size q ∧ q ∈ escaping .int32 p o f}

section Closed

variable {p : Program} {o : SolveOptions} {c f g : Graph} {x : CallSite}

theorem inlined_full (hc : c.Full) (hf : f.Full) : (inlined c f x).Full := by
  intro l hl
  rcases lt_or_eq_embed hl with hlt | ⟨q, h3, hq, rfl⟩
  · rw [inlined_loc_caller hlt]
    exact hc l hlt
  · rw [inlined_loc_embed h3 hq]
    exact hf q hq

theorem escapedApart_initial (ho : o.maxWalks = 0) (hc : c.Proper) (hf : f.Proper)
    (hexp : Expands p o c f x g) {l : LocId} (hl : l < (inlined c f x).size)
    (he : ((inlined c f x).loc l).escapes = true) : l ∈ escapedApart p o c f g := by
  rcases lt_or_eq_embed hl with hlt | ⟨q, h3, hq, rfl⟩
  · rw [inlined_loc_caller hlt] at he
    have he : (c.loc l).escapes = true := he
    refine .inl ⟨hlt, ?_, ?_, ?_⟩
    · rintro rfl
      unfold Location.escapes at he
      rw [hc.mutator] at he
      exact absurd he (by decide)
    · rintro rfl
      unfold Location.escapes at he
      rw [hc.callee] at he
      exact absurd he (by decide)
    · exact mem_escaping_of_escapes .int32 p ho (hexp.grows.full hc.full) (hexp.grows.escapes he)
  · rw [inlined_loc_embed h3 hq] at he
    exact .inr ⟨q, h3, hq, rfl, mem_escaping_of_escapes .int32 p ho hf.full he⟩

/-- Sinks for writes and calls are no root that matters. -/
theorem root_ne_sinks (hc : c.Proper) {r l : LocId}
    (hr : r ∈ escapedApart p o c f g ∨ outlives p (inlined c f x) .empty r l = true) :
    r ≠ mutatorId ∧ r ≠ calleeId := by
  rcases hr with (⟨-, hm, hcl, -⟩ | ⟨q, h3, -, rfl, -⟩) | hout
  · exact ⟨hm, hcl⟩
  · exact ne_sinks (Nat.le_trans hc.size (le_embed h3))
  · exact ((outlives_empty_iff _ _ r l).1 hout).1

/-- What one location of the caller outlives, it outlives in the expanded graph. -/
theorem Expands.outlives (hexp : Expands p o c f x g) {r l : LocId} (hr : r < c.size)
    (hl : l < c.size) (h : outlives p (inlined c f x) .empty r l = true) :
    outlives p g .empty r l = true := by
  rw [outlives_empty_iff, inlined_loc_caller hr, inlined_loc_caller hl] at h
  have hrx := hexp.grows.loc r hr
  have hlx := hexp.grows.loc l hl
  refine (outlives_empty_iff p g r l).2 ⟨h.1, h.2.imp (fun hres => ?_) fun hout => ?_⟩
  · rw [hrx.result]
    exact hres
  · unfold Location.outlasts
    rw [hrx.func, hlx.func, hrx.loopDepth, hlx.loopDepth]
    exact hout

/-- What one location of the callee outlives, it outlives in the callee. -/
theorem outlives_of_embed {r q : LocId} (hr3 : 3 ≤ r) (hr : r < f.size) (hq3 : 3 ≤ q)
    (hq : q < f.size)
    (h : outlives p (inlined c f x) .empty (embed c.size r) (embed c.size q) = true) :
    outlives p f .empty r q = true := by
  rw [outlives_empty_iff, inlined_loc_embed hr3 hr, inlined_loc_embed hq3 hq] at h
  obtain ⟨-, hres | hout⟩ := h
  · cases hres
  · exact (outlives_empty_iff p f r q).2 ⟨ne_sinks hr3, .inr hout⟩

/-- A location of the callee outlives none of the caller. -/
theorem not_outlives_caller (hap : Apart p c f) {q l : LocId} (h3 : 3 ≤ q) (hq : q < f.size)
    (hl : l < c.size) : ¬ outlives p (inlined c f x) .empty (embed c.size q) l = true := by
  rw [outlives_empty_iff, inlined_loc_embed h3 hq, inlined_loc_caller hl]
  rintro ⟨-, hres | hout⟩
  · cases hres
  · replace hout : (f.loc q).outlasts p (c.loc l) = true := hout
    unfold Location.outlasts at hout
    split at hout
    · next ff fc hff hfc =>
      obtain ⟨hne, hnest⟩ := hap l hl q hq fc hfc ff hff
      simp [hne, hnest] at hout
    · cases hout

/-- The address of a location of the caller that gets to what outlives it does so in the expanded
graph. -/
theorem escapedApart_caller (ho : o.maxWalks = 0) (hc : c.Proper) (hf : f.Proper)
    (hx : x.Fits c f) (hap : Apart p c f) (hexp : Expands p o c f x g) {r l : LocId} {d : Int}
    (hl : l < c.size) (hpath : FlowPath (inlined c f x) Set.univ r l d) (hd : d < 0)
    (hr : r ∈ escapedApart p o c f g ∨ outlives p (inlined c f x) .empty r l = true) :
    l ∈ escapedApart p o c f g := by
  have hsinks := root_ne_sinks hc hr
  have hclosed := escaping_escapeClosed .int32 p g o ho (hexp.grows.full hc.full)
  have hlg : l < g.size := Nat.lt_of_lt_of_le hl hexp.grows.size
  -- it is enough to start from roots that make `l` escape in the expanded graph
  have hmain : ∀ Z, escaping .int32 p o g ⊆ Z → Tracked p o c f x g Z r 0 →
      (∀ z ∈ Z, z ∈ escaping .int32 p o g ∨ outlives p g .empty z l = true) →
      l ∈ escapedApart p o c f g := by
    intro Z hZ hstart hroots
    rcases tracked_path ho hc hf hx hexp hZ hpath hstart with
      ⟨-, hm, hcl, hreach⟩ | ⟨q, h3, -, rfl, -⟩
    · refine .inl ⟨hl, hm, hcl, ?_⟩
      rcases hreach with hesc | ⟨z, hz, n, hn, hzl⟩
      · exact hesc
      · exact hclosed.address z l n hlg hzl (by omega) (hroots z hz)
    · exact absurd hl (Nat.not_lt.2 (le_embed h3))
  rcases lt_or_eq_embed (hpath.root_lt (lt_inlined_size hl)) with hrc | ⟨q, h3, hq, rfl⟩
  · refine hmain (escaping .int32 p o g ∪ {r}) (fun z hz => .inl hz)
      (.inl ⟨hrc, hsinks.1, hsinks.2, .inr ⟨r, .inr rfl, 0, Int.le_refl 0, .root⟩⟩) ?_
    rintro z (hz | rfl)
    · exact .inl hz
    · rcases hr with (⟨-, -, -, hesc⟩ | ⟨q, h3, -, rfl, -⟩) | hout
      · exact .inl hesc
      · exact absurd hrc (Nat.not_lt.2 (le_embed h3))
      · exact .inr (hexp.outlives hrc hl hout)
  · refine hmain (escaping .int32 p o g) (fun z hz => hz) (.inr ⟨q, h3, hq, rfl, ?_⟩)
      fun z hz => .inl hz
    rcases hr with (⟨hlt', -⟩ | ⟨q', h3', -, heq, hesc⟩) | hout
    · exact absurd hlt' (Nat.not_lt.2 (le_embed h3))
    · obtain rfl := embed_inj h3 h3' heq
      exact .escaped hesc .root (by omega)
    · exact absurd hout (not_outlives_caller hap h3 hq hl)

/-- The address of a location of the callee that gets to what outlives it does so inside the
callee, where the results outlive it too. -/
theorem escapedApart_callee (ho : o.maxWalks = 0) (hc : c.Proper) (hf : f.Proper)
    (hx : x.Fits c f) {r q : LocId} {d : Int} (h3 : 3 ≤ q) (hq : q < f.size)
    (hpath : FlowPath (inlined c f x) Set.univ r (embed c.size q) d) (hd : d < 0)
    (hr : r ∈ escapedApart p o c f g ∨
      outlives p (inlined c f x) .empty r (embed c.size q) = true) :
    embed c.size q ∈ escapedApart p o c f g := by
  have hsinks := root_ne_sinks hc hr
  have hclosed := escaping_escapeClosed .int32 p f o ho hf.full
  obtain ⟨r', n, hn, hpath', hor⟩ := path_inside hc hf hx hpath q h3 rfl
  refine .inr ⟨q, h3, hq, rfl, hclosed.address r' q n hq hpath' (by omega) ?_⟩
  rcases hor with rfl | ⟨j, hj⟩
  · rcases Nat.lt_or_ge r' 3 with hlt | hge
    · rw [embed_of_lt hlt] at hsinks
      obtain rfl := eq_heapId hlt hsinks.1 hsinks.2
      exact .inl (hf.heap_mem_escaping ho)
    · rcases hr with (⟨hlt, -⟩ | ⟨q', h3', -, heq, hesc⟩) | hout
      · exact absurd hlt (Nat.not_lt.2 (le_embed hge))
      · obtain rfl := embed_inj hge h3' heq
        exact .inl hesc
      · exact .inr (outlives_of_embed hge (hpath'.root_lt hq) h3 hq hout)
  · obtain ⟨hr3, -, hres⟩ := hx.results j r' hj
    exact .inr (outlives_of_result hr3 (by rw [hres]; rfl) _ q)

/-- Inlining makes no location of the caller escape that the expanded call leaves alone. -/
theorem Expands.escaping_of_inlined (hexp : Expands p o c f x g) (ho : o.maxWalks = 0)
    (hc : c.Proper) (hf : f.Proper) (hx : x.Fits c f) (hap : Apart p c f) {l : LocId}
    (hl : l < c.size) (h : l ∈ escaping .exact p o (inlined c f x)) :
    l ∈ escaping .int32 p o g := by
  have hclosed : EscapeClosed p (inlined c f x) (escapedApart p o c f g) := by
    constructor
    · intro l hl he
      exact escapedApart_initial ho hc hf hexp hl he
    · intro r l d hl hpath hd hr
      rcases lt_or_eq_embed hl with hlt | ⟨q, h3, hq, rfl⟩
      · exact escapedApart_caller ho hc hf hx hap hexp hlt hpath hd hr
      · exact escapedApart_callee ho hc hf hx h3 hq hpath hd hr
  rcases hclosed.escaping_subset o ho (inlined_full hc.full hf.full) (lt_inlined_size hl) h with
    ⟨-, -, -, hesc⟩ | ⟨q, h3, -, rfl, -⟩
  · exact hesc
  · exact absurd hl (Nat.not_lt.2 (le_embed h3))

end Closed

/-! ## Main result -/

/-- A function that returns its parameter and stores what it points to on the heap. -/
def passingCallee : Graph where
  locs := #[
    { owner := .heap, attrs := .all, edges := [⟨3, 1, []⟩] },
    { owner := .mutator, attrs := .ofAttr .mutates },
    { owner := .callee, attrs := .ofAttr .calls },
    { owner := .temp, func := some ⟨1⟩, isParam := true },
    { owner := .temp, func := some ⟨1⟩, result := some 0, edges := [⟨3, 0, []⟩] }]

/-- A variable and a result. -/
def passingCaller : BatchGraph where
  graph := {
    locs := #[
      { owner := .heap, attrs := .all },
      { owner := .mutator, attrs := .ofAttr .mutates },
      { owner := .callee, attrs := .ofAttr .calls },
      { owner := .site (.var ⟨0⟩), func := some ⟨0⟩ },
      { owner := .temp, func := some ⟨0⟩, result := some 0 }] }
  vars := [(⟨0⟩, 3)]

/-- The result of the caller is what the callee gives for the address of the variable. -/
def passingCall : CallSite := ⟨[3], [4], [(3, -1)], some [.ofLoc 4]⟩

def passingScene : Scene where
  program := { vars := #[{ id := ⟨0⟩, name := "x", storage := .localVar, func := some ⟨0⟩ }] }
  members := []
  summary? f := some ⟨f, passingCall.params.map (summaryLeaks {} {} passingCallee)⟩
  precise := false
  notes := false
  reassigned := []
  addrTaken := []

theorem passingCaller_proper : passingCaller.graph.Proper :=
  ⟨by decide, by decide, by decide, by decide, by decide, by decide⟩

theorem passingCallee_proper : passingCallee.Proper :=
  ⟨by decide, by decide, by decide, by decide, by decide, by decide⟩

theorem passingCall_fits : passingCall.Fits passingCaller.graph passingCallee where
  params := by decide
  results j r h := by
    obtain ⟨rfl, rfl⟩ : j = 0 ∧ r = 4 := by
      match j with
      | 0 => exact ⟨rfl, (Option.some.inj h).symm⟩
      | j + 1 => cases h
    decide
  args := by decide
  holes k hk := by
    obtain rfl : k = .ofLoc 4 := List.mem_singleton.1 hk
    exact ⟨by decide, fun l hl => by cases hl; decide⟩

theorem passing_inlined_light :
    (inlined passingCaller.graph passingCallee passingCall).Light := by
  decide

/-- With the callee inlined, the address of the variable gets to the result. -/
theorem passing_inlined_escapes :
    (((inlined passingCaller.graph passingCallee passingCall).solve {} {}).graph.loc 3).escapes =
      true := by
  refine (escaping_escapeClosed .int32 {} _ {} rfl
    (inlined_full passingCaller_proper.full passingCallee_proper.full)).address 4 3 (-1)
    (by decide) ?_ (by decide) (.inr (by decide))
  -- from the result of the caller to that of the callee, the parameter, and the variable
  have h₁ : FlowPath (inlined passingCaller.graph passingCallee passingCall) Set.univ 4 6 0 :=
    FlowPath.root.step (e := ⟨6, 0, []⟩) (by decide) trivial
  have h₂ : FlowPath (inlined passingCaller.graph passingCallee passingCall) Set.univ 4 5 0 :=
    h₁.step (e := ⟨5, 0, []⟩) (by decide) trivial
  exact h₂.step (e := ⟨3, -1, []⟩) (by decide) trivial

/-- A function that stores on the heap what its parameter leads to after the greatest number of
dereferences. -/
def deepCallee : Graph where
  locs := #[
    { owner := .heap, attrs := .all, edges := [⟨3, 2147483647, []⟩] },
    { owner := .mutator, attrs := .ofAttr .mutates },
    { owner := .callee, attrs := .ofAttr .calls },
    { owner := .temp, func := some ⟨1⟩, isParam := true }]

/-- The callee is handed what the variable points to. -/
def deepCall : CallSite := ⟨[3], [], [(3, 1)], none⟩

end EscapeFlow
