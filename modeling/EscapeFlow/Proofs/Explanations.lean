import EscapeFlow.Proofs.Recasting
import EscapeFlow.Proofs.Shortcut
import EscapeFlow.Proofs.Trails

/-!
# Explanations of escapes

With notes a graph records, for what escapes, the hops by which it does.  Building records a single
hop, where the address of a location goes straight into one that escapes; solving records the trail
of the walk in which a location is found to escape.

Every variable or allocation that escapes, globals apart, has hops on record
(`explained_of_build`).  They go along edges of the graph, and where they pass no location twice,
they end at one that outlives the first (`Explains`).  But a trail may come back to a location that
it has passed: then it goes round a circle of negative weight until it has as many hops as the graph
has locations, and ends wherever that is (`Circling`; `path_goes_round` for two statements).
-/

namespace EscapeFlow

open BatchGraph Build

/-- The hops lead from `l` to a location that outlives it, and they pass no location twice. -/
structure Explains (p : Program) (g : Graph) (attrs : LocId → Attrs) (l : LocId)
    (hops : List Hop) : Prop where
  nonempty : hops ≠ []
  nodup : (hops.map Hop.src).Nodup
  route : ∃ r, Route g l hops r ∧ outlives p g (attrs r) r l = true

/-- The hops lead from `l` to a location that they have passed before, by a circle of negative
weight, and stop after as many as there are locations. -/
structure Circling (g : Graph) (l : LocId) (hops : List Hop) : Prop where
  length : hops.length = g.size
  not_nodup : ¬ (hops.map Hop.src).Nodup
  route : ∃ r, Route g l hops r
  circle : ∃ xs round ys x, hops = xs ++ round ++ ys ∧ round ≠ [] ∧ Route g x round x ∧
    hopWeight round < 0

theorem Explains.mono {p : Program} {g : Graph} {A B : LocId → Attrs} {l : LocId}
    {hops : List Hop} (h : Explains p g A l hops) (hle : ∀ x, A x ≤ B x) :
    Explains p g B l hops := by
  obtain ⟨r, hr, ho⟩ := h.route
  exact ⟨h.nonempty, h.nodup, r, hr, outlives_mono p g (hle r) ho⟩

/-! ## Records -/

/-- The record of paths with one for `l`, unless there is one already. -/
def withPath (paths : List (LocId × List Hop)) (l : LocId) (hops : List Hop) :
    List (LocId × List Hop) :=
  if (paths.lookup l).isSome then paths else paths ++ [(l, hops)]

theorem mem_of_mem_withPath {paths : List (LocId × List Hop)} {l : LocId} {hops : List Hop}
    {e : LocId × List Hop} (h : e ∈ withPath paths l hops) : e ∈ paths ∨ e = (l, hops) := by
  unfold withPath at h
  split at h
  · exact .inl h
  · exact (List.mem_append.1 h).imp id List.mem_singleton.1

theorem isSome_lookup_withPath (paths : List (LocId × List Hop)) (l : LocId) (hops : List Hop)
    (x : LocId) : ((withPath paths l hops).lookup x).isSome =
      ((paths.lookup x).isSome || x == l) := by
  unfold withPath
  split
  · next h =>
    by_cases hx : x = l
    · subst hx
      rw [h, Bool.true_or]
    · simp [hx]
  · rw [List.lookup_append, Option.isSome_or, List.lookup_cons]
    cases x == l <;> rfl

/-! ## Trails as explanations -/

/-- All edges start inside the graph, and none at the heap. -/
def Graph.Sourced (g : Graph) : Prop := ∀ d s w, HasEdge g d s w → 0 < s ∧ s < g.size

theorem Route.mem_src {g : Graph} (hg : g.Sourced) {x y : LocId} {hops : List Hop}
    (h : Route g x hops y) : ∀ s ∈ hops.map Hop.src, 0 < s ∧ s < g.size := by
  induction h with
  | nil => simp
  | @cons hop hops r he _ ih =>
    intro s hs
    rcases List.mem_cons.1 hs with rfl | hs
    · exact hg hop.dst hop.src hop.derefs ⟨_, he, rfl, rfl⟩
    · exact ih s hs

/-- Without passing a location twice there are fewer hops than locations. -/
theorem Route.length_lt {g : Graph} (hg : g.Sourced) (hsize : 0 < g.size) {x y : LocId}
    {hops : List Hop} (h : Route g x hops y) (hnodup : (hops.map Hop.src).Nodup) :
    hops.length < g.size := by
  have hsrc := h.mem_src hg
  have hcons : (0 :: hops.map Hop.src).Nodup :=
    List.nodup_cons.2 ⟨fun h0 => Nat.lt_irrefl 0 (hsrc 0 h0).1, hnodup⟩
  have hsub : (0 :: hops.map Hop.src) ⊆ List.range g.size := by
    intro s hs
    rcases List.mem_cons.1 hs with rfl | hs
    · exact List.mem_range.2 hsize
    · exact List.mem_range.2 (hsrc s hs).2
  have hlength := (hcons.subperm hsub).length_le
  simp at hlength
  omega

section Walks

variable {p : Program} {g : Graph} {root : LocId}

/-- The trail from a location whose address gets to the root. -/
theorem Walk.explains_trail (hg : g.Sourced) {w : Walk} (hb : Backed g root w.visits)
    (hw : w.visits.size = g.size) {l : LocId} {d : Int} (hl : l < g.size)
    (hnum : w.number l = some d) (hd : d < 0) {A : LocId → Attrs}
    (ho : outlives p g (A root) root l = true) :
    Explains p g A l (w.trail w.visits.size l) ∨ Circling g l (w.trail w.visits.size l) := by
  obtain ⟨v, hv, rfl⟩ := Option.map_eq_some_iff.1 hnum
  obtain ⟨y, htrail, hend⟩ := exists_trail hb w.visits.size l
  generalize w.trail w.visits.size l = hops at htrail hend ⊢
  rw [hw] at hend
  have hroute := hb.route htrail
  by_cases hnodup : (hops.map Hop.src).Nodup
  · left
    have hlt := hroute.length_lt hg (Nat.zero_lt_of_lt hl) hnodup
    have hstop := hend.resolve_left (Nat.ne_of_lt hlt)
    obtain rfl := hb.eq_root htrail hv hstop
    refine ⟨?_, hnodup, y, hroute, ho⟩
    -- the root itself has the number zero as long as nothing is remembered there
    rintro rfl
    cases htrail
    obtain ⟨d, hop?⟩ := v
    cases hop? with
    | none => exact absurd (hb.start _ _ hv).2 (Int.ne_of_lt hd)
    | some hop => exact hstop d hop hv
  · right
    have hlength : hops.length = g.size :=
      hend.resolve_right fun hstop => hnodup (htrail.nodup hstop)
    obtain ⟨xs, round, ys, x, heq, hne, hround⟩ := htrail.circle_of_not_nodup hnodup
    exact ⟨hlength, hnodup, ⟨y, hroute⟩, xs, round, ys, x, heq, hne, hb.route hround,
      hb.circle x round hround hne⟩

/-! ## What learning records -/

/-- A path goes on record for a location that does not escape yet and is found to. -/
theorem Walk.learn_paths (record : Bool) (w : Walk) (l : LocId) (d : Int) :
    (w.learn p g record root l d).marks.paths =
      if record && d < 0 && outlives p g (w.marks.attrsOf root) root l &&
        !(w.marks.attrsOf l).escapes then withPath w.marks.paths l (w.trail w.visits.size l)
      else w.marks.paths := by
  have hmark : (w.learn p g record root l d).marks.paths = (w.mark p g record root l d).paths := by
    unfold learn
    dsimp only
    split <;> rfl
  have hpath : (w.markPath l).paths = withPath w.marks.paths l (w.trail w.visits.size l) := by
    unfold markPath withPath
    split <;> rfl
  rw [hmark, ← hpath]
  unfold mark
  dsimp only
  split <;> rfl

/-- What is on record was so from the start, or is the trail of a walk. -/
def Recorded (p : Program) (g : Graph) (m : Marks) : Prop :=
  ∀ l hops, (l, hops) ∈ m.paths →
    (l, hops) ∈ g.paths ∨ Explains p g m.attrsOf l hops ∨ Circling g l hops

theorem recorded_learn (hg : g.Sourced) (record : Bool) {w : Walk} (hf : w.Fits g)
    (hb : Backed g root w.visits) {l : LocId} {d : Int} (hnum : w.number l = some d)
    (h : Recorded p g w.marks) : Recorded p g (w.learn p g record root l d).marks := by
  have hl := hf.lt_size hnum
  have hgrows := (w.learn_grows p g record root l d hf.marks hl).attrs
  intro x hops hx
  rw [Walk.learn_paths] at hx
  have key : (x, hops) ∈ w.marks.paths ∨
      Explains p g w.marks.attrsOf x hops ∨ Circling g x hops := by
    split at hx
    · next hcond =>
      simp only [Bool.and_eq_true, decide_eq_true_eq] at hcond
      rcases mem_of_mem_withPath hx with hx | hx
      · exact .inl hx
      · obtain ⟨rfl, rfl⟩ := Prod.mk.inj hx
        exact .inr (Walk.explains_trail hg hb hf.visits hl hnum hcond.1.1.2 hcond.1.2)
    · exact .inl hx
  rcases key with hx | hx | hx
  · exact (h x hops hx).imp id (Or.imp (·.mono hgrows) id)
  · exact .inr (.inl (hx.mono hgrows))
  · exact .inr (.inr hx)

theorem recorded_run (hg : g.Sourced) (record : Bool) {m : Marks} (hm : m.Fits g)
    (hr : root < g.size) (todo : List LocId) (relaxed : List Relaxation) (h : Recorded p g m) :
    Recorded p g ((Walk.start g root m todo relaxed).run .exact p g record root).marks := by
  have hinv := Walk.run_induct .exact p g record root
    (fun w => Walk.Since g m todo w ∧ Backed g root w.visits ∧ Recorded p g w.marks) ?_
    (Walk.start g root m todo relaxed)
    ⟨Walk.since_start g root m todo relaxed hm hr, Walk.backed_start m todo relaxed hr, h⟩
  · exact hinv.2.2
  · rintro w l rest hs ⟨hsince, hb, hrec⟩
    obtain ⟨hf, d, hd⟩ := hsince.fits.pop g hs
    refine ⟨Walk.since_step .exact p g record root (hsince.pop g hs) hd,
      Walk.backed_step p record (w := { w with stack := rest }) hb, ?_⟩
    rw [(Walk.step_spec .exact p g record root hf hd).1.marks]
    exact recorded_learn hg record (w := { w with stack := rest }) hf hb hd hrec

end Walks

theorem Drains.recorded {p : Program} {g : Graph} {record : Bool} {m m' : Marks}
    {todo : List LocId} (h : Drains .exact p g record m todo m') (hg : g.Sourced) (hf : m.Fits g)
    (ht : ∀ r ∈ todo, r < g.size) (hm : Recorded p g m) : Recorded p g m' := by
  induction h with
  | done m => exact hm
  | @walk m m' todo root relaxed hroot _ ih =>
    have hr := ht root hroot
    have hrun := Walk.since_run .exact p g record root
      (Walk.since_start g root m (todo.erase root) relaxed hf hr)
    exact ih hrun.fits.marks (lt_of_mem_todo relaxed hf ht hroot)
      (recorded_run hg record hf hr _ relaxed hm)

/-- If paths are recorded, whatever comes to escape has one. -/
theorem Drains.isSome_lookup {a : Adder} {p : Program} {g : Graph} {m m' : Marks}
    {todo : List LocId} (h : Drains a p g true m todo m') (hf : m.Fits g)
    (ht : ∀ r ∈ todo, r < g.size) {l : LocId}
    (hm : (m.attrsOf l).escapes = true → (m.paths.lookup l).isSome = true) :
    (m'.attrsOf l).escapes = true → (m'.paths.lookup l).isSome = true := by
  refine h.marks hf ht (N := fun _ _ _ => True) (fun _ => ⟨trivial, fun _ _ _ _ _ _ => trivial⟩)
    (fun m => (m.attrsOf l).escapes = true → (m.paths.lookup l).isSome = true) ?_ hm
  intro w root x d hfits hx _ hw hesc
  rw [Walk.learn_paths]
  by_cases hold : (w.marks.attrsOf l).escapes = true
  · split
    · rw [isSome_lookup_withPath, hw hold, Bool.true_or]
    · exact hw hold
  · have hxa : x < w.marks.attrs.size := by rw [hfits.attrs]; exact hx
    rcases w.learn_attrsOf p g true root x d hxa l with he | ⟨rfl, -, he⟩
    · rw [he] at hesc
      exact absurd hesc hold
    · rw [he, Attrs.escapes, Attrs.has_union, Bool.or_eq_true] at hesc
      obtain ⟨hd, ho⟩ := of_escapes_learned (hesc.resolve_left hold)
      rw [if_pos (by simp [hd, ho, hold]), isSome_lookup_withPath, beq_self_eq_true, Bool.or_true]

/-! ## What building records -/

/-- A flow records its one hop if it makes the source escape, and nothing otherwise. -/
theorem BatchGraph.flow_paths (notes : Bool) (k : Hole) (src : LocId) (b : BatchGraph) :
    (∃ dst, k.dst = some dst ∧ (b.graph.loc dst).escapes = true ∧ k.derefs < 0 ∧
      (b.flow notes k src).graph.paths =
        if notes && !(b.graph.loc src).escapes then
          withPath b.graph.paths src [⟨dst, src, k.derefs, k.notes⟩]
        else b.graph.paths) ∨
    (∀ dst, k.dst = some dst → ¬((b.graph.loc dst).escapes = true ∧ k.derefs < 0)) ∧
      (b.flow notes k src).graph.paths = b.graph.paths := by
  -- the mark on the source of the flow shows neither in paths nor in what escapes
  obtain ⟨b₁, hb₁, hpaths, hescapes⟩ : ∃ b₁ : BatchGraph, (if k.addrTaken then
      b.update src fun l => { l with addrTaken := true } else b) = b₁ ∧
      b₁.graph.paths = b.graph.paths ∧
      ∀ l, (b₁.graph.loc l).escapes = (b.graph.loc l).escapes := by
    split
    · exact ⟨_, rfl, rfl, fun l => b.graph.update_view (·.escapes) src l fun _ => rfl⟩
    · exact ⟨b, rfl, rfl, fun _ => rfl⟩
  unfold flow
  dsimp only
  rw [hb₁]
  cases hdst : k.dst with
  | none => exact .inr ⟨by simp, hpaths⟩
  | some dst =>
    dsimp only
    rw [hescapes dst, hescapes src]
    split
    · next hself => exact .inr ⟨fun _ _ hneg => by omega, hpaths⟩
    · split
      · next hneg =>
        refine .inl ⟨dst, rfl, hneg.1, hneg.2, ?_⟩
        split
        · show (b₁.graph.explain src _).paths = _
          unfold Graph.explain Graph.path? withPath
          rw [hpaths]
          split
          · exact hpaths
          · rfl
        · exact hpaths
      · next hneg =>
        refine .inr ⟨fun _ h => ?_, hpaths⟩
        cases h
        exact hneg

section Builds

variable {s : Scene} {lits : SiteId → Prop} {b₀ b b' : BatchGraph}

/-- A change that is no flow records nothing, and what escapes after it did so before or is a new
variable. -/
theorem Change.flow_or (h : Change s lits b b') (hb : b.WellFormed) :
    (∃ k src, b' = b.flow s.notes k src ∧ -1 ≤ k.derefs ∧ src < b.graph.size) ∨
      b'.graph.paths = b.graph.paths ∧ ∀ l, (b'.graph.loc l).escapes = true →
        (b.graph.loc l).escapes = true ∨ ∃ v, b.varLoc? v = none ∧ b'.varLoc? v = some l := by
  have hpush : ∀ {x : Location} {l : LocId}, ((b.graph.push x).loc l).escapes = true →
      x.escapes = true ∧ l = b.graph.size ∨ (b.graph.loc l).escapes = true := by
    intro x l hl
    rw [b.graph.push_loc] at hl
    split at hl
    · next h => exact .inl ⟨hl, h⟩
    · exact .inr hl
  cases h with
  | flow hole source => exact .inl ⟨_, _, rfl, hole.derefs, source.2⟩
  | capture captured derefs =>
    refine .inl ⟨_, _, rfl, ?_, (hb.holds_of_var captured).2⟩
    rw [derefs]
    split <;> omega
  | temp pl persists =>
    refine .inr ⟨rfl, fun l hl => ?_⟩
    rcases hpush hl with ⟨hx, -⟩ | hl
    · rw [Location.temp_escapes] at hx
      cases hx
    · exact .inl hl
  | site pl new =>
    refine .inr ⟨rfl, fun l hl => ?_⟩
    rcases hpush hl with ⟨hx, -⟩ | hl
    · rw [show Location.escapes _ = Attrs.empty.escapes from rfl] at hx
      cases hx
    · exact .inl hl
  | @var v x new isNew =>
    refine .inr ⟨rfl, fun l hl => ?_⟩
    rcases hpush hl with ⟨-, hl⟩ | hl
    · exact .inr ⟨v, new, (varLoc?_pushVar new x v l).2 (.inr ⟨rfl, hl⟩)⟩
    · exact .inl hl
  | mark l role edges attrs =>
    refine .inr ⟨rfl, fun x hx => .inl ?_⟩
    rwa [show ((b.update l _).graph.loc x).escapes = (b.graph.loc x).escapes from
      b.graph.update_view (·.escapes) l x fun y => congrArg Attrs.escapes (attrs y)] at hx

/-- All that is on record is one hop, by the address, into a location that escapes. -/
def BatchGraph.Direct (b : BatchGraph) : Prop :=
  ∀ l hops, (l, hops) ∈ b.graph.paths → ∃ dst why, hops = [⟨dst, l, -1, why⟩] ∧
    (b.graph.loc dst).escapes = true ∧ (b.graph.loc l).escapes = true

theorem Change.direct (h : Change s lits b b') (hb : b.WellFormed) (hd : b.Direct) :
    b'.Direct := by
  intro l hops hl
  have hkept : (l, hops) ∈ b.graph.paths → ∃ dst why, hops = [⟨dst, l, -1, why⟩] ∧
      (b'.graph.loc dst).escapes = true ∧ (b'.graph.loc l).escapes = true := by
    intro hl
    obtain ⟨dst, why, heq, hdst, hsrc⟩ := hd l hops hl
    exact ⟨dst, why, heq, h.grows.escapes dst hdst, h.grows.escapes l hsrc⟩
  rcases h.flow_or hb with ⟨k, src, rfl, hk, hsrc⟩ | ⟨hpaths, -⟩
  · rcases b.flow_paths s.notes k src with ⟨dst, hdst, hesc, hneg, hpaths⟩ | ⟨-, hpaths⟩
    · rw [hpaths] at hl
      split at hl
      · rcases mem_of_mem_withPath hl with hl | hl
        · exact hkept hl
        · obtain ⟨rfl, rfl⟩ := Prod.mk.inj hl
          have hone : k.derefs = -1 := by omega
          refine ⟨dst, k.notes, by rw [hone], h.grows.escapes dst hesc, ?_⟩
          unfold Location.escapes
          rw [(b.raises_flow s.notes hdst hneg hesc hsrc).attrs, if_pos rfl]
          exact Attrs.le_union_right _ _ .escapes (Attrs.has_all _)
      · exact hkept hl
    · exact hkept (hpaths ▸ hl)
  · exact hkept (hpaths ▸ hl)

theorem Changes.direct (h : Changes s lits b b') (hb : b.WellFormed) (hd : b.Direct) :
    b'.Direct := by
  induction h with
  | refl => exact hd
  | tail hsteps hstep ih => exact hstep.direct (Changes.wellFormed hsteps hb) ih

/-- What escapes did so to begin with, or has a path on record, or is a variable that has come
up since. -/
def BatchGraph.Explained (b₀ b : BatchGraph) (l : LocId) : Prop :=
  (b₀.graph.loc l).escapes = true ∨ (b.graph.path? l).isSome = true ∨
    ∃ v, b₀.varLoc? v = none ∧ b.varLoc? v = some l

theorem Change.explained (hs : s.notes = true) (h : Change s lits b b') (hb : b.WellFormed)
    (hgrows : b₀.Grows b) {l : LocId}
    (hl : (b.graph.loc l).escapes = true → b₀.Explained b l) :
    (b'.graph.loc l).escapes = true → b₀.Explained b' l := by
  intro hesc'
  have hkept : ((b.graph.path? l).isSome = true → (b'.graph.path? l).isSome = true) →
      (b.graph.loc l).escapes = true → b₀.Explained b' l := by
    intro hpath hesc
    rcases hl hesc with hold | hold | ⟨v, hv₀, hv⟩
    · exact .inl hold
    · exact .inr (.inl (hpath hold))
    · exact .inr (.inr ⟨v, hv₀, h.grows.vars v l hv⟩)
  unfold Graph.path? at hkept
  rcases h.flow_or hb with ⟨k, src, rfl, -, -⟩ | ⟨hpaths, hnew⟩
  · rcases b.flow_paths s.notes k src with ⟨dst, hdst, hesc, hneg, hpaths⟩ | ⟨hno, hpaths⟩
    · rw [hpaths] at hkept
      by_cases hold : (b.graph.loc l).escapes = true
      · refine hkept (fun hpath => ?_) hold
        split
        · rw [isSome_lookup_withPath, hpath, Bool.true_or]
        · exact hpath
      · obtain rfl : l = src := ((of_escapes_flow hesc').resolve_left hold).1
        refine .inr (.inl ?_)
        unfold Graph.path?
        rw [hpaths, if_pos (by simp [hs, hold]), isSome_lookup_withPath, beq_self_eq_true,
          Bool.or_true]
    · rw [hpaths] at hkept
      refine hkept id ?_
      rcases of_escapes_flow hesc' with hold | ⟨-, hneg, dst, hdst, hesc⟩
      · exact hold
      · exact absurd ⟨hesc, hneg⟩ (hno dst hdst)
  · rw [hpaths] at hkept
    rcases hnew l hesc' with hold | ⟨v, hv, hv'⟩
    · exact hkept id hold
    · refine .inr (.inr ⟨v, ?_, hv'⟩)
      cases hv₀ : b₀.varLoc? v with
      | none => rfl
      | some l₀ =>
        rw [hgrows.vars v l₀ hv₀] at hv
        cases hv

theorem Changes.explained (hs : s.notes = true) (h : Changes s lits b₀ b) (hb : b₀.WellFormed)
    {l : LocId} : (b.graph.loc l).escapes = true → b₀.Explained b l := by
  induction h with
  | refl => exact .inl
  | tail hsteps hstep ih =>
    exact hstep.explained hs (Changes.wellFormed hsteps hb) (Changes.grows hsteps) ih

end Builds

/-- The changes that building makes after the declarations. -/
theorem BatchGraph.changes_of_bodies {p : Program} {fs : List FuncId}
    {summary? : FuncId → Option Summary} {o : BuildOptions} {b : BatchGraph}
    (h : build p fs summary? o = .ok b) :
    ∃ ds b₀, Declared (ds.flatMap (declEntries (scene p fs summary? o ds))) b₀ ∧
      b₀.WellFormed ∧ Changes (scene p fs summary? o ds) (fun _ => False) b₀ b ∧ b₀.Keeps b := by
  obtain ⟨ds, b₀, -, hplaces, hbodies⟩ := exists_runs h
  have hdecl := declared_of_places hplaces
  let W : Watch := ⟨scene p fs summary? o ds, fun _ => False, False⟩
  have hdeclares := W.declares_does ds .empty
  rw [declares_eq, hplaces] at hdeclares
  have hb₀ : b₀.WellFormed := Changes.wellFormed hdeclares.1 .empty
  have hdoes : W.Does b₀ (fun _ c => ∀ d ∈ ds, True) (ds.forM (body W.scene)) := by
    refine .forM ds (fun _ _ _ _ _ => trivial) fun d _ c _ => ?_
    refine (W.body_does d fun e _ => ⟨fun _ _ hlit => hlit.elim, False.elim⟩).mono ?_
    exact fun _ _ _ _ _ => trivial
  have hchanges := hdoes hb₀
  rw [hbodies] at hchanges
  exact ⟨ds, b₀, hdecl, hb₀, hchanges.1, keeps_of_bodies hdecl.tabled hbodies⟩

/-- Of the declared variables none escapes. -/
theorem Declared.owner_of_escapes {ds : List Function} {s : Scene} {b : BatchGraph}
    (h : Declared (ds.flatMap (declEntries s)) b) {l : LocId}
    (hl : (b.graph.loc l).escapes = true) : (b.graph.loc l).owner = .heap := by
  revert hl
  refine h.forall_loc (P := fun x => x.escapes = true → x.owner = .heap) (by decide) ?_
    (by decide) l
  intro d e he hesc
  rw [Location.escapes, (mem_declEntries he).2.2.2.1] at hesc
  cases hesc

/-- Whatever escapes in a graph that is built with notes has hops on record, unless it is a global
or a sink. -/
theorem BatchGraph.isSome_path?_of_build {p : Program} {fs : List FuncId}
    {summary? : FuncId → Option Summary} {o : BuildOptions} {b : BatchGraph} (ho : o.notes = true)
    (h : build p fs summary? o = .ok b) {l : LocId} {x : Site}
    (hx : (b.graph.loc l).site? = some x) (hglobal : (b.graph.loc l).isGlobal = false)
    (hesc : (b.graph.loc l).escapes = true) : (b.graph.path? l).isSome = true := by
  obtain ⟨ds, b₀, hdecl, hb₀, hchanges, hkeeps⟩ := changes_of_bodies h
  rcases Changes.explained ho hchanges hb₀ hesc with hold | hpath | ⟨v, hv₀, hv⟩
  · have hheap := hdecl.owner_of_escapes hold
    rw [← hkeeps.owner (Graph.lt_size_of_escapes hold)] at hheap
    rw [Location.site?, hheap] at hx
    cases hx
  · exact hpath
  · rw [show (b.graph.loc l).isGlobal = true from
      congrArg Role.isGlobal (hkeeps.global v l hv₀ hv)] at hglobal
    cases hglobal

/-- Let a graph be built with notes and solved without a bound, with paths recorded.  Every location
of a variable or allocation that escapes, globals apart, has hops on record.  All hops on record are
one of three: the single hop by which building has made a location escape; or a way along edges of
the graph to a location that outlives the first, passing none twice; or such a way round a circle of
negative weight, cut off after as many hops as there are locations. -/
theorem explained_of_build {p : Program} {fs : List FuncId} {summary? : FuncId → Option Summary}
    {o : BuildOptions} {b : BatchGraph} (ho : o.notes = true)
    (h : build p fs summary? o = .ok b) :
    let g := (b.graph.solveWith .exact p { recordPaths := true }).graph
    (∀ l x, (g.loc l).site? = some x → (g.loc l).isGlobal = false → (g.loc l).escapes = true →
      ∃ hops, g.path? l = some hops) ∧
    ∀ l hops, (l, hops) ∈ g.paths →
      (∃ dst why, hops = [⟨dst, l, -1, why⟩] ∧ (l, hops) ∈ b.graph.paths ∧
        (b.graph.loc dst).escapes = true ∧ (b.graph.loc l).escapes = true ∧
        outlives p b.graph (g.loc dst).attrs dst l = true) ∨
      Explains p b.graph (fun r => (g.loc r).attrs) l hops ∨ Circling b.graph l hops := by
  intro g
  obtain ⟨s, lits, hchanges⟩ := build_changes h
  have hb : b.WellFormed := hchanges.wellFormed .empty
  have hsourced : b.graph.Sourced := fun d s w he =>
    ⟨Nat.lt_of_lt_of_le (by decide) (hb.source d s w he).1, (hb.source d s w he).2⟩
  have hsolved : b.graph.Solved g := (Graph.solve_solved .exact p _ hb.graph_full).1
  obtain ⟨m, hdrains, hf, hm⟩ := solve_drains .exact p b.graph { recordPaths := true } rfl
  replace hm : g = b.graph.withMarks m := hm
  have hattrs : ∀ l, (g.loc l).attrs = m.attrsOf l := by
    intro l
    rw [hm, b.graph.withMarks_attrs hf]
  have hrange : ∀ r ∈ List.range b.graph.size, r < b.graph.size := fun r => List.mem_range.1
  constructor
  · intro l x hsite hglobal hesc
    rw [hsolved.loc l] at hsite hglobal
    apply Option.isSome_iff_exists.1
    rw [hm]
    refine hdrains.isSome_lookup b.graph.marks_fits hrange ?_ (hattrs l ▸ hesc)
    rw [b.graph.marks_attrsOf]
    exact isSome_path?_of_build ho h hsite hglobal
  · intro l hops hl
    rw [hm] at hl
    rcases hdrains.recorded hsourced b.graph.marks_fits hrange (fun _ _ => .inl) l hops hl with
      hbuilt | hwalked | hround
    · have hdirect : b.Direct := hchanges.direct .empty (by simp [Direct, Graph.sinks])
      obtain ⟨dst, why, heq, hdst, hsrc⟩ := hdirect l hops hbuilt
      refine .inl ⟨dst, why, heq, hbuilt, hdst, hsrc, ?_⟩
      exact (outlives_iff p b.graph _ dst l).2 (.inl (hsolved.attrs dst .escapes hdst))
    · exact .inr (.inl (hwalked.mono fun r => (hattrs r).symm ▸ Attrs.le_refl _))
    · exact .inr (.inr hround)

/-- A function that keeps the address of one variable in a global, and that of another by way of a
third. -/
def keptAddresses : Program where
  functions := #[
    { id := ⟨0⟩
      name := "f"
      locals := [⟨1⟩, ⟨2⟩, ⟨3⟩]
      body := some [.assign [.ident ⟨0⟩] [.addrOf (.ident ⟨3⟩)],
        .assign [.ident ⟨1⟩] [.addrOf (.ident ⟨2⟩)], .assign [.ident ⟨0⟩] [.ident ⟨1⟩]] }]
  vars := #[⟨⟨0⟩, "g", .globalVar, none⟩, ⟨⟨1⟩, "x", .localVar, some ⟨0⟩⟩,
    ⟨⟨2⟩, "y", .localVar, some ⟨0⟩⟩, ⟨⟨3⟩, "z", .localVar, some ⟨0⟩⟩]
  sites := #[]

theorem explained_of_build_keptAddresses :
    ∃ b, build keptAddresses [⟨0⟩] (fun _ => none) { notes := true } = .ok b ∧
      b.graph.paths = [(5, [⟨6, 5, -1, [⟨"assign", none⟩, ⟨"address-of", none⟩]⟩])] ∧
      Explains keptAddresses b.graph
        (fun r =>
          ((b.graph.solveWith .exact keptAddresses { recordPaths := true }).graph.loc r).attrs) 4
        [⟨3, 4, -1, [⟨"assign", none⟩, ⟨"address-of", none⟩]⟩, ⟨6, 3, 0, [⟨"assign", none⟩]⟩] := by
  have hbuild : (build keptAddresses [⟨0⟩] (fun _ => none) { notes := true }).map (fun b =>
      (b.graph.size, b.graph.paths,
        (b.graph.solveWith .exact keptAddresses { recordPaths := true }).graph.path? 4)) =
      .ok (7, [(5, [⟨6, 5, -1, [⟨"assign", none⟩, ⟨"address-of", none⟩]⟩])],
        some [⟨3, 4, -1, [⟨"assign", none⟩, ⟨"address-of", none⟩]⟩,
          ⟨6, 3, 0, [⟨"assign", none⟩]⟩]) := by cbv
  obtain ⟨b, hb, heq⟩ := exists_of_map_eq_ok hbuild
  simp only [Prod.mk.injEq] at heq
  obtain ⟨hsize, hpaths, hpath⟩ := heq
  refine ⟨b, hb, hpaths, ?_⟩
  obtain ⟨before, after, hsplit, -⟩ := List.lookup_eq_some_iff.1 hpath
  rcases (explained_of_build rfl hb).2 4 _ (hsplit ▸ List.mem_append_cons_self) with
    ⟨_, _, hone, -⟩ | hexplains | hround
  · cases hone
  · exact hexplains
  · have hlength := hround.length
    rw [hsize] at hlength
    cases hlength

/-- A function that returns the address of its own result by way of a variable. -/
def ownAddress : Program where
  functions := #[
    { id := ⟨0⟩
      name := "f"
      results := [⟨0⟩]
      locals := [⟨1⟩]
      body := some [.assign [.ident ⟨1⟩] [.addrOf (.ident ⟨0⟩)], .ret [.ident ⟨1⟩]] }]
  vars := #[⟨⟨0⟩, "r", .result, some ⟨0⟩⟩, ⟨⟨1⟩, "x", .localVar, some ⟨0⟩⟩]
  sites := #[]

/-- The walk from the result gets to the variable and, by its address, back to the result.  The hop
that is remembered there then takes the trail round and round, and it stops at the variable, which
does not outlive the result. -/
theorem path_goes_round :
    ∃ b hops, build ownAddress [⟨0⟩] (fun _ => none) { notes := true } = .ok b ∧
      (b.graph.solveWith .exact ownAddress { recordPaths := true }).graph.path? 3 = some hops ∧
      hops.map (fun hop => (hop.src, hop.dst)) = [(3, 4), (4, 3), (3, 4), (4, 3), (3, 4)] ∧
      ¬ (hops.map Hop.src).Nodup ∧
      outlives ownAddress b.graph
        ((b.graph.solveWith .exact ownAddress { recordPaths := true }).graph.loc 4).attrs 4 3 =
          false := by
  have hbuild : (build ownAddress [⟨0⟩] (fun _ => none) { notes := true }).map (fun b =>
      ((b.graph.solveWith .exact ownAddress { recordPaths := true }).graph.path? 3,
        outlives ownAddress b.graph
          ((b.graph.solveWith .exact ownAddress { recordPaths := true }).graph.loc 4).attrs 4 3)) =
      .ok (some [⟨4, 3, -1, [⟨"assign", none⟩, ⟨"address-of", none⟩]⟩,
        ⟨3, 4, 0, [⟨"return", none⟩]⟩, ⟨4, 3, -1, [⟨"assign", none⟩, ⟨"address-of", none⟩]⟩,
        ⟨3, 4, 0, [⟨"return", none⟩]⟩, ⟨4, 3, -1, [⟨"assign", none⟩, ⟨"address-of", none⟩]⟩],
        false) := by cbv
  obtain ⟨b, hb, heq⟩ := exists_of_map_eq_ok hbuild
  obtain ⟨hpath, hout⟩ := Prod.mk.inj heq
  exact ⟨b, _, hb, hpath, rfl, by decide, hout⟩

end EscapeFlow
