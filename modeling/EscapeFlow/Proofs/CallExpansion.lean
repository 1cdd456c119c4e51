import EscapeFlow.Flow.Build
import EscapeFlow.Proofs.Attributes

/-!
# Calls modelled by a summary

A call of a function outside the batch leads each argument to the sinks and result holes that
the summary of its parameter names.  `Build.argumentFlows` is this for arguments that are a
location after a number of dereferences, and evaluating variables, their addresses and
dereferences of them as arguments does just this:

    (arguments s pl .plain ks (some callee) i (variables …)).run b =
      (argumentFlows s pl ks callee i (their locations …)).run b             (arguments_run_eq)

Where results go to holes that take no address it never fails, and it only adds to the graph
(`Graph.Extends`).  For each record of the summary the argument feeds the place it names
(`Feeds`), by an edge, by two edges through a temporary, or because it escapes already:

    (argumentFlows s pl ks callee 0 args).Yields b fun _ b' => …          (argumentFlows_yields)
-/

namespace EscapeFlow

/-! ## Graphs that grow -/

/-- `y` is `x` with more edges and attributes, as far as solving is concerned. -/
structure Location.Extends (x y : Location) : Prop where
  edges : ∀ e, e ∈ x.edges → e ∈ y.edges
  attrs : x.attrs ≤ y.attrs
  func : y.func = x.func
  loopDepth : y.loopDepth = x.loopDepth
  result : y.result = x.result
  full : (x.escapes = true → x.attrs.contains .all = true) →
    y.escapes = true → y.attrs.contains .all = true

theorem Location.Extends.refl (x : Location) : x.Extends x :=
  ⟨fun _ h => h, Attrs.le_refl _, rfl, rfl, rfl, fun h => h⟩

theorem Location.Extends.trans {x y z : Location} (h : x.Extends y) (k : y.Extends z) :
    x.Extends z where
  edges e he := k.edges e (h.edges e he)
  attrs := Attrs.le_trans h.attrs k.attrs
  func := k.func.trans h.func
  loopDepth := k.loopDepth.trans h.loopDepth
  result := k.result.trans h.result
  full hx := k.full (h.full hx)

namespace Graph

/-- `g'` is `g` with more locations, edges and attributes. -/
structure Extends (g g' : Graph) : Prop where
  size : g.size ≤ g'.size
  loc : ∀ l, l < g.size → (g.loc l).Extends (g'.loc l)
  full : g.Full → g'.Full

theorem Extends.refl (g : Graph) : g.Extends g :=
  ⟨Nat.le_refl _, fun _ _ => .refl _, fun h => h⟩

theorem Extends.trans {a b c : Graph} (h : a.Extends b) (k : b.Extends c) : a.Extends c where
  size := Nat.le_trans h.size k.size
  loc l hl := (h.loc l hl).trans (k.loc l (Nat.lt_of_lt_of_le hl h.size))
  full ha := k.full (h.full ha)

theorem Extends.mem_edges {g g' : Graph} (h : g.Extends g') {l : LocId} {e : Edge}
    (he : e ∈ (g.loc l).edges) : e ∈ (g'.loc l).edges :=
  (h.loc l (lt_size_of_mem_edges he)).edges e he

theorem Extends.escapes {g g' : Graph} (h : g.Extends g') {l : LocId}
    (he : (g.loc l).escapes = true) : (g'.loc l).escapes = true := by
  rcases Nat.lt_or_ge l g.size with hl | hl
  · exact (h.loc l hl).attrs .escapes he
  · rw [g.loc_of_le l hl] at he
    cases he

theorem update_size (g : Graph) (l : LocId) (f : Location → Location) :
    (g.update l f).size = g.size := by
  simp [update, size]

theorem update_loc (g : Graph) {l : LocId} (hl : l < g.size) (f : Location → Location) (x : LocId) :
    (g.update l f).loc x = if x = l then f (g.loc l) else g.loc x :=
  getD_modify g.locs l x hl f _

theorem extends_update (g : Graph) {l : LocId} (hl : l < g.size) (f : Location → Location)
    (hf : (g.loc l).Extends (f (g.loc l))) : g.Extends (g.update l f) := by
  have hloc : ∀ x, (g.loc x).Extends ((g.update l f).loc x) := by
    intro x
    rw [g.update_loc hl]
    split
    · next hx =>
      subst hx
      exact hf
    · exact .refl _
  refine ⟨by rw [update_size], fun x _ => hloc x, fun h x hx => (hloc x).full (h x ?_)⟩
  rw [update_size] at hx
  exact hx

theorem push_size (g : Graph) (x : Location) : (g.push x).size = g.size + 1 := by
  simp [push, size]

theorem push_loc_self (g : Graph) (x : Location) : (g.push x).loc g.size = x := by
  rw [loc_of_lt _ _ (by rw [push_size]; exact Nat.lt_succ_self _)]
  exact Array.getElem_push_eq

theorem push_loc_of_lt (g : Graph) (x : Location) {l : LocId} (hl : l < g.size) :
    (g.push x).loc l = g.loc l := by
  rw [loc_of_lt _ _ (by rw [push_size]; exact Nat.lt_succ_of_lt hl), loc_of_lt _ _ hl]
  exact Array.getElem_push_lt hl

theorem extends_push (g : Graph) (x : Location) (hx : x.escapes = false) :
    g.Extends (g.push x) := by
  refine ⟨by rw [push_size]; omega, fun l hl => by rw [g.push_loc_of_lt x hl]; exact .refl _, ?_⟩
  intro h l hl he
  rw [push_size] at hl
  rcases Nat.lt_or_ge l g.size with hlt | hge
  · rw [g.push_loc_of_lt x hlt] at he ⊢
    exact h l hlt he
  · have : l = g.size := by omega
    rw [this, push_loc_self, hx] at he
    cases he

theorem explain_loc (g : Graph) (l x : LocId) (hops : List Hop) :
    (g.explain l hops).loc x = g.loc x := by
  unfold explain
  split <;> rfl

theorem explain_size (g : Graph) (l : LocId) (hops : List Hop) :
    (g.explain l hops).size = g.size := by
  unfold explain
  split <;> rfl

theorem extends_explain (g : Graph) (l : LocId) (hops : List Hop) :
    g.Extends (g.explain l hops) := by
  refine ⟨by rw [explain_size], fun x _ => by rw [explain_loc]; exact .refl _, fun h x hx he => ?_⟩
  rw [explain_size] at hx
  rw [explain_loc] at he ⊢
  exact h x hx he

end Graph

/-! ## One flow -/

theorem Attrs.contains_union_all (s : Attrs) : (s.union all).contains all = true := by
  refine decide_eq_true ?_
  unfold inter union all
  congr 1
  ext i hi
  simp only [BitVec.getElem_and, BitVec.getElem_or]
  cases s.bits[i] <;> simp

/-- The value of `src`, after `n` dereferences, flows into `dst`, unless nothing comes of it:
the address of what escapes already, or a location into itself. -/
def Fed (g : Graph) (dst src : LocId) (n : Int) : Prop :=
  (n < 0 ∧ (g.loc src).escapes = true) ∨ (dst = src ∧ 0 ≤ n) ∨
    ∃ e ∈ (g.loc dst).edges, e.src = src ∧ e.derefs = n

theorem Fed.extends {g g' : Graph} {dst src : LocId} {n : Int} (h : Fed g dst src n)
    (hg : g.Extends g') : Fed g' dst src n := by
  rcases h with ⟨hn, h⟩ | h | ⟨e, he, hs, hn⟩
  · exact .inl ⟨hn, hg.escapes h⟩
  · exact .inr (.inl h)
  · exact .inr (.inr ⟨e, hg.mem_edges he, hs, hn⟩)

theorem extends_ite (q : Bool) (b b' : BatchGraph) (h : b.graph.Extends b'.graph)
    (hs : b'.graph.size = b.graph.size) :
    b.graph.Extends (if q then b' else b).graph ∧
      (if q then b' else b).graph.size = b.graph.size := by
  cases q with
  | false => exact ⟨.refl _, rfl⟩
  | true => exact ⟨h, hs⟩

theorem extends_markAddr (k : Hole) {src : LocId} {b : BatchGraph} (hsrc : src < b.graph.size) :
    b.graph.Extends
        (if k.addrTaken then b.update src fun l => { l with addrTaken := true } else b).graph ∧
      (if k.addrTaken then b.update src fun l => { l with addrTaken := true } else b).graph.size =
        b.graph.size :=
  extends_ite _ b _ (b.graph.extends_update hsrc _
    ⟨fun _ h => h, Attrs.le_refl _, rfl, rfl, rfl, fun h => h⟩) (b.graph.update_size src _)

/-- A flow into `k` adds to the graph and feeds the destination of `k`. -/
theorem flow_spec (notes : Bool) (k : Hole) (src : LocId) (b : BatchGraph)
    (hsrc : src < b.graph.size) (hk : ∀ dst, k.dst = some dst → dst < b.graph.size) :
    b.graph.Extends (b.flow notes k src).graph ∧
      (b.flow notes k src).graph.size = b.graph.size ∧
      ∀ dst, k.dst = some dst → Fed (b.flow notes k src).graph dst src k.derefs := by
  obtain ⟨hext, hsize⟩ := extends_markAddr k hsrc
  unfold BatchGraph.flow
  dsimp only
  generalize (if k.addrTaken then b.update src fun l => { l with addrTaken := true } else b) = b₁
    at hext hsize ⊢
  have hsrc₁ : src < b₁.graph.size := by rw [hsize]; exact hsrc
  cases hd : k.dst with
  | none => exact ⟨hext, hsize, nofun⟩
  | some dst =>
    have hdst : dst < b₁.graph.size := by rw [hsize]; exact hk dst hd
    dsimp only
    split
    · next hself => exact ⟨hext, hsize, fun _ h => by cases h; exact .inr (.inl hself)⟩
    · split
      · next hesc =>
        -- the destination escapes, and so does the source from now on
        obtain ⟨hext₂, hsize₂⟩ := extends_ite (notes && !(b₁.graph.loc src).escapes) b₁
          { b₁ with graph := b₁.graph.explain src [⟨dst, src, k.derefs, k.notes⟩] }
          (b₁.graph.extends_explain _ _) (b₁.graph.explain_size _ _)
        generalize (if notes && !(b₁.graph.loc src).escapes then
          ({ b₁ with graph := b₁.graph.explain src [⟨dst, src, k.derefs, k.notes⟩] } : BatchGraph)
          else b₁) = b₂ at hext₂ hsize₂ ⊢
        have hsrc₂ : src < b₂.graph.size := by rw [hsize₂]; exact hsrc₁
        have hext₃ := b₂.graph.extends_update hsrc₂
          (fun l => { l with attrs := l.attrs.union .all })
          ⟨fun _ h => h, Attrs.le_union_left _ _, rfl, rfl, rfl,
            fun _ _ => Attrs.contains_union_all _⟩
        refine ⟨(hext.trans hext₂).trans hext₃, ?_, fun _ _ => .inl ⟨hesc.2, ?_⟩⟩
        · exact (b₂.graph.update_size src _).trans (hsize₂.trans hsize)
        · show ((b₂.graph.update src _).loc src).escapes = true
          rw [b₂.graph.update_loc hsrc₂, if_pos rfl]
          exact Attrs.le_union_right _ Attrs.all .escapes (Attrs.has_all _)
      · have hext₂ := b₁.graph.extends_update hdst
          (fun l => { l with
            edges := l.edges ++ [⟨src, k.derefs, if notes then k.notes else []⟩] })
          ⟨fun _ h => List.mem_append_left _ h, Attrs.le_refl _, rfl, rfl, rfl, fun h => h⟩
        refine ⟨hext.trans hext₂, (b₁.graph.update_size dst _).trans hsize, ?_⟩
        intro _ h
        cases h
        refine .inr (.inr ⟨⟨src, k.derefs, if notes then k.notes else []⟩, ?_, rfl, rfl⟩)
        show _ ∈ ((b₁.graph.update dst _).loc dst).edges
        rw [b₁.graph.update_loc hdst, if_pos rfl]
        exact List.mem_append_right _ (List.mem_singleton.2 rfl)

theorem flow_vars (notes : Bool) (k : Hole) (src : LocId) (b : BatchGraph) :
    (b.flow notes k src).vars = b.vars := by
  unfold BatchGraph.flow
  dsimp only
  have hmark : (if k.addrTaken then b.update src fun l => { l with addrTaken := true }
      else b).vars = b.vars := by split <;> rfl
  generalize (if k.addrTaken then b.update src fun l => { l with addrTaken := true } else b) = b₁
    at hmark ⊢
  cases k.dst with
  | none => exact hmark
  | some dst =>
    dsimp only
    split
    · exact hmark
    · split
      · refine Eq.trans ?_ hmark
        show BatchGraph.vars (if notes && !(b₁.graph.loc src).escapes then _ else b₁) = _
        split <;> rfl
      · exact hmark

/-- `b'` is `b` with more in its graph. -/
structure BatchGraph.Extends (b b' : BatchGraph) : Prop where
  graph : b.graph.Extends b'.graph
  vars : b'.vars = b.vars

theorem BatchGraph.Extends.refl (b : BatchGraph) : b.Extends b := ⟨.refl _, rfl⟩

theorem BatchGraph.Extends.trans {a b c : BatchGraph} (h : a.Extends b) (k : b.Extends c) :
    a.Extends c :=
  ⟨h.graph.trans k.graph, k.vars.trans h.vars⟩

/-! ## Building that succeeds -/

namespace Build

/-- From `b` the action succeeds, with a result and a graph of which `Q` holds. -/
def Yields {α : Type} (act : Build α) (b : BatchGraph) (Q : α → BatchGraph → Prop) : Prop :=
  ∃ a b', act.run b = .ok (a, b') ∧ Q a b'

theorem Yields.mono {α : Type} {act : Build α} {b : BatchGraph} {Q R : α → BatchGraph → Prop}
    (h : act.Yields b Q) (hQ : ∀ a b', Q a b' → R a b') : act.Yields b R := by
  obtain ⟨a, b', hrun, hq⟩ := h
  exact ⟨a, b', hrun, hQ a b' hq⟩

theorem yields_pure {α : Type} {Q : α → BatchGraph → Prop} {a : α} {b : BatchGraph}
    (h : Q a b) : (pure a : Build α).Yields b Q :=
  ⟨a, b, rfl, h⟩

theorem Yields.bind {α β : Type} {act : Build α} {f : α → Build β} {b : BatchGraph}
    {Q : α → BatchGraph → Prop} {R : β → BatchGraph → Prop} (h : act.Yields b Q)
    (hf : ∀ a b', Q a b' → (f a).Yields b' R) : (act >>= f).Yields b R := by
  obtain ⟨a, b', hrun, hq⟩ := h
  obtain ⟨c, b'', hrun', hr⟩ := hf a b' hq
  refine ⟨c, b'', ?_, hr⟩
  rw [StateT.run_bind, hrun]
  exact hrun'

theorem run_lift {α : Type} {x : Except Error α} {a : α} (hx : x = .ok a) (b : BatchGraph) :
    (liftM x : Build α).run b = .ok (a, b) := by
  subst hx
  rfl

theorem yields_lift {α : Type} {Q : α → BatchGraph → Prop} {x : Except Error α} {a : α}
    {b : BatchGraph} (hx : x = .ok a) (h : Q a b) : (liftM x : Build α).Yields b Q :=
  ⟨a, b, run_lift hx b, h⟩

theorem yields_flow (s : Scene) (k : Hole) (src : LocId) (b : BatchGraph)
    {Q : Unit → BatchGraph → Prop} (h : Q () (b.flow s.notes k src)) :
    (flow s k src).Yields b Q :=
  ⟨(), _, rfl, h⟩

/-! ## Holes for arguments -/

end Build

/-- The hole takes no address, and leads into the first `n` locations or nowhere. -/
structure Hole.Fits (k : Hole) (n : Nat) : Prop where
  derefs : 0 ≤ k.derefs
  dst : ∀ l, k.dst = some l → l < n

theorem Hole.Fits.mono {k : Hole} {m n : Nat} (h : k.Fits m) (hmn : m ≤ n) : k.Fits n :=
  ⟨h.derefs, fun l hl => Nat.lt_of_lt_of_le (h.dst l hl) hmn⟩

/-- Beyond that, the last change of the hole took no address. -/
structure Hole.Plain (k : Hole) (n : Nat) : Prop extends k.Fits n where
  addrTaken : k.addrTaken = false

theorem Hole.shift_ok {k : Hole} {d : Int} (h : -1 ≤ k.derefs + d) :
    k.shift d = .ok { k with derefs := k.derefs + d, addrTaken := d < 0 } := by
  unfold Hole.shift
  rw [if_neg (by omega)]

/-- What flows into the hole `h` gets to the place that `k` stands for. -/
def Leads (g : Graph) (h k : Hole) : Prop :=
  h = k ∨ ∃ t, h.dst = some t ∧ h.derefs = 0 ∧ ∀ dst, k.dst = some dst → Fed g dst t k.derefs

namespace Build

/-- A temporary flows into each of the holes. -/
theorem forM_flow_yields (s : Scene) (t : LocId) (ks : List Hole) (b : BatchGraph)
    (ht : t < b.graph.size) (hks : ∀ k ∈ ks, k.Fits b.graph.size) :
    (ks.forM fun k => do
      if k.derefs < 0 then throw (.internal .teeOfAddress)
      flow s k t : Build Unit).Yields b fun _ b' =>
        b.Extends b' ∧
          ∀ k ∈ ks, ∀ dst, k.dst = some dst → Fed b'.graph dst t k.derefs := by
  induction ks generalizing b with
  | nil => exact yields_pure ⟨.refl _, nofun⟩
  | cons k ks ih =>
    have hk := hks k List.mem_cons_self
    obtain ⟨hext, hsize, hfed⟩ := flow_spec s.notes k t b ht hk.dst
    show Yields (_ >>= fun _ => ks.forM _) _ _
    refine Yields.bind (Q := fun _ b' => b' = b.flow s.notes k t) ?_ ?_
    · dsimp only
      rw [if_neg (Int.not_lt.2 hk.derefs)]
      exact yields_flow s k t b rfl
    rintro ⟨⟩ _ rfl
    refine (ih _ (by rw [hsize]; exact ht)
      fun k' hk' => (hks k' (List.mem_cons_of_mem _ hk')).mono hext.size).mono ?_
    rintro ⟨⟩ b' ⟨hext', hrest⟩
    refine ⟨.trans ⟨hext, flow_vars s.notes k t b⟩ hext', ?_⟩
    intro k' hk' dst hdst
    rcases List.mem_cons.1 hk' with rfl | hk'
    · exact (hfed dst hdst).extends hext'.graph
    · exact hrest k' hk' dst hdst

theorem tee_yields (s : Scene) (pl : Place) (ks : List Hole) (b : BatchGraph)
    (hks : ∀ k ∈ ks, k.Plain b.graph.size) :
    (tee s pl ks).Yields b fun h b' =>
      b.Extends b' ∧ h.Plain b'.graph.size ∧ ∀ k ∈ ks, Leads b'.graph h k := by
  match ks with
  | [] => exact yields_pure ⟨.refl _, ⟨⟨Int.le_refl 0, nofun⟩, rfl⟩, nofun⟩
  | [k] =>
    exact yields_pure ⟨.refl _, hks k List.mem_cons_self,
      fun k' hk' => .inl (List.mem_singleton.1 hk').symm⟩
  | k :: k' :: ks =>
    have hpush : b.graph.Extends (b.graph.push (.temp (some pl.func) pl.depth false)) :=
      b.graph.extends_push _ (Attrs.has_empty _)
    refine Yields.bind
      (Q := fun t b' => t = b.graph.size ∧
        b' = { b with graph := b.graph.push (.temp (some pl.func) pl.depth false) })
      ⟨_, _, rfl, rfl, rfl⟩ ?_
    rintro t b1 ⟨rfl, rfl⟩
    have ht : b.graph.size < (b.graph.push (.temp (some pl.func) pl.depth false)).size := by
      rw [Graph.push_size]
      exact Nat.lt_succ_self _
    refine Yields.bind (forM_flow_yields s b.graph.size (k :: k' :: ks) _ ht
      fun x hx => (hks x hx).toFits.mono hpush.size) ?_
    rintro ⟨⟩ b2 ⟨hext, hfed⟩
    refine yields_pure ⟨?_, ⟨⟨Int.le_refl 0, ?_⟩, rfl⟩, ?_⟩
    · exact ⟨hpush.trans hext.graph, hext.vars⟩
    · intro l hl
      cases hl
      exact Nat.lt_of_lt_of_le ht hext.graph.size
    · intro x hx
      exact .inr ⟨_, rfl, rfl, hfed x hx⟩

end Build

/-- Where a parameter with the given leaks leads, and after how many dereferences, if the
results of the call go to `ks`. -/
inductive LeadsTo (leaks : Leaks) (ks : Option (List Hole)) : Option LocId → Int → Prop
  | heap {d : Nat} : leaks.get? .heap = some d → LeadsTo leaks ks (some heapId) d
  | mutator {d : Nat} : leaks.get? .mutator = some d → LeadsTo leaks ks (some mutatorId) d
  | callee {d : Nat} : leaks.get? .callee = some d → LeadsTo leaks ks (some calleeId) d
  | result {j d : Nat} {k : Hole} : j < Sink.trackedResults → leaks.get? (.result j) = some d →
      (ks.getD [])[j]? = some k → LeadsTo leaks ks k.dst (k.derefs + d)

/-- The computation succeeds, with a value of which `Q` holds. -/
def Succeeds {α : Type} (x : Except Error α) (Q : α → Prop) : Prop := ∃ a, x = .ok a ∧ Q a

theorem Succeeds.bind {α β : Type} {x : Except Error α} {f : α → Except Error β} {Q : α → Prop}
    {R : β → Prop} (h : Succeeds x Q) (hf : ∀ a, Q a → Succeeds (f a) R) :
    Succeeds (x >>= f) R := by
  obtain ⟨a, rfl, ha⟩ := h
  exact hf a ha

theorem succeeds_mapM {α β : Type} (f : α → Except Error β) (P : α → β → Prop) (xs : List α)
    (hf : ∀ x ∈ xs, Succeeds (f x) (P x)) :
    Succeeds (xs.mapM f) fun ys =>
      (∀ y ∈ ys, ∃ x ∈ xs, P x y) ∧ ∀ x ∈ xs, ∃ y ∈ ys, P x y := by
  induction xs with
  | nil => exact ⟨[], rfl, nofun, nofun⟩
  | cons x xs ih =>
    rw [List.mapM_cons]
    refine (hf x List.mem_cons_self).bind fun y hy => ?_
    refine (ih fun x hx => hf x (List.mem_cons_of_mem _ hx)).bind ?_
    rintro ys ⟨hback, hforth⟩
    refine ⟨y :: ys, rfl, ?_, ?_⟩
    · intro z hz
      rcases List.mem_cons.1 hz with rfl | hz
      · exact ⟨x, List.mem_cons_self, hy⟩
      · obtain ⟨w, hw, hP⟩ := hback z hz
        exact ⟨w, List.mem_cons_of_mem _ hw, hP⟩
    · intro w hw
      rcases List.mem_cons.1 hw with rfl | hw
      · exact ⟨y, List.mem_cons_self, hy⟩
      · obtain ⟨z, hz, hP⟩ := hforth w hw
        exact ⟨z, List.mem_cons_of_mem _ hz, hP⟩

/-- Shifting a hole that fits gives one hole, further from its place. -/
theorem Hole.Fits.shift {k : Hole} {n : Nat} (hk : k.Fits n) (d : Nat) :
    Succeeds (do return [← k.shift d]) fun hs => (∀ h ∈ hs, h.Plain n) ∧
      ∃ h ∈ hs, h.dst = k.dst ∧ h.derefs = k.derefs + d := by
  have hd := hk.derefs
  rw [Hole.shift_ok (by omega)]
  refine ⟨_, rfl, ?_, _, List.mem_singleton.2 rfl, rfl, rfl⟩
  intro h hh
  obtain rfl := List.mem_singleton.1 hh
  exact ⟨⟨by show 0 ≤ k.derefs + d; omega, hk.dst⟩,
    decide_eq_false (Int.not_lt.2 (Int.natCast_nonneg d))⟩

namespace Build

/-- A record of a sink gives one hole, no record none. -/
theorem sinkHoles_succeeds {n : Nat} (hn : 3 ≤ n) {l : LocId} (hl : l < 3) (r : Option Nat) :
    Succeeds (match r with
      | none => pure []
      | some d => do return [← (Hole.ofLoc l).shift d])
    fun hs => (∀ h ∈ hs, h.Plain n) ∧
      ∀ d : Nat, r = some d → ∃ h ∈ hs, h.dst = some l ∧ h.derefs = d := by
  cases r with
  | none => exact ⟨[], rfl, nofun, nofun⟩
  | some d =>
    have hfit : (Hole.ofLoc l).Fits n :=
      ⟨Int.le_refl 0, fun x hx => by cases hx; exact Nat.lt_of_lt_of_le hl hn⟩
    obtain ⟨hs, hok, hfits, h, hh, hdst, hderefs⟩ := hfit.shift d
    refine ⟨hs, hok, hfits, ?_⟩
    rintro _ ⟨⟩
    exact ⟨h, hh, hdst, hderefs.trans (Int.zero_add _)⟩

/-- A record of a result gives one hole, if the result goes anywhere. -/
theorem resultHoles_succeeds {n : Nat} (r : Option Nat) (k : Option Hole)
    (hk : ∀ h, k = some h → h.Fits n) :
    Succeeds (match r, k with
      | some d, some k => do return [← k.shift d]
      | _, _ => pure [])
    fun hs => (∀ h ∈ hs, h.Plain n) ∧
      ∀ (d : Nat) (k' : Hole), r = some d → k = some k' →
        ∃ h ∈ hs, h.dst = k'.dst ∧ h.derefs = k'.derefs + d := by
  cases r with
  | none => exact ⟨[], rfl, nofun, nofun⟩
  | some d =>
    cases k with
    | none => exact ⟨[], rfl, nofun, nofun⟩
    | some k =>
      obtain ⟨hs, hok, hfits, h, hh, hdst, hderefs⟩ := (hk k rfl).shift d
      refine ⟨hs, hok, hfits, ?_⟩
      rintro _ _ ⟨⟩ ⟨⟩
      exact ⟨h, hh, hdst, hderefs⟩

/-- A parameter leads to a hole for each of its leaks that has a place to go. -/
theorem leakHoles_succeeds (leaks : Leaks) (ks : Option (List Hole)) {n : Nat} (hn : 3 ≤ n)
    (hks : ∀ k ∈ ks.getD [], k.Fits n) :
    Succeeds (leakHoles leaks ks) fun hs => (∀ h ∈ hs, h.Plain n) ∧
      ∀ dst d, LeadsTo leaks ks dst d → ∃ h ∈ hs, h.dst = dst ∧ h.derefs = d := by
  unfold leakHoles
  refine (sinkHoles_succeeds hn (l := heapId) (by decide) (leaks.get? .heap)).bind ?_
  rintro hs₀ ⟨hfit₀, h₀⟩
  refine (sinkHoles_succeeds hn (l := mutatorId) (by decide) (leaks.get? .mutator)).bind ?_
  rintro hs₁ ⟨hfit₁, h₁⟩
  refine (sinkHoles_succeeds hn (l := calleeId) (by decide) (leaks.get? .callee)).bind ?_
  rintro hs₂ ⟨hfit₂, h₂⟩
  refine (succeeds_mapM _ (fun j hs => (∀ h ∈ hs, h.Plain n) ∧
    ∀ (d : Nat) (k : Hole), leaks.get? (.result j) = some d → (ks.getD [])[j]? = some k →
      ∃ h ∈ hs, h.dst = k.dst ∧ h.derefs = k.derefs + d) _ ?_).bind ?_
  · intro j _
    exact resultHoles_succeeds _ _ fun k hk => hks k (List.mem_of_getElem? hk)
  · rintro hss ⟨hback, hforth⟩
    refine ⟨_, rfl, ?_, ?_⟩
    · intro h hh
      simp only [List.mem_append, List.mem_flatten] at hh
      rcases hh with hh | hh | hh | ⟨hs, hhs, hh⟩
      · exact hfit₀ h hh
      · exact hfit₁ h hh
      · exact hfit₂ h hh
      · obtain ⟨_, _, hfit, -⟩ := hback hs hhs
        exact hfit h hh
    · intro dst d hlead
      simp only [List.mem_append, List.mem_flatten]
      cases hlead with
      | heap hd =>
        obtain ⟨h, hh, hp⟩ := h₀ _ hd
        exact ⟨h, .inl hh, hp⟩
      | mutator hd =>
        obtain ⟨h, hh, hp⟩ := h₁ _ hd
        exact ⟨h, .inr (.inl hh), hp⟩
      | callee hd =>
        obtain ⟨h, hh, hp⟩ := h₂ _ hd
        exact ⟨h, .inr (.inr (.inl hh)), hp⟩
      | @result j d k hj hd hk =>
        obtain ⟨hs, hhs, -, hlead⟩ := hforth j (List.mem_range.2 hj)
        obtain ⟨h, hh, hp⟩ := hlead d k hd hk
        exact ⟨h, .inr (.inr (.inr ⟨hs, hhs, hh⟩)), hp⟩

/-- The hole for an argument of a function outside the batch leads to every place that the
summary names. -/
theorem paramHole_yields (s : Scene) (pl : Place) (ks : Option (List Hole)) (callee : FuncId)
    (i : Nat) (b : BatchGraph) (hout : s.members.contains callee = false)
    (hb : 3 ≤ b.graph.size) (hks : ∀ k ∈ ks.getD [], k.Fits b.graph.size) :
    (paramHole s pl ks (some callee) i).Yields b fun h b' =>
      b.Extends b' ∧ h.Plain b'.graph.size ∧
        ∀ sum leaks dst d, s.summary? callee = some sum → sum.params[i]? = some leaks →
          LeadsTo leaks ks dst d →
          ∃ k, k.dst = dst ∧ k.derefs = d ∧ 0 ≤ d ∧ Leads b'.graph h k := by
  unfold paramHole
  dsimp only
  rw [if_neg (by rw [hout]; exact Bool.false_ne_true)]
  cases hp : (s.summary? callee).bind (·.params[i]?) with
  | none =>
    refine yields_pure ⟨.refl _, ⟨⟨Int.le_refl 0, fun l hl => ?_⟩, rfl⟩, ?_⟩
    · cases hl
      exact Nat.lt_of_lt_of_le (by decide) hb
    · intro sum leaks _ _ hsum hleaks
      rw [hsum, Option.bind_some, hleaks] at hp
      cases hp
  | some leaks =>
    obtain ⟨hs, hok, hfits, hleads⟩ := leakHoles_succeeds leaks ks hb hks
    refine Yields.bind (yields_lift (Q := fun a b' => hs = a ∧ b = b') hok ⟨rfl, rfl⟩) ?_
    rintro _ _ ⟨rfl, rfl⟩
    refine (tee_yields s pl hs b hfits).mono ?_
    rintro h b' ⟨hext, hfit, hlead⟩
    refine ⟨hext, hfit, ?_⟩
    intro sum leaks' dst d hsum hleaks hto
    rw [hsum, Option.bind_some, hleaks] at hp
    cases hp
    obtain ⟨k, hk, hdst, hd⟩ := hleads dst d hto
    exact ⟨k, hdst, hd, hd ▸ (hfits k hk).derefs, hlead k hk⟩

/-! ## Arguments -/

/-- The arguments of a call from number `i` on, each a location after a number of
dereferences. -/
def argumentFlows (s : Scene) (pl : Place) (ks : Option (List Hole)) (callee : FuncId) :
    Nat → List (LocId × Int) → Build Unit
  | _, [] => pure ()
  | i, (a, w) :: args => do
    let k ← paramHole s pl ks (some callee) i
    flow s (← (note s "call parameter" k).shift w) a
    argumentFlows s pl ks callee (i + 1) args

end Build

/-- `src` flows into `dst` after `n` dereferences, at once or through a temporary. -/
def Feeds (g : Graph) (dst src : LocId) (n : Int) : Prop :=
  Fed g dst src n ∨ ∃ t m, 0 ≤ m ∧ Fed g dst t m ∧ Fed g t src (n - m)

theorem Feeds.extends {g g' : Graph} {dst src : LocId} {n : Int} (h : Feeds g dst src n)
    (hg : g.Extends g') : Feeds g' dst src n := by
  rcases h with h | ⟨t, m, hm, h₁, h₂⟩
  · exact .inl (h.extends hg)
  · exact .inr ⟨t, m, hm, h₁.extends hg, h₂.extends hg⟩

namespace Build

theorem note_dst (s : Scene) (why : String) (k : Hole) : (note s why k).dst = k.dst := by
  unfold note
  split <;> rfl

theorem note_derefs (s : Scene) (why : String) (k : Hole) : (note s why k).derefs = k.derefs := by
  unfold note
  split <;> rfl

/-- An argument that flows into a hole feeds every place to which the hole leads. -/
theorem feeds_of_leads {s : Scene} {h k : Hole} {a : LocId} {w : Int} {b : BatchGraph}
    (hh : h.Fits b.graph.size) (hk : 0 ≤ k.derefs) (ha : a < b.graph.size)
    (hlead : Leads b.graph h k) {dst : LocId} (hdst : k.dst = some dst) {h' : Hole}
    (hd : h'.dst = h.dst) (hw : h'.derefs = h.derefs + w) :
    Feeds (b.flow s.notes h' a).graph dst a (k.derefs + w) := by
  obtain ⟨hext, -, hfed⟩ := flow_spec s.notes h' a b ha fun l hl => hh.dst l (hd ▸ hl)
  rcases hlead with rfl | ⟨t, ht, h0, hto⟩
  · left
    rw [← hw]
    exact hfed dst (hd.trans hdst)
  · refine .inr ⟨t, k.derefs, hk, (hto dst hdst).extends hext, ?_⟩
    have := hfed t (hd.trans ht)
    rwa [hw, h0, show (0 : Int) + w = k.derefs + w - k.derefs by omega] at this

/-- Expanding the arguments of a call succeeds, only adds to the graph, and feeds each argument
into every place that the summary names for its parameter. -/
theorem argumentFlows_yields (s : Scene) (pl : Place) (ks : Option (List Hole)) (callee : FuncId)
    (hout : s.members.contains callee = false) (i : Nat) (args : List (LocId × Int))
    (b : BatchGraph) (hb : 3 ≤ b.graph.size) (hks : ∀ k ∈ ks.getD [], k.Fits b.graph.size)
    (hargs : ∀ a w, (a, w) ∈ args → a < b.graph.size ∧ -1 ≤ w) :
    (argumentFlows s pl ks callee i args).Yields b fun _ b' =>
      b.Extends b' ∧
        ∀ sum j a w leaks dst d, s.summary? callee = some sum → args[j]? = some (a, w) →
          sum.params[i + j]? = some leaks → LeadsTo leaks ks (some dst) d →
          Feeds b'.graph dst a (d + w) := by
  induction args generalizing b i with
  | nil => exact yields_pure ⟨.refl _, nofun⟩
  | cons arg args ih =>
    obtain ⟨a, w⟩ := arg
    obtain ⟨ha, hw⟩ := hargs a w List.mem_cons_self
    unfold argumentFlows
    refine (paramHole_yields s pl ks callee i b hout hb hks).bind ?_
    rintro h b₁ ⟨hext₁, hfit, hlead⟩
    have hshift : -1 ≤ (note s "call parameter" h).derefs + w := by
      have := hfit.derefs
      rw [note_derefs]
      omega
    refine Yields.bind (yields_lift (Q := fun k b' => k.dst = h.dst ∧ k.derefs = h.derefs + w ∧
      b₁ = b') (Hole.shift_ok hshift) ⟨note_dst s _ h, ?_, rfl⟩) ?_
    · show (note s "call parameter" h).derefs + w = h.derefs + w
      rw [note_derefs]
    rintro h' _ ⟨hdst', hderefs', rfl⟩
    have ha₁ : a < b₁.graph.size := Nat.lt_of_lt_of_le ha hext₁.graph.size
    obtain ⟨hext₂, -, -⟩ := flow_spec s.notes h' a b₁ ha₁ fun l hl => hfit.dst l (hdst' ▸ hl)
    refine Yields.bind (yields_flow (Q := fun _ b' => b' = b₁.flow s.notes h' a) s h' a b₁ rfl) ?_
    rintro ⟨⟩ _ rfl
    have hext := hext₁.trans ⟨hext₂, flow_vars s.notes h' a b₁⟩
    refine (ih (i + 1) _ (Nat.le_trans hb hext.graph.size)
      (fun k hk => (hks k hk).mono hext.graph.size)
      fun a w haw => ?_).mono ?_
    · obtain ⟨ha, hw⟩ := hargs a w (List.mem_cons_of_mem _ haw)
      exact ⟨Nat.lt_of_lt_of_le ha hext.graph.size, hw⟩
    · rintro ⟨⟩ b₂ ⟨hext₃, hrest⟩
      refine ⟨hext.trans hext₃, ?_⟩
      intro sum j a' w' leaks dst d hsum harg hleaks hto
      cases j with
      | zero =>
        cases harg
        obtain ⟨k, hkd, rfl, hk0, hk⟩ := hlead sum leaks (some dst) d hsum hleaks hto
        exact (feeds_of_leads hfit.toFits hk0 ha₁ hk hkd hdst' hderefs').extends hext₃.graph
      | succ j =>
        refine hrest sum j a' w' leaks dst d hsum harg ?_ hto
        rwa [show i + 1 + j = i + (j + 1) by omega]

/-! ## Arguments as they are evaluated -/

/-- Variable `v` is local and has location `a`. -/
structure LocalAt (s : Scene) (b : BatchGraph) (v : VarId) (a : LocId) : Prop where
  known : ∃ decl, s.program.var? v = some decl ∧ decl.isGlobal = false
  loc : b.varLoc? v = some a

/-- A variable after `w` dereferences, or its address. -/
def argumentExpr (v : VarId) : Int → Expr
  | .ofNat n => Expr.deref^[n] (.ident v)
  | .negSucc _ => .addrOf (.ident v)

theorem run_bind_ok {α β : Type} {act : Build α} {f : α → Build β} {b b' : BatchGraph} {a : α}
    (h : act.run b = .ok (a, b')) : (act >>= f).run b = (f a).run b' := by
  rw [StateT.run_bind, h]
  rfl

theorem note_of_not {s : Scene} (hs : s.notes = false) (why : String) (k : Hole) :
    note s why k = k := by
  unfold note
  rw [hs]
  rfl

section Evaluation

variable {s : Scene} (pl : Place) {v : VarId} {decl : Variable} {a : LocId} {b : BatchGraph}

theorem value_ident (hv : s.program.var? v = some decl) (hg : decl.isGlobal = false)
    (hb : b.varLoc? v = some a) (k : Hole) :
    (value s pl k (.ident v)).run b = .ok ((), b.flow s.notes k a) := by
  have hglob : (isGlobal s v).run b = .ok (false, b) := by
    unfold isGlobal
    rw [hv, ← hg]
    rfl
  have hloc : (varLoc v).run b = .ok (a, b) := by
    unfold varLoc
    rw [StateT.run_bind, StateT.run_get, pure_bind]
    dsimp only
    rw [hb]
    rfl
  unfold value
  rw [run_bind_ok hglob]
  exact run_bind_ok hloc

theorem value_deref_iterate (hs : s.notes = false) (hv : s.program.var? v = some decl)
    (hg : decl.isGlobal = false) (hb : b.varLoc? v = some a) (n : Nat) {k : Hole}
    (hk : 0 ≤ k.derefs) (ht : k.addrTaken = false) :
    (value s pl k (Expr.deref^[n] (.ident v))).run b =
      .ok ((), b.flow s.notes { k with derefs := k.derefs + n } a) := by
  induction n generalizing k with
  | zero =>
    rw [show ({ k with derefs := k.derefs + (0 : Nat) } : Hole) = k by simp]
    exact value_ident pl hv hg hb k
  | succ n ih =>
    have hderef : k.deref = .ok { k with derefs := k.derefs + 1 } := by
      unfold Hole.deref
      rw [Hole.shift_ok (by omega), ht]
      rfl
    have hk' : 0 ≤ k.derefs + 1 := by omega
    have hsum : k.derefs + 1 + (n : Int) = k.derefs + (n + 1 : Nat) := by omega
    rw [Function.iterate_succ_apply', value, run_bind_ok (run_lift hderef b), note_of_not hs,
      ih (k := { k with derefs := k.derefs + 1 }) hk' ht, hsum]

/-- Evaluating such an argument is one flow, from the location of the variable. -/
theorem value_argumentExpr (hs : s.notes = false) (hv : s.program.var? v = some decl)
    (hg : decl.isGlobal = false) (hb : b.varLoc? v = some a) {k : Hole} (hk : 0 ≤ k.derefs)
    (ht : k.addrTaken = false) {w : Int} (hw : -1 ≤ w) :
    (value s pl k (argumentExpr v w)).run b =
      .ok ((), b.flow s.notes { k with derefs := k.derefs + w, addrTaken := w < 0 } a) := by
  cases w with
  | ofNat n =>
    unfold argumentExpr
    rw [value_deref_iterate pl hs hv hg hb n hk ht, ht]
    rfl
  | negSucc n =>
    have hn : Int.negSucc n = -1 := by omega
    have haddr : k.addr = .ok { k with derefs := k.derefs + -1, addrTaken := (-1 : Int) < 0 } :=
      Hole.shift_ok (by omega)
    rw [hn]
    show (value s pl k (.addrOf (.ident v))).run b = _
    unfold value
    rw [if_neg (by unfold needsCell; exact Bool.false_ne_true), run_bind_ok (run_lift haddr b),
      note_of_not hs, value_ident pl hv hg hb]

end Evaluation

/-- Arguments that are variables, addresses of variables or dereferences of them are expanded as
`argumentFlows` has it. -/
theorem arguments_run_eq (s : Scene) (pl : Place) (ks : Option (List Hole)) (callee : FuncId)
    (hs : s.notes = false) (hout : s.members.contains callee = false)
    (vs : List (VarId × LocId × Int)) (i : Nat) (b : BatchGraph) (hb : 3 ≤ b.graph.size)
    (hks : ∀ k ∈ ks.getD [], k.Fits b.graph.size)
    (hvs : ∀ v a w, (v, a, w) ∈ vs → LocalAt s b v a ∧ a < b.graph.size ∧ -1 ≤ w) :
    (arguments s pl .plain ks (some callee) i (vs.map fun x => argumentExpr x.1 x.2.2)).run b =
      (argumentFlows s pl ks callee i (vs.map (·.2))).run b := by
  induction vs generalizing i b with
  | nil =>
    unfold arguments argumentFlows
    rfl
  | cons x vs ih =>
    obtain ⟨v, a, w⟩ := x
    obtain ⟨⟨⟨decl, hv, hg⟩, hloc⟩, ha, hw⟩ := hvs v a w List.mem_cons_self
    obtain ⟨h, b₁, hrun, hext₁, hplain, -⟩ := paramHole_yields s pl ks callee i b hout hb hks
    have hloc₁ : b₁.varLoc? v = some a := by
      unfold BatchGraph.varLoc?
      rw [hext₁.vars]
      exact hloc
    rw [List.map_cons, List.map_cons, arguments, argumentFlows]
    unfold argHole
    have hval := value_argumentExpr pl hs hv hg hloc₁ hplain.derefs hplain.addrTaken hw
    have hk := hplain.derefs
    rw [run_bind_ok hrun, run_bind_ok hrun, note_of_not hs, run_bind_ok hval,
      run_bind_ok (run_lift (Hole.shift_ok (by omega)) b₁)]
    have ha₁ : a < b₁.graph.size := Nat.lt_of_lt_of_le ha hext₁.graph.size
    obtain ⟨hext₂, -, -⟩ := flow_spec s.notes { h with derefs := h.derefs + w, addrTaken := w < 0 }
      a b₁ ha₁ hplain.dst
    have hext := hext₁.trans ⟨hext₂, flow_vars s.notes _ a b₁⟩
    refine ih (i + 1) _ (Nat.le_trans hb hext.graph.size)
      (fun k hk => (hks k hk).mono hext.graph.size) fun v' a' w' hmem => ?_
    obtain ⟨⟨hdecl, hloc'⟩, ha', hw'⟩ := hvs v' a' w' (List.mem_cons_of_mem _ hmem)
    refine ⟨⟨hdecl, ?_⟩, Nat.lt_of_lt_of_le ha' hext.graph.size, hw'⟩
    unfold BatchGraph.varLoc?
    rw [hext.vars]
    exact hloc'

end Build

end EscapeFlow
