import EscapeFlow.Proofs.Changes

/-!
# What a graph is, once it is there, stays

Every part of building is put together from a few elementary changes of the graph.  `Evolution P`
says that the relation `P` holds across each of them, and `Build.Respects P x` that it holds
across the whole action `x`, wherever that succeeds:

    EvolutionAt pl P → Respects P (value s pl k e)                           (respects_value)
    DeepEvolution P → Respects P (body s f)                                   (respects_body)

New locations get the depth of the place where they are made, and an expression makes all of them
at its own place, so there it is enough that the relation holds across those of one place
(`EvolutionAt`).  An evolution of statements also admits that a declaration sets the depth of its
variable.  What an action respects is found by instances, from what its parts respect.
-/

namespace EscapeFlow

open BatchGraph

/-- The relation holds across a flow, a new location and the mark of a capture. -/
class Evolution (P : BatchGraph → BatchGraph → Prop) : Prop where
  refl : ∀ b, P b b
  trans : ∀ {b b₁ b₂}, P b b₁ → P b₁ b₂ → P b b₂
  flow : ∀ b notes k src, P b (b.flow notes k src)
  temp : ∀ b pl persists, P b (b.pushTemp pl persists)
  site : ∀ b pl i, b.siteLoc? i = none → P b (b.pushSite pl i)
  global : ∀ b v, b.varLoc? v = none → P b (b.pushGlobal v)
  captured : ∀ b l, P b (b.update l fun x => { x with captured := true })

/-- The relation holds across whatever makes no temporary and no allocation. -/
class Steady (P : BatchGraph → BatchGraph → Prop) : Prop where
  refl : ∀ b, P b b
  trans : ∀ {b b₁ b₂}, P b b₁ → P b₁ b₂ → P b b₂
  flow : ∀ b notes k src, P b (b.flow notes k src)
  global : ∀ b v, b.varLoc? v = none → P b (b.pushGlobal v)
  captured : ∀ b l, P b (b.update l fun x => { x with captured := true })

/-- Also across temporaries and allocations that are made at the place `pl`. -/
class EvolutionAt (pl : Place) (P : BatchGraph → BatchGraph → Prop) : Prop extends Steady P where
  temp : ∀ b persists, P b (b.pushTemp pl persists)
  site : ∀ b i, b.siteLoc? i = none → P b (b.pushSite pl i)

instance {P : BatchGraph → BatchGraph → Prop} [Evolution P] : Steady P where
  refl := Evolution.refl
  trans := Evolution.trans
  flow := Evolution.flow
  global := Evolution.global
  captured := Evolution.captured

instance {P : BatchGraph → BatchGraph → Prop} [Evolution P] (pl : Place) : EvolutionAt pl P where
  temp b := Evolution.temp b pl
  site b := Evolution.site b pl

/-- Also across the declaration of a variable. -/
class DeepEvolution (P : BatchGraph → BatchGraph → Prop) : Prop extends Evolution P where
  depth : ∀ b v l d, b.varLoc? v = some l → P b (b.update l fun x => { x with loopDepth := d })

namespace Build

/-- The relation holds between the graphs before and after the action. -/
class Respects (P : BatchGraph → BatchGraph → Prop) {α : Type} (x : Build α) : Prop where
  run : ∀ {b a b₁}, x.run b = .ok (a, b₁) → P b b₁

/-- A run of one action after another. -/
theorem run_bind_eq_ok {α β : Type} {x : Build α} {f : α → Build β} {b b₂ : BatchGraph} {d : β}
    (h : (x >>= f).run b = .ok (d, b₂)) :
    ∃ a b₁, x.run b = .ok (a, b₁) ∧ (f a).run b₁ = .ok (d, b₂) := by
  rw [StateT.run_bind] at h
  cases hx : x.run b with
  | error e =>
    rw [hx] at h
    cases h
  | ok r =>
    rw [hx] at h
    exact ⟨r.1, r.2, rfl, h⟩

variable {P : BatchGraph → BatchGraph → Prop} {α β ι : Type}

section Combinators

variable [Steady P]

instance respects_pure (a : α) : Respects P (pure a : Build α) where
  run h := by
    cases h
    exact Steady.refl _

instance respects_throw (e : Error) : Respects P (throw e : Build α) where
  run h := by cases h

instance respects_lift (x : Except Error α) : Respects P (liftM x : Build α) where
  run h := by
    cases x with
    | ok a =>
      cases h
      exact Steady.refl _
    | error e => cases h

instance respects_bind (x : Build α) (f : α → Build β) [hx : Respects P x]
    [hf : ∀ a, Respects P (f a)] : Respects P (x >>= f) where
  run h := by
    obtain ⟨a, b₁, h₁, h₂⟩ := run_bind_eq_ok h
    exact Steady.trans (hx.run h₁) ((hf a).run h₂)

omit [Steady P] in
instance respects_ite (q : Prop) [Decidable q] (x y : Build α) [Respects P x] [Respects P y] :
    Respects P (if q then x else y) := by
  split <;> assumption

instance respects_discard (x : Build α) [Respects P x] : Respects P (discard x) :=
  inferInstanceAs (Respects P (x >>= fun _ => pure ()))

instance respects_forM (xs : List ι) (f : ι → Build Unit) [∀ i, Respects P (f i)] :
    Respects P (xs.forM f) := by
  induction xs with
  | nil => exact respects_pure ()
  | cons i xs ih => exact inferInstanceAs (Respects P (f i >>= fun _ => xs.forM f))

instance respects_mapM (xs : List ι) (f : ι → Build α) [∀ i, Respects P (f i)] :
    Respects P (xs.mapM f) := by
  induction xs with
  | nil => exact respects_pure []
  | cons i xs ih =>
    rw [List.mapM_cons]
    infer_instance

end Combinators

/-! ## Elementary actions -/

section Elementary

variable [Steady P] (s : Scene) (k : Hole)

instance respects_flow (l : LocId) : Respects P (Build.flow s k l) where
  run h := by
    cases h
    exact Steady.flow _ _ _ _

instance respects_varLoc (v : VarId) : Respects P (varLoc v) where
  run {b a b₁} h := by
    rw [run_varLoc] at h
    split at h
    · cases h
      exact Steady.refl _
    · cases h

instance respects_function (f : FuncId) : Respects P (function s f) := by
  unfold function
  split <;> infer_instance

instance respects_isGlobal (v : VarId) : Respects P (isGlobal s v) := by
  unfold isGlobal
  split <;> infer_instance

instance respects_globalLoc (v : VarId) : Respects P (globalLoc v) where
  run {b a b₁} h := by
    rw [run_globalLoc] at h
    split at h
    · cases h
      exact Steady.refl _
    · next hnone =>
      cases h
      exact Steady.global _ _ hnone

instance respects_captured (l : LocId) :
    Respects P (modify (·.update l fun x => { x with captured := true })) where
  run h := by
    cases h
    exact Steady.captured _ _

instance respects_wireResults (ks : Option (List Hole)) (callee : Option FuncId) :
    Respects P (wireResults s ks callee) := by
  unfold wireResults
  split <;> infer_instance

instance respects_capture (v : VarId) : Respects P (capture s k v) := by
  unfold capture
  infer_instance

end Elementary

variable (s : Scene) (pl : Place) [EvolutionAt pl P] (k : Hole)

instance respects_newTemp (persists : Bool) : Respects P (newTemp pl persists) where
  run h := by
    cases h
    exact EvolutionAt.temp _ _

instance respects_siteLoc (i : SiteId) : Respects P (siteLoc s pl i) where
  run {b a b₁} h := by
    rw [run_siteLoc] at h
    split at h
    · cases h
    · split at h
      · cases h
      · next hnew =>
        cases h
        exact EvolutionAt.site _ _ (Option.not_isSome_iff_eq_none.1 hnew)

/-! ## Holes and calls -/

instance respects_spill (i : SiteId) : Respects P (spill s pl k i) := by
  unfold spill
  infer_instance

instance respects_aggregate (i : SiteId) : Respects P (aggregate s pl k i) := by
  unfold aggregate
  infer_instance

instance respects_later : Respects P (later s pl k) := by
  unfold later
  infer_instance

instance respects_tee (ks : List Hole) : Respects P (tee s pl ks) := by
  unfold tee
  split <;> infer_instance

instance respects_paramHole (ks : Option (List Hole)) (callee : Option FuncId) (i : Nat) :
    Respects P (paramHole s pl ks callee i) := by
  unfold paramHole
  split
  · infer_instance
  · split
    · split
      · refine @respects_bind _ _ _ _ _ _ _ fun d => ?_
        split <;> infer_instance
      · infer_instance
    · split <;> infer_instance

instance respects_calleeHole (mode : CallMode) (callee : Expr) :
    Respects P (calleeHole s pl mode callee) := by
  unfold calleeHole
  split <;> infer_instance

instance respects_argHole (mode : CallMode) (ks : Option (List Hole)) (callee : Option FuncId)
    (i : Nat) : Respects P (argHole s pl mode ks callee i) := by
  unfold argHole
  split <;> infer_instance

instance respects_compositeHole (i : SiteId) (kind : CompositeKind) :
    Respects P (compositeHole s pl k i kind) := by
  unfold compositeHole
  split <;> infer_instance

/-! ## Expressions -/

mutual

theorem respects_value : ∀ (k : Hole) (e : Expr), Respects P (value s pl k e)
  | k, .ident v => by
    rw [value]
    infer_instance
  | k, .literal _ => by
    rw [value]
    infer_instance
  | k, .funcRef _ => by
    rw [value]
    infer_instance
  | k, .addrOf e => by
    have := fun k' => respects_value k' e
    rw [value]
    infer_instance
  | k, .deref e => by
    have := fun k' => respects_value k' e
    rw [value]
    infer_instance
  | k, .field e _ => by
    rw [value]
    exact respects_value _ e
  | k, .ptrField e _ => by
    have := fun k' => respects_value k' e
    rw [value]
    infer_instance
  | k, .index kind e i => by
    have := fun k' => respects_value k' e
    have := fun k' => respects_value k' i
    cases kind <;> rw [value] <;> infer_instance
  | k, .binary e i => by
    have := fun k' => respects_value k' e
    have := fun k' => respects_value k' i
    rw [value]
    infer_instance
  | k, .call callee args => by
    have := fun k' => respects_value k' callee
    have := fun mode ks f i => respects_arguments mode ks f i args
    rw [value]
    infer_instance
  | k, .new _ => by
    rw [value]
    infer_instance
  | k, .composite _ _ es => by
    have := fun k' => respects_elements k' es
    rw [value]
    infer_instance
  | k, .mapLit _ es => by
    have := respects_mapEntries es
    rw [value]
    infer_instance
  | k, .closure _ _ => by
    rw [value]
    infer_instance

theorem respects_arguments : ∀ (mode : CallMode) (ks : Option (List Hole)) (f : Option FuncId)
    (i : Nat) (es : List Expr), Respects P (arguments s pl mode ks f i es)
  | mode, ks, f, i, [] => by
    rw [arguments]
    infer_instance
  | mode, ks, f, i, e :: es => by
    have := fun k' => respects_value k' e
    have := respects_arguments mode ks f (i + 1) es
    rw [arguments]
    infer_instance

theorem respects_elements : ∀ (k : Hole) (es : List Expr), Respects P (elements s pl k es)
  | k, [] => by
    rw [elements]
    infer_instance
  | k, e :: es => by
    have := respects_value k e
    have := respects_elements k es
    rw [elements]
    infer_instance

theorem respects_mapEntries : ∀ es : List (Expr × Expr), Respects P (mapEntries s pl es)
  | [] => by
    rw [mapEntries]
    infer_instance
  | (e, e') :: es => by
    have := fun k' => respects_value k' e
    have := fun k' => respects_value k' e'
    have := respects_mapEntries es
    rw [mapEntries]
    infer_instance

end

attribute [instance] respects_value respects_arguments respects_elements respects_mapEntries

instance respects_call (mode : CallMode) (ks : Option (List Hole)) (callee : Expr)
    (args : List Expr) : Respects P (call s pl mode ks callee args) := by
  unfold call
  infer_instance

instance respects_mutate (e : Expr) : Respects P (mutate s pl e) := by
  unfold mutate
  infer_instance

instance respects_target (e : Expr) : Respects P (target s pl e) := by
  fun_induction target s pl e <;> infer_instance

/-! ## Statements -/

instance respects_assignPairs (pairs : List (Expr × Expr)) :
    Respects P (assignPairs s pl pairs) := by
  unfold assignPairs
  infer_instance

instance respects_assign_pairwise (lhs rhs : List Expr) :
    Respects P (assign.pairwise s pl lhs rhs) := by
  unfold assign.pairwise
  infer_instance

instance respects_assign (lhs rhs : List Expr) : Respects P (assign s pl lhs rhs) := by
  unfold assign
  split <;> infer_instance

instance respects_ret_each (values : List Expr) (f : Function) :
    Respects P (ret.each s pl values f) := by
  unfold ret.each
  infer_instance

instance respects_ret (values : List Expr) : Respects P (ret s pl values) := by
  unfold ret
  refine @respects_bind _ _ _ _ _ _ _ fun decl => ?_
  split <;> infer_instance

instance respects_spawn (mode : CallMode) (e : Expr) : Respects P (spawn s pl mode e) := by
  unfold spawn
  split <;> infer_instance

/-- Puts the declaration of a variable at a depth. -/
def settle (v : VarId) (d : Nat) : Build LocId := do
  let l ← varLoc v
  modify (·.update l fun x => { x with loopDepth := d })
  pure l

/-- The first value of a declared variable. -/
def initial (s : Scene) (pl : Place) (l : LocId) : Option Expr → Build Unit
  | none => pure ()
  | some e => value s pl (note s "assign" (.ofLoc l)) e

/-- The condition of a loop. -/
def guarding (s : Scene) (pl : Place) : Option Expr → Build Unit
  | none => pure ()
  | some e => value s pl .discard e

/-- An expression that stands alone: the results of a call are not taken. -/
def alone (s : Scene) (pl : Place) : Expr → Build Unit
  | .call callee args => call s pl .plain none callee args
  | e => value s pl .discard e

theorem stmt_decl (looping : List LabelId) (pl : Place) (v : VarId) (init : Option Expr) :
    stmt s looping pl (.decl v init) = (settle v pl.depth >>= fun l => initial s pl l init) := by
  rw [stmt, settle]
  simp only [bind_assoc, pure_bind]
  cases init <;> rfl

theorem stmt_loop (looping : List LabelId) (pl : Place) (cond : Option Expr) (xs : List Stmt) :
    stmt s looping pl (.loop cond xs) =
      (guarding s ⟨pl.func, pl.depth + 1⟩ cond >>= fun _ =>
        stmts s looping ⟨pl.func, pl.depth + 1⟩ xs) := by
  cases cond <;> rw [stmt] <;> rfl

theorem stmt_expr (looping : List LabelId) (pl : Place) (e : Expr) :
    stmt s looping pl (.expr e) = alone s pl e := by
  cases e with
  | call callee args =>
    rw [stmt]
    rfl
  | _ =>
    rw [stmt]
    · rfl
    · exact nofun

theorem run_settle (v : VarId) (d : Nat) (b : BatchGraph) :
    (settle v d).run b =
      match b.varLoc? v with
      | some l => .ok (l, b.update l fun x => { x with loopDepth := d })
      | none => .error (.unknownVariable v) := by
  unfold settle
  rw [StateT.run_bind, run_varLoc]
  cases b.varLoc? v <;> rfl

instance respects_initial (l : LocId) (init : Option Expr) :
    Respects P (initial s pl l init) := by
  unfold initial
  split <;> infer_instance

instance respects_guarding (cond : Option Expr) :
    Respects P (guarding s pl cond) := by
  unfold guarding
  split <;> infer_instance

instance respects_alone (e : Expr) : Respects P (alone s pl e) := by
  unfold alone
  split <;> infer_instance

end Build

namespace Build

variable {P : BatchGraph → BatchGraph → Prop} [DeepEvolution P] (s : Scene)
  (looping : List LabelId)

instance respects_settle (v : VarId) (d : Nat) : Respects P (settle v d) where
  run {b a b₁} h := by
    rw [run_settle] at h
    split at h
    · next l hl =>
      cases h
      exact DeepEvolution.depth _ v _ _ hl
    · cases h

mutual

theorem respects_stmt : ∀ (pl : Place) (x : Stmt), Respects P (stmt s looping pl x)
  | pl, .decl v init => by
    rw [stmt_decl]
    infer_instance
  | pl, .assign lhs rhs => by
    rw [stmt]
    infer_instance
  | pl, .expr e => by
    rw [stmt_expr]
    infer_instance
  | pl, .ifElse cond t e => by
    have := respects_stmts pl t
    have := respects_stmts pl e
    rw [stmt]
    infer_instance
  | pl, .loop cond xs => by
    have := respects_stmts ⟨pl.func, pl.depth + 1⟩ xs
    rw [stmt_loop]
    infer_instance
  | pl, .block xs => by
    rw [stmt]
    exact respects_stmts pl xs
  | pl, .ret values => by
    rw [stmt]
    infer_instance
  | pl, .label _ => by
    rw [stmt]
    infer_instance
  | pl, .goto _ => by
    rw [stmt]
    infer_instance
  | pl, .go e => by
    rw [stmt]
    infer_instance
  | pl, .defer e => by
    rw [stmt]
    infer_instance

theorem respects_stmts : ∀ (pl : Place) (xs : List Stmt), Respects P (stmts s looping pl xs)
  | pl, [] => by
    rw [stmts]
    infer_instance
  | pl, x :: xs => by
    have := respects_stmt pl x
    have := respects_stmts ⟨pl.func, depthAfter looping pl.depth x⟩ xs
    rw [stmts]
    infer_instance

end

attribute [instance] respects_stmt respects_stmts

instance respects_body (f : Function) : Respects P (body s f) := by
  unfold body
  split <;> infer_instance

end Build

/-! ## What stays -/

/-- What a global is in a graph. -/
def globalRole (v : VarId) : Role := ⟨.site (.var v), none, false, none, true⟩

/-- The table of variables says whose storage a location is. -/
def BatchGraph.Tabled (b : BatchGraph) : Prop :=
  ∀ v l, b.varLoc? v = some l → (b.graph.loc l).owner = .site (.var v)

/-- All that is in `b` is in `b'`, at the same depth unless it is a variable, and whatever
variable came into the table on the way is a global. -/
structure BatchGraph.Keeps (b b' : BatchGraph) : Prop extends b.Grows b' where
  attrs : ∀ l, l < b.graph.size → (b.graph.loc l).attrs ≤ (b'.graph.loc l).attrs
  depth : ∀ l, l < b.graph.size → (∀ v, (b.graph.loc l).owner ≠ .site (.var v)) →
    (b'.graph.loc l).loopDepth = (b.graph.loc l).loopDepth
  global : ∀ v l, b.varLoc? v = none → b'.varLoc? v = some l →
    (b'.graph.loc l).role = globalRole v

namespace BatchGraph

variable {b b' b'' : BatchGraph}

theorem Keeps.refl (b : BatchGraph) : b.Keeps b where
  toGrows := .refl b
  attrs _ _ := Attrs.le_refl _
  depth _ _ _ := rfl
  global v l hn hs := by
    rw [hn] at hs
    cases hs

theorem Keeps.trans (h : b.Keeps b') (h' : b'.Keeps b'') : b.Keeps b'' where
  toGrows := h.toGrows.trans h'.toGrows
  attrs l hl := Attrs.le_trans (h.attrs l hl) (h'.attrs l (Nat.lt_of_lt_of_le hl h.size))
  depth l hl hv := by
    rw [h'.depth l (Nat.lt_of_lt_of_le hl h.size), h.depth l hl hv]
    intro v
    rw [h.owner hl]
    exact hv v
  global v l hn hs := by
    cases hm : b'.varLoc? v with
    | none => exact h'.global v l hm hs
    | some l' =>
      obtain rfl : l' = l := Option.some.inj ((h'.vars v l' hm).symm.trans hs)
      have hrole := h.global v l' hn hm
      have hlt : l' < b'.graph.size := Graph.lt_size_of_site (congrArg Role.owner hrole)
      rw [h'.role l' hlt, hrole]

/-- A new location: what was there is as it was. -/
theorem Keeps.push {x : Location} (hg : b.Grows b') (hb : b'.graph = b.graph.push x)
    (hnew : ∀ v l, b.varLoc? v = none → b'.varLoc? v = some l →
      l = b.graph.size ∧ x.role = globalRole v) : b.Keeps b' where
  toGrows := hg
  attrs l hl := by
    rw [hb, b.graph.push_loc_of_lt x hl]
    exact Attrs.le_refl _
  depth l hl _ := by rw [hb, b.graph.push_loc_of_lt x hl]
  global v l hn hs := by
    obtain ⟨rfl, hrole⟩ := hnew v l hn hs
    rw [hb, b.graph.push_loc_self, hrole]

theorem Tabled.push {x : Location} (h : b.Tabled) (hb : b'.graph = b.graph.push x)
    (hvars : ∀ v l, b'.varLoc? v = some l →
      b.varLoc? v = some l ∨ x.owner = .site (.var v) ∧ l = b.graph.size) : b'.Tabled := by
  intro v l hv
  rw [hb]
  rcases hvars v l hv with hv | ⟨hx, rfl⟩
  · rw [b.graph.push_loc_of_lt x (Graph.lt_size_of_site (h v l hv))]
    exact h v l hv
  · rw [b.graph.push_loc_self]
    exact hx

/-- A change of a location that keeps its role, edges and attributes. -/
theorem Keeps.update (b : BatchGraph) (l : LocId) {f : Location → Location}
    (hrole : ∀ x, (f x).role = x.role) (hedges : ∀ x, (f x).edges = x.edges)
    (hattrs : ∀ x, (f x).attrs = x.attrs)
    (hdepth : (∀ v, (b.graph.loc l).owner ≠ .site (.var v)) → ∀ x, (f x).loopDepth = x.loopDepth) :
    b.Keeps (b.update l f) where
  toGrows := .update b l hrole hedges hattrs
  attrs x _ := by
    show _ ≤ ((b.graph.update l f).loc x).attrs
    rw [b.graph.update_view Location.attrs l x hattrs]
    exact Attrs.le_refl _
  depth x _ hv := by
    by_cases hx : x = l
    · subst hx
      exact b.graph.update_view Location.loopDepth x x (hdepth hv)
    · show ((b.graph.update l f).loc x).loopDepth = _
      rw [b.graph.update_loc_all, if_neg fun h => hx h.1]
  global v x hn hs := absurd (hn.symm.trans hs) nofun

theorem Tabled.update (h : b.Tabled) (l : LocId) {f : Location → Location}
    (hrole : ∀ x, (f x).role = x.role) : (b.update l f).Tabled := by
  intro v x hv
  rw [← h v x hv]
  exact congrArg Role.owner (b.graph.update_view Location.role l x hrole)

end BatchGraph

/-- From a graph with a table that is right, everything is kept, and the table stays right. -/
def Evolves (b b' : BatchGraph) : Prop := b.Tabled → b.Keeps b' ∧ b'.Tabled

instance : DeepEvolution Evolves where
  refl b hb := ⟨.refl b, hb⟩
  trans h h' hb := by
    obtain ⟨hk, hb⟩ := h hb
    obtain ⟨hk', hb⟩ := h' hb
    exact ⟨hk.trans hk', hb⟩
  flow b notes k src hb := by
    have hvars : (b.flow notes k src).varLoc? = b.varLoc? := by
      funext v
      rw [varLoc?, flow_vars, varLoc?]
    constructor
    · refine ⟨.flow b notes k src, fun l _ => ?_, fun l _ _ => Covers.flow_loopDepth l,
        fun v l hn hs => ?_⟩
      · rcases b.attrs_flow notes k src l with hsame | ⟨-, hall⟩
        · rw [hsame]
          exact Attrs.le_refl _
        · rw [hall]
          exact Attrs.le_union_left _ _
      · rw [hvars, hn] at hs
        cases hs
    · intro v l hv
      rw [hvars] at hv
      rw [← hb v l hv]
      exact congrArg Role.owner (Covers.flow_role l)
  temp b pl persists hb := by
    have hgrows : b.Grows (b.pushTemp pl persists) := .push rfl (fun _ _ => id) fun _ _ => id
    exact ⟨.push hgrows rfl fun v l hn hs => absurd (hn.symm.trans hs) nofun,
      hb.push rfl fun _ _ => .inl⟩
  site b pl i hi hb := by
    have hgrows : b.Grows (b.pushSite pl i) :=
      .push rfl (fun _ _ => id) fun j l hj => (siteLoc?_pushSite hi pl j l).2 (.inl hj)
    exact ⟨.push hgrows rfl fun v l hn hs => absurd (hn.symm.trans hs) nofun,
      hb.push rfl fun _ _ => .inl⟩
  global b v hv hb := by
    have hgrows : b.Grows (b.pushGlobal v) :=
      .push rfl (fun w l hw => (varLoc?_pushVar hv _ w l).2 (.inl hw)) fun _ _ => id
    constructor
    · refine .push hgrows rfl fun w l hn hs => ?_
      rcases (varLoc?_pushVar hv _ w l).1 hs with hs | ⟨rfl, rfl⟩
      · rw [hn] at hs
        cases hs
      · exact ⟨rfl, rfl⟩
    · refine hb.push rfl fun w l hs => ?_
      rcases (varLoc?_pushVar hv _ w l).1 hs with hs | ⟨rfl, rfl⟩
      · exact .inl hs
      · exact .inr ⟨rfl, rfl⟩
  captured b l hb :=
    ⟨.update b l (fun _ => rfl) (fun _ => rfl) (fun _ => rfl) fun _ _ => rfl,
      hb.update l fun _ => rfl⟩
  depth b v l d hv hb :=
    ⟨.update b l (fun _ => rfl) (fun _ => rfl) (fun _ => rfl) fun h => absurd (hb v l hv) (h v),
      hb.update l fun _ => rfl⟩

end EscapeFlow
