import EscapeFlow.Proofs.Changes

/-!
# What the parts of building do

`W.Does b Q x` says what the action `x` does to a well-formed graph `b`: it goes through
`Changes` and `Q` holds of its value and of the graph it leaves, or it fails, with an error in the
input or, unless `W` is strict, with one of the two faults that a hole can have.

One law for each part of building that is no expression or statement says what it needs of its
holes and what it does with them.  An argument that leaks to the heap, for instance, gets a hole
that leads there, at once or by way of a temporary:

    (∀ k ∈ ks, W.Good b k) → W.Does b (fun k b' => W.Good b' k ∧
      (… ∨ W.scene.Leaks callee i → b'.LeadsToHeap k)) (argHole …)                  (argHole_does)

and a closure gets the variables that it captures, by value or by address:

    W.Does b (fun _ b' => s.IsLocal v → b'.Gets (some l) v (if s.changes v then -1 else 0))
      (capture s (.ofLoc l) v)                                                      (capture_does)
-/

namespace EscapeFlow

open BatchGraph

/-! ## Actions on a graph -/

/-- What is looked at while a graph is built. -/
structure Watch where
  scene : Scene
  /-- Allocations that only closure literals make. -/
  lits : SiteId → Prop
  /-- Whether a failure has to be one of the input. -/
  strict : Prop

/-- A hole was to take the address of an address, or one that takes an address was to be teed. -/
def Error.isHoleFault : Error → Bool
  | .internal (.holeBelowAddress derefs) => derefs = -2
  | .internal .teeOfAddress => true
  | _ => false

/-- The error is one in the input or, if `W` is not strict, a fault of a hole. -/
def Watch.Allows (W : Watch) (e : Error) : Prop :=
  e.isInput = true ∨ ¬ W.strict ∧ e.isHoleFault = true

/-- The computation gives a value with `Q`, or fails as `W` allows. -/
def Watch.Gives (W : Watch) {α : Type} (Q : α → Prop) : Except Error α → Prop
  | .ok a => Q a
  | .error e => W.Allows e

namespace Watch.Gives

variable {W : Watch} {α β : Type} {Q : α → Prop} {R : β → Prop}

theorem mono {x : Except Error α} {Q' : α → Prop} (h : W.Gives Q x) (hQ : ∀ a, Q a → Q' a) :
    W.Gives Q' x := by
  cases x with
  | ok a => exact hQ a h
  | error e => exact h

theorem bind {x : Except Error α} {f : α → Except Error β} (h : W.Gives Q x)
    (hf : ∀ a, Q a → W.Gives R (f a)) : W.Gives R (x >>= f) := by
  cases x with
  | ok a => exact hf a h
  | error e => exact h

theorem mapM {ι : Type} {f : ι → Except Error α} (xs : List ι) (h : ∀ i ∈ xs, W.Gives Q (f i)) :
    W.Gives (fun as => ∀ a ∈ as, Q a) (xs.mapM f) := by
  induction xs with
  | nil => exact (nofun : ∀ a ∈ [], Q a)
  | cons i xs ih =>
    rw [List.mapM_cons]
    refine (h i List.mem_cons_self).bind fun a ha => ?_
    refine (ih fun j hj => h j (List.mem_cons_of_mem _ hj)).bind fun as has => ?_
    exact List.forall_mem_cons.2 ⟨ha, has⟩

end Watch.Gives

/-- What the action does to a well-formed graph. -/
def Watch.Does (W : Watch) {α : Type} (b : BatchGraph) (Q : α → BatchGraph → Prop)
    (x : Build α) : Prop :=
  b.WellFormed → W.Gives (fun r => Changes W.scene W.lits b r.2 ∧ Q r.1 r.2) (x.run b)

namespace Watch.Does

variable {W : Watch} {α β : Type} {b : BatchGraph} {Q : α → BatchGraph → Prop}
  {R : β → BatchGraph → Prop}

theorem pure {a : α} (h : b.WellFormed → Q a b) : W.Does b Q (Pure.pure a) :=
  fun hb => ⟨.refl, h hb⟩

/-- That the graph is well-formed can be used. -/
theorem wellFormed {x : Build α} (h : b.WellFormed → W.Does b Q x) : W.Does b Q x :=
  fun hb => h hb hb

theorem throw {e : Error} (h : W.Allows e) : W.Does b Q (MonadExcept.throw e) :=
  fun _ => h

theorem lift {x : Except Error α} (h : W.Gives (fun a => Q a b) x) : W.Does b Q (liftM x) :=
  fun _ => h.bind fun _ ha => ⟨.refl, ha⟩

/-- One change of the graph. -/
theorem change {f : BatchGraph → BatchGraph} {Q : Unit → BatchGraph → Prop}
    (h : b.WellFormed → Change W.scene W.lits b (f b)) (hq : b.WellFormed → Q () (f b)) :
    W.Does b Q (modify f) :=
  fun hb => ⟨.single (h hb), hq hb⟩

theorem mono {x : Build α} {Q' : α → BatchGraph → Prop} (h : W.Does b Q x)
    (hQ : ∀ a b', b.Grows b' → b'.WellFormed → Q a b' → Q' a b') : W.Does b Q' x :=
  fun hb => (h hb).mono fun r hr => ⟨hr.1, hQ r.1 r.2 hr.1.grows (hr.1.wellFormed hb) hr.2⟩

theorem bind {x : Build α} {f : α → Build β} (hx : W.Does b Q x)
    (hf : ∀ a b', b.Grows b' → Q a b' → W.Does b' R (f a)) : W.Does b R (x >>= f) := by
  intro hb
  rw [StateT.run_bind]
  refine (hx hb).bind fun r hr => ?_
  refine (hf r.1 r.2 hr.1.grows hr.2 (hr.1.wellFormed hb)).mono fun r' hr' => ?_
  exact ⟨hr.1.trans hr'.1, hr'.2⟩

/-- What each round of a loop achieves stays. -/
theorem forM {ι : Type} {f : ι → Build Unit} {P : ι → BatchGraph → Prop} (xs : List ι)
    (hP : ∀ i c c', BatchGraph.Grows c c' → P i c → P i c')
    (h : ∀ i ∈ xs, ∀ c, b.Grows c → W.Does c (fun _ => P i) (f i)) :
    W.Does b (fun _ c => ∀ i ∈ xs, P i c) (xs.forM f) := by
  induction xs generalizing b with
  | nil => exact pure fun _ => nofun
  | cons i xs ih =>
    show W.Does b _ (f i >>= fun _ => xs.forM f)
    refine (h i List.mem_cons_self b (.refl b)).bind fun _ c hc hi => ?_
    refine (ih fun j hj c' hc' => h j (List.mem_cons_of_mem _ hj) c' (hc.trans hc')).mono ?_
    intro _ c' hc' _ hxs
    exact List.forall_mem_cons.2 ⟨hP i c c' hc' hi, hxs⟩

/-- So does what holds of each value. -/
theorem mapM {ι : Type} {f : ι → Build α} {P : ι → BatchGraph → Prop} (xs : List ι)
    (hQ : ∀ a c c', BatchGraph.Grows c c' → Q a c → Q a c')
    (hP : ∀ i c c', BatchGraph.Grows c c' → P i c → P i c')
    (h : ∀ i ∈ xs, ∀ c, b.Grows c → W.Does c (fun a c' => Q a c' ∧ P i c') (f i)) :
    W.Does b (fun as c => (∀ a ∈ as, Q a c) ∧ ∀ i ∈ xs, P i c) (xs.mapM f) := by
  induction xs generalizing b with
  | nil => exact pure fun _ => ⟨nofun, nofun⟩
  | cons i xs ih =>
    rw [List.mapM_cons]
    refine (h i List.mem_cons_self b (.refl b)).bind fun a c hc hi => ?_
    refine (ih fun j hj c' hc' => h j (List.mem_cons_of_mem _ hj) c' (hc.trans hc')).bind ?_
    intro as c' hc' has
    refine pure fun _ => ⟨?_, ?_⟩
    · exact List.forall_mem_cons.2 ⟨hQ a c c' hc' hi.1, has.1⟩
    · exact List.forall_mem_cons.2 ⟨hP i c c' hc' hi.2, has.2⟩

end Watch.Does

/-! ## Holes -/

/-- An open hole, which takes no address if `W` is strict. -/
structure Watch.Good (W : Watch) (b : BatchGraph) (k : Hole) : Prop where
  isOpen : k.Open W.lits b
  nonneg : W.strict → 0 ≤ k.derefs

/-- The location of variable `v`, after `n` dereferences, flows into `dst` if it is there. -/
def BatchGraph.Gets (b : BatchGraph) (dst : Option LocId) (v : VarId) (n : Int) : Prop :=
  ∃ l, b.varLoc? v = some l ∧ ∀ d, dst = some d → Fed b.graph d l n

theorem BatchGraph.Gets.grows {b b' : BatchGraph} (hb : b.Grows b') {dst : Option LocId}
    {v : VarId} {n : Int} (h : b.Gets dst v n) : b'.Gets dst v n := by
  obtain ⟨l, hl, hfed⟩ := h
  exact ⟨l, hb.vars v l hl, fun d hd => hb.fed (hfed d hd)⟩

/-- The hole takes values as they are, into the heap or into what flows there. -/
def BatchGraph.LeadsToHeap (b : BatchGraph) (k : Hole) : Prop :=
  k.derefs = 0 ∧ ∃ d, k.dst = some d ∧ (d = heapId ∨ Fed b.graph heapId d 0)

theorem Hole.Open.note {lits : SiteId → Prop} {b : BatchGraph} {k : Hole} (h : k.Open lits b)
    (s : Scene) (why : String) : (Build.note s why k).Open lits b := by
  constructor
  · rw [Build.note_derefs]
    exact h.derefs
  · rw [Build.note_dst]
    exact h.lt
  · rw [Build.note_dst]
    exact h.apart

namespace Watch

variable {W : Watch} {b b' : BatchGraph}

namespace Good

theorem grows (hb : b.Grows b') {k : Hole} (h : W.Good b k) : W.Good b' k :=
  ⟨hb.openHole h.isOpen, h.nonneg⟩

theorem note {k : Hole} (h : W.Good b k) (s : Scene) (why : String) :
    W.Good b (Build.note s why k) :=
  ⟨h.isOpen.note s why, fun hs => (h.nonneg hs).trans_eq (Build.note_derefs s why k).symm⟩

theorem discard : W.Good b .discard :=
  ⟨⟨by decide, nofun, nofun⟩, fun _ => Int.le_refl 0⟩

/-- The hole of a location that is no allocation in `lits`. -/
theorem ofLoc {l : LocId} (hl : l < b.graph.size)
    (h : ∀ i, (b.graph.loc l).owner = .site (.alloc i) → ¬ W.lits i) : W.Good b (.ofLoc l) := by
  refine ⟨⟨show -1 ≤ (0 : Int) by decide, ?_, ?_⟩, fun _ => Int.le_refl 0⟩
  · intro l' hl'
    cases hl'
    exact hl
  · intro l' hl'
    cases hl'
    exact h

theorem sink (hb : b.WellFormed) {l : LocId} (hl : l < 3) : W.Good b (.ofLoc l) := by
  refine ofLoc (Nat.lt_of_lt_of_le hl hb.three_le) fun i hi => ?_
  have hsink := (Graph.sinks_loc l).2.2.1
  rw [← hb.sinks l hl, hi] at hsink
  cases hsink

theorem var (hb : b.WellFormed) {v : VarId} {l : LocId} (hv : b.varLoc? v = some l) :
    W.Good b (.ofLoc l) := by
  refine ofLoc (hb.holds_of_var hv).2 fun i hi => ?_
  rw [(hb.var_iff v l).1 hv] at hi
  cases hi

theorem alloc (hb : b.WellFormed) {i : SiteId} {l : LocId} (hi : b.siteLoc? i = some l)
    (hlit : ¬ W.lits i) : W.Good b (.ofLoc l) := by
  refine ofLoc (hb.holds_of_alloc hi).2 fun j hj => ?_
  rw [(hb.site_iff i l).1 hi] at hj
  cases hj
  exact hlit

end Good

open Build

variable (W) {k : Hole}

/-! ## Locations -/

theorem varLoc_does (v : VarId) :
    W.Does b (fun l b' => b'.varLoc? v = some l ∧ b'.Holds l ∧ W.Good b' (.ofLoc l))
      (varLoc v) := by
  intro hb
  rw [run_varLoc]
  cases hv : b.varLoc? v with
  | none => exact .inl rfl
  | some l => exact ⟨.refl, hv, hb.holds_of_var hv, .var hb hv⟩

theorem function_does (f : FuncId) :
    W.Does b (fun decl _ => W.scene.program.function? f = some decl) (function W.scene f) := by
  unfold function
  cases hf : W.scene.program.function? f with
  | none => exact .throw (.inl rfl)
  | some decl => exact .pure fun _ => rfl

theorem isGlobal_does (v : VarId) :
    W.Does b (fun g _ => ∃ decl, W.scene.program.var? v = some decl ∧ decl.isGlobal = g)
      (isGlobal W.scene v) := by
  unfold isGlobal
  cases hv : W.scene.program.var? v with
  | none => exact .throw (.inl rfl)
  | some decl => exact .pure fun _ => ⟨decl, rfl, rfl⟩

theorem newTemp_does (pl : Place) (persists : Bool) :
    W.Does b (fun l b' => b'.Holds l ∧ W.Good b' (.ofLoc l)) (newTemp pl persists) := by
  intro hb
  have hsize : (b.pushTemp pl persists).graph.size = b.graph.size + 1 := b.graph.push_size _
  have hlt : b.graph.size < (b.pushTemp pl persists).graph.size := by omega
  refine ⟨.single (.temp pl persists), ⟨hb.three_le, hlt⟩, .ofLoc hlt fun i hi => ?_⟩
  have howner : ((b.pushTemp pl persists).graph.loc b.graph.size).owner = .temp :=
    congrArg Location.owner (b.graph.push_loc_self _)
  exact absurd (howner.symm.trans hi) nofun

theorem siteLoc_does (pl : Place) (i : SiteId) :
    W.Does b (fun l b' => b'.siteLoc? i = some l ∧ b'.Holds l) (siteLoc W.scene pl i) := by
  intro hb
  rw [run_siteLoc]
  split
  · exact .inl rfl
  · split
    · exact .inl rfl
    · next hnew =>
      have hnone : b.siteLoc? i = none := Option.not_isSome_iff_eq_none.1 hnew
      have hstep : Change W.scene W.lits b (b.pushSite pl i) := .site pl hnone
      have hloc : (b.pushSite pl i).siteLoc? i = some b.graph.size :=
        (siteLoc?_pushSite hnone pl i _).2 (.inr ⟨rfl, rfl⟩)
      exact ⟨.single hstep, hloc, (hstep.wellFormed hb).holds_of_alloc hloc⟩

theorem globalLoc_does {v : VarId} {decl : Variable} (hv : W.scene.program.var? v = some decl)
    (hg : decl.isGlobal = true) : W.Does b (fun l b' => W.Good b' (.ofLoc l)) (globalLoc v) := by
  intro hb
  rw [run_globalLoc]
  cases hloc : b.varLoc? v with
  | some l => exact ⟨.refl, .var hb hloc⟩
  | none =>
    have hstep : Change W.scene W.lits b (b.pushGlobal v) :=
      .var hloc ⟨rfl, rfl, .inr ⟨rfl, decl, hv, hg⟩⟩
    exact ⟨.single hstep, .var (hstep.wellFormed hb)
      ((varLoc?_pushVar hloc _ v _).2 (.inr ⟨rfl, rfl⟩))⟩

theorem flow_does (hk : k.Open W.lits b) {l : LocId} (hl : b.Holds l) :
    W.Does b (fun _ b' => ∀ d, k.dst = some d → Fed b'.graph d l k.derefs)
      (Build.flow W.scene k l) :=
  .change (fun _ => .flow hk hl) fun _ _ hd => Covers.flow_fed _ hd hl.2 (hk.lt _ hd)

theorem shift_gives (hk : k.Open W.lits b) {d : Int} (hstep : -1 ≤ d)
    (hd : W.strict → -1 ≤ k.derefs + d) :
    W.Gives (fun k' => k'.Open W.lits b ∧ k'.dst = k.dst ∧ k'.derefs = k.derefs + d)
      (k.shift d) := by
  unfold Hole.shift
  split
  · next hlt =>
    have hbelow : k.derefs + d = -2 := by
      have := hk.derefs
      omega
    refine .inr ⟨fun hs => ?_, decide_eq_true hbelow⟩
    have := hd hs
    omega
  · next hge => exact ⟨⟨Int.not_lt.1 hge, hk.lt, hk.apart⟩, rfl, rfl⟩

theorem shift_does (hk : k.Open W.lits b) {d : Int} (hstep : -1 ≤ d)
    (hd : W.strict → -1 ≤ k.derefs + d) :
    W.Does b (fun k' b' => k'.Open W.lits b' ∧ k'.dst = k.dst ∧ k'.derefs = k.derefs + d)
      (liftM (k.shift d)) :=
  .lift (W.shift_gives hk hstep hd)

/-- A hole for a pointer takes no address. -/
theorem deref_does (hk : k.Open W.lits b) :
    W.Does b (fun k' b' => W.Good b' k') (liftM k.deref) := by
  have hopen := hk.derefs
  refine (W.shift_does hk (d := 1) (by decide) fun _ => by omega).mono fun k' b' _ _ hk' => ?_
  exact ⟨hk'.1, fun _ => by omega⟩

theorem addr_does (hk : W.Good b k) :
    W.Does b (fun k' b' => k'.Open W.lits b' ∧ k'.dst = k.dst ∧ k'.derefs = k.derefs - 1)
      (liftM k.addr) := by
  refine W.shift_does hk.isOpen le_rfl fun hs => ?_
  have := hk.nonneg hs
  omega

theorem spill_does (pl : Place) (hk : W.Good b k) (i : SiteId) :
    W.Does b (fun h b' => ∃ l, h = .ofLoc l ∧ b'.siteLoc? i = some l) (spill W.scene pl k i) := by
  unfold spill
  refine (W.siteLoc_does pl i).bind fun l b₁ h₁ hl => ?_
  refine (W.addr_does (hk.grows h₁)).bind fun k' b₂ h₂ hk' => ?_
  refine (W.flow_does (hk'.1.note _ "spill") (h₂.holds hl.2)).bind fun _ b₃ h₃ _ => ?_
  exact .pure fun _ => ⟨l, rfl, h₃.sites i l (h₂.sites i l hl.1)⟩

theorem aggregate_does (pl : Place) (hk : k.Open W.lits b) (i : SiteId) :
    W.Does b (fun h b' => ∃ l, h = .ofLoc l ∧ b'.siteLoc? i = some l)
      (aggregate W.scene pl k i) := by
  unfold aggregate
  refine (W.siteLoc_does pl i).bind fun l b₁ h₁ hl => ?_
  refine (W.flow_does (h₁.openHole hk) hl.2).bind fun _ b₂ h₂ _ => ?_
  exact .pure fun _ => ⟨l, rfl, h₂.sites i l hl.1⟩

/-- An array or a struct can be written into a hole that takes its address. -/
theorem compositeHole_does (pl : Place) (hk : k.Open W.lits b) (i : SiteId)
    (kind : CompositeKind) (hs : W.strict → kind = .slice → 0 ≤ k.derefs) :
    W.Does b (fun h b' => ∃ l, h = .ofLoc l ∧ b'.siteLoc? i = some l)
      (compositeHole W.scene pl k i kind) := by
  cases kind with
  | slice => exact W.spill_does pl ⟨hk, fun h => hs h rfl⟩ i
  | array | struct => exact W.aggregate_does pl hk i

theorem later_does (pl : Place) (hk : k.Open W.lits b) :
    W.Does b (fun h b' => W.Good b' h ∧ ∃ l, h = .ofLoc l ∧
      ∀ d, k.dst = some d → Fed b'.graph d l k.derefs) (later W.scene pl k) := by
  unfold later
  refine (W.newTemp_does pl true).bind fun l b₁ h₁ hl => ?_
  refine (W.flow_does (h₁.openHole hk) hl.1).bind fun _ b₂ h₂ hfed => ?_
  exact .pure fun _ => ⟨hl.2.grows h₂, l, rfl, hfed⟩

theorem teeHoles_does {l : LocId} (hl : b.Holds l) (ks : List Hole) (hks : ∀ k ∈ ks, W.Good b k) :
    W.Does b (fun _ _ => ∀ k ∈ ks, True)
      (ks.forM fun k => do
        if k.derefs < 0 then throw (.internal .teeOfAddress)
        Build.flow W.scene k l) := by
  refine .forM ks (fun _ _ _ _ _ => trivial) fun k hk b₁ h₁ => ?_
  dsimp only
  split
  · next hneg => exact .throw (.inr ⟨fun hs => absurd ((hks k hk).nonneg hs) (by omega), rfl⟩)
  · exact (W.flow_does (h₁.openHole (hks k hk).isOpen) (h₁.holds hl)).mono
      fun _ _ _ _ _ => trivial

theorem tee_does (pl : Place) (ks : List Hole) (hks : ∀ k ∈ ks, W.Good b k) :
    W.Does b (fun h b' => W.Good b' h ∧ ∀ k, ks = [k] → h = k) (tee W.scene pl ks) := by
  match ks, hks with
  | [], _ => exact .pure fun _ => ⟨.discard, nofun⟩
  | [k], hks =>
    refine .pure fun _ => ⟨hks k (List.mem_singleton.2 rfl), ?_⟩
    intro k' hk'
    exact (List.singleton_inj.1 hk')
  | k₁ :: k₂ :: ks, hks =>
    unfold tee
    refine (W.newTemp_does pl false).bind fun l b₁ h₁ hl => ?_
    refine (W.teeHoles_does hl.1 _ fun k hk => (hks k hk).grows h₁).bind fun _ b₂ h₂ _ => ?_
    exact .pure fun _ => ⟨hl.2.grows h₂, nofun⟩

/-! ## Parameters -/

theorem Good.shift (hk : W.Good b k) (d : Nat) : W.Gives (W.Good b) (k.shift d) := by
  have hd : W.strict → -1 ≤ k.derefs + d := fun hs => by
    have := hk.nonneg hs
    omega
  refine (W.shift_gives hk.isOpen (by omega) hd).mono fun k' hk' => ⟨hk'.1, fun hs => ?_⟩
  have := hk.nonneg hs
  omega

theorem shiftOne_gives (hk : W.Good b k) (d : Nat) :
    W.Gives (fun hs => ∀ h ∈ hs, W.Good b h) (do return [← k.shift d]) := by
  refine (hk.shift W d).bind fun k' hk' => ?_
  intro h hh
  obtain rfl := List.mem_singleton.1 hh
  exact hk'

theorem sinkHole_gives (hb : b.WellFormed) {l : LocId} (hl : l < 3) (r : Option Nat) :
    W.Gives (fun hs => ∀ h ∈ hs, W.Good b h)
      (match r with
        | none => pure []
        | some d => do return [← (Hole.ofLoc l).shift d]) := by
  cases r with
  | none => exact (nofun : ∀ h ∈ [], W.Good b h)
  | some d => exact W.shiftOne_gives (.sink hb hl) d

theorem resultHole_gives {ks : List Hole} (hks : ∀ k ∈ ks, W.Good b k) (r : Option Nat) (i : Nat) :
    W.Gives (fun hs => ∀ h ∈ hs, W.Good b h)
      (match r, ks[i]? with
        | some d, some k => do return [← k.shift d]
        | _, _ => pure []) := by
  have hnil : W.Gives (fun hs => ∀ h ∈ hs, W.Good b h) (pure []) :=
    (nofun : ∀ h ∈ [], W.Good b h)
  cases r with
  | none => exact hnil
  | some d =>
    cases hi : ks[i]? with
    | none => exact hnil
    | some k => exact W.shiftOne_gives (hks k (List.mem_of_getElem? hi)) d

theorem leakHoles_gives (hb : b.WellFormed) (leaks : Leaks) {ks : Option (List Hole)}
    (hks : ∀ k ∈ ks.getD [], W.Good b k) :
    W.Gives (fun hs => ∀ h ∈ hs, W.Good b h) (leakHoles leaks ks) := by
  unfold leakHoles
  refine (W.sinkHole_gives hb (l := heapId) (by decide) _).bind fun hs₀ h₀ => ?_
  refine (W.sinkHole_gives hb (l := mutatorId) (by decide) _).bind fun hs₁ h₁ => ?_
  refine (W.sinkHole_gives hb (l := calleeId) (by decide) _).bind fun hs₂ h₂ => ?_
  refine (Gives.mapM _ fun i _ => W.resultHole_gives hks _ i).bind fun hss h₃ => ?_
  intro h hh
  rcases List.mem_append.1 hh with hh | hh
  · exact h₀ h hh
  rcases List.mem_append.1 hh with hh | hh
  · exact h₁ h hh
  rcases List.mem_append.1 hh with hh | hh
  · exact h₂ h hh
  · obtain ⟨hs, hmem, hin⟩ := List.mem_flatten.1 hh
    exact h₃ hs hmem h hin

end Watch

/-- Argument `i` of a call leaks to the heap, whatever becomes of the results. -/
def Scene.Leaks (s : Scene) (callee : Option FuncId) (i : Nat) : Prop :=
  ∀ f, callee = some f →
    if s.members.contains f then
      s.precise = true → ∀ decl, s.program.function? f = some decl → decl.params[i]? = none
    else ∀ leaks, (s.summary? f).bind (·.params[i]?) = some leaks → leaks = .toHeap

theorem Build.leakHoles_toHeap (ks : Option (List Hole)) :
    leakHoles .toHeap ks = .ok [.ofLoc heapId] := by
  rfl

namespace Watch

open Build

variable (W : Watch) {b : BatchGraph} {k : Hole}

theorem leakHoles_does (leaks : Leaks) {ks : Option (List Hole)}
    (hks : ∀ k ∈ ks.getD [], W.Good b k) :
    W.Does b (fun hs b' => (∀ h ∈ hs, W.Good b' h) ∧ leakHoles leaks ks = .ok hs)
      (liftM (leakHoles leaks ks)) := by
  intro hb
  have hgives := W.leakHoles_gives hb leaks hks
  generalize leakHoles leaks ks = x at hgives ⊢
  cases x with
  | ok hs => exact ⟨.refl, hgives, rfl⟩
  | error e => exact hgives

theorem leadsToHeap_heap : b.LeadsToHeap (.ofLoc heapId) := ⟨rfl, heapId, rfl, .inl rfl⟩

theorem paramHole_does (pl : Place) {ks : Option (List Hole)}
    (hks : ∀ k ∈ ks.getD [], W.Good b k) (callee : Option FuncId) (i : Nat) :
    W.Does b (fun h b' => W.Good b' h ∧ (W.scene.Leaks callee i → h = .ofLoc heapId))
      (paramHole W.scene pl ks callee i) := by
  have hheap : ∀ {c : BatchGraph}, W.Does c (fun h b' => W.Good b' h ∧
      (W.scene.Leaks callee i → h = .ofLoc heapId)) (pure (.ofLoc heapId)) :=
    .pure fun hb => ⟨.sink hb (by decide), fun _ => rfl⟩
  unfold paramHole
  cases callee with
  | none => exact hheap
  | some f =>
    dsimp only
    split
    · next hf =>
      split
      · next hp =>
        refine (W.function_does f).bind fun decl b₁ _ hdecl => ?_
        cases hi : decl.params[i]? with
        | none => exact hheap
        | some v =>
          refine (W.varLoc_does v).bind fun l b₂ _ hl => ?_
          refine .pure fun _ => ⟨hl.2.2, fun hleaks => ?_⟩
          have hnone := hleaks f rfl
          rw [if_pos hf] at hnone
          rw [hnone hp decl hdecl] at hi
          cases hi
      · exact hheap
    · next hf =>
      cases hsum : (W.scene.summary? f).bind (·.params[i]?) with
      | none => exact hheap
      | some leaks =>
        refine (W.leakHoles_does leaks hks).bind fun hs b₁ _ hhs => ?_
        refine (W.tee_does pl hs hhs.1).mono fun h b₂ _ _ htee => ⟨htee.1, fun hleaks => ?_⟩
        have hto := hleaks f rfl
        rw [if_neg hf] at hto
        rw [hto leaks hsum, leakHoles_toHeap] at hhs
        exact htee.2 _ (Except.ok.inj hhs.2).symm

/-! ## Calls -/

theorem wireResult_does (hk : k.Open W.lits b) (r : VarId) :
    W.Does b (fun _ _ => True)
      (do Build.flow W.scene (note W.scene "call result" k) (← varLoc r)) := by
  refine (W.varLoc_does r).bind fun l b₁ h₁ hl => ?_
  exact (W.flow_does ((h₁.openHole hk).note _ _) hl.2.1).mono fun _ _ _ _ _ => trivial

theorem wireResults_does {ks : Option (List Hole)} (hks : ∀ k ∈ ks.getD [], W.Good b k)
    (callee : Option FuncId) :
    W.Does b (fun _ _ => True) (wireResults W.scene ks callee) := by
  unfold wireResults
  split
  · next ks f =>
    split
    · refine (W.function_does f).bind fun decl b₁ h₁ _ => ?_
      refine Does.mono (Q := fun _ _ => ∀ rk ∈ decl.results.zip ks, True) ?_
        fun _ _ _ _ _ => trivial
      refine .forM _ (fun _ _ _ _ _ => trivial) fun rk hrk b₂ h₂ => ?_
      have hk := hks rk.2 (List.of_mem_zip (a := rk.1) (b := rk.2) hrk).2
      exact W.wireResult_does ((h₁.trans h₂).openHole hk.isOpen) rk.1
    · exact .pure fun _ => trivial
  · exact .pure fun _ => trivial

theorem calleeHole_does (pl : Place) (mode : CallMode) (callee : Expr) :
    W.Does b (fun h b' => W.Good b' h) (calleeHole W.scene pl mode callee) := by
  cases mode with
  | spawned => exact .pure fun hb => .sink hb (by decide)
  | deferred => exact (W.later_does pl Good.discard.isOpen).mono fun _ _ _ _ h => h.1
  | plain =>
    refine .pure fun hb => ?_
    split
    · exact .discard
    · exact .sink hb (by decide)

theorem argHole_does (pl : Place) (mode : CallMode) {ks : Option (List Hole)}
    (hks : ∀ k ∈ ks.getD [], W.Good b k) (callee : Option FuncId) (i : Nat) :
    W.Does b (fun h b' => W.Good b' h ∧
        (mode = .spawned ∨ W.scene.Leaks callee i → b'.LeadsToHeap h))
      (argHole W.scene pl mode ks callee i) := by
  cases mode with
  | spawned => exact .pure fun hb => ⟨.sink hb (by decide), fun _ => leadsToHeap_heap⟩
  | plain =>
    refine (W.paramHole_does pl hks callee i).mono fun h b' _ _ hh => ⟨hh.1, fun hleaks => ?_⟩
    rw [hh.2 (hleaks.resolve_left nofun)]
    exact leadsToHeap_heap
  | deferred =>
    refine (W.paramHole_does pl hks callee i).bind fun h b₁ _ hh => ?_
    refine (W.later_does pl hh.1.isOpen).mono fun h' b₂ _ _ hh' => ⟨hh'.1, fun hleaks => ?_⟩
    obtain ⟨-, l, rfl, hfed⟩ := hh'
    rw [hh.2 (hleaks.resolve_left nofun)] at hfed
    exact ⟨rfl, l, rfl, .inr (hfed heapId rfl)⟩

/-! ## Captures -/

end Watch

/-- A variable of the program that is no global. -/
def Scene.IsLocal (s : Scene) (v : VarId) : Prop :=
  ∃ decl, s.program.var? v = some decl ∧ decl.isGlobal = false

namespace Watch

open Build

variable (W : Watch) {b : BatchGraph}

/-- A captured variable flows into the location of its closure, whatever `lits` says of it. -/
theorem capture_does {l : LocId} (hl : b.Holds l) (v : VarId) :
    W.Does b (fun _ b' => W.scene.IsLocal v →
      b'.Gets (some l) v (if W.scene.changes v then -1 else 0)) (capture W.scene (.ofLoc l) v) := by
  unfold capture
  generalize hn : (if W.scene.changes v then (-1 : Int) else 0) = n
  refine (W.isGlobal_does v).bind fun g b₁ h₁ hg => ?_
  obtain ⟨decl, hdecl, hglobal⟩ := hg
  cases g with
  | true =>
    rw [if_neg (by decide)]
    refine .pure fun _ hlocal => ?_
    obtain ⟨decl', hdecl', hnot⟩ := hlocal
    rw [hdecl] at hdecl'
    cases hdecl'
    exact absurd (hglobal.symm.trans hnot) (by decide)
  | false =>
    rw [if_pos (by decide)]
    refine (W.varLoc_does v).bind fun lv b₂ h₂ hlv => ?_
    refine Does.bind (Q := fun _ b' => b'.varLoc? v = some lv ∧ b'.Holds lv)
      (.change (fun _ => .mark lv (fun _ => rfl) (fun _ => rfl) fun _ => rfl)
        fun _ => ⟨hlv.1, hlv.2.1.1, ?_⟩) ?_
    · exact hlv.2.1.2.trans_eq (b₂.graph.update_size lv _).symm
    intro _ b₃ h₃ hlv
    have hl₃ : l < b₃.graph.size := (((h₁.trans h₂).trans h₃).holds hl).2
    have hflow : ∀ k : Hole, k.dst = some l → k.derefs = n →
        W.Does b₃ (fun _ b' => W.scene.IsLocal v → b'.Gets (some l) v n)
          (Build.flow W.scene (note W.scene "captured by a closure" k) lv) := by
      intro k hdst hderefs
      refine .change (fun _ => .capture hlv.1 ?_) fun _ _ => ⟨lv, ?_, ?_⟩
      · rw [note_derefs, hderefs, hn]
      · rw [varLoc?, flow_vars]
        exact hlv.1
      · intro d hd
        cases hd
        rw [← hderefs, ← note_derefs W.scene "captured by a closure" k]
        exact Covers.flow_fed _ (by rw [note_dst, hdst]) hlv.2.2 hl₃
    show W.Does b₃ _ (if W.scene.changes v then _ else _)
    by_cases hchanges : W.scene.changes v = true
    · rw [if_pos hchanges] at hn ⊢
      refine Does.bind (Q := fun k b' => b' = b₃ ∧ k.dst = some l ∧ k.derefs = -1)
        (.lift (show _ ∧ _ from ⟨rfl, rfl, rfl⟩)) ?_
      rintro k _ - ⟨rfl, hdst, hderefs⟩
      exact hflow k hdst (hderefs.trans hn)
    · rw [if_neg hchanges] at hn ⊢
      exact hflow _ rfl hn

end Watch

end EscapeFlow
