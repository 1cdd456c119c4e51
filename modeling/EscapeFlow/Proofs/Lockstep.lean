import EscapeFlow.Proofs.Coupling

/-!
# Elementary steps of two builds

`Lockstep c s s'` lists what a coupling `c` of builds against the scenes `s` and `s'` has to
respect: a flow, a new location, and a change of a location.  From these laws come those for the
holes of calls, with summaries that are the same in both builds and calls inside the batch that
may be precise in the first build only:

    Lockstep c s s' → … → c.Steps m 0 … (paramHole s pl ks callee i)
      (paramHole s' pl ks' callee i)                                        (paramHole_steps)
    Lockstep c s s' → … → c.Steps m 0 … (wireResults s ks callee)
      (wireResults s' ks' callee)                                         (wireResults_steps)
-/

namespace EscapeFlow

/-! ## Elementary steps -/

/-- What never changes about a location, apart from how many loops are around it. -/
structure Role where
  owner : Owner
  func : Option FuncId
  isParam : Bool
  result : Option Nat
  isGlobal : Bool

def Location.role (x : Location) : Role := ⟨x.owner, x.func, x.isParam, x.result, x.isGlobal⟩

namespace BatchGraph

def pushTemp (b : BatchGraph) (pl : Place) (persists : Bool) : BatchGraph :=
  { b with graph := b.graph.push (.temp (some pl.func) pl.depth persists) }

def pushSite (b : BatchGraph) (pl : Place) (i : SiteId) : BatchGraph :=
  { b with
    graph := b.graph.push
      { owner := .site (.alloc i), func := some pl.func, loopDepth := pl.depth }
    sites := (i, b.graph.size) :: b.sites }

def pushVar (b : BatchGraph) (v : VarId) (x : Location) : BatchGraph :=
  { b with graph := b.graph.push x, vars := (v, b.graph.size) :: b.vars }

def pushGlobal (b : BatchGraph) (v : VarId) : BatchGraph :=
  b.pushVar v { owner := .site (.var v), isGlobal := true, attrs := .all }

/-- What survives changes of single locations that keep their role, place and leaks, and new
paths, survives a flow. -/
theorem flow_induct {P : BatchGraph → Prop}
    (hupdate : ∀ b l f, (∀ x : Location, (f x).role = x.role ∧ (f x).loopDepth = x.loopDepth ∧
      (f x).leaks = x.leaks) → P b → P (b.update l f))
    (hexplain : ∀ (b : BatchGraph) l hops, P b → P { b with graph := b.graph.explain l hops })
    (notes : Bool) (k : Hole) (src : LocId) {b : BatchGraph} (hb : P b) :
    P (b.flow notes k src) := by
  unfold flow
  dsimp only
  have hmark : P (if k.addrTaken then b.update src fun l => { l with addrTaken := true }
      else b) := by
    split
    · exact hupdate _ _ _ (fun _ => ⟨rfl, rfl, rfl⟩) hb
    · exact hb
  generalize (if k.addrTaken then b.update src fun l => { l with addrTaken := true } else b) = b₁
    at hmark ⊢
  cases k.dst with
  | none => exact hmark
  | some dst =>
    dsimp only
    split
    · exact hmark
    · split
      · refine hupdate _ _ _ (fun _ => ⟨rfl, rfl, rfl⟩) ?_
        split
        · exact hexplain _ _ _ hmark
        · exact hmark
      · exact hupdate _ _ _ (fun _ => ⟨rfl, rfl, rfl⟩) hmark

theorem flow_size (notes : Bool) (k : Hole) (src : LocId) (b : BatchGraph) :
    (b.flow notes k src).graph.size = b.graph.size :=
  flow_induct (P := fun b' => b'.graph.size = b.graph.size)
    (fun b' _ _ _ h => (b'.graph.update_size _ _).trans h)
    (fun b' _ _ h => (b'.graph.explain_size _ _).trans h) notes k src rfl

theorem flow_sites (notes : Bool) (k : Hole) (src : LocId) (b : BatchGraph) :
    (b.flow notes k src).sites = b.sites :=
  flow_induct (P := fun b' => b'.sites = b.sites) (fun _ _ _ _ h => h) (fun _ _ _ h => h)
    notes k src rfl

end BatchGraph

open BatchGraph

/-- The program `p'` has the entries of `p` in the same places, and under `loose` perhaps more. -/
structure Program.Offers (loose : Prop) (p p' : Program) : Prop where
  function? : ∀ f, p'.function? f = p.function? f ∨ loose ∧ p.function? f = none
  var? : ∀ v, p'.var? v = p.var? v ∨ loose ∧ p.var? v = none
  site? : ∀ i, p'.site? i = p.site? i ∨ loose ∧ p.site? i = none

theorem Program.Offers.refl {loose : Prop} (p : Program) : p.Offers loose p :=
  ⟨fun _ => .inl rfl, fun _ => .inl rfl, fun _ => .inl rfl⟩

theorem Program.Offers.varName {loose : Prop} {p p' : Program} (h : p.Offers loose p')
    (v : VarId) : p'.varName v = p.varName v ∨ loose := by
  unfold Program.varName
  exact (h.var? v).imp (fun heq => by rw [heq]) And.left

/-- What a coupling of builds against the scenes `s` and `s'` has to respect.  The first build
may be the only one with precise calls inside the batch. -/
structure Lockstep (c : Coupling) (s s' : Scene) : Prop where
  program : s.program.Offers c.loose s'.program
  members : s'.members = s.members
  reassigned : s'.reassigned = s.reassigned
  addrTaken : s'.addrTaken = s.addrTaken
  summary? : ∀ f, c.Callee f → s.members.contains f = false → s'.summary? f = s.summary? f
  vars : ∀ {τ b b'}, c.State τ b b' → b'.vars = b.vars
  sites : ∀ {τ b b'}, c.State τ b b' → b'.sites = b.sites
  size : ∀ {τ b b'}, c.State τ b b' → b'.graph.size = b.graph.size
  three_le : ∀ {τ b b'}, c.State τ b b' → 3 ≤ b.graph.size
  placed : ∀ {τ b b' v l}, c.State τ b b' → b.varLoc? v = some l → 3 ≤ l ∧ l < b.graph.size
  discard : c.Holes .discard .discard
  ofLoc : ∀ l, c.Holes (.ofLoc l) (.ofLoc l)
  note : ∀ {k k'} why, c.Holes k k' → c.Holes (Build.note s why k) (Build.note s' why k')
  derefs : ∀ {k k'}, c.Holes k k' → k'.derefs = k.derefs
  shift : ∀ {k k'} d t, c.Holes k k' →
    c.Holes { k with derefs := d, addrTaken := t } { k' with derefs := d, addrTaken := t }
  flow : ∀ {τ b b' k k' src}, c.State τ b b' → c.Holes k k' → 3 ≤ src → src < b.graph.size →
    c.State τ (b.flow s.notes k src) (b'.flow s'.notes k' src)
  temp : ∀ {τ b b'} (pl : c.Spot) persists, c.State τ b b' →
    c.State τ (b.pushTemp pl persists) (b'.pushTemp pl persists)
  site : ∀ {τ b b' i} (pl : c.Spot), c.State τ b b' → b.siteLoc? i = none →
    c.State (τ + {i}) (b.pushSite pl i) (b'.pushSite pl i)
  global : ∀ {τ b b' v decl}, c.State τ b b' → b.varLoc? v = none →
    s.program.var? v = some decl → decl.isGlobal = true →
    c.State τ (b.pushGlobal v) (b'.pushGlobal v)
  captured : ∀ {τ b b'} l, c.State τ b b' →
    c.State τ (b.update l fun x => { x with captured := true })
      (b'.update l fun x => { x with captured := true })
  depth : ∀ {τ b b'} l d, c.State τ b b' →
    c.State τ (b.update l fun x => { x with loopDepth := d })
      (b'.update l fun x => { x with loopDepth := d })
  precise : s'.precise = true → s.precise = true
  loosened : s.precise = true → s'.precise = false → c.loose
  /-- An argument goes to the parameter in the first build and to the heap in the second. -/
  argument : s.precise = true → s'.precise = false → ∀ l, c.Holes (.ofLoc l) (.ofLoc heapId)
  /-- A result goes on in the first build and not in the second. -/
  result : s.precise = true → s'.precise = false → ∀ {τ b b' f decl r l} k, c.State τ b b' →
    s.members.contains f = true → s.program.function? f = some decl → r ∈ decl.results →
    b.varLoc? r = some l → c.State τ (b.flow s.notes k l) b'

namespace Build

theorem run_varLoc (v : VarId) (b : BatchGraph) :
    (varLoc v).run b = match b.varLoc? v with
      | some l => .ok (l, b)
      | none => .error (.unknownVariable v) := by
  show (match b.varLoc? v with
    | some l => pure l
    | none => throw (.unknownVariable v) : Build LocId) b = _
  cases b.varLoc? v <;> rfl

theorem run_globalLoc (v : VarId) (b : BatchGraph) :
    (globalLoc v).run b = match b.varLoc? v with
      | some l => .ok (l, b)
      | none => .ok (b.graph.size, b.pushGlobal v) := by
  unfold globalLoc
  show (match b.varLoc? v with
    | some l => pure l
    | none => do
      let l ← newLoc { owner := .site (.var v), isGlobal := true, attrs := .all }
      modify fun b => { b with vars := (v, l) :: b.vars }
      pure l : Build LocId) b = _
  cases b.varLoc? v <;> rfl

theorem run_siteLoc (s : Scene) (pl : Place) (i : SiteId) (b : BatchGraph) :
    (siteLoc s pl i).run b =
      if (s.program.site? i).isNone then .error (.invalidSite i)
      else if (b.siteLoc? i).isSome then .error (.duplicateLocation (Site.alloc i).text)
      else .ok (b.graph.size, b.pushSite pl i) := by
  unfold siteLoc
  by_cases h : (s.program.site? i).isNone = true
  · rw [if_pos h, if_pos h]
    rfl
  · rw [if_neg h, if_neg h]
    show ((if (b.siteLoc? i).isSome then _ else _ : Build LocId)).run b = _
    by_cases h' : (b.siteLoc? i).isSome = true
    · rw [if_pos h', if_pos h']
      rfl
    · rw [if_neg h', if_neg h']
      rfl

/-! ## Holes of a summary -/

section Leaks

variable {loose : Prop} {H : Hole → Hole → Prop}
  (hshift : ∀ {k k'} (d : Int), H k k' → Outcome loose H (k.shift d) (k'.shift d))

include hshift

/-- The holes for the results of a call, if they are taken. -/
theorem resultHole_outcome {ks ks' : Option (List Hole)}
    (hks : Option.Rel (List.Forall₂ H) ks ks') (r : Option Nat) (i : Nat) :
    Outcome loose (List.Forall₂ H)
      (match r, (ks.getD [])[i]? with
        | some d, some k => do return [← k.shift d]
        | _, _ => pure [])
      (match r, (ks'.getD [])[i]? with
        | some d, some k => do return [← k.shift d]
        | _, _ => pure []) := by
  have hrel : Option.Rel H (ks.getD [])[i]? (ks'.getD [])[i]? := by
    cases hks with
    | none => exact .none
    | some h =>
      show Option.Rel H (_ : List Hole)[i]? (_ : List Hole)[i]?
      induction h generalizing i with
      | nil => exact .none
      | cons hk _ ih =>
        cases i with
        | zero => exact .some hk
        | succ i => exact ih i
  generalize (ks.getD [])[i]? = k at hrel ⊢
  generalize (ks'.getD [])[i]? = k' at hrel ⊢
  cases hrel with
  | none => cases r <;> exact .ok .nil
  | some hk =>
    cases r with
    | none => exact .ok .nil
    | some d => exact (hshift d hk).bind fun _ _ h => .ok (.cons h .nil)

theorem sinkHole_outcome {l : LocId} (hl : H (.ofLoc l) (.ofLoc l)) (r : Option Nat) :
    Outcome loose (List.Forall₂ H)
      (match r with
        | none => pure []
        | some d => do return [← (Hole.ofLoc l).shift d])
      (match r with
        | none => pure []
        | some d => do return [← (Hole.ofLoc l).shift d]) := by
  cases r with
  | none => exact .ok .nil
  | some d => exact (hshift d hl).bind fun _ _ h => .ok (.cons h .nil)

/-- Holes for the results of a call that are alike give holes for its arguments that are alike. -/
theorem leakHoles_outcome (hsink : ∀ l, l < 3 → H (.ofLoc l) (.ofLoc l)) (leaks : Leaks)
    {ks ks' : Option (List Hole)} (hks : Option.Rel (List.Forall₂ H) ks ks') :
    Outcome loose (List.Forall₂ H) (leakHoles leaks ks) (leakHoles leaks ks') := by
  unfold leakHoles
  refine (sinkHole_outcome hshift (hsink heapId (by decide)) (leaks.get? .heap)).bind
    fun _ _ h₀ => ?_
  refine (sinkHole_outcome hshift (hsink mutatorId (by decide)) (leaks.get? .mutator)).bind
    fun _ _ h₁ => ?_
  refine (sinkHole_outcome hshift (hsink calleeId (by decide)) (leaks.get? .callee)).bind
    fun _ _ h₂ => ?_
  refine (Outcome.mapM _ fun i _ => resultHole_outcome hshift hks _ i).bind fun hss hss' h₃ => ?_
  refine .ok (List.rel_append h₀ (List.rel_append h₁ (List.rel_append h₂ ?_)))
  exact List.rel_flatten h₃

end Leaks

/-- The second build does not look the function up. -/
theorem function_left {c : Coupling} (hl : c.loose) (s : Scene) (f : FuncId) {m : Nat} :
    c.Steps m 0 (fun d (_ : Unit) _ => s.program.function? f = some d) (function s f)
      (pure ()) := by
  unfold function
  cases hf : s.program.function? f with
  | none => exact fun τ b b' _ _ => .of_error_left hl _ _
  | some d => exact .pure fun _ _ => rfl

/-- The second build does not look the variable up. -/
theorem varLoc_left {c : Coupling} (hl : c.loose) (v : VarId) {m : Nat} :
    c.Steps m 0 (fun _ (_ : Unit) _ => True) (varLoc v) (pure ()) := by
  intro τ b b' hs hm
  rw [run_varLoc]
  cases b.varLoc? v with
  | none => exact .of_error_left hl _ _
  | some l => exact .ok ⟨by rwa [add_zero], hm, trivial⟩

theorem update_steps {c : Coupling} {f : Location → Location} {m : Nat} (l : LocId)
    (hf : ∀ {τ b b'}, c.State τ b b' → c.State τ (b.update l f) (b'.update l f)) :
    c.Steps m 0 (fun _ _ _ => True) (modify (·.update l f)) (modify (·.update l f)) := by
  intro τ b b' hs hm
  refine Outcome.ok (a := ((), b.update l f)) (b := ((), b'.update l f)) ⟨?_, ?_, trivial⟩
  · rw [add_zero]
    exact hf hs
  · show m ≤ (b.graph.update l f).size
    rw [b.graph.update_size]
    exact hm

end Build

/-- The same location in both builds, not a sink, and there once the graphs have `m` locations. -/
def SameLoc (l l' : LocId) (m : Nat) : Prop := l' = l ∧ 3 ≤ l ∧ l < m

namespace Lockstep

open Build Coupling

variable {c : Coupling} {s s' : Scene} (L : Lockstep c s s') {m : Nat}

include L

theorem varLoc?_eq {τ : Multiset SiteId} {b b' : BatchGraph} (hs : c.State τ b b') (v : VarId) :
    b'.varLoc? v = b.varLoc? v := by
  rw [varLoc?, varLoc?, L.vars hs]

theorem varLoc_steps (v : VarId) : c.Steps m 0 SameLoc (varLoc v) (varLoc v) := by
  intro τ b b' hs hm
  rw [run_varLoc, run_varLoc, L.varLoc?_eq hs]
  cases hv : b.varLoc? v with
  | none => exact .error nofun
  | some l => exact .ok ⟨by rwa [add_zero], hm, rfl, L.placed hs hv⟩

theorem function_steps (f : FuncId) :
    c.Steps m 0 (fun d d' _ => d' = d ∧ s.program.function? f = some d)
      (function s f) (function s' f) := by
  unfold function
  rcases L.program.function? f with heq | ⟨hl, hnone⟩
  · rw [heq]
    cases hf : s.program.function? f with
    | none => exact .throw nofun
    | some d => exact .pure fun _ _ => ⟨rfl, rfl⟩
  · rw [hnone]
    exact fun _ _ _ _ _ => .of_error_left hl _ _

theorem isGlobal_steps (v : VarId) :
    c.Steps m 0 (fun g g' _ => g' = g ∧ ∃ decl, s.program.var? v = some decl ∧ decl.isGlobal = g)
      (isGlobal s v) (isGlobal s' v) := by
  unfold isGlobal
  rcases L.program.var? v with heq | ⟨hl, hnone⟩
  · rw [heq]
    cases hv : s.program.var? v with
    | none => exact .throw nofun
    | some decl => exact .pure fun _ _ => ⟨rfl, decl, rfl, rfl⟩
  · rw [hnone]
    exact fun _ _ _ _ _ => .of_error_left hl _ _

theorem newTemp_steps (pl : c.Spot) (persists : Bool) :
    c.Steps m 0 SameLoc (newTemp pl persists) (newTemp pl persists) := by
  intro τ b b' hs hm
  have hsize : (b.pushTemp pl persists).graph.size = b.graph.size + 1 := b.graph.push_size _
  refine Outcome.ok (a := (b.graph.size, b.pushTemp pl persists))
    (b := (b'.graph.size, b'.pushTemp pl persists)) ⟨?_, ?_, L.size hs, L.three_le hs, ?_⟩
  · rw [add_zero]
    exact L.temp pl persists hs
  · show m ≤ (b.pushTemp pl persists).graph.size
    omega
  · show b.graph.size < (b.pushTemp pl persists).graph.size
    omega

theorem siteLoc_steps (pl : c.Spot) (i : SiteId) :
    c.Steps m {i} SameLoc (siteLoc s pl i) (siteLoc s' pl i) := by
  intro τ b b' hs hm
  have hsize : (b.pushSite pl i).graph.size = b.graph.size + 1 := b.graph.push_size _
  rw [run_siteLoc, run_siteLoc, siteLoc?, siteLoc?, L.sites hs]
  rcases L.program.site? i with heq | ⟨hl, hnone⟩
  swap
  · rw [hnone]
    exact .of_error_left hl _ _
  rw [heq]
  split
  · exact .error nofun
  · split
    · exact .error nofun
    · next hnew =>
      have hnone : b.siteLoc? i = none := Option.not_isSome_iff_eq_none.1 hnew
      refine .ok ⟨L.site pl hs hnone, ?_, L.size hs, L.three_le hs, ?_⟩
      · show m ≤ (b.pushSite pl i).graph.size
        omega
      · show b.graph.size < (b.pushSite pl i).graph.size
        omega

theorem globalLoc_steps {v : VarId} {decl : Variable} (hv : s.program.var? v = some decl)
    (hg : decl.isGlobal = true) :
    c.Steps m 0 (fun l l' _ => l' = l) (globalLoc v) (globalLoc v) := by
  intro τ b b' hs hm
  have hsize : (b.pushGlobal v).graph.size = b.graph.size + 1 := b.graph.push_size _
  rw [run_globalLoc, run_globalLoc, L.varLoc?_eq hs]
  cases hloc : b.varLoc? v with
  | none =>
    refine .ok ⟨?_, ?_, L.size hs⟩
    · rw [add_zero]
      exact L.global hs hloc hv hg
    · show m ≤ (b.pushGlobal v).graph.size
      omega
  | some l => exact .ok ⟨by rwa [add_zero], hm, rfl⟩

theorem flow_steps {k k' : Hole} {l l' : LocId} (hk : c.Holes k k') (hl : SameLoc l l' m) :
    c.Steps m 0 (fun _ _ _ => True) (Build.flow s k l) (Build.flow s' k' l') := by
  obtain ⟨rfl, h3, hlt⟩ := hl
  intro τ b b' hs hm
  refine Outcome.ok (a := ((), b.flow s.notes k l')) (b := ((), b'.flow s'.notes k' l'))
    ⟨?_, ?_, trivial⟩
  · rw [add_zero]
    exact L.flow hs hk h3 (hlt.trans_le hm)
  · show m ≤ (b.flow s.notes k l').graph.size
    rw [flow_size]
    exact hm

theorem shift_outcome {k k' : Hole} (hk : c.Holes k k') (d : Int) :
    Outcome c.loose c.Holes (k.shift d) (k'.shift d) := by
  unfold Hole.shift
  rw [L.derefs hk]
  split
  · exact .error nofun
  · exact .ok (L.shift _ _ hk)

theorem shift_steps {k k' : Hole} (hk : c.Holes k k') (d : Int) :
    c.Steps m 0 (fun h h' _ => c.Holes h h') (liftM (k.shift d)) (liftM (k'.shift d)) :=
  .lift ((L.shift_outcome hk d).mono fun _ _ h _ => h)

/-! ## Holes -/

theorem spill_steps (pl : c.Spot) {k k' : Hole} (hk : c.Holes k k') (i : SiteId) :
    c.Steps m {i} (fun h h' _ => c.Holes h h') (spill s pl k i) (spill s' pl k' i) := by
  unfold spill
  refine (L.siteLoc_steps pl i).bind (add_zero _) fun l l' m₁ _ hl => ?_
  refine (L.shift_steps hk (-1)).bind (zero_add _) fun h h' m₂ hm hh => ?_
  refine (L.flow_steps (L.note _ hh) ⟨hl.1, hl.2.1, hl.2.2.trans_le hm⟩).seq
    (zero_add _) fun _ _ => ?_
  rw [hl.1]
  exact .pure fun _ _ => L.ofLoc l

theorem aggregate_steps (pl : c.Spot) {k k' : Hole} (hk : c.Holes k k') (i : SiteId) :
    c.Steps m {i} (fun h h' _ => c.Holes h h') (aggregate s pl k i) (aggregate s' pl k' i) := by
  unfold aggregate
  refine (L.siteLoc_steps pl i).bind (add_zero _) fun l l' m₁ _ hl => ?_
  refine (L.flow_steps hk hl).seq (zero_add _) fun _ _ => ?_
  rw [hl.1]
  exact .pure fun _ _ => L.ofLoc l

theorem compositeHole_steps (pl : c.Spot) {k k' : Hole} (hk : c.Holes k k') (i : SiteId)
    (kind : CompositeKind) :
    c.Steps m {i} (fun h h' _ => c.Holes h h') (compositeHole s pl k i kind)
      (compositeHole s' pl k' i kind) := by
  cases kind with
  | slice => exact L.spill_steps pl hk i
  | array | struct => exact L.aggregate_steps pl hk i

theorem later_steps (pl : c.Spot) {k k' : Hole} (hk : c.Holes k k') :
    c.Steps m 0 (fun h h' _ => c.Holes h h') (later s pl k) (later s' pl k') := by
  unfold later
  refine (L.newTemp_steps pl true).bind (zero_add _) fun l l' m₁ _ hl => ?_
  refine (L.flow_steps hk hl).seq (zero_add _) fun _ _ => ?_
  rw [hl.1]
  exact .pure fun _ _ => L.ofLoc l

/-- What a tee does with one of its holes. -/
theorem teeHole_steps {k k' : Hole} {l l' : LocId} (hk : c.Holes k k') (hl : SameLoc l l' m) :
    c.Steps m 0 (fun _ _ _ => True)
      (do if k.derefs < 0 then throw (.internal .teeOfAddress)
          Build.flow s k l)
      (do if k'.derefs < 0 then throw (.internal .teeOfAddress)
          Build.flow s' k' l') := by
  rw [L.derefs hk]
  split
  · exact .throw nofun
  · exact L.flow_steps hk hl

theorem teeHoles_steps {l l' : LocId} {ks ks' : List Hole} (hks : List.Forall₂ c.Holes ks ks')
    (hl : SameLoc l l' m) :
    c.Steps m 0 (fun _ _ _ => True)
      (ks.forM fun k => do
        if k.derefs < 0 then throw (.internal .teeOfAddress)
        Build.flow s k l)
      (ks'.forM fun k => do
        if k.derefs < 0 then throw (.internal .teeOfAddress)
        Build.flow s' k l') := by
  induction hks generalizing m with
  | nil => exact .pure fun _ _ => trivial
  | cons hk _ ih =>
    refine (L.teeHole_steps hk hl).seq (zero_add _) fun m' hm => ?_
    exact ih ⟨hl.1, hl.2.1, hl.2.2.trans_le hm⟩

theorem tee_steps (pl : c.Spot) {ks ks' : List Hole} (hks : List.Forall₂ c.Holes ks ks') :
    c.Steps m 0 (fun h h' _ => c.Holes h h') (tee s pl ks) (tee s' pl ks') := by
  cases hks with
  | nil => exact .pure fun _ _ => L.discard
  | cons hk hrest =>
    cases hrest with
    | nil => exact .pure fun _ _ => hk
    | cons hk₂ hrest =>
      refine (L.newTemp_steps pl false).bind (zero_add _) fun l l' m₁ _ hl => ?_
      refine (L.teeHoles_steps (.cons hk (.cons hk₂ hrest)) hl).seq (zero_add _)
        fun _ _ => ?_
      rw [hl.1]
      exact .pure fun _ _ => L.ofLoc l

/-- Arguments of calls inside the batch go to the parameter or to the heap, others where the
summary says, which is the same in both builds. -/
theorem paramHole_steps (pl : c.Spot) {ks ks' : Option (List Hole)}
    (hks : Option.Rel (List.Forall₂ c.Holes) ks ks') {callee : Option FuncId}
    (hcallee : ∀ f, callee = some f → c.Callee f) (i : Nat) :
    c.Steps m 0 (fun h h' _ => c.Holes h h') (paramHole s pl ks callee i)
      (paramHole s' pl ks' callee i) := by
  unfold paramHole
  cases callee with
  | none => exact .pure fun _ _ => L.ofLoc _
  | some f =>
    dsimp only
    rw [L.members]
    by_cases hf : s.members.contains f = true
    · rw [if_pos hf, if_pos hf]
      by_cases hp : s.precise = true
      · rw [if_pos hp]
        by_cases hp' : s'.precise = true
        · rw [if_pos hp']
          refine (L.function_steps f).bind (zero_add _) fun d d' _ _ hd => ?_
          obtain ⟨rfl, -⟩ := hd
          cases d'.params[i]? with
          | none => exact .pure fun _ _ => L.ofLoc _
          | some v =>
            refine (L.varLoc_steps v).bind (zero_add _) fun l l' _ _ hl => ?_
            rw [hl.1]
            exact .pure fun _ _ => L.ofLoc l
        · rw [if_neg hp']
          have hoff : s'.precise = false := Bool.eq_false_iff.2 hp'
          show c.Steps m 0 _ _ (pure () >>= fun _ => pure (Hole.ofLoc heapId))
          refine (function_left (L.loosened hp hoff) s f).bind (zero_add _)
            fun d _ _ _ _ => ?_
          cases d.params[i]? with
          | none => exact .pure fun _ _ => L.ofLoc _
          | some v =>
            show c.Steps _ 0 _ _ (pure () >>= fun _ => pure (Hole.ofLoc heapId))
            refine (varLoc_left (L.loosened hp hoff) v).bind (zero_add _)
              fun l _ _ _ _ => ?_
            exact .pure fun _ _ => L.argument hp hoff l
      · rw [if_neg hp, if_neg fun h => hp (L.precise h)]
        exact .pure fun _ _ => L.ofLoc _
    · have hf' : s.members.contains f = false := Bool.eq_false_iff.2 hf
      rw [if_neg hf, if_neg hf, L.summary? f (hcallee f rfl) hf']
      cases (s.summary? f).bind (·.params[i]?) with
      | none => exact .pure fun _ _ => L.ofLoc _
      | some leaks =>
        have hout := leakHoles_outcome (fun d h => L.shift_outcome h d) (fun l _ => L.ofLoc l) leaks
          hks
        refine (Steps.lift (Q := fun h h' _ => List.Forall₂ c.Holes h h')
          (hout.mono fun _ _ h _ => h)).bind (zero_add _) fun _ _ _ _ h => ?_
        exact L.tee_steps pl h

/-! ## Calls -/

/-- A result that goes on in the first build only. -/
theorem wireResult_left (hp : s.precise = true) (hoff : s'.precise = false) {f : FuncId}
    (hf : s.members.contains f = true) {decl : Function} (hd : s.program.function? f = some decl)
    {r : VarId} (hr : r ∈ decl.results) (k : Hole) :
    c.Steps m 0 (fun _ (_ : Unit) _ => True) (varLoc r >>= fun l => Build.flow s k l)
      (pure ()) := by
  intro τ b b' hs hm
  rw [StateT.run_bind, run_varLoc]
  cases hloc : b.varLoc? r with
  | none => exact .of_error_left (L.loosened hp hoff) _ _
  | some l =>
    refine Outcome.ok (a := ((), b.flow s.notes k l)) (b := ((), b')) ⟨?_, ?_, trivial⟩
    · rw [add_zero]
      exact L.result hp hoff k hs hf hd hr hloc
    · show m ≤ (b.flow s.notes k l).graph.size
      rw [flow_size]
      exact hm

theorem wireResults_left (hp : s.precise = true) (hoff : s'.precise = false) {f : FuncId}
    (hf : s.members.contains f = true) {decl : Function} (hd : s.program.function? f = some decl)
    (rks : List (VarId × Hole)) (hr : ∀ rk ∈ rks, rk.1 ∈ decl.results) :
    c.Steps m 0 (fun _ (_ : Unit) _ => True)
      (rks.forM fun rk => do
        Build.flow s (Build.note s "call result" rk.2) (← varLoc rk.1)) (pure ()) := by
  induction rks generalizing m with
  | nil => exact .pure fun _ _ => trivial
  | cons rk rks ih =>
    show c.Steps m 0 _ _ (pure () >>= fun _ => pure ())
    refine (L.wireResult_left hp hoff hf hd (hr rk List.mem_cons_self) _).seq
      (zero_add _) fun _ _ => ?_
    exact ih fun rk hrk => hr rk (List.mem_cons_of_mem _ hrk)

theorem wireResults_both (rs : List VarId) {ks ks' : List Hole}
    (hks : List.Forall₂ c.Holes ks ks') :
    c.Steps m 0 (fun _ _ _ => True)
      ((rs.zip ks).forM fun rk => do
        Build.flow s (Build.note s "call result" rk.2) (← varLoc rk.1))
      ((rs.zip ks').forM fun rk => do
        Build.flow s' (Build.note s' "call result" rk.2) (← varLoc rk.1)) := by
  induction hks generalizing rs m with
  | nil =>
    rw [List.zip_nil_right]
    exact .pure fun _ _ => trivial
  | cons hk _ ih =>
    cases rs with
    | nil => exact .pure fun _ _ => trivial
    | cons r rs =>
      refine Steps.seq (zero_add _) ((L.varLoc_steps r).bind (zero_add _)
        fun l l' _ _ hl => L.flow_steps (L.note _ hk) hl) fun m' _ => ?_
      exact ih rs

theorem wireResults_steps {ks ks' : Option (List Hole)}
    (hks : Option.Rel (List.Forall₂ c.Holes) ks ks') (callee : Option FuncId) :
    c.Steps m 0 (fun _ _ _ => True) (wireResults s ks callee) (wireResults s' ks' callee) := by
  cases hks with
  | none => exact .pure fun _ _ => trivial
  | @some ks ks' hks =>
    cases callee with
    | none => exact .pure fun _ _ => trivial
    | some f =>
      unfold wireResults
      dsimp only
      rw [L.members]
      by_cases hf : s.members.contains f = true
      · by_cases hp : s.precise = true
        · rw [if_pos (by rw [hp, hf]; rfl)]
          by_cases hp' : s'.precise = true
          · rw [if_pos (by rw [hp', hf]; rfl)]
            refine (L.function_steps f).bind (zero_add _) fun d d' _ _ hd => ?_
            rw [hd.1]
            exact L.wireResults_both d.results hks
          · have hoff : s'.precise = false := Bool.eq_false_iff.2 hp'
            rw [if_neg (by rw [hoff]; exact Bool.false_ne_true)]
            show c.Steps m 0 _ _ (pure () >>= fun _ => pure ())
            refine (function_left (L.loosened hp hoff) s f).bind (zero_add _)
              fun d _ _ _ hd => ?_
            exact L.wireResults_left hp hoff hf hd _ fun rk hrk => (List.of_mem_zip hrk).1
        · rw [if_neg (by simp [hp]), if_neg (by simp [mt L.precise hp])]
          exact .pure fun _ _ => trivial
      · rw [if_neg (by simp only [hf, Bool.and_false]; exact Bool.false_ne_true),
          if_neg (by simp only [hf, Bool.and_false]; exact Bool.false_ne_true)]
        exact .pure fun _ _ => trivial

theorem calleeHole_steps (pl : c.Spot) (mode : CallMode) (callee : Expr) :
    c.Steps m 0 (fun h h' _ => c.Holes h h') (calleeHole s pl mode callee)
      (calleeHole s' pl mode callee) := by
  cases mode with
  | spawned => exact .pure fun _ _ => L.ofLoc _
  | deferred => exact L.later_steps pl L.discard
  | plain =>
    refine .pure fun _ _ => ?_
    split
    · exact L.discard
    · exact L.ofLoc _

theorem argHole_steps (pl : c.Spot) (mode : CallMode) {ks ks' : Option (List Hole)}
    (hks : Option.Rel (List.Forall₂ c.Holes) ks ks') {callee : Option FuncId}
    (hcallee : ∀ f, callee = some f → c.Callee f) (i : Nat) :
    c.Steps m 0 (fun h h' _ => c.Holes h h') (argHole s pl mode ks callee i)
      (argHole s' pl mode ks' callee i) := by
  cases mode with
  | spawned => exact .pure fun _ _ => L.ofLoc _
  | deferred =>
    exact (L.paramHole_steps pl hks hcallee i).bind (zero_add _) fun _ _ _ _ hk =>
      L.later_steps pl hk
  | plain => exact L.paramHole_steps pl hks hcallee i

end Lockstep

end EscapeFlow
