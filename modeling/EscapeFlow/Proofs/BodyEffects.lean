import EscapeFlow.Proofs.BuildEffects

/-!
# What building makes of bodies

By induction over expressions and statements, with the laws of `BuildEffects` for their parts:
every expression of a body is seen to,

    W.Does b (fun _ b' => W.scene.Sees b' e.nodes ∧ …) (value W.scene pl k e)       (value_does)
    W.Does b (fun _ b' => W.scene.Sees b' (bodyExprs f.stmts) ∧ …) (body W.scene f)  (body_does)

where a call is seen to once the addresses that it leaks flow to the heap, and a closure literal
once it has got what it captures.  Of a call that runs on its own all addresses do, whatever the
callee is (`Scene.Loses`).  So building a batch takes the sinks through `Changes` to a graph in
which all bodies are seen to (`build_gives`).

An address that is to be taken of a value which is made on the spot, such as the result of a call,
has no hole that it could go into; a body in which this happens is not admitted where failures are
looked at (`Watch.Admits`).
-/

namespace EscapeFlow

open BatchGraph

/-! ## Admitted expressions -/

/-- What an expression selects from, by fields and by elements of arrays. -/
def Expr.root : Expr → Expr
  | .field base _ => base.root
  | .index .array base _ => base.root
  | e => e

/-- The value is an address, a header or a result, made when the expression is evaluated. -/
def Expr.isFresh : Expr → Bool
  | .addrOf _ | .call _ _ | .new _ | .closure _ _ | .mapLit _ _ | .composite .slice _ _ => true
  | _ => false

/-- Only closure literals make allocations of `lits`; and if `W` is strict, no address is taken of
a part of a value that is made on the spot. -/
structure Watch.Admits (W : Watch) (e : Expr) : Prop where
  closure : ∀ i, e.allocSite? = some i → W.lits i → ∃ f, e = .closure i f
  address : W.strict → ∀ x, e = .addrOf x → Build.needsCell x = true ∨ x.root.isFresh = false

/-- An open hole that `e` can be evaluated into: if it takes an address, then not of a value that
is made on the spot. -/
structure Watch.Takes (W : Watch) (b : BatchGraph) (k : Hole) (e : Expr) : Prop where
  isOpen : k.Open W.lits b
  fits : W.strict → 0 ≤ k.derefs ∨ e.root.isFresh = false

namespace Watch

variable {W : Watch} {b b' : BatchGraph} {k : Hole} {e : Expr}

theorem Good.takes (h : W.Good b k) (e : Expr) : W.Takes b k e :=
  ⟨h.isOpen, fun hs => .inl (h.nonneg hs)⟩

theorem Takes.note (h : W.Takes b k e) (s : Scene) (why : String) :
    W.Takes b (Build.note s why k) e := by
  refine ⟨h.isOpen.note s why, ?_⟩
  rw [Build.note_derefs]
  exact h.fits

/-- What is made on the spot goes into a hole that takes no address. -/
theorem Takes.good (h : W.Takes b k e) (he : e.root.isFresh = true) : W.Good b k := by
  refine ⟨h.isOpen, fun hs => (h.fits hs).resolve_right ?_⟩
  rw [he]
  decide

end Watch

/-! ## Calls that run on their own -/

mutual

/-- What a statement lets run on its own, with so many loops around it: whatever follows `go`, and
what follows `defer` in a loop, which would have to wait for the end of the function. -/
def Stmt.spawned (looping : List LabelId) (depth : Nat) : Stmt → List Expr
  | .ifElse _ t e => Stmt.spawnedList looping depth t ++ Stmt.spawnedList looping depth e
  | .loop _ body => Stmt.spawnedList looping (depth + 1) body
  | .block body => Stmt.spawnedList looping depth body
  | .go e => [e]
  | .defer e => if depth = 0 then [] else [e]
  | .decl _ _ | .assign _ _ | .expr _ | .ret _ | .label _ | .goto _ => []

def Stmt.spawnedList (looping : List LabelId) (depth : Nat) : List Stmt → List Expr
  | [] => []
  | x :: xs =>
    x.spawned looping depth ++ Stmt.spawnedList looping (Build.depthAfter looping depth x) xs

end

/-- The calls of a body that run on their own. -/
def spawnedExprs (body : List Stmt) : List Expr := Stmt.spawnedList (loopingLabels body) 0 body

/-! ## Expressions that are seen to -/

/-- The address of `v` flows to the heap, at once or by way of one location. -/
def BatchGraph.AddressLeaks (b : BatchGraph) (v : VarId) : Prop :=
  ∃ d, (d = heapId ∨ Fed b.graph heapId d 0) ∧ b.Gets (some d) v (-1)

theorem BatchGraph.AddressLeaks.grows {b b' : BatchGraph} (hb : b.Grows b') {v : VarId}
    (h : b.AddressLeaks v) : b'.AddressLeaks v := by
  obtain ⟨d, hd, hv⟩ := h
  exact ⟨d, hd.imp id hb.fed, hv.grows hb⟩

/-- What has come of an expression: the addresses that a call leaks flow to the heap, and what a
closure captures flows into it. -/
def Scene.Seen (s : Scene) (b : BatchGraph) : Expr → Prop
  | .call callee args => ∀ j a v, args[j]? = some a → a.addressedVar = some v → s.IsLocal v →
      s.Leaks callee.staticCallee j → b.AddressLeaks v
  | .closure i f => ∀ decl, s.program.function? f = some decl → ∃ l, b.siteLoc? i = some l ∧
      ∀ v ∈ decl.captures, s.IsLocal v → b.Gets (some l) v (if s.changes v then -1 else 0)
  | _ => True

def Scene.Sees (s : Scene) (b : BatchGraph) (es : List Expr) : Prop := ∀ e ∈ es, s.Seen b e

/-- Of the expressions that are calls, all addresses among the arguments flow to the heap. -/
def Scene.Loses (s : Scene) (b : BatchGraph) (es : List Expr) : Prop :=
  ∀ callee args, .call callee args ∈ es → ∀ a ∈ args, ∀ v, a.addressedVar = some v →
    s.IsLocal v → b.AddressLeaks v

/-- Where the expression designates or takes the address of a variable, that variable or its
address flows into `k`. -/
def Scene.Delivers (s : Scene) (b : BatchGraph) (k : Hole) (e : Expr) : Prop :=
  ∀ v, s.IsLocal v → (e.storageVar = some v → b.Gets k.dst v k.derefs) ∧
    (e.addressedVar = some v → b.Gets k.dst v (k.derefs - 1))

namespace Scene

variable {s : Scene} {b b' : BatchGraph}

theorem Seen.grows (hb : b.Grows b') {e : Expr} (h : s.Seen b e) : s.Seen b' e := by
  match e with
  | .call callee args => exact fun j a v ha hv hl hc => (h j a v ha hv hl hc).grows hb
  | .closure i f =>
    intro decl hdecl
    obtain ⟨l, hl, hv⟩ := h decl hdecl
    exact ⟨l, hb.sites i l hl, fun v hmem hlocal => (hv v hmem hlocal).grows hb⟩
  | .ident _ | .literal _ | .funcRef _ | .addrOf _ | .deref _ | .field _ _ | .ptrField _ _
  | .index _ _ _ | .binary _ _ | .new _ | .composite _ _ _ | .mapLit _ _ => trivial

namespace Sees

variable {e : Expr} {es es' : List Expr}

theorem grows (hb : b.Grows b') (h : s.Sees b es) : s.Sees b' es :=
  fun e he => (h e he).grows hb

theorem nil : s.Sees b [] := nofun

theorem cons (he : s.Seen b e) (h : s.Sees b es) : s.Sees b (e :: es) :=
  List.forall_mem_cons.2 ⟨he, h⟩

theorem append (h : s.Sees b es) (h' : s.Sees b es') : s.Sees b (es ++ es') :=
  List.forall_mem_append.2 ⟨h, h'⟩

theorem ofList {xs : List Expr} (h : ∀ x ∈ xs, s.Sees b x.nodes) :
    s.Sees b (Expr.nodesOfList xs) := by
  rw [Expr.nodesOfList_eq_flatMap]
  intro e he
  obtain ⟨x, hx, hex⟩ := List.mem_flatMap.1 he
  exact h x hx e hex

end Sees

namespace Loses

variable {es es' : List Expr}

theorem grows (hb : b.Grows b') (h : s.Loses b es) : s.Loses b' es :=
  fun callee args hmem a ha v hv hlocal => (h callee args hmem a ha v hv hlocal).grows hb

theorem nil : s.Loses b [] := nofun

theorem append (h : s.Loses b es) (h' : s.Loses b es') : s.Loses b (es ++ es') :=
  fun callee args hmem => (List.mem_append.1 hmem).elim (h callee args) (h' callee args)

end Loses

theorem Delivers.grows (hb : b.Grows b') {k : Hole} {e : Expr} (h : s.Delivers b k e) :
    s.Delivers b' k e :=
  fun v hv => ⟨fun he => ((h v hv).1 he).grows hb, fun he => ((h v hv).2 he).grows hb⟩

theorem delivers_of_none {k : Hole} {e : Expr} (hs : e.storageVar = none)
    (ha : e.addressedVar = none) : s.Delivers b k e := by
  intro v _
  rw [hs, ha]
  exact ⟨nofun, nofun⟩

/-- Selecting from a variable designates it. -/
theorem Delivers.select {k k' : Hole} {e e' : Expr} (h : s.Delivers b k' e')
    (hdst : k'.dst = k.dst) (hderefs : k'.derefs = k.derefs) (he : e.storageVar = e'.storageVar)
    (ha : e.addressedVar = none) : s.Delivers b k e := by
  intro v hv
  rw [he, ha, ← hdst, ← hderefs]
  exact ⟨(h v hv).1, nofun⟩

end Scene

theorem Build.storageVar_of_needsCell {e : Expr} (h : needsCell e = true) :
    e.storageVar = none := by
  unfold needsCell at h
  split at h
  · rfl
  · rfl
  · cases h

namespace Watch

open Build Scene

variable {W : Watch}

/-- An address of a variable that an argument takes goes where the hole leads. -/
theorem addressLeaks_of_delivers {b b' : BatchGraph} (hb : b.Grows b') {k : Hole} (why : String)
    {e : Expr} (hk : b.LeadsToHeap k) (he : W.scene.Delivers b' (note W.scene why k) e) {v : VarId}
    (hv : e.addressedVar = some v) (hlocal : W.scene.IsLocal v) : b'.AddressLeaks v := by
  obtain ⟨hderefs, d, hd, hheap⟩ := hk
  have hgets := (he v hlocal).2 hv
  rw [note_dst, note_derefs, hd, hderefs] at hgets
  exact ⟨d, hheap.imp id hb.fed, hgets⟩

/-- A call, given what its callee and its arguments do. -/
theorem callParts_does {b : BatchGraph} (pl : Place) (mode : CallMode) {ks : Option (List Hole)}
    (hks : ∀ k ∈ ks.getD [], W.Good b k) (callee : Expr) (args : List Expr)
    (hcallee : ∀ c k, b.Grows c → W.Good c k →
      W.Does c (fun _ c' => W.scene.Sees c' callee.nodes) (value W.scene pl k callee))
    (hargs : ∀ c, b.Grows c → W.Does c (fun _ c' => W.scene.Sees c' (Expr.nodesOfList args) ∧
      ∀ (j : Nat) a v, args[j]? = some a → a.addressedVar = some v → W.scene.IsLocal v →
        mode = .spawned ∨ W.scene.Leaks callee.staticCallee (0 + j) → c'.AddressLeaks v)
        (arguments W.scene pl mode ks callee.staticCallee 0 args)) :
    W.Does b (fun _ b' => W.scene.Sees b' (Expr.call callee args).nodes ∧
        (mode = .spawned → W.scene.Loses b' [.call callee args]))
      (call W.scene pl mode ks callee args) := by
  unfold call
  refine (W.wireResults_does hks _).bind fun _ b₁ h₁ _ => ?_
  refine (W.calleeHole_does pl mode callee).bind fun k b₂ h₂ hk => ?_
  refine (hcallee b₂ _ (h₁.trans h₂) (hk.note _ _)).bind fun _ b₃ h₃ hsees => ?_
  refine (hargs b₃ ((h₁.trans h₂).trans h₃)).mono fun _ b₄ h₄ _ hargs => ?_
  rw [Expr.nodes]
  refine ⟨.cons (fun j a v ha hv hlocal hleaks => ?_) (.append (hsees.grows h₄) hargs.1), ?_⟩
  · refine hargs.2 j a v ha hv hlocal (.inr ?_)
    rwa [Nat.zero_add]
  · intro hmode callee' args' hmem a ha v hv hlocal
    cases List.mem_singleton.1 hmem
    obtain ⟨j, hj⟩ := List.mem_iff_getElem?.1 ha
    exact hargs.2 j a v hj hv hlocal (.inl hmode)

variable (W)

theorem ident_does {b : BatchGraph} (pl : Place) (v : VarId) {k : Hole} (hk : k.Open W.lits b) :
    W.Does b (fun _ b' => W.scene.Delivers b' k (.ident v)) (value W.scene pl k (.ident v)) := by
  rw [value]
  refine (W.isGlobal_does v).bind fun g b₁ h₁ hg => ?_
  obtain ⟨decl, hdecl, rfl⟩ := hg
  split
  · refine (W.varLoc_does v).bind fun l b₂ h₂ hl => ?_
    refine (W.flow_does ((h₁.trans h₂).openHole hk) hl.2.1).mono ?_
    intro _ b₃ h₃ _ hfed w _
    refine ⟨fun hw => ?_, nofun⟩
    cases hw
    exact ⟨l, h₃.vars v l hl.1, hfed⟩
  · next hglobal =>
    refine .pure fun _ w hlocal => ⟨fun hw => ?_, nofun⟩
    cases hw
    obtain ⟨decl', hdecl', hnot⟩ := hlocal
    rw [hdecl] at hdecl'
    cases hdecl'
    rw [hnot] at hglobal
    exact absurd rfl hglobal

theorem closure_does {b : BatchGraph} (pl : Place) (i : SiteId) (f : FuncId) {k : Hole}
    (hk : W.Good b k) :
    W.Does b (fun _ b' => W.scene.Seen b' (.closure i f)) (value W.scene pl k (.closure i f)) := by
  rw [value]
  refine (W.spill_does pl hk i).bind fun h b₁ h₁ hl => ?_
  obtain ⟨l, rfl, hl⟩ := hl
  refine (W.function_does f).bind fun decl b₂ h₂ hdecl => ?_
  have hl₂ := h₂.sites i l hl
  refine .wellFormed fun hb => ?_
  have hcaptures : W.Does b₂ (fun _ c => ∀ v ∈ decl.captures, W.scene.IsLocal v →
      c.Gets (some l) v (if W.scene.changes v then -1 else 0))
      (decl.captures.forM (capture W.scene (.ofLoc l))) := by
    refine .forM _ (fun v c c' hc hv hlocal => (hv hlocal).grows hc) fun v _ c hc => ?_
    exact W.capture_does (hc.holds (hb.holds_of_alloc hl₂)) v
  refine hcaptures.mono fun _ b₃ h₃ _ hv => ?_
  intro decl' hdecl'
  rw [hdecl] at hdecl'
  cases hdecl'
  exact ⟨l, h₃.sites i l hl₂, hv⟩

mutual

/-- Evaluating an expression sees to all of its parts. -/
theorem value_does (pl : Place) (e : Expr) {b : BatchGraph} {k : Hole} (hk : W.Takes b k e)
    (he : ∀ x ∈ e.nodes, W.Admits x) :
    W.Does b (fun _ b' => W.scene.Sees b' e.nodes ∧ W.scene.Delivers b' k e)
      (value W.scene pl k e) := by
  match e, hk, he with
  | .ident v, hk, _ =>
    rw [Expr.nodes]
    exact (W.ident_does pl v hk.isOpen).mono fun _ _ _ _ hdelivers =>
      ⟨.cons trivial .nil, hdelivers⟩
  | .literal _, _, _ | .funcRef _, _, _ =>
    rw [value, Expr.nodes]
    exact .pure fun _ => ⟨.cons trivial .nil, delivers_of_none rfl rfl⟩
  | .addrOf e, hk, he =>
    have hgood := hk.good rfl
    rw [Expr.nodes] at he ⊢
    obtain ⟨hself, he⟩ := List.forall_mem_cons.1 he
    rw [value]
    split
    · next hcell =>
      refine (W.newTemp_does pl false).bind fun l b₁ h₁ hl => ?_
      refine (W.addr_does (hgood.grows h₁)).bind fun k' b₂ h₂ hk' => ?_
      refine (W.flow_does (hk'.1.note _ _) (h₂.holds hl.1)).bind fun _ b₃ h₃ _ => ?_
      refine (value_does pl e ((hl.2.grows (h₂.trans h₃)).takes e) he).mono ?_
      intro _ b₄ _ _ hsees
      refine ⟨.cons trivial hsees.1, delivers_of_none rfl ?_⟩
      exact storageVar_of_needsCell hcell
    · next hcell =>
      refine (W.addr_does hgood).bind fun k' b₁ h₁ hk' => ?_
      have htakes : W.Takes b₁ k' e := by
        refine ⟨hk'.1, fun hs => .inr ?_⟩
        exact (hself.address hs e rfl).resolve_left hcell
      refine (value_does pl e (htakes.note _ _) he).mono fun _ b₂ _ _ hsees => ?_
      refine ⟨.cons trivial hsees.1, fun v hv => ⟨nofun, fun ha => ?_⟩⟩
      have hgets := (hsees.2 v hv).1 ha
      rw [note_dst, note_derefs, hk'.2.1, hk'.2.2] at hgets
      exact hgets
  | .deref e, hk, he | .ptrField e _, hk, he =>
    rw [Expr.nodes] at he ⊢
    rw [value]
    refine (W.deref_does hk.isOpen).bind fun k' b₁ h₁ hgood => ?_
    refine (value_does pl e ((hgood.note _ _).takes e) (List.forall_mem_cons.1 he).2).mono ?_
    intro _ b₂ _ _ hsees
    exact ⟨.cons trivial hsees.1, delivers_of_none rfl rfl⟩
  | .field e _, hk, he =>
    rw [Expr.nodes] at he ⊢
    rw [value]
    have htakes : W.Takes b k e := ⟨hk.isOpen, hk.fits⟩
    refine (value_does pl e (htakes.note _ _) (List.forall_mem_cons.1 he).2).mono ?_
    intro _ b₁ _ _ hsees
    exact ⟨.cons trivial hsees.1, hsees.2.select (note_dst _ _ _) (note_derefs _ _ _) rfl rfl⟩
  | .index .array e i, hk, he =>
    rw [Expr.nodes] at he ⊢
    obtain ⟨he, hi⟩ := List.forall_mem_append.1 (List.forall_mem_cons.1 he).2
    rw [value]
    have htakes : W.Takes b k e := ⟨hk.isOpen, hk.fits⟩
    refine (value_does pl e (htakes.note _ _) he).bind fun _ b₁ h₁ hsees => ?_
    refine (value_does pl i (Good.discard.takes i) hi).mono fun _ b₂ h₂ _ hsees' => ?_
    refine ⟨.cons trivial (.append (hsees.1.grows h₂) hsees'.1), ?_⟩
    exact (hsees.2.grows h₂).select (note_dst _ _ _) (note_derefs _ _ _) rfl rfl
  | .index .slice e i, hk, he =>
    rw [Expr.nodes] at he ⊢
    obtain ⟨he, hi⟩ := List.forall_mem_append.1 (List.forall_mem_cons.1 he).2
    rw [value]
    refine (W.deref_does hk.isOpen).bind fun k' b₁ h₁ hgood => ?_
    refine (value_does pl e ((hgood.note _ _).takes e) he).bind fun _ b₂ h₂ hsees => ?_
    refine (value_does pl i (Good.discard.takes i) hi).mono fun _ b₃ h₃ _ hsees' => ?_
    exact ⟨.cons trivial (.append (hsees.1.grows h₃) hsees'.1), delivers_of_none rfl rfl⟩
  | .index .map e i, _, he | .binary e i, _, he =>
    rw [Expr.nodes] at he ⊢
    obtain ⟨he, hi⟩ := List.forall_mem_append.1 (List.forall_mem_cons.1 he).2
    rw [value]
    refine (value_does pl e (Good.discard.takes e) he).bind fun _ b₁ h₁ hsees => ?_
    refine (value_does pl i (Good.discard.takes i) hi).mono fun _ b₂ h₂ _ hsees' => ?_
    exact ⟨.cons trivial (.append (hsees.1.grows h₂) hsees'.1), delivers_of_none rfl rfl⟩
  | .call callee args, hk, he =>
    have hgood := hk.good rfl
    have hks : ∀ h ∈ (some [k]).getD [], W.Good b h := by
      intro h hh
      obtain rfl := List.mem_singleton.1 hh
      exact hgood
    rw [Expr.nodes] at he
    obtain ⟨hcallee, hargs⟩ := List.forall_mem_append.1 (List.forall_mem_cons.1 he).2
    rw [value]
    refine (callParts_does pl .plain hks callee args ?_ ?_).mono fun _ b₁ _ _ hsees =>
      ⟨hsees.1, delivers_of_none rfl rfl⟩
    · intro c h hc hh
      exact (value_does pl callee (hh.takes callee) hcallee).mono fun _ _ _ _ hsees => hsees.1
    · intro c hc
      exact arguments_does pl .plain (fun h hh => (hks h hh).grows hc) callee.staticCallee 0 args
        hargs
  | .new i, hk, _ =>
    rw [value, Expr.nodes]
    exact (W.spill_does pl (hk.good rfl) i).bind fun _ _ _ _ =>
      .pure fun _ => ⟨.cons trivial .nil, delivers_of_none rfl rfl⟩
  | .composite kind i es, hk, he =>
    rw [Expr.nodes] at he ⊢
    obtain ⟨hself, he⟩ := List.forall_mem_cons.1 he
    rw [value]
    have hslice : W.strict → kind = .slice → 0 ≤ k.derefs := by
      rintro hs rfl
      exact (hk.good rfl).nonneg hs
    have hlit : ¬ W.lits i := fun hlit => by
      obtain ⟨f, hf⟩ := hself.closure i rfl hlit
      cases hf
    refine (W.compositeHole_does pl hk.isOpen i kind hslice).bind fun h b₁ h₁ hl => ?_
    obtain ⟨l, rfl, hl⟩ := hl
    refine .wellFormed fun hb => ?_
    refine (elements_does pl ((Good.alloc hb hl hlit).note _ _) es he).mono ?_
    intro _ b₂ _ _ hsees
    exact ⟨.cons trivial hsees, delivers_of_none rfl rfl⟩
  | .mapLit i es, hk, he =>
    rw [Expr.nodes] at he ⊢
    rw [value]
    refine Does.bind (Q := fun _ _ => True) ?_ fun _ b₁ h₁ _ => ?_
    · exact (W.spill_does pl (hk.good rfl) i).bind fun _ _ _ _ => .pure fun _ => trivial
    · refine (mapEntries_does pl es (List.forall_mem_cons.1 he).2).mono ?_
      intro _ b₂ _ _ hsees
      exact ⟨.cons trivial hsees, delivers_of_none rfl rfl⟩
  | .closure i f, hk, _ =>
    rw [Expr.nodes]
    exact (W.closure_does pl i f (hk.good rfl)).mono fun _ _ _ _ hseen =>
      ⟨.cons hseen .nil, delivers_of_none rfl rfl⟩

/-- Arguments are seen to, and the addresses among them that leak flow to the heap. -/
theorem arguments_does (pl : Place) (mode : CallMode) {ks : Option (List Hole)} {b : BatchGraph}
    (hks : ∀ k ∈ ks.getD [], W.Good b k) (callee : Option FuncId) (i : Nat) (es : List Expr)
    (hes : ∀ x ∈ Expr.nodesOfList es, W.Admits x) :
    W.Does b (fun _ b' => W.scene.Sees b' (Expr.nodesOfList es) ∧
      ∀ (j : Nat) a v, es[j]? = some a → a.addressedVar = some v → W.scene.IsLocal v →
        mode = .spawned ∨ W.scene.Leaks callee (i + j) → b'.AddressLeaks v)
      (arguments W.scene pl mode ks callee i es) := by
  match es, hes with
  | [], _ =>
    rw [arguments, Expr.nodesOfList]
    exact .pure fun _ => ⟨.nil, nofun⟩
  | e :: es, hes =>
    rw [Expr.nodesOfList] at hes ⊢
    obtain ⟨he, hes⟩ := List.forall_mem_append.1 hes
    rw [arguments]
    refine (W.argHole_does pl mode hks callee i).bind fun k b₁ h₁ hk => ?_
    refine (value_does pl e ((hk.1.note _ _).takes e) he).bind fun _ b₂ h₂ hsees => ?_
    have h₁₂ := h₁.trans h₂
    refine (arguments_does pl mode (fun h hh => (hks h hh).grows h₁₂) callee (i + 1) es hes).mono ?_
    intro _ b₃ h₃ _ hsees'
    refine ⟨.append (hsees.1.grows h₃) hsees'.1, fun j a v ha hv hlocal hleaks => ?_⟩
    cases j with
    | zero =>
      cases ha
      exact (addressLeaks_of_delivers h₂ _ (hk.2 hleaks) hsees.2 hv hlocal).grows h₃
    | succ j =>
      refine hsees'.2 j a v ha hv hlocal ?_
      rwa [Nat.add_assoc, Nat.add_comm 1 j]

theorem elements_does (pl : Place) {b : BatchGraph} {k : Hole} (hk : W.Good b k) (es : List Expr)
    (hes : ∀ x ∈ Expr.nodesOfList es, W.Admits x) :
    W.Does b (fun _ b' => W.scene.Sees b' (Expr.nodesOfList es))
      (elements W.scene pl k es) := by
  match es, hes with
  | [], _ =>
    rw [elements, Expr.nodesOfList]
    exact .pure fun _ => .nil
  | e :: es, hes =>
    rw [Expr.nodesOfList] at hes ⊢
    obtain ⟨he, hes⟩ := List.forall_mem_append.1 hes
    rw [elements]
    refine (value_does pl e (hk.takes e) he).bind fun _ b₁ h₁ hsees => ?_
    refine (elements_does pl (hk.grows h₁) es hes).mono fun _ b₂ h₂ _ hsees' => ?_
    exact .append (hsees.1.grows h₂) hsees'

theorem mapEntries_does (pl : Place) {b : BatchGraph} (es : List (Expr × Expr))
    (hes : ∀ x ∈ Expr.nodesOfEntries es, W.Admits x) :
    W.Does b (fun _ b' => W.scene.Sees b' (Expr.nodesOfEntries es))
      (mapEntries W.scene pl es) := by
  match es, hes with
  | [], _ =>
    rw [mapEntries, Expr.nodesOfEntries]
    exact .pure fun _ => .nil
  | (key, val) :: es, hes =>
    rw [Expr.nodesOfEntries] at hes ⊢
    obtain ⟨hkey, hes⟩ := List.forall_mem_append.1 hes
    obtain ⟨hval, hes⟩ := List.forall_mem_append.1 hes
    rw [mapEntries]
    refine .wellFormed fun hb => ?_
    have hheap : W.Good b (.ofLoc heapId) := .sink hb (by decide)
    refine (value_does pl key ((hheap.note _ _).takes key) hkey).bind fun _ b₁ h₁ hsees₁ => ?_
    refine (value_does pl val (((hheap.grows h₁).note _ _).takes val) hval).bind
      fun _ b₂ h₂ hsees₂ => ?_
    refine (mapEntries_does pl es hes).mono fun _ b₃ h₃ _ hsees₃ => ?_
    exact .append (hsees₁.1.grows (h₂.trans h₃)) (.append (hsees₂.1.grows h₃) hsees₃)

end

variable {b : BatchGraph}

theorem valueSees_does (pl : Place) (e : Expr) {k : Hole} (hk : W.Good b k)
    (he : ∀ x ∈ e.nodes, W.Admits x) :
    W.Does b (fun _ b' => W.scene.Sees b' e.nodes) (value W.scene pl k e) :=
  (W.value_does pl e (hk.takes e) he).mono fun _ _ _ _ hsees => hsees.1

theorem call_does (pl : Place) (mode : CallMode) (ks : Option (List Hole))
    (hks : ∀ k ∈ ks.getD [], W.Good b k) (callee : Expr) (args : List Expr)
    (he : ∀ x ∈ (Expr.call callee args).nodes, W.Admits x) :
    W.Does b (fun _ b' => W.scene.Sees b' (Expr.call callee args).nodes ∧
        (mode = .spawned → W.scene.Loses b' [.call callee args]))
      (call W.scene pl mode ks callee args) := by
  rw [Expr.nodes] at he
  obtain ⟨hcallee, hargs⟩ := List.forall_mem_append.1 (List.forall_mem_cons.1 he).2
  refine callParts_does pl mode hks callee args ?_ ?_
  · intro c k hc hk
    exact W.valueSees_does pl callee hk hcallee
  · intro c hc
    exact W.arguments_does pl mode (fun k hk => (hks k hk).grows hc) callee.staticCallee 0 args
      hargs

theorem sinkValue_does (pl : Place) (why : String) {l : LocId} (hl : l < 3) (e : Expr)
    (he : ∀ x ∈ e.nodes, W.Admits x) :
    W.Does b (fun _ b' => W.scene.Sees b' e.nodes)
      (value W.scene pl (note W.scene why (.ofLoc l)) e) :=
  .wellFormed fun hb => W.valueSees_does pl e ((Good.sink hb hl).note _ _) he

/-- Finding the place to store into sees to the parts of the target. -/
theorem target_does (pl : Place) (e : Expr) (he : ∀ x ∈ e.nodes, W.Admits x) :
    W.Does b (fun k b' => W.Good b' k ∧ W.scene.Sees b' e.nodes) (target W.scene pl e) := by
  have hheap : ∀ {c : BatchGraph} {es : List Expr}, W.scene.Sees c es →
      W.Does c (fun k b' => W.Good b' k ∧ W.scene.Sees b' es) (pure (.ofLoc heapId)) :=
    fun hsees => .pure fun hb => ⟨.sink hb (by decide), hsees⟩
  induction e using target.induct generalizing b with
  | case1 v =>
    rw [target, Expr.nodes]
    refine (W.isGlobal_does v).bind fun g b₁ h₁ hg => ?_
    obtain ⟨decl, hdecl, rfl⟩ := hg
    split
    · next hglobal =>
      exact (W.globalLoc_does hdecl hglobal).bind fun l b₂ h₂ hl =>
        .pure fun _ => ⟨hl, .cons trivial .nil⟩
    · exact (W.varLoc_does v).bind fun l b₂ h₂ hl =>
        .pure fun _ => ⟨hl.2.2, .cons trivial .nil⟩
  | case2 base name ih =>
    rw [Expr.nodes] at he ⊢
    rw [target]
    exact (ih (List.forall_mem_cons.1 he).2).mono fun _ _ _ _ hk => ⟨hk.1, .cons trivial hk.2⟩
  | case3 base i ih =>
    rw [Expr.nodes] at he ⊢
    obtain ⟨hbase, hi⟩ := List.forall_mem_append.1 (List.forall_mem_cons.1 he).2
    rw [target]
    refine (W.valueSees_does pl i .discard hi).bind fun _ b₁ h₁ hsees => ?_
    refine (ih hbase).mono fun _ b₂ h₂ _ hk => ⟨hk.1, .cons trivial (.append hk.2 ?_)⟩
    exact hsees.grows h₂
  | case4 base i =>
    rw [Expr.nodes] at he ⊢
    obtain ⟨hbase, hi⟩ := List.forall_mem_append.1 (List.forall_mem_cons.1 he).2
    rw [target]
    refine (W.valueSees_does pl i .discard hi).bind fun _ b₁ h₁ hsees => ?_
    refine (W.sinkValue_does pl _ (by decide) base hbase).bind fun _ b₂ h₂ hsees' => ?_
    exact hheap (.cons trivial (.append hsees' (hsees.grows h₂)))
  | case5 base i =>
    rw [Expr.nodes] at he ⊢
    obtain ⟨hbase, hi⟩ := List.forall_mem_append.1 (List.forall_mem_cons.1 he).2
    rw [target]
    refine (W.valueSees_does pl base .discard hbase).bind fun _ b₁ h₁ hsees => ?_
    refine (W.sinkValue_does pl _ (by decide) i hi).bind fun _ b₂ h₂ hsees' => ?_
    exact hheap (.cons trivial (.append (hsees.grows h₂) hsees'))
  | case6 base | case7 base name =>
    rw [Expr.nodes] at he ⊢
    rw [target]
    refine (W.sinkValue_does pl _ (by decide) base (List.forall_mem_cons.1 he).2).bind ?_
    exact fun _ b₁ h₁ hsees => hheap (.cons trivial hsees)
  | case8 e h₁ h₂ h₃ h₄ h₅ h₆ h₇ =>
    rw [target] <;> first | assumption | exact .throw (.inl rfl)

/-! ## Statements -/

theorem admits_of_mem {es : List Expr} (h : ∀ x ∈ Expr.nodesOfList es, W.Admits x) {e : Expr}
    (he : e ∈ es) : ∀ x ∈ e.nodes, W.Admits x := by
  intro x hx
  rw [Expr.nodesOfList_eq_flatMap] at h
  exact h x (List.mem_flatMap.2 ⟨e, he, hx⟩)

theorem assignPair_does (pl : Place) (lhs rhs : Expr) (hl : ∀ x ∈ lhs.nodes, W.Admits x)
    (hr : ∀ x ∈ rhs.nodes, W.Admits x) :
    W.Does b (fun _ b' => W.scene.Sees b' lhs.nodes ∧ W.scene.Sees b' rhs.nodes)
      (do
        let k ← target W.scene pl lhs
        value W.scene pl (note W.scene "assign" k) rhs) := by
  refine (W.target_does pl lhs hl).bind fun k b₁ h₁ hk => ?_
  refine (W.valueSees_does pl rhs (hk.1.note _ _) hr).mono fun _ b₂ h₂ _ hsees => ?_
  exact ⟨hk.2.grows h₂, hsees⟩

theorem pairwise_does (pl : Place) (lhs rhs : List Expr)
    (hl : ∀ x ∈ Expr.nodesOfList lhs, W.Admits x) (hr : ∀ x ∈ Expr.nodesOfList rhs, W.Admits x) :
    W.Does b (fun _ b' => W.scene.Sees b' (Expr.nodesOfList lhs) ∧
      W.scene.Sees b' (Expr.nodesOfList rhs)) (assign.pairwise W.scene pl lhs rhs) := by
  unfold assign.pairwise
  split
  · next hlen =>
    have hpairs : W.Does b (fun _ c => ∀ p ∈ lhs.zip rhs, W.scene.Sees c p.1.nodes ∧
        W.scene.Sees c p.2.nodes) (assignPairs W.scene pl (lhs.zip rhs)) := by
      refine .forM _ (fun p c c' hc hp => ⟨hp.1.grows hc, hp.2.grows hc⟩) fun p hp c _ => ?_
      obtain ⟨h₁, h₂⟩ := List.of_mem_zip (a := p.1) (b := p.2) hp
      exact W.assignPair_does pl p.1 p.2 (W.admits_of_mem hl h₁) (W.admits_of_mem hr h₂)
    refine hpairs.mono fun _ c _ _ hp => ⟨.ofList fun x hx => ?_, .ofList fun x hx => ?_⟩
    · rw [← List.map_fst_zip (Nat.le_of_eq hlen)] at hx
      obtain ⟨p, hmem, rfl⟩ := List.mem_map.1 hx
      exact (hp p hmem).1
    · rw [← List.map_snd_zip (Nat.le_of_eq hlen.symm)] at hx
      obtain ⟨p, hmem, rfl⟩ := List.mem_map.1 hx
      exact (hp p hmem).2
  · exact .throw (.inl rfl)

theorem assign_does (pl : Place) (lhs rhs : List Expr)
    (hl : ∀ x ∈ Expr.nodesOfList lhs, W.Admits x) (hr : ∀ x ∈ Expr.nodesOfList rhs, W.Admits x) :
    W.Does b (fun _ b' => W.scene.Sees b' (Expr.nodesOfList lhs) ∧
      W.scene.Sees b' (Expr.nodesOfList rhs)) (assign W.scene pl lhs rhs) := by
  unfold assign
  split
  · next callee args =>
    split
    · have htargets : W.Does b (fun ks c => (∀ k ∈ ks, W.Good c k) ∧
          ∀ e ∈ lhs, W.scene.Sees c e.nodes) (lhs.mapM (target W.scene pl)) :=
        .mapM lhs (fun _ _ _ hc hk => hk.grows hc) (fun _ _ _ hc he => he.grows hc)
          fun e he c _ => W.target_does pl e (W.admits_of_mem hl he)
      refine htargets.bind fun ks b₁ h₁ hks => ?_
      rw [Expr.nodesOfList_singleton] at hr ⊢
      refine (W.call_does pl .plain (some ks) hks.1 callee args hr).mono ?_
      intro _ b₂ h₂ _ hsees
      exact ⟨.grows h₂ (.ofList hks.2), hsees.1⟩
    · exact W.pairwise_does pl lhs _ hl hr
  · exact W.pairwise_does pl lhs rhs hl hr

theorem each_does (pl : Place) (values : List Expr) (decl : Function)
    (hv : ∀ x ∈ Expr.nodesOfList values, W.Admits x) :
    W.Does b (fun _ b' => W.scene.Sees b' (Expr.nodesOfList values))
      (ret.each W.scene pl values decl) := by
  unfold ret.each
  split
  · exact .throw (.inl rfl)
  · next hlen =>
    have hpairs : W.Does b (fun _ c => ∀ rv ∈ decl.results.zip values, W.scene.Sees c rv.2.nodes)
        ((decl.results.zip values).forM fun rv => do
          let l ← varLoc rv.1
          value W.scene pl (note W.scene "return" (.ofLoc l)) rv.2) := by
      refine .forM _ (fun rv c c' hc hrv => hrv.grows hc) fun rv hrv c _ => ?_
      have hmem := (List.of_mem_zip (a := rv.1) (b := rv.2) hrv).2
      refine (W.varLoc_does rv.1).bind fun l b₁ h₁ hl => ?_
      exact W.valueSees_does pl rv.2 (hl.2.2.note _ _) (W.admits_of_mem hv hmem)
    refine hpairs.mono fun _ c _ _ hp => .ofList fun x hx => ?_
    rw [← List.map_snd_zip (Nat.le_of_not_lt hlen)] at hx
    obtain ⟨rv, hmem, rfl⟩ := List.mem_map.1 hx
    exact hp rv hmem

theorem ret_does (pl : Place) (values : List Expr)
    (hv : ∀ x ∈ Expr.nodesOfList values, W.Admits x) :
    W.Does b (fun _ b' => W.scene.Sees b' (Expr.nodesOfList values))
      (ret W.scene pl values) := by
  unfold ret
  refine (W.function_does pl.func).bind fun decl b₁ _ _ => ?_
  split
  · next callee args =>
    split
    · have hholes : W.Does b₁ (fun ks c => (∀ k ∈ ks, W.Good c k) ∧ ∀ r ∈ decl.results, True)
          (decl.results.mapM fun r => return Hole.ofLoc (← varLoc r)) := by
        refine .mapM _ (fun _ _ _ hc hk => hk.grows hc) (fun _ _ _ _ _ => trivial) ?_
        intro r _ c _
        exact (W.varLoc_does r).bind fun l _ _ hl => .pure fun _ => ⟨hl.2.2, trivial⟩
      refine hholes.bind fun ks b₂ _ hks => ?_
      rw [Expr.nodesOfList_singleton] at hv ⊢
      exact (W.call_does pl .plain (some ks) hks.1 callee args hv).mono fun _ _ _ _ hsees => hsees.1
    · exact W.each_does pl _ decl hv
  · exact W.each_does pl values decl hv

theorem spawn_does (pl : Place) (mode : CallMode) (e : Expr) (he : ∀ x ∈ e.nodes, W.Admits x) :
    W.Does b (fun _ b' => W.scene.Sees b' e.nodes ∧ (mode = .spawned → W.scene.Loses b' [e]))
      (spawn W.scene pl mode e) := by
  unfold spawn
  split
  · exact W.call_does pl mode none nofun _ _ he
  · exact .throw (.inl rfl)

theorem decl_does (looping : List LabelId) (pl : Place) (v : VarId) (init : Option Expr)
    (h : ∀ x ∈ Expr.nodesOfList init.toList, W.Admits x) :
    W.Does b (fun _ b' => W.scene.Sees b' (Expr.nodesOfList init.toList))
      (stmt W.scene looping pl (.decl v init)) := by
  rw [stmt]
  refine (W.varLoc_does v).bind fun l b₁ _ hl => ?_
  refine Does.bind (Q := fun _ c => W.Good c (.ofLoc l)) ?_ fun _ b₂ _ hl => ?_
  · have hmark : Change W.scene W.lits b₁ (b₁.update l fun x => { x with loopDepth := pl.depth }) :=
      .mark l (fun _ => rfl) (fun _ => rfl) fun _ => rfl
    exact .change (fun _ => hmark) fun _ => hl.2.2.grows hmark.grows
  · cases init with
    | none => exact .pure fun _ => .nil
    | some e =>
      rw [Option.toList_some, Expr.nodesOfList_singleton] at h ⊢
      exact W.valueSees_does pl e (hl.note _ _) h

/-- An expression that stands alone: the results of a call are not taken. -/
theorem expr_does (looping : List LabelId) (pl : Place) (e : Expr)
    (h : ∀ x ∈ e.nodes, W.Admits x) :
    W.Does b (fun _ b' => W.scene.Sees b' e.nodes) (stmt W.scene looping pl (.expr e)) := by
  by_cases hcall : ∃ callee args, e = .call callee args
  · obtain ⟨callee, args, rfl⟩ := hcall
    rw [stmt]
    exact (W.call_does pl .plain none nofun callee args h).mono fun _ _ _ _ hsees => hsees.1
  · have hne : ∀ callee args, e ≠ .call callee args := fun callee args he =>
      hcall ⟨callee, args, he⟩
    rw [stmt]
    · exact W.valueSees_does pl e .discard h
    · exact hne

mutual

/-- A statement sees to all expressions inside it, and loses the arguments of the calls that it lets
run on their own. -/
theorem stmt_does (looping : List LabelId) (pl : Place) (x : Stmt) {b : BatchGraph}
    (h : ∀ e ∈ x.parts, W.Admits e) :
    W.Does b (fun _ b' => W.scene.Sees b' x.parts ∧
        W.scene.Loses b' (x.spawned looping pl.depth)) (stmt W.scene looping pl x) := by
  match x, h with
  | .decl v init, h =>
    rw [Stmt.parts_of_nodes (by rw [Stmt.nodes])] at h ⊢
    exact (W.decl_does looping pl v init h).mono fun _ _ _ _ hsees => ⟨hsees, .nil⟩
  | .assign lhs rhs, h =>
    rw [Stmt.parts_of_nodes (by rw [Stmt.nodes]), Stmt.exprs, Expr.nodesOfList_eq_flatMap,
      List.flatMap_append, ← Expr.nodesOfList_eq_flatMap, ← Expr.nodesOfList_eq_flatMap] at h ⊢
    obtain ⟨hl, hr⟩ := List.forall_mem_append.1 h
    rw [stmt]
    exact (W.assign_does pl lhs rhs hl hr).mono fun _ _ _ _ hsees =>
      ⟨.append hsees.1 hsees.2, .nil⟩
  | .expr e, h =>
    rw [Stmt.parts_of_nodes (by rw [Stmt.nodes]), Stmt.exprs, Expr.nodesOfList_singleton] at h ⊢
    exact (W.expr_does looping pl e h).mono fun _ _ _ _ hsees => ⟨hsees, .nil⟩
  | .ifElse cond t e, h =>
    rw [Stmt.parts_ifElse] at h ⊢
    obtain ⟨hcond, h⟩ := List.forall_mem_append.1 h
    obtain ⟨ht, he⟩ := List.forall_mem_append.1 h
    rw [stmt]
    refine (W.valueSees_does pl cond .discard hcond).bind fun _ b₁ _ hsees₁ => ?_
    refine (stmts_does looping pl t ht).bind fun _ b₂ h₂ hsees₂ => ?_
    refine (stmts_does looping pl e he).mono fun _ b₃ h₃ _ hsees₃ => ?_
    rw [Stmt.spawned]
    exact ⟨.append (hsees₁.grows (h₂.trans h₃)) (.append (hsees₂.1.grows h₃) hsees₃.1),
      .append (hsees₂.2.grows h₃) hsees₃.2⟩
  | .loop cond body, h =>
    rw [Stmt.parts_loop] at h ⊢
    obtain ⟨hcond, hbody⟩ := List.forall_mem_append.1 h
    cases cond with
    | none =>
      rw [stmt, Option.toList_none, Expr.nodesOfList, Stmt.spawned]
      exact stmts_does looping _ body hbody
    | some e =>
      rw [Option.toList_some, Expr.nodesOfList_singleton] at hcond ⊢
      rw [stmt, Stmt.spawned]
      refine (W.valueSees_does _ e .discard hcond).bind fun _ b₁ _ hsees₁ => ?_
      refine (stmts_does looping _ body hbody).mono fun _ b₂ h₂ _ hsees₂ => ?_
      exact ⟨.append (hsees₁.grows h₂) hsees₂.1, hsees₂.2⟩
  | .block body, h =>
    rw [Stmt.parts_block] at h ⊢
    rw [stmt, Stmt.spawned]
    exact stmts_does looping pl body h
  | .ret values, h =>
    rw [Stmt.parts_of_nodes (by rw [Stmt.nodes])] at h ⊢
    rw [stmt]
    exact (W.ret_does pl values h).mono fun _ _ _ _ hsees => ⟨hsees, .nil⟩
  | .label _, _ | .goto _, _ =>
    rw [stmt, Stmt.parts, Stmt.nodes]
    exact .pure fun _ => ⟨.nil, .nil⟩
  | .go e, h =>
    rw [Stmt.parts_of_nodes (by rw [Stmt.nodes]), Stmt.exprs, Expr.nodesOfList_singleton] at h ⊢
    rw [stmt, Stmt.spawned]
    exact (W.spawn_does pl .spawned e h).mono fun _ _ _ _ hsees => ⟨hsees.1, hsees.2 rfl⟩
  | .defer e, h =>
    rw [Stmt.parts_of_nodes (by rw [Stmt.nodes]), Stmt.exprs, Expr.nodesOfList_singleton] at h ⊢
    rw [stmt, Stmt.spawned]
    refine (W.spawn_does pl _ e h).mono fun _ _ _ _ hsees => ⟨hsees.1, ?_⟩
    by_cases hdepth : pl.depth = 0
    · rw [if_pos hdepth]
      exact .nil
    · rw [if_neg hdepth] at hsees ⊢
      exact hsees.2 rfl

theorem stmts_does (looping : List LabelId) (pl : Place) (xs : List Stmt) {b : BatchGraph}
    (h : ∀ e ∈ bodyExprs xs, W.Admits e) :
    W.Does b (fun _ b' => W.scene.Sees b' (bodyExprs xs) ∧
        W.scene.Loses b' (Stmt.spawnedList looping pl.depth xs)) (stmts W.scene looping pl xs) := by
  match xs, h with
  | [], _ =>
    rw [stmts]
    exact .pure fun _ => ⟨.nil, .nil⟩
  | x :: xs, h =>
    rw [Stmt.bodyExprs_cons] at h ⊢
    obtain ⟨hx, hxs⟩ := List.forall_mem_append.1 h
    rw [stmts, Stmt.spawnedList]
    refine (stmt_does looping pl x hx).bind fun _ b₁ _ hsees => ?_
    refine (stmts_does looping _ xs hxs).mono fun _ b₂ h₂ _ hsees' => ?_
    exact ⟨.append (hsees.1.grows h₂) hsees'.1, .append (hsees.2.grows h₂) hsees'.2⟩

end

/-- A body sees to all expressions inside it. -/
theorem body_does (f : Function) (h : ∀ e ∈ bodyExprs f.stmts, W.Admits e) :
    W.Does b (fun _ b' => W.scene.Sees b' (bodyExprs f.stmts) ∧
        W.scene.Loses b' (spawnedExprs f.stmts)) (body W.scene f) := by
  unfold body
  unfold Function.stmts at h ⊢
  generalize f.body = xs at h ⊢
  cases xs with
  | none => exact .pure fun _ => ⟨.nil, .nil⟩
  | some xs => exact W.stmts_does _ _ xs h

/-! ## Batches -/

theorem place_does {f : Function} {e : VarId × Location} (he : e ∈ declEntries W.scene f) :
    W.Does b (fun _ _ => True) (place W.scene e) := by
  intro hb
  rw [run_place]
  split
  · exact .inl rfl
  · next hnew =>
    obtain ⟨howner, hglobal, hedges, hattrs, -⟩ := mem_declEntries he
    refine ⟨.single (.var (Option.not_isSome_iff_eq_none.1 hnew) ?_), trivial⟩
    exact ⟨howner, hedges, .inl ⟨hglobal, hattrs⟩⟩

theorem declares_does (fs : List Function) :
    W.Does b (fun _ _ => True) (fs.forM (declare W.scene)) := by
  rw [declares_eq]
  refine Does.mono (Q := fun _ _ => ∀ e ∈ fs.flatMap (declEntries W.scene), True) ?_
    fun _ _ _ _ _ => trivial
  refine .forM _ (fun _ _ _ _ _ => trivial) fun e he c _ => ?_
  obtain ⟨f, -, hef⟩ := List.mem_flatMap.1 he
  exact W.place_does hef

end Watch

/-- A batch is built from the sinks, and all its bodies are seen to. -/
theorem BatchGraph.build_gives {p : Program} {fs : List FuncId} {summary? : FuncId → Option Summary}
    {o : BuildOptions} {ds : List Function} (hds : declarations p fs = .ok ds) {W : Watch}
    (hW : W.scene = scene p fs summary? o ds)
    (h : ∀ d ∈ ds, ∀ e ∈ bodyExprs d.stmts, W.Admits e) :
    W.Gives (fun b => Changes W.scene W.lits {} b ∧ ∀ d ∈ ds,
        W.scene.Sees b (bodyExprs d.stmts) ∧ W.scene.Loses b (spawnedExprs d.stmts))
      (build p fs summary? o) := by
  have hrun : W.Does {} (fun _ b => ∀ d ∈ ds, W.scene.Sees b (bodyExprs d.stmts) ∧
      W.scene.Loses b (spawnedExprs d.stmts))
      (do ds.forM (Build.declare W.scene); ds.forM (Build.body W.scene)) := by
    refine (W.declares_does ds).bind fun _ b₁ _ _ => ?_
    exact .forM ds (fun _ _ _ hc hd => ⟨hd.1.grows hc, hd.2.grows hc⟩)
      fun d hd c _ => W.body_does d (h d hd)
  unfold build
  rw [hds]
  show W.Gives _ ((do
    ds.forM (Build.declare (scene p fs summary? o ds))
    ds.forM (Build.body (scene p fs summary? o ds)) : Build Unit).run {} >>= fun r => pure r.2)
  rw [← hW]
  exact (hrun .empty).bind fun r hr => hr

end EscapeFlow
