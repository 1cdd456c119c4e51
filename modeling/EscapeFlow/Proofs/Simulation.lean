import EscapeFlow.Proofs.Embedding

/-!
# Following a build inside a finished graph

Two builds of the same text need not make the same graph: locations may be numbered otherwise,
the second may have come by more edges before, and more variables may be captured by address.
`T.Follows W R x y` says that the graph of the first build stays inside the finished graph `T`
while it runs `x`, if the second build ran `y` on its way to the finished graph.  A world `W`
tells which locations the first build has and where they are in the finished graph, and how many
locations the second build has.

From what one step does (`Follows.bind`, `follows_flow`, `follows_newTemp`) come the holes of
calls and captures, where the second scene may know of more changes (`Scene.Widens`):

    s.Widens s' → … → T.Follows W World.Leads (paramHole s pl ks callee i)
      (paramHole s' pl ks' callee i)                                     (follows_paramHole)
    s.Widens s' → W.Leads k k' → T.Follows W done (capture s k v) (capture s' k' v)
                                                                           (follows_capture)
-/

namespace EscapeFlow

open BatchGraph Build

/-! ## Worlds -/

/-- Where the locations of the first build are in the finished graph, and the number of locations
that the second build has. -/
structure World where
  images : List LocId
  known : Nat
  sinks : ∀ l : LocId, l < 3 → images[l]? = some l
  three_le : 3 ≤ known

namespace World

/-- The location `l` of the first build is the location `l'` of the second. -/
def Sends (W : World) (l l' : LocId) : Prop := W.images[l]? = some l' ∧ l' < W.known

/-- What flows into `k` in the first build flows into `k'` in the second, after no more
dereferences. -/
structure Leads (W : World) (k k' : Hole) : Prop where
  dst : Option.Rel W.Sends k.dst k'.dst
  derefs : k'.derefs ≤ k.derefs

/-- Both builds went on. -/
instance : LE World := ⟨fun W W' => W.images <+: W'.images ∧ W.known ≤ W'.known⟩

theorem le_refl (W : World) : W ≤ W := ⟨List.prefix_refl _, Nat.le_refl _⟩

theorem le_trans {W W' W'' : World} (h : W ≤ W') (h' : W' ≤ W'') : W ≤ W'' :=
  ⟨h.1.trans h'.1, Nat.le_trans h.2 h'.2⟩

/-- The second build went on. -/
def grow (W : World) (n : Nat) (hn : W.known ≤ n) : World where
  images := W.images
  known := n
  sinks := W.sinks
  three_le := Nat.le_trans W.three_le hn

theorem le_grow (W : World) (n : Nat) (hn : W.known ≤ n) : W ≤ W.grow n hn :=
  ⟨List.prefix_refl _, hn⟩

/-- The first build made a location. -/
def push (W : World) (l' : LocId) (n : Nat) (hn : W.known ≤ n) : World where
  images := W.images ++ [l']
  known := n
  sinks l hl := by
    have hlt := (List.getElem?_eq_some_iff.1 (W.sinks l hl)).1
    rw [List.getElem?_append_left hlt, W.sinks l hl]
  three_le := Nat.le_trans W.three_le hn

theorem le_push (W : World) (l' : LocId) (n : Nat) (hn : W.known ≤ n) : W ≤ W.push l' n hn :=
  ⟨List.prefix_append _ _, hn⟩

variable {W W' : World}

theorem sends_push {l' n : Nat} {hn : W.known ≤ n} (hl : l' < n) :
    (W.push l' n hn).Sends W.images.length l' :=
  ⟨List.getElem?_concat_length, hl⟩

theorem Sends.mono {l l' : LocId} (h : W.Sends l l') (hW : W ≤ W') : W'.Sends l l' := by
  refine ⟨?_, Nat.lt_of_lt_of_le h.2 hW.2⟩
  obtain ⟨more, hmore⟩ := hW.1
  rw [← hmore, List.getElem?_append_left (List.getElem?_eq_some_iff.1 h.1).1]
  exact h.1

theorem Leads.mono {k k' : Hole} (h : W.Leads k k') (hW : W ≤ W') : W'.Leads k k' where
  dst := by
    have hdst := h.dst
    generalize k.dst = d at hdst ⊢
    generalize k'.dst = d' at hdst ⊢
    cases hdst with
    | none => exact .none
    | some hl => exact .some (hl.mono hW)
  derefs := h.derefs

theorem leads_all_mono {ks ks' : Option (List Hole)}
    (h : Option.Rel (List.Forall₂ W.Leads) ks ks') (hW : W ≤ W') :
    Option.Rel (List.Forall₂ W'.Leads) ks ks' := by
  cases h with
  | none => exact .none
  | some hks => exact .some (hks.imp fun _ _ hk => hk.mono hW)

theorem leads_discard (W : World) : W.Leads .discard .discard := ⟨.none, Int.le_refl _⟩

theorem Sends.leads {l l' : LocId} (h : W.Sends l l') : W.Leads (.ofLoc l) (.ofLoc l') :=
  ⟨.some h, Int.le_refl _⟩

theorem leads_sink (W : World) {l : LocId} (hl : l < 3) : W.Leads (.ofLoc l) (.ofLoc l) :=
  Sends.leads ⟨W.sinks l hl, Nat.lt_of_lt_of_le hl W.three_le⟩

theorem leads_heap (W : World) : W.Leads (.ofLoc heapId) (.ofLoc heapId) :=
  W.leads_sink (by decide)

theorem Leads.note {s s' : Scene} {k k' : Hole} (h : W.Leads k k') (why : String) :
    W.Leads (Build.note s why k) (Build.note s' why k') where
  dst := by
    rw [note_dst, note_dst]
    exact h.dst
  derefs := by
    rw [note_derefs, note_derefs]
    exact h.derefs

theorem Leads.shift {k k' j j' : Hole} (h : W.Leads k k') {d d' : Int} (hd : d' ≤ d)
    (hj : k.shift d = .ok j) (hj' : k'.shift d' = .ok j') : W.Leads j j' := by
  have hderefs := h.derefs
  unfold Hole.shift at hj hj'
  split at hj
  · cases hj
  · split at hj'
    · cases hj'
    · cases hj
      cases hj'
      exact ⟨h.dst, by simp only; omega⟩

theorem Leads.shift_outcome {k k' : Hole} (h : W.Leads k k') (d : Int) :
    Outcome True W.Leads (k.shift d) (k'.shift d) := by
  cases hj : k.shift d with
  | error e => exact .of_error_left trivial _ _
  | ok j =>
    cases hj' : k'.shift d with
    | error e => exact .of_error_right trivial _ _
    | ok j' => exact .ok (h.shift (Int.le_refl d) hj hj')

/-- A hole that leads on as it is, and one that takes the address in the second build. -/
theorem Leads.addr_right {k k' j' : Hole} (h : W.Leads k k') (hj' : k'.addr = .ok j') :
    W.Leads k j' := by
  have hderefs := h.derefs
  unfold Hole.addr Hole.shift at hj'
  split at hj'
  · cases hj'
  · cases hj'
    exact ⟨h.dst, by simp only; omega⟩

end World

/-! ## Following -/

namespace Target

/-- If the second build runs `y` and gets to the finished graph in the end, the graph of the first
is inside the finished graph when `x` is done, and `R` relates the results in a later world. -/
def Follows (T : Target) (W : World) {α β : Type} (R : World → α → β → Prop) (x : Build α)
    (y : Build β) : Prop :=
  ∀ b c a b₁ a' c₁, T.Embeds W.images b → c.Tabled → W.known ≤ c.graph.size →
    x.run b = .ok (a, b₁) → y.run c = .ok (a', c₁) → c₁.Keeps T.built →
    ∃ W' : World, W ≤ W' ∧ W'.known ≤ c₁.graph.size ∧ T.Embeds W'.images b₁ ∧ R W' a a'

/-- Nothing is known of the results. -/
def Follows.done {α β : Type} : World → α → β → Prop := fun _ _ _ => True

namespace Follows

variable {T : Target} {W : World} {α β γ δ ι κ : Type} {R : World → α → β → Prop}
  {Q : World → γ → δ → Prop}

theorem pure {a : α} {a' : β} (h : R W a a') : T.Follows W R (pure a) (pure a') := by
  intro b c _ _ _ _ hb _ hn hx hy _
  cases hx
  cases hy
  exact ⟨W, W.le_refl, hn, hb, h⟩

theorem throw_left (e : Error) (y : Build β) : T.Follows W R (throw e : Build α) y := by
  intro b c _ _ _ _ _ _ _ hx
  cases hx

theorem throw_right (x : Build α) (e : Error) : T.Follows W R x (throw e : Build β) := by
  intro b c _ _ _ _ _ _ _ _ hy
  cases hy

theorem lift {x : Except Error α} {y : Except Error β}
    (h : ∀ a a', x = .ok a → y = .ok a' → R W a a') :
    T.Follows W R (liftM x : Build α) (liftM y : Build β) := by
  intro b c _ _ _ _ hb _ hn hx hy _
  cases x with
  | error e => cases hx
  | ok =>
    cases y with
    | error e => cases hy
    | ok =>
      cases hx
      cases hy
      exact ⟨W, W.le_refl, hn, hb, h _ _ rfl rfl⟩

theorem bindOf {x : Build α} {y : Build β} {f : α → Build γ} {g : β → Build δ}
    [hy : Respects Evolves y] (hg : ∀ a', Respects Evolves (g a')) (hx : T.Follows W R x y)
    (hf : ∀ W' a a', W ≤ W' → R W' a a' → T.Follows W' Q (f a) (g a')) :
    T.Follows W Q (x >>= f) (y >>= g) := by
  intro b c _ b₂ _ c₂ hb hc hn hrun hrun' hkeeps
  obtain ⟨a, b₁, h₁, h₂⟩ := run_bind_eq_ok hrun
  obtain ⟨a', c₁, h₁', h₂'⟩ := run_bind_eq_ok hrun'
  obtain ⟨-, hc₁⟩ := hy.run h₁' hc
  obtain ⟨hk₂, -⟩ := (hg a').run h₂' hc₁
  obtain ⟨W₁, hW₁, hn₁, hb₁, hR⟩ := hx b c a b₁ a' c₁ hb hc hn h₁ h₁' (hk₂.trans hkeeps)
  obtain ⟨W₂, hW₂, hrest⟩ := hf W₁ a a' hW₁ hR b₁ c₁ _ b₂ _ c₂ hb₁ hc₁ hn₁ h₂ h₂' hkeeps
  exact ⟨W₂, World.le_trans hW₁ hW₂, hrest⟩

theorem bind {x : Build α} {y : Build β} {f : α → Build γ} {g : β → Build δ}
    [Respects Evolves y] [hg : ∀ a', Respects Evolves (g a')] (hx : T.Follows W R x y)
    (hf : ∀ W' a a', W ≤ W' → R W' a a' → T.Follows W' Q (f a) (g a')) :
    T.Follows W Q (x >>= f) (y >>= g) :=
  bindOf hg hx hf

/-- Nothing is handed on from the first action to the second. -/
theorem seq {x y : Build Unit} {x' : Build γ} {y' : Build δ} [Respects Evolves y]
    [Respects Evolves y'] (hx : T.Follows W done x y) (hx' : ∀ W', W ≤ W' → T.Follows W' Q x' y') :
    T.Follows W Q (x >>= fun _ => x') (y >>= fun _ => y') :=
  hx.bind fun W' _ _ hW _ => hx' W' hW

/-- The second build does something more. -/
theorem then_right {x : Build α} {y : Build Unit} {y' : Build Unit} [hy' : Respects Evolves y']
    [hy : Respects Evolves y] (hx : T.Follows W done x y) :
    T.Follows W done x (y >>= fun _ => y') := by
  intro b c _ b₁ _ c₂ hb hc hn hrun hrun' hkeeps
  obtain ⟨a', c₁, h₁', h₂'⟩ := run_bind_eq_ok hrun'
  obtain ⟨-, hc₁⟩ := hy.run h₁' hc
  obtain ⟨hk₂, -⟩ := hy'.run h₂' hc₁
  obtain ⟨W', hW, hn', hb', -⟩ := hx b c _ b₁ _ c₁ hb hc hn hrun h₁' (hk₂.trans hkeeps)
  exact ⟨W', hW, Nat.le_trans hn' hk₂.size, hb', trivial⟩

/-- Two lists are gone through side by side. -/
theorem forM₂ {f : ι → Build Unit} {g : κ → Build Unit} [∀ j, Respects Evolves (g j)]
    {xs : List ι} {ys : List κ}
    (h : List.Forall₂ (fun i j => ∀ W', W ≤ W' → T.Follows W' done (f i) (g j)) xs ys) :
    ∀ W', W ≤ W' → T.Follows W' done (xs.forM f) (ys.forM g) := by
  induction h with
  | nil => exact fun _ _ => pure trivial
  | @cons i j xs ys hij _ ih =>
    intro W' hW
    show T.Follows W' done (f i >>= fun _ => xs.forM f) (g j >>= fun _ => ys.forM g)
    exact (hij W' hW).seq fun W'' hW' => ih W'' (World.le_trans hW hW')

theorem forM {f g : ι → Build Unit} [∀ j, Respects Evolves (g j)] {xs : List ι}
    (h : ∀ i ∈ xs, ∀ W', W ≤ W' → T.Follows W' done (f i) (g i)) :
    T.Follows W done (xs.forM f) (xs.forM g) :=
  forM₂ (List.forall₂_same.2 h) W W.le_refl

theorem mapM {f : ι → Build α} {g : ι → Build β} [∀ j, Respects Evolves (g j)] {xs : List ι}
    (hR : ∀ {W W' a a'}, W ≤ W' → R W a a' → R W' a a')
    (h : ∀ i ∈ xs, ∀ W', W ≤ W' → T.Follows W' R (f i) (g i)) :
    T.Follows W (fun W' => List.Forall₂ (R W')) (xs.mapM f) (xs.mapM g) := by
  induction xs generalizing W with
  | nil => exact pure .nil
  | cons i xs ih =>
    rw [List.mapM_cons, List.mapM_cons]
    refine (h i List.mem_cons_self W W.le_refl).bind fun W₁ a a' hW₁ ha => ?_
    have hxs : ∀ j ∈ xs, ∀ W', W₁ ≤ W' → T.Follows W' R (f j) (g j) := fun j hj W' hW' =>
      h j (List.mem_cons_of_mem i hj) W' (World.le_trans hW₁ hW')
    refine (ih hxs).bind fun W₂ as as' hW₂ has => ?_
    exact pure (.cons (hR hW₂ ha) has)

end Follows

end Target

/-! ## Elementary actions -/

/-- A temporary or an allocation is made in both builds. -/
theorem World.exists_push {T : Target} {W : World} {b b₁ c c₁ : BatchGraph} {x : Location}
    (h : T.Embeds W.images b) (hn : W.known ≤ c.graph.size) (hb₁ : b₁.graph = b.graph.push x)
    (hvars : b₁.vars = b.vars) (hc₁ : c₁.graph = c.graph.push x) (hk : c₁.Keeps T.built)
    (hedges : x.edges = []) (howner : ∀ v, x.owner ≠ .site (.var v)) :
    ∃ W' : World, W ≤ W' ∧ W'.known ≤ c₁.graph.size ∧ T.Embeds W'.images b₁ ∧
      W'.Sends b.graph.size c.graph.size := by
  have hlt : c.graph.size < c₁.graph.size := by
    rw [hc₁, c.graph.push_size]
    exact Nat.lt_succ_self _
  have hn' : W.known ≤ c₁.graph.size := Nat.le_trans hn (Nat.le_of_lt hlt)
  have hloc : c₁.graph.loc c.graph.size = x := by rw [hc₁, c.graph.push_loc_self]
  have hv : ∀ v, b₁.varLoc? v = b.varLoc? v := fun v => by rw [varLoc?, hvars, varLoc?]
  refine ⟨W.push c.graph.size _ hn', W.le_push _ _ hn', Nat.le_refl _, ?_, ?_⟩
  · refine h.push hb₁ hedges (Nat.lt_of_lt_of_le hlt hk.size) ?_ (fun _ => ?_) ?_ ?_ ?_
    · rw [hk.role _ hlt, hloc]
    · rw [hk.depth _ hlt (by rw [hloc]; exact howner), hloc]
    · have hattrs := hk.attrs _ hlt
      rw [hloc] at hattrs
      exact Attrs.le_trans hattrs (T.contains _)
    · intro v l hl
      rw [hv] at hl
      exact .inl hl
    · intro v hn
      rwa [hv] at hn
  · rw [← h.length]
    exact sends_push hlt

/-- A global that is stored to is in the table. -/
theorem Build.varLoc?_of_run_globalLoc {v : VarId} {b b₁ : BatchGraph} {l : LocId}
    (h : (globalLoc v).run b = .ok (l, b₁)) : b₁.varLoc? v = some l := by
  rw [run_globalLoc] at h
  split at h
  · next hl =>
    cases h
    exact hl
  · next hl =>
    cases h
    exact (varLoc?_pushVar hl _ v _).2 (.inr ⟨rfl, rfl⟩)

/-- Two lists of which the second parts are alike. -/
theorem forall₂_zip {α β γ : Type} {R : β → γ → Prop} (as : List α) {bs : List β} {cs : List γ}
    (h : List.Forall₂ R bs cs) :
    List.Forall₂ (fun x y => y.1 = x.1 ∧ R x.2 y.2) (as.zip bs) (as.zip cs) := by
  induction h generalizing as with
  | nil =>
    rw [List.zip_nil_right, List.zip_nil_right]
    exact .nil
  | cons hbc _ ih =>
    cases as with
    | nil => exact .nil
    | cons a as => exact .cons ⟨rfl, hbc⟩ (ih as)

/-- By value or by address, as the closure needs it. -/
def Build.captureHole (s : Scene) (k : Hole) (v : VarId) : Build Hole :=
  if s.changes v then k.addr else pure k

/-- A variable of a function flows into a closure. -/
def Build.captureLocal (s : Scene) (k : Hole) (v : VarId) : Build Unit := do
  let l ← varLoc v
  modify (·.update l fun x => { x with captured := true })
  let k ← captureHole s k v
  flow s (note s "captured by a closure" k) l

instance {P : BatchGraph → BatchGraph → Prop} [Evolution P] (s : Scene) (k : Hole) (v : VarId) :
    Respects P (captureHole s k v) := by
  unfold captureHole
  infer_instance

instance {P : BatchGraph → BatchGraph → Prop} [Evolution P] (s : Scene) (k : Hole) (v : VarId) :
    Respects P (captureLocal s k v) := by
  unfold captureLocal
  infer_instance

/-- The scenes differ in what is inside bodies, and the second knows of more variables that they
are changed. -/
structure Scene.Widens (s s' : Scene) : Prop where
  signature : ∀ f d d', s.program.function? f = some d → s'.program.function? f = some d' →
    d'.params = d.params ∧ d'.results = d.results ∧ d'.captures = d.captures
  var? : ∀ v, s'.program.var? v = s.program.var? v
  members : s'.members = s.members
  summary? : s'.summary? = s.summary?
  precise : s'.precise = s.precise
  changes : ∀ v, s.changes v = true → s'.changes v = true

namespace Target

open Follows

variable {T : Target} {W : World}

/-- The same variable has its location in the finished graph in both builds. -/
theorem follows_varLoc (v : VarId) : T.Follows W World.Sends (varLoc v) (varLoc v) := by
  intro b c l b₁ l' c₁ hb hc hn hx hy hkeeps
  rw [run_varLoc] at hx hy
  split at hx
  · next k hk =>
    cases hx
    split at hy
    · next k' hk' =>
      cases hy
      obtain ⟨m, hm, hm'⟩ := hb.vars v l hk
      obtain rfl : m = l' := Option.some.inj (hm'.symm.trans (hkeeps.vars v l' hk'))
      refine ⟨W.grow c.graph.size hn, W.le_grow _ hn, Nat.le_refl _, hb, hm, ?_⟩
      exact Graph.lt_size_of_site (hc v m hk')
    · cases hy
  · cases hx

theorem follows_flow {s s' : Scene} {k k' : Hole} {l l' : LocId} (hk : W.Leads k k')
    (hl : W.Sends l l') : T.Follows W done (flow s k l) (flow s' k' l') := by
  intro b c _ b₁ _ c₁ hb hc hn hx hy hkeeps
  cases hx
  cases hy
  refine ⟨W, W.le_refl, ?_, hb.flow s.notes hl.1 fun dst hdst => ?_, trivial⟩
  · show W.known ≤ (c.flow s'.notes k' l').graph.size
    rw [flow_size]
    exact hn
  · have hrel := hk.dst
    rw [hdst] at hrel
    generalize hdst' : k'.dst = d' at hrel
    cases hrel with
    | some hd =>
      refine ⟨_, k'.derefs, hd.1, hk.derefs, hkeeps.fed (Covers.flow_fed s'.notes hdst' ?_ ?_)⟩
      · exact Nat.lt_of_lt_of_le hl.2 hn
      · exact Nat.lt_of_lt_of_le hd.2 hn

theorem follows_newTemp (pl : Place) (persists : Bool) :
    T.Follows W World.Sends (newTemp pl persists) (newTemp pl persists) := by
  intro b c l b₁ l' c₁ hb hc hn hx hy hkeeps
  cases hx
  cases hy
  exact World.exists_push hb hn rfl rfl rfl hkeeps rfl nofun

theorem follows_siteLoc {s s' : Scene} (pl : Place) (i : SiteId) :
    T.Follows W World.Sends (siteLoc s pl i) (siteLoc s' pl i) := by
  intro b c l b₁ l' c₁ hb hc hn hx hy hkeeps
  rw [run_siteLoc] at hx hy
  split at hx
  · cases hx
  · split at hx
    · cases hx
    · split at hy
      · cases hy
      · split at hy
        · cases hy
        · cases hx
          cases hy
          exact World.exists_push hb hn rfl rfl rfl hkeeps rfl nofun

theorem follows_globalLoc (v : VarId) : T.Follows W World.Sends (globalLoc v) (globalLoc v) := by
  intro b c l b₁ l' c₁ hb hc hn hx hy hkeeps
  obtain ⟨hk, hc₁⟩ := (inferInstance : Respects Evolves (globalLoc v)).run hy hc
  have hv' := varLoc?_of_run_globalLoc hy
  have hT := hkeeps.vars v l' hv'
  have hlt : l' < c₁.graph.size := Graph.lt_size_of_site (hc₁ v l' hv')
  have hn' : W.known ≤ c₁.graph.size := Nat.le_trans hn hk.size
  rw [run_globalLoc] at hx
  split at hx
  · next k hl =>
    cases hx
    obtain ⟨m, hm, hm'⟩ := hb.vars v l hl
    obtain rfl : m = l' := Option.some.inj (hm'.symm.trans hT)
    exact ⟨W.grow _ hn', W.le_grow _ hn', Nat.le_refl _, hb, hm, hlt⟩
  · next hl =>
    cases hx
    have hrole := hb.global v l' hl hT
    have hglobal : (T.built.graph.loc l').isGlobal = true := congrArg Role.isGlobal hrole
    have hescapes := T.wellFormed.escapes l' (.inr hglobal)
    refine ⟨W.push l' _ hn', W.le_push _ _ hn', Nat.le_refl _, ?_, ?_⟩
    · refine hb.push rfl rfl (Nat.lt_of_lt_of_le hlt hkeeps.size) hrole
        (fun h => absurd rfl (h v)) (T.all_le_of_escapes hescapes) ?_ ?_
      · intro w k hw
        rcases (varLoc?_pushVar hl _ w k).1 hw with hw | ⟨rfl, rfl⟩
        · exact .inl hw
        · exact .inr ⟨rfl, hT⟩
      · intro w hw
        rw [Option.eq_none_iff_forall_ne_some] at hw ⊢
        exact fun k hk => hw k ((varLoc?_pushVar hl _ w k).2 (.inl hk))
    · rw [← hb.length]
      exact World.sends_push hlt

/-- A mark is set that solving does not look at. -/
theorem follows_captured (l l' : LocId) :
    T.Follows W done (modify (·.update l fun x => { x with captured := true }))
      (modify (·.update l' fun x => { x with captured := true })) := by
  intro b c _ _ _ _ hb hc hn hx hy hkeeps
  cases hx
  cases hy
  refine ⟨W, W.le_refl, ?_, ?_, trivial⟩
  · exact hn.trans_eq (c.graph.update_size _ _).symm
  · exact hb.update l (fun _ => rfl) (fun _ => rfl) (fun _ => rfl) fun _ _ => rfl

/-- The depth of a variable may be any. -/
theorem follows_settle (v : VarId) (d : Nat) :
    T.Follows W World.Sends (settle v d) (settle v d) := by
  intro b c l b₁ l' c₁ hb hc hn hx hy hkeeps
  obtain ⟨hk, hc₁⟩ := (inferInstance : Respects Evolves (settle v d)).run hy hc
  rw [run_settle] at hx hy
  split at hx
  · next k hl =>
    cases hx
    split at hy
    · next k' hl' =>
      cases hy
      obtain ⟨m, hm, hm'⟩ := hb.vars v l hl
      obtain rfl : m = l' := Option.some.inj (hm'.symm.trans (hkeeps.vars v l' (hk.vars v l' hl')))
      have howner : (b.graph.loc l).owner = .site (.var v) := by
        rw [← (T.wellFormed.var_iff v m).1 hm']
        exact congrArg Role.owner (hb.role l m hm).symm
      have hn' := Nat.le_trans hn hk.size
      refine ⟨W.grow _ hn', W.le_grow _ hn', Nat.le_refl _, ?_, hm, ?_⟩
      · exact hb.update l (fun _ => rfl) (fun _ => rfl) (fun _ => rfl)
          fun h => absurd howner (h v)
      · exact Graph.lt_size_of_site (hc₁ v m (hk.vars v m hl'))
    · cases hy
  · cases hx

theorem follows_shift {k k' : Hole} (hk : W.Leads k k') (d : Int) :
    T.Follows W World.Leads (liftM (k.shift d) : Build Hole) (liftM (k'.shift d) : Build Hole) :=
  .lift fun _ _ h h' => hk.shift (Int.le_refl d) h h'

end Target

namespace Scene.Widens

open Target Target.Follows

variable {s s' : Scene} (S : s.Widens s') {T : Target} {W : World} (pl : Place)

include S

theorem follows_function (f : FuncId) :
    T.Follows W (fun _ d d' => d'.params = d.params ∧ d'.results = d.results ∧
      d'.captures = d.captures) (function s f) (function s' f) := by
  unfold Build.function
  cases hd : s.program.function? f with
  | none => exact throw_left _ _
  | some d =>
    cases hd' : s'.program.function? f with
    | none => exact throw_right _ _
    | some d' => exact .pure (S.signature f d d' hd hd')

theorem follows_isGlobal (v : VarId) :
    T.Follows W (fun _ g g' => g' = g) (isGlobal s v) (isGlobal s' v) := by
  unfold Build.isGlobal
  rw [S.var? v]
  cases s.program.var? v with
  | none => exact throw_left _ _
  | some decl => exact .pure rfl

omit S in
theorem follows_spill {k k' : Hole} (hk : W.Leads k k') (i : SiteId) :
    T.Follows W World.Leads (spill s pl k i) (spill s' pl k' i) := by
  unfold Build.spill
  refine (follows_siteLoc pl i).bind fun W₁ l l' h₁ hl => ?_
  refine (follows_shift (hk.mono h₁) (-1)).bind fun W₂ j j' h₂ hj => ?_
  refine (follows_flow (hj.note _) (hl.mono h₂)).seq fun W₃ h₃ => ?_
  exact .pure (hl.mono (World.le_trans h₂ h₃)).leads

omit S in
theorem follows_aggregate {k k' : Hole} (hk : W.Leads k k') (i : SiteId) :
    T.Follows W World.Leads (aggregate s pl k i) (aggregate s' pl k' i) := by
  unfold Build.aggregate
  refine (follows_siteLoc pl i).bind fun W₁ l l' h₁ hl => ?_
  refine (follows_flow (hk.mono h₁) hl).seq fun W₂ h₂ => ?_
  exact .pure (hl.mono h₂).leads

omit S in
theorem follows_compositeHole {k k' : Hole} (hk : W.Leads k k') (i : SiteId)
    (kind : CompositeKind) :
    T.Follows W World.Leads (compositeHole s pl k i kind) (compositeHole s' pl k' i kind) := by
  cases kind with
  | slice => exact follows_spill pl hk i
  | array => exact follows_aggregate pl hk i
  | struct => exact follows_aggregate pl hk i

omit S in
theorem follows_later {k k' : Hole} (hk : W.Leads k k') :
    T.Follows W World.Leads (later s pl k) (later s' pl k') := by
  unfold Build.later
  refine (follows_newTemp pl true).bind fun W₁ l l' h₁ hl => ?_
  refine (follows_flow (hk.mono h₁) hl).seq fun W₂ h₂ => ?_
  exact .pure (hl.mono h₂).leads

omit S in
/-- A temporary takes all holes, and none of them takes an address. -/
theorem follows_teeHole {k k' : Hole} (hk : W.Leads k k') {l l' : LocId} (hl : W.Sends l l') :
    T.Follows W done
      (do
        if k.derefs < 0 then throw (.internal .teeOfAddress)
        Build.flow s k l)
      (do
        if k'.derefs < 0 then throw (.internal .teeOfAddress)
        Build.flow s' k' l') := by
  by_cases h : k.derefs < 0
  · rw [if_pos h]
    exact throw_left _ _
  · rw [if_neg h]
    by_cases h' : k'.derefs < 0
    · rw [if_pos h']
      exact throw_right _ _
    · rw [if_neg h']
      exact follows_flow hk hl

omit S in
theorem follows_tee {ks ks' : List Hole} (hks : List.Forall₂ W.Leads ks ks') :
    T.Follows W World.Leads (tee s pl ks) (tee s' pl ks') := by
  cases hks with
  | nil => exact .pure W.leads_discard
  | cons hk hrest =>
    cases hrest with
    | nil => exact .pure hk
    | cons hk₂ hrest =>
      unfold Build.tee
      refine (follows_newTemp pl false).bind fun W₁ l l' h₁ hl => ?_
      refine (forM₂ ?_ W₁ W₁.le_refl).seq fun W₂ h₂ => .pure (hl.mono h₂).leads
      refine List.Forall₂.imp (fun j j' hj W₂ h₂ => ?_) (.cons hk (.cons hk₂ hrest))
      exact follows_teeHole (hj.mono (World.le_trans h₁ h₂)) (hl.mono h₂)

/-! ## Calls -/

theorem follows_paramHole {ks ks' : Option (List Hole)}
    (hks : Option.Rel (List.Forall₂ W.Leads) ks ks') (callee : Option FuncId) (i : Nat) :
    T.Follows W World.Leads (paramHole s pl ks callee i)
      (paramHole s' pl ks' callee i) := by
  unfold Build.paramHole
  cases callee with
  | none => exact .pure W.leads_heap
  | some f =>
    dsimp only
    rw [S.members, S.precise, S.summary?]
    by_cases hf : s.members.contains f = true
    · rw [if_pos hf, if_pos hf]
      by_cases hp : s.precise = true
      · rw [if_pos hp, if_pos hp]
        refine bindOf (fun d' => by split <;> infer_instance) (S.follows_function f)
          fun W₁ d d' _ hd => ?_
        rw [hd.1]
        cases d.params[i]? with
        | none => exact .pure W₁.leads_heap
        | some v => exact (follows_varLoc v).bind fun _ _ _ _ hl => .pure hl.leads
      · rw [if_neg hp, if_neg hp]
        exact .pure W.leads_heap
    · rw [if_neg hf, if_neg hf]
      cases (s.summary? f).bind (·.params[i]?) with
      | none => exact .pure W.leads_heap
      | some leaks =>
        have hout : Outcome True (List.Forall₂ W.Leads) (leakHoles leaks ks)
            (leakHoles leaks ks') :=
          leakHoles_outcome (fun d hk => hk.shift_outcome d) (fun l hl => W.leads_sink hl) leaks hks
        refine (lift (R := fun W => List.Forall₂ W.Leads) fun hs hs' h h' => ?_).bind
          fun W₁ hs hs' _ h => follows_tee pl h
        rw [h, h'] at hout
        exact hout

theorem follows_wireResults {ks ks' : Option (List Hole)}
    (hks : Option.Rel (List.Forall₂ W.Leads) ks ks') (callee : Option FuncId) :
    T.Follows W done (wireResults s ks callee) (wireResults s' ks' callee) := by
  cases hks with
  | none => exact .pure trivial
  | @some ks ks' hks =>
    cases callee with
    | none => exact .pure trivial
    | some f =>
      unfold wireResults
      dsimp only
      rw [S.members, S.precise]
      by_cases hf : (s.precise && s.members.contains f) = true
      · rw [if_pos hf, if_pos hf]
        refine (S.follows_function f).bind fun W₁ d d' h₁ hd => ?_
        rw [hd.2.1]
        refine forM₂ (List.Forall₂.imp (fun x x' hx W₂ h₂ => ?_) (forall₂_zip d.results hks)) W₁
          W₁.le_refl
        obtain ⟨hfst, hsnd⟩ := hx
        rw [hfst]
        refine (follows_varLoc x.1).bind fun W₃ l l' h₃ hl => ?_
        have hk := hsnd.mono (World.le_trans h₁ (World.le_trans h₂ h₃))
        exact follows_flow (hk.note _) hl
      · rw [if_neg hf, if_neg hf]
        exact .pure trivial

omit S in
theorem follows_calleeHole (mode : CallMode) (callee : Expr) :
    T.Follows W World.Leads (calleeHole s pl mode callee) (calleeHole s' pl mode callee) := by
  cases mode with
  | spawned => exact .pure W.leads_heap
  | deferred => exact follows_later pl W.leads_discard
  | plain =>
    refine .pure ?_
    split
    · exact W.leads_discard
    · exact W.leads_sink (by decide)

theorem follows_argHole (mode : CallMode) {ks ks' : Option (List Hole)}
    (hks : Option.Rel (List.Forall₂ W.Leads) ks ks') (callee : Option FuncId) (i : Nat) :
    T.Follows W World.Leads (argHole s pl mode ks callee i) (argHole s' pl mode ks' callee i) := by
  cases mode with
  | spawned => exact .pure W.leads_heap
  | deferred =>
    exact (S.follows_paramHole pl hks callee i).bind fun _ _ _ _ hk => follows_later pl hk
  | plain => exact S.follows_paramHole pl hks callee i

omit S in
/-- The hole for a captured variable. -/
theorem capture_eq (k : Hole) (v : VarId) :
    capture s k v = (do
      let g ← isGlobal s v
      if !g then captureLocal s k v else pure ()) := by
  unfold capture captureLocal captureHole
  refine bind_congr fun g => ?_
  by_cases hg : (!g) = true
  · rw [if_pos hg, if_pos hg]
    refine bind_congr fun l => bind_congr fun _ => ?_
    by_cases hc : s.changes v = true
    · rw [if_pos hc]
      exact if_pos hc
    · rw [if_neg hc]
      exact if_neg hc
  · rw [if_neg hg, if_neg hg]

/-- What is captured by address in the first build is so in the second. -/
theorem follows_captureHole {k k' : Hole} (hk : W.Leads k k') (v : VarId) :
    T.Follows W World.Leads (captureHole s k v) (captureHole s' k' v) := by
  unfold captureHole
  by_cases hc : s.changes v = true
  · rw [if_pos hc, if_pos (S.changes v hc)]
    exact follows_shift hk (-1)
  · rw [if_neg hc]
    by_cases hc' : s'.changes v = true
    · rw [if_pos hc']
      show T.Follows W World.Leads (liftM (Except.ok k : Except Error Hole) : Build Hole) _
      exact .lift fun j j' hj hj' => by
        cases hj
        exact hk.addr_right hj'
    · rw [if_neg hc']
      exact .pure hk

theorem follows_capture {k k' : Hole} (hk : W.Leads k k') (v : VarId) :
    T.Follows W done (capture s k v) (capture s' k' v) := by
  rw [capture_eq, capture_eq]
  refine (S.follows_isGlobal v).bind fun W₁ g g' h₁ hg => ?_
  rw [hg]
  by_cases hglobal : (!g) = true
  · rw [if_pos hglobal, if_pos hglobal]
    unfold captureLocal
    refine (follows_varLoc v).bind fun W₂ l l' h₂ hl => ?_
    refine (follows_captured l l').seq fun W₃ h₃ => ?_
    have hk₃ := hk.mono (World.le_trans h₁ (World.le_trans h₂ h₃))
    refine (S.follows_captureHole hk₃ v).bind fun W₄ j j' h₄ hj => ?_
    exact follows_flow (hj.note _) (hl.mono (World.le_trans h₃ h₄))
  · rw [if_neg hglobal, if_neg hglobal]
    exact .pure trivial

end Scene.Widens

end EscapeFlow
