import EscapeFlow.Analysis
import EscapeFlow.Proofs.LockstepBodies

/-!
# The locations of a built graph

Building first gives every declared variable a location, then goes through the bodies, where
every allocation gets one, and a global when it is stored to.  What a location is the storage
of, its `Role`, never changes afterwards, also not when the graph is solved.  So the roles of a
built graph are known: the locations that a decision is made for are

    the declared variables of all functions, then the allocations in their bodies,
    none of them twice                                                          (build_sites)

Nothing else of a build depends on the summaries it is given than those of the functions that
are called from its bodies (`build_congr`), and it never fails for a summary that is there
already (`build_error`).
-/

namespace EscapeFlow

open BatchGraph

/-! ## Roles -/

namespace Role

def decided? (r : Role) : Option Site := if r.isGlobal then none else r.owner.site?

end Role

namespace Graph

def roles (g : Graph) : List Role := g.locs.toList.map Location.role

/-- The sites that decisions are made for, in the order of the locations. -/
def decidedSites (g : Graph) : List Site := g.roles.filterMap Role.decided?

theorem decidedSites_eq (g : Graph) :
    g.decidedSites = g.locs.toList.filterMap Location.decided? := by
  unfold decidedSites roles
  rw [List.filterMap_map]
  rfl

theorem loc_eq_of_getElem? (g : Graph) {l : LocId} {x : Location}
    (h : g.locs.toList[l]? = some x) : g.loc l = x := by
  unfold loc
  rw [Array.getD_eq_getD_getElem?, ← Array.getElem?_toList, h]
  rfl

theorem roles_push (g : Graph) (x : Location) : (g.push x).roles = g.roles ++ [x.role] := by
  unfold roles push
  rw [Array.toList_push, List.map_append]
  rfl

theorem roles_update (g : Graph) (l : LocId) {f : Location → Location}
    (hf : ∀ x, (f x).role = x.role) : (g.update l f).roles = g.roles := by
  unfold roles update
  rw [Array.toList_modify]
  refine List.ext_getElem? fun i => ?_
  rw [List.getElem?_map, List.getElem?_map, List.getElem?_modify]
  split
  · cases g.locs.toList[i]? with
    | none => rfl
    | some x => exact congrArg some (hf x)
  · cases g.locs.toList[i]? <;> rfl

theorem roles_explain (g : Graph) (l : LocId) (hops : List Hop) :
    (g.explain l hops).roles = g.roles := by
  unfold explain
  split <;> rfl

theorem roles_withMarks (g : Graph) (m : Marks) : (g.withMarks m).roles = g.roles := by
  unfold roles withMarks
  rw [Array.toList_mapIdx]
  refine List.ext_getElem? fun i => ?_
  rw [List.getElem?_map, List.getElem?_map, List.getElem?_mapIdx]
  cases g.locs.toList[i]? <;> rfl

end Graph

theorem BatchGraph.flow_roles (notes : Bool) (k : Hole) (src : LocId) (b : BatchGraph) :
    (b.flow notes k src).graph.roles = b.graph.roles :=
  flow_induct (P := fun b' => b'.graph.roles = b.graph.roles)
    (fun b' l _ hf h => (b'.graph.roles_update l fun x => (hf x).1).trans h)
    (fun b' l hops h => (b'.graph.roles_explain l hops).trans h) notes k src rfl

/-! ## Declared variables -/

namespace Build

/-- The location of variable `v` of function `f`, whatever it is to the function. -/
def varLocation (s : Scene) (f : FuncId) (v : VarId) : Location where
  owner := .site (.var v)
  func := some f
  attrs := .ofAttr .persists
  reassigned := s.reassigned.contains v
  addrTaken := s.addrTaken.contains v

/-- The variables a function declares, with the locations they are to have. -/
def declEntries (s : Scene) (f : Function) : List (VarId × Location) :=
  f.params.map (fun v => (v, { varLocation s f.id v with isParam := true })) ++
    (f.results.zipIdx.map (fun r =>
        (r.1, { varLocation s f.id r.1 with result := some r.2 })) ++
      f.locals.map fun v => (v, varLocation s f.id v))

/-- Gives a variable its location. -/
def place (s : Scene) (e : VarId × Location) : Build Unit := do
  if ((← get).varLoc? e.1).isSome then throw (.duplicateLocation (s.program.varName e.1))
  let l ← newLoc e.2
  modify fun b => { b with vars := (e.1, l) :: b.vars }

theorem run_place (s : Scene) (e : VarId × Location) (b : BatchGraph) :
    (place s e).run b =
      if (b.varLoc? e.1).isSome then .error (.duplicateLocation (s.program.varName e.1))
      else .ok ((), b.pushVar e.1 e.2) := by
  show ((if (b.varLoc? e.1).isSome then _ else _ : Build Unit)).run b = _
  by_cases h : (b.varLoc? e.1).isSome = true
  · rw [if_pos h, if_pos h]
    rfl
  · rw [if_neg h, if_neg h]
    rfl

theorem forM_append (xs ys : List (VarId × Location)) (s : Scene) :
    (xs ++ ys).forM (place s) = xs.forM (place s) >>= fun _ => ys.forM (place s) :=
  List.forM_append

theorem forM_map {α : Type} (xs : List α) (g : α → VarId × Location) (s : Scene) :
    (xs.map g).forM (place s) = xs.forM fun a => place s (g a) :=
  List.forM_map

/-- A function declares its variables by giving each of its entries a place. -/
theorem declare_eq (s : Scene) (f : Function) :
    declare s f = (declEntries s f).forM (place s) := by
  unfold declEntries
  rw [forM_append, forM_append, forM_map, forM_map, forM_map]
  rfl

theorem declares_eq (s : Scene) (fs : List Function) :
    fs.forM (declare s) = (fs.flatMap (declEntries s)).forM (place s) := by
  induction fs with
  | nil => rfl
  | cons f fs ih =>
    rw [List.flatMap_cons, forM_append, ← declare_eq, ← ih]
    rfl

theorem declEntries_fst (s : Scene) (f : Function) :
    (declEntries s f).map Prod.fst = f.declared := by
  unfold declEntries Function.declared
  rw [List.map_append, List.map_append, List.map_map, List.map_map, List.map_map]
  congr 1
  · exact List.map_id _
  · congr 1
    · exact List.zipIdx_map_fst 0 f.results
    · exact List.map_id _

/-- What all declared variables have in common when they get their location. -/
theorem mem_declEntries {s : Scene} {f : Function} {e : VarId × Location}
    (he : e ∈ declEntries s f) :
    e.2.owner = .site (.var e.1) ∧ e.2.isGlobal = false ∧ e.2.edges = [] ∧
      e.2.attrs = .ofAttr .persists ∧ (e.2.result.isSome = true → e.1 ∈ f.results) := by
  unfold declEntries at he
  rw [List.mem_append, List.mem_append] at he
  rcases he with he | he | he
  · obtain ⟨v, -, rfl⟩ := List.mem_map.1 he
    exact ⟨rfl, rfl, rfl, rfl, nofun⟩
  · obtain ⟨r, hr, rfl⟩ := List.mem_map.1 he
    exact ⟨rfl, rfl, rfl, rfl, fun _ => (List.mem_zipIdx hr).2.2 ▸ List.getElem_mem _⟩
  · obtain ⟨v, -, rfl⟩ := List.mem_map.1 he
    exact ⟨rfl, rfl, rfl, rfl, nofun⟩

theorem declEntries_func {s : Scene} {f : Function} {e : VarId × Location}
    (he : e ∈ declEntries s f) : e.2.func = some f.id := by
  unfold declEntries at he
  rw [List.mem_append, List.mem_append] at he
  rcases he with he | he | he
  all_goals
    obtain ⟨v, -, rfl⟩ := List.mem_map.1 he
    rfl

theorem mem_declEntries_of_result (s : Scene) {f : Function} {r : VarId} (hr : r ∈ f.results) :
    ∃ x, (r, x) ∈ declEntries s f ∧ x.result.isSome = true := by
  obtain ⟨i, hi, rfl⟩ := List.mem_iff_getElem.1 hr
  refine ⟨{ varLocation s f.id f.results[i] with result := some i }, ?_, rfl⟩
  unfold declEntries
  refine List.mem_append_right _ (List.mem_append_left _ (List.mem_map.2 ⟨(_, i), ?_, rfl⟩))
  exact List.mem_zipIdx_iff_getElem?.2 (List.getElem?_eq_getElem hi)

end Build

/-- The graph holds the sinks and the given variables, none twice, and nothing else. -/
structure Declared (es : List (VarId × Location)) (b : BatchGraph) : Prop where
  locs : b.graph.locs.toList = Graph.sinks.locs.toList ++ es.map Prod.snd
  vars : b.vars = (es.zipIdx.map fun e => (e.1.1, e.2 + 3)).reverse
  sites : b.sites = []
  nodup : (es.map Prod.fst).Nodup

namespace Declared

variable {es : List (VarId × Location)} {b : BatchGraph}

theorem empty : Declared [] {} := ⟨rfl, rfl, rfl, List.nodup_nil⟩

theorem size (h : Declared es b) : b.graph.size = es.length + 3 := by
  show b.graph.locs.size = _
  rw [← Array.length_toList, h.locs, List.length_append, List.length_map, Nat.add_comm]
  rfl

/-- A variable that is looked up is one of the entries, and its location is the one given. -/
theorem of_varLoc? (h : Declared es b) {v : VarId} {l : LocId} (hv : b.varLoc? v = some l) :
    ∃ x, (v, x) ∈ es ∧ b.graph.loc l = x ∧ 3 ≤ l ∧ l < b.graph.size := by
  obtain ⟨_, _, hvars, -⟩ := List.lookup_eq_some_iff.1 hv
  have hmem : (v, l) ∈ b.vars := by rw [hvars]; simp
  rw [h.vars, List.mem_reverse, List.mem_map] at hmem
  obtain ⟨⟨⟨w, x⟩, i⟩, hi, heq⟩ := hmem
  obtain ⟨rfl, rfl⟩ := Prod.mk.inj heq
  have hget : es[i]? = some (w, x) := List.mem_zipIdx_iff_getElem?.1 hi
  have hlt : i < es.length := (List.getElem?_eq_some_iff.1 hget).1
  have hsize : i + 3 < b.graph.size := by rw [h.size]; omega
  refine ⟨x, List.mem_of_getElem? hget, ?_, Nat.le_add_left _ _, hsize⟩
  apply b.graph.loc_eq_of_getElem?
  rw [h.locs, List.getElem?_append_right (Nat.le_add_left 3 i), List.getElem?_map]
  show (es[i + 3 - 3]?).map Prod.snd = some x
  rw [Nat.add_sub_cancel, hget]
  rfl

theorem push (h : Declared es b) {v : VarId} (hv : b.varLoc? v = none) (x : Location) :
    Declared (es ++ [(v, x)]) (b.pushVar v x) := by
  constructor
  · show (b.graph.locs.push x).toList = _
    rw [Array.toList_push, h.locs, List.map_append, List.append_assoc]
    rfl
  · show (v, b.graph.size) :: b.vars = _
    rw [List.zipIdx_append, List.map_append, List.reverse_append, ← h.vars, h.size, Nat.zero_add]
    rfl
  · exact h.sites
  · rw [List.map_append, List.nodup_append]
    refine ⟨h.nodup, List.nodup_singleton _, ?_⟩
    intro w hw u hu hwu
    obtain rfl := List.mem_singleton.1 hu
    obtain ⟨e, he, rfl⟩ := List.mem_map.1 hw
    obtain ⟨i, hi, rfl⟩ := List.mem_iff_getElem.1 he
    have hmem : (es[i].1, i + 3) ∈ b.vars := by
      rw [h.vars, List.mem_reverse, List.mem_map]
      exact ⟨(es[i], i), List.mem_zipIdx_iff_getElem?.2 (List.getElem?_eq_getElem hi), rfl⟩
    have := List.lookup_eq_none_iff.1 hv _ hmem
    simp [hwu] at this

/-- Every entry can be looked up. -/
theorem varLoc?_of_mem (h : Declared es b) {v : VarId} {x : Location} (he : (v, x) ∈ es) :
    ∃ l, b.varLoc? v = some l ∧ b.graph.loc l = x := by
  cases hv : b.varLoc? v with
  | none =>
    obtain ⟨i, hi, hget⟩ := List.mem_iff_getElem.1 he
    have hmem : (v, i + 3) ∈ b.vars := by
      rw [h.vars, List.mem_reverse, List.mem_map]
      exact ⟨((v, x), i), List.mem_zipIdx_iff_getElem?.2 (List.getElem?_eq_some_iff.2 ⟨hi, hget⟩),
        rfl⟩
    have := List.lookup_eq_none_iff.1 hv _ hmem
    simp at this
  | some l =>
    obtain ⟨x', hx', hl, -⟩ := h.of_varLoc? hv
    refine ⟨l, rfl, ?_⟩
    rw [hl]
    exact congrArg Prod.snd (List.inj_on_of_nodup_map h.nodup hx' he rfl)

/-- A location is a sink or that of an entry, or it is not there. -/
theorem loc_cases (h : Declared es b) (l : LocId) :
    l < 3 ∧ b.graph.loc l = Graph.sinks.loc l ∨ 3 ≤ l ∧ (∃ e ∈ es, b.graph.loc l = e.2) ∨
      b.graph.size ≤ l ∧ b.graph.loc l = { owner := .temp } := by
  rcases Nat.lt_or_ge l 3 with hl | hl
  · left
    refine ⟨hl, b.graph.loc_eq_of_getElem? ?_⟩
    rw [h.locs, List.getElem?_append_left hl, Graph.sinks.loc_of_lt l hl, Array.getElem?_toList]
    exact Array.getElem?_eq_getElem hl
  · rcases Nat.lt_or_ge l b.graph.size with hlt | hge
    · right; left
      rw [h.size] at hlt
      have hlt' : l - 3 < es.length := Nat.sub_lt_right_of_lt_add hl hlt
      refine ⟨hl, es[l - 3], List.getElem_mem _, b.graph.loc_eq_of_getElem? ?_⟩
      rw [h.locs, List.getElem?_append_right hl, List.getElem?_map]
      show (es[l - 3]?).map Prod.snd = _
      rw [List.getElem?_eq_getElem hlt']
      rfl
    · exact .inr (.inr ⟨hge, b.graph.loc_of_le l hge⟩)

/-- Giving entries a place succeeds only if no variable is there already. -/
theorem run_places (h : Declared es b) {loose : Prop} {s s' : Scene}
    (hs : s.program.Offers loose s'.program) (es' : List (VarId × Location)) :
    Outcome loose (fun r r' => r' = r ∧ Declared (es ++ es') r.2)
      ((es'.forM (Build.place s)).run b) ((es'.forM (Build.place s')).run b) := by
  induction es' generalizing es b with
  | nil => exact .ok ⟨rfl, by rwa [List.append_nil]⟩
  | cons e es' ih =>
    show Outcome _ _ ((Build.place s e >>= fun _ => es'.forM (Build.place s)).run b)
      ((Build.place s' e >>= fun _ => es'.forM (Build.place s')).run b)
    rw [StateT.run_bind, StateT.run_bind, Build.run_place, Build.run_place]
    split
    · rcases hs.varName e.1 with heq | hl
      · rw [heq]
        exact .error nofun
      · exact .of_error_left hl _ _
    · next hnew =>
      have hnext := ih (h.push (Option.not_isSome_iff_eq_none.1 hnew) e.2)
      rw [List.append_assoc] at hnext
      exact hnext

end Declared

/-! ## Bodies -/

theorem Graph.decidedSites_push (g : Graph) (x : Location) :
    (g.push x).decidedSites = g.decidedSites ++ x.decided?.toList := by
  unfold decidedSites
  rw [roles_push, List.filterMap_append]
  congr 1

theorem Graph.decidedSites_update (g : Graph) (l : LocId) {f : Location → Location}
    (hf : ∀ x, (f x).role = x.role) : (g.update l f).decidedSites = g.decidedSites := by
  unfold decidedSites
  rw [g.roles_update l hf]

/-- Decisions are made for the variables `D`, then for the allocations that have been gone
through, which are `τ`; locations belong to the functions `F`, if to any; and the table of
variables leads to locations that are no sinks. -/
structure Placed (F : FuncId → Prop) (D : List VarId) (τ : Multiset SiteId) (b : BatchGraph) :
    Prop where
  decided : b.graph.decidedSites = D.map .var ++ (b.sites.map fun e => Site.alloc e.1).reverse
  keys : (b.sites.map Prod.fst).Nodup
  count : τ = (b.sites.map Prod.fst : List SiteId)
  funcs : ∀ x ∈ b.graph.roles, ∀ f, x.func = some f → F f
  three_le : 3 ≤ b.graph.size
  vars : ∀ v l, b.varLoc? v = some l → 3 ≤ l ∧ l < b.graph.size

namespace Placed

variable {F : FuncId → Prop} {D : List VarId} {τ : Multiset SiteId} {b : BatchGraph}

theorem flow (h : Placed F D τ b) (notes : Bool) (k : Hole) (src : LocId) :
    Placed F D τ (b.flow notes k src) where
  decided := by
    unfold Graph.decidedSites
    rw [flow_roles, flow_sites]
    exact h.decided
  keys := by rw [flow_sites]; exact h.keys
  count := by rw [flow_sites]; exact h.count
  funcs := by rw [flow_roles]; exact h.funcs
  three_le := by rw [flow_size]; exact h.three_le
  vars := by
    intro v l hv
    rw [flow_size]
    rw [varLoc?, flow_vars] at hv
    exact h.vars v l hv

theorem update (h : Placed F D τ b) (l : LocId) {f : Location → Location}
    (hf : ∀ x, (f x).role = x.role) : Placed F D τ (b.update l f) where
  decided := (b.graph.decidedSites_update l hf).trans h.decided
  keys := h.keys
  count := h.count
  funcs := by
    show ∀ x ∈ (b.graph.update l f).roles, _
    rw [b.graph.roles_update l hf]
    exact h.funcs
  three_le := h.three_le.trans_eq (b.graph.update_size l f).symm
  vars := fun v i hv => ⟨(h.vars v i hv).1,
    (h.vars v i hv).2.trans_eq (b.graph.update_size l f).symm⟩

theorem funcs_push (h : Placed F D τ b) {x : Location} (hx : ∀ f, x.func = some f → F f) :
    ∀ y ∈ (b.graph.push x).roles, ∀ f, y.func = some f → F f := by
  intro y hy
  rw [b.graph.roles_push, List.mem_append] at hy
  rcases hy with hy | hy
  · exact h.funcs y hy
  · rw [List.mem_singleton.1 hy]
    exact hx

/-- A new location that no decision is made for, and perhaps a variable that has it. -/
theorem push (h : Placed F D τ b) {x : Location} (hx : x.decided? = none)
    (hfunc : ∀ f, x.func = some f → F f) {vars : List (VarId × LocId)}
    (hvars : vars = b.vars ∨ ∃ v, vars = (v, b.graph.size) :: b.vars) :
    Placed F D τ { b with graph := b.graph.push x, vars := vars } where
  decided := by
    rw [b.graph.decidedSites_push, hx]
    exact (List.append_nil _).trans h.decided
  keys := h.keys
  count := h.count
  funcs := h.funcs_push hfunc
  three_le := by
    rw [b.graph.push_size]
    exact Nat.le_succ_of_le h.three_le
  vars := by
    intro v l hv
    rw [b.graph.push_size]
    rcases hvars with rfl | ⟨w, rfl⟩
    · exact ⟨(h.vars v l hv).1, Nat.lt_succ_of_lt (h.vars v l hv).2⟩
    · rw [varLoc?, List.lookup_cons] at hv
      split at hv
      · cases hv
        exact ⟨h.three_le, Nat.lt_succ_self _⟩
      · exact ⟨(h.vars v l hv).1, Nat.lt_succ_of_lt (h.vars v l hv).2⟩

theorem pushSite (h : Placed F D τ b) {pl : Place} (hpl : F pl.func) {i : SiteId}
    (hi : b.siteLoc? i = none) : Placed F D (τ + {i}) (b.pushSite pl i) where
  decided := by
    show (b.graph.push _).decidedSites = _
    rw [b.graph.decidedSites_push, h.decided]
    show _ = _ ++ (Site.alloc i :: b.sites.map fun e => Site.alloc e.1).reverse
    rw [List.reverse_cons, List.append_assoc]
    rfl
  keys := by
    refine List.nodup_cons.2 ⟨fun hmem => ?_, h.keys⟩
    obtain ⟨e, he, heq⟩ := List.mem_map.1 hmem
    have hne := List.lookup_eq_none_iff.1 hi e he
    rw [heq] at hne
    simp at hne
  count := by
    rw [h.count, add_comm]
    rfl
  funcs := h.funcs_push fun _ hf => Option.some.inj hf ▸ hpl
  three_le := by
    show 3 ≤ (b.graph.push _).size
    rw [b.graph.push_size]
    exact Nat.le_succ_of_le h.three_le
  vars := by
    intro v l hv
    show 3 ≤ l ∧ l < (b.graph.push _).size
    rw [b.graph.push_size]
    exact ⟨(h.vars v l hv).1, Nat.lt_succ_of_lt (h.vars v l hv).2⟩

end Placed

/-- The same build twice, of functions of `F` and against providers that agree on the functions
`C`. -/
def sameBuild (loose : Prop) (C F : FuncId → Prop) (D : List VarId) : Coupling where
  loose := loose
  Callee := C
  Inside := F
  State := fun τ b b' => b' = b ∧ Placed F D τ b
  Holes := fun k k' => k' = k

theorem lockstep_sameBuild {loose : Prop} (s : Scene) {p' : Program}
    (hp : s.program.Offers loose p') (C F : FuncId → Prop) (D : List VarId)
    {other? : FuncId → Option Summary}
    (h : ∀ f, C f → s.members.contains f = false → other? f = s.summary? f) :
    Lockstep (sameBuild loose C F D) s { s with program := p', summary? := other? } where
  program := hp
  members := rfl
  reassigned := rfl
  addrTaken := rfl
  summary? := h
  vars := fun ⟨h, _⟩ => by rw [h]
  sites := fun ⟨h, _⟩ => by rw [h]
  size := fun ⟨h, _⟩ => by rw [h]
  three_le := fun ⟨_, h⟩ => h.three_le
  placed := fun ⟨_, h⟩ hv => h.vars _ _ hv
  discard := rfl
  ofLoc := fun _ => rfl
  note := fun _ h => congrArg (Build.note s _) h
  derefs := fun h => congrArg Hole.derefs h
  shift := by
    rintro k _ d t rfl
    rfl
  flow := fun ⟨hb, hp⟩ hk _ _ => ⟨by rw [hb, show _ = _ from hk], hp.flow _ _ _⟩
  temp := fun pl persists ⟨hb, hp⟩ =>
    have hfunc : ∀ f, some pl.1.func = some f → F f := fun _ hf => Option.some.inj hf ▸ pl.2
    ⟨by rw [hb], hp.push (by cases persists <;> rfl) hfunc (.inl rfl)⟩
  site := fun pl ⟨hb, hp⟩ hi => ⟨by rw [hb], hp.pushSite pl.2 hi⟩
  global := fun ⟨hb, hp⟩ _ _ _ =>
    have hfunc : ∀ f, none = some f → F f := fun _ hf => absurd hf (Option.some_ne_none _).symm
    ⟨by rw [hb], hp.push rfl hfunc (.inr ⟨_, rfl⟩)⟩
  captured := fun l ⟨hb, hp⟩ => ⟨by rw [hb], hp.update l fun _ => rfl⟩
  depth := fun l _ ⟨hb, hp⟩ => ⟨by rw [hb], hp.update l fun _ => rfl⟩
  precise := fun h => h
  loosened := fun h h' => absurd h (Bool.eq_false_iff.1 h')
  argument := fun h h' => absurd h (Bool.eq_false_iff.1 h')
  result := fun h h' => absurd h (Bool.eq_false_iff.1 h')

/-! ## Builds -/

/-- The declarations are looked up one by one, and only a function that is missing fails. -/
theorem declarations_outcome {loose : Prop} {p p' : Program} (hp : p.Offers loose p')
    (fs : List FuncId) :
    Outcome loose (fun ds ds' => ds' = ds ∧ List.Forall₂ (fun f d => p.function? f = some d) fs ds)
      (declarations p fs) (declarations p' fs) := by
  unfold declarations
  induction fs with
  | nil => exact .ok ⟨rfl, .nil⟩
  | cons f fs ih =>
    rw [List.mapM_cons, List.mapM_cons]
    rcases hp.function? f with heq | ⟨hl, hnone⟩
    · rw [heq]
      cases hf : p.function? f with
      | none => exact .error nofun
      | some d =>
        refine ih.bind ?_
        rintro ds _ ⟨rfl, hds⟩
        exact .ok ⟨rfl, .cons hf hds⟩
    · rw [hnone]
      exact .of_error_left hl _ _

theorem mem_of_forall₂ {α β : Type} {R : α → β → Prop} {as : List α} {bs : List β}
    (h : List.Forall₂ R as bs) {b : β} (hb : b ∈ bs) : ∃ a ∈ as, R a b := by
  induction h with
  | nil => cases hb
  | cons hab _ ih =>
    rcases List.mem_cons.1 hb with rfl | hb
    · exact ⟨_, List.mem_cons_self, hab⟩
    · obtain ⟨a, hmem, hab⟩ := ih hb
      exact ⟨a, List.mem_cons_of_mem _ hmem, hab⟩

theorem mem_of_forall₂_left {p : Program} {fs : List FuncId} {ds : List Function}
    (h : List.Forall₂ (fun f d => p.function? f = some d) fs ds) {f : FuncId} (hf : f ∈ fs)
    {d : Function} (hd : p.function? f = some d) : d ∈ ds := by
  induction h with
  | nil => cases hf
  | cons hf' _ ih =>
    rcases List.mem_cons.1 hf with rfl | hf
    · rw [hf'] at hd
      cases hd
      exact List.mem_cons_self
    · exact List.mem_cons_of_mem _ (ih hf)

theorem Declared.placed {es : List (VarId × Location)} {b : BatchGraph} (h : Declared es b)
    (hes : ∀ e ∈ es, e.2.decided? = some (.var e.1)) {F : FuncId → Prop}
    (hF : ∀ e ∈ es, ∀ f, e.2.func = some f → F f) : Placed F (es.map Prod.fst) 0 b where
  decided := by
    rw [b.graph.decidedSites_eq, h.locs, h.sites, List.filterMap_append, List.filterMap_map,
      List.map_map]
    show List.filterMap (Location.decided? ∘ Prod.snd) es = _ ++ []
    rw [List.append_nil, ← List.filterMap_eq_map]
    exact List.filterMap_congr hes
  keys := by rw [h.sites]; exact List.nodup_nil
  count := by rw [h.sites]; rfl
  funcs := by
    intro x hx
    unfold Graph.roles at hx
    rw [h.locs, List.map_append, List.mem_append, List.map_map] at hx
    rcases hx with hsink | hx
    · have hnone : ∀ y ∈ Graph.sinks.locs.toList.map Location.role, y.func = none := by decide
      intro f hf
      rw [hnone x hsink] at hf
      cases hf
    · obtain ⟨e, he, rfl⟩ := List.mem_map.1 hx
      exact hF e he
  three_le := by rw [h.size]; exact Nat.le_add_left _ _
  vars := by
    intro v l hv
    obtain ⟨x, -, -, hl⟩ := h.of_varLoc? hv
    exact hl

/-- A build in its two passes. -/
theorem build_eq (p : Program) (fs : List FuncId) (summary? : FuncId → Option Summary)
    (o : BuildOptions) :
    build p fs summary? o = (do
      let ds ← declarations p fs
      let r ← ((ds.flatMap (Build.declEntries (scene p fs summary? o ds))).forM
        (Build.place (scene p fs summary? o ds))).run {}
      let r' ← (ds.forM (Build.body (scene p fs summary? o ds))).run r.2
      return r'.2) := by
  unfold build
  congr 1
  funext ds
  dsimp only
  rw [StateT.run_bind, Build.declares_eq, bind_assoc]

theorem declEntries_flatMap_fst (s : Scene) (ds : List Function) :
    (ds.flatMap (Build.declEntries s)).map Prod.fst = ds.flatMap Function.declared := by
  rw [List.map_flatMap]
  exact List.flatMap_congr fun d _ => Build.declEntries_fst s d

theorem declEntries_decided? (s : Scene) (ds : List Function) :
    ∀ e ∈ ds.flatMap (Build.declEntries s), e.2.decided? = some (.var e.1) := by
  intro e he
  obtain ⟨d, -, he⟩ := List.mem_flatMap.1 he
  obtain ⟨howner, hglobal, -⟩ := Build.mem_declEntries he
  unfold Location.decided? Location.site?
  rw [hglobal, howner]
  rfl

/-- Once the functions `ds` are declared, their variables have places and nothing else has. -/
theorem Declared.placed_declared {s : Scene} {ds : List Function} {b : BatchGraph}
    (h : Declared (ds.flatMap (Build.declEntries s)) b) :
    Placed (fun f => ∃ d ∈ ds, d.id = f) (ds.flatMap Function.declared) 0 b := by
  rw [← declEntries_flatMap_fst s]
  refine h.placed (declEntries_decided? s ds) fun e he f hf => ?_
  obtain ⟨d, hd, he⟩ := List.mem_flatMap.1 he
  rw [Build.declEntries_func he] at hf
  exact ⟨d, hd, Option.some.inj hf⟩

/-- Builds against providers that agree on all functions called from the bodies end alike. -/
theorem build_outcome {loose : Prop} {p p' : Program} (hp : p.Offers loose p') (fs : List FuncId)
    (o : BuildOptions) {summary? other? : FuncId → Option Summary}
    (h : ∀ f ∈ fs, ∀ d, p.function? f = some d → CallsOnly (fun g => fs.contains g = false →
      other? g = summary? g) (bodyExprs d.stmts)) :
    Outcome loose (fun b b' => b' = b ∧ ∃ ds,
        List.Forall₂ (fun f d => p.function? f = some d) fs ds ∧
        (ds.flatMap Function.declared).Nodup ∧
        Placed (fun f => ∃ d ∈ ds, d.id = f) (ds.flatMap Function.declared)
          (allocSites (ds.flatMap fun d => bodyExprs d.stmts)) b)
      (build p fs summary? o) (build p' fs other? o) := by
  rw [build_eq, build_eq]
  refine (declarations_outcome hp fs).bind ?_
  rintro _ ds ⟨rfl, hds⟩
  set s := scene p fs summary? o ds
  let F : FuncId → Prop := fun f => ∃ d ∈ ds, d.id = f
  refine (Declared.empty.run_places (s := s) hp (ds.flatMap (Build.declEntries s))).bind ?_
  rintro _ ⟨⟨⟩, b⟩ ⟨rfl, hb⟩
  rw [List.nil_append] at hb
  have hplaced := hb.placed_declared
  have hnodup := hb.nodup
  rw [declEntries_flatMap_fst] at hnodup
  have L := lockstep_sameBuild s hp (fun g => fs.contains g = false → other? g = summary? g) F
    (ds.flatMap Function.declared) fun f hf => hf
  have hcalls : ∀ d ∈ ds, CallsOnly (fun g => fs.contains g = false → other? g = summary? g)
      (bodyExprs d.stmts) := by
    intro d hd
    obtain ⟨f, hf, hfd⟩ := mem_of_forall₂ hds hd
    exact h f hf d hfd
  refine ((L.bodies_steps ds (fun d hd => ⟨d, hd, rfl⟩) hcalls) 0 b b ⟨rfl, hplaced⟩
    (Nat.zero_le _)).bind ?_
  rintro ⟨⟨⟩, _⟩ ⟨⟨⟩, b₁⟩ ⟨⟨rfl, hb₁⟩, -⟩
  rw [zero_add] at hb₁
  exact .ok ⟨rfl, ds, hds, hnodup, hb₁⟩

/-- A build looks at no other summaries than those of functions that its bodies call. -/
theorem build_congr (p : Program) (fs : List FuncId) (o : BuildOptions)
    {summary? other? : FuncId → Option Summary}
    (h : ∀ f ∈ fs, ∀ d, p.function? f = some d → CallsOnly (fun g => fs.contains g = false →
      other? g = summary? g) (bodyExprs d.stmts)) :
    build p fs other? o = build p fs summary? o := by
  have hout := build_outcome (.refl p : p.Offers False p) fs o h
  generalize build p fs summary? o = x at hout ⊢
  generalize build p fs other? o = y at hout ⊢
  cases x with
  | ok b =>
    cases y with
    | ok b' => exact congrArg Except.ok hout.1
    | error e => exact hout.elim
  | error e =>
    cases y with
    | ok b' => exact hout.elim
    | error e' => exact congrArg Except.error (hout.resolve_left id).1

theorem callsOnly_self (p : Program) (fs : List FuncId) (summary? : FuncId → Option Summary) :
    ∀ f ∈ fs, ∀ d, p.function? f = some d → CallsOnly (fun g => fs.contains g = false →
      summary? g = summary? g) (bodyExprs d.stmts) :=
  fun _ _ _ _ _ _ _ _ _ => rfl

theorem build_error {p : Program} {fs : List FuncId} {summary? : FuncId → Option Summary}
    {o : BuildOptions} {e : Error} (h : build p fs summary? o = .error e) (f : FuncId) :
    e ≠ .summaryFinalized f := by
  have hout :=
    build_outcome (.refl p : p.Offers False p) fs o (callsOnly_self p fs summary?)
  rw [h] at hout
  exact (hout.resolve_left id).2 f

/-- Decisions are made for the declared variables and then for the allocations in the bodies. -/
theorem build_sites {p : Program} {fs : List FuncId} {summary? : FuncId → Option Summary}
    {o : BuildOptions} {b : BatchGraph} (h : build p fs summary? o = .ok b) :
    ∃ (ds : List Function) (is : List SiteId),
      List.Forall₂ (fun f d => p.function? f = some d) fs ds ∧
      b.graph.decidedSites = (ds.flatMap Function.declared).map .var ++ is.map .alloc ∧
      (ds.flatMap Function.declared).Nodup ∧ is.Nodup ∧
      (is : Multiset SiteId) = allocSites (ds.flatMap fun d => bodyExprs d.stmts) := by
  have hout :=
    build_outcome (.refl p : p.Offers False p) fs o (callsOnly_self p fs summary?)
  rw [h] at hout
  obtain ⟨-, ds, hds, hnodup, hb⟩ := hout
  refine ⟨ds, (b.sites.map Prod.fst).reverse, hds, ?_, hnodup, List.nodup_reverse.2 hb.keys, ?_⟩
  · rw [hb.decided, List.map_reverse, List.map_map]
    rfl
  · rw [hb.count, Multiset.coe_reverse]

/-! ## Outputs -/

theorem Graph.drain_eq_withMarks (a : Adder) (p : Program) (g : Graph) (o : SolveOptions)
    (m : Marks) (todo : List LocId) (walks : Nat) (relaxed : List Relaxation) :
    ∃ m', (g.drain a p o m todo walks relaxed).graph = g.withMarks m' := by
  fun_induction Graph.drain a p g o m todo walks relaxed with
  | case1 => exact ⟨_, rfl⟩
  | case2 => exact ⟨_, rfl⟩
  | case3 _ _ _ _ _ _ ih => exact ih

theorem Graph.solve_roles (a : Adder) (p : Program) (o : SolveOptions) (g : Graph) :
    (g.solveWith a p o).graph.roles = g.roles := by
  obtain ⟨m, hm⟩ := g.drain_eq_withMarks a p o g.marks (List.range g.size) 0 []
  unfold solveWith
  rw [hm, g.roles_withMarks]

theorem Graph.length_roles (g : Graph) : g.roles.length = g.size := by
  unfold roles
  rw [List.length_map]
  rfl

theorem Graph.solve_size (a : Adder) (p : Program) (o : SolveOptions) (g : Graph) :
    (g.solveWith a p o).graph.size = g.size := by
  rw [← length_roles, solve_roles, length_roles]

/-- What a location shows, read off the list of what all of them show. -/
theorem Graph.view_loc {α : Type} (view : Location → α) (g : Graph) (l : LocId) :
    view (g.loc l) = (g.locs.toList.map view).getD l (view { owner := .temp }) := by
  unfold loc
  rw [Array.getD_eq_getD_getElem?, List.getD_eq_getElem?_getD, List.getElem?_map,
    Array.getElem?_toList]
  cases g.locs[l]? <;> rfl

theorem Graph.role_loc (g : Graph) (l : LocId) :
    (g.loc l).role = g.roles.getD l (Location.role { owner := .temp }) :=
  g.view_loc Location.role l

theorem Placed.func {F : FuncId → Prop} {D : List VarId} {τ : Multiset SiteId} {b : BatchGraph}
    (h : Placed F D τ b) {l : LocId} {f : FuncId} (hl : (b.graph.loc l).func = some f) : F f := by
  have hrole := b.graph.role_loc l
  rw [List.getD_eq_getElem?_getD] at hrole
  have hfunc : (b.graph.loc l).role.func = some f := hl
  rw [hrole] at hfunc
  cases hget : b.graph.roles[l]? with
  | none =>
    rw [hget] at hfunc
    cases hfunc
  | some x =>
    rw [hget] at hfunc
    exact h.funcs x (List.mem_of_getElem? hget) f hfunc

theorem Graph.solve_role (a : Adder) (p : Program) (o : SolveOptions) (g : Graph) (l : LocId) :
    ((g.solveWith a p o).graph.loc l).role = (g.loc l).role := by
  rw [role_loc, solve_roles, ← role_loc]

theorem BatchGraph.decisions_map_site (b : BatchGraph) :
    b.decisions.map Decision.site = b.graph.decidedSites := by
  unfold decisions
  rw [b.graph.decidedSites_eq, List.map_filterMap]
  refine List.filterMap_congr fun x _ => ?_
  cases x.decided? <;> rfl

theorem Location.isHeap_decision (x : Location) (site : Site) :
    (x.decision site).isHeap = x.escapes := by
  show decide (x.placement = .heap) = x.escapes
  unfold placement
  cases x.escapes <;> rfl

theorem BatchGraph.mem_decisions {b : BatchGraph} {d : Decision} :
    d ∈ b.decisions ↔ ∃ l, l < b.graph.size ∧ (b.graph.loc l).decided? = some d.site ∧
      (b.graph.loc l).decision d.site = d := by
  unfold decisions
  rw [List.mem_filterMap]
  constructor
  · rintro ⟨x, hx, hd⟩
    obtain ⟨l, hl, rfl⟩ := List.mem_iff_getElem.1 hx
    obtain ⟨site, hsite, rfl⟩ := Option.map_eq_some_iff.1 hd
    refine ⟨l, hl, ?_⟩
    rw [b.graph.loc_of_lt l hl]
    exact ⟨hsite, rfl⟩
  · rintro ⟨l, hl, hsite, hd⟩
    rw [b.graph.loc_of_lt l hl] at hsite hd
    exact ⟨_, Array.getElem_mem_toList hl, by rw [hsite, Option.map_some, hd]⟩

theorem exists_of_map_eq_ok {α β : Type} {x : Except Error α} {f : α → β} {y : β}
    (h : x.map f = .ok y) : ∃ a, x = .ok a ∧ f a = y := by
  cases x with
  | ok a =>
    cases h
    exact ⟨a, rfl, rfl⟩
  | error e => cases h

namespace BatchRun

/-- What is made of a graph once it is built. -/
def ofBuilt (a : Adder) (c : Config) (p : Program) (batch : Batch) (built : BatchGraph) :
    BatchRun :=
  let solution := built.graph.solveWith a p ⟨c.maxWalkRounds, 2 ≤ c.diagnosticLevel⟩
  let output := (solved built solution).output p batch c.diagnosticLevel
  { batch := batch
    built := built
    solution := solution
    output := { output with
      stats := { output.stats with
        walks := solution.walks
        limitHits := if solution.limitHit then 1 else 0 } } }

theorem analyze_eq (a : Adder) (c : Config) (p : Program) (batch : Batch)
    (summary? : FuncId → Option Summary) :
    analyze c p batch summary? a = (build p batch.functions summary?
      ⟨c.preciseRecursiveCalls, 2 ≤ c.diagnosticLevel⟩).map (ofBuilt a c p batch) := by
  unfold analyze
  dsimp only
  cases build p batch.functions summary? ⟨c.preciseRecursiveCalls, 2 ≤ c.diagnosticLevel⟩ <;> rfl

variable {a : Adder} {c : Config} {p : Program} {batch : Batch} {summary? : FuncId → Option Summary}

theorem analyze_eq_ok {r : BatchRun} (h : analyze c p batch summary? a = .ok r) :
    ∃ b, build p batch.functions summary? ⟨c.preciseRecursiveCalls, 2 ≤ c.diagnosticLevel⟩ = .ok b ∧
      r = ofBuilt a c p batch b := by
  rw [analyze_eq] at h
  obtain ⟨b, hb, rfl⟩ := exists_of_map_eq_ok h
  exact ⟨b, hb, rfl⟩

theorem analyze_error {e : Error} (h : analyze c p batch summary? a = .error e) (f : FuncId) :
    e ≠ .summaryFinalized f := by
  rw [analyze_eq] at h
  cases hb : build p batch.functions summary?
      ⟨c.preciseRecursiveCalls, 2 ≤ c.diagnosticLevel⟩ with
  | ok b =>
    rw [hb] at h
    cases h
  | error e' =>
    rw [hb] at h
    cases h
    exact build_error hb f

/-- A batch decides its declared variables and then the allocations in its bodies, each once. -/
theorem analyze_sites {r : BatchRun} (h : analyze c p batch summary? a = .ok r) :
    ∃ (ds : List Function) (is : List SiteId),
      List.Forall₂ (fun f d => p.function? f = some d) batch.functions ds ∧
      r.output.decisions.map Decision.site =
        (ds.flatMap Function.declared).map .var ++ is.map .alloc ∧
      (ds.flatMap Function.declared).Nodup ∧ is.Nodup ∧
      (is : Multiset SiteId) = allocSites (ds.flatMap fun d => bodyExprs d.stmts) := by
  obtain ⟨b, hb, rfl⟩ := analyze_eq_ok h
  obtain ⟨ds, is, hds, hsites, hrest⟩ := build_sites hb
  refine ⟨ds, is, hds, ?_, hrest⟩
  rw [← hsites]
  refine (decisions_map_site _).trans ?_
  unfold Graph.decidedSites
  exact congrArg _ (Graph.solve_roles a p _ b.graph)

/-- No site is decided twice. -/
theorem nodup_sites {r : BatchRun} (h : analyze c p batch summary? a = .ok r) :
    (r.output.decisions.map Decision.site).Nodup := by
  obtain ⟨ds, is, -, hsites, hvars, his, -⟩ := analyze_sites h
  rw [hsites, List.nodup_append]
  refine ⟨hvars.map fun _ _ => Site.var.inj, his.map fun _ _ => Site.alloc.inj, ?_⟩
  intro a ha a' ha' heq
  obtain ⟨v, -, rfl⟩ := List.mem_map.1 ha
  obtain ⟨i, -, rfl⟩ := List.mem_map.1 ha'
  cases heq

end BatchRun

end EscapeFlow
