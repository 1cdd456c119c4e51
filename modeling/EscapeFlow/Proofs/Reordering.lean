import EscapeFlow.Proofs.Agreement
import EscapeFlow.Proofs.PreciseCalls
import EscapeFlow.Proofs.Statements
import Mathlib

/-!
# Statements in another order

The analysis does not look at the order of statements.  `Reordered xs ys` says that `ys` is `xs`
with one list of statements in another order, which may stand anywhere inside and has no labels or
jumps.  Then both do the same as each other:

    Reordered xs ys → Within xs ys                                         (Reordered.within)

and a batch gets the same decisions and summaries (`analyze_reordered`), if it declares no variable
twice.  For a variable with two declarations, the order decides which depth it has.

A statement is followed where the other build comes to it.  What is known of the locations of that
build is forgotten for the next statement, which may come earlier there
(`Target.Follows.forM_of_subset`).
-/

namespace EscapeFlow

open BatchGraph Build

/-! ## Reordering -/

/-- A list of statements inside a statement. -/
inductive Encloses : (List Stmt → Stmt) → Prop
  | thenBody (cond : Expr) (e : List Stmt) : Encloses fun xs => .ifElse cond xs e
  | elseBody (cond : Expr) (t : List Stmt) : Encloses fun xs => .ifElse cond t xs
  | loop (cond : Option Expr) : Encloses fun xs => .loop cond xs
  | block : Encloses fun xs => .block xs

/-- A list of statements without labels and jumps, somewhere inside, is in another order. -/
inductive Reordered : List Stmt → List Stmt → Prop
  | perm {xs ys : List Stmt} (perm : xs.Perm ys) (straight : jumps xs = []) : Reordered xs ys
  | inside {f : List Stmt → Stmt} (encloses : Encloses f) (pre post : List Stmt)
    {xs ys : List Stmt} (h : Reordered xs ys) :
    Reordered (pre ++ f xs :: post) (pre ++ f ys :: post)

/-- Declarations in the bodies of functions, one for each variable. -/
def Program.DeclaresOnce (p : Program) (fs : List FuncId) : Prop :=
  ((fs.dedup.filterMap p.function?).flatMap fun d =>
    (bodyStmts d.stmts).filterMap Stmt.declared?).Nodup

instance (p : Program) (fs : List FuncId) : Decidable (p.DeclaresOnce fs) :=
  inferInstanceAs (Decidable (List.Nodup _))

/-! ## Following in another order -/

/-- The first build went on, and what is known of the second is as it was. -/
def World.withImages (W W' : World) : World := ⟨W'.images, W.known, W'.sinks, W.three_le⟩

/-- A run through a list comes to each of its elements. -/
theorem Build.exists_run_of_mem {ι : Type} {g : ι → Build Unit} [hg : ∀ j, Respects Evolves (g j)]
    {ys : List ι} {c c₁ : BatchGraph} {u : Unit} (hc : c.Tabled)
    (h : (ys.forM g).run c = .ok (u, c₁)) {j : ι} (hj : j ∈ ys) :
    ∃ c₀ c', c₀.Tabled ∧ c.Keeps c₀ ∧ (g j).run c₀ = .ok ((), c') ∧ c'.Keeps c₁ := by
  induction ys generalizing c with
  | nil => cases hj
  | cons y ys ih =>
    obtain ⟨⟨⟩, c₂, h₁, h₂⟩ := run_bind_eq_ok (x := g y) (f := fun _ => ys.forM g) h
    obtain ⟨hk, hc₂⟩ := (hg y).run h₁ hc
    rcases List.mem_cons.1 hj with rfl | hj
    · obtain ⟨hk₂, -⟩ := (inferInstance : Respects Evolves (ys.forM g)).run h₂ hc₂
      exact ⟨c, c₂, hc, .refl c, h₁, hk₂⟩
    · obtain ⟨c₀, c', hc₀, hk₀, hrun, hk'⟩ := ih hc₂ h₂ hj
      exact ⟨c₀, c', hc₀, hk.trans hk₀, hrun, hk'⟩

theorem Target.Follows.forM_of_subset {T : Target} {W : World} {ι : Type} {f g : ι → Build Unit}
    [∀ j, Respects Evolves (g j)] {xs ys : List ι} (hsub : xs ⊆ ys)
    (h : ∀ i ∈ xs, ∀ W', W ≤ W' → T.Follows W' done (f i) (g i)) :
    T.Follows W done (xs.forM f) (ys.forM g) := by
  intro b c _ b₁ _ c₁ hb hc hn hrun hrun' hkeeps
  obtain ⟨hk, -⟩ := (inferInstance : Respects Evolves (ys.forM g)).run hrun' hc
  -- along `xs` the images grow, and what is known of the second build stays
  have hgo : ∀ V : World, W ≤ V → V.known = W.known → T.Embeds V.images b →
      ∃ V' : World, W ≤ V' ∧ V'.known = W.known ∧ T.Embeds V'.images b₁ := by
    clear hb
    induction xs generalizing b with
    | nil =>
      cases hrun
      exact fun V hV hknown hb => ⟨V, hV, hknown, hb⟩
    | cons x xs ih =>
      intro V hV hknown hb
      obtain ⟨⟨⟩, b₂, h₁, h₂⟩ := run_bind_eq_ok (x := f x) (f := fun _ => xs.forM f) hrun
      obtain ⟨c₀, c', hc₀, hk₀, hrun₀, hk'⟩ :=
        exists_run_of_mem hc hrun' (hsub List.mem_cons_self)
      have hn₀ : V.known ≤ c₀.graph.size := by
        rw [hknown]
        exact Nat.le_trans hn hk₀.size
      obtain ⟨V', hV', -, hb₂, -⟩ := h x List.mem_cons_self V hV b c₀ () b₂ () c' hb hc₀ hn₀ h₁
        hrun₀ (hk'.trans hkeeps)
      exact ih (fun i hi => hsub (List.mem_cons_of_mem x hi))
        (fun i hi => h i (List.mem_cons_of_mem x hi)) b₂ h₂ (W.withImages V')
        ⟨hV.1.trans hV'.1, Nat.le_refl _⟩ rfl hb₂
  obtain ⟨V', hV', hknown, hb₁⟩ := hgo W W.le_refl rfl hb
  refine ⟨V', hV', ?_, hb₁, trivial⟩
  rw [hknown]
  exact Nat.le_trans hn hk.size

/-! ## What a reordered body does -/

theorem jumps_of_perm {xs ys : List Stmt} (h : xs.Perm ys) (hx : jumps xs = []) :
    jumps ys = [] := by
  have hperm : ((bodyStmts xs).filter Stmt.isJump).Perm ((bodyStmts ys).filter Stmt.isJump) := by
    rw [Stmt.bodyStmts_eq_flatMap, Stmt.bodyStmts_eq_flatMap]
    exact (h.flatMap_right _).filter _
  unfold jumps at hx ⊢
  rw [hx] at hperm
  exact hperm.nil_eq.symm

namespace Encloses

variable {f : List Stmt → Stmt} (hf : Encloses f)

include hf

/-- The statement itself neither jumps nor assigns. -/
theorem bare (xs : List Stmt) : (f xs).isJump = false ∧ (f xs).assignedVars = [] ∧
    ∀ looping d, depthAfter looping d (f xs) = d := by
  cases hf <;> exact ⟨rfl, rfl, fun _ _ => rfl⟩

theorem inner_eq : ∃ zs zs', ∀ xs, (f xs).inner = f xs :: (zs ++ bodyStmts xs ++ zs') := by
  cases hf with
  | thenBody cond e => exact ⟨[], bodyStmts e, fun xs => Stmt.inner_ifElse cond xs e⟩
  | elseBody cond t =>
    refine ⟨bodyStmts t, [], fun xs => ?_⟩
    rw [List.append_nil]
    exact Stmt.inner_ifElse cond t xs
  | loop cond =>
    refine ⟨[], [], fun xs => ?_⟩
    rw [List.append_nil]
    exact Stmt.inner_loop cond xs
  | block =>
    refine ⟨[], [], fun xs => ?_⟩
    rw [List.append_nil]
    exact Stmt.inner_block xs

theorem parts_eq : ∃ es es', ∀ xs, (f xs).parts = es ++ bodyExprs xs ++ es' := by
  cases hf with
  | thenBody cond e =>
    refine ⟨cond.nodes, bodyExprs e, fun xs => ?_⟩
    rw [Stmt.parts_ifElse, List.append_assoc]
  | elseBody cond t =>
    refine ⟨cond.nodes ++ bodyExprs t, [], fun xs => ?_⟩
    rw [Stmt.parts_ifElse, List.append_nil, List.append_assoc]
  | loop cond =>
    refine ⟨Expr.nodesOfList cond.toList, [], fun xs => ?_⟩
    rw [Stmt.parts_loop, List.append_nil]
  | block =>
    refine ⟨[], [], fun xs => ?_⟩
    rw [Stmt.parts_block, List.append_nil, List.nil_append]

theorem declDepths_eq (looping : List LabelId) (d : Nat) : ∃ es es' d', ∀ xs,
    (f xs).declDepths looping d = es ++ Stmt.declDepthsOfList looping d' xs ++ es' := by
  cases hf with
  | thenBody cond e =>
    refine ⟨[], Stmt.declDepthsOfList looping d e, d, fun xs => ?_⟩
    rw [Stmt.declDepths, List.nil_append]
  | elseBody cond t =>
    refine ⟨Stmt.declDepthsOfList looping d t, [], d, fun xs => ?_⟩
    rw [Stmt.declDepths, List.append_nil]
  | loop cond =>
    refine ⟨[], [], d + 1, fun xs => ?_⟩
    rw [Stmt.declDepths, List.append_nil, List.nil_append]
  | block =>
    refine ⟨[], [], d, fun xs => ?_⟩
    rw [Stmt.declDepths, List.append_nil, List.nil_append]

theorem follows {s s' : Scene} (S : s.Widens s') {T : Target} {looping : List LabelId}
    {xs ys : List Stmt} (h : ∀ {W} pl,
      T.Follows W Target.Follows.done (stmts s looping pl xs) (stmts s' looping pl ys))
    {W : World} (pl : Place) :
    T.Follows W Target.Follows.done (stmt s looping pl (f xs)) (stmt s' looping pl (f ys)) := by
  cases hf with
  | thenBody cond e =>
    rw [stmt, stmt]
    refine (S.follows_value pl cond W.leads_discard).seq fun _ _ => ?_
    exact (h pl).seq fun _ _ => S.follows_stmts looping e pl
  | elseBody cond t =>
    rw [stmt, stmt]
    refine (S.follows_value pl cond W.leads_discard).seq fun _ _ => ?_
    exact (S.follows_stmts looping t pl).seq fun _ _ => h pl
  | loop cond =>
    rw [stmt_loop, stmt_loop]
    exact (S.follows_guarding _ cond).seq fun _ _ => h _
  | block =>
    rw [stmt, stmt]
    exact h pl

end Encloses

namespace Reordered

variable {xs ys : List Stmt}

theorem symm (h : Reordered xs ys) : Reordered ys xs := by
  induction h with
  | perm perm straight => exact .perm perm.symm (jumps_of_perm perm straight)
  | inside encloses pre post _ ih => exact .inside encloses pre post ih

theorem jumps_eq (h : Reordered xs ys) : jumps ys = jumps xs := by
  induction h with
  | perm perm straight => rw [jumps_of_perm perm straight, straight]
  | @inside f encloses pre post xs ys _ ih =>
    have hf : (f ys).inner.filter Stmt.isJump = (f xs).inner.filter Stmt.isJump := by
      have hbare : ∀ zs, ¬ (f zs).isJump = true := fun zs => by
        rw [(encloses.bare zs).1]
        exact Bool.false_ne_true
      obtain ⟨zs, zs', hinner⟩ := encloses.inner_eq
      unfold jumps at ih
      rw [hinner, hinner, List.filter_cons_of_neg (hbare ys), List.filter_cons_of_neg (hbare xs),
        List.filter_append, List.filter_append, List.filter_append, List.filter_append, ih]
    rw [jumps_append, jumps_append, jumps_cons, jumps_cons, hf]

/-- What is collected from statements, each at its depth, is collected in any order. -/
theorem subset {α : Type} {m : Nat → List Stmt → List α}
    (hperm : ∀ d {xs ys : List Stmt}, xs.Perm ys → jumps xs = [] → m d xs ⊆ m d ys)
    (hinside : ∀ {f}, Encloses f → ∀ d pre post, ∃ as as' d', ∀ xs,
      m d (pre ++ f xs :: post) = as ++ m d' xs ++ as')
    (h : Reordered xs ys) (d : Nat) : m d xs ⊆ m d ys := by
  induction h generalizing d with
  | perm perm straight => exact hperm d perm straight
  | inside encloses pre post _ ih =>
    obtain ⟨as, as', d', heq⟩ := hinside encloses d pre post
    intro a ha
    rw [heq, List.mem_append, List.mem_append] at ha ⊢
    exact ha.imp_left (·.imp_right (ih d' ·))

theorem assigned_subset (h : Reordered xs ys) :
    (bodyStmts xs).flatMap Stmt.assignedVars ⊆ (bodyStmts ys).flatMap Stmt.assignedVars := by
  refine h.subset (m := fun _ xs => (bodyStmts xs).flatMap Stmt.assignedVars) ?_ ?_ 0
  · intro _ xs ys perm _
    rw [Stmt.bodyStmts_eq_flatMap, Stmt.bodyStmts_eq_flatMap]
    exact ((perm.flatMap_right _).flatMap_right _).subset
  · intro f encloses d pre post
    obtain ⟨zs, zs', hinner⟩ := encloses.inner_eq
    refine ⟨(bodyStmts pre ++ zs).flatMap Stmt.assignedVars,
      (zs' ++ bodyStmts post).flatMap Stmt.assignedVars, d, fun xs => ?_⟩
    rw [Stmt.bodyStmts_append, Stmt.bodyStmts_cons, hinner]
    simp only [List.flatMap_append, List.flatMap_cons, (encloses.bare xs).2.1, List.nil_append,
      List.append_assoc]

theorem bodyExprs_subset (h : Reordered xs ys) : bodyExprs xs ⊆ bodyExprs ys := by
  refine h.subset (m := fun _ xs => bodyExprs xs) ?_ ?_ 0
  · intro _ xs ys perm _
    rw [Stmt.bodyExprs_eq_flatMap, Stmt.bodyExprs_eq_flatMap]
    exact (perm.flatMap_right _).subset
  · intro f encloses d pre post
    obtain ⟨es, es', hparts⟩ := encloses.parts_eq
    refine ⟨bodyExprs pre ++ es, es' ++ bodyExprs post, d, fun xs => ?_⟩
    rw [Stmt.bodyExprs_append, Stmt.bodyExprs_cons, hparts]
    simp only [List.append_assoc]

theorem declDepths_subset (h : Reordered xs ys) (looping : List LabelId) (d : Nat) :
    Stmt.declDepthsOfList looping d xs ⊆ Stmt.declDepthsOfList looping d ys := by
  refine h.subset (m := Stmt.declDepthsOfList looping) ?_ ?_ d
  · intro d xs ys perm straight
    rw [declDepths_eq_flatMap straight, declDepths_eq_flatMap (jumps_of_perm perm straight)]
    exact (perm.flatMap_right _).subset
  · intro f encloses d pre post
    obtain ⟨es, es', d', hdepths⟩ :=
      encloses.declDepths_eq looping (depthAfterList looping d pre)
    refine ⟨Stmt.declDepthsOfList looping d pre ++ es, es' ++ Stmt.declDepthsOfList looping
      (depthAfterList looping d pre) post, d', fun xs => ?_⟩
    rw [declDepths_append, Stmt.declDepthsOfList, hdepths, (encloses.bare xs).2.2]
    simp only [List.append_assoc]

theorem follows (h : Reordered xs ys) {s s' : Scene} (S : s.Widens s') {T : Target} {W : World}
    (looping : List LabelId) (pl : Place) :
    T.Follows W Target.Follows.done (stmts s looping pl xs) (stmts s' looping pl ys) := by
  induction h generalizing W pl with
  | perm perm straight =>
    rw [stmts_eq_forM straight, stmts_eq_forM (jumps_of_perm perm straight)]
    exact .forM_of_subset perm.subset fun x _ _ _ => S.follows_stmt looping x pl
  | @inside f encloses pre post xs ys _ ih =>
    rw [stmts_append, stmts_append, stmts, stmts, (encloses.bare xs).2.2, (encloses.bare ys).2.2]
    refine (S.follows_stmts looping pre pl).seq fun _ _ => ?_
    exact (encloses.follows S ih _).seq fun _ _ => S.follows_stmts looping post _

/-- A reordered body does all that the body does. -/
theorem within (h : Reordered xs ys) : Within xs ys where
  looping := loopingLabels_congr h.jumps_eq
  assigned := h.assigned_subset
  addressed := List.filterMap_subset _ h.bodyExprs_subset
  follows S _ _ := h.follows S

/-! ## Declarations -/

theorem declDepths_subset_of_recast (h : Reordered xs ys) {d d' : Function}
    (hd : d.Recast xs ys d') : d.declDepths ⊆ d'.declDepths := by
  refine hd.stmts (R := fun xs ys => Stmt.declDepthsOfList (loopingLabels xs) 0 xs ⊆
    Stmt.declDepthsOfList (loopingLabels ys) 0 ys) (fun _ => List.Subset.refl _) ?_
  rw [loopingLabels_congr h.jumps_eq]
  exact h.declDepths_subset _ 0

theorem batch_declDepths_subset (h : Reordered xs ys) {p p' : Program} (hp : p.Recasts xs ys p')
    (fs : List FuncId) : p.declDepths fs ⊆ p'.declDepths fs := by
  intro e he
  obtain ⟨d, hd, he⟩ := List.mem_flatMap.1 he
  obtain ⟨f, hf, hd⟩ := List.mem_filterMap.1 hd
  rcases hp.function?_cases f with ⟨hn, -⟩ | ⟨d₁, d', hd₁, hd', hrecast⟩
  · rw [hn] at hd
    cases hd
  · obtain rfl : d₁ = d := Option.some.inj (hd₁.symm.trans hd)
    exact List.mem_flatMap.2 ⟨d', List.mem_filterMap.2 ⟨f, hf, hd'⟩,
      h.declDepths_subset_of_recast hrecast he⟩

end Reordered

/-- A variable that is declared once has one depth. -/
theorem Program.DeclaresOnce.depth_unique {p : Program} {fs : List FuncId} (h : p.DeclaresOnce fs)
    (v : VarId) (d d' : Nat) (hd : (v, d) ∈ p.declDepths fs) (hd' : (v, d') ∈ p.declDepths fs) :
    d = d' := by
  have hdedup : ∀ e, e ∈ p.declDepths fs → e ∈ p.declDepths fs.dedup := by
    intro e he
    obtain ⟨decl, hdecl, he⟩ := List.mem_flatMap.1 he
    obtain ⟨f, hf, hdecl⟩ := List.mem_filterMap.1 hdecl
    exact List.mem_flatMap.2
      ⟨decl, List.mem_filterMap.2 ⟨f, List.mem_dedup.2 hf, hdecl⟩, he⟩
  have hnodup : ((p.declDepths fs.dedup).map Prod.fst).Nodup := by
    unfold Program.declDepths
    rw [List.map_flatMap]
    simp only [Function.declDepths, Stmt.declDepthsOfList_fst]
    exact h
  exact congrArg Prod.snd (List.inj_on_of_nodup_map hnodup (hdedup _ hd) (hdedup _ hd') rfl)

/-! ## Decisions and summaries -/

/-- A batch that declares each variable once gets the same decisions and summaries whatever the
order of statements. -/
theorem analyze_reordered (c : Config) (hc : c.maxWalkRounds = 0) (p : Program) (batch : Batch)
    (summary? : FuncId → Option Summary) {f : FuncId} {decl : Function} {xs ys : List Stmt}
    (hf : p.function? f = some decl) (hbody : decl.body = some xs) (h : Reordered xs ys)
    (honce : p.DeclaresOnce batch.functions) {r r' : BatchRun}
    (hr : BatchRun.analyze c p batch summary? = .ok r)
    (hr' : BatchRun.analyze c (p.withBody f ys) batch summary? = .ok r') :
    r'.output.decisions.Perm r.output.decisions ∧ r'.output.summaries = r.output.summaries := by
  have hp := Program.recasts_withBody hf hbody ys
  refine output_eq_of_within hp h.within (fun v => ?_) hc hr hr' h.symm.within
  refine depthOf_congr (fun e => ⟨?_, ?_⟩) honce.depth_unique v 0
  · exact fun he => h.batch_declDepths_subset hp _ he
  · exact fun he => h.symm.batch_declDepths_subset hp.symm _ he

/-- A loop that declares a variable with the address of the parameter and stores it in a global. -/
def declaringLoop : Program where
  functions := #[
    { id := ⟨0⟩
      name := "f"
      params := [⟨1⟩]
      locals := [⟨2⟩]
      body := some [.loop none [.decl ⟨2⟩ (some (.addrOf (.ident ⟨1⟩))),
        .assign [.ident ⟨0⟩] [.ident ⟨2⟩]]] }]
  vars := #[⟨⟨0⟩, "g", .globalVar, none⟩, ⟨⟨1⟩, "x", .param, some ⟨0⟩⟩,
    ⟨⟨2⟩, "y", .localVar, some ⟨0⟩⟩]
  sites := #[]

/-- The parameter is on the heap also if the variable is stored before it is declared. -/
theorem analyze_reordered_declaringLoop :
    ∃ r r' : BatchRun,
      BatchRun.analyze (Config.ofPreset .custom) declaringLoop storingBatch (fun _ => none) =
        .ok r ∧
      BatchRun.analyze (Config.ofPreset .custom)
        (declaringLoop.withBody ⟨0⟩ [.loop none [.assign [.ident ⟨0⟩] [.ident ⟨2⟩],
          .decl ⟨2⟩ (some (.addrOf (.ident ⟨1⟩)))]]) storingBatch (fun _ => none) = .ok r' ∧
      (∃ d ∈ r'.output.decisions, d.site = .var ⟨1⟩ ∧ d.isHeap = true) ∧
      r'.output.decisions.Perm r.output.decisions ∧
      r'.output.summaries = r.output.summaries := by
  have hr : (BatchRun.analyze (Config.ofPreset .custom) declaringLoop storingBatch
      (fun _ => none)).map (·.output.decisions) = .ok [
        ⟨.var ⟨1⟩, some ⟨0⟩, .heap, .all, false⟩, ⟨.var ⟨2⟩, some ⟨0⟩, .stack, ⟨14⟩, false⟩] := by
    cbv
  have hr' : (BatchRun.analyze (Config.ofPreset .custom)
      (declaringLoop.withBody ⟨0⟩ [.loop none [.assign [.ident ⟨0⟩] [.ident ⟨2⟩],
        .decl ⟨2⟩ (some (.addrOf (.ident ⟨1⟩)))]]) storingBatch
      (fun _ => none)).map (fun _ => ()) = .ok () := by cbv
  obtain ⟨r, hr, hdecisions⟩ := exists_of_map_eq_ok hr
  obtain ⟨r', hr', -⟩ := exists_of_map_eq_ok hr'
  have hreordered : Reordered
      [.loop none [.decl ⟨2⟩ (some (.addrOf (.ident ⟨1⟩))), .assign [.ident ⟨0⟩] [.ident ⟨2⟩]]]
      [.loop none [.assign [.ident ⟨0⟩] [.ident ⟨2⟩], .decl ⟨2⟩ (some (.addrOf (.ident ⟨1⟩)))]] :=
    .inside (.loop none) [] [] (.perm (.swap _ _ _) rfl)
  have hsame := analyze_reordered _ rfl _ _ _ rfl rfl hreordered (by decide) hr hr'
  refine ⟨r, r', hr, hr', ⟨⟨.var ⟨1⟩, some ⟨0⟩, .heap, .all, false⟩, ?_, rfl, rfl⟩, hsame⟩
  rw [hsame.1.mem_iff, hdecisions]
  decide

end EscapeFlow
