import EscapeFlow.Proofs.Lockstep

/-!
# Bodies in two builds

What holds of elementary steps holds of everything that building is made of, by induction over
expressions and statements:

    Lockstep c s s' → c.Holes k k' → c.Steps m (allocSites e.nodes) …
      (value s pl k e) (value s' pl k' e)                                       (value_steps)
    Lockstep c s s' → c.Steps m (allocSites (bodyExprs f.stmts)) …
      (body s f) (body s' f)                                                     (body_steps)

So every allocation in a body is gone through just once, be it in a value or in a target.
-/

namespace EscapeFlow

namespace Lockstep

open Build Coupling BatchGraph

variable {c : Coupling} {s s' : Scene} (L : Lockstep c s s') {m : Nat}

include L

/-! ## Expressions -/

theorem capture_steps {k k' : Hole} (hk : c.Holes k k') (v : VarId) :
    c.Steps m 0 (fun _ _ _ => True) (capture s k v) (capture s' k' v) := by
  unfold capture
  refine (L.isGlobal_steps v).bind (zero_add _) fun g g' _ _ hg => ?_
  rw [hg.1]
  split
  · refine (L.varLoc_steps v).bind (zero_add _) fun l l' m₁ _ hl => ?_
    obtain ⟨rfl, hl⟩ := hl
    refine (update_steps l' (L.captured l')).seq (zero_add _) fun m₂ hm₂ => ?_
    rw [L.reassigned, L.addrTaken]
    dsimp only
    split
    · exact (L.shift_steps hk (-1)).bind (zero_add _) fun h h' _ hm₃ hh =>
        L.flow_steps (L.note _ hh) ⟨rfl, hl.1, hl.2.trans_le (hm₂.trans hm₃)⟩
    · exact L.flow_steps (L.note _ hk) ⟨rfl, hl.1, hl.2.trans_le hm₂⟩
  · exact .pure fun _ _ => trivial

omit L

mutual

/-- Evaluating an expression goes through its allocations. -/
theorem value_steps (L : Lockstep c s s') (pl : c.Spot) (e : Expr) {k k' : Hole}
    (hk : c.Holes k k') {m : Nat} (he : CallsOnly c.Callee e.nodes) :
    c.Steps m (allocSites e.nodes) (fun _ _ _ => True) (value s pl k e) (value s' pl k' e) := by
  match e, he with
  | .ident v, _ =>
    rw [value, value]
    refine (L.isGlobal_steps v).bind (zero_add _) fun g g' _ _ hg => ?_
    rw [hg.1]
    split
    · exact (L.varLoc_steps v).bind (zero_add _) fun l l' _ _ hl => L.flow_steps hk hl
    · exact .pure fun _ _ => trivial
  | .literal _, _ | .funcRef _, _ =>
    rw [value, value]
    exact .pure fun _ _ => trivial
  | .addrOf e, he =>
    rw [value, value, Expr.nodes, allocSites_cons_of_none rfl]
    split
    · refine (L.newTemp_steps pl false).bind (zero_add _) fun l l' _ _ hl => ?_
      refine (L.shift_steps hk (-1)).bind (zero_add _) fun h h' _ hm hh => ?_
      refine (L.flow_steps (L.note _ hh) ⟨hl.1, hl.2.1, hl.2.2.trans_le hm⟩).seq
        (zero_add _) fun _ _ => ?_
      rw [hl.1]
      exact L.value_steps pl e (L.ofLoc l) he.tail
    · exact (L.shift_steps hk (-1)).bind (zero_add _) fun h h' _ _ hh =>
        L.value_steps pl e (L.note _ hh) he.tail
  | .deref e, he =>
    rw [value, value, Expr.nodes, allocSites_cons_of_none rfl]
    exact (L.shift_steps hk 1).bind (zero_add _) fun h h' _ _ hh =>
      L.value_steps pl e (L.note _ hh) he.tail
  | .field e _, he =>
    rw [value, value, Expr.nodes, allocSites_cons_of_none rfl]
    exact L.value_steps pl e (L.note _ hk) he.tail
  | .ptrField e _, he =>
    rw [value, value, Expr.nodes, allocSites_cons_of_none rfl]
    exact (L.shift_steps hk 1).bind (zero_add _) fun h h' _ _ hh =>
      L.value_steps pl e (L.note _ hh) he.tail
  | .index .array e i, he =>
    rw [value, value, Expr.nodes, allocSites_cons_of_none rfl, allocSites_append]
    exact (L.value_steps pl e (L.note _ hk) he.tail.left).seq rfl fun _ _ =>
      L.value_steps pl i L.discard he.tail.right
  | .index .slice e i, he =>
    rw [value, value, Expr.nodes, allocSites_cons_of_none rfl, allocSites_append]
    refine (L.shift_steps hk 1).bind (zero_add _) fun h h' _ _ hh => ?_
    exact (L.value_steps pl e (L.note _ hh) he.tail.left).seq rfl fun _ _ =>
      L.value_steps pl i L.discard he.tail.right
  | .index .map e i, he | .binary e i, he =>
    rw [value, value, Expr.nodes, allocSites_cons_of_none rfl, allocSites_append]
    exact (L.value_steps pl e L.discard he.tail.left).seq rfl fun _ _ =>
      L.value_steps pl i L.discard he.tail.right
  | .call callee args, he =>
    rw [value, value, Expr.nodes, allocSites_cons_of_none rfl, allocSites_append]
    have hks : Option.Rel (List.Forall₂ c.Holes) (some [k]) (some [k']) := .some (.cons hk .nil)
    refine (L.wireResults_steps hks _).seq (zero_add _) fun _ _ => ?_
    refine (L.calleeHole_steps pl .plain callee).bind (zero_add _)
      fun h h' _ _ hh => ?_
    refine (L.value_steps pl callee (L.note _ hh) he.tail.left).seq rfl fun _ _ => ?_
    exact L.arguments_steps pl .plain hks (he _ List.mem_cons_self) 0 args he.tail.right
  | .new i, _ =>
    rw [value, value, Expr.nodes, allocSites_cons_of_some rfl]
    exact (L.spill_steps pl hk i).bind rfl fun _ _ _ _ _ => .pure fun _ _ => trivial
  | .composite kind i es, he =>
    rw [value, value, Expr.nodes, allocSites_cons_of_some rfl]
    exact (L.compositeHole_steps pl hk i kind).bind rfl fun h h' _ _ hh =>
      L.elements_steps pl (L.note _ hh) es he.tail
  | .mapLit i es, he =>
    rw [value, value, Expr.nodes, allocSites_cons_of_some rfl]
    refine Steps.seq (Q := fun _ _ _ => True) rfl ((L.spill_steps pl hk i).bind (add_zero _)
      fun _ _ _ _ _ => .pure fun _ _ => trivial) fun _ _ => ?_
    exact L.mapEntries_steps pl es he.tail
  | .closure i f, he =>
    rw [value, value, Expr.nodes, allocSites_cons_of_some rfl]
    refine (L.spill_steps pl hk i).bind rfl fun h h' _ _ hh => ?_
    refine (L.function_steps f).bind (zero_add _) fun d d' _ _ hd => ?_
    rw [hd.1]
    exact Steps.forM_zero d.captures fun v _ _ _ => L.capture_steps hh v

theorem arguments_steps (L : Lockstep c s s') (pl : c.Spot) (mode : CallMode)
    {ks ks' : Option (List Hole)} (hks : Option.Rel (List.Forall₂ c.Holes) ks ks')
    {callee : Option FuncId} (hcallee : ∀ f, callee = some f → c.Callee f) (i : Nat)
    (es : List Expr) {m : Nat}
    (hes : CallsOnly c.Callee (Expr.nodesOfList es)) :
    c.Steps m (allocSites (Expr.nodesOfList es)) (fun _ _ _ => True)
      (arguments s pl mode ks callee i es) (arguments s' pl mode ks' callee i es) := by
  match es, hes with
  | [], _ =>
    rw [arguments, arguments]
    exact .pure fun _ _ => trivial
  | e :: es, hes =>
    rw [arguments, arguments, Expr.nodesOfList, allocSites_append]
    refine (L.argHole_steps pl mode hks hcallee i).bind (zero_add _)
      fun h h' _ _ hh => ?_
    exact (L.value_steps pl e (L.note _ hh) hes.left).seq rfl fun _ _ =>
      L.arguments_steps pl mode hks hcallee (i + 1) es hes.right

theorem elements_steps (L : Lockstep c s s') (pl : c.Spot) {k k' : Hole}
    (hk : c.Holes k k') (es : List Expr) {m : Nat}
    (hes : CallsOnly c.Callee (Expr.nodesOfList es)) :
    c.Steps m (allocSites (Expr.nodesOfList es)) (fun _ _ _ => True)
      (elements s pl k es) (elements s' pl k' es) := by
  match es, hes with
  | [], _ =>
    rw [elements, elements]
    exact .pure fun _ _ => trivial
  | e :: es, hes =>
    rw [elements, elements, Expr.nodesOfList, allocSites_append]
    exact (L.value_steps pl e hk hes.left).seq rfl fun _ _ => L.elements_steps pl hk es hes.right

theorem mapEntries_steps (L : Lockstep c s s') (pl : c.Spot) (es : List (Expr × Expr)) {m : Nat}
    (hes : CallsOnly c.Callee (Expr.nodesOfEntries es)) :
    c.Steps m (allocSites (Expr.nodesOfEntries es)) (fun _ _ _ => True)
      (mapEntries s pl es) (mapEntries s' pl es) := by
  match es, hes with
  | [], _ =>
    rw [mapEntries, mapEntries]
    exact .pure fun _ _ => trivial
  | (key, val) :: es, hes =>
    rw [mapEntries, mapEntries, Expr.nodesOfEntries, allocSites_append, allocSites_append]
    refine (L.value_steps pl key (L.note _ (L.ofLoc _)) hes.left).seq rfl fun _ _ => ?_
    exact (L.value_steps pl val (L.note _ (L.ofLoc _)) hes.right.left).seq rfl fun _ _ =>
      L.mapEntries_steps pl es hes.right.right

end

include L

theorem call_steps (pl : c.Spot) (mode : CallMode) {ks ks' : Option (List Hole)}
    (hks : Option.Rel (List.Forall₂ c.Holes) ks ks') (callee : Expr) (args : List Expr)
    (he : CallsOnly c.Callee (Expr.call callee args).nodes) :
    c.Steps m (allocSites (Expr.call callee args).nodes) (fun _ _ _ => True)
      (call s pl mode ks callee args) (call s' pl mode ks' callee args) := by
  rw [Expr.nodes] at he ⊢
  rw [allocSites_cons_of_none rfl, allocSites_append]
  unfold call
  refine (L.wireResults_steps hks _).seq (zero_add _) fun _ _ => ?_
  refine (L.calleeHole_steps pl mode callee).bind (zero_add _) fun h h' _ _ hh => ?_
  refine (L.value_steps pl callee (L.note _ hh) he.tail.left).seq rfl fun _ _ => ?_
  exact L.arguments_steps pl mode hks (he _ List.mem_cons_self) 0 args he.tail.right

theorem mutate_steps (pl : c.Spot) (e : Expr) (he : CallsOnly c.Callee e.nodes) :
    c.Steps m (allocSites e.nodes) (fun _ _ _ => True) (mutate s pl e) (mutate s' pl e) :=
  L.value_steps pl e (L.note _ (L.ofLoc _)) he

/-- Finding the place to store into goes through the allocations of the target. -/
theorem target_steps (pl : c.Spot) (e : Expr) (he : CallsOnly c.Callee e.nodes) :
    c.Steps m (allocSites e.nodes) (fun h h' _ => c.Holes h h') (target s pl e)
      (target s' pl e) := by
  induction e using target.induct generalizing m with
  | case1 v =>
    rw [target, target]
    refine (L.isGlobal_steps v).bind (zero_add _) fun g g' _ _ hg => ?_
    obtain ⟨rfl, decl, hv, hglobal⟩ := hg
    by_cases hg : g' = true
    · rw [if_pos hg]
      refine (L.globalLoc_steps hv (hglobal.trans hg)).bind (zero_add _)
        fun l l' _ _ hl => ?_
      rw [hl]
      exact .pure fun _ _ => L.ofLoc l
    · rw [if_neg hg]
      refine (L.varLoc_steps v).bind (zero_add _) fun l l' _ _ hl => ?_
      rw [hl.1]
      exact .pure fun _ _ => L.ofLoc l
  | case2 base name ih =>
    rw [target, target, Expr.nodes, allocSites_cons_of_none rfl]
    exact ih he.tail
  | case3 base i ih =>
    rw [target, target, Expr.nodes, allocSites_cons_of_none rfl, allocSites_append]
    exact (L.value_steps pl i L.discard he.tail.right).seq (add_comm _ _) fun _ _ =>
      ih he.tail.left
  | case4 base i =>
    rw [target, target, Expr.nodes, allocSites_cons_of_none rfl, allocSites_append]
    refine (L.value_steps pl i L.discard he.tail.right).seq (add_comm _ _) fun _ _ => ?_
    exact (L.mutate_steps pl base he.tail.left).seq (add_zero _) fun _ _ =>
      .pure fun _ _ => L.ofLoc _
  | case5 base i =>
    rw [target, target, Expr.nodes, allocSites_cons_of_none rfl, allocSites_append]
    refine (L.value_steps pl base L.discard he.tail.left).seq rfl fun _ _ => ?_
    exact (L.value_steps pl i (L.note _ (L.ofLoc _)) he.tail.right).seq (add_zero _)
      fun _ _ => .pure fun _ _ => L.ofLoc _
  | case6 base | case7 base name =>
    rw [target, target, Expr.nodes, allocSites_cons_of_none rfl]
    exact (L.mutate_steps pl base he.tail).seq (add_zero _)
      fun _ _ => .pure fun _ _ => L.ofLoc _
  | case8 e h₁ h₂ h₃ h₄ h₅ h₆ h₇ =>
    rw [target, target] <;> first | assumption | exact .throw nofun

/-! ## Statements -/

theorem assignPairs_steps (pl : c.Spot) (pairs : List (Expr × Expr))
    (h : ∀ p ∈ pairs, CallsOnly c.Callee (p.1.nodes ++ p.2.nodes)) :
    c.Steps m (allocSites (pairs.flatMap fun p => p.1.nodes ++ p.2.nodes)) (fun _ _ _ => True)
      (assignPairs s pl pairs) (assignPairs s' pl pairs) := by
  refine Steps.forM pairs fun p hp m' _ => ?_
  rw [allocSites_append]
  exact (L.target_steps pl p.1 (h p hp).left).bind rfl fun _ _ _ _ hk =>
    L.value_steps pl p.2 (L.note _ hk) (h p hp).right

theorem pairwise_steps (pl : c.Spot) (lhs rhs : List Expr)
    (hl : CallsOnly c.Callee (Expr.nodesOfList lhs))
    (hr : CallsOnly c.Callee (Expr.nodesOfList rhs)) :
    c.Steps m (allocSites (Expr.nodesOfList lhs) + allocSites (Expr.nodesOfList rhs))
      (fun _ _ _ => True) (assign.pairwise s pl lhs rhs) (assign.pairwise s' pl lhs rhs) := by
  unfold assign.pairwise
  split
  · next heq =>
    rw [← allocSites_zip heq]
    refine L.assignPairs_steps pl _ fun p hp => ?_
    obtain ⟨h₁, h₂⟩ := List.of_mem_zip (a := p.1) (b := p.2) hp
    exact (hl.of_mem h₁).append (hr.of_mem h₂)
  · exact .throw nofun

theorem assign_steps (pl : c.Spot) (lhs rhs : List Expr)
    (hl : CallsOnly c.Callee (Expr.nodesOfList lhs))
    (hr : CallsOnly c.Callee (Expr.nodesOfList rhs)) :
    c.Steps m (allocSites (Expr.nodesOfList lhs) + allocSites (Expr.nodesOfList rhs))
      (fun _ _ _ => True) (assign s pl lhs rhs) (assign s' pl lhs rhs) := by
  unfold assign
  split
  · next callee args =>
    split
    · rw [Expr.nodesOfList_eq_flatMap lhs]
      refine (Steps.mapM lhs fun e he _ _ => L.target_steps pl e (hl.of_mem he)).bind
        rfl fun ks ks' _ _ hks => ?_
      rw [Expr.nodesOfList_singleton] at hr ⊢
      exact L.call_steps pl .plain (.some hks) callee args hr
    · exact L.pairwise_steps pl lhs _ hl hr
  · exact L.pairwise_steps pl lhs rhs hl hr

theorem each_steps (pl : c.Spot) (values : List Expr) (decl : Function)
    (hv : CallsOnly c.Callee (Expr.nodesOfList values)) :
    c.Steps m (allocSites (Expr.nodesOfList values)) (fun _ _ _ => True)
      (ret.each s pl values decl) (ret.each s' pl values decl) := by
  unfold ret.each
  split
  · exact .throw nofun
  · next hlen =>
    rw [← flatMap_zip_snd decl.results (Nat.le_of_not_lt hlen)]
    refine Steps.forM _ fun rv hrv _ _ => ?_
    refine (L.varLoc_steps rv.1).bind (zero_add _) fun l l' _ _ hl => ?_
    rw [hl.1]
    exact L.value_steps pl rv.2 (L.note _ (L.ofLoc l))
      (hv.of_mem (List.of_mem_zip (a := rv.1) (b := rv.2) hrv).2)

theorem ret_steps (pl : c.Spot) (values : List Expr)
    (hv : CallsOnly c.Callee (Expr.nodesOfList values)) :
    c.Steps m (allocSites (Expr.nodesOfList values)) (fun _ _ _ => True)
      (ret s pl values) (ret s' pl values) := by
  unfold ret
  refine (L.function_steps pl.1.func).bind (zero_add _) fun d d' _ _ hd => ?_
  rw [hd.1]
  split
  · next callee args =>
    split
    · have hholes : ∀ m', c.Steps m' 0 (fun ks ks' _ => List.Forall₂ c.Holes ks ks')
          (d.results.mapM fun r => return Hole.ofLoc (← varLoc r))
          (d.results.mapM fun r => return Hole.ofLoc (← varLoc r)) := by
        intro m'
        refine Steps.mapM_zero d.results fun r _ _ _ => ?_
        refine (L.varLoc_steps r).bind (zero_add _) fun l l' _ _ hl => ?_
        rw [hl.1]
        exact .pure fun _ _ => L.ofLoc l
      refine (hholes _).bind (zero_add _) fun ks ks' _ _ hks => ?_
      rw [Expr.nodesOfList_singleton] at hv ⊢
      exact L.call_steps pl .plain (.some hks) callee args hv
    · exact L.each_steps pl _ d hv
  · exact L.each_steps pl values d hv

theorem spawn_steps (pl : c.Spot) (mode : CallMode) (e : Expr) (he : CallsOnly c.Callee e.nodes) :
    c.Steps m (allocSites e.nodes) (fun _ _ _ => True) (spawn s pl mode e)
      (spawn s' pl mode e) := by
  unfold spawn
  split
  · exact L.call_steps pl mode .none _ _ he
  · exact .throw nofun

theorem decl_steps (looping : List LabelId) (pl : c.Spot) (v : VarId) (init : Option Expr)
    (h : CallsOnly c.Callee (Expr.nodesOfList init.toList)) :
    c.Steps m (allocSites (Expr.nodesOfList init.toList)) (fun _ _ _ => True)
      (stmt s looping pl (.decl v init)) (stmt s' looping pl (.decl v init)) := by
  rw [stmt, stmt]
  refine (L.varLoc_steps v).bind (zero_add _) fun l l' _ _ hl => ?_
  obtain ⟨rfl, -⟩ := hl
  refine (update_steps l' (L.depth l' pl.1.depth)).seq (zero_add _) fun _ _ => ?_
  cases init with
  | none => exact .pure fun _ _ => trivial
  | some e =>
    rw [Option.toList_some, Expr.nodesOfList_singleton] at h ⊢
    exact L.value_steps pl e (L.note _ (L.ofLoc _)) h

/-- An expression that stands alone: the results of a call are not taken. -/
theorem expr_steps (looping : List LabelId) (pl : c.Spot) (e : Expr)
    (h : CallsOnly c.Callee e.nodes) :
    c.Steps m (allocSites e.nodes) (fun _ _ _ => True)
      (stmt s looping pl (.expr e)) (stmt s' looping pl (.expr e)) := by
  by_cases hcall : ∃ callee args, e = .call callee args
  · obtain ⟨callee, args, rfl⟩ := hcall
    rw [stmt, stmt]
    exact L.call_steps pl .plain .none callee args h
  · have hne : ∀ callee args, e ≠ .call callee args := fun callee args he =>
      hcall ⟨callee, args, he⟩
    rw [stmt, stmt]
    · exact L.value_steps pl e L.discard h
    · exact hne
    · exact hne

omit L

mutual

/-- A statement goes through the allocations inside it. -/
theorem stmt_steps (L : Lockstep c s s') (looping : List LabelId) (pl : c.Spot) (x : Stmt)
    {m : Nat} (h : CallsOnly c.Callee x.parts) :
    c.Steps m (allocSites x.parts) (fun _ _ _ => True) (stmt s looping pl x)
      (stmt s' looping pl x) := by
  match x, h with
  | .decl v init, h =>
    rw [Stmt.parts_of_nodes (by rw [Stmt.nodes])] at h ⊢
    exact L.decl_steps looping pl v init h
  | .assign lhs rhs, h =>
    rw [Stmt.parts_of_nodes (by rw [Stmt.nodes]), Stmt.exprs, Expr.nodesOfList_eq_flatMap,
      List.flatMap_append, ← Expr.nodesOfList_eq_flatMap, ← Expr.nodesOfList_eq_flatMap] at h ⊢
    rw [stmt, stmt, allocSites_append]
    exact L.assign_steps pl lhs rhs h.left h.right
  | .expr e, h =>
    rw [Stmt.parts_of_nodes (by rw [Stmt.nodes]), Stmt.exprs, Expr.nodesOfList_singleton] at h ⊢
    exact L.expr_steps looping pl e h
  | .ifElse cond t e, h =>
    rw [Stmt.parts_ifElse] at h ⊢
    rw [stmt, stmt, allocSites_append, allocSites_append]
    refine (L.value_steps pl cond L.discard h.left).seq rfl fun _ _ => ?_
    exact (L.stmts_steps looping pl t h.right.left).seq rfl fun _ _ =>
      L.stmts_steps looping pl e h.right.right
  | .loop cond body, h =>
    rw [Stmt.parts_loop] at h ⊢
    rw [allocSites_append]
    cases cond with
    | none =>
      rw [stmt, stmt, Option.toList_none, Expr.nodesOfList, allocSites_nil, zero_add]
      exact L.stmts_steps looping ⟨⟨pl.1.func, pl.1.depth + 1⟩, pl.2⟩ body h.right
    | some e =>
      rw [Option.toList_some, Expr.nodesOfList_singleton] at h ⊢
      rw [stmt, stmt]
      let inner : c.Spot := ⟨⟨pl.1.func, pl.1.depth + 1⟩, pl.2⟩
      exact (L.value_steps inner e L.discard h.left).seq rfl fun _ _ =>
        L.stmts_steps looping inner body h.right
  | .block body, h =>
    rw [Stmt.parts_block] at h ⊢
    rw [stmt, stmt]
    exact L.stmts_steps looping pl body h
  | .ret values, h =>
    rw [Stmt.parts_of_nodes (by rw [Stmt.nodes])] at h ⊢
    rw [stmt, stmt]
    exact L.ret_steps pl values h
  | .label _, _ | .goto _, _ =>
    rw [stmt, stmt]
    exact .pure fun _ _ => trivial
  | .go e, h =>
    rw [Stmt.parts_of_nodes (by rw [Stmt.nodes]), Stmt.exprs, Expr.nodesOfList_singleton] at h ⊢
    rw [stmt, stmt]
    exact L.spawn_steps pl .spawned e h
  | .defer e, h =>
    rw [Stmt.parts_of_nodes (by rw [Stmt.nodes]), Stmt.exprs, Expr.nodesOfList_singleton] at h ⊢
    rw [stmt, stmt]
    exact L.spawn_steps pl _ e h

theorem stmts_steps (L : Lockstep c s s') (looping : List LabelId) (pl : c.Spot) (xs : List Stmt)
    {m : Nat} (h : CallsOnly c.Callee (bodyExprs xs)) :
    c.Steps m (allocSites (bodyExprs xs)) (fun _ _ _ => True) (stmts s looping pl xs)
      (stmts s' looping pl xs) := by
  match xs, h with
  | [], _ =>
    rw [stmts, stmts]
    exact .pure fun _ _ => trivial
  | x :: xs, h =>
    rw [Stmt.bodyExprs_cons] at h ⊢
    rw [stmts, stmts, allocSites_append]
    exact (L.stmt_steps looping pl x h.left).seq rfl fun _ _ =>
      L.stmts_steps looping ⟨⟨pl.1.func, depthAfter looping pl.1.depth x⟩, pl.2⟩ xs h.right

end

/-- A body goes through the allocations inside it. -/
theorem body_steps (L : Lockstep c s s') (f : Function) (hf : c.Inside f.id)
    (h : CallsOnly c.Callee (bodyExprs f.stmts)) :
    c.Steps m (allocSites (bodyExprs f.stmts)) (fun _ _ _ => True) (body s f) (body s' f) := by
  unfold body
  unfold Function.stmts at h ⊢
  generalize f.body = xs at h ⊢
  cases xs with
  | none => exact .pure fun _ _ => trivial
  | some xs => exact L.stmts_steps _ ⟨⟨f.id, _⟩, hf⟩ xs h

theorem bodies_steps (L : Lockstep c s s') (fs : List Function) (hfs : ∀ f ∈ fs, c.Inside f.id)
    (h : ∀ f ∈ fs, CallsOnly c.Callee (bodyExprs f.stmts)) :
    c.Steps m (allocSites (fs.flatMap fun f => bodyExprs f.stmts)) (fun _ _ _ => True)
      (fs.forM (body s)) (fs.forM (body s')) :=
  Steps.forM fs fun f hf _ _ => L.body_steps f (hfs f hf) (h f hf)

end Lockstep

end EscapeFlow
