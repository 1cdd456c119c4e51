import EscapeFlow.Proofs.Simulation

/-!
# Following bodies

Expressions and statements that both builds go through are followed as a whole, wherever the
second build is on its way to the finished graph:

    s.Widens s' → W.Leads k k' → T.Follows W done (value s pl k e) (value s' pl k' e)
                                                                             (follows_value)
    s.Widens s' → T.Follows W done (stmts s looping pl xs) (stmts s' looping pl xs)
                                                                             (follows_stmts)
-/

namespace EscapeFlow

open BatchGraph Build

namespace Scene.Widens

open Target Target.Follows

variable {s s' : Scene} {T : Target} {W : World} (pl : Place)

/-! ## Expressions -/

mutual

theorem follows_value (S : s.Widens s') : ∀ (e : Expr) {W : World} {k k' : Hole}, W.Leads k k' →
    T.Follows W done (value s pl k e) (value s' pl k' e)
  | .ident v, W, k, k', hk => by
    rw [value, value]
    refine (S.follows_isGlobal v).bind fun W₁ g g' h₁ hg => ?_
    rw [hg]
    by_cases hglobal : (!g) = true
    · rw [if_pos hglobal, if_pos hglobal]
      exact (follows_varLoc v).bind fun W₂ l l' h₂ hl =>
        follows_flow (hk.mono (World.le_trans h₁ h₂)) hl
    · rw [if_neg hglobal, if_neg hglobal]
      exact .pure trivial
  | .literal _, W, k, k', _ => by
    rw [value, value]
    exact .pure trivial
  | .funcRef _, W, k, k', _ => by
    rw [value, value]
    exact .pure trivial
  | .addrOf e, W, k, k', hk => by
    rw [value, value]
    by_cases hcell : needsCell e = true
    · rw [if_pos hcell, if_pos hcell]
      refine (follows_newTemp pl false).bind fun W₁ l l' h₁ hl => ?_
      refine (follows_shift (hk.mono h₁) (-1)).bind fun W₂ j j' h₂ hj => ?_
      refine (follows_flow (hj.note _) (hl.mono h₂)).seq fun W₃ h₃ => ?_
      exact S.follows_value e (hl.mono (World.le_trans h₂ h₃)).leads
    · rw [if_neg hcell, if_neg hcell]
      exact (follows_shift hk (-1)).bind fun _ _ _ _ hj => S.follows_value e (hj.note _)
  | .deref e, W, k, k', hk => by
    rw [value, value]
    exact (follows_shift hk 1).bind fun _ _ _ _ hj => S.follows_value e (hj.note _)
  | .field e _, W, k, k', hk => by
    rw [value, value]
    exact S.follows_value e (hk.note _)
  | .ptrField e _, W, k, k', hk => by
    rw [value, value]
    exact (follows_shift hk 1).bind fun _ _ _ _ hj => S.follows_value e (hj.note _)
  | .index .array e i, W, k, k', hk => by
    rw [value, value]
    exact (S.follows_value e (hk.note _)).seq fun W₁ _ => S.follows_value i W₁.leads_discard
  | .index .slice e i, W, k, k', hk => by
    rw [value, value]
    refine (follows_shift hk 1).bind fun W₁ _ _ _ hj => ?_
    exact (S.follows_value e (hj.note _)).seq fun W₂ _ => S.follows_value i W₂.leads_discard
  | .index .map e i, W, k, k', _ => by
    rw [value, value]
    exact (S.follows_value e W.leads_discard).seq fun W₁ _ => S.follows_value i W₁.leads_discard
  | .binary e i, W, k, k', _ => by
    rw [value, value]
    exact (S.follows_value e W.leads_discard).seq fun W₁ _ => S.follows_value i W₁.leads_discard
  | .call callee args, W, k, k', hk => by
    rw [value, value]
    have hks : ∀ {W'}, W ≤ W' → Option.Rel (List.Forall₂ W'.Leads) (some [k]) (some [k']) :=
      fun h => .some (.cons (hk.mono h) .nil)
    refine (S.follows_wireResults (hks W.le_refl) callee.staticCallee).seq fun W₁ h₁ => ?_
    refine (follows_calleeHole pl .plain callee).bind fun W₂ j j' h₂ hj => ?_
    refine (S.follows_value callee (hj.note _)).seq fun W₃ h₃ => ?_
    exact S.follows_arguments args .plain (hks (World.le_trans h₁ (World.le_trans h₂ h₃))) _ 0
  | .new i, W, k, k', hk => by
    rw [value, value]
    exact (follows_spill pl hk i).bind fun _ _ _ _ _ => .pure trivial
  | .composite kind i es, W, k, k', hk => by
    rw [value, value]
    exact (follows_compositeHole pl hk i kind).bind fun _ _ _ _ hj =>
      S.follows_elements es (hj.note _)
  | .mapLit i es, W, k, k', hk => by
    rw [value, value]
    refine Target.Follows.seq ?_ fun _ _ => S.follows_mapEntries es
    exact (follows_spill pl hk i).bind fun _ _ _ _ _ => .pure trivial
  | .closure i f, W, k, k', hk => by
    rw [value, value]
    refine (follows_spill pl hk i).bind fun W₁ j j' h₁ hj => ?_
    refine (S.follows_function f).bind fun W₂ d d' h₂ hd => ?_
    rw [hd.2.2]
    exact .forM fun v _ W₃ h₃ => S.follows_capture (hj.mono (World.le_trans h₂ h₃)) v

theorem follows_arguments (S : s.Widens s') : ∀ (es : List Expr) {W : World} (mode : CallMode)
    {ks ks' : Option (List Hole)}, Option.Rel (List.Forall₂ W.Leads) ks ks' →
    ∀ (callee : Option FuncId) (i : Nat), T.Follows W done
      (arguments s pl mode ks callee i es) (arguments s' pl mode ks' callee i es)
  | [], W, mode, ks, ks', hks, callee, i => by
    rw [arguments, arguments]
    exact .pure trivial
  | e :: es, W, mode, ks, ks', hks, callee, i => by
    rw [arguments, arguments]
    refine (S.follows_argHole pl mode hks callee i).bind fun W₁ j j' h₁ hj => ?_
    refine (S.follows_value e (hj.note _)).seq fun W₂ h₂ => ?_
    have hks₂ := World.leads_all_mono hks (World.le_trans h₁ h₂)
    exact S.follows_arguments es mode hks₂ callee (i + 1)

theorem follows_elements (S : s.Widens s') : ∀ (es : List Expr) {W : World} {k k' : Hole},
    W.Leads k k' → T.Follows W done (elements s pl k es) (elements s' pl k' es)
  | [], W, k, k', _ => by
    rw [elements, elements]
    exact .pure trivial
  | e :: es, W, k, k', hk => by
    rw [elements, elements]
    exact (S.follows_value e hk).seq fun _ h₁ => S.follows_elements es (hk.mono h₁)

theorem follows_mapEntries (S : s.Widens s') : ∀ (es : List (Expr × Expr)) {W : World},
    T.Follows W done (mapEntries s pl es) (mapEntries s' pl es)
  | [], W => by
    rw [mapEntries, mapEntries]
    exact .pure trivial
  | (e, e') :: es, W => by
    rw [mapEntries, mapEntries]
    refine (S.follows_value e (W.leads_heap.note _)).seq fun W₁ _ => ?_
    exact (S.follows_value e' (W₁.leads_heap.note _)).seq fun _ _ => S.follows_mapEntries es

end

variable (S : s.Widens s')

include S

theorem follows_call {ks ks' : Option (List Hole)} (mode : CallMode)
    (hks : Option.Rel (List.Forall₂ W.Leads) ks ks') (callee : Expr) (args : List Expr) :
    T.Follows W done (call s pl mode ks callee args) (call s' pl mode ks' callee args) := by
  unfold call
  refine (S.follows_wireResults hks callee.staticCallee).seq fun W₁ h₁ => ?_
  refine (follows_calleeHole pl mode callee).bind fun W₂ j j' h₂ hj => ?_
  refine (S.follows_value pl callee (hj.note _)).seq fun W₃ h₃ => ?_
  have hW := World.le_trans h₁ (World.le_trans h₂ h₃)
  exact S.follows_arguments pl args mode (World.leads_all_mono hks hW) _ 0

theorem follows_mutate (e : Expr) : T.Follows W done (mutate s pl e) (mutate s' pl e) :=
  S.follows_value pl e ((W.leads_sink (by decide)).note _)

/-- What is stored to is the same in both builds. -/
theorem follows_target (e : Expr) : T.Follows W World.Leads (target s pl e) (target s' pl e) := by
  induction e using target.induct generalizing W with
  | case1 v =>
    rw [target, target]
    refine (S.follows_isGlobal v).bind fun W₁ g g' _ hg => ?_
    rw [hg]
    by_cases hglobal : g = true
    · rw [if_pos hglobal]
      exact (follows_globalLoc v).bind fun _ _ _ _ hl => .pure hl.leads
    · rw [if_neg hglobal]
      exact (follows_varLoc v).bind fun _ _ _ _ hl => .pure hl.leads
  | case2 base _ ih =>
    rw [target, target]
    exact ih
  | case3 base i ih =>
    rw [target, target]
    exact (S.follows_value pl i W.leads_discard).seq fun _ _ => ih
  | case4 base i =>
    rw [target, target]
    refine (S.follows_value pl i W.leads_discard).seq fun W₁ _ => ?_
    exact (S.follows_mutate pl base).seq fun W₂ _ => .pure W₂.leads_heap
  | case5 base i =>
    rw [target, target]
    refine (S.follows_value pl base W.leads_discard).seq fun W₁ _ => ?_
    exact (S.follows_value pl i (W₁.leads_heap.note _)).seq fun W₂ _ => .pure W₂.leads_heap
  | case6 base =>
    rw [target, target]
    exact (S.follows_mutate pl base).seq fun W₁ _ => .pure W₁.leads_heap
  | case7 base _ =>
    rw [target, target]
    exact (S.follows_mutate pl base).seq fun W₁ _ => .pure W₁.leads_heap
  | case8 e h₁ h₂ h₃ h₄ h₅ h₆ h₇ =>
    rw [target] <;> first | assumption | exact throw_left _ _

/-! ## Statements -/

theorem follows_assignPairs (pairs : List (Expr × Expr)) :
    T.Follows W done (assignPairs s pl pairs) (assignPairs s' pl pairs) :=
  .forM fun pair _ _ _ => (S.follows_target pl pair.1).bind fun _ _ _ _ hk =>
    S.follows_value pl pair.2 (hk.note _)

theorem follows_pairwise (lhs rhs : List Expr) :
    T.Follows W done (assign.pairwise s pl lhs rhs) (assign.pairwise s' pl lhs rhs) := by
  unfold assign.pairwise
  split
  · exact S.follows_assignPairs pl _
  · exact throw_left _ _

theorem follows_assign (lhs rhs : List Expr) :
    T.Follows W done (assign s pl lhs rhs) (assign s' pl lhs rhs) := by
  unfold assign
  split
  · next callee args =>
    split
    · refine (Target.Follows.mapM (fun h hk => hk.mono h) fun e _ _ _ =>
        S.follows_target pl e).bind fun _ _ _ _ hks => ?_
      exact S.follows_call pl .plain (.some hks) callee args
    · exact S.follows_pairwise pl lhs _
  · exact S.follows_pairwise pl lhs rhs

theorem follows_each (values : List Expr) {d d' : Function} (hd : d'.results = d.results) :
    T.Follows W done (ret.each s pl values d) (ret.each s' pl values d') := by
  unfold ret.each
  rw [hd]
  split
  · exact throw_left _ _
  · exact .forM fun rv _ _ _ => (follows_varLoc rv.1).bind fun _ _ _ _ hl =>
      S.follows_value pl rv.2 (hl.leads.note _)

theorem follows_ret (values : List Expr) :
    T.Follows W done (ret s pl values) (ret s' pl values) := by
  unfold ret
  refine bindOf (fun d' => by split <;> infer_instance) (S.follows_function pl.func)
    fun W₁ d d' _ hd => ?_
  split
  · next callee args =>
    rw [hd.2.1]
    split
    · refine (Target.Follows.mapM (fun h hk => hk.mono h) fun r _ _ _ => ?_).bind
        fun _ _ _ _ hks => S.follows_call pl .plain (.some hks) callee args
      exact (follows_varLoc r).bind fun _ _ _ _ hl => .pure hl.leads
    · exact S.follows_each pl _ hd.2.1
  · exact S.follows_each pl values hd.2.1

theorem follows_spawn (mode : CallMode) (e : Expr) :
    T.Follows W done (spawn s pl mode e) (spawn s' pl mode e) := by
  unfold spawn
  split
  · exact S.follows_call pl mode .none _ _
  · exact throw_left _ _

theorem follows_alone (e : Expr) : T.Follows W done (alone s pl e) (alone s' pl e) := by
  unfold alone
  split
  · exact S.follows_call pl .plain .none _ _
  · exact S.follows_value pl _ W.leads_discard

theorem follows_decl (looping : List LabelId) (v : VarId) (init : Option Expr) :
    T.Follows W done (stmt s looping pl (.decl v init)) (stmt s' looping pl (.decl v init)) := by
  rw [stmt_decl, stmt_decl]
  refine (follows_settle v pl.depth).bind fun W₁ l l' _ hl => ?_
  cases init with
  | none => exact .pure trivial
  | some e => exact S.follows_value pl e (hl.leads.note _)

theorem follows_guarding (cond : Option Expr) :
    T.Follows W done (guarding s pl cond) (guarding s' pl cond) := by
  cases cond with
  | none => exact .pure trivial
  | some e => exact S.follows_value pl e W.leads_discard

omit S

mutual

theorem follows_stmt (S : s.Widens s') (looping : List LabelId) : ∀ (x : Stmt) (pl : Place)
    {W : World}, T.Follows W done (stmt s looping pl x) (stmt s' looping pl x)
  | .decl v init, pl, W => S.follows_decl pl looping v init
  | .assign lhs rhs, pl, W => by
    rw [stmt, stmt]
    exact S.follows_assign pl lhs rhs
  | .expr e, pl, W => by
    rw [stmt_expr, stmt_expr]
    exact S.follows_alone pl e
  | .ifElse cond t e, pl, W => by
    rw [stmt, stmt]
    refine (S.follows_value pl cond W.leads_discard).seq fun _ _ => ?_
    exact (S.follows_stmts looping t pl).seq fun _ _ => S.follows_stmts looping e pl
  | .loop cond xs, pl, W => by
    rw [stmt_loop, stmt_loop]
    exact (S.follows_guarding _ cond).seq fun _ _ => S.follows_stmts looping xs _
  | .block xs, pl, W => by
    rw [stmt, stmt]
    exact S.follows_stmts looping xs pl
  | .ret values, pl, W => by
    rw [stmt, stmt]
    exact S.follows_ret pl values
  | .label _, pl, W => by
    rw [stmt, stmt]
    exact .pure trivial
  | .goto _, pl, W => by
    rw [stmt, stmt]
    exact .pure trivial
  | .go e, pl, W => by
    rw [stmt, stmt]
    exact S.follows_spawn pl .spawned e
  | .defer e, pl, W => by
    rw [stmt, stmt]
    exact S.follows_spawn pl _ e

theorem follows_stmts (S : s.Widens s') (looping : List LabelId) : ∀ (xs : List Stmt) (pl : Place)
    {W : World}, T.Follows W done (stmts s looping pl xs) (stmts s' looping pl xs)
  | [], pl, W => by
    rw [stmts, stmts]
    exact .pure trivial
  | x :: xs, pl, W => by
    rw [stmts, stmts]
    exact (S.follows_stmt looping x pl).seq fun _ _ => S.follows_stmts looping xs _

end

end Scene.Widens

end EscapeFlow
