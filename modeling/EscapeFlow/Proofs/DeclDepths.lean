import EscapeFlow.Proofs.Evolution

/-!
# The depth of a variable

A variable gets the depth of the loop in which its declaration stands.  `declDepths` lists the
declarations inside statements in the order in which they are gone through, each with its depth,
and the last one for a variable counts:

    (stmts s looping pl xs).run b = .ok (u, b') → b.varLoc? v = some l →
      loopDepth of l in b' = depthOf (declDepths looping pl.depth xs) v (loopDepth of l in b)
                                                                            (settles_stmts)

Where no variable has declarations at two depths, only the set of declarations matters
(`depthOf_congr`).
-/

namespace EscapeFlow

open BatchGraph

/-! ## Declarations with their depth -/

mutual

/-- The declarations inside a statement at depth `d`. -/
def Stmt.declDepths (looping : List LabelId) (d : Nat) : Stmt → List (VarId × Nat)
  | .decl v _ => [(v, d)]
  | .ifElse _ t e => Stmt.declDepthsOfList looping d t ++ Stmt.declDepthsOfList looping d e
  | .loop _ body => Stmt.declDepthsOfList looping (d + 1) body
  | .block body => Stmt.declDepthsOfList looping d body
  | .assign _ _ | .expr _ | .ret _ | .label _ | .goto _ | .go _ | .defer _ => []

/-- The declarations inside statements of which the first is at depth `d`. -/
def Stmt.declDepthsOfList (looping : List LabelId) (d : Nat) : List Stmt → List (VarId × Nat)
  | [] => []
  | x :: xs =>
    Stmt.declDepths looping d x ++
      Stmt.declDepthsOfList looping (Build.depthAfter looping d x) xs

end

/-- The declarations inside the body of a function. -/
def Function.declDepths (f : Function) : List (VarId × Nat) :=
  Stmt.declDepthsOfList (loopingLabels f.stmts) 0 f.stmts

/-- The depth of a variable after some declarations, if it is `d` before. -/
def depthOf (es : List (VarId × Nat)) (v : VarId) (d : Nat) : Nat :=
  es.foldl (fun d e => if e.1 = v then e.2 else d) d

theorem depthOf_append (es es' : List (VarId × Nat)) (v : VarId) (d : Nat) :
    depthOf (es ++ es') v d = depthOf es' v (depthOf es v d) := by
  unfold depthOf
  rw [List.foldl_append]

/-- The depth comes from a declaration, or there is none for the variable. -/
theorem depthOf_cases (es : List (VarId × Nat)) (v : VarId) (d : Nat) :
    (v, depthOf es v d) ∈ es ∨ (depthOf es v d = d ∧ ∀ e ∈ es, e.1 ≠ v) := by
  induction es generalizing d with
  | nil => exact .inr ⟨rfl, nofun⟩
  | cons e es ih =>
    show (v, depthOf es v (if e.1 = v then e.2 else d)) ∈ e :: es ∨
      (depthOf es v (if e.1 = v then e.2 else d) = d ∧ _)
    by_cases he : e.1 = v
    · rw [if_pos he]
      left
      rcases ih e.2 with hmem | ⟨hsame, -⟩
      · exact List.mem_cons_of_mem _ hmem
      · rw [hsame, ← he]
        exact List.mem_cons_self
    · rw [if_neg he]
      rcases ih d with hmem | ⟨hsame, hnone⟩
      · exact .inl (List.mem_cons_of_mem _ hmem)
      · refine .inr ⟨hsame, fun e' he' => ?_⟩
        rcases List.mem_cons.1 he' with rfl | he'
        · exact he
        · exact hnone e' he'

/-- The order of declarations does not matter if each variable is declared at one depth only. -/
theorem depthOf_congr {es es' : List (VarId × Nat)} (hmem : ∀ e, e ∈ es ↔ e ∈ es')
    (hone : ∀ v d d', (v, d) ∈ es → (v, d') ∈ es → d = d') (v : VarId) (d : Nat) :
    depthOf es v d = depthOf es' v d := by
  rcases depthOf_cases es v d with h | ⟨h, hnone⟩
  · rcases depthOf_cases es' v d with h' | ⟨-, hnone'⟩
    · exact hone v _ _ h ((hmem _).2 h')
    · exact absurd rfl (hnone' _ ((hmem _).1 h))
  · rcases depthOf_cases es' v d with h' | ⟨h', -⟩
    · exact absurd rfl (hnone _ ((hmem _).2 h'))
    · rw [h, h']

/-! ## Going through statements -/

/-- The declarations `es` set the depth of variables and nothing else does. -/
structure Settles (es : List (VarId × Nat)) (b b' : BatchGraph) : Prop where
  evolves : Evolves b b'
  depth : b.Tabled → ∀ v l, b.varLoc? v = some l →
    (b'.graph.loc l).loopDepth = depthOf es v (b.graph.loc l).loopDepth

namespace Settles

variable {b b₁ b₂ : BatchGraph} {es es' : List (VarId × Nat)}

theorem trans (h : Settles es b b₁) (h' : Settles es' b₁ b₂) : Settles (es ++ es') b b₂ where
  evolves := Evolution.trans h.evolves h'.evolves
  depth hb v l hv := by
    obtain ⟨hk, hb₁⟩ := h.evolves hb
    rw [depthOf_append, ← h.depth hb v l hv]
    exact h'.depth hb₁ v l (hk.vars v l hv)

/-- What is there keeps its depth. -/
theorem of_depth_eq (h : Evolves b b₁)
    (hd : ∀ l, l < b.graph.size → (b₁.graph.loc l).loopDepth = (b.graph.loc l).loopDepth) :
    Settles [] b b₁ where
  evolves := h
  depth hb v l hv := hd l (Graph.lt_size_of_site (hb v l hv))

theorem push {c : BatchGraph} {x : Location} (h : Evolves b c) (hc : c.graph = b.graph.push x) :
    Settles [] b c :=
  of_depth_eq h fun l hl => by rw [hc, b.graph.push_loc_of_lt x hl]

end Settles

/-- Nothing but declarations sets the depth of a variable. -/
instance : Evolution (Settles []) where
  refl b := .of_depth_eq (Evolution.refl b) fun _ _ => rfl
  trans h h' := h.trans h'
  flow b notes k src := .of_depth_eq (Evolution.flow b notes k src) fun l _ =>
    Covers.flow_loopDepth l
  temp b pl persists := .push (Evolution.temp b pl persists) rfl
  site b pl i hi := .push (Evolution.site b pl i hi) rfl
  global b v hv := .push (Evolution.global b v hv) rfl
  captured b l := .of_depth_eq (Evolution.captured b l) fun x _ =>
    b.graph.update_view Location.loopDepth l x fun _ => rfl

namespace Build

variable (s : Scene) (looping : List LabelId)

theorem settles_of_respects {α : Type} {x : Build α} [h : Respects (Settles []) x]
    {b b₁ : BatchGraph} {a : α} (hx : x.run b = .ok (a, b₁)) : Settles [] b b₁ :=
  h.run hx

theorem settles_settle {v : VarId} {d : Nat} {b b₁ : BatchGraph} {l : LocId}
    (h : (settle v d).run b = .ok (l, b₁)) : Settles [(v, d)] b b₁ where
  evolves := Respects.run h
  depth hb w k hw := by
    rw [run_settle] at h
    split at h
    · next m hm =>
      cases h
      show ((b.graph.update l _).loc k).loopDepth = if v = w then d else (b.graph.loc k).loopDepth
      rw [b.graph.update_loc_all]
      by_cases hvw : v = w
      · obtain rfl : k = l := by
          rw [hvw, hw] at hm
          exact Option.some.inj hm
        rw [if_pos ⟨rfl, Graph.lt_size_of_site (hb w k hw)⟩, if_pos hvw]
      · rw [if_neg hvw, if_neg]
        -- two variables do not share a location
        rintro ⟨rfl, -⟩
        have hsame := (hb v k hm).symm.trans (hb w k hw)
        injection hsame with hsite
        injection hsite with hsite
        exact hvw hsite
    · cases h

mutual

theorem settles_stmt : ∀ (x : Stmt) (pl : Place) {b b₁ : BatchGraph} {u : Unit},
    (stmt s looping pl x).run b = .ok (u, b₁) → Settles (x.declDepths looping pl.depth) b b₁
  | .decl v init, pl, b, b₁, u, h => by
    rw [stmt_decl] at h
    obtain ⟨l, b₀, h₀, h⟩ := run_bind_eq_ok h
    rw [Stmt.declDepths]
    exact (settles_settle h₀).trans (settles_of_respects h)
  | .ifElse cond t e, pl, b, b₁, u, h => by
    rw [stmt] at h
    obtain ⟨_, b₀, h₀, h⟩ := run_bind_eq_ok h
    obtain ⟨_, b₂, h₂, h⟩ := run_bind_eq_ok h
    rw [Stmt.declDepths]
    exact (settles_of_respects h₀).trans ((settles_stmts t pl h₂).trans (settles_stmts e pl h))
  | .loop cond xs, pl, b, b₁, u, h => by
    rw [stmt_loop] at h
    obtain ⟨_, b₀, h₀, h⟩ := run_bind_eq_ok h
    rw [Stmt.declDepths]
    exact (settles_of_respects h₀).trans (settles_stmts xs _ h)
  | .block xs, pl, b, b₁, u, h => by
    rw [stmt] at h
    rw [Stmt.declDepths]
    exact settles_stmts xs pl h
  | .assign lhs rhs, pl, b, b₁, u, h => by
    rw [stmt] at h
    rw [Stmt.declDepths]
    exact settles_of_respects h
  | .expr e, pl, b, b₁, u, h => by
    rw [stmt_expr] at h
    rw [Stmt.declDepths]
    exact settles_of_respects h
  | .ret values, pl, b, b₁, u, h => by
    rw [stmt] at h
    rw [Stmt.declDepths]
    exact settles_of_respects h
  | .label _, pl, b, b₁, u, h => by
    rw [stmt] at h
    rw [Stmt.declDepths]
    exact settles_of_respects h
  | .goto _, pl, b, b₁, u, h => by
    rw [stmt] at h
    rw [Stmt.declDepths]
    exact settles_of_respects h
  | .go e, pl, b, b₁, u, h => by
    rw [stmt] at h
    rw [Stmt.declDepths]
    exact settles_of_respects h
  | .defer e, pl, b, b₁, u, h => by
    rw [stmt] at h
    rw [Stmt.declDepths]
    exact settles_of_respects h

theorem settles_stmts : ∀ (xs : List Stmt) (pl : Place) {b b₁ : BatchGraph} {u : Unit},
    (stmts s looping pl xs).run b = .ok (u, b₁) →
      Settles (Stmt.declDepthsOfList looping pl.depth xs) b b₁
  | [], pl, b, b₁, u, h => by
    rw [stmts] at h
    rw [Stmt.declDepthsOfList]
    exact settles_of_respects h
  | x :: xs, pl, b, b₁, u, h => by
    rw [stmts] at h
    obtain ⟨_, b₀, h₀, h⟩ := run_bind_eq_ok h
    rw [Stmt.declDepthsOfList]
    exact (settles_stmt x pl h₀).trans (settles_stmts xs _ h)

end

theorem settles_body (f : Function) {b b₁ : BatchGraph} {u : Unit}
    (h : (body s f).run b = .ok (u, b₁)) : Settles f.declDepths b b₁ := by
  unfold body at h
  unfold Function.declDepths Function.stmts
  generalize f.body = xs at h ⊢
  cases xs with
  | none => exact settles_of_respects h
  | some xs => exact settles_stmts s _ xs _ h

/-- All bodies of a batch, one after the other. -/
theorem settles_bodies (ds : List Function) {b b₁ : BatchGraph} {u : Unit}
    (h : (ds.forM (body s)).run b = .ok (u, b₁)) :
    Settles (ds.flatMap Function.declDepths) b b₁ := by
  induction ds generalizing b with
  | nil =>
    cases h
    exact (Evolution.refl b₁ : Settles [] b₁ b₁)
  | cons d ds ih =>
    obtain ⟨_, b₀, h₀, h⟩ := run_bind_eq_ok h
    rw [List.flatMap_cons]
    exact (settles_body s d h₀).trans (ih h)

end Build

end EscapeFlow
