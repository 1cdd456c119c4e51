import EscapeFlow.Proofs.CallExpansion
import Mathlib.Algebra.Order.Group.Multiset

/-!
# Couplings of two builds

Two builds go through the same bodies in the same order, whatever the summaries of other
functions are and however calls inside the batch are treated.  A `Coupling` says what is to
hold between the graphs and the holes of two such builds, and `Coupling.Steps` that two actions
respect it: run from coupled graphs they end alike, in coupled graphs.  Actions that do so can
be put one after the other:

    c.Steps m n Q x y → (∀ a a' m', m ≤ m' → Q a a' m' → c.Steps m' n' R (f a) (g a')) →
      c.Steps m (n + n') R (x >>= f) (y >>= g)                                  (Steps.bind)

The multisets count the allocations that are gone through (`allocSites`), so that a coupling
can say which of them have a location.  The numbers are lower bounds of the number of
locations: what a location is good for is known only once it is there.
-/

namespace EscapeFlow

/-! ## What a body holds -/

/-- The allocation that an expression is. -/
def Expr.allocSite? : Expr → Option SiteId
  | .new site | .composite _ site _ | .mapLit site _ | .closure site _ => some site
  | _ => none

/-- The function that a call is known to run. -/
def Expr.called? : Expr → Option FuncId
  | .call callee _ => callee.staticCallee
  | _ => none

/-- The allocations among some expressions, each as often as it occurs. -/
def allocSites (xs : List Expr) : Multiset SiteId := (xs.filterMap Expr.allocSite? : List SiteId)

/-- The calls among some expressions are known to run functions of `C` only. -/
def CallsOnly (C : FuncId → Prop) (xs : List Expr) : Prop :=
  ∀ x ∈ xs, ∀ f, x.called? = some f → C f

@[simp]
theorem allocSites_nil : allocSites [] = 0 := rfl

@[simp]
theorem allocSites_append (xs ys : List Expr) :
    allocSites (xs ++ ys) = allocSites xs + allocSites ys := by
  unfold allocSites
  rw [List.filterMap_append, Multiset.coe_add]

theorem allocSites_cons_of_none {x : Expr} (h : x.allocSite? = none) (xs : List Expr) :
    allocSites (x :: xs) = allocSites xs := by
  unfold allocSites
  rw [List.filterMap_cons_none h]

theorem allocSites_cons_of_some {x : Expr} {i : SiteId} (h : x.allocSite? = some i)
    (xs : List Expr) : allocSites (x :: xs) = {i} + allocSites xs := by
  unfold allocSites
  rw [List.filterMap_cons_some h]
  rfl

namespace CallsOnly

variable {C : FuncId → Prop} {x : Expr} {xs ys : List Expr}

theorem tail (h : CallsOnly C (x :: xs)) : CallsOnly C xs :=
  fun y hy => h y (List.mem_cons_of_mem _ hy)

theorem append (h : CallsOnly C xs) (h' : CallsOnly C ys) : CallsOnly C (xs ++ ys) :=
  fun y hy => (List.mem_append.1 hy).elim (h y) (h' y)

theorem left (h : CallsOnly C (xs ++ ys)) : CallsOnly C xs :=
  fun y hy => h y (List.mem_append_left _ hy)

theorem right (h : CallsOnly C (xs ++ ys)) : CallsOnly C ys :=
  fun y hy => h y (List.mem_append_right _ hy)

end CallsOnly

theorem Expr.nodesOfList_eq_flatMap (es : List Expr) : nodesOfList es = es.flatMap nodes := by
  induction es with
  | nil => rfl
  | cons e es ih => rw [nodesOfList, ih, List.flatMap_cons]

theorem Expr.nodesOfList_singleton (e : Expr) : nodesOfList [e] = e.nodes := by
  rw [nodesOfList, nodesOfList, List.append_nil]

theorem CallsOnly.of_mem {C : FuncId → Prop} {es : List Expr}
    (h : CallsOnly C (Expr.nodesOfList es)) {e : Expr} (he : e ∈ es) : CallsOnly C e.nodes := by
  intro x hx
  rw [Expr.nodesOfList_eq_flatMap] at h
  exact h x (List.mem_flatMap.2 ⟨e, he, hx⟩)

/-- Pairing expressions off loses none if there are equally many. -/
theorem allocSites_zip {lhs rhs : List Expr} (h : lhs.length = rhs.length) :
    allocSites ((lhs.zip rhs).flatMap fun p => p.1.nodes ++ p.2.nodes) =
      allocSites (Expr.nodesOfList lhs) + allocSites (Expr.nodesOfList rhs) := by
  induction lhs generalizing rhs with
  | nil =>
    obtain rfl := List.length_eq_zero_iff.1 h.symm
    rfl
  | cons e lhs ih =>
    cases rhs with
    | nil => exact absurd h (Nat.succ_ne_zero _)
    | cons e' rhs =>
      rw [List.zip_cons_cons, List.flatMap_cons, allocSites_append, ih (Nat.succ.inj h),
        Expr.nodesOfList, Expr.nodesOfList, allocSites_append, allocSites_append,
        allocSites_append]
      exact add_add_add_comm _ _ _ _

/-- Values that there are places for are not lost. -/
theorem flatMap_zip_snd {α : Type} (rs : List α) {es : List Expr} (h : es.length ≤ rs.length) :
    ((rs.zip es).flatMap fun p => p.2.nodes) = Expr.nodesOfList es := by
  induction es generalizing rs with
  | nil => rw [List.zip_nil_right]; rfl
  | cons e es ih =>
    cases rs with
    | nil => exact absurd h (Nat.not_succ_le_zero _)
    | cons r rs =>
      rw [List.zip_cons_cons, List.flatMap_cons, ih rs (Nat.le_of_succ_le_succ h),
        Expr.nodesOfList]

/-- The expressions inside a statement. -/
def Stmt.parts (s : Stmt) : List Expr := s.nodes.filterMap Node.expr?

namespace Stmt

theorem filterMap_exprNodes (s : Stmt) :
    s.exprNodes.filterMap Node.expr? = Expr.nodesOfList s.exprs := by
  unfold exprNodes
  rw [List.filterMap_map]
  exact List.filterMap_some

theorem bodyExprs_cons (x : Stmt) (xs : List Stmt) :
    bodyExprs (x :: xs) = x.parts ++ bodyExprs xs := by
  unfold bodyExprs
  rw [nodesOfList, List.filterMap_append]
  rfl

/-- A statement that holds no other has the parts of its own expressions. -/
theorem parts_of_nodes {s : Stmt} (h : s.nodes = .stmt s :: s.exprNodes) :
    s.parts = Expr.nodesOfList s.exprs := by
  unfold parts
  rw [h, ← filterMap_exprNodes]
  rfl

theorem parts_ifElse (cond : Expr) (t e : List Stmt) :
    (ifElse cond t e).parts = cond.nodes ++ (bodyExprs t ++ bodyExprs e) := by
  unfold parts bodyExprs
  rw [nodes, List.filterMap_cons_none rfl, List.filterMap_append, List.filterMap_append,
    filterMap_exprNodes, exprs, Expr.nodesOfList_singleton]

theorem parts_loop (cond : Option Expr) (body : List Stmt) :
    (loop cond body).parts = Expr.nodesOfList cond.toList ++ bodyExprs body := by
  unfold parts bodyExprs
  rw [nodes, List.filterMap_cons_none rfl, List.filterMap_append, filterMap_exprNodes, exprs]

theorem parts_block (body : List Stmt) : (block body).parts = bodyExprs body := by
  unfold parts bodyExprs
  rw [nodes, List.filterMap_cons_none rfl]

end Stmt

/-! ## Outcomes -/

/-- Two computations end alike: with values that `Q` relates, or with the same error, which is
not about a summary that is there already.  Under `loose` it is enough that one of them fails. -/
def Outcome {α β : Type} (loose : Prop) (Q : α → β → Prop) :
    Except Error α → Except Error β → Prop
  | .ok a, .ok b => Q a b
  | .error e, .error e' => loose ∨ (e' = e ∧ ∀ f, e ≠ .summaryFinalized f)
  | _, _ => loose

namespace Outcome

variable {α β γ δ : Type} {loose : Prop} {Q : α → β → Prop} {R : γ → δ → Prop}

theorem ok {a : α} {b : β} (h : Q a b) : Outcome loose Q (.ok a) (.ok b) := h

theorem error {e : Error} (h : ∀ f, e ≠ .summaryFinalized f) :
    Outcome loose Q (.error e) (.error e) := .inr ⟨rfl, h⟩

theorem of_error_left (h : loose) (e : Error) (y : Except Error β) :
    Outcome loose Q (.error e) y := by
  cases y with
  | ok b => exact h
  | error e' => exact .inl h

theorem of_error_right (h : loose) (x : Except Error α) (e : Error) :
    Outcome loose Q x (.error e) := by
  cases x with
  | ok a => exact h
  | error e' => exact .inl h

theorem mono {Q' : α → β → Prop} {x : Except Error α} {y : Except Error β}
    (h : Outcome loose Q x y) (hQ : ∀ a b, Q a b → Q' a b) : Outcome loose Q' x y := by
  cases x with
  | ok a =>
    cases y with
    | ok b => exact hQ a b h
    | error e' => exact h
  | error e =>
    cases y with
    | ok b => exact h
    | error e' => exact h

theorem bind {x : Except Error α} {y : Except Error β} {f : α → Except Error γ}
    {g : β → Except Error δ} (h : Outcome loose Q x y)
    (hf : ∀ a b, Q a b → Outcome loose R (f a) (g b)) : Outcome loose R (x >>= f) (y >>= g) := by
  cases x with
  | ok a =>
    cases y with
    | ok b => exact hf a b h
    | error e' => exact of_error_right h _ _
  | error e =>
    cases y with
    | ok b => exact of_error_left h _ _
    | error e' => exact h

theorem mapM {ι : Type} {f : ι → Except Error α} {g : ι → Except Error β} (xs : List ι)
    (h : ∀ i ∈ xs, Outcome loose Q (f i) (g i)) :
    Outcome loose (List.Forall₂ Q) (xs.mapM f) (xs.mapM g) := by
  induction xs with
  | nil => exact ok .nil
  | cons i xs ih =>
    rw [List.mapM_cons, List.mapM_cons]
    refine (h i List.mem_cons_self).bind fun a b hab => ?_
    refine (ih fun j hj => h j (List.mem_cons_of_mem _ hj)).bind fun as bs habs => ?_
    exact ok (.cons hab habs)

end Outcome

/-! ## Couplings -/

/-- What is to hold between two builds. -/
structure Coupling where
  /-- Whether one of the builds may fail where the other does not. -/
  loose : Prop
  /-- The functions whose summaries may be looked at. -/
  Callee : FuncId → Prop
  /-- The functions whose bodies are gone through. -/
  Inside : FuncId → Prop
  /-- Between the graphs, once the given allocations are gone through. -/
  State : Multiset SiteId → BatchGraph → BatchGraph → Prop
  /-- Between the holes for a value. -/
  Holes : Hole → Hole → Prop

/-- A place in one of the bodies. -/
abbrev Coupling.Spot (c : Coupling) := { pl : Place // c.Inside pl.func }

/-- Run from graphs that `c` couples and that have at least `m` locations, the two actions end
alike.  They go through the allocations `n`, leave no fewer locations, and `Q` holds of their
values and the number of locations. -/
def Coupling.Steps (c : Coupling) {α β : Type} (m : Nat) (n : Multiset SiteId)
    (Q : α → β → Nat → Prop) (x : Build α) (y : Build β) : Prop :=
  ∀ τ b b', c.State τ b b' → m ≤ b.graph.size →
    Outcome c.loose (fun r r' => c.State (τ + n) r.2 r'.2 ∧ m ≤ r.2.graph.size ∧
      Q r.1 r'.1 r.2.graph.size) (x.run b) (y.run b')

namespace Coupling.Steps

variable {c : Coupling} {α β γ δ : Type} {m : Nat} {n n' t : Multiset SiteId}
  {Q : α → β → Nat → Prop} {R : γ → δ → Nat → Prop} {x : Build α} {y : Build β}
  {f : α → Build γ} {g : β → Build δ}

theorem pure {a : α} {a' : β} (h : ∀ m', m ≤ m' → Q a a' m') :
    c.Steps m 0 Q (Pure.pure a) (Pure.pure a') := by
  intro τ b b' hs hm
  exact .ok ⟨by rwa [add_zero], hm, h _ hm⟩

theorem throw {e : Error} (he : ∀ f, e ≠ .summaryFinalized f) :
    c.Steps m n Q (MonadExcept.throw e) (MonadExcept.throw e) :=
  fun _ _ _ _ _ => .error he

theorem lift {x : Except Error α} {y : Except Error β}
    (h : Outcome c.loose (fun a a' => ∀ m', Q a a' m') x y) :
    c.Steps m 0 Q (liftM x) (liftM y) := by
  intro τ b b' hs hm
  refine h.bind fun a a' hq => ?_
  exact .ok ⟨by rwa [add_zero], hm, hq _⟩

theorem bind (ht : n + n' = t) (hx : c.Steps m n Q x y)
    (hf : ∀ a a' m', m ≤ m' → Q a a' m' → c.Steps m' n' R (f a) (g a')) :
    c.Steps m t R (x >>= f) (y >>= g) := by
  intro τ b b' hs hm
  subst ht
  rw [StateT.run_bind, StateT.run_bind]
  refine (hx τ b b' hs hm).bind ?_
  rintro ⟨a, b₁⟩ ⟨a', b₁'⟩ ⟨hs₁, hm₁, hq⟩
  refine (hf a a' _ hm₁ hq _ _ _ hs₁ le_rfl).mono ?_
  rintro ⟨d, b₂⟩ ⟨d', b₂'⟩ ⟨hs₂, hm₂, hr⟩
  exact ⟨by rwa [← add_assoc], hm₁.trans hm₂, hr⟩

/-- Both go on alike after the first actions, whose values do not matter. -/
theorem seq {x y : Build Unit} {x' : Build γ} {y' : Build δ} {Q : Unit → Unit → Nat → Prop}
    (ht : n + n' = t) (hx : c.Steps m n Q x y)
    (hf : ∀ m', m ≤ m' → c.Steps m' n' R x' y') :
    c.Steps m t R (x >>= fun _ => x') (y >>= fun _ => y') :=
  hx.bind ht fun _ _ m' hm _ => hf m' hm

theorem forM {ι : Type} {f g : ι → Build Unit} {N : ι → List Expr} (xs : List ι)
    (h : ∀ i ∈ xs, ∀ m', m ≤ m' →
      c.Steps m' (allocSites (N i)) (fun _ _ _ => True) (f i) (g i)) :
    c.Steps m (allocSites (xs.flatMap N)) (fun _ _ _ => True) (xs.forM f) (xs.forM g) := by
  induction xs generalizing m with
  | nil => exact pure fun _ _ => trivial
  | cons i xs ih =>
    show c.Steps m _ _ (f i >>= fun _ => xs.forM f) (g i >>= fun _ => xs.forM g)
    refine (h i List.mem_cons_self m le_rfl).seq (allocSites_append _ _).symm fun m' hm => ?_
    exact ih fun j hj m'' hm' => h j (List.mem_cons_of_mem _ hj) m'' (hm.trans hm')

theorem forM_zero {ι : Type} {f g : ι → Build Unit} (xs : List ι)
    (h : ∀ i ∈ xs, ∀ m', m ≤ m' → c.Steps m' 0 (fun _ _ _ => True) (f i) (g i)) :
    c.Steps m 0 (fun _ _ _ => True) (xs.forM f) (xs.forM g) := by
  have hall := forM (N := fun _ => []) xs h
  rwa [List.flatMap_eq_nil_iff.2 fun _ _ => rfl] at hall

theorem mapM {ι : Type} {f g : ι → Build γ} {N : ι → List Expr} {P : γ → γ → Prop} (xs : List ι)
    (h : ∀ i ∈ xs, ∀ m', m ≤ m' →
      c.Steps m' (allocSites (N i)) (fun a a' _ => P a a') (f i) (g i)) :
    c.Steps m (allocSites (xs.flatMap N)) (fun as as' _ => List.Forall₂ P as as')
      (xs.mapM f) (xs.mapM g) := by
  induction xs generalizing m with
  | nil => exact pure fun _ _ => .nil
  | cons i xs ih =>
    rw [List.mapM_cons, List.mapM_cons]
    refine (h i List.mem_cons_self m le_rfl).bind (allocSites_append _ _).symm
      fun a a' m' hm ha => ?_
    refine (ih fun j hj m'' hm' => h j (List.mem_cons_of_mem _ hj) m'' (hm.trans hm')).bind
      (add_zero _) fun as as' _ _ has => ?_
    exact pure fun _ _ => .cons ha has

theorem mapM_zero {ι : Type} {f g : ι → Build γ} {P : γ → γ → Prop} (xs : List ι)
    (h : ∀ i ∈ xs, ∀ m', m ≤ m' → c.Steps m' 0 (fun a a' _ => P a a') (f i) (g i)) :
    c.Steps m 0 (fun as as' _ => List.Forall₂ P as as') (xs.mapM f) (xs.mapM g) := by
  have hall := mapM (N := fun _ => []) xs h
  rwa [List.flatMap_eq_nil_iff.2 fun _ _ => rfl] at hall

end Coupling.Steps

end EscapeFlow
