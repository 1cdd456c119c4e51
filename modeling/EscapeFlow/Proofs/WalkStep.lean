import EscapeFlow.Proofs.FlowPath
import EscapeFlow.Proofs.Teaching

/-!
# What one step of a walk does

A step for a location takes what there is to learn from the root and relaxes the edges of the
location.  `Walk.relax_cases` and `Walk.learn_cases` say all that either can do, and
`Walk.step_spec` puts them together.  From these come the facts that every step keeps:

* `Walk.Since`: marks only grow, and every location whose attributes change is on the list of
  roots;
* `Walk.Genuine`: of all numbers there holds what is handed on along the edges, so that with exact
  sums they are lengths of flow paths (`FlowPath.carried`);
* `Walk.Spread`: each location with a number is on the stack, or has learned from the root and
  handed its number on.  A location that has turned escaping need not hand it on.
-/

namespace EscapeFlow

theorem getD_modify {α : Type} (xs : Array α) (l x : Nat) (hl : l < xs.size) (f : α → α) (a : α) :
    (xs.modify l f).getD x a = if x = l then f (xs.getD l a) else xs.getD x a := by
  rw [Array.getD_eq_getD_getElem?, Array.getD_eq_getD_getElem?, Array.getD_eq_getD_getElem?,
    Array.getElem?_modify, Array.getElem?_eq_getElem hl]
  by_cases hx : x = l
  · subst hx
    rw [if_pos rfl, if_pos rfl, Array.getElem?_eq_getElem hl]
    rfl
  · rw [if_neg (Ne.symm hx), if_neg hx]

/-! ## Marks -/

namespace Marks

/-- `m'` has all attributes of `m`, and its leaks are on record no deeper. -/
structure Grows (m m' : Marks) : Prop where
  attrs : ∀ l, m.attrsOf l ≤ m'.attrsOf l
  leaks : ∀ l s n, (m.leaksOf l).Within s n → (m'.leaksOf l).Within s n

theorem Grows.refl (m : Marks) : Grows m m := ⟨fun _ => Attrs.le_refl _, fun _ _ _ h => h⟩

theorem Grows.trans {m m' m'' : Marks} (h : Grows m m') (h' : Grows m' m'') : Grows m m'' :=
  ⟨fun l => Attrs.le_trans (h.attrs l) (h'.attrs l),
    fun l s n hn => h'.leaks l s n (h.leaks l s n hn)⟩

/-- There are marks for exactly the locations of a graph. -/
structure Fits (g : Graph) (m : Marks) : Prop where
  attrs : m.attrs.size = g.size
  leaks : m.leaks.size = g.size

theorem lacks_iff (m : Marks) (l : LocId) (hl : l < m.attrs.size) (new : Attrs) :
    m.lacks l new = true ↔ ¬ new ≤ m.attrsOf l := by
  unfold lacks attrsOf
  rw [Array.getD_eq_getD_getElem?, Array.getElem?_eq_getElem hl]
  exact Attrs.gains_iff _ _

end Marks

/-- Location `l`, reached after `d` dereferences, has learned all that the root teaches. -/
structure Knows (p : Program) (g : Graph) (m : Marks) (root l : LocId) (d : Int) : Prop where
  attrs : learned p g (m.attrsOf root) root l d ≤ m.attrsOf l
  leaks : (g.loc l).isParam = true → ∀ s, Records p g (m.attrsOf root) root l s →
    (m.leaksOf l).Within s (Leaks.clampDepth d)

theorem Knows.grows {p : Program} {g : Graph} {m m' : Marks} {root l : LocId} {d : Int}
    (h : Knows p g m root l d) (hg : m.Grows m') (hr : m'.attrsOf root = m.attrsOf root) :
    Knows p g m' root l d := by
  constructor
  · rw [hr]
    exact Attrs.le_trans h.attrs (hg.attrs l)
  · rw [hr]
    intro hp s hs
    exact hg.leaks l s _ (h.leaks hp s hs)

theorem Knows.mono {p : Program} {g : Graph} {m : Marks} {root l : LocId} {d d' : Int}
    (h : Knows p g m root l d) (hd : d ≤ d') : Knows p g m root l d' :=
  ⟨Attrs.le_trans (learned_anti p g _ root l hd) h.attrs,
    fun hp s hs => (h.leaks hp s hs).mono (Leaks.clampDepth_mono hd)⟩

/-- The locations that do not escape. -/
def Marks.open (m : Marks) : Set LocId := {x | (m.attrsOf x).escapes = false}

/-- Every location that flows into `root` along locations that do not escape knows what there
is to learn. -/
def Saturated (p : Program) (g : Graph) (m : Marks) (root : LocId) : Prop :=
  ∀ l d, l < g.size → FlowPath g m.open root l d → Knows p g m root l d

theorem Marks.Grows.open_subset {m m' : Marks} (h : m.Grows m') : m'.open ⊆ m.open := by
  intro x hx
  cases he : (m.attrsOf x).escapes with
  | false => exact he
  | true =>
    have := h.attrs x .escapes he
    rw [show (m'.attrsOf x).has .escapes = false from hx] at this
    cases this

/-- Marks elsewhere may grow: there are only fewer paths to look at. -/
theorem Saturated.grows {p : Program} {g : Graph} {m m' : Marks} {root : LocId}
    (h : Saturated p g m root) (hg : m.Grows m') (hr : m'.attrsOf root = m.attrsOf root) :
    Saturated p g m' root := by
  intro l d hl hp
  exact (h l d hl (hp.mono hg.open_subset)).grows hg hr

namespace Walk

/-- The number with which a location was last reached. -/
def number (w : Walk) (l : LocId) : Option Int := (w.visits.getD l none).map (·.derefs)

/-! ## Relaxing -/

/-- `x` needs no visit with number `d`: it escapes, or is not in the graph, or has a number that
is no greater. -/
def Reached (w : Walk) (x : LocId) (d : Int) : Prop :=
  (w.marks.attrsOf x).escapes = true ∨ w.visits.size ≤ x ∨ ∃ n, n ≤ d ∧ w.number x = some n

/-- `w'` is `w` after edges of `l`, reached after `d` dereferences, were relaxed. -/
structure Relaxes (a : Adder) (g : Graph) (l : LocId) (d : Int) (w w' : Walk) : Prop where
  marks : w'.marks = w.marks
  todo : w'.todo = w.todo
  size : w'.visits.size = w.visits.size
  lower : ∀ x n, w.number x = some n → ∃ n', n' ≤ n ∧ w'.number x = some n'
  kept : ∀ x, x ∈ w.stack → x ∈ w'.stack
  changed : ∀ x, w'.number x = w.number x ∨ x ∈ w'.stack
  stacked : ∀ x, x ∈ w'.stack → x ∈ w.stack ∨ ∃ n, w'.number x = some n
  source : ∀ x n, w'.number x = some n → w.number x = some n ∨ ∃ e ∈ (g.loc l).edges,
    e.src = x ∧ (w.marks.attrsOf x).escapes = false ∧ n = a.add (max d 0) e.derefs

theorem Relaxes.refl (a : Adder) (g : Graph) (l : LocId) (d : Int) (w : Walk) :
    Relaxes a g l d w w where
  marks := rfl
  todo := rfl
  size := rfl
  lower _ n h := ⟨n, Int.le_refl n, h⟩
  kept _ h := h
  changed _ := .inl rfl
  stacked _ h := .inl h
  source _ _ h := .inl h

theorem Relaxes.trans {a : Adder} {g : Graph} {l : LocId} {d : Int} {w w' w'' : Walk}
    (h : Relaxes a g l d w w') (k : Relaxes a g l d w' w'') : Relaxes a g l d w w'' where
  marks := k.marks.trans h.marks
  todo := k.todo.trans h.todo
  size := k.size.trans h.size
  lower := by
    intro x n hn
    obtain ⟨n', hn', hb⟩ := h.lower x n hn
    obtain ⟨n'', hn'', hc⟩ := k.lower x n' hb
    exact ⟨n'', by omega, hc⟩
  kept x hx := k.kept x (h.kept x hx)
  changed := by
    intro x
    rcases k.changed x with hk | hk
    · rcases h.changed x with hh | hh
      · exact .inl (hk.trans hh)
      · exact .inr (k.kept x hh)
    · exact .inr hk
  stacked := by
    intro x hx
    rcases k.stacked x hx with hb | hn
    · rcases h.stacked x hb with ha | ⟨n, hn⟩
      · exact .inl ha
      · obtain ⟨n', -, hc⟩ := k.lower x n hn
        exact .inr ⟨n', hc⟩
    · exact .inr hn
  source := by
    intro x n hn
    rcases k.source x n hn with hb | ⟨e, he, hs, hx, hd⟩
    · exact h.source x n hb
    · exact .inr ⟨e, he, hs, by rw [← h.marks]; exact hx, hd⟩

theorem Reached.mono {w : Walk} {x : LocId} {n n' : Int} (h : w.Reached x n) (hn : n ≤ n') :
    w.Reached x n' := by
  rcases h with h | h | ⟨m, hm, h⟩
  · exact .inl h
  · exact .inr (.inl h)
  · exact .inr (.inr ⟨m, by omega, h⟩)

theorem Reached.relaxes {a : Adder} {g : Graph} {l : LocId} {d : Int} {w w' : Walk} {x : LocId}
    {n : Int} (h : w.Reached x n) (hr : Relaxes a g l d w w') : w'.Reached x n := by
  rcases h with h | h | ⟨m, hm, h⟩
  · exact .inl (by rw [hr.marks]; exact h)
  · exact .inr (.inl (by rw [hr.size]; exact h))
  · obtain ⟨m', hm', h'⟩ := hr.lower x m h
    exact .inr (.inr ⟨m', by omega, h'⟩)

theorem getD_setIfInBounds {α : Type} {vs : Array (Option α)} {l : LocId} (hl : l < vs.size)
    (v : α) (x : LocId) :
    (vs.setIfInBounds l (some v)).getD x none = if x = l then some v else vs.getD x none := by
  rw [Array.getD_eq_getD_getElem?, Array.getD_eq_getD_getElem?, Array.getElem?_setIfInBounds]
  by_cases hx : x = l
  · subst hx
    rw [if_pos rfl, if_pos rfl, if_pos hl]
    rfl
  · rw [if_neg (Ne.symm hx), if_neg hx]

theorem number_setIfInBounds (w : Walk) (x l : LocId) (hl : l < w.visits.size) (v : Visit) :
    ((w.visits.setIfInBounds l (some v)).getD x none).map (·.derefs) =
      if x = l then some v.derefs else w.number x := by
  rw [getD_setIfInBounds hl]
  split <;> rfl

/-- What relaxing one edge can do: nothing, if the source needs no visit, or else it gives the
source a number that is less than before. -/
theorem relax_cases (a : Adder) (l : LocId) (d : Int) (w : Walk) (e : Edge) :
    (relax a l d w e = w ∧ w.Reached e.src (a.add d e.derefs)) ∨
      ((w.marks.attrsOf e.src).escapes = false ∧ e.src < w.visits.size ∧
        (∀ n, w.number e.src = some n → a.add d e.derefs < n) ∧
        (relax a l d w e).marks = w.marks ∧ (relax a l d w e).todo = w.todo ∧
        (relax a l d w e).visits.size = w.visits.size ∧
        (relax a l d w e).stack = w.stack.insert e.src ∧
        ∀ x, (relax a l d w e).number x =
          if x = e.src then some (a.add d e.derefs) else w.number x) := by
  cases he : (w.marks.attrsOf e.src).escapes with
  | true => exact .inl ⟨by unfold relax; rw [if_pos he], .inl he⟩
  | false =>
    have hne : ¬ (w.marks.attrsOf e.src).escapes = true := by rw [he]; exact Bool.false_ne_true
    cases hv : w.visits[e.src]? with
    | none =>
      refine .inl ⟨by unfold relax; rw [if_neg hne, hv], .inr (.inl ?_)⟩
      exact Array.getElem?_eq_none_iff.1 hv
    | some old =>
      have hlt : e.src < w.visits.size := (Array.getElem?_eq_some_iff.1 hv).1
      have hnum : w.number e.src = old.map (·.derefs) := by
        unfold number
        rw [Array.getD_eq_getD_getElem?, hv]
        rfl
      by_cases hlow : lowers (a.add d e.derefs) old = true
      · have hr : relax a l d w e =
            { w with
              visits := w.visits.setIfInBounds e.src
                (some ⟨a.add d e.derefs, some ⟨l, e.src, e.derefs, e.notes⟩⟩)
              stack := w.stack.insert e.src
              relaxed := ⟨e.src, l, a.add d e.derefs⟩ :: w.relaxed } := by
          unfold relax
          rw [if_neg hne, hv]
          dsimp only
          rw [if_pos hlow]
        refine .inr ⟨rfl, hlt, ?_, ?_⟩
        · intro n hn
          rw [hnum] at hn
          obtain ⟨v, rfl, rfl⟩ := Option.map_eq_some_iff.1 hn
          exact of_decide_eq_true hlow
        · rw [hr]
          exact ⟨rfl, rfl, Array.size_setIfInBounds, rfl, fun x => number_setIfInBounds w x _ hlt _⟩
      · refine .inl ⟨?_, .inr (.inr ?_)⟩
        · unfold relax
          rw [if_neg hne, hv]
          dsimp only
          rw [if_neg hlow]
        · cases old with
          | none => exact absurd rfl hlow
          | some v =>
            have : ¬ a.add d e.derefs < v.derefs := fun h => hlow (decide_eq_true h)
            exact ⟨v.derefs, by omega, hnum⟩

theorem relaxes_relax {a : Adder} {g : Graph} {l : LocId} {d : Int} {e : Edge}
    (he : e ∈ (g.loc l).edges) (w : Walk) : Relaxes a g l d w (relax a l (max d 0) w e) := by
  rcases relax_cases a l (max d 0) w e with ⟨hw, -⟩ | ⟨hesc, hlt, hlow, hm, ht, hsz, hst, hnum⟩
  · rw [hw]
    exact .refl a g l d w
  · refine ⟨hm, ht, hsz, ?_, ?_, ?_, ?_, ?_⟩
    · intro x n hn
      rw [hnum x]
      by_cases hx : x = e.src
      · subst hx
        have := hlow n hn
        exact ⟨_, by omega, if_pos rfl⟩
      · exact ⟨n, Int.le_refl n, by rw [if_neg hx]; exact hn⟩
    · intro x hx
      rw [hst]
      exact List.mem_insert_of_mem hx
    · intro x
      by_cases hx : x = e.src
      · right
        rw [hst, hx]
        exact List.mem_insert_self
      · left
        rw [hnum x, if_neg hx]
    · intro x hx
      rw [hst] at hx
      rcases List.mem_insert_iff.1 hx with rfl | hx
      · exact .inr ⟨_, by rw [hnum, if_pos rfl]⟩
      · exact .inl hx
    · intro x n hn
      rw [hnum x] at hn
      by_cases hx : x = e.src
      · subst hx
        rw [if_pos rfl] at hn
        cases hn
        exact .inr ⟨e, he, rfl, hesc, rfl⟩
      · rw [if_neg hx] at hn
        exact .inl hn

theorem reached_relax (a : Adder) (l : LocId) (d : Int) (w : Walk) (e : Edge) :
    (relax a l d w e).Reached e.src (a.add d e.derefs) := by
  rcases relax_cases a l d w e with ⟨hw, hr⟩ | ⟨-, -, -, -, -, -, -, hnum⟩
  · rw [hw]
    exact hr
  · exact .inr (.inr ⟨a.add d e.derefs, Int.le_refl _, by rw [hnum, if_pos rfl]⟩)

/-- Relaxing edges one after the other leaves none of their sources in need of a visit. -/
theorem relaxes_foldl {a : Adder} {g : Graph} {l : LocId} {d : Int} (es : List Edge)
    (hes : ∀ e ∈ es, e ∈ (g.loc l).edges) (w : Walk) :
    Relaxes a g l d w (es.foldl (relax a l (max d 0)) w) ∧
      ∀ e ∈ es, (es.foldl (relax a l (max d 0)) w).Reached e.src (max d 0 + e.derefs) := by
  induction es generalizing w with
  | nil => exact ⟨.refl a g l d w, fun e he => by cases he⟩
  | cons e es ih =>
    have h1 : Relaxes a g l d w (relax a l (max d 0) w e) := relaxes_relax (hes e (by simp)) w
    obtain ⟨h2, hr⟩ := ih (fun e he => hes e (by simp [he])) (relax a l (max d 0) w e)
    refine ⟨h1.trans h2, ?_⟩
    intro e' he'
    rcases List.mem_cons.1 he' with rfl | he'
    · exact ((reached_relax a l (max d 0) w e').mono (a.add_le _ _ (by omega))).relaxes h2
    · exact hr e' he'

/-! ## Learning -/

section Learn

variable (p : Program) (g : Graph) (record : Bool) (root : LocId) (w : Walk) (l : LocId) (d : Int)

theorem mark_leaks : (w.mark p g record root l d).leaks =
    w.marks.leaks.modify l (leaked p g (w.marks.attrsOf root) root l d) := by
  unfold mark markPath
  dsimp only
  split
  · split <;> rfl
  · rfl

theorem learn_leaks : (w.learn p g record root l d).marks.leaks =
    w.marks.leaks.modify l (leaked p g (w.marks.attrsOf root) root l d) := by
  rw [← w.mark_leaks p g record root l d]
  unfold learn
  dsimp only
  split <;> rfl

/-- Either location `l` lacks nothing and stays as it is, or it gets what it lacks and goes on
the list of roots. -/
theorem learn_cases (hl : l < w.marks.attrs.size) :
    (learned p g (w.marks.attrsOf root) root l d ≤ w.marks.attrsOf l ∧
        (w.learn p g record root l d).marks.attrs = w.marks.attrs ∧
        (w.learn p g record root l d).todo = w.todo) ∨
      (w.marks.lacks l (learned p g (w.marks.attrsOf root) root l d) = true ∧
        (w.learn p g record root l d).marks.attrs =
          w.marks.attrs.modify l (·.union (learned p g (w.marks.attrsOf root) root l d)) ∧
        (w.learn p g record root l d).todo = w.todo.insert l) := by
  have hm := w.mark_attrs p g record root l d
  by_cases h : w.marks.lacks l (learned p g (w.marks.attrsOf root) root l d) = true
  · refine .inr ⟨h, ?_⟩
    unfold learn
    dsimp only
    rw [if_pos h]
    refine ⟨?_, rfl⟩
    rw [← hm]
    rfl
  · refine .inl ⟨?_, ?_⟩
    · rw [w.marks.lacks_iff l hl, not_not] at h
      exact h
    · unfold learn
      dsimp only
      rw [if_neg h]
      exact ⟨hm, rfl⟩

theorem learn_attrsOf (hl : l < w.marks.attrs.size) (x : LocId) :
    (w.learn p g record root l d).marks.attrsOf x = w.marks.attrsOf x ∨
      x = l ∧ l ∈ (w.learn p g record root l d).todo ∧
        (w.learn p g record root l d).marks.attrsOf x =
          (w.marks.attrsOf x).union (learned p g (w.marks.attrsOf root) root l d) := by
  unfold Marks.attrsOf
  rcases w.learn_cases p g record root l d hl with ⟨-, ha, -⟩ | ⟨-, ha, ht⟩
  · exact .inl (by rw [ha])
  · rw [ha, getD_modify _ l x hl]
    by_cases hx : x = l
    · subst hx
      refine .inr ⟨rfl, by rw [ht]; exact List.mem_insert_self, ?_⟩
      rw [if_pos rfl]
      rfl
    · exact .inl (by rw [if_neg hx])

theorem learn_leaksOf (hl : l < w.marks.leaks.size) (x : LocId) :
    (w.learn p g record root l d).marks.leaksOf x =
      if x = l then leaked p g (w.marks.attrsOf root) root l d (w.marks.leaksOf l)
      else w.marks.leaksOf x := by
  unfold Marks.leaksOf
  rw [w.learn_leaks p g record root l d, getD_modify _ l x hl]

theorem mem_learn_todo {x : LocId} (hx : x ∈ w.todo) : x ∈ (w.learn p g record root l d).todo := by
  unfold learn
  dsimp only
  split
  · exact List.mem_insert_of_mem hx
  · exact hx

theorem mem_of_mem_learn_todo {x : LocId} (hx : x ∈ (w.learn p g record root l d).todo) :
    x ∈ w.todo ∨ x = l := by
  unfold learn at hx
  dsimp only at hx
  split at hx
  · exact (List.mem_insert_iff.1 hx).symm
  · exact .inl hx

theorem learn_grows (hf : w.marks.Fits g) (hl : l < g.size) :
    w.marks.Grows (w.learn p g record root l d).marks := by
  constructor
  · intro x
    rcases w.learn_attrsOf p g record root l d (by rw [hf.attrs]; exact hl) x with h | ⟨-, -, h⟩
    · rw [h]
      exact Attrs.le_refl _
    · rw [h]
      exact Attrs.le_union_left _ _
  · intro x s n hn
    rw [w.learn_leaksOf p g record root l d (by rw [hf.leaks]; exact hl)]
    by_cases hx : x = l
    · subst hx
      rw [if_pos rfl]
      exact within_leaked_of_within p g _ root x d hn
    · rw [if_neg hx]
      exact hn

theorem learn_fits (hf : w.marks.Fits g) (hl : l < g.size) :
    (w.learn p g record root l d).marks.Fits g := by
  constructor
  · rcases w.learn_cases p g record root l d (by rw [hf.attrs]; exact hl) with
      ⟨-, ha, -⟩ | ⟨-, ha, -⟩
    · rw [ha]
      exact hf.attrs
    · rw [ha, Array.size_modify]
      exact hf.attrs
  · rw [w.learn_leaks p g record root l d, Array.size_modify]
    exact hf.leaks

/-- After learning `l` knows everything, unless it is the root itself and has changed. -/
theorem learn_knows (hf : w.marks.Fits g) (hl : l < g.size)
    (hr : (w.learn p g record root l d).marks.attrsOf root = w.marks.attrsOf root) :
    Knows p g (w.learn p g record root l d).marks root l d := by
  have hla : l < w.marks.attrs.size := by rw [hf.attrs]; exact hl
  constructor
  · rw [hr]
    rcases w.learn_cases p g record root l d hla with ⟨hle, ha, -⟩ | ⟨-, ha, -⟩
    · exact Attrs.le_trans hle ((w.learn_grows p g record root l d hf hl).attrs l)
    · unfold Marks.attrsOf
      rw [ha, getD_modify _ l l hla, if_pos rfl]
      exact Attrs.le_union_right _ _
  · intro hp s hs
    rw [hr] at hs
    rw [w.learn_leaksOf p g record root l d (by rw [hf.leaks]; exact hl), if_pos rfl]
    exact within_leaked d _ hp hs

theorem learn_number (x : LocId) : (w.learn p g record root l d).number x = w.number x := by
  unfold number
  rw [learn_visits]

end Learn

/-! ## Steps -/

/-- Marks and numbers for exactly the locations of the graph, and a number for each that is on
the stack. -/
structure Fits (g : Graph) (w : Walk) : Prop where
  marks : w.marks.Fits g
  visits : w.visits.size = g.size
  stack : ∀ x, x ∈ w.stack → ∃ n, w.number x = some n

theorem Fits.lt_size {g : Graph} {w : Walk} (hf : w.Fits g) {l : LocId} {d : Int}
    (h : w.number l = some d) : l < g.size := by
  apply Nat.lt_of_not_le
  intro hl
  unfold number at h
  rw [Array.getD_eq_getD_getElem?, Array.getElem?_eq_none (by rw [hf.visits]; exact hl)] at h
  cases h

theorem Reached.exists_number {g : Graph} {w : Walk} {x : LocId} {d : Int} (h : w.Reached x d)
    (hf : w.Fits g) (hopen : x ∈ w.marks.open) (hx : x < g.size) :
    ∃ n, n ≤ d ∧ w.number x = some n := by
  rcases h with hesc | hsz | hnum
  · rw [show (w.marks.attrsOf x).escapes = false from hopen] at hesc
    cases hesc
  · rw [hf.visits] at hsz
    exact absurd hx (Nat.not_lt.2 hsz)
  · exact hnum

section Step

variable (a : Adder) (p : Program) (g : Graph) (record : Bool) (root : LocId)

/-- A step is learning and then relaxing; all edges are relaxed unless the location lacks something
and turns escaping. -/
theorem step_spec {w : Walk} {l : LocId} {d : Int} (hf : w.Fits g) (hd : w.number l = some d) :
    Relaxes a g l d (w.learn p g record root l d) (w.step a p g record root l) ∧
      ((w.marks.lacks l (learned p g (w.marks.attrsOf root) root l d) = true ∧
          l ∈ (w.step a p g record root l).todo ∧
          ((w.step a p g record root l).marks.attrsOf l).escapes = true) ∨
        ∀ e ∈ (g.loc l).edges,
          (w.step a p g record root l).Reached e.src (max d 0 + e.derefs)) := by
  have hl : l < w.marks.attrs.size := by rw [hf.marks.attrs]; exact hf.lt_size hd
  obtain ⟨v, hv, rfl⟩ := Option.map_eq_some_iff.1 hd
  by_cases ht : w.turnsEscaping p g root l v.derefs = true
  · have hs : w.step a p g record root l = w.learn p g record root l v.derefs := by
      unfold step
      rw [hv]
      dsimp only
      rw [if_pos ht]
    rw [hs]
    refine ⟨.refl a g l v.derefs _, .inl ?_⟩
    unfold turnsEscaping at ht
    rw [Bool.and_eq_true] at ht
    rcases w.learn_cases p g record root l v.derefs hl with ⟨hle, -, -⟩ | ⟨-, ha, htodo⟩
    · rw [w.marks.lacks_iff l hl] at ht
      exact absurd hle ht.1
    · refine ⟨ht.1, by rw [htodo]; exact List.mem_insert_self, ?_⟩
      unfold Marks.attrsOf
      rw [ha, getD_modify _ l l hl, if_pos rfl]
      exact ht.2
  · have hs : w.step a p g record root l =
        (g.loc l).edges.foldl (relax a l (max v.derefs 0))
          (w.learn p g record root l v.derefs) := by
      unfold step
      rw [hv]
      dsimp only
      rw [if_neg ht]
    rw [hs]
    obtain ⟨h1, h2⟩ := relaxes_foldl (a := a) (d := v.derefs) (g.loc l).edges (fun _ he => he)
      (w.learn p g record root l v.derefs)
    exact ⟨h1, .inr h2⟩

theorem grows_step {w : Walk} {l : LocId} {d : Int} (hf : w.Fits g) (hd : w.number l = some d) :
    w.marks.Grows (w.step a p g record root l).marks := by
  rw [(step_spec a p g record root hf hd).1.marks]
  exact w.learn_grows p g record root l d hf.marks (hf.lt_size hd)

theorem exists_number_step {w : Walk} {l : LocId} {d : Int} (hf : w.Fits g)
    (hd : w.number l = some d) {x : LocId} {n : Int} (hn : w.number x = some n) :
    ∃ n', n' ≤ n ∧ (w.step a p g record root l).number x = some n' := by
  obtain ⟨hr, -⟩ := step_spec a p g record root hf hd
  exact hr.lower x n (by rw [learn_number]; exact hn)

theorem Reached.step {w : Walk} {l : LocId} {d : Int} (hf : w.Fits g) (hd : w.number l = some d)
    {x : LocId} {n : Int} (h : w.Reached x n) : (w.step a p g record root l).Reached x n := by
  obtain ⟨hr, -⟩ := step_spec a p g record root hf hd
  have hlearn : (w.learn p g record root l d).Reached x n := by
    rcases h with he | hsz | ⟨k, hk, hnum⟩
    · refine .inl ?_
      exact (w.learn_grows p g record root l d hf.marks (hf.lt_size hd)).attrs x .escapes he
    · exact .inr (.inl (by rw [learn_visits]; exact hsz))
    · exact .inr (.inr ⟨k, hk, by rw [learn_number]; exact hnum⟩)
  exact hlearn.relaxes hr

/-- A step puts every location with a new number on the stack.  So what is to hold of all others is
carried over, except for `l` itself, which was just taken from there. -/
theorem stacked_or_step {w : Walk} {l : LocId} {d : Int} (hf : w.Fits g)
    (hd : w.number l = some d) {D D' : LocId → Int → Prop}
    (hD : ∀ x n, w.number x = some n → x = l ∨ x ∈ w.stack ∨ D x n) (hl : D' l d)
    (hkeep : ∀ x n, D x n → D' x n) :
    ∀ x n, (w.step a p g record root l).number x = some n →
      x ∈ (w.step a p g record root l).stack ∨ D' x n := by
  obtain ⟨hr, -⟩ := step_spec a p g record root hf hd
  intro x n hn
  rcases hr.changed x with hc | hc
  · rw [hn, learn_number] at hc
    rcases hD x n hc.symm with rfl | hx | hx
    · rw [hd] at hc
      cases hc
      exact .inr hl
    · exact .inl (hr.kept x (by rw [learn_stack]; exact hx))
    · exact .inr (hkeep x n hx)
  · exact .inl hc

/-- What has happened since a walk began with the marks `m` and the roots `todo`. -/
structure Since (m : Marks) (todo : List LocId) (w : Walk) : Prop where
  fits : w.Fits g
  grows : m.Grows w.marks
  kept : ∀ x, x ∈ todo → x ∈ w.todo
  queued : ∀ x, w.marks.attrsOf x = m.attrsOf x ∨ x ∈ w.todo
  bounded : ∀ x, x ∈ w.todo → x ∈ todo ∨ x < g.size

theorem since_step {m : Marks} {todo : List LocId} {w : Walk} {l : LocId} {d : Int}
    (h : Since g m todo w) (hd : w.number l = some d) :
    Since g m todo (w.step a p g record root l) := by
  have hl := h.fits.lt_size hd
  have hla : l < w.marks.attrs.size := by rw [h.fits.marks.attrs]; exact hl
  obtain ⟨hr, -⟩ := step_spec a p g record root h.fits hd
  constructor
  · refine ⟨?_, ?_, ?_⟩
    · rw [hr.marks]
      exact w.learn_fits p g record root l d h.fits.marks hl
    · rw [hr.size, learn_visits]
      exact h.fits.visits
    · intro x hx
      rcases hr.stacked x hx with hx | hx
      · rw [learn_stack] at hx
        obtain ⟨n, hn⟩ := h.fits.stack x hx
        obtain ⟨n', -, hn'⟩ := exists_number_step a p g record root h.fits hd hn
        exact ⟨n', hn'⟩
      · exact hx
  · exact h.grows.trans (grows_step a p g record root h.fits hd)
  · intro x hx
    rw [hr.todo]
    exact w.mem_learn_todo p g record root l d (h.kept x hx)
  · intro x
    rw [hr.marks, hr.todo]
    rcases w.learn_attrsOf p g record root l d hla x with hx | ⟨rfl, hx, -⟩
    · rcases h.queued x with hq | hq
      · exact .inl (hx.trans hq)
      · exact .inr (w.mem_learn_todo p g record root l d hq)
    · exact .inr hx
  · intro x hx
    rw [hr.todo] at hx
    rcases w.mem_of_mem_learn_todo p g record root l d hx with hx | rfl
    · exact h.bounded x hx
    · exact .inr hl

/-- Location `l` has learned from the root, and its number is handed on unless it escapes. -/
def Done (w : Walk) (l : LocId) (d : Int) : Prop :=
  Knows p g w.marks root l d ∧
    ((l ≠ root ∧ (w.marks.attrsOf l).escapes = true) ∨
      ∀ e ∈ (g.loc l).edges, w.Reached e.src (max d 0 + e.derefs))

/-- Every location with a number is done or on the stack. -/
structure Spread (w : Walk) : Prop where
  zero : ∃ n, n ≤ 0 ∧ w.number root = some n
  done : ∀ x n, w.number x = some n → x ∈ w.stack ∨ Done p g root w x n

theorem Done.step {w : Walk} {l : LocId} {d : Int} (hf : w.Fits g) (hd : w.number l = some d)
    (hroot : (w.step a p g record root l).marks.attrsOf root = w.marks.attrsOf root) {x : LocId}
    {n : Int} (h : Done p g root w x n) : Done p g root (w.step a p g record root l) x n := by
  have hg := grows_step a p g record root hf hd
  refine ⟨h.1.grows hg hroot, ?_⟩
  rcases h.2 with ⟨hx, he⟩ | he
  · exact .inl ⟨hx, hg.attrs x .escapes he⟩
  · exact .inr fun e hm => (he e hm).step a p g record root hf hd

/-- The step for `l` keeps the invariant, where `l` was just taken from the stack; or the root
itself has changed and is to be walked again. -/
theorem spread_step {w : Walk} {l : LocId} {d : Int} (hf : w.Fits g) (hd : w.number l = some d)
    (hroot : ∃ n, n ≤ 0 ∧ w.number root = some n)
    (hdone : ∀ x n, w.number x = some n → x = l ∨ x ∈ w.stack ∨ Done p g root w x n) :
    root ∈ (w.step a p g record root l).todo ∨ Spread p g root (w.step a p g record root l) := by
  have hl := hf.lt_size hd
  have hla : l < w.marks.attrs.size := by rw [hf.marks.attrs]; exact hl
  obtain ⟨hr, hedges⟩ := step_spec a p g record root hf hd
  rcases w.learn_attrsOf p g record root l d hla root with hsame | ⟨rfl, ht, -⟩
  · -- the attributes of the root are those the step has taught
    by_cases hturn : root = l ∧ l ∈ (w.step a p g record root l).todo
    · left
      rw [hturn.1]
      exact hturn.1 ▸ hturn.2
    have hsame' : (w.step a p g record root l).marks.attrsOf root = w.marks.attrsOf root := by
      rw [hr.marks]
      exact hsame
    right
    constructor
    · obtain ⟨n, hn, hnum⟩ := hroot
      obtain ⟨n', hn', hnum'⟩ := exists_number_step a p g record root hf hd hnum
      exact ⟨n', by omega, hnum'⟩
    · refine stacked_or_step a p g record root hf hd hdone ⟨?_, ?_⟩ fun x n hx =>
        hx.step a p g record root hf hd hsame'
      · rw [hr.marks]
        exact w.learn_knows p g record root l d hf.marks hl hsame
      · rcases hedges with ⟨-, ht, he⟩ | he
        · exact .inl ⟨fun hx => hturn ⟨hx.symm, ht⟩, he⟩
        · exact .inr he
  · left
    rw [hr.todo]
    exact ht

/-- `N` holds of the root at zero and is handed on along the edges from sources in `via`. -/
structure Carried (via : Set LocId) (N : LocId → Int → Prop) : Prop where
  zero : N root 0
  step : ∀ l d e, N l d → e ∈ (g.loc l).edges → e.src ∈ via → N e.src (a.add (max d 0) e.derefs)

/-- `N` holds of all numbers. -/
def Genuine (N : LocId → Int → Prop) (w : Walk) : Prop := ∀ x n, w.number x = some n → N x n

theorem genuine_step {via : Set LocId} {N : LocId → Int → Prop} {w : Walk} {l : LocId} {d : Int}
    (hN : Carried a g root via N) (hf : w.Fits g) (hd : w.number l = some d)
    (hvia : w.marks.open ⊆ via) (h : Genuine N w) :
    Genuine N (w.step a p g record root l) := by
  have hl := hf.lt_size hd
  obtain ⟨hr, -⟩ := step_spec a p g record root hf hd
  intro x n hn
  rcases hr.source x n hn with hn | ⟨e, he, rfl, hesc, rfl⟩
  · rw [learn_number] at hn
    exact h x n hn
  · have hg := w.learn_grows p g record root l d hf.marks hl
    exact hN.step l d e (h l d hd) he (hvia (hg.open_subset hesc))

end Step

end Walk

/-- With exact sums numbers are lengths of flow paths. -/
theorem FlowPath.carried (g : Graph) (via : Set LocId) (root : LocId) :
    Walk.Carried .exact g root via (FlowPath g via root) :=
  ⟨.root, fun _ _ _ h he hs => .step h he hs⟩

end EscapeFlow
