import EscapeFlow.Proofs.Drain
import Mathlib.Data.List.Nodup
import Mathlib.Data.List.Perm.Subperm

/-!
# Sums that fit into 32 bits

A walk can make a sum of 32 bits that is not the true one, and then every number it hands on is
wrong.  `Graph.SumsFit` excludes this: along no flow path that passes no location twice does a sum
get above the greatest integer of 32 bits.  These paths are enough, although numbers of a walk come
from all sorts of paths, because a number is never above the length of the path on which its
location was first reached (`Walk.Tame`).  Under this condition solving is the same as with exact
sums:

    g.SumsFit → g.solve p o = g.solveWith .exact p o                           (Graph.SumsFit.solve)

It holds where no weight is above the greatest integer divided by the number of locations
(`Graph.Light.sumsFit`).
-/

namespace EscapeFlow

/-- A flow path from `l` into `root` along the locations `passed`, none of them twice. -/
inductive SimplePath (g : Graph) (via : Set LocId) (root : LocId) :
    List LocId → LocId → Int → Prop
  | root : SimplePath g via root [root] root 0
  | step {passed : List LocId} {m : LocId} {d : Int} {e : Edge} :
      SimplePath g via root passed m d → e ∈ (g.loc m).edges → e.src ∈ via → e.src ∉ passed →
      SimplePath g via root (e.src :: passed) e.src (max d 0 + e.derefs)

namespace Graph

/-- No sum along a path into `root` is above the greatest integer of 32 bits. -/
def SumsFitFrom (g : Graph) (via : Set LocId) (root : LocId) : Prop :=
  ∀ passed l d, SimplePath g via root passed l d → ∀ e ∈ (g.loc l).edges, e.src ∈ via →
    max d 0 + e.derefs ≤ maxInt32

def SumsFit (g : Graph) : Prop := ∀ root, root < g.size → g.SumsFitFrom Set.univ root

/-- As many times as there are locations, no weight gets above the greatest integer of 32 bits. -/
def Light (g : Graph) : Prop :=
  ∀ l, l < g.size → ∀ e ∈ (g.loc l).edges, g.size * e.derefs ≤ maxInt32

instance (g : Graph) : Decidable g.Light :=
  inferInstanceAs (Decidable (∀ l, l < g.size → _))

end Graph

/-! ## Small weights -/

namespace SimplePath

variable {g : Graph} {via : Set LocId} {root l : LocId} {passed : List LocId} {d : Int}

theorem nodup (h : SimplePath g via root passed l d) : passed.Nodup := by
  induction h with
  | root => exact List.nodup_singleton root
  | step _ _ _ hnew ih => exact List.nodup_cons.2 ⟨hnew, ih⟩

theorem lt_size (h : SimplePath g via root passed l d) (hl : l < g.size) :
    ∀ x ∈ passed, x < g.size := by
  induction h with
  | root =>
    intro x hx
    rwa [List.mem_singleton.1 hx]
  | step _ he _ _ ih =>
    intro x hx
    rcases List.mem_cons.1 hx with rfl | hx
    · exact hl
    · exact ih (Graph.lt_size_of_mem_edges he) x hx

theorem mono {via' : Set LocId} (hv : via ⊆ via') (h : SimplePath g via root passed l d) :
    SimplePath g via' root passed l d := by
  induction h with
  | root => exact .root
  | step _ he hs hnew ih => exact .step ih he (hv hs) hnew

/-- A path has one edge less than it passes locations. -/
theorem length_le {bound : Int} (hb : 0 ≤ bound)
    (hw : ∀ m, m < g.size → ∀ e ∈ (g.loc m).edges, e.derefs ≤ bound)
    (h : SimplePath g via root passed l d) : max d 0 + bound ≤ passed.length * bound := by
  induction h with
  | root => simp
  | @step passed m d e _ he _ _ ih =>
    have hle := hw m (Graph.lt_size_of_mem_edges he) e he
    rw [List.length_cons, Nat.cast_succ, Int.add_mul, Int.one_mul]
    omega

end SimplePath

theorem Graph.SumsFitFrom.mono {g : Graph} {via via' : Set LocId} {root : LocId}
    (h : g.SumsFitFrom via' root) (hv : via ⊆ via') : g.SumsFitFrom via root :=
  fun passed l d hp e he hs => h passed l d (hp.mono hv) e he (hv hs)

theorem Graph.Light.sumsFit {g : Graph} (h : g.Light) : g.SumsFit := by
  intro root _ passed l d hp e he _
  have hl := Graph.lt_size_of_mem_edges he
  have hpos : (0 : Int) < g.size := by omega
  have hw : ∀ m, m < g.size → ∀ e ∈ (g.loc m).edges, e.derefs ≤ maxInt32 / g.size := by
    intro m hm e he
    rw [Int.le_ediv_iff_mul_le hpos, Int.mul_comm]
    exact h m hm e he
  have hb : 0 ≤ maxInt32 / g.size := Int.ediv_nonneg (by decide) (by omega)
  have hcount : passed.length ≤ g.size := by
    have hsub : passed ⊆ List.range g.size := fun x hx => List.mem_range.2 (hp.lt_size hl x hx)
    simpa using (hp.nodup.subperm hsub).length_le
  calc max d 0 + e.derefs
      ≤ max d 0 + maxInt32 / g.size := by have := hw l hl e he; omega
    _ ≤ passed.length * (maxInt32 / g.size) := hp.length_le hb hw
    _ ≤ g.size * (maxInt32 / g.size) := Int.mul_le_mul_of_nonneg_right (by omega) hb
    _ ≤ maxInt32 := Int.mul_ediv_self_le (by omega)

/-! ## Walks -/

namespace Walk

variable {p : Program} {g : Graph} {record : Bool} {root : LocId} {via : Set LocId}

/-- A number is at most the length of a path along locations that have numbers. -/
def Tame (g : Graph) (via : Set LocId) (root : LocId) (w : Walk) : Prop :=
  ∀ x n, w.number x = some n → ∃ passed d, SimplePath g via root passed x d ∧ n ≤ d ∧
    ∀ y ∈ passed, ∃ k, w.number y = some k

theorem tame_start (m : Marks) (todo : List LocId) (relaxed : List Relaxation)
    (hr : root < g.size) : Tame g via root (start g root m todo relaxed) := by
  intro x n hn
  have hnum := start_number g root m todo relaxed hr
  rw [hnum] at hn
  split at hn
  · next hx =>
    cases hn
    subst hx
    refine ⟨[x], 0, .root, Int.le_refl 0, fun y hy => ⟨0, ?_⟩⟩
    rw [hnum, if_pos (List.mem_singleton.1 hy)]
  · cases hn

theorem Tame.step (a : Adder) {w : Walk} {l : LocId} {d : Int} (h : Tame g via root w)
    (hf : w.Fits g) (hd : w.number l = some d) (hvia : w.marks.open ⊆ via) :
    Tame g via root (w.step a p g record root l) := by
  obtain ⟨hr, -⟩ := step_spec a p g record root hf hd
  have hkeep : ∀ y k, w.number y = some k →
      ∃ k', k' ≤ k ∧ (w.step a p g record root l).number y = some k' :=
    fun y k hy => exists_number_step a p g record root hf hd hy
  have hpassed : ∀ {ys : List LocId}, (∀ y ∈ ys, ∃ k, w.number y = some k) →
      ∀ y ∈ ys, ∃ k, (w.step a p g record root l).number y = some k := by
    intro ys hys y hy
    obtain ⟨k, hk⟩ := hys y hy
    obtain ⟨k', -, hk'⟩ := hkeep y k hk
    exact ⟨k', hk'⟩
  intro x n hn
  cases hx : w.number x with
  | some k =>
    -- a number that is lowered stays below the same path
    obtain ⟨passed, c, hpath, hc, hys⟩ := h x k hx
    obtain ⟨k', hk', hstep⟩ := hkeep x k hx
    rw [hn] at hstep
    cases hstep
    exact ⟨passed, c, hpath, by omega, hpassed hys⟩
  | none =>
    -- the path to `l` passes locations with numbers only, so it goes on to `x`
    rcases hr.source x n hn with hold | ⟨e, he, rfl, hesc, rfl⟩
    · rw [learn_number, hx] at hold
      cases hold
    · obtain ⟨passed, c, hpath, hc, hys⟩ := h l d hd
      have hnew : e.src ∉ passed := by
        intro hmem
        obtain ⟨k, hk⟩ := hys e.src hmem
        rw [hx] at hk
        cases hk
      have hopen := (w.learn_grows p g record root l d hf.marks (hf.lt_size hd)).open_subset hesc
      have hsum := a.add_le (max d 0) e.derefs (by omega)
      refine ⟨e.src :: passed, _, .step hpath he (hvia hopen) hnew, by omega, ?_⟩
      intro y hy
      rcases List.mem_cons.1 hy with rfl | hy
      · exact ⟨_, hn⟩
      · exact hpassed hys y hy

theorem relax_int32 {l : LocId} {d : Int} {w : Walk} {e : Edge}
    (h : (w.marks.attrsOf e.src).escapes = false → d + e.derefs ≤ maxInt32) :
    relax .int32 l d w e = relax .exact l d w e := by
  unfold relax
  cases hesc : (w.marks.attrsOf e.src).escapes with
  | true => rw [if_pos rfl, if_pos rfl]
  | false => rw [Adder.int32_add_eq (h hesc), Adder.exact_add]

theorem foldl_relax_int32 {l : LocId} {d : Int} (es : List Edge) (w : Walk)
    (h : ∀ e ∈ es, (w.marks.attrsOf e.src).escapes = false → d + e.derefs ≤ maxInt32) :
    es.foldl (relax .int32 l d) w = es.foldl (relax .exact l d) w := by
  induction es generalizing w with
  | nil => rfl
  | cons e es ih =>
    have hmarks : (relax .exact l d w e).marks = w.marks := by
      rcases relax_cases .exact l d w e with ⟨hw, -⟩ | ⟨-, -, -, hm, -⟩
      · rw [hw]
      · exact hm
    rw [List.foldl_cons, List.foldl_cons, relax_int32 (h e List.mem_cons_self)]
    exact ih _ fun e' he' => by
      rw [hmarks]
      exact h e' (List.mem_cons_of_mem e he')

theorem Tame.step_int32 {w : Walk} {l : LocId} {d : Int} (h : Tame g via root w)
    (hfit : g.SumsFitFrom via root) (hf : w.Fits g) (hd : w.number l = some d)
    (hvia : w.marks.open ⊆ via) :
    w.step .int32 p g record root l = w.step .exact p g record root l := by
  obtain ⟨v, hv, rfl⟩ := Option.map_eq_some_iff.1 hd
  obtain ⟨passed, c, hpath, hc, -⟩ := h l v.derefs hd
  unfold Walk.step
  rw [hv]
  dsimp only
  split
  · rfl
  · refine foldl_relax_int32 _ _ fun e he hesc => ?_
    have hopen :=
      (w.learn_grows p g record root l v.derefs hf.marks (hf.lt_size hd)).open_subset hesc
    have := hfit passed l c hpath e he (hvia hopen)
    omega

/-- A walk whose sums fit is the same with exact sums. -/
theorem run_int32 {m : Marks} {todo : List LocId} {w : Walk} (hs : Since g m todo w)
    (hvia : m.open ⊆ via) (hfit : g.SumsFitFrom via root) (h : Tame g via root w) :
    w.run .int32 p g record root = w.run .exact p g record root := by
  fun_induction run .int32 p g record root w with
  | case1 w hstack => rw [run_of_nil _ p g record root hstack]
  | case2 w l rest hstack ih =>
    obtain ⟨hf, d, hd⟩ := hs.fits.pop g hstack
    have hpop : Tame g via root { w with stack := rest } := h
    have hopen : w.marks.open ⊆ via := fun x hx => hvia (hs.grows.open_subset hx)
    rw [ih (since_step .int32 p g record root (hs.pop g hstack) hd) (hpop.step .int32 hf hd hopen),
      run_of_cons _ p g record root hstack, hpop.step_int32 hfit hf hd hopen]

theorem start_run_int32 {m : Marks} (todo : List LocId) (relaxed : List Relaxation)
    (hf : m.Fits g) (hr : root < g.size) (hvia : m.open ⊆ via) (hfit : g.SumsFitFrom via root) :
    (start g root m todo relaxed).run .int32 p g record root =
      (start g root m todo relaxed).run .exact p g record root :=
  run_int32 (since_start g root m todo relaxed hf hr) hvia hfit
    (tame_start m todo relaxed hr)

end Walk

/-! ## Solving -/

section Solving

variable {p : Program} {g : Graph} (h : g.SumsFit)

include h

theorem Graph.SumsFit.drains {record : Bool} {m m' : Marks} {todo : List LocId}
    (hd : Drains .int32 p g record m todo m') (hf : m.Fits g) (ht : ∀ r ∈ todo, r < g.size) :
    Drains .exact p g record m todo m' := by
  induction hd with
  | done m => exact .done m
  | @walk m m' todo root relaxed hroot _ ih =>
    have hr := ht root hroot
    have hrun := Walk.since_run .int32 p g record root
      (Walk.since_start g root m (todo.erase root) relaxed hf hr)
    have hnext := ih hrun.fits.marks (Drains.lt_of_mem_todo relaxed hf ht hroot)
    rw [Walk.start_run_int32 _ relaxed hf hr (fun _ _ => trivial) (h root hr)] at hnext
    exact .walk relaxed hroot hnext

theorem Graph.SumsFit.drain (o : SolveOptions) (m : Marks) (todo : List LocId) (walks : Nat)
    (relaxed : List Relaxation) (hf : m.Fits g) (ht : ∀ r ∈ todo, r < g.size) :
    g.drain .int32 p o m todo walks relaxed = g.drain .exact p o m todo walks relaxed := by
  fun_induction Graph.drain .int32 p g o m todo walks relaxed with
  | case1 m walks relaxed => rw [Graph.drain]
  | case2 m walks relaxed root rest hbound => rw [Graph.drain, if_pos hbound]
  | case3 m walks relaxed root rest hbound ih =>
    have hr := ht root List.mem_cons_self
    have hstart := Walk.since_start g root m rest relaxed hf hr
    have hrun := Walk.since_run .int32 p g o.recordPaths root hstart
    have hnext := ih hrun.fits.marks fun x hx =>
      (hrun.bounded x hx).elim (fun hx => ht x (List.mem_cons_of_mem root hx)) id
    rw [hnext, Walk.start_run_int32 rest relaxed hf hr (fun _ _ => trivial) (h root hr)]
    conv_rhs => rw [Graph.drain, if_neg hbound]

/-- Where all sums fit, solving is the same as with exact sums. -/
theorem Graph.SumsFit.solve (o : SolveOptions) : g.solve p o = g.solveWith .exact p o :=
  h.drain o g.marks (List.range g.size) 0 []
    ⟨by simp [marks, size], by simp [marks, size]⟩ fun _ hr => List.mem_range.1 hr

end Solving

end EscapeFlow
