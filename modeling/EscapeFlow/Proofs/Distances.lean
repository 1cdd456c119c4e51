import EscapeFlow.Proofs.Attributes
import Mathlib

/-!
# Numbers of a walk are distances

A walk keeps a stack of locations and relaxes the edges of the one on top.  The naive way to the
same numbers is to go over all locations again and again and to lower what can be lowered, until
nothing changes (`Graph.naiveNumbers`).  That ends on all graphs, since a number is never below the
least weight of an edge.

In both cases the numbers are lengths of flow paths and are handed on along all edges.  There is
only one way to number the locations like that, cycles of negative weight or not:

    Settled g via root num → (num l = some d ↔ l < g.size ∧ Distance g via root l d)
                                                                        (Settled.eq_some_iff)

So a walk during which no location starts to escape, and whose sums fit into 32 bits, ends with the
numbers of the naive way (`run_numbers`).
-/

namespace EscapeFlow

open Relation

/-! ## Settled numbers -/

/-- The numbers are lengths of flow paths and are handed on. -/
structure Settled (g : Graph) (via : Set LocId) (root : LocId) (num : LocId → Option Int) : Prop
    extends HandedOn g via root num where
  inGraph : ∀ l n, num l = some n → l < g.size
  length : ∀ l n, num l = some n → FlowPath g via root l n

namespace Settled

variable {g : Graph} {via : Set LocId} {root : LocId} {num num' : LocId → Option Int}

theorem eq_some_iff (h : Settled g via root num) {l : LocId} {d : Int} :
    num l = some d ↔ l < g.size ∧ Distance g via root l d := by
  constructor
  · intro hd
    have hl := h.inGraph l d hd
    refine ⟨hl, h.length l d hd, fun n hn => ?_⟩
    obtain ⟨n', hn', hnum⟩ := h.exists_le hl hn
    rw [hd] at hnum
    cases hnum
    exact hn'
  · rintro ⟨hl, hpath, hleast⟩
    obtain ⟨n, hn, hnum⟩ := h.exists_le hl hpath
    have hge : d ≤ n := hleast (h.length l n hnum)
    rw [hnum, show n = d by omega]

theorem unique (h : Settled g via root num) (h' : Settled g via root num') : num = num' := by
  funext l
  apply Option.ext
  intro d
  rw [h.eq_some_iff, h'.eq_some_iff]

/-- The number of the root itself is zero if there is no way back to it of negative length. -/
theorem eq_zero_iff (h : Settled g via root num) :
    num root = some 0 ↔ ∀ d, FlowPath g via root root d → 0 ≤ d := by
  obtain ⟨n, -, hn⟩ := h.zero
  have hlt := h.inGraph root n hn
  rw [h.eq_some_iff]
  constructor
  · exact fun hdist d hd => hdist.2.2 hd
  · exact fun hall => ⟨hlt, .root, fun d hd => hall d hd⟩

end Settled

/-! ## Edges whose sources do not escape -/

namespace Graph

def openEdges (g : Graph) (m : Marks) (l : LocId) : List Edge :=
  (g.loc l).edges.filter fun e => !(m.attrsOf e.src).escapes

/-- `x` flows into `l` by an edge, and does not escape. -/
def FlowsInto (g : Graph) (m : Marks) (x l : LocId) : Prop := ∃ e ∈ g.openEdges m l, e.src = x

theorem mem_openEdges {g : Graph} {m : Marks} {l : LocId} {e : Edge} :
    e ∈ g.openEdges m l ↔ e ∈ (g.loc l).edges ∧ e.src ∈ m.open := by
  simp [openEdges, Marks.open]

theorem exists_flowPath_iff {g : Graph} {m : Marks} {root l : LocId} :
    (∃ d, FlowPath g m.open root l d) ↔ ReflTransGen (g.FlowsInto m) l root := by
  constructor
  · rintro ⟨d, hd⟩
    induction hd with
    | root => exact .refl
    | step _ he hsrc ih => exact .head ⟨_, mem_openEdges.2 ⟨he, hsrc⟩, rfl⟩ ih
  · intro h
    induction h using ReflTransGen.head_induction_on with
    | refl => exact ⟨0, .root⟩
    | head hflow _ ih =>
      obtain ⟨e, he, rfl⟩ := hflow
      obtain ⟨d, hd⟩ := ih
      obtain ⟨he, hsrc⟩ := mem_openEdges.1 he
      exact ⟨_, .step hd he hsrc⟩

end Graph

/-! ## Naive iteration -/

/-- For each location of a graph its number, if it has one. -/
abbrev Numbers := Array (Option Int)

namespace Numbers

def number (t : Numbers) (l : LocId) : Option Int := t.getD l none

/-- Gives `l` the number `d` unless it has one that is no greater. -/
def lower (t : Numbers) (l : LocId) (d : Int) : Numbers :=
  if (t.number l).all (d < ·) then t.setIfInBounds l (some d) else t

/-- What is left to do: locations without a number first, then how far the others are above
`low`. -/
def room (low : Int) (t : Numbers) : ℕ ×ₗ ℕ :=
  toLex (t.toList.countP (·.isNone),
    total (fun n => (n.map fun d => (d - low).toNat).getD 0) t.toList)

theorem lt_size {t : Numbers} {l : LocId} {n : Int} (h : t.number l = some n) : l < t.size := by
  apply Nat.lt_of_not_le
  intro hl
  unfold number at h
  rw [Array.getD_eq_getD_getElem?, Array.getElem?_eq_none hl] at h
  cases h

theorem ext_number {t t' : Numbers} (hsize : t.size = t'.size)
    (h : ∀ l, t.number l = t'.number l) : t = t' := by
  refine Array.ext hsize fun i hi hi' => ?_
  have hnum := h i
  unfold number at hnum
  rw [Array.getD_eq_getD_getElem?, Array.getD_eq_getD_getElem?, Array.getElem?_eq_getElem hi,
    Array.getElem?_eq_getElem hi'] at hnum
  exact hnum

@[simp]
theorem size_lower (t : Numbers) (l : LocId) (d : Int) : (t.lower l d).size = t.size := by
  unfold lower
  split <;> simp

/-- What lowering can do: nothing, if the location needs no number, or else it gives the location a
number that is less than before. -/
theorem lower_cases (t : Numbers) (l : LocId) (d : Int) :
    (t.lower l d = t ∧ (t.size ≤ l ∨ ∃ n, n ≤ d ∧ t.number l = some n)) ∨
      (l < t.size ∧ (∀ n, t.number l = some n → d < n) ∧
        t.lower l d = t.setIfInBounds l (some d) ∧
        ∀ x, (t.lower l d).number x = if x = l then some d else t.number x) := by
  unfold lower
  by_cases hall : (t.number l).all (d < ·) = true
  · rw [if_pos hall]
    by_cases hl : l < t.size
    · refine .inr ⟨hl, ?_, rfl, fun x => ?_⟩
      · intro n hn
        simpa [hn] using hall
      · exact Walk.getD_setIfInBounds hl d x
    · exact .inl ⟨Array.setIfInBounds_eq_of_size_le (Nat.not_lt.1 hl), .inl (Nat.not_lt.1 hl)⟩
  · rw [if_neg hall]
    refine .inl ⟨rfl, .inr ?_⟩
    cases hn : t.number l with
    | none => simp [hn] at hall
    | some n => exact ⟨n, by simpa [hn] using hall, rfl⟩

theorem lower_eq_or_lt {low d : Int} (hd : low ≤ d) (t : Numbers) (l : LocId) :
    t.lower l d = t ∨ (t.lower l d).room low < t.room low := by
  rcases t.lower_cases l d with ⟨hsame, -⟩ | ⟨hl, hless, hset, -⟩
  · exact .inl hsame
  · right
    rw [hset]
    have hl' : l < t.toList.length := by simpa using hl
    have hnum : t.number l = t.toList[l] := by
      unfold number
      rw [Array.getD_eq_getD_getElem?, Array.getElem?_eq_getElem hl]
      simp
    have hcount := List.countP_set (p := (·.isNone)) (l := t.toList) (i := l) hl' (a := some d)
    have htotal := total_set (fun n => (n.map fun d => (d - low).toNat).getD 0) t.toList l hl'
      (some d)
    unfold room
    rw [Array.toList_setIfInBounds, Prod.Lex.toLex_lt_toLex]
    rw [← hnum] at hcount htotal
    cases hn : t.number l with
    | none =>
      left
      have hpos : 0 < t.toList.countP (·.isNone) :=
        List.countP_pos_iff.2 ⟨none, (hnum.symm.trans hn) ▸ List.getElem_mem hl', rfl⟩
      simp only [hn, Option.isNone_none, Option.isNone_some, Bool.false_eq_true, if_true,
        if_false] at hcount
      omega
    | some n =>
      right
      have := hless n hn
      simp only [hn, Option.isNone_some, Bool.false_eq_true, if_false] at hcount
      simp only [hn, Option.map_some, Option.getD_some] at htotal
      exact ⟨hcount, by omega⟩

end Numbers

/-- If each step of a fold changes nothing or leaves less room, so does the fold, and it changes
nothing only if none of the steps does. -/
theorem foldl_eq_or_lt {α β γ : Type} [Preorder γ] (room : β → γ) (f : β → α → β) (xs : List α)
    (h : ∀ b, ∀ a ∈ xs, f b a = b ∨ room (f b a) < room b) (b : β) :
    (xs.foldl f b = b ∧ ∀ a ∈ xs, f b a = b) ∨ room (xs.foldl f b) < room b := by
  induction xs generalizing b with
  | nil => exact .inl ⟨rfl, nofun⟩
  | cons x xs ih =>
    rw [List.foldl_cons]
    have hrest := ih fun b a ha => h b a (List.mem_cons_of_mem x ha)
    rcases h b x List.mem_cons_self with hx | hx
    · rw [hx]
      refine (hrest b).imp ?_ id
      rintro ⟨hfold, hall⟩
      exact ⟨hfold, List.forall_mem_cons.2 ⟨hx, hall⟩⟩
    · right
      rcases hrest (f b x) with ⟨hfold, -⟩ | hlt
      · rwa [hfold]
      · exact lt_trans hlt hx

namespace Graph

/-- Lowers the numbers of the sources of all edges of `l` whose sources do not escape. -/
def lowerFrom (g : Graph) (m : Marks) (t : Numbers) (l : LocId) : Numbers :=
  match t.number l with
  | none => t
  | some d => (g.openEdges m l).foldl (fun t e => t.lower e.src (max d 0 + e.derefs)) t

def sweep (g : Graph) (m : Marks) (t : Numbers) : Numbers :=
  (List.range g.size).foldl (g.lowerFrom m) t

/-- No edge of `l` has anything to lower. -/
def Still (g : Graph) (m : Marks) (t : Numbers) (l : LocId) : Prop :=
  ∀ d, t.number l = some d → ∀ e ∈ g.openEdges m l, t.lower e.src (max d 0 + e.derefs) = t

section Sweep

variable (g : Graph) (m : Marks)

theorem lowerFrom_eq_or_lt (t : Numbers) (l : LocId) :
    (g.lowerFrom m t l = t ∧ g.Still m t l) ∨
      (g.lowerFrom m t l).room g.lowest < t.room g.lowest := by
  unfold lowerFrom Still
  cases hd : t.number l with
  | none => exact .inl ⟨rfl, nofun⟩
  | some d =>
    have hedges := foldl_eq_or_lt (Numbers.room g.lowest)
      (fun t e => t.lower e.src (max d 0 + e.derefs)) (g.openEdges m l) (fun t e he => by
        have := lowest_le (mem_openEdges.1 he).1
        exact t.lower_eq_or_lt (by omega) e.src) t
    refine hedges.imp ?_ id
    rintro ⟨hfold, hall⟩
    refine ⟨hfold, ?_⟩
    rintro _ ⟨⟩
    exact hall

theorem sweep_eq_or_lt (t : Numbers) :
    (g.sweep m t = t ∧ ∀ l, l < g.size → g.Still m t l) ∨
      (g.sweep m t).room g.lowest < t.room g.lowest := by
  have hsweep := foldl_eq_or_lt (Numbers.room g.lowest) (g.lowerFrom m) (List.range g.size)
    (fun t l _ => (g.lowerFrom_eq_or_lt m t l).imp And.left id) t
  refine hsweep.imp ?_ id
  rintro ⟨hfold, hall⟩
  refine ⟨hfold, fun l hl => ?_⟩
  rcases g.lowerFrom_eq_or_lt m t l with ⟨-, hstill⟩ | hlt
  · exact hstill
  · rw [hall l (List.mem_range.2 hl)] at hlt
    exact absurd hlt (lt_irrefl _)

/-- Sweeps until nothing changes. -/
def settle (g : Graph) (m : Marks) (t : Numbers) : Numbers :=
  if g.sweep m t = t then t else g.settle m (g.sweep m t)
termination_by t.room g.lowest
decreasing_by
  next hchanged => exact (g.sweep_eq_or_lt m t).resolve_left fun h => hchanged h.1

/-- The numbers of all locations that flow into `root`, by naive iteration. -/
def naiveNumbers (g : Graph) (m : Marks) (root : LocId) : Numbers :=
  g.settle m ((Array.replicate g.size none).setIfInBounds root (some 0))

theorem sweep_settle (t : Numbers) : g.sweep m (g.settle m t) = g.settle m t := by
  fun_induction settle g m t with
  | case1 t h => exact h
  | case2 t h ih => exact ih

end Sweep

/-! ## Sweeps keep to lengths -/

/-- Numbers for exactly the locations of the graph, all of them lengths of flow paths, and one for
the root that is at most zero. -/
structure Lengths (g : Graph) (m : Marks) (root : LocId) (t : Numbers) : Prop where
  size : t.size = g.size
  zero : ∃ n, n ≤ 0 ∧ t.number root = some n
  length : ∀ l n, t.number l = some n → FlowPath g m.open root l n

namespace Lengths

variable {g : Graph} {m : Marks} {root : LocId} {t : Numbers}

theorem lower (h : g.Lengths m root t) {l : LocId} {d : Int} (hd : FlowPath g m.open root l d) :
    g.Lengths m root (t.lower l d) := by
  rcases t.lower_cases l d with ⟨hsame, -⟩ | ⟨hl, hless, -, hnum⟩
  · rwa [hsame]
  · refine ⟨by rw [Numbers.size_lower, h.size], ?_, fun x n hn => ?_⟩
    · obtain ⟨n, hn, hroot⟩ := h.zero
      rw [hnum]
      by_cases hl : root = l
      · have := hless n (hl ▸ hroot)
        exact ⟨d, by omega, if_pos hl⟩
      · exact ⟨n, hn, by rw [if_neg hl, hroot]⟩
    · rw [hnum] at hn
      split at hn
      · next hx =>
        cases hn
        exact hx ▸ hd
      · exact h.length x n hn

theorem lowerFrom (h : g.Lengths m root t) (l : LocId) :
    g.Lengths m root (g.lowerFrom m t l) := by
  unfold Graph.lowerFrom
  split
  · exact h
  · next d hd =>
    refine List.foldlRecOn _ _ h fun t ht e he => ?_
    obtain ⟨he, hsrc⟩ := mem_openEdges.1 he
    exact ht.lower (.step (h.length l d hd) he hsrc)

theorem sweep (h : g.Lengths m root t) : g.Lengths m root (g.sweep m t) :=
  List.foldlRecOn _ _ h fun _ ht l _ => ht.lowerFrom l

theorem settle (h : g.Lengths m root t) : g.Lengths m root (g.settle m t) := by
  fun_induction Graph.settle g m t with
  | case1 t _ => exact h
  | case2 t _ ih => exact ih h.sweep

/-- Lengths that no sweep lowers are handed on. -/
theorem settled (h : g.Lengths m root t) (hsweep : g.sweep m t = t) :
    Settled g m.open root t.number := by
  refine ⟨⟨h.zero, fun l n hn _ e he hsrc hlt => ?_⟩, fun l n hn => ?_, h.length⟩
  · obtain ⟨-, hstill⟩ | hlt := g.sweep_eq_or_lt m t
    · have hlower := hstill l (lt_size_of_mem_edges he) n hn e (mem_openEdges.2 ⟨he, hsrc⟩)
      rcases t.lower_cases e.src (max n 0 + e.derefs) with ⟨-, hle | hnum⟩ | ⟨-, hless, -, hnum⟩
      · exact absurd hlt (by rw [← h.size]; exact Nat.not_lt.2 hle)
      · exact hnum
      · -- lowering would have changed the number
        have hsrc := hnum e.src
        rw [if_pos rfl, hlower] at hsrc
        exact absurd (hless _ hsrc) (lt_irrefl _)
    · rw [hsweep] at hlt
      exact absurd hlt (lt_irrefl _)
  · rw [← h.size]
    exact Numbers.lt_size hn

end Lengths

theorem lengths_start (g : Graph) (m : Marks) {root : LocId} (hr : root < g.size) :
    g.Lengths m root ((Array.replicate g.size none).setIfInBounds root (some 0)) := by
  have hnum : ∀ x, Numbers.number ((Array.replicate g.size none).setIfInBounds root (some 0)) x =
      if x = root then some 0 else none :=
    Walk.getD_replicate_setIfInBounds hr 0
  refine ⟨by simp, ⟨0, Int.le_refl 0, by rw [hnum, if_pos rfl]⟩, fun l n hn => ?_⟩
  rw [hnum] at hn
  split at hn
  · next hl =>
    cases hn
    exact hl ▸ .root
  · cases hn

theorem naiveNumbers_lengths (g : Graph) (m : Marks) {root : LocId} (hr : root < g.size) :
    g.Lengths m root (g.naiveNumbers m root) :=
  (g.lengths_start m hr).settle

theorem sweep_naiveNumbers (g : Graph) (m : Marks) (root : LocId) :
    g.sweep m (g.naiveNumbers m root) = g.naiveNumbers m root :=
  g.sweep_settle m _

end Graph

/-! ## The numbers of a walk -/

theorem learned_zero_le (p : Program) (g : Graph) (attrs : Attrs) (root l : LocId) :
    learned p g attrs root l 0 ≤ attrs := by
  intro a ha
  simp only [learned, Attrs.has_union, Int.lt_irrefl, if_false, Attrs.has_empty, Bool.false_or,
    Int.le_refl, if_true, Attrs.has_inter, Bool.and_eq_true] at ha
  exact ha.1

namespace Walk

def numbers (w : Walk) : Numbers := w.visits.map (·.map (·.derefs))

theorem size_numbers (w : Walk) : w.numbers.size = w.visits.size := Array.size_map

theorem numbers_number (w : Walk) (l : LocId) : w.numbers.number l = w.number l := by
  unfold numbers Numbers.number number
  rw [Array.getD_eq_getD_getElem?, Array.getD_eq_getD_getElem?, Array.getElem?_map]
  cases w.visits[l]? <;> rfl

section Steady

variable (a : Adder) (p : Program) (g : Graph) (record : Bool) (root : LocId)

/-- `l` flows into the root along `via`.  Only the root itself, at zero, may be outside. -/
def Led (via : Set LocId) (l : LocId) (d : Int) : Prop :=
  (∃ n, FlowPath g via root l n) ∧ (l = root ∧ d = 0 ∨ l ∈ via)

theorem led_carried (via : Set LocId) : Carried a g root via (Led g root via) where
  zero := ⟨⟨0, .root⟩, .inl ⟨rfl, rfl⟩⟩
  step := by
    rintro l d e ⟨⟨n, hn⟩, -⟩ he hsrc
    exact ⟨⟨_, .step hn he hsrc⟩, .inr hsrc⟩

/-- Location `l` has handed the number `d` on along its edges. -/
def Hands (w : Walk) (l : LocId) (d : Int) : Prop :=
  ∀ e ∈ (g.loc l).edges, w.Reached e.src (max d 0 + e.derefs)

theorem Hands.step {w : Walk} {l : LocId} {d : Int} (hf : w.Fits g) (hd : w.number l = some d)
    {x : LocId} {n : Int} (h : Hands g w x n) : Hands g (w.step a p g record root l) x n :=
  fun e he => (h e he).step a p g record root hf hd

/-- If no location has started to escape, the location of a step has handed on its number.  For a
location other than the root would have started to; and the root, if it escapes from the start, is
reached once, with zero, and lacks nothing of its own. -/
theorem hands_step {m : Marks} {todo : List LocId} {w : Walk} {l : LocId} {d : Int}
    (h : Since g m todo w) (hg : Genuine (Led g root m.open) w) (hd : w.number l = some d)
    (hkeep : m.open ⊆ (w.step a p g record root l).marks.open) :
    Hands g (w.step a p g record root l) l d := by
  rcases (step_spec a p g record root h.fits hd).2 with ⟨hlacks, -, hesc⟩ | hreached
  · have hclosed : l ∉ m.open := by
      intro hl
      rw [show ((w.step a p g record root l).marks.attrsOf l).escapes = false from hkeep hl] at hesc
      cases hesc
    have hl : l < w.marks.attrs.size := by
      rw [h.fits.marks.attrs]
      exact h.fits.lt_size hd
    rw [w.marks.lacks_iff l hl] at hlacks
    rcases (hg l d hd).2 with ⟨rfl, rfl⟩ | hsrc
    · exact absurd (learned_zero_le p g _ _ _) hlacks
    · exact absurd hsrc hclosed
  · exact hreached

/-- Every location with a number is on the stack or has handed it on. -/
structure Handing (w : Walk) : Prop where
  zero : ∃ n, n ≤ 0 ∧ w.number root = some n
  done : ∀ x n, w.number x = some n → x ∈ w.stack ∨ Hands g w x n

theorem handing_step {m : Marks} {todo : List LocId} {w : Walk} {l : LocId} {rest : List LocId}
    (h : Since g m todo w) (hg : Genuine (Led g root m.open) w) (hs : w.stack = l :: rest)
    (hw : Handing g root w)
    (hkeep : m.open ⊆ (step a p g record root { w with stack := rest } l).marks.open) :
    Handing g root (step a p g record root { w with stack := rest } l) := by
  obtain ⟨hf, d, hd⟩ := h.fits.pop g hs
  constructor
  · obtain ⟨n, hn, hroot⟩ := hw.zero
    obtain ⟨n', hn', hroot'⟩ := exists_number_step a p g record root hf hd hroot
    exact ⟨n', by omega, hroot'⟩
  · refine stacked_or_step a p g record root hf hd ?_
      (hands_step a p g record root (h.pop g hs) hg hd hkeep)
      (fun x n hx => Hands.step a p g record root hf hd hx)
    intro x n hn
    rcases hw.done x n hn with hx | hx
    · rw [hs] at hx
      exact (List.mem_cons.1 hx).imp id .inl
    · exact .inr (.inr hx)

theorem handing_run {m : Marks} {todo : List LocId} {w : Walk} (h : Since g m todo w)
    (hg : Genuine (Led g root m.open) w) (hw : Handing g root w)
    (hkeep : m.open ⊆ (w.run a p g record root).marks.open) :
    Handing g root (w.run a p g record root) := by
  refine (run_induct a p g record root (fun w => Since g m todo w ∧
    Genuine (Led g root m.open) w ∧ (m.open ⊆ w.marks.open → Handing g root w)) ?_ w
    ⟨h, hg, fun _ => hw⟩).2.2 hkeep
  rintro w l rest hs ⟨h, hg, hw⟩
  obtain ⟨hf, d, hd⟩ := h.fits.pop g hs
  refine ⟨since_step a p g record root (h.pop g hs) hd,
    genuine_step a p g record root (led_carried a g root m.open) hf hd h.grows.open_subset hg,
    fun hkeep => ?_⟩
  -- what has not started to escape after the step had not before
  have hbefore : m.open ⊆ w.marks.open :=
    fun x hx => (grows_step a p g record root hf hd).open_subset (hkeep hx)
  exact handing_step a p g record root h hg hs (hw hbefore) hkeep

theorem Handing.handedOn {m : Marks} {w : Walk} (h : Handing g root w) (hf : w.Fits g)
    (hs : w.stack = []) (hkeep : m.open ⊆ w.marks.open) : HandedOn g m.open root w.number := by
  refine ⟨h.zero, fun l n hn _ e he hsrc hlt => ?_⟩
  rcases h.done l n hn with hst | hhands
  · rw [hs] at hst
    cases hst
  · exact (hhands e he).exists_number hf (hkeep hsrc) hlt

section Start

variable {m : Marks} (todo : List LocId) (relaxed : List Relaxation) (hf : m.Fits g)
  (hr : root < g.size)

include hf hr

theorem run_handedOn
    (hkeep : m.open ⊆ ((start g root m todo relaxed).run a p g record root).marks.open) :
    HandedOn g m.open root ((start g root m todo relaxed).run a p g record root).number := by
  have h := since_start g root m todo relaxed hf hr
  have hg := genuine_start g root m todo relaxed (led_carried a g root m.open).zero hr
  have hstart : Handing g root (start g root m todo relaxed) :=
    ⟨⟨0, Int.le_refl 0, by rw [start_number g root m todo relaxed hr, if_pos rfl]⟩,
      fun _ _ hn => .inl (mem_start_stack g root m todo relaxed hr hn)⟩
  exact (handing_run a p g record root h hg hstart hkeep).handedOn g root
    (since_run a p g record root h).fits (run_stack a p g record root _) hkeep

/-- Whatever the sums, a walk numbers the locations that flow into its root. -/
theorem run_isSome_iff
    (hkeep : m.open ⊆ ((start g root m todo relaxed).run a p g record root).marks.open)
    {l : LocId} (hl : l < g.size) :
    (((start g root m todo relaxed).run a p g record root).number l).isSome ↔
      ∃ d, FlowPath g m.open root l d := by
  have hled := led_carried a g root m.open
  constructor
  · intro h
    obtain ⟨n, hn⟩ := Option.isSome_iff_exists.1 h
    exact (genuine_run a p g record root hled (since_start g root m todo relaxed hf hr)
      (fun _ hx => hx) (genuine_start g root m todo relaxed hled.zero hr) l n hn).1
  · rintro ⟨d, hd⟩
    obtain ⟨n, -, hn⟩ := (run_handedOn a p g record root todo relaxed hf hr hkeep).exists_le hl hd
    rw [hn]
    rfl

theorem run_settled
    (hkeep : m.open ⊆ ((start g root m todo relaxed).run .exact p g record root).marks.open) :
    Settled g m.open root ((start g root m todo relaxed).run .exact p g record root).number := by
  have h := since_start g root m todo relaxed hf hr
  have hpaths := FlowPath.carried g m.open root
  refine ⟨run_handedOn .exact p g record root todo relaxed hf hr hkeep, ?_, ?_⟩
  · exact fun _ _ hn => (since_run .exact p g record root h).fits.lt_size hn
  · exact genuine_run .exact p g record root hpaths h (fun _ hx => hx)
      (genuine_start g root m todo relaxed hpaths.zero hr)

end Start

end Steady

end Walk

/-- A location, and another one that flows into it after the greatest number of dereferences and is
flowed into in turn after one more. -/
def deepCopy : Graph where
  locs := #[
    { owner := .heap, attrs := .all },
    { owner := .mutator, attrs := .ofAttr .mutates },
    { owner := .callee, attrs := .ofAttr .calls },
    { owner := .temp, func := some ⟨0⟩, edges := [⟨4, 2147483647, []⟩] },
    { owner := .temp, func := some ⟨1⟩, edges := [⟨5, 1, []⟩] },
    { owner := .temp, func := some ⟨1⟩ }]

end EscapeFlow
