import EscapeFlow.Proofs.WalkStep

/-!
# What one walk does

What every step keeps, a walk keeps.  When it ends, the root is to be walked again, or every
location that flows into it along sources that do not escape knows what there is to learn from
the root:

    root ∈ w.todo ∨ Saturated p g w.marks root         (Walk.saturated_run, w the walk at its end)
-/

namespace EscapeFlow

namespace Walk

section Run

variable (a : Adder) (p : Program) (g : Graph) (record : Bool) (root : LocId)

theorem run_of_nil {w : Walk} (h : w.stack = []) : w.run a p g record root = w := by
  rw [run]
  split
  · rfl
  · next heq => rw [h] at heq; cases heq

theorem run_of_cons {w : Walk} {l : LocId} {rest : List LocId} (h : w.stack = l :: rest) :
    w.run a p g record root =
      (step a p g record root { w with stack := rest } l).run a p g record root := by
  rw [run]
  split
  · next heq => rw [h] at heq; cases heq
  · next heq =>
    rw [h] at heq
    cases heq
    rfl

theorem run_stack (w : Walk) : (w.run a p g record root).stack = [] := by
  fun_induction run a p g record root w with
  | case1 w h => exact h
  | case2 w l rest h ih => exact ih

/-- What every step keeps, a walk keeps. -/
theorem run_induct (P : Walk → Prop)
    (hP : ∀ w l rest, w.stack = l :: rest → P w →
      P (step a p g record root { w with stack := rest } l))
    (w : Walk) (h : P w) : P (w.run a p g record root) := by
  fun_induction run a p g record root w with
  | case1 w _ => exact h
  | case2 w l rest hs ih => exact ih (hP w l rest hs h)

theorem Fits.pop {w : Walk} {l : LocId} {rest : List LocId} (hf : w.Fits g)
    (hs : w.stack = l :: rest) :
    Fits g { w with stack := rest } ∧ ∃ d, w.number l = some d :=
  ⟨⟨hf.marks, hf.visits, fun x hx => hf.stack x (by rw [hs]; exact List.mem_cons_of_mem l hx)⟩,
    hf.stack l (by rw [hs]; exact List.mem_cons_self)⟩

theorem Since.pop {m : Marks} {todo : List LocId} {w : Walk} {l : LocId} {rest : List LocId}
    (h : Since g m todo w) (hs : w.stack = l :: rest) :
    Since g m todo { w with stack := rest } :=
  ⟨(h.fits.pop g hs).1, h.grows, h.kept, h.queued, h.bounded⟩

theorem since_run {m : Marks} {todo : List LocId} {w : Walk} (h : Since g m todo w) :
    Since g m todo (w.run a p g record root) := by
  refine run_induct a p g record root (Since g m todo) ?_ w h
  intro w l rest hs h
  obtain ⟨-, d, hd⟩ := h.fits.pop g hs
  exact since_step a p g record root (h.pop g hs) hd

theorem genuine_run {via : Set LocId} {N : LocId → Int → Prop} {m : Marks} {todo : List LocId}
    {w : Walk} (hN : Carried a g root via N) (h : Since g m todo w) (hvia : m.open ⊆ via)
    (hg : Genuine N w) : Genuine N (w.run a p g record root) := by
  refine (run_induct a p g record root (fun w => Since g m todo w ∧ Genuine N w) ?_ w ⟨h, hg⟩).2
  rintro w l rest hs ⟨h, hg⟩
  obtain ⟨hf, d, hd⟩ := h.fits.pop g hs
  refine ⟨since_step a p g record root (h.pop g hs) hd,
    genuine_step a p g record root hN hf hd ?_ hg⟩
  exact fun x hx => hvia (h.grows.open_subset hx)

/-- What learning keeps, wherever `N` leads, a walk keeps. -/
theorem marks_run {N : LocId → Int → Prop} {m : Marks} {todo : List LocId} {w : Walk}
    (hN : Carried a g root Set.univ N) (h : Since g m todo w) (hg : Genuine N w)
    (P : Marks → Prop)
    (hP : ∀ (w : Walk) (l : LocId) (d : Int), w.marks.Fits g → l < g.size → N l d →
      P w.marks → P (w.learn p g record root l d).marks)
    (hw : P w.marks) : P (w.run a p g record root).marks := by
  refine (run_induct a p g record root
    (fun w => Since g m todo w ∧ Genuine N w ∧ P w.marks) ?_ w ⟨h, hg, hw⟩).2.2
  rintro w l rest hs ⟨h, hg, hw⟩
  obtain ⟨hf, d, hd⟩ := h.fits.pop g hs
  refine ⟨since_step a p g record root (h.pop g hs) hd,
    genuine_step a p g record root hN hf hd (fun _ _ => trivial) hg, ?_⟩
  rw [(step_spec a p g record root hf hd).1.marks]
  exact hP { w with stack := rest } l d hf.marks (hf.lt_size hd) (hg l d hd) hw

theorem spread_run {m : Marks} {todo : List LocId} {w : Walk} (h : Since g m todo w)
    (hw : root ∈ w.todo ∨ Spread p g root w) :
    root ∈ (w.run a p g record root).todo ∨ Spread p g root (w.run a p g record root) := by
  refine (run_induct a p g record root
    (fun w => Since g m todo w ∧ (root ∈ w.todo ∨ Spread p g root w)) ?_ w ⟨h, hw⟩).2
  rintro w l rest hs ⟨h, hw⟩
  obtain ⟨hf, d, hd⟩ := h.fits.pop g hs
  refine ⟨since_step a p g record root (h.pop g hs) hd, ?_⟩
  rcases hw with hw | hw
  · left
    rw [(step_spec a p g record root hf hd).1.todo]
    exact mem_learn_todo p g record root _ l d hw
  · refine spread_step a p g record root hf hd hw.zero ?_
    intro x n hn
    rcases hw.done x n hn with hx | hx
    · rw [hs] at hx
      exact (List.mem_cons.1 hx).imp id .inl
    · exact .inr (.inr hx)

/-- With nothing on the stack, all numbers are handed on. -/
theorem Spread.handedOn {w : Walk} (h : Spread p g root w) (hf : w.Fits g) (hs : w.stack = []) :
    HandedOn g w.marks.open root w.number := by
  refine ⟨h.zero, fun k n hnum hk e he hsrc hlt => ?_⟩
  rcases h.done k n hnum with hst | ⟨-, ⟨hne, hesc⟩ | hdone⟩
  · rw [hs] at hst
    cases hst
  · rcases hk with hroot | hopen
    · exact absurd hroot hne
    · rw [show (w.marks.attrsOf k).escapes = false from hopen] at hesc
      cases hesc
  · exact (hdone e he).exists_number hf hsrc hlt

theorem Spread.saturated {w : Walk} (h : Spread p g root w) (hf : w.Fits g) (hs : w.stack = []) :
    Saturated p g w.marks root := by
  intro l d hl hp
  obtain ⟨n, hn, hnum⟩ := (h.handedOn p g root hf hs).exists_le hl hp
  rcases h.done l n hnum with hst | ⟨hk, -⟩
  · rw [hs] at hst
    cases hst
  · exact hk.mono hn

/-! ## From the start -/

theorem getD_replicate_setIfInBounds {α : Type} {n : Nat} {root : LocId} (hr : root < n) (v : α)
    (x : LocId) :
    ((Array.replicate n none).setIfInBounds root (some v)).getD x none =
      if x = root then some v else none := by
  rw [getD_setIfInBounds (by simpa using hr)]
  split
  · rfl
  · rw [Array.getD_eq_getD_getElem?, Array.getElem?_replicate]
    split <;> rfl

variable (m : Marks) (todo : List LocId) (relaxed : List Relaxation)

theorem start_visits (hr : root < g.size) (x : LocId) :
    (start g root m todo relaxed).visits.getD x none =
      if x = root then some ⟨0, none⟩ else none :=
  getD_replicate_setIfInBounds hr _ x

theorem start_number (hr : root < g.size) (x : LocId) :
    (start g root m todo relaxed).number x = if x = root then some 0 else none := by
  unfold number
  rw [start_visits g root m todo relaxed hr]
  split <;> rfl

theorem since_start (hf : m.Fits g) (hr : root < g.size) :
    Since g m todo (start g root m todo relaxed) := by
  refine ⟨⟨hf, by simp [start], ?_⟩, .refl m, fun _ hx => hx, fun _ => .inl rfl,
    fun _ hx => .inl hx⟩
  intro x hx
  have hx : x = root := by simpa [start] using hx
  exact ⟨0, by rw [start_number g root m todo relaxed hr, if_pos hx]⟩

theorem genuine_start {N : LocId → Int → Prop} (hN : N root 0) (hr : root < g.size) :
    Genuine N (start g root m todo relaxed) := by
  intro x n hn
  rw [start_number g root m todo relaxed hr] at hn
  split at hn
  · next hx =>
    cases hn
    rw [hx]
    exact hN
  · cases hn

theorem mem_start_stack (hr : root < g.size) {x : LocId} {n : Int}
    (hn : (start g root m todo relaxed).number x = some n) :
    x ∈ (start g root m todo relaxed).stack := by
  rw [start_number g root m todo relaxed hr] at hn
  split at hn
  · next hx => simp [start, hx]
  · cases hn

theorem spread_start (hr : root < g.size) : Spread p g root (start g root m todo relaxed) :=
  ⟨⟨0, Int.le_refl 0, by rw [start_number g root m todo relaxed hr, if_pos rfl]⟩,
    fun _ _ hn => .inl (mem_start_stack g root m todo relaxed hr hn)⟩

/-- After a walk its root is to be walked again, or has taught all there is. -/
theorem saturated_run (hf : m.Fits g) (hr : root < g.size) :
    root ∈ ((start g root m todo relaxed).run a p g record root).todo ∨
      Saturated p g ((start g root m todo relaxed).run a p g record root).marks root := by
  have h := since_start g root m todo relaxed hf hr
  rcases spread_run a p g record root h (.inr (spread_start p g root m todo relaxed hr))
    with ht | hs
  · exact .inl ht
  · exact .inr (hs.saturated p g root (since_run a p g record root h).fits
      (run_stack a p g record root _))

end Run

end Walk

end EscapeFlow
