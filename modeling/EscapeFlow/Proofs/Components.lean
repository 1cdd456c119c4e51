import EscapeFlow.Proofs.LowLink

/-!
# Components in the order of a search

A search that is over has found whole components (`Search.Settled`), and all that its starts lead
to is in one of them:

    v ∈ (components next V S).flatten ↔ ∃ u ∈ S, CanReach next u v        (mem_flatten_components)

They are the classes of vertices that lead to each other, and no component leads to a later one
(`emitted_components`).  Where a graph grows and nothing is added below what was there, the
components that there were come first and stay the same (`components_append`).
-/

namespace EscapeFlow.Schedule

variable {α : Type} [DecidableEq α] {next : α → List α} {V : List α}

namespace Search

variable {U : α → Prop} {s : Search α}

/-! ## Runs -/

theorem run_of_idle (h : s.frames = []) : s.run next V = s := by
  unfold run
  split
  · rfl
  · next hf =>
    rw [h] at hf
    cases hf

theorem run_of_frames {f : Frame α} {below : List (Frame α)} (h : s.frames = f :: below) :
    s.run next V = (s.step next V f below).run next V := by
  rw [run]
  split
  · next hf =>
    rw [h] at hf
    cases hf
  · next hf =>
    rw [h] at hf
    cases hf
    rfl

/-- What every step keeps a run keeps. -/
theorem run_induct (next : α → List α) (V : List α) (P : Search α → Prop)
    (hstep : ∀ s f below, s.frames = f :: below → P s → P (s.step next V f below))
    (s : Search α) (h : P s) : P (s.run next V) := by
  fun_induction run next V s with
  | case1 s hf => exact h
  | case2 s f below hf ih => exact ih (hstep s f below hf h)

theorem frames_run (next : α → List α) (V : List α) (s : Search α) :
    (s.run next V).frames = [] := by
  fun_induction run next V s with
  | case1 s hf => exact hf
  | case2 s f below hf ih => exact ih

/-- Vertices keep their numbers. -/
theorem isSome_index_run {v : α} (h : (s.index v).isSome) : ((s.run next V).index v).isSome := by
  refine run_induct next V (fun s => (s.index v).isSome) (fun s f below hf h => ?_) s h
  unfold step
  split
  · rwa [leave_index]
  · unfold look
    split
    · show (if v = _ then some s.current else s.index v).isSome
      split
      · rfl
      · exact h
    · split <;> exact h

/-- Components are added at the end. -/
theorem exists_found_run (next : α → List α) (V : List α) (s : Search α) :
    ∃ more, (s.run next V).found = s.found ++ more := by
  refine run_induct next V (fun s' => ∃ more, s'.found = s.found ++ more) ?_ s ⟨[], by simp⟩
  rintro s' f below hf ⟨more, hmore⟩
  unfold step
  split
  · unfold leave passDown
    split <;> split <;> first
      | exact ⟨more ++ [(popTo f.vertex s'.stack).1], by
          rw [← List.append_assoc, ← hmore]; rfl⟩
      | exact ⟨more, hmore⟩
  · unfold look
    split
    · exact ⟨more, hmore⟩
    · split <;> exact ⟨more, hmore⟩

/-! ## Searches that are over -/

/-- All that was entered is left. -/
structure Settled (next : α → List α) (U : α → Prop) (s : Search α) : Prop
    extends s.Sound next U where
  idle : s.frames = []

omit [DecidableEq α] in
theorem Settled.mem_done_iff (h : s.Settled next U) {v : α} :
    v ∈ s.done ↔ (s.index v).isSome := by
  have hstack : v ∉ s.stack := by
    intro hv
    obtain ⟨g, hg, -⟩ := h.linked.bottom v hv
    rw [IsOpen, h.idle] at hg
    cases hg
  rw [h.numbered.indexed, or_iff_right hstack]

section Visits

variable (hU : ∀ v, U v → ∀ w ∈ next v, U w) (hV : ∀ v, U v → v ∈ V)

include hU hV

theorem Settled.visit (h : s.Settled next U) {v : α} (hv : U v) :
    (s.visit next V v).Settled next U ∧ v ∈ (s.visit next V v).done ∧
      ∃ more, (s.visit next V v).found = s.found ++ more := by
  unfold Search.visit
  split
  · next hnew =>
    have hnone : s.index v = none := Option.isNone_iff_eq_none.1 (Bool.and_eq_true_iff.1 hnew).1
    have hreach : ∀ g, s.IsOpen g → CanReach next g v := by
      intro g hg
      rw [IsOpen, h.idle] at hg
      cases hg
    have henter : (s.enter next v).Sound next U :=
      ⟨h.numbered.enter hnone hv, h.linked.enter h.numbered hnone hreach, h.emitted⟩
    have hsound : ((s.enter next v).run next V).Sound next U :=
      run_induct next V (·.Sound next U) (fun _ _ _ hf h => h.step hU hV hf) _ henter
    have hsettled : ((s.enter next v).run next V).Settled next U := ⟨hsound, frames_run _ _ _⟩
    refine ⟨hsettled, hsettled.mem_done_iff.2 (isSome_index_run ?_), exists_found_run _ _ _⟩
    show (if v = v then some s.current else s.index v).isSome
    rw [if_pos rfl]
    rfl
  · next hold =>
    refine ⟨h, ?_, [], (List.append_nil _).symm⟩
    rw [h.mem_done_iff, Option.isSome_iff_ne_none]
    exact fun hnone => hold (Bool.and_eq_true_iff.2
      ⟨Option.isNone_iff_eq_none.2 hnone, List.contains_iff_mem.2 (hV v hv)⟩)

/-- Searches from one start after the other. -/
theorem Settled.visits (h : s.Settled next U) {S : List α} (hS : ∀ v ∈ S, U v) :
    (S.foldl (Search.visit next V) s).Settled next U ∧
      (∀ v ∈ S, v ∈ (S.foldl (Search.visit next V) s).done) ∧
      ∃ more, (S.foldl (Search.visit next V) s).found = s.found ++ more := by
  induction S generalizing s with
  | nil => exact ⟨h, List.forall_mem_nil _, [], (List.append_nil _).symm⟩
  | cons v S ih =>
    obtain ⟨hv, hS⟩ := List.forall_mem_cons.1 hS
    obtain ⟨hvisit, hdone, more, hmore⟩ := h.visit hU hV hv
    obtain ⟨hrest, hrestdone, more', hmore'⟩ := ih hvisit hS
    refine ⟨hrest, List.forall_mem_cons.2 ⟨?_, hrestdone⟩, more ++ more', ?_⟩
    · unfold done
      rw [List.foldl_cons, hmore', List.flatten_append]
      exact List.mem_append_left _ hdone
    · rw [List.foldl_cons, hmore', hmore, List.append_assoc]

end Visits

end Search

open Search

/-! ## Components -/

section Components

variable {S : List α} (hclosed : ∀ v ∈ V, next v ⊆ V) (hS : S ⊆ V)

include hclosed hS

omit [DecidableEq α] in
theorem mem_of_canReach {u v : α} (hu : u ∈ S) (h : CanReach next u v) : v ∈ V :=
  h.closed (fun x hx _ hy => hclosed x hx hy) (hS hu)

/-- A search finds what its starts lead to. -/
theorem settled_visits : (S.foldl (visit next V) {}).Settled next
      (fun v => ∃ u ∈ S, CanReach next u v) ∧ ∀ v ∈ S, v ∈ (components next V S).flatten := by
  have hempty : (({} : Search α)).Settled next (fun v => ∃ u ∈ S, CanReach next u v) :=
    ⟨sound_empty _ _, rfl⟩
  obtain ⟨hsettled, hdone, -⟩ := hempty.visits (V := V) (S := S)
    (fun v ⟨u, hu, hp⟩ w hw => ⟨u, hu, hp.tail hw⟩)
    (fun v ⟨u, hu, hp⟩ => mem_of_canReach hclosed hS hu hp) fun v hv => ⟨v, hv, .refl⟩
  exact ⟨hsettled, hdone⟩

theorem emitted_components : Emitted next (components next V S) :=
  (settled_visits hclosed hS).1.emitted

theorem mem_flatten_components {v : α} :
    v ∈ (components next V S).flatten ↔ ∃ u ∈ S, CanReach next u v := by
  obtain ⟨hsettled, hstarts⟩ := settled_visits hclosed hS
  constructor
  · exact fun hv => hsettled.numbered.within v (hsettled.mem_done_iff.1 hv)
  · rintro ⟨u, hu, hp⟩
    exact hp.closed (fun x hx _ hy => hsettled.emitted.closed x hx hy) (hstarts u hu)

end Components

/-! ## Graphs that grow -/

section

variable {next' : α → List α} {V' : List α} (hclosed : ∀ v ∈ V, next v ⊆ V)
  (hnext : ∀ v ∈ V, next' v = next v) (hsub : V ⊆ V')

include hnext hsub

/-- A search does the same for vertices with the same successors. -/
theorem Search.step_congr (s : Search α) {f : Frame α} (hf : f.rest ⊆ V)
    (below : List (Frame α)) : s.step next' V' f below = s.step next V f below := by
  unfold step
  split
  · rfl
  · next w rest hrest =>
    have hw : w ∈ V := hf (hrest ▸ List.mem_cons_self)
    unfold look isNew enter
    rw [hnext w hw, List.contains_iff_mem.2 hw, List.contains_iff_mem.2 (hsub hw)]

include hclosed

omit hnext hsub in
theorem Search.frames_step {s : Search α} {f : Frame α} {below : List (Frame α)}
    (hf : s.frames = f :: below) (h : ∀ f ∈ s.frames, f.rest ⊆ V) :
    ∀ f' ∈ (s.step next V f below).frames, f'.rest ⊆ V := by
  rw [hf, List.forall_mem_cons] at h
  unfold step
  split
  · rw [leave_frames]
    exact h.2
  · next w rest hrest =>
    have hcut : ∀ f' ∈ (⟨f.vertex, rest⟩ :: below : List (Frame α)), f'.rest ⊆ V := by
      refine List.forall_mem_cons.2 ⟨fun x hx => h.1 ?_, h.2⟩
      rw [hrest]
      exact List.mem_cons_of_mem _ hx
    unfold look
    split
    · refine List.forall_mem_cons.2 ⟨hclosed w (h.1 ?_), hcut⟩
      rw [hrest]
      exact List.mem_cons_self
    · split <;> exact hcut

theorem Search.run_congr (s : Search α) (h : ∀ f ∈ s.frames, f.rest ⊆ V) :
    s.run next' V' = s.run next V := by
  fun_induction run next V s with
  | case1 s hf => exact run_of_idle hf
  | case2 s f below hf ih =>
    rw [run_of_frames hf, step_congr hnext hsub s (h f (hf ▸ List.mem_cons_self))]
    exact ih (frames_step hclosed hf h)

theorem Search.foldl_visit_congr {S : List α} (hS : S ⊆ V) {s : Search α} (h : s.frames = []) :
    S.foldl (visit next' V') s = S.foldl (visit next V) s := by
  induction S generalizing s with
  | nil => rfl
  | cons v S ih =>
    obtain ⟨hv, hS⟩ := List.cons_subset.1 hS
    have hvisit : visit next' V' s v = visit next V s v := by
      unfold visit isNew
      rw [List.contains_iff_mem.2 hv, List.contains_iff_mem.2 (hsub hv)]
      split
      · have henter : s.enter next' v = s.enter next v := by
          unfold enter
          rw [hnext v hv]
        rw [henter]
        refine run_congr hclosed hnext hsub _ fun f hf => ?_
        have hframes : (s.enter next v).frames = [⟨v, next v⟩] := congrArg (_ :: ·) h
        rw [hframes] at hf
        cases List.mem_singleton.1 hf
        exact hclosed v hv
      · rfl
    have hidle : (visit next V s v).frames = [] := by
      unfold visit
      split
      · exact frames_run _ _ _
      · exact h
    rw [List.foldl_cons, List.foldl_cons, hvisit]
    exact ih hS hidle

/-- The components of a part without a way out stay where they are if all of it is searched first,
and the others are outside it. -/
theorem components_append (hclosed' : ∀ v ∈ V', next' v ⊆ V') {S T : List α} (hS : S ⊆ V)
    (hT : T ⊆ V') (hall : ∀ v ∈ V, ∃ u ∈ S, CanReach next u v) :
    ∃ more, components next' V' (S ++ T) = components next V S ++ more ∧
      ∀ C ∈ more, ∀ v ∈ C, v ∈ V' ∧ v ∉ V := by
  have hcongr : S.foldl (visit next' V') {} = S.foldl (visit next V) {} :=
    foldl_visit_congr hclosed hnext hsub hS rfl
  have hempty : ({} : Search α).Settled next' (· ∈ V') := ⟨sound_empty _ _, rfl⟩
  obtain ⟨hfirst, -, -⟩ := hempty.visits hclosed' (fun _ => id) fun v hv => hsub (hS hv)
  obtain ⟨hlast, -, more, hmore⟩ := hfirst.visits hclosed' (fun _ => id) hT
  have hfound : components next' V' (S ++ T) = components next V S ++ more := by
    unfold components
    rw [List.foldl_append, hmore, hcongr]
  refine ⟨more, hfound, fun C hC v hv => ⟨?_, fun hvV => ?_⟩⟩
  · refine hlast.numbered.within v (hlast.mem_done_iff.1 ?_)
    unfold done
    rw [hmore]
    exact List.mem_flatten.2 ⟨C, List.mem_append_right _ hC, hv⟩
  · -- what was there is in a component already
    obtain ⟨D, hD, hvD⟩ := List.mem_flatten.1 ((mem_flatten_components hclosed hS).2 (hall v hvV))
    have hordered := hlast.emitted.ordered
    rw [← List.foldl_append, show ((S ++ T).foldl (visit next' V') {}).found = _ from hfound,
      List.pairwise_append] at hordered
    exact hordered.2.2 D hD C hC v hvD v hv .refl

end

end EscapeFlow.Schedule
