import EscapeFlow.Proofs.Drain

/-!
# The trails of a walk

A walk remembers for every location that it has reached the edge by which this was last done.
`Trail vs x hops y` says that following these edges from `x` gives `hops` and gets to `y`.

Later visits overwrite what is remembered, so a trail need not get to the root.  It either does, and
then passes no location twice,

    Trail vs x hops y → Ends vs y → (hops.map Hop.src).Nodup                      (Trail.nodup)

or it comes back to a location that it has passed (`Trail.circle_of_not_nodup`).  Then the edges on
the way round weigh less than zero in all.  For this `Backed` keeps, step after step, that a number
is no less than what the number at the end of the remembered edge makes it: the edge that closes a
circle lowers the number at its source, and so falls short of what the way round makes it
(`Backed.circle_through`).  All this is about exact sums.
-/

namespace EscapeFlow

/-! ## Hops -/

/-- The hop goes along an edge of the graph. -/
def Hop.IsEdge (g : Graph) (hop : Hop) : Prop :=
  (⟨hop.src, hop.derefs, hop.notes⟩ : Edge) ∈ (g.loc hop.dst).edges

/-- The dereferences on the way, without bringing the number up to zero. -/
def hopWeight : List Hop → Int
  | [] => 0
  | hop :: hops => hop.derefs + hopWeight hops

theorem hopWeight_append (xs ys : List Hop) :
    hopWeight (xs ++ ys) = hopWeight xs + hopWeight ys := by
  induction xs with
  | nil => simp [hopWeight]
  | cons hop xs ih =>
    simp only [List.cons_append, hopWeight, ih]
    omega

/-- Hops along edges, each from where the one before has led. -/
inductive Route (g : Graph) : LocId → List Hop → LocId → Prop
  | nil (l : LocId) : Route g l [] l
  | cons {hop : Hop} {hops : List Hop} {r : LocId} :
      hop.IsEdge g → Route g hop.dst hops r → Route g hop.src (hop :: hops) r

/-- The hops that are remembered from `x` on, up to `y`. -/
inductive Trail (vs : Array (Option Visit)) : LocId → List Hop → LocId → Prop
  | nil (x : LocId) : Trail vs x [] x
  | cons {d : Int} {hop : Hop} {hops : List Hop} {y : LocId} :
      vs.getD hop.src none = some ⟨d, some hop⟩ → Trail vs hop.dst hops y →
      Trail vs hop.src (hop :: hops) y

/-- No edge is remembered at `y`, where trails therefore end. -/
def Ends (vs : Array (Option Visit)) (y : LocId) : Prop :=
  ∀ d hop, vs.getD y none ≠ some ⟨d, some hop⟩

namespace Trail

variable {vs vs' : Array (Option Visit)} {x y z : LocId} {hops hops' : List Hop}

theorem append (h : Trail vs x hops y) (h' : Trail vs y hops' z) :
    Trail vs x (hops ++ hops') z := by
  induction h with
  | nil => exact h'
  | cons hv _ ih => exact .cons hv (ih h')

theorem of_cons {hop : Hop} (h : Trail vs x (hop :: hops) y) :
    ∃ d, vs.getD x none = some ⟨d, some hop⟩ ∧ Trail vs hop.dst hops y := by
  cases h with
  | cons hv hrest => exact ⟨_, hv, hrest⟩

/-- Only what is remembered at the sources of the hops matters. -/
theorem congr (h : Trail vs x hops y)
    (hsame : ∀ s ∈ hops.map Hop.src, vs'.getD s none = vs.getD s none) : Trail vs' x hops y := by
  induction h with
  | nil => exact .nil _
  | @cons d hop hops y hv _ ih =>
    refine .cons (d := d) ?_ (ih fun s hs => hsame s (by simp [hs]))
    rw [hsame hop.src (by simp), hv]

/-- A trail can be cut where it passes a location first. -/
theorem cut (h : Trail vs x hops y) (hz : z ∈ hops.map Hop.src) :
    ∃ xs ys, hops = xs ++ ys ∧ ys ≠ [] ∧ z ∉ xs.map Hop.src ∧ Trail vs x xs z ∧
      Trail vs z ys y := by
  induction h with
  | nil => simp at hz
  | @cons d hop hops y hv hrest ih =>
    by_cases hsrc : hop.src = z
    · subst hsrc
      exact ⟨[], hop :: hops, rfl, by simp, by simp, .nil _, .cons hv hrest⟩
    · have hz' : z ∈ hops.map Hop.src := by
        rcases List.mem_cons.1 hz with rfl | hz
        · exact absurd rfl hsrc
        · exact hz
      obtain ⟨xs, ys, rfl, hne, hxs, hleft, hright⟩ := ih hz'
      refine ⟨hop :: xs, ys, rfl, hne, ?_, .cons hv hleft, hright⟩
      simp only [List.map_cons, List.mem_cons, not_or]
      exact ⟨fun h => hsrc h.symm, hxs⟩

/-- There is one trail only to a location where it ends. -/
theorem unique (hend : Ends vs y) (h : Trail vs x hops y) (h' : Trail vs x hops' y) :
    hops = hops' := by
  induction h generalizing hops' with
  | nil =>
    cases h' with
    | nil => rfl
    | cons hv _ => exact absurd hv (hend _ _)
  | @cons d hop hops y hv hrest ih =>
    generalize hx : hop.src = x at h' hv
    cases h' with
    | nil => exact absurd hv (hend _ _)
    | cons hv' hrest' =>
      rw [hv] at hv'
      cases hv'
      rw [ih hend hrest']

/-- A trail that ends passes no location twice. -/
theorem nodup (hend : Ends vs y) (h : Trail vs x hops y) : (hops.map Hop.src).Nodup := by
  induction h with
  | nil => simp
  | @cons d hop hops y hv hrest ih =>
    rw [List.map_cons, List.nodup_cons]
    refine ⟨fun hmem => ?_, ih hend⟩
    -- from where it comes back to, the end could be reached the short way and once more round
    obtain ⟨xs, ys, rfl, -, -, hleft, hright⟩ := hrest.cut hmem
    have hround : Trail vs hop.src ((hop :: xs) ++ ys) y := .cons hv (hleft.append hright)
    have hlength := congrArg List.length (unique hend hright hround)
    simp at hlength
    omega

/-- A trail that passes a location twice goes round a circle. -/
theorem circle_of_not_nodup (h : Trail vs x hops y) (hdup : ¬ (hops.map Hop.src).Nodup) :
    ∃ xs circle ys z, hops = xs ++ circle ++ ys ∧ circle ≠ [] ∧ Trail vs z circle z := by
  induction h with
  | nil => simp at hdup
  | @cons d hop hops y hv hrest ih =>
    by_cases hmem : hop.src ∈ hops.map Hop.src
    · obtain ⟨xs, ys, rfl, -, -, hleft, -⟩ := hrest.cut hmem
      exact ⟨[], hop :: xs, ys, hop.src, by simp, by simp, .cons hv hleft⟩
    · rw [List.map_cons, List.nodup_cons] at hdup
      obtain ⟨xs, circle, ys, z, rfl, hne, hcircle⟩ := ih fun hnd => hdup ⟨hmem, hnd⟩
      exact ⟨hop :: xs, circle, ys, z, by simp, hne, hcircle⟩

end Trail

/-! ## What is remembered -/

/-- What a walk from `root` remembers: at the root nothing until it is reached again, elsewhere an
edge of the graph, and a number that is no less than the number at the end of the edge makes it.
Round a circle of such edges the weights come to less than zero. -/
structure Backed (g : Graph) (root : LocId) (vs : Array (Option Visit)) : Prop where
  start : ∀ x d, vs.getD x none = some ⟨d, none⟩ → x = root ∧ d = 0
  hop : ∀ x d hop, vs.getD x none = some ⟨d, some hop⟩ → hop.src = x ∧ hop.IsEdge g ∧
    ∃ v, vs.getD hop.dst none = some v ∧ max v.derefs 0 + hop.derefs ≤ d
  circle : ∀ x hops, Trail vs x hops x → hops ≠ [] → hopWeight hops < 0

namespace Backed

variable {g : Graph} {root : LocId} {vs : Array (Option Visit)}

/-- The number at the start of a trail is no less than that at its end and the hops make it. -/
theorem weight_le (h : Backed g root vs) {x y : LocId} {hops : List Hop} (hl : Trail vs x hops y)
    {v : Visit} (hv : vs.getD x none = some v) :
    ∃ v', vs.getD y none = some v' ∧ v'.derefs + hopWeight hops ≤ v.derefs := by
  induction hl generalizing v with
  | nil => exact ⟨v, hv, by simp [hopWeight]⟩
  | @cons d hop hops y hhop _ ih =>
    rw [hhop] at hv
    cases hv
    obtain ⟨-, -, u, hu, hle⟩ := h.hop _ _ _ hhop
    obtain ⟨v', hv', hle'⟩ := ih hu
    refine ⟨v', hv', ?_⟩
    simp only [hopWeight]
    omega

theorem route (h : Backed g root vs) {x y : LocId} {hops : List Hop} (hl : Trail vs x hops y) :
    Route g x hops y := by
  induction hl with
  | nil => exact .nil _
  | cons hv _ ih => exact .cons (h.hop _ _ _ hv).2.1 ih

/-- The trail of a location that is reached, where it ends at all, ends at the root. -/
theorem eq_root (h : Backed g root vs) {x y : LocId} {hops : List Hop} (hl : Trail vs x hops y)
    {v : Visit} (hv : vs.getD x none = some v) (hend : Ends vs y) : y = root := by
  obtain ⟨⟨d, hop?⟩, hy, -⟩ := h.weight_le hl hv
  cases hop? with
  | none => exact (h.start y d hy).1
  | some hop => exact absurd hy (hend d hop)

end Backed

/-! ## Relaxing -/

section Relax

variable {g : Graph} {root : LocId} {vs vs' : Array (Option Visit)} {x l : LocId} {d w : Int}
  {why : List Note}

/-- `vs'` is `vs` after an edge of weight `w` has lowered the number of its source `x`, where its
other end `l` is reached after `d` dereferences or fewer. -/
structure Lowers (vs vs' : Array (Option Visit)) (x l : LocId) (d w : Int) (why : List Note) :
    Prop where
  new : vs'.getD x none = some ⟨d + w, some ⟨l, x, w, why⟩⟩
  same : ∀ y, y ≠ x → vs'.getD y none = vs.getD y none
  less : ∀ v, vs.getD x none = some v → d + w < v.derefs
  dst : ∃ v, vs.getD l none = some v ∧ max v.derefs 0 ≤ d

/-- A number only gets less. -/
theorem Lowers.exists_le (h : Lowers vs vs' x l d w why) {y : LocId} {v : Visit}
    (hv : vs.getD y none = some v) : ∃ v', vs'.getD y none = some v' ∧ v'.derefs ≤ v.derefs := by
  by_cases hy : y = x
  · subst hy
    exact ⟨_, h.new, Int.le_of_lt (h.less v hv)⟩
  · exact ⟨v, by rw [h.same y hy, hv], Int.le_refl _⟩

/-- Back from `l` to `x` the numbers are those from before, when `x` had a greater one. -/
theorem Backed.weight_lt_zero (hb : Backed g root vs) (h : Lowers vs vs' x l d w why)
    {hops : List Hop} (hl : Trail vs' l hops x) (hx : x ∉ hops.map Hop.src) :
    w + hopWeight hops < 0 := by
  have hold : Trail vs l hops x := hl.congr fun s hs => (h.same s (fun e => hx (e ▸ hs))).symm
  obtain ⟨v, hv, hle⟩ := h.dst
  obtain ⟨v', hv', hsum⟩ := hb.weight_le hold hv
  have hless := h.less v' hv'
  omega

/-- A circle through `x` has negative weight, however often it passes `x`. -/
theorem Backed.circle_through (hb : Backed g root vs) (h : Lowers vs vs' x l d w why) :
    ∀ (n : Nat) (hops : List Hop), hops.length = n → Trail vs' x hops x → hops ≠ [] →
      hopWeight hops < 0 := by
  intro n
  induction n using Nat.strong_induction_on with
  | _ n ih =>
  intro hops hn hr hne
  obtain ⟨hop, rest, rfl⟩ := List.exists_cons_of_ne_nil hne
  obtain ⟨c, hv, hrest⟩ := hr.of_cons
  rw [h.new] at hv
  cases hv
  simp only [hopWeight]
  by_cases hx : x ∈ rest.map Hop.src
  · obtain ⟨xs, ys, rfl, hys, hxs, hleft, hright⟩ := hrest.cut hx
    have hfirst := hb.weight_lt_zero h hleft hxs
    have hothers := ih ys.length (by simp at hn; omega) ys rfl hright hys
    rw [hopWeight_append]
    omega
  · exact hb.weight_lt_zero h hrest hx

theorem Backed.lowers (hb : Backed g root vs) (h : Lowers vs vs' x l d w why)
    (he : (⟨x, w, why⟩ : Edge) ∈ (g.loc l).edges) : Backed g root vs' where
  start := by
    intro y c hy
    by_cases hyx : y = x
    · rw [hyx, h.new] at hy
      cases hy
    · rw [h.same y hyx] at hy
      exact hb.start y c hy
  hop := by
    intro y c hop hy
    by_cases hyx : y = x
    · rw [hyx, h.new] at hy
      cases hy
      obtain ⟨v, hv, hle⟩ := h.dst
      obtain ⟨v', hv', hle'⟩ := h.exists_le hv
      exact ⟨hyx.symm, he, v', hv', by dsimp only; omega⟩
    · rw [h.same y hyx] at hy
      obtain ⟨hsrc, hedge, v, hv, hle⟩ := hb.hop y c hop hy
      obtain ⟨v', hv', hle'⟩ := h.exists_le hv
      exact ⟨hsrc, hedge, v', hv', by omega⟩
  circle := by
    intro y hops hr hne
    by_cases hx : x ∈ hops.map Hop.src
    · -- turned so that it starts at `x`, it is as heavy
      obtain ⟨xs, ys, rfl, hys, -, hleft, hright⟩ := hr.cut hx
      have hturned := hb.circle_through h _ (ys ++ xs) rfl (hright.append hleft) (by simp [hys])
      rw [hopWeight_append] at hturned ⊢
      omega
    · exact hb.circle y hops (hr.congr fun s hs => (h.same s (fun e => hx (e ▸ hs))).symm) hne

end Relax

namespace Walk

variable {g : Graph} {root : LocId}

/-- Relaxing remembers nothing new, or the edge at its source with a number that is less. -/
theorem lowers_relax {l : LocId} {d : Int} {w : Walk} {e : Edge}
    (hl : ∃ v, w.visits.getD l none = some v ∧ max v.derefs 0 ≤ d) :
    (relax .exact l d w e).visits = w.visits ∨
      Lowers w.visits (relax .exact l d w e).visits e.src l d e.derefs e.notes := by
  unfold relax
  split
  · exact .inl rfl
  · split
    · exact .inl rfl
    · rename_i old hold
      split
      · rename_i hlow
        have hx : e.src < w.visits.size := (Array.getElem?_eq_some_iff.1 hold).1
        have hold : w.visits.getD e.src none = old := by
          rw [Array.getD_eq_getD_getElem?, hold]
          rfl
        refine .inr ⟨?_, ?_, ?_, hl⟩
        · rw [getD_setIfInBounds hx, if_pos rfl, Adder.exact_add]
        · intro y hy
          rw [getD_setIfInBounds hx, if_neg hy]
        · intro v hv
          rw [hold] at hv
          subst hv
          exact of_decide_eq_true hlow
      · exact .inl rfl

theorem backed_foldl {l : LocId} {d : Int} (es : List Edge) (hes : ∀ e ∈ es, e ∈ (g.loc l).edges)
    (w : Walk) (hb : Backed g root w.visits)
    (hl : ∃ v, w.visits.getD l none = some v ∧ max v.derefs 0 ≤ d) :
    Backed g root (es.foldl (relax .exact l d) w).visits := by
  induction es generalizing w with
  | nil => exact hb
  | cons e es ih =>
    have hes' : ∀ e' ∈ es, e' ∈ (g.loc l).edges := fun e' he' => hes e' (by simp [he'])
    rcases lowers_relax (e := e) hl with hsame | hlow
    · exact ih hes' _ (by rw [hsame]; exact hb) (by rw [hsame]; exact hl)
    · obtain ⟨v, hv, hle⟩ := hl
      obtain ⟨v', hv', hle'⟩ := hlow.exists_le hv
      exact ih hes' _ (hb.lowers hlow (hes e (by simp))) ⟨v', hv', by omega⟩

theorem backed_step (p : Program) (record : Bool) {w : Walk} {l : LocId}
    (hb : Backed g root w.visits) : Backed g root (w.step .exact p g record root l).visits := by
  unfold step
  split
  · exact hb
  · rename_i v hv
    split
    · rw [learn_visits]
      exact hb
    · exact backed_foldl _ (fun _ he => he) _ (by rw [learn_visits]; exact hb)
        ⟨v, by rw [learn_visits]; exact hv, Int.le_refl _⟩

theorem backed_start (m : Marks) (todo : List LocId) (relaxed : List Relaxation)
    (hr : root < g.size) : Backed g root (start g root m todo relaxed).visits := by
  have hget := start_visits g root m todo relaxed hr
  have hends : ∀ y, Ends (start g root m todo relaxed).visits y := by
    intro y d hop hy
    rw [hget] at hy
    split at hy <;> cases hy
  refine ⟨?_, fun y d hop hy => absurd hy (hends y d hop), ?_⟩
  · intro y d hy
    rw [hget] at hy
    split at hy
    · next h =>
      cases hy
      exact ⟨h, rfl⟩
    · cases hy
  · intro y hops hl hne
    obtain ⟨hop, rest, rfl⟩ := List.exists_cons_of_ne_nil hne
    obtain ⟨d, hv, -⟩ := hl.of_cons
    exact absurd hv (hends y d hop)

/-! ## Trails -/

/-- A trail follows what is remembered until it has its full length or there is nothing. -/
theorem exists_trail {w : Walk} (hb : Backed g root w.visits) (n : Nat) (l : LocId) :
    ∃ y, Trail w.visits l (w.trail n l) y ∧ ((w.trail n l).length = n ∨ Ends w.visits y) := by
  induction n generalizing l with
  | zero => exact ⟨l, .nil l, .inl rfl⟩
  | succ n ih =>
    unfold trail
    split
    · rename_i d hop hv
      obtain ⟨rfl, -⟩ := hb.hop _ _ _ hv
      obtain ⟨y, hl, hy⟩ := ih hop.dst
      refine ⟨y, .cons hv hl, ?_⟩
      rcases hy with hy | hy
      · exact .inl (by rw [List.length_cons, hy])
      · exact .inr hy
    · rename_i hnone
      exact ⟨l, .nil l, .inr hnone⟩

end Walk

end EscapeFlow
