import EscapeFlow.Proofs.Evolution
import EscapeFlow.Proofs.Monotone
import EscapeFlow.Proofs.WellFormed

/-!
# A graph inside a finished one

`T.Embeds ρ b` says that `ρ` takes the locations of the graph `b` to those of the finished graph
`T.built`, under attributes of `T.built` that are closed for addresses, and that everything `b`
says is said there.  It holds on through the elementary changes of `b`, provided that the
finished graph has the counterpart of each:

    T.Embeds ρ b → … → T.Embeds ρ (b.flow notes k src)                          (Embeds.flow)
    T.Embeds ρ b → … → T.Embeds (ρ ++ [l']) (b with a new location)             (Embeds.push)
-/

namespace EscapeFlow

open BatchGraph

/-- A finished graph, and attributes of its locations under which whatever has its address in a
location that escapes has all attributes. -/
structure Target where
  built : BatchGraph
  attrs : LocId → Attrs
  wellFormed : built.WellFormed
  contains : ∀ l, (built.graph.loc l).attrs ≤ attrs l
  full : ∀ l, (attrs l).escapes = true → Attrs.all ≤ attrs l
  address : ∀ d s w, HasEdge built.graph d s w → w < 0 → (attrs d).escapes = true →
    Attrs.all ≤ attrs s
  sinks : ∀ l, l < 3 → (built.graph.loc l).role = (Graph.sinks.loc l).role

namespace Target

variable (T : Target)

theorem all_le_of_escapes {l : LocId} (h : (T.built.graph.loc l).escapes = true) :
    Attrs.all ≤ T.attrs l :=
  T.full l (T.contains l .escapes h)

/-- What is fed into a location of the finished graph flows into it, if that matters. -/
theorem flowsWithin_of_fed {d s : LocId} {w w' : Int} (h : Fed T.built.graph d s w)
    (hw : w ≤ w') : FlowsWithin T.built.graph T.attrs d s w' := by
  rcases h with ⟨-, hesc⟩ | ⟨hself, h0⟩ | ⟨e, he, hs, hd⟩
  · exact .inr (.inl (T.all_le_of_escapes hesc))
  · exact .inr (.inr ⟨hself, by omega⟩)
  · exact .inl ⟨w, hw, e, he, hs, hd⟩

/-- The address of a location that is fed into one that escapes. -/
theorem all_le_of_fed {d s : LocId} {w : Int} (h : Fed T.built.graph d s w) (hw : w < 0)
    (hd : (T.attrs d).escapes = true) : Attrs.all ≤ T.attrs s := by
  rcases h with ⟨-, hesc⟩ | ⟨-, h0⟩ | ⟨e, he, hs, hw'⟩
  · exact T.all_le_of_escapes hesc
  · omega
  · exact T.address d s w ⟨e, he, hs, hw'⟩ hw hd

/-- The finished graph says of the locations `ρ` what `b` says of its own. -/
structure Embeds (ρ : List LocId) (b : BatchGraph) : Prop where
  length : ρ.length = b.graph.size
  sinks : ∀ l : LocId, l < 3 → ρ[l]? = some l
  lt : ∀ l l' : LocId, ρ[l]? = some l' → l' < T.built.graph.size
  role : ∀ l l' : LocId, ρ[l]? = some l' → (T.built.graph.loc l').role = (b.graph.loc l).role
  depth : ∀ l l' : LocId, ρ[l]? = some l' → (∀ v, (b.graph.loc l).owner ≠ .site (.var v)) →
    (T.built.graph.loc l').loopDepth = (b.graph.loc l).loopDepth
  attrs : ∀ l l' : LocId, ρ[l]? = some l' → (b.graph.loc l).attrs ≤ T.attrs l'
  edge : ∀ d s w, HasEdge b.graph d s w → ∃ d' s', ρ[d]? = some d' ∧ ρ[s]? = some s' ∧
    FlowsWithin T.built.graph T.attrs d' s' w
  vars : ∀ v l, b.varLoc? v = some l → ∃ l', ρ[l]? = some l' ∧ T.built.varLoc? v = some l'
  global : ∀ v l', b.varLoc? v = none → T.built.varLoc? v = some l' →
    (T.built.graph.loc l').role = globalRole v

namespace Embeds

variable {T : Target} {ρ : List LocId} {b : BatchGraph}

/-- A value flows, and is fed into the finished graph with no greater weight. -/
theorem flow (h : T.Embeds ρ b) (notes : Bool) {k : Hole} {src src' : LocId}
    (hsrc : ρ[src]? = some src')
    (hk : ∀ dst, k.dst = some dst → ∃ dst' w, ρ[dst]? = some dst' ∧ w ≤ k.derefs ∧
      Fed T.built.graph dst' src' w) : T.Embeds ρ (b.flow notes k src) where
  length := by rw [flow_size, h.length]
  sinks := h.sinks
  lt := h.lt
  role l l' hl := by rw [Covers.flow_role, h.role l l' hl]
  depth l l' hl hv := by
    have howner : ∀ x, ((b.flow notes k src).graph.loc x).owner = (b.graph.loc x).owner :=
      fun x => congrArg Role.owner (Covers.flow_role x)
    rw [Covers.flow_loopDepth]
    exact h.depth l l' hl fun v => by rw [← howner]; exact hv v
  attrs l l' hl := by
    rcases b.flow_cases notes k src with ⟨-, hf⟩ | ⟨dst, hdst, hesc, hneg, hf⟩ | ⟨_, -, -, -, _, hf⟩
    · rw [(hf l).2]
      exact h.attrs l l' hl
    · rw [(hf l).2]
      split
      · next hsame =>
        -- the source is made to escape at once, and it escapes in the finished graph
        obtain ⟨dst', w, hd', hw, hfed⟩ := hk dst hdst
        have hescapes : (T.attrs dst').escapes = true := h.attrs dst dst' hd' .escapes hesc
        obtain rfl : l = src := hsame.1
        obtain rfl : src' = l' := Option.some.inj (hsrc.symm.trans hl)
        exact Attrs.le_trans (Attrs.le_all _) (T.all_le_of_fed hfed (by omega) hescapes)
      · exact h.attrs l l' hl
    · rw [(hf l).2]
      exact h.attrs l l' hl
  edge d s w he := by
    rcases of_hasEdge_flow he with he | ⟨hdst, -, rfl, rfl, -⟩
    · exact h.edge d s w he
    · obtain ⟨dst', w, hd', hw, hfed⟩ := hk d hdst
      exact ⟨dst', src', hd', hsrc, T.flowsWithin_of_fed hfed hw⟩
  vars v l hv := by
    rw [varLoc?, flow_vars] at hv
    exact h.vars v l hv
  global v l' hv := by
    rw [varLoc?, flow_vars] at hv
    exact h.global v l' hv

/-- A location is new, and `l'` takes its place in the finished graph. -/
theorem push (h : T.Embeds ρ b) {c : BatchGraph} {x : Location} {l' : LocId}
    (hc : c.graph = b.graph.push x) (hedges : x.edges = []) (hl' : l' < T.built.graph.size)
    (hrole : (T.built.graph.loc l').role = x.role)
    (hdepth : (∀ v, x.owner ≠ .site (.var v)) →
      (T.built.graph.loc l').loopDepth = x.loopDepth)
    (hattrs : x.attrs ≤ T.attrs l')
    (hvars : ∀ v l, c.varLoc? v = some l →
      b.varLoc? v = some l ∨ l = b.graph.size ∧ T.built.varLoc? v = some l')
    (hnone : ∀ v, c.varLoc? v = none → b.varLoc? v = none) : T.Embeds (ρ ++ [l']) c := by
  have hnew : (ρ ++ [l'])[b.graph.size]? = some l' := by
    rw [← h.length]
    exact List.getElem?_concat_length
  have hold : ∀ {l k : LocId}, ρ[l]? = some k → (ρ ++ [l'])[l]? = some k := by
    intro l k hl
    rw [List.getElem?_append_left (List.getElem?_eq_some_iff.1 hl).1]
    exact hl
  -- a location is the new one or it was there before
  have hcases : ∀ {l k : LocId}, (ρ ++ [l'])[l]? = some k →
      (ρ[l]? = some k ∧ c.graph.loc l = b.graph.loc l) ∨ (k = l' ∧ c.graph.loc l = x) := by
    intro l k hl
    rw [hc]
    rcases Nat.lt_or_ge l ρ.length with hlt | hge
    · rw [List.getElem?_append_left hlt] at hl
      exact .inl ⟨hl, b.graph.push_loc_of_lt x (by rwa [← h.length])⟩
    · obtain ⟨hlen, -⟩ := List.getElem?_eq_some_iff.1 hl
      have hsize := h.length
      obtain rfl : l = b.graph.size := by
        simp only [List.length_append, List.length_singleton] at hlen
        exact Nat.le_antisymm (by omega) (by omega)
      rw [hnew] at hl
      cases hl
      exact .inr ⟨rfl, b.graph.push_loc_self x⟩
  constructor
  case length => rw [List.length_append, h.length, hc, b.graph.push_size, List.length_singleton]
  case sinks => exact fun l hl => hold (h.sinks l hl)
  case lt =>
    intro l k hl
    rcases hcases hl with ⟨hl, -⟩ | ⟨rfl, -⟩
    · exact h.lt l k hl
    · exact hl'
  case role =>
    intro l k hl
    rcases hcases hl with ⟨hl, heq⟩ | ⟨rfl, heq⟩
    · rw [heq]
      exact h.role l k hl
    · rw [heq]
      exact hrole
  case depth =>
    intro l k hl
    rcases hcases hl with ⟨hl, heq⟩ | ⟨rfl, heq⟩
    · rw [heq]
      exact h.depth l k hl
    · rw [heq]
      exact hdepth
  case attrs =>
    intro l k hl
    rcases hcases hl with ⟨hl, heq⟩ | ⟨rfl, heq⟩
    · rw [heq]
      exact h.attrs l k hl
    · rw [heq]
      exact hattrs
  case edge =>
    intro d s w he
    rw [hc, b.graph.hasEdge_push hedges] at he
    obtain ⟨d', s', hd, hs, hflow⟩ := h.edge d s w he
    exact ⟨d', s', hold hd, hold hs, hflow⟩
  case vars =>
    intro v l hv
    rcases hvars v l hv with hv | ⟨rfl, hT⟩
    · obtain ⟨k, hl, hk⟩ := h.vars v l hv
      exact ⟨k, hold hl, hk⟩
    · exact ⟨l', hnew, hT⟩
  case global =>
    intro v k hv
    exact h.global v k (hnone v hv)

/-- A mark is set, or the depth of a variable. -/
theorem update (h : T.Embeds ρ b) (l : LocId) {f : Location → Location}
    (hrole : ∀ x, (f x).role = x.role) (hedges : ∀ x, (f x).edges = x.edges)
    (hattrs : ∀ x, (f x).attrs = x.attrs)
    (hdepth : (∀ v, (b.graph.loc l).owner ≠ .site (.var v)) →
      ∀ x, (f x).loopDepth = x.loopDepth) : T.Embeds ρ (b.update l f) := by
  have hsame : ∀ x, ((b.update l f).graph.loc x).role = (b.graph.loc x).role := fun x =>
    b.graph.update_view Location.role l x hrole
  constructor
  case length => rw [h.length]; exact (b.graph.update_size l f).symm
  case sinks => exact h.sinks
  case lt => exact h.lt
  case role =>
    intro x x' hx
    rw [hsame]
    exact h.role x x' hx
  case depth =>
    intro x x' hx hv
    have howner : ((b.update l f).graph.loc x).owner = (b.graph.loc x).owner :=
      congrArg Role.owner (hsame x)
    rw [howner] at hv
    rw [h.depth x x' hx hv]
    by_cases hxl : x = l
    · subst hxl
      exact (b.graph.update_view Location.loopDepth x x (hdepth hv)).symm
    · show _ = ((b.graph.update l f).loc x).loopDepth
      rw [b.graph.update_loc_all, if_neg fun hl => hxl hl.1]
  case attrs =>
    intro x x' hx
    show ((b.graph.update l f).loc x).attrs ≤ _
    rw [b.graph.update_view Location.attrs l x hattrs]
    exact h.attrs x x' hx
  case edge =>
    rintro d s w ⟨e, he, hs⟩
    refine h.edge d s w ⟨e, ?_, hs⟩
    rw [← b.graph.update_view Location.edges l d hedges]
    exact he
  case vars => exact h.vars
  case global => exact h.global

end Embeds

end Target

end EscapeFlow
