import EscapeFlow.Proofs.Batches

/-!
# What the walks along enclosing functions find

The two walks along enclosing functions stop after one step more than there are functions.  Neither
misses anything by that.  Whether a function contains a closure is answered rightly for all
programs, with closures in a circle and with enclosing functions outside the table:

    p.containsClosure o i ↔ o ≠ i ∧ o is some steps outwards from i

Where chains stay in the table and have no circle, each closure is inside one top-level function,
and the outermost function is the one:

    p.IsTopLevel t → (c ∈ p.nestedClosures t ↔ p.outermost c = t)       (for a closure c)

Both are parts of `ancestors_exact`.
-/

namespace EscapeFlow

open Relation

namespace Program

variable {p : Program}

/-- A closure is among the closures of its outermost function, and of no other top-level
function. -/
theorem IsTopLevel.mem_nestedClosures_iff (hp : p.Indexed) (hn : p.WellNested) {t c : FuncId}
    (ht : p.IsTopLevel t) (hc : (p.enclosing? c).isSome) :
    c ∈ p.nestedClosures t ↔ p.outermost c = t := by
  rw [Program.mem_nestedClosures_iff hp, hn.outermost_eq_iff]
  constructor
  · rintro ⟨-, hlies⟩
    exact ⟨hlies, ht.2⟩
  · rintro ⟨hlies, -⟩
    refine ⟨?_, hlies⟩
    rintro rfl
    rw [ht.2] at hc
    cases hc

theorem WellNested.exists_nestedClosures (hp : p.Indexed) (hn : p.WellNested) {c : FuncId} :
    (p.enclosing? c).isSome ↔ ∃ t, p.IsTopLevel t ∧ c ∈ p.nestedClosures t := by
  constructor
  · intro hc
    obtain ⟨outer, houter⟩ := Option.isSome_iff_exists.1 hc
    have htop := hn.isTopLevel_outermost (function?_of_enclosing? houter)
    exact ⟨_, htop, (htop.mem_nestedClosures_iff hp hn hc).2 rfl⟩
  · rintro ⟨t, -, hc⟩
    exact (hp.mem_nestedClosures.1 hc).1

end Program

/-- In every program a function contains a closure if and only if it is another function, one or
more steps outwards from the closure.  In a program whose functions store their positions and whose
chains of enclosing functions stay in the table and have no circle, the outermost function is the
only one that a chain leads to and that lies in no other.  A closure is inside a top-level function
if and only if that is its outermost function, so no closure is inside two of them and none is left
out. -/
theorem ancestors_exact (p : Program) :
    (∀ o i, p.containsClosure o i = true ↔
      o ≠ i ∧ TransGen (fun f g => p.enclosing? f = some g) i o) ∧
    (p.Indexed → p.WellNested →
      (∀ f g, p.outermost f = g ↔ p.LiesIn f g ∧ p.enclosing? g = none) ∧
      (∀ f, (p.function? f).isSome → p.IsTopLevel (p.outermost f)) ∧
      (∀ t c, p.IsTopLevel t → (p.enclosing? c).isSome →
        (c ∈ p.nestedClosures t ↔ p.outermost c = t)) ∧
      (∀ t t', p.IsTopLevel t → p.IsTopLevel t' → t ≠ t' →
        (p.nestedClosures t).Disjoint (p.nestedClosures t')) ∧
      ∀ c, (p.enclosing? c).isSome ↔ ∃ t, p.IsTopLevel t ∧ c ∈ p.nestedClosures t) := by
  refine ⟨fun _ _ => Program.containsClosure_iff_transGen, fun hp hn => ?_⟩
  refine ⟨fun _ _ => hn.outermost_eq_iff, fun _ => hn.isTopLevel_outermost, ?_, ?_, ?_⟩
  · exact fun _ _ ht => ht.mem_nestedClosures_iff hp hn
  · exact fun _ _ ht ht' => Program.disjoint_nestedClosures hp ht.2 ht'.2
  · exact fun _ => hn.exists_nestedClosures hp

/-- A function with a closure in a closure, and another function with a closure. -/
def closureTowers : Program where
  functions := #[
    { id := ⟨0⟩, name := "f" },
    { id := ⟨1⟩, name := "f.func1", enclosing := some ⟨0⟩ },
    { id := ⟨2⟩, name := "f.func1.func1", enclosing := some ⟨1⟩ },
    { id := ⟨3⟩, name := "g" },
    { id := ⟨4⟩, name := "g.func1", enclosing := some ⟨3⟩ }]

theorem closureTowers_indexed : closureTowers.Indexed := Program.indexed_of_ids rfl

theorem closureTowers_wellNested : closureTowers.WellNested :=
  closureTowers_indexed.wellNested (by decide)

theorem ancestors_exact_closureTowers :
    closureTowers.Indexed ∧ closureTowers.WellNested ∧
      closureTowers.containsClosure ⟨0⟩ ⟨2⟩ = true ∧
      closureTowers.outermost ⟨2⟩ = ⟨0⟩ ∧ ⟨2⟩ ∈ closureTowers.nestedClosures ⟨0⟩ ∧
      ⟨2⟩ ∉ closureTowers.nestedClosures ⟨3⟩ := by
  have htop : closureTowers.IsTopLevel ⟨0⟩ := ⟨rfl, rfl⟩
  have htop' : closureTowers.IsTopLevel ⟨3⟩ := ⟨rfl, rfl⟩
  obtain ⟨hcontains, hrest⟩ := ancestors_exact closureTowers
  obtain ⟨houter, -, hnested, hdisjoint, -⟩ :=
    hrest closureTowers_indexed closureTowers_wellNested
  have hlies : closureTowers.outermost ⟨2⟩ = ⟨0⟩ :=
    (houter _ _).2 ⟨.head rfl (.single rfl), rfl⟩
  have hmem := (hnested ⟨0⟩ ⟨2⟩ htop rfl).2 hlies
  exact ⟨closureTowers_indexed, closureTowers_wellNested,
    (hcontains _ _).2 ⟨by decide, .head (b := ⟨1⟩) rfl (.single rfl)⟩, hlies, hmem,
    hdisjoint _ _ htop htop' (by decide) hmem⟩

end EscapeFlow
