import EscapeFlow.Proofs.DraftTables
import EscapeFlow.Proofs.SummaryOrder
import Mathlib

/-!
# Closures in a circle

A closure may name an enclosing function that is declared later, so closures can enclose each
other in a circle.  A chain of enclosing functions that stays in the table ends in a top-level
function or runs into a circle, and not both (`grounded_iff`).  Functions of the first kind
are in a batch and get a summary, whatever the others do:

    p.Indexed → p.Grounded f → ∃ b ∈ (Plan.ofProgram p).batches, f ∈ b.functions
                                                                      (Grounded.exists_batch)

The checks of a draft climb one step more than there are functions and reject a closure when the
climb ends with it.  On a circle of `n` functions that happens when `n` divides the number of steps:

    d.Made → d.build = .ok p → 0 < n → p.StepsOut n f f → ¬ n ∣ p.functions.size + 1
                                                                        (not_dvd_of_build)

Circles of other lengths are accepted (`circle_of_build`).
-/

namespace EscapeFlow

open Relation

namespace Program

/-- The chain of enclosing functions ends in a top-level function. -/
def Grounded (p : Program) (f : FuncId) : Prop := ∃ g, p.LiesIn f g ∧ p.IsTopLevel g

variable {p : Program}

/-- Going round a circle again and again. -/
theorem StepsOut.mul {f : FuncId} {n : Nat} (hf : p.StepsOut n f f) (k : Nat) :
    p.StepsOut (n * k) f f := by
  induction k with
  | zero => exact rfl
  | succ k ih => exact ih.trans hf

/-! ## Chains that end and chains that do not -/

/-- What a circle leads to is on it. -/
theorem LiesIn.circle {f g : FuncId} (h : p.LiesIn f g)
    (hf : TransGen (fun f g => p.enclosing? f = some g) f f) :
    TransGen (fun f g => p.enclosing? f = some g) g g := by
  induction h with
  | refl => exact hf
  | tail _ hstep ih =>
    obtain ⟨x, hx, hrest⟩ := TransGen.head'_iff.1 ih
    rw [hstep] at hx
    cases hx
    exact .tail' hrest hstep

/-- A chain that ends runs into no circle. -/
theorem LiesIn.not_circle {f g h : FuncId} (hg : p.LiesIn f g) (hgt : p.enclosing? g = none)
    (hh : p.LiesIn f h) : ¬ TransGen (fun f g => p.enclosing? f = some g) h h := by
  intro hcircle
  have hunique : Relator.RightUnique fun f g => p.enclosing? f = some g := by
    intro a b c hb hc
    exact Option.some.inj (hb.symm.trans hc)
  have hgcircle : TransGen (fun f g => p.enclosing? f = some g) g g := by
    rcases ReflTransGen.total_of_right_unique hunique hg hh with hgh | hhg
    · exact LiesIn.eq_of_top hgh hgt ▸ hcircle
    · exact LiesIn.circle hhg hcircle
  obtain ⟨x, hx, -⟩ := TransGen.head'_iff.1 hgcircle
  rw [hgt] at hx
  cases hx

/-- A function of the program whose chain stays in the table ends in a top-level function unless
it runs into a circle. -/
theorem grounded_iff (hin : ∀ f g, p.enclosing? f = some g → (p.function? g).isSome) {f : FuncId}
    (hf : (p.function? f).isSome) :
    p.Grounded f ↔ ¬ ∃ n g, 0 < n ∧ p.LiesIn f g ∧ p.StepsOut n g g := by
  constructor
  · rintro ⟨g, hg, -, hgt⟩ ⟨n, h, hpos, hh, hcircle⟩
    exact hg.not_circle hgt hh (transGen_iff_stepsOut.2 ⟨n, hpos, hcircle⟩)
  · intro hnone
    rcases climb_top_or_circle (p := p) f with htop | ⟨g, hg, hcircle⟩
    · have hlies := liesIn_climb (p := p) p.functions.size f
      exact ⟨_, hlies, function?_of_liesIn hin hlies hf, htop⟩
    · obtain ⟨n, hpos, hcircle⟩ := transGen_iff_stepsOut.1 hcircle
      exact absurd ⟨n, g, hpos, hg, hcircle⟩ hnone

namespace Grounded

variable (hp : p.Indexed) {f : FuncId} (hf : p.Grounded f)

include hp hf

theorem exists_batch : ∃ b ∈ (Plan.ofProgram p).batches, f ∈ b.functions := by
  obtain ⟨g, hlies, hg⟩ := hf
  obtain ⟨b, hb, hroot⟩ := Plan.exists_batch_of_isTopLevel hp hg
  exact ⟨b, hb, (Plan.mem_functions_iff hp hb).2 ⟨g, hroot, hlies⟩⟩

theorem isSome_summary? {m : Machine} {c : Config} {report : Report}
    (h : (analyze c p m).result = .ok report) :
    (report.summary? f).isSome := by
  obtain ⟨b, hb, hfb⟩ := exists_batch hp hf
  exact Analysis.isSome_summary? hp h hb hfb

end Grounded

end Program

/-! ## What is accepted -/

theorem Draft.not_dvd_of_build {d : Draft} {p : Program} (hd : d.Made) (h : d.build = .ok p)
    {n : Nat} {f : FuncId} (hn : 0 < n) (hf : p.StepsOut n f f) :
    ¬ n ∣ p.functions.size + 1 := by
  rintro ⟨k, hk⟩
  obtain ⟨outer, houter, -⟩ :=
    TransGen.head'_iff.1 (Program.transGen_iff_stepsOut.2 ⟨n, hn, hf⟩)
  refine (enclosing_of_build hd h houter).2 ?_
  unfold Program.outermost
  rw [hk]
  exact (hf.mul k).climb_eq

/-- In an accepted program chains of enclosing functions stay in the table, and a circle has no
length that divides the number of functions and one.  Each function whose chain runs into no circle
lies in a top-level function, is in a batch and gets a summary. -/
theorem grounded_of_build {d : Draft} {p : Program} (hd : d.Made) (h : d.build = .ok p) :
    (∀ f g, p.enclosing? f = some g → (p.function? g).isSome) ∧
      (∀ n f, 0 < n → p.StepsOut n f f → ¬ n ∣ p.functions.size + 1) ∧
      ∀ f, (p.function? f).isSome →
        (p.Grounded f ↔ ¬ ∃ n g, 0 < n ∧ p.LiesIn f g ∧ p.StepsOut n g g) ∧
        (p.Grounded f →
          (∃ b ∈ (Plan.ofProgram p).batches, f ∈ b.functions) ∧
          ∀ m c report, (analyze c p m).result = .ok report → (report.summary? f).isSome) := by
  have hp : p.Indexed := (Draft.owned_of_build hd h).functions
  have hin : ∀ f g, p.enclosing? f = some g → (p.function? g).isSome :=
    fun _ _ hfg => (Draft.enclosing_of_build hd h hfg).1
  refine ⟨hin, fun _ _ => Draft.not_dvd_of_build hd h, fun f hf => ?_⟩
  refine ⟨Program.grounded_iff hin hf, fun hground => ?_⟩
  exact ⟨Program.Grounded.exists_batch hp hground,
    fun _ _ _ => Program.Grounded.isSome_summary? hp hground⟩

/-- Two closures in each other, and a function with a closure. -/
theorem grounded_of_build_beside :
    ∃ (d : Draft) (p : Program), d.Made ∧ d.build = .ok p ∧
      ¬ p.Grounded ⟨0⟩ ∧ ∃ b ∈ (Plan.ofProgram p).batches, ⟨3⟩ ∈ b.functions := by
  have hmade := (((Draft.Made.empty.closure ⟨1⟩ "a").closure ⟨0⟩ "b").function "f").closure ⟨2⟩ "c"
  refine ⟨_, _, hmade, rfl, ?_, ?_⟩
  · obtain ⟨-, -, hf⟩ := grounded_of_build hmade rfl
    refine fun hground => (hf ⟨0⟩ rfl).1.1 hground ⟨2, ⟨0⟩, by decide, .refl, ?_⟩
    exact ⟨⟨1⟩, rfl, ⟨0⟩, rfl, rfl⟩
  · obtain ⟨-, -, hf⟩ := grounded_of_build hmade rfl
    exact ((hf ⟨3⟩ rfl).2 ⟨⟨2⟩, .single rfl, rfl, rfl⟩).1

def mutualClosures : Program where
  functions := #[
    { id := ⟨0⟩, name := "a", enclosing := some ⟨1⟩ },
    { id := ⟨1⟩, name := "b", enclosing := some ⟨0⟩ }]

/-- An accepted program of two closures that enclose each other.  Neither of them is in a batch, and
the analysis ends well without a summary for them. -/
theorem circle_of_build :
    ∃ (d : Draft) (p : Program) (report : Report), d.Made ∧ d.build = .ok p ∧
      p.enclosing? ⟨0⟩ = some ⟨1⟩ ∧ p.enclosing? ⟨1⟩ = some ⟨0⟩ ∧
      (Plan.ofProgram p).batches = [] ∧
      (analyze (Config.ofPreset .custom) p).result = .ok report ∧
      report.summary? ⟨0⟩ = none ∧ report.summary? ⟨1⟩ = none := by
  have hmade : (⟨mutualClosures, 0⟩ : Draft).Made :=
    (Draft.Made.empty.closure ⟨1⟩ "a").closure ⟨0⟩ "b"
  have hbatches : (Plan.ofProgram mutualClosures).batches = [] := by cbv
  have hreport : (analyze (Config.ofPreset .custom) mutualClosures).result.map
      (fun report => (report.summary? ⟨0⟩, report.summary? ⟨1⟩)) = .ok (none, none) := by cbv
  obtain ⟨report, hreport, heq⟩ := exists_of_map_eq_ok hreport
  obtain ⟨h₀, h₁⟩ := Prod.mk.inj heq
  exact ⟨_, _, report, hmade, rfl, rfl, rfl, hbatches, hreport, h₀, h₁⟩

end EscapeFlow
